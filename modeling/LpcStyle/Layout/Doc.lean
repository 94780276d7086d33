import LpcStyle.Text.Width

/-!
Layout documents: texts with the places where a line may or must end. A group is laid out on one line if it fits and is
broken at all its own places otherwise. The constructor functions drop empty parts, so that what follows a line end
is never an empty document unless it was asked for.
-/

namespace LpcStyle

inductive Doc where
  | nil
  | text (text : List Char)
  /-- a line end in any case -/
  | hardline
  /-- one document in a broken group, another in one that stays on a line -/
  | flatAlt (broken flat : Doc)
  | group (doc : Doc)
  /-- indentation after the line ends of the document -/
  | nest (amount : Int) (doc : Doc)
  | append (first second : Doc)
deriving DecidableEq, Repr, Inhabited

namespace Doc

/-- one document after the other -/
def andThen : Doc → Doc → Doc
  | nil, b => b
  | a, nil => a
  | a, b => append a b

instance : Append Doc := ⟨andThen⟩

/-- a text; an empty one is no document -/
def word (text : List Char) : Doc := if text.isEmpty then nil else .text text

def lit (text : String) : Doc := word text.toList

/-- the document as a group, unless a group makes no difference -/
def grouped : Doc → Doc
  | nil => nil
  | text t => text t
  | group d => group d
  | d => group d

def nested (amount : Int) : Doc → Doc
  | nil => nil
  | d => if amount = 0 then d else nest amount d

/-- a space, or a line end if the group breaks -/
def line : Doc := flatAlt hardline (text [' '])

/-- nothing, or a line end if the group breaks -/
def softline : Doc := flatAlt hardline nil

/-- prints nothing and keeps the groups around it from fitting on a line -/
def breakParent : Doc := flatAlt nil hardline

def concat (docs : List Doc) : Doc := docs.foldl (· ++ ·) nil

def join (separator : Doc) : List Doc → Doc
  | [] => nil
  | d :: ds => ds.foldl (fun done d => done ++ separator ++ d) d

/-- number of constructors: a bound on the steps it takes to lay the document out -/
def weight : Doc → Nat
  | nil | text _ | hardline => 1
  | flatAlt a b | append a b => 1 + a.weight + b.weight
  | group d | nest _ d => 1 + d.weight

@[simp] theorem nil_append (d : Doc) : nil ++ d = d := by cases d <;> rfl

@[simp] theorem append_nil (d : Doc) : d ++ nil = d := by cases d <;> rfl

end Doc

end LpcStyle

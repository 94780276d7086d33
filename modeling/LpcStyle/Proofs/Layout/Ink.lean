import Mathlib.Tactic
import LpcStyle.Proofs.Layout.Layouts
import LpcStyle.Proofs.Text.Sieve

/-!
What a layout document prints, whatever its lines are broken into. A document is even under a sieve if the two sides of
each of its alternatives print the same characters that count. Then the choice between them, so the width and all that
depends on it, has no say in what is printed:
- `sift_lays`: every layout of an even document prints its ink.
-/

namespace LpcStyle

open Text

namespace Doc

variable (v : Sieve)

/-- the characters that count in a document, its groups broken -/
def ink : Doc → List Char
  | nil | hardline => []
  | text t => v.sift t
  | flatAlt broken _ => broken.ink
  | group d | nest _ d => d.ink
  | append a b => a.ink ++ b.ink

/-- both sides of every alternative print the same characters that count -/
def Even : Doc → Prop
  | nil | hardline | text _ => True
  | flatAlt broken flat => broken.Even ∧ flat.Even ∧ broken.ink v = flat.ink v
  | group d | nest _ d => d.Even
  | append a b => a.Even ∧ b.Even

/-! ## The constructor functions -/

@[simp] theorem ink_nil : ink v nil = [] := rfl

@[simp] theorem ink_hardline : ink v hardline = [] := rfl

@[simp] theorem ink_line : ink v line = [] := rfl

@[simp] theorem ink_softline : ink v softline = [] := rfl

@[simp] theorem ink_breakParent : ink v breakParent = [] := rfl

@[simp] theorem ink_andThen (a b : Doc) : ink v (a ++ b) = ink v a ++ ink v b := by
  show ink v (a.andThen b) = _
  cases a <;> cases b <;> simp [andThen, ink]

@[simp] theorem ink_word (t : List Char) : ink v (word t) = v.sift t := by
  cases t <;> simp [word, ink]

theorem ink_lit (t : String) : ink v (lit t) = v.sift t.toList := ink_word v t.toList

@[simp] theorem ink_grouped (d : Doc) : ink v d.grouped = ink v d := by cases d <;> rfl

@[simp] theorem ink_nested (amount : Int) (d : Doc) : ink v (d.nested amount) = ink v d := by
  cases d <;> simp only [nested, ink] <;> split <;> rfl

@[simp] theorem ink_flatAlt (a b : Doc) : ink v (flatAlt a b) = ink v a := rfl

theorem ink_foldl (done : Doc) (ds : List Doc) :
    ink v (ds.foldl (· ++ ·) done) = ink v done ++ ds.flatMap (ink v) := by
  induction ds generalizing done with
  | nil => simp
  | cons d ds ih => simp [ih]

@[simp] theorem ink_concat (ds : List Doc) : ink v (concat ds) = ds.flatMap (ink v) := by
  simp [concat, ink_foldl]

theorem ink_joined (separator done : Doc) (ds : List Doc) :
    ink v (ds.foldl (fun done d => done ++ separator ++ d) done) =
      ink v done ++ ds.flatMap fun d => ink v separator ++ ink v d := by
  induction ds generalizing done with
  | nil => simp
  | cons d ds ih => simp [ih]

/-- documents joined by a separator that prints nothing that counts -/
theorem ink_join {separator : Doc} (h : ink v separator = []) (ds : List Doc) :
    ink v (join separator ds) = ds.flatMap (ink v) := by
  cases ds with
  | nil => rfl
  | cons d ds => simp [join, ink_joined, h]

@[simp] theorem even_nil : Even v nil := trivial

@[simp] theorem even_hardline : Even v hardline := trivial

@[simp] theorem even_line : Even v line := ⟨trivial, trivial, by simp [ink]⟩

@[simp] theorem even_softline : Even v softline := ⟨trivial, trivial, rfl⟩

@[simp] theorem even_breakParent : Even v breakParent := ⟨trivial, trivial, rfl⟩

@[simp] theorem even_andThen (a b : Doc) : Even v (a ++ b) ↔ Even v a ∧ Even v b := by
  show Even v (a.andThen b) ↔ _
  cases a <;> cases b <;> simp [andThen, Even]

@[simp] theorem even_word (t : List Char) : Even v (word t) := by
  cases t <;> simp [word, Even]

@[simp] theorem even_lit (t : String) : Even v (lit t) := even_word v t.toList

@[simp] theorem even_grouped (d : Doc) : Even v d.grouped ↔ Even v d := by cases d <;> rfl

@[simp] theorem even_nested (amount : Int) (d : Doc) : Even v (d.nested amount) ↔ Even v d := by
  cases d <;> simp only [nested] <;> split <;> rfl

theorem even_foldl (done : Doc) (ds : List Doc) :
    Even v (ds.foldl (· ++ ·) done) ↔ Even v done ∧ ∀ d ∈ ds, Even v d := by
  induction ds generalizing done with
  | nil => simp
  | cons d ds ih => simp [ih, and_assoc]

@[simp] theorem even_concat (ds : List Doc) : Even v (concat ds) ↔ ∀ d ∈ ds, Even v d := by
  simp [concat, even_foldl]

theorem even_joined {separator : Doc} (hs : Even v separator) (done : Doc) (ds : List Doc) :
    Even v (ds.foldl (fun done d => done ++ separator ++ d) done) ↔ Even v done ∧ ∀ d ∈ ds, Even v d := by
  induction ds generalizing done with
  | nil => simp
  | cons d ds ih => simp [ih, hs, and_assoc]

theorem even_join {separator : Doc} (hs : Even v separator) {ds : List Doc} (h : ∀ d ∈ ds, Even v d) :
    Even v (join separator ds) := by
  cases ds with
  | nil => trivial
  | cons d ds => exact (even_joined v hs d ds).2 ⟨h d (by simp), fun e he => h e (by simp [he])⟩

end Doc

/-! ## Laying out -/

/-- **Every layout of an even document prints its ink.** -/
theorem Doc.sift_lays (v : Sieve) {flat : Bool} {d : Doc} {t : List Char} (h : d.Even v) (hlays : d.Lays flat t) :
    v.sift t = d.ink v := by
  induction hlays with
  | nil => rfl
  | text t => rfl
  | hardline indent =>
    rw [v.sift_cons, v.sift_lineFeed, v.sift_replicate (by decide)]
    rfl
  | broken _ ih => exact ih h.1
  | flat _ ih => exact (ih h.2.1).trans h.2.2.symm
  | group _ ih | onLine _ ih | nest _ ih => exact ih h
  | append _ _ iha ihb => rw [v.sift_append, iha h.1, ihb h.2, ink]

end LpcStyle

import LpcStyle.Layout.Doc

/-!
Laying a document out in lines of a given width. The machine works on a stack of documents, each with its indentation
and with whether the group around it stays on its line.
-/

namespace LpcStyle

/-- a document that is still to be laid out -/
structure Command where
  indent : Nat
  flat : Bool
  doc : Doc
deriving DecidableEq, Repr

namespace Layout

/-- whether the documents `flat`, on one line, and what comes after them up to the next line end fit into the width -/
def fits (width : Nat) : Nat → Nat → List Doc → List Doc → Bool
  | 0, _, _, _ => true
  | _, _, [], [] => true
  | fuel + 1, column, d :: ds, rest =>
    match d with
    | .nil => fits width fuel column ds rest
    | .text t => column + Text.width t ≤ width && fits width fuel (column + Text.width t) ds rest
    | .hardline => false
    | .flatAlt _ flat => fits width fuel column (flat :: ds) rest
    | .group d | .nest _ d => fits width fuel column (d :: ds) rest
    | .append a b => fits width fuel column (a :: b :: ds) rest
  | fuel + 1, column, [], d :: ds =>
    match d with
    | .nil => fits width fuel column [] ds
    | .text t => column + Text.width t ≤ width && fits width fuel (column + Text.width t) [] ds
    | .hardline => true
    | .flatAlt broken _ => fits width fuel column [] (broken :: ds)
    | .group d | .nest _ d => fits width fuel column [] (d :: ds)
    | .append a b => fits width fuel column [] (a :: b :: ds)

/-- an indentation moved by an amount, never below zero -/
def shift (indent : Nat) (amount : Int) : Nat := (indent + amount).toNat

/-- lays out the stack from a column on. A line end takes the indentation of what comes next on the stack -/
def run (width : Nat) : Nat → Nat → List Command → List Char
  | 0, _, _ => []
  | _, _, [] => []
  | fuel + 1, column, ⟨indent, flat, doc⟩ :: rest =>
    match doc with
    | .nil => run width fuel column rest
    | .text t => t ++ run width fuel (column + Text.width t) rest
    | .hardline =>
      let next := (rest.head?.map Command.indent).getD indent
      '\n' :: List.replicate next ' ' ++ run width fuel next rest
    | .flatAlt broken onLine => run width fuel column (⟨indent, flat, if flat then onLine else broken⟩ :: rest)
    | .group d =>
      run width fuel column (⟨indent, flat || fits width fuel column [d] (rest.map Command.doc), d⟩ :: rest)
    | .nest amount d => run width fuel column (⟨shift indent amount, flat, d⟩ :: rest)
    | .append a b => run width fuel column (⟨indent, flat, a⟩ :: ⟨indent, flat, b⟩ :: rest)

end Layout

/-- the document in lines of the given width -/
def Doc.render (width : Nat) (d : Doc) : List Char := Layout.run width (d.weight + 1) 0 [⟨0, false, d⟩]

end LpcStyle

import Mathlib.Tactic
import LpcStyle.Grammar.Reading
import LpcStyle.Proofs.Text.Rows
import LpcStyle.Proofs.Tree.Parts

/-!
Trees that can be read again from their source. Every range that a node or a piece of text was read from has its ends in
order and between characters of the source, and selects there what the node holds.
- `Boundary`, `Span.Selects`: offsets between characters, and spans from one such offset to a later one;
- `Node.Legible`: a node all of whose ranges are such spans.
-/

namespace LpcStyle

namespace Text

/-! ## Ranges of a text -/

/-- an offset between two characters of a text, or at one of its ends -/
def Boundary (text : List Char) (offset : Nat) : Prop := ∃ front back, text = front ++ back ∧ byteLength front = offset

/-- a span from one boundary to another that does not come before it -/
structure Span.Selects (text : List Char) (span : Span) : Prop where
  ordered : span.start ≤ span.stop
  start : Boundary text span.start
  stop : Boundary text span.stop

variable {text part front back : List Char} {span : Span} {i j : Nat}

theorem Boundary.min (hi : Boundary text i) (hj : Boundary text j) : Boundary text (min i j) := by
  rcases le_total i j with h | h
  · rwa [min_eq_left h]
  · rwa [min_eq_right h]

theorem Boundary.max (hi : Boundary text i) (hj : Boundary text j) : Boundary text (max i j) := by
  rcases le_total i j with h | h
  · rwa [max_eq_right h]
  · rwa [max_eq_left h]

/-- **A span between boundaries selects something.** -/
theorem Span.Selects.slice? (h : span.Selects text) : slice? text span = some (slice text span) := by
  obtain ⟨before, tail, rfl, hstart⟩ := h.start
  obtain ⟨head, after, htext, hstop⟩ := h.stop
  have hpart : ∃ part, Text.slice? (before ++ tail) span = some part := by
    rcases List.append_eq_append_iff.1 htext with ⟨part, rfl, rfl⟩ | ⟨part, rfl, rfl⟩
    · exact ⟨part, slice?_eq_some_iff.2 ⟨before, after, by simp, hstart, by simpa [hstart] using hstop⟩⟩
    · -- the end comes first only if nothing is in between
      have hle := h.ordered
      rw [← hstart, ← hstop, byteLength_append] at hle
      have hempty : part = [] := by
        by_contra hne
        have := byteLength_pos_of_ne_nil hne
        omega
      subst hempty
      exact ⟨[], slice?_eq_some_iff.2 ⟨head, tail, by simp, by simpa using hstart, by simpa [← hstart] using hstop⟩⟩
  obtain ⟨part, hpart⟩ := hpart
  rw [slice, hpart, Option.getD_some]

/-- what stands between two boundaries can be sliced -/
theorem Boundary.slice? (hi : Boundary text i) (hj : Boundary text j) (h : i ≤ j) :
    slice? text ⟨i, j⟩ = some (slice text ⟨i, j⟩) := Span.Selects.slice? ⟨h, hi, hj⟩

theorem selects_of_slice? (h : slice? text span = some part) : span.Selects text := by
  obtain ⟨before, after, rfl, hstart, hstop⟩ := slice?_eq_some_iff.1 h
  exact ⟨by omega, ⟨before, part ++ after, by simp, hstart⟩, ⟨before ++ part, after, rfl, by simpa [hstart] using hstop⟩⟩

/-- a part of what a span selects is selected by itself -/
theorem slice?_inner (h : slice? text span = some (front ++ part ++ back)) :
    slice? text ⟨span.start + byteLength front, span.start + byteLength front + byteLength part⟩ = some part := by
  obtain ⟨before, after, rfl, hstart, -⟩ := slice?_eq_some_iff.1 h
  exact slice?_eq_some_iff.2 ⟨before ++ front, back ++ after, by simp, by simp [hstart], rfl⟩

end Text

open Text

/-! ## Nodes -/

/-- the span of the piece selects its text -/
def Lexeme.Copied (text : List Char) (l : Lexeme) : Prop := slice? text l.span = some l.text

/-- the span of the comment selects its text -/
def Comment.Copied (text : List Char) (c : Comment) : Prop := slice? text c.span = some c.text

/-- what a form holds besides its parts is selected by its spans; a string, a character or a text block has no blank at
either end. The place behind the opening bracket of an array is a boundary, and the iterable of a loop starts behind its
variables -/
def Shape.Legible (text : List Char) (span : Span) : Shape Node → Prop
  | .literal kind own => slice? text span = some own ∧ (kind = .string ∨ kind = .char → Trimmed own)
  | .textBlock own => slice? text span = some own ∧ Trimmed own
  | .identifier own | .comment _ own | .closureSymbol own | .closureIndex own => slice? text span = some own
  | .binary _ op _ implied => implied = false → op.Copied text
  | .logical _ piece _ | .assignment _ piece _ | .unary piece _ | .typeCast piece _ _ | .structLiteral piece _ =>
    piece.Copied text
  | .varDecl modifiers typeName _ | .function modifiers typeName _ _ _ _ =>
    ∀ l ∈ modifiers ++ typeName.toList, l.Copied text
  | .inherit modifiers _ => ∀ l ∈ modifiers, l.Copied text
  | .directive name key args => ∀ l ∈ name :: (key.toList ++ args), l.Copied text
  | .codeBlock openComment _ => ∀ c ∈ openComment, c.Copied text
  | .array _ => Boundary text (span.start + 2)
  | .foreachLoop vars iterable _ => ∀ v ∈ vars.getLast?, v.stop ≤ iterable.start
  | _ => True

/-- **All ranges of the node are ranges of the text**, and select what the node holds. -/
inductive Node.Legible (text : List Char) : Node → Prop where
  | mk {span : Span} {shape : Shape Node} {suffix : Option Comment} (range : span.Selects text)
      (own : shape.Legible text span) (trail : ∀ c ∈ suffix, c.Copied text) (parts : ∀ k ∈ shape.parts, Legible text k) :
      Legible text (.mk span shape suffix)

variable {text : List Char} {span : Span} {shape : Shape Node} {suffix : Option Comment} {n : Node} {c : Comment}

namespace Node.Legible

theorem range (h : n.Legible text) : n.span.Selects text := by
  cases h with
  | mk range _ _ _ => exact range

theorem start (h : n.Legible text) : Boundary text n.start := h.range.start

theorem stop (h : n.Legible text) : Boundary text n.stop := h.range.stop

theorem own (h : (Node.mk span shape suffix).Legible text) : shape.Legible text span := by
  cases h with
  | mk _ own _ _ => exact own

theorem trail (h : (Node.mk span shape suffix).Legible text) : ∀ c ∈ suffix, c.Copied text := by
  cases h with
  | mk _ _ trail _ => exact trail

theorem parts (h : (Node.mk span shape suffix).Legible text) : ∀ k ∈ shape.parts, k.Legible text := by
  cases h with
  | mk _ _ _ parts => exact parts

theorem ofComment (h : c.Copied text) : (Node.ofComment c).Legible text :=
  ⟨selects_of_slice? h, h, by simp, by simp [Shape.parts]⟩

theorem withSuffix (h : n.Legible text) (hc : c.Copied text) : (n.withSuffix c).Legible text := by
  cases h with
  | mk range own _ parts => exact ⟨range, own, by simpa using hc, parts⟩

end Node.Legible

/-- all nodes of a list are -/
def AllLegible (text : List Char) (ns : List Node) : Prop := ∀ n ∈ ns, n.Legible text

/-- all comments of a list are -/
def AllCopied (text : List Char) (cs : List Comment) : Prop := ∀ c ∈ cs, c.Copied text

namespace AllLegible

variable {ns ms : List Node} {cs : List Comment}

theorem nil : AllLegible text [] := by simp [AllLegible]

theorem cons (hn : n.Legible text) (hns : AllLegible text ns) : AllLegible text (n :: ns) :=
  List.forall_mem_cons.2 ⟨hn, hns⟩

theorem append (hns : AllLegible text ns) (hms : AllLegible text ms) : AllLegible text (ns ++ ms) :=
  List.forall_mem_append.2 ⟨hns, hms⟩

theorem reverse (h : AllLegible text ns) : AllLegible text ns.reverse := fun n hn => h n (List.mem_reverse.1 hn)

theorem comments (h : AllCopied text cs) : AllLegible text (cs.map Node.ofComment) :=
  List.forall_mem_map.2 fun c hc => .ofComment (h c hc)

end AllLegible

theorem Node.Legible.adopt {cs : List Comment} (h : n.Legible text) (hcs : AllCopied text cs) :
    (n.adopt cs).1.Legible text ∧ AllCopied text (n.adopt cs).2 := by
  cases cs with
  | nil => exact ⟨h, hcs⟩
  | cons c cs =>
    obtain ⟨hc, hrest⟩ := List.forall_mem_cons.1 hcs
    rw [Node.adopt]
    split
    · exact ⟨h, hcs⟩
    · exact ⟨h.withSuffix hc, hrest⟩

end LpcStyle

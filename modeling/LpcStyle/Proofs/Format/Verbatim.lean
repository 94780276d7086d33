import Mathlib.Tactic
import LpcStyle.Format
import LpcStyle.Proofs.Grammar.Draws.Statement
import LpcStyle.Proofs.Style.Within
import LpcStyle.Proofs.Text.Finish

/-!
Formatting and program data. The text of a string, a character or a text block goes into the layout as it was written,
wherever the node stands (`slice_within_render`). The last pass works on lines without knowing whose they are, so it
drops the blanks at the end of each line of such a text too, and turns the spaces a line starts with into tabs if tabs
are wanted. Main statement: `slice_within_format`.
-/

namespace LpcStyle

open Text

/-- strings, characters and text blocks -/
def Shape.isData {α : Type} : Shape α → Bool
  | .literal .string _ | .literal .char _ | .textBlock _ => true
  | _ => false

variable {text : List Char}

theorem Node.Legible.inside {n k : Node} (h : n.Legible text) (hk : k.Inside n) : k.Legible text := by
  induction hk with
  | self => exact h
  | part hm _ ih => exact ih (h.parts _ hm)

/-- a node that holds data is laid out as its source text -/
theorem Node.Legible.lays {k : Node} (h : k.Legible text) (hdata : k.shape.isData = true) (env : Style.Env)
    (place : Style.Place) {flat : Bool} {t : List Char} (ht : (Style.print env place k).bare.Lays flat t) :
    t = slice text k.span ∧ Trimmed t := by
  obtain ⟨span, shape, suffix⟩ := k
  have hown : shape.Legible text span := h.own
  have hword {own : List Char} (hslice : slice? text span = some own) (htrimmed : Trimmed own)
      (ht : (Doc.word (trim own)).Lays flat t) : t = slice text span ∧ Trimmed t := by
    rw [Doc.lays_word, htrimmed.trim_eq] at ht
    rw [ht, slice, hslice]
    exact ⟨rfl, htrimmed⟩
  simp only [Style.print] at ht
  rw [Node.span]
  cases shape with
  | literal kind own =>
    cases kind with
    | string => exact hword hown.1 (hown.2 (.inl rfl)) ht
    | char => exact hword hown.1 (hown.2 (.inr rfl)) ht
    | _ => simp [Node.shape, Shape.isData] at hdata
  | textBlock own => exact hword hown.1 hown.2 ht
  | _ => simp [Node.shape, Shape.isData] at hdata

/-- **Data goes into the layout as it was written.** -/
theorem slice_within_render {d : Document} (h : parse text = .ok d) (o : Options) {n k : Node} (hn : n ∈ d.roots)
    (hk : k.Inside n) (hdata : k.shape.isData = true) :
    Trimmed (slice text k.span) ∧
      slice text k.span <:+: (Style.sourceFile ⟨o, d.text, d.forest⟩ d.roots).render o.printWidth := by
  obtain ⟨-, hroots⟩ := legible_parse h
  obtain ⟨place, hholds⟩ := Style.holds_sourceFile ⟨o, d.text, d.forest⟩ hn hk
  obtain ⟨flat, t, ht, hinside⟩ := hholds _ _ (Doc.lays_render o.printWidth _)
  obtain ⟨rfl, htrimmed⟩ := ((hroots n hn).inside hk).lays hdata _ _ ht
  exact ⟨htrimmed, hinside⟩

/-- **Data is printed as it was written**, up to the last pass over its lines: for every string, character and text block
of a text that can be read, the finished lines of its source text stand in the result as they are. -/
theorem slice_within_format {d : Document} (h : parse text = .ok d) (o : Options) :
    ∃ out, format o text = .ok out ∧ ∀ n ∈ d.roots, ∀ k : Node, k.Inside n → k.shape.isData = true →
      Layout.finishLines o.useTabs o.tabWidth (slice text k.span) <:+: out := by
  refine ⟨d.print o, by rw [format, h]; rfl, fun n hn k hk hdata => ?_⟩
  obtain ⟨htrimmed, hinside⟩ := slice_within_render h o hn hk hdata
  exact Layout.finish_within _ _ htrimmed hinside

/-- a text block and a string over two lines that starts with spaces, to be printed with tabs -/
def indentedBlock : List Char := "x = @END\n    a\nEND;\ny = \x22b\n      c\x22;".toList

theorem slice_within_format_indentedBlock : ∃ d, parse indentedBlock = .ok d ∧
    ∃ out, format { useTabs := true } indentedBlock = .ok out ∧ ∀ n ∈ d.roots, ∀ k : Node, k.Inside n →
      k.shape.isData = true → Layout.finishLines true 2 (slice indentedBlock k.span) <:+: out := by
  have hparse : (parse indentedBlock).toOption.isSome = true := by decide +kernel
  cases hd : parse indentedBlock with
  | error e => simp [hd, Except.toOption] at hparse
  | ok d => exact ⟨d, rfl, slice_within_format hd { useTabs := true }⟩

/-- a string over two lines, the first with a blank at its end -/
def brokenString : List Char := "x = \x22a \nb\x22;".toList

/-- the right side of an assignment that is the only statement -/
def assigned? (d : Document) : Option Node :=
  match d.roots with
  | [.mk _ (.assignment _ _ (some right)) _] => some right
  | _ => none

theorem assigned?_inside {d : Document} {k : Node} (h : assigned? d = some k) : ∃ n ∈ d.roots, k.Inside n := by
  unfold assigned? at h
  split at h
  · next hroots =>
    cases h
    refine ⟨_, by rw [hroots]; exact List.mem_singleton_self _, .part ?_ .self⟩
    simp [Shape.parts]
  · cases h

/-- the blank is dropped, and with it the string is another one -/
theorem format_brokenString : ∃ d out, parse brokenString = .ok d ∧ format {} brokenString = .ok out ∧
    ∃ n ∈ d.roots, ∃ k : Node, k.Inside n ∧ k.shape.isData = true ∧ ¬ slice brokenString k.span <:+: out := by
  have hcheck : (match parse brokenString, format {} brokenString with
      | .ok d, .ok out => (assigned? d).any fun k => k.shape.isData && !decide (slice brokenString k.span <:+: out)
      | _, _ => false) = true := by
    decide +kernel
  split at hcheck
  · next d out hd hout =>
    obtain ⟨k, hk, hcheck⟩ := (Option.any_eq_true _ _).1 hcheck
    obtain ⟨n, hn, hinside⟩ := assigned?_inside hk
    simp only [Bool.and_eq_true, Bool.not_eq_true', decide_eq_false_iff_not] at hcheck
    exact ⟨d, out, hd, hout, n, hn, k, hinside, hcheck⟩
  · cases hcheck

end LpcStyle

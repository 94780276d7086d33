import Mathlib.Tactic
import LpcStyle.Format
import LpcStyle.Proofs.Style.Alike

/-!
Settings move blanks only. Two runs over the same text may choose other lines, other separators and another indentation;
what they print has the same characters in the same order, if blanks, commas and the backslashes at the ends of broken
preprocessor lines do not count. Main statement: `substance_format`.
-/

namespace LpcStyle

open Text

/-- blanks, commas and backslashes do not count -/
def substanceSieve : Sieve where
  passes c := !isBlank c && c != ',' && c != '\\'
  not_blank h := by simp [h]
  not_comma := by simp

/-- the text without its blanks, commas and backslashes -/
def substance (text : List Char) : List Char := substanceSieve.sift text

/-- every layout of a document has its substance -/
theorem substance_lays (d : Document) (options : Options) {t : List Char}
    (hlays : (Style.sourceFile ⟨options, d.text, d.forest⟩ d.roots).Lays false t) :
    substance (Layout.finish options.useTabs options.tabWidth t) =
      (Style.sourceFile ⟨options, d.text, d.forest⟩ d.roots).ink substanceSieve := by
  have heven : (Style.sourceFile ⟨options, d.text, d.forest⟩ d.roots).Even substanceSieve := by
    simp only [Style.sourceFile]
    split
    · trivial
    · have hroots : ∀ p ∈ d.roots.map (Style.print ⟨options, d.text, d.forest⟩ .listed), p.bare.Even substanceSieve := by
        simpa using fun n _ => Style.even_print _ n (.inl rfl) _
      simp [Style.even_statements hroots]
  rw [substance, substanceSieve.sift_finish, Doc.sift_lays _ heven hlays]

/-- **A document prints the same substance under all settings.** -/
theorem substance_print (d : Document) (a b : Options) : substance (d.print a) = substance (d.print b) := by
  have hroots : Style.AllAlike substanceSieve (d.roots.map (Style.print ⟨a, d.text, d.forest⟩ .listed))
      (d.roots.map (Style.print ⟨b, d.text, d.forest⟩ .listed)) := by
    rw [Style.AllAlike, List.forall₂_map_left_iff, List.forall₂_map_right_iff, List.forall₂_same]
    exact fun n _ => Style.alike_print ⟨a, d.text, d.forest⟩ ⟨b, d.text, d.forest⟩ rfl n .listed
  rw [Document.print, Document.print, substance_lays d a (Doc.lays_render _ _), substance_lays d b (Doc.lays_render _ _)]
  simp only [Style.sourceFile, Style.printAll_eq_map]
  split
  · rfl
  · rw [Doc.ink_andThen, Doc.ink_andThen, Style.alike_statements hroots]

/-- **Settings only move the layout**: a text that can be read is laid out under all settings, and under any two of them
the results agree, blanks, commas and backslashes aside. -/
theorem substance_format {text : List Char} {d : Document} (h : parse text = .ok d) (a b : Options) :
    ∃ out out', format a text = .ok out ∧ format b text = .ok out' ∧ substance out = substance out' := by
  refine ⟨d.print a, d.print b, ?_, ?_, substance_print d a b⟩
  · rw [format, h]
    rfl
  · rw [format, h]
    rfl

/-- a preprocessor line to be broken, an array to be laid out in pairs, comments and a block of one statement -/
def adjustable : List Char :=
  "#define TWICE(x) ((x) + (x)) /* both */\nmixed items = (\x7b 1, 2, // two\n 3, 4 \x7d);\nvoid f() \x7b if (x) \x7b g(); \x7d \x7d".toList

/-- narrow lines, tabs, trailing commas, and no block on one line -/
def narrow : Options :=
  { printWidth := 10, tabWidth := 4, useTabs := true, trailingComma := true, condenseSingleStatementBlocks := false }

theorem substance_format_adjustable : ∃ d, parse adjustable = .ok d ∧
    ∃ out out', format {} adjustable = .ok out ∧ format narrow adjustable = .ok out' ∧ substance out = substance out' := by
  have hparse : (parse adjustable).toOption.isSome = true := by decide +kernel
  cases hd : parse adjustable with
  | error e => simp [hd, Except.toOption] at hparse
  | ok d => exact ⟨d, rfl, substance_format hd {} narrow⟩

end LpcStyle

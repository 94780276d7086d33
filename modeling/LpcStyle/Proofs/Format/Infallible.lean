import Mathlib.Tactic
import LpcStyle.Proofs.Arena.Parse
import LpcStyle.Proofs.Grammar.Draws.Statement
import LpcStyle.Proofs.Grammar.Walks.Tree
import LpcStyle.Proofs.Style.Reprint
import LpcStyle.Proofs.Tree.Allocated

/-!
Printing a document that was read. The printer slices the text by ranges of nodes, takes the elements of an array two by
two and follows nodes to their parts, suffixes, parents and neighbours; on a document that was read none of these comes
to nothing. Main statement: `print_infallible`.
-/

namespace LpcStyle

open Text

variable {text : List Char} {d : Document}

/-- a comment that a lookup gives is one of the text -/
theorem marked_parse (h : parse text = .ok d) (options : Options) :
    Style.Env.Marked ⟨options, d.text, d.forest⟩ := by
  intro start span kind own hbefore
  have hlabel : (⟨span, .comment kind own⟩ : Label) ∈ d.listing.map (·.label) := by
    rw [Document.listing, Branch.map_label_listing]
    exact Branch.mem_of_nodeBefore? hbefore
  obtain ⟨e, he, hentry⟩ := List.mem_map.1 hlabel
  have hcomment : (⟨kind, span, own⟩ : Comment) ∈ d.listing.filterMap (·.label.comment?) :=
    List.mem_filterMap.2 ⟨e, he, by rw [hentry]; rfl⟩
  -- the comments of a listing are those of the text outside preprocessor lines, and comments are tokens
  have htoken := (commentsOutside_sublist _ _).subset ((comments_listing_parse h).mem_iff.1 hcomment)
  obtain ⟨t, ht, hof⟩ := List.mem_map.1 htoken
  have hslice := Stream.slice_ofText text t (List.mem_append_left _ (List.mem_filter.1 ht).1)
  have htext : d.text = text := (legible_parse h).1
  obtain ⟨-, hspan, hown⟩ := Comment.mk.inj hof
  rw [hspan, hown] at hslice
  rw [htext]
  exact hslice

/-- **Printing reaches no access that fails**: with all ranges of a document that was read being ranges of its text, a
layout that checks every range it slices and every pair it takes apart has a result for all settings, the one that is
printed; every node that is gone to on the way has an entry at its place; and in the store, where the same document is
read, it has a cell, and so has every key in that. -/
theorem print_infallible (h : parse text = .ok d) :
    AllLegible d.text d.roots ∧ (∀ options : Options, d.reprint options = some (d.print options)) ∧ d.Allocated ∧
      ∃ a, Arena.parse text = .ok a ∧ a.Allocated d := by
  obtain ⟨htext, hlegible⟩ := legible_parse h
  obtain ⟨a, ha, hholds, hlinked⟩ := Arena.exists_document h
  rw [← htext] at hlegible
  exact ⟨hlegible, fun options => Document.reprint_eq (marked_parse h options) hlegible, d.allocated, a, ha, hholds.allocated hlinked⟩

/-- an array in pairs behind its marker, a loop over variables, a struct, a text block, signs, a preprocessor line and
comments at the ends of lines -/
def assorted : List Char :=
  "// @prettier-pair é\nx = (\x7b \x22ü\x22, 1, b, - -2 \x7d); // → \n#define N(a) \\\n a\nf() \x7b /* o */ foreach (int i, string s in m) \x7b g(@END\nt\nEND\n); \x7d \x7d\nstruct p \x7b int a; \x7d;\n".toList

theorem print_infallible_assorted : ∃ d, parse assorted = .ok d ∧ d.roots.length = 5 ∧ AllLegible d.text d.roots ∧
    (∀ options : Options, d.reprint options = some (d.print options)) ∧ d.Allocated ∧
    ∃ a, Arena.parse assorted = .ok a ∧ a.Allocated d := by
  have hparse : ((parse assorted).toOption.map fun d => d.roots.length) = some 5 := by decide +kernel
  cases h : parse assorted with
  | error e =>
    rw [h] at hparse
    cases hparse
  | ok d =>
    rw [h] at hparse
    exact ⟨d, rfl, Option.some.inj hparse, print_infallible h⟩

end LpcStyle

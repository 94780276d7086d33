import Mathlib.Tactic
import LpcStyle.Proofs.Layout.Ink
import LpcStyle.Proofs.Text.Rows
import LpcStyle.Style.Printer

/-!
Documents that leave nothing to choose: texts, line ends and groups of them without alternatives or indentation. They are
laid out in one way only: `render_fixed`. So a source file with one such statement has one layout: `print_fixed`.
-/

namespace LpcStyle

open Text

namespace Doc

/-- the text of a document without alternatives and indentation -/
def fixed? : Doc → Option (List Char)
  | nil => some []
  | text t => some t
  | hardline => some ['\n']
  | group d => d.fixed?
  | append a b => a.fixed?.bind fun s => b.fixed?.map (s ++ ·)
  | flatAlt .. | nest .. => none

theorem fixed_nil : nil.fixed? = some [] := rfl

theorem fixed_hardline : hardline.fixed? = some ['\n'] := rfl

theorem fixed_word (t : List Char) : (word t).fixed? = some t := by
  cases t <;> rfl

theorem fixed_lit (t : String) : (lit t).fixed? = some t.toList := fixed_word t.toList

theorem fixed_andThen {a b : Doc} {s t : List Char} (ha : a.fixed? = some s) (hb : b.fixed? = some t) :
    (a ++ b).fixed? = some (s ++ t) := by
  change (a.andThen b).fixed? = some (s ++ t)
  by_cases hnil : a = nil
  · subst hnil
    cases ha
    exact hb
  by_cases hnil' : b = nil
  · subst hnil'
    cases hb
    cases a <;> first | exact absurd rfl hnil | simpa [andThen] using ha
  · have happend : a.andThen b = append a b := by
      cases a <;> cases b <;> first | exact absurd rfl hnil | exact absurd rfl hnil' | rfl
    rw [happend, fixed?, ha, hb]
    rfl

theorem fixed_foldl {done : Doc} {s : List Char} {ds : List Doc} {texts : List (List Char)}
    (hdone : done.fixed? = some s) (h : ds.map fixed? = texts.map some) :
    (ds.foldl (· ++ ·) done).fixed? = some (s ++ texts.flatten) := by
  induction ds generalizing done s texts with
  | nil =>
    obtain rfl : texts = [] := by simpa using h.symm
    simpa using hdone
  | cons d ds ih =>
    obtain _ | ⟨t, texts⟩ := texts
    · simp at h
    simp only [List.map_cons, List.cons.injEq] at h
    simpa using ih (fixed_andThen hdone h.1) h.2

theorem fixed_concat {ds : List Doc} {texts : List (List Char)} (h : ds.map fixed? = texts.map some) :
    (concat ds).fixed? = some texts.flatten := by
  simpa [concat] using fixed_foldl fixed_nil h

end Doc

namespace Layout

/-- a stack of documents that leave nothing to choose, at the left margin, prints their texts -/
theorem run_fixed (width fuel column : Nat) {stack : List Command} (texts : List (List Char))
    (hfuel : stackWeight stack ≤ fuel) (hindent : ∀ c ∈ stack, c.indent = 0)
    (hfixed : stack.map (·.doc.fixed?) = texts.map some) : run width fuel column stack = texts.flatten := by
  induction fuel generalizing column stack texts with
  | zero =>
    cases stack with
    | nil =>
      obtain rfl : texts = [] := by simpa using hfixed.symm
      rfl
    | cons c rest =>
      have := weight_pos c.doc
      simp [stackWeight] at hfuel
      omega
  | succ fuel ih =>
    obtain _ | ⟨⟨indent, flat, doc⟩, rest⟩ := stack
    · obtain rfl : texts = [] := by simpa using hfixed.symm
      rfl
    obtain _ | ⟨t, texts⟩ := texts
    · simp at hfixed
    simp only [List.map_cons, List.cons.injEq] at hfixed
    obtain ⟨hdoc, htexts⟩ := hfixed
    obtain ⟨hzero, hrest⟩ := List.forall_mem_cons.1 hindent
    obtain rfl : indent = 0 := hzero
    simp only [stackWeight, List.map_cons, List.sum_cons] at hfuel
    cases doc with
    | nil =>
      obtain rfl := Option.some.inj hdoc
      simp only [Doc.weight] at hfuel
      simpa [run] using ih column texts (by simp only [stackWeight]; omega) hrest htexts
    | text s =>
      obtain rfl := Option.some.inj hdoc
      simp only [Doc.weight] at hfuel
      simp only [run, List.flatten_cons]
      rw [ih _ texts (by simp only [stackWeight]; omega) hrest htexts]
    | hardline =>
      obtain rfl := Option.some.inj hdoc
      simp only [Doc.weight] at hfuel
      have hnext : (rest.head?.map Command.indent).getD 0 = 0 := by
        cases rest with
        | nil => rfl
        | cons c rest => exact hrest c List.mem_cons_self
      simp only [run, hnext]
      rw [ih _ texts (by simp only [stackWeight]; omega) hrest htexts]
      rfl
    | flatAlt => simp [Doc.fixed?] at hdoc
    | nest => simp [Doc.fixed?] at hdoc
    | group d =>
      simp only [Doc.weight] at hfuel
      simp only [run]
      refine ih _ (t :: texts) (by simp only [stackWeight, List.map_cons, List.sum_cons]; omega)
        (List.forall_mem_cons.2 ⟨rfl, hrest⟩) ?_
      simpa [htexts, Doc.fixed?] using hdoc
    | append a b =>
      simp only [Doc.fixed?, Option.bind_eq_some_iff, Option.map_eq_some_iff] at hdoc
      obtain ⟨s, hs, u, hu, rfl⟩ := hdoc
      simp only [Doc.weight] at hfuel
      simp only [run]
      rw [ih _ (s :: u :: texts) (by simp only [stackWeight, List.map_cons, List.sum_cons]; omega)
        (List.forall_mem_cons.2 ⟨rfl, List.forall_mem_cons.2 ⟨rfl, hrest⟩⟩) (by simp [hs, hu, htexts])]
      simp

end Layout

/-- **A document that leaves nothing to choose prints its text**, at every width. -/
theorem Doc.render_fixed {d : Doc} {t : List Char} (h : d.fixed? = some t) (width : Nat) : d.render width = t := by
  rw [render, Layout.run_fixed width _ 0 [t] (by simp [Layout.stackWeight]) (by simp) (by simpa using h)]
  simp

/-- **A statement that leaves nothing to choose prints its rows**, each finished. -/
theorem Document.print_fixed {d : Document} {n : Node} (options : Options) {rows : List (List Char)} {front : List Char}
    {c : Char} (hroots : d.roots = [n]) (hc : isBlank c = false) (hrows : ∀ row ∈ rows ++ [front ++ [c]], '\n' ∉ row)
    (h : (Style.print ⟨options, d.text, d.forest⟩ .listed n).full.fixed? = some (join ['\n'] (rows ++ [front ++ [c]]))) :
    d.print options =
      join ['\n'] ((rows ++ [front ++ [c]]).map (Layout.finishLine options.useTabs options.tabWidth)) ++ ['\n'] := by
  have hfile : (Style.sourceFile ⟨options, d.text, d.forest⟩ d.roots).fixed? =
      some (join ['\n'] (rows ++ [front ++ [c]]) ++ ['\n']) := by
    rw [hroots]
    exact Doc.fixed_andThen h Doc.fixed_hardline
  rw [print, Doc.render_fixed hfile]
  exact Layout.finish_rows _ _ hc hrows

end LpcStyle

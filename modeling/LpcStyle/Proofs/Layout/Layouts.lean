import Mathlib.Tactic
import LpcStyle.Layout.Render

/-!
The layouts of a document. `d.Lays flat t` says that `t` is a layout of `d`, inside a group that stays on one line if
`flat`: then each alternative takes its flat side and no line end is possible. Every text that the renderer makes is a
layout (`lays_render`), so what holds of all layouts holds at every width.
-/

namespace LpcStyle

open Text

namespace Doc

/-- the texts that a document may be laid out as; a line end takes any indentation -/
inductive Lays : Bool → Doc → List Char → Prop
  | nil {flat : Bool} : Lays flat .nil []
  | text {flat : Bool} (t : List Char) : Lays flat (.text t) t
  | hardline (indent : Nat) : Lays false .hardline ('\n' :: List.replicate indent ' ')
  | broken {a b : Doc} {t : List Char} : Lays false a t → Lays false (.flatAlt a b) t
  | flat {a b : Doc} {t : List Char} : Lays true b t → Lays true (.flatAlt a b) t
  | group {flat : Bool} {d : Doc} {t : List Char} : Lays flat d t → Lays flat (.group d) t
  | onLine {d : Doc} {t : List Char} : Lays true d t → Lays false (.group d) t
  | nest {flat : Bool} {amount : Int} {d : Doc} {t : List Char} : Lays flat d t → Lays flat (.nest amount d) t
  | append {flat : Bool} {a b : Doc} {s t : List Char} : Lays flat a s → Lays flat b t → Lays flat (.append a b) (s ++ t)

variable {flat : Bool} {a b d : Doc} {t : List Char}

/-! ## The constructor functions -/

@[simp] theorem lays_nil : nil.Lays flat t ↔ t = [] := by
  constructor
  · rintro ⟨⟩
    rfl
  · rintro rfl
    exact .nil

@[simp] theorem lays_text {s : List Char} : (text s).Lays flat t ↔ t = s := by
  constructor
  · rintro ⟨⟩
    rfl
  · rintro rfl
    exact .text t

@[simp] theorem lays_hardline : hardline.Lays flat t ↔ flat = false ∧ ∃ n, t = '\n' :: List.replicate n ' ' := by
  constructor
  · rintro ⟨⟩
    exact ⟨rfl, _, rfl⟩
  · rintro ⟨rfl, n, rfl⟩
    exact .hardline n

theorem lays_append : (append a b).Lays flat t ↔ ∃ x y, t = x ++ y ∧ a.Lays flat x ∧ b.Lays flat y := by
  constructor
  · rintro ⟨⟩
    next x y hx hy => exact ⟨x, y, rfl, hx, hy⟩
  · rintro ⟨x, y, rfl, hx, hy⟩
    exact .append hx hy

theorem lays_andThen : (a ++ b).Lays flat t ↔ ∃ x y, t = x ++ y ∧ a.Lays flat x ∧ b.Lays flat y := by
  by_cases ha : a = nil
  · subst ha
    simp
  by_cases hb : b = nil
  · subst hb
    simp
  have happend : a ++ b = append a b := by
    change a.andThen b = _
    cases a <;> cases b <;> first | exact absurd rfl ha | exact absurd rfl hb | rfl
  rw [happend, lays_append]

@[simp] theorem lays_word {s : List Char} : (word s).Lays flat t ↔ t = s := by
  cases s <;> simp [word]

@[simp] theorem lays_lit {s : String} : (lit s).Lays flat t ↔ t = s.toList := lays_word

/-- a part that prints a fixed text at the front -/
theorem lays_word_andThen {s : List Char} : (word s ++ b).Lays flat t ↔ ∃ y, t = s ++ y ∧ b.Lays flat y := by
  simp [lays_andThen]

theorem lays_lit_andThen {s : String} : (lit s ++ b).Lays flat t ↔ ∃ y, t = s.toList ++ y ∧ b.Lays flat y :=
  lays_word_andThen

/-- a part that prints a fixed text at the end -/
theorem lays_andThen_lit {s : String} : (a ++ lit s).Lays flat t ↔ ∃ x, t = x ++ s.toList ∧ a.Lays flat x := by
  simp only [lays_andThen, lays_lit]
  constructor
  · rintro ⟨x, y, rfl, hx, rfl⟩
    exact ⟨x, rfl, hx⟩
  · rintro ⟨x, rfl, hx⟩
    exact ⟨x, _, rfl, hx, rfl⟩

theorem lays_flatAlt : (flatAlt a b).Lays flat t ↔ (if flat then b else a).Lays flat t := by
  constructor
  · rintro ⟨⟩
    · next h => exact h
    · next h => exact h
  · intro h
    cases flat
    · exact .broken h
    · exact .flat h

/-- a space, or a line end where the group breaks -/
theorem lays_line :
    line.Lays flat t ↔ (flat = true ∧ t = [' ']) ∨ flat = false ∧ ∃ n, t = '\n' :: List.replicate n ' ' := by
  cases flat <;> simp [line, lays_flatAlt]

/-- nothing, or a line end where the group breaks -/
theorem lays_softline :
    softline.Lays flat t ↔ (flat = true ∧ t = []) ∨ flat = false ∧ ∃ n, t = '\n' :: List.replicate n ' ' := by
  cases flat <;> simp [softline, lays_flatAlt]

/-- the groups around it are broken -/
theorem lays_breakParent : breakParent.Lays flat t ↔ flat = false ∧ t = [] := by
  cases flat <;> simp [breakParent, lays_flatAlt]

/-- a group is laid out as its document, broken or not -/
theorem Lays.ungroup (h : d.grouped.Lays flat t) : ∃ flat', (flat = true → flat' = true) ∧ d.Lays flat' t := by
  have hself (h : d.Lays flat t) : ∃ flat', (flat = true → flat' = true) ∧ d.Lays flat' t := ⟨flat, id, h⟩
  have hgroup (h : (Doc.group d).Lays flat t) : ∃ flat', (flat = true → flat' = true) ∧ d.Lays flat' t := by
    cases h with
    | group h => exact ⟨flat, id, h⟩
    | onLine h => exact ⟨true, by simp, h⟩
  cases d <;> first | exact hself h | exact hgroup h

@[simp] theorem lays_nested {amount : Int} : (d.nested amount).Lays flat t ↔ d.Lays flat t := by
  have hnest {d : Doc} : (if amount = 0 then d else Doc.nest amount d).Lays flat t ↔ d.Lays flat t := by
    split
    · rfl
    · constructor
      · rintro ⟨⟩
        assumption
      · exact .nest
  cases d <;> first | rfl | exact hnest

theorem lays_foldl {ds : List Doc} :
    (ds.foldl (· ++ ·) a).Lays flat t ↔
      ∃ x ts, t = x ++ ts.flatten ∧ a.Lays flat x ∧ List.Forall₂ (Lays flat) ds ts := by
  induction ds generalizing a with
  | nil => simp
  | cons d ds ih =>
    rw [List.foldl_cons, ih]
    constructor
    · rintro ⟨x, ts, rfl, hx, hts⟩
      obtain ⟨y, z, rfl, hy, hz⟩ := lays_andThen.1 hx
      exact ⟨y, z :: ts, by simp, hy, .cons hz hts⟩
    · rintro ⟨x, ts, rfl, hx, hts⟩
      cases hts with
      | @cons _ y _ ts hy hts => exact ⟨x ++ y, ts, by simp, lays_andThen.2 ⟨x, y, rfl, hx, hy⟩, hts⟩

theorem lays_concat {ds : List Doc} :
    (concat ds).Lays flat t ↔ ∃ ts, t = ts.flatten ∧ List.Forall₂ (Lays flat) ds ts := by
  simp [concat, lays_foldl]

theorem lays_concat_append {ds es : List Doc} :
    (concat (ds ++ es)).Lays flat t ↔ ∃ x y, t = x ++ y ∧ (concat ds).Lays flat x ∧ (concat es).Lays flat y := by
  rw [concat, List.foldl_append, lays_foldl]
  constructor
  · rintro ⟨x, ts, rfl, hx, hts⟩
    exact ⟨x, ts.flatten, rfl, hx, lays_concat.2 ⟨ts, rfl, hts⟩⟩
  · rintro ⟨x, y, rfl, hx, hy⟩
    obtain ⟨ts, rfl, hts⟩ := lays_concat.1 hy
    exact ⟨x, ts, rfl, hx, hts⟩

theorem lays_concat_cons {ds : List Doc} :
    (concat (d :: ds)).Lays flat t ↔ ∃ x y, t = x ++ y ∧ d.Lays flat x ∧ (concat ds).Lays flat y := by
  have hsplit : (concat ([d] ++ ds)).Lays flat t ↔ _ := lays_concat_append
  simpa [concat] using hsplit

theorem lays_joined {separator : Doc} {ds : List Doc} :
    (ds.foldl (fun done d => done ++ separator ++ d) a).Lays flat t ↔
      ∃ x ts, t = x ++ ts.flatten ∧ a.Lays flat x ∧ List.Forall₂ (fun d t => (separator ++ d).Lays flat t) ds ts := by
  induction ds generalizing a with
  | nil => simp
  | cons d ds ih =>
    rw [List.foldl_cons, ih]
    constructor
    · rintro ⟨x, ts, rfl, hx, hts⟩
      obtain ⟨y, z, rfl, hy, hz⟩ := lays_andThen.1 hx
      obtain ⟨u, w, rfl, hu, hw⟩ := lays_andThen.1 hy
      exact ⟨u, (w ++ z) :: ts, by simp, hu, .cons (lays_andThen.2 ⟨w, z, rfl, hw, hz⟩) hts⟩
    · rintro ⟨x, ts, rfl, hx, hts⟩
      cases hts with
      | @cons _ y _ ts hy hts =>
        obtain ⟨w, z, rfl, hw, hz⟩ := lays_andThen.1 hy
        refine ⟨x ++ w ++ z, ts, by simp, ?_, hts⟩
        exact lays_andThen.2 ⟨x ++ w, z, rfl, lays_andThen.2 ⟨x, w, rfl, hx, hw⟩, hz⟩

end Doc

/-! ## Laying out -/

namespace Layout

open Doc

/-- steps that a stack still takes at most -/
def stackWeight (stack : List Command) : Nat := (stack.map (·.doc.weight)).sum

theorem weight_pos (d : Doc) : 0 < d.weight := by cases d <;> simp [Doc.weight]

/-- documents that fit on the line have a layout on one line -/
theorem flat_of_fits {width fuel column : Nat} {ds rest : List Doc} (h : fits width fuel column ds rest = true)
    (hfuel : (ds.map Doc.weight).sum ≤ fuel) : ∀ d ∈ ds, ∃ t, d.Lays true t := by
  induction fuel generalizing column ds with
  | zero =>
    cases ds with
    | nil => simp
    | cons d ds =>
      have := weight_pos d
      simp only [List.map_cons, List.sum_cons] at hfuel
      omega
  | succ fuel ih =>
    obtain _ | ⟨d, ds⟩ := ds
    · simp
    simp only [List.map_cons, List.sum_cons] at hfuel
    -- the first document by its form, the others by the rest of the run
    cases d with
    | nil =>
      simp only [Doc.weight] at hfuel
      exact List.forall_mem_cons.2 ⟨⟨[], .nil⟩, ih (by simpa [fits] using h) (by omega)⟩
    | text s =>
      simp only [Doc.weight] at hfuel
      simp only [fits, Bool.and_eq_true] at h
      exact List.forall_mem_cons.2 ⟨⟨s, .text s⟩, ih h.2 (by omega)⟩
    | hardline => simp [fits] at h
    | flatAlt a b =>
      simp only [Doc.weight] at hfuel
      simp only [fits] at h
      have hall := ih h (by simp only [List.map_cons, List.sum_cons]; omega)
      obtain ⟨⟨t, ht⟩, hrest⟩ := List.forall_mem_cons.1 hall
      exact List.forall_mem_cons.2 ⟨⟨t, .flat ht⟩, hrest⟩
    | group d =>
      simp only [Doc.weight] at hfuel
      simp only [fits] at h
      have hall := ih h (by simp only [List.map_cons, List.sum_cons]; omega)
      obtain ⟨⟨t, ht⟩, hrest⟩ := List.forall_mem_cons.1 hall
      exact List.forall_mem_cons.2 ⟨⟨t, .group ht⟩, hrest⟩
    | nest amount d =>
      simp only [Doc.weight] at hfuel
      simp only [fits] at h
      have hall := ih h (by simp only [List.map_cons, List.sum_cons]; omega)
      obtain ⟨⟨t, ht⟩, hrest⟩ := List.forall_mem_cons.1 hall
      exact List.forall_mem_cons.2 ⟨⟨t, .nest ht⟩, hrest⟩
    | append a b =>
      simp only [Doc.weight] at hfuel
      simp only [fits] at h
      have hall := ih h (by simp only [List.map_cons, List.sum_cons]; omega)
      obtain ⟨⟨s, hs⟩, ⟨t, ht⟩, hrest⟩ : _ ∧ _ ∧ _ := by
        simpa only [List.forall_mem_cons] using hall
      exact List.forall_mem_cons.2 ⟨⟨s ++ t, .append hs ht⟩, hrest⟩

/-- what a document on the stack needs to be laid out in its mode -/
def Possible (c : Command) : Prop := c.flat = true → ∃ t, c.doc.Lays true t

/-- the stack is laid out command by command, each in its mode -/
theorem lays_run (width fuel column : Nat) {stack : List Command} (hfuel : stackWeight stack ≤ fuel)
    (hstack : ∀ c ∈ stack, Possible c) :
    ∃ ts, run width fuel column stack = ts.flatten ∧ List.Forall₂ (fun c t => c.doc.Lays c.flat t) stack ts := by
  induction fuel generalizing column stack with
  | zero =>
    cases stack with
    | nil => exact ⟨[], rfl, .nil⟩
    | cons c rest =>
      have := weight_pos c.doc
      simp only [stackWeight, List.map_cons, List.sum_cons] at hfuel
      omega
  | succ fuel ih =>
    obtain _ | ⟨⟨indent, flat, doc⟩, rest⟩ := stack
    · exact ⟨[], rfl, .nil⟩
    obtain ⟨hdoc, hrest⟩ := List.forall_mem_cons.1 hstack
    simp only [stackWeight, List.map_cons, List.sum_cons] at hfuel
    -- a command that gives way to another one, whose layouts are layouts of it
    have hgive {c : Command} (hweight : c.doc.weight < doc.weight) (hc : Possible c)
        (hrun : run width (fuel + 1) column (⟨indent, flat, doc⟩ :: rest) = run width fuel column (c :: rest))
        (hlays : ∀ t, c.doc.Lays c.flat t → doc.Lays flat t) :
        ∃ ts, run width (fuel + 1) column (⟨indent, flat, doc⟩ :: rest) = ts.flatten ∧
          List.Forall₂ (fun c t => c.doc.Lays c.flat t) (⟨indent, flat, doc⟩ :: rest) ts := by
      have hfuel : stackWeight (c :: rest) ≤ fuel := by
        simp only [stackWeight, List.map_cons, List.sum_cons]
        omega
      obtain ⟨ts, hts, hall⟩ := ih column hfuel (List.forall_mem_cons.2 ⟨hc, hrest⟩)
      cases hall with
      | @cons _ t _ ts ht hall => exact ⟨t :: ts, hrun.trans hts, .cons (hlays t ht) hall⟩
    cases doc with
    | nil =>
      simp only [Doc.weight] at hfuel
      obtain ⟨ts, hrun, hts⟩ := ih column (by simp only [stackWeight]; omega) hrest
      exact ⟨[] :: ts, by simpa [run] using hrun, .cons .nil hts⟩
    | text s =>
      simp only [Doc.weight] at hfuel
      obtain ⟨ts, hrun, hts⟩ := ih (column + Text.width s) (by simp only [stackWeight]; omega) hrest
      exact ⟨s :: ts, by simp [run, hrun], .cons (.text s) hts⟩
    | hardline =>
      simp only [Doc.weight] at hfuel
      generalize hnext : (rest.head?.map Command.indent).getD indent = next
      obtain ⟨ts, hrun, hts⟩ := ih next (by simp only [stackWeight]; omega) hrest
      -- nothing on one line holds a line end
      have hflat : flat = false := by
        by_contra hflat
        obtain ⟨t, ht⟩ := hdoc (by simpa using hflat)
        cases ht
      subst hflat
      exact ⟨('\n' :: List.replicate next ' ') :: ts, by simp [run, hnext, hrun], .cons (.hardline next) hts⟩
    | flatAlt broken onLine =>
      cases flat with
      | false =>
        refine hgive (c := ⟨indent, false, broken⟩) ?_ (by simp [Possible]) (by simp [run]) fun t => .broken
        simp only [Doc.weight]
        omega
      | true =>
        have hline : Possible ⟨indent, true, onLine⟩ := fun _ => by
          obtain ⟨t, ht⟩ := hdoc rfl
          cases ht with
          | flat ht => exact ⟨t, ht⟩
        refine hgive ?_ hline (by simp [run]) fun t => .flat
        simp only [Doc.weight]
        omega
    | group d =>
      generalize hmode : (flat || fits width fuel column [d] (rest.map Command.doc)) = mode
      have hpossible : Possible ⟨indent, mode, d⟩ := fun hm => by
        rw [← hmode, Bool.or_eq_true] at hm
        rcases hm with hm | hm
        · obtain ⟨t, ht⟩ := hdoc hm
          cases ht with
          | group ht => exact ⟨t, ht⟩
        · refine flat_of_fits hm ?_ d List.mem_cons_self
          simp only [Doc.weight] at hfuel
          simp only [List.map_cons, List.map_nil, List.sum_cons, List.sum_nil]
          omega
      refine hgive (by simp [Doc.weight]) hpossible (by simp [run, hmode]) fun t ht => ?_
      cases flat with
      | true =>
        obtain rfl : true = mode := by simpa using hmode
        exact .group ht
      | false =>
        cases mode with
        | false => exact .group ht
        | true => exact .onLine ht
    | nest amount d =>
      have hpossible : Possible ⟨shift indent amount, flat, d⟩ := fun hm => by
        obtain ⟨t, ht⟩ := hdoc hm
        cases ht with
        | nest ht => exact ⟨t, ht⟩
      exact hgive (by simp [Doc.weight]) hpossible (by simp [run]) fun t => .nest
    | append a b =>
      simp only [Doc.weight] at hfuel
      have hpossible : Possible ⟨indent, flat, a⟩ ∧ Possible ⟨indent, flat, b⟩ := by
        constructor <;> intro hm <;> obtain ⟨t, ht⟩ := hdoc hm <;> obtain ⟨x, y, -, hx, hy⟩ := lays_append.1 ht
        · exact ⟨x, hx⟩
        · exact ⟨y, hy⟩
      have hfuel : stackWeight (⟨indent, flat, a⟩ :: ⟨indent, flat, b⟩ :: rest) ≤ fuel := by
        simp only [stackWeight, List.map_cons, List.sum_cons]
        omega
      obtain ⟨ts, hrun, hts⟩ := ih column hfuel
        (List.forall_mem_cons.2 ⟨hpossible.1, List.forall_mem_cons.2 ⟨hpossible.2, hrest⟩⟩)
      cases hts with
      | @cons _ x _ ts hx hts =>
        cases hts with
        | @cons _ y _ ts hy hts => exact ⟨(x ++ y) :: ts, by simpa [run] using hrun, .cons (.append hx hy) hts⟩

end Layout

/-- **What the renderer makes of a document is one of its layouts**, at every width. -/
theorem Doc.lays_render (width : Nat) (d : Doc) : d.Lays false (d.render width) := by
  have hfuel : Layout.stackWeight [⟨0, false, d⟩] ≤ d.weight + 1 := by simp [Layout.stackWeight]
  obtain ⟨ts, hrun, hts⟩ := Layout.lays_run width (d.weight + 1) 0 hfuel (by simp [Layout.Possible])
  rw [render, hrun]
  obtain ⟨t, ts, ht, hnil, rfl⟩ := List.forall₂_cons_left_iff.1 hts
  cases hnil
  simpa using ht

end LpcStyle

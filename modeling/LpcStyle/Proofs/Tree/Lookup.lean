import Mathlib.Tactic
import LpcStyle.Tree.Lookup
import LpcStyle.Proofs.Tree.Nested

/-!
Lookups by offset in a forest whose ranges nest. A node is where it stands, not what it looks like: an address says which
root and then which part to take, so the nodes around a node have the first parts of its address. Halving finds the last
sibling that starts before the offset, and of the siblings no other one can hold the offset or reach behind it; so each
level of the walk is one step of the address. Main statement: `lookups_find`.
-/

namespace LpcStyle

open Text

/-! ## Halving -/

section Halving

variable {α : Type} {p : α → Bool} {items : List α} {k : Nat}

/-- `p` holds of the first `k` items and of no other -/
def HoldsUpTo (p : α → Bool) (items : List α) (k : Nat) : Prop :=
  k ≤ items.length ∧ ∀ i x, items[i]? = some x → (p x = true ↔ i < k)

/-- where `p` holds of all that comes before what it holds of, it holds of a first part -/
theorem exists_holdsUpTo (h : items.Pairwise fun x y => p y = true → p x = true) : ∃ k, HoldsUpTo p items k := by
  induction items with
  | nil => exact ⟨0, by simp [HoldsUpTo]⟩
  | cons x items ih =>
    obtain ⟨hx, hitems⟩ := List.pairwise_cons.1 h
    by_cases hp : p x = true
    · obtain ⟨k, hk, hall⟩ := ih hitems
      refine ⟨k + 1, by simpa using hk, fun i y hy => ?_⟩
      cases i with
      | zero =>
        obtain rfl : x = y := by simpa using hy
        simpa using hp
      | succ i => simpa using hall i y (by simpa using hy)
    · refine ⟨0, Nat.zero_le _, fun i y hy => ?_⟩
      have hy : y ∈ x :: items := List.mem_of_getElem? hy
      have hnot : ¬p y = true := by
        rcases List.mem_cons.1 hy with rfl | hmem
        · exact hp
        · exact fun hpy => hp (hx y hmem hpy)
      simp [hnot]

/-- the window keeps the place where `p` stops to hold, with an item that `p` holds of at its start, if it has moved -/
theorem halve_window (h : HoldsUpTo p items k) (fuel base : Nat) {size : Nat} (hfuel : size ≤ fuel + 1)
    (hstart : base = 0 ∨ base < k) (hstop : k ≤ base + size) (hinside : base + size ≤ items.length) :
    (halve p items fuel base size = 0 ∨ halve p items fuel base size < k) ∧ k ≤ halve p items fuel base size + 1 := by
  induction fuel generalizing base size with
  | zero => exact ⟨hstart, by rw [halve]; omega⟩
  | succ fuel ih =>
    rw [halve]
    split
    · exact ⟨hstart, by omega⟩
    · next hsize =>
      dsimp only
      have hmiddle : base + size / 2 < items.length := by omega
      have hcase : items[base + size / 2]?.any p = true ↔ base + size / 2 < k := by
        rw [List.getElem?_eq_getElem hmiddle, Option.any_some]
        exact h.2 _ _ (List.getElem?_eq_getElem hmiddle)
      by_cases hbefore : base + size / 2 < k
      · rw [if_pos (hcase.2 hbefore)]
        exact ih _ (by omega) (.inr hbefore) (by omega) (by omega)
      · rw [if_neg (mt hcase.1 hbefore)]
        exact ih _ (by omega) hstart (by omega) (by omega)

/-- **Halving finds the place where `p` stops to hold.** -/
theorem partitionPoint_eq (h : HoldsUpTo p items k) : partitionPoint p items = k := by
  obtain ⟨hstart, hstop⟩ := halve_window h items.length 0 (Nat.le_succ _) (.inl rfl)
    (by rw [Nat.zero_add]; exact h.1) (Nat.zero_add _).le
  unfold partitionPoint
  dsimp only
  generalize halve p items items.length 0 items.length = base at hstart hstop ⊢
  by_cases hbefore : base < k
  · have hlength : base < items.length := hbefore.trans_le h.1
    have hp : items[base]?.any p = true := by
      rw [List.getElem?_eq_getElem hlength, Option.any_some]
      exact (h.2 _ _ (List.getElem?_eq_getElem hlength)).2 hbefore
    rw [if_pos hp]
    omega
  · have hnot : ¬items[base]?.any p = true := by
      rw [Option.any_eq_true]
      rintro ⟨x, hx, hp⟩
      exact hbefore ((h.2 _ _ hx).1 hp)
    rw [if_neg hnot]
    omega

end Halving

namespace Branch

/-- siblings whose ranges nest and come one after the other -/
structure Siblings (bs : List Branch) : Prop where
  nested : ∀ b ∈ bs, b.Nested
  ordered : bs.Pairwise fun a b => a.stop ≤ b.start

variable {offset i j : Nat} {b c m : Branch} {bs : List Branch} {steps : List Nat}

theorem Siblings.kids (h : b.Nested) : Siblings b.kids := by
  cases h with
  | mk _ _ ordered below => exact ⟨below, ordered⟩

theorem Siblings.stop_le_start (h : Siblings bs) (hij : i < j) (hb : bs[i]? = some b) (hc : bs[j]? = some c) :
    b.stop ≤ c.start := by
  obtain ⟨hi, rfl⟩ := List.getElem?_eq_some_iff.1 hb
  obtain ⟨hj, rfl⟩ := List.getElem?_eq_some_iff.1 hc
  exact List.pairwise_iff_getElem.1 h.ordered i j hi hj hij

theorem Nested.within (h : b.Nested) (hc : c ∈ b.kids) : b.start ≤ c.start ∧ c.stop ≤ b.stop := by
  cases h with
  | mk _ within _ _ => exact within c hc

/-! ## The last sibling that starts before an offset -/

/-- what is searched for among the siblings -/
theorem Siblings.holdsUpTo (h : Siblings bs) (offset : Nat) :
    ∃ k, HoldsUpTo (fun b : Branch => decide (b.start < offset)) bs k := by
  refine exists_holdsUpTo (h.ordered.imp_of_mem fun {x y} hx hy hle hbefore => ?_)
  have hpos := (h.nested x hx).pos
  simp only [decide_eq_true_eq] at hbefore ⊢
  omega

theorem Siblings.lastBefore?_eq_none (h : Siblings bs) :
    lastBefore? offset bs = none ↔ ∀ b ∈ bs, offset ≤ b.start := by
  obtain ⟨k, hk⟩ := h.holdsUpTo offset
  rw [lastBefore?, partitionPoint_eq hk]
  cases k with
  | zero =>
    simp only [true_iff]
    intro b hb
    obtain ⟨i, hi⟩ := List.mem_iff_getElem?.1 hb
    simpa using hk.2 i b hi
  | succ k =>
    simp only [reduceCtorEq, false_iff]
    intro hnone
    have hlength : k < bs.length := hk.1
    have hbefore := (hk.2 k _ (List.getElem?_eq_getElem hlength)).2 (Nat.lt_succ_self k)
    have := hnone _ (List.getElem_mem hlength)
    simp only [decide_eq_true_eq] at hbefore
    omega

theorem Siblings.lastBefore?_eq_some (h : Siblings bs) (hi : lastBefore? offset bs = some i) :
    ∃ b, bs[i]? = some b ∧ b.start < offset ∧ ∀ j c, bs[j]? = some c → c.start < offset → j ≤ i := by
  obtain ⟨k, hk⟩ := h.holdsUpTo offset
  rw [lastBefore?, partitionPoint_eq hk] at hi
  cases k with
  | zero => cases hi
  | succ k =>
    obtain rfl : k = i := by simpa using hi
    have hlength : k < bs.length := hk.1
    have hbefore := (hk.2 k _ (List.getElem?_eq_getElem hlength)).2 (Nat.lt_succ_self k)
    refine ⟨_, List.getElem?_eq_getElem hlength, by simpa using hbefore, fun j c hc hstart => ?_⟩
    exact Nat.le_of_lt_succ ((hk.2 j c hc).1 (by simpa using hstart))

/-! ## Addresses -/

/-- the node that some steps from part to part lead to -/
def descend? : Branch → List Nat → Option Branch
  | b, [] => some b
  | b, k :: steps => b.kids[k]?.bind fun c => c.descend? steps

/-- the node at an address: the first number is that of the root, each other one that of a part -/
def nodeOf? (bs : List Branch) : List Nat → Option Branch
  | [] => none
  | k :: steps => bs[k]?.bind fun b => b.descend? steps

theorem nodeOf?_cons : nodeOf? bs (i :: steps) = some m ↔ ∃ b, bs[i]? = some b ∧ b.descend? steps = some m :=
  Option.bind_eq_some_iff

/-- what lies below a node lies inside it -/
theorem Nested.descend (h : b.Nested) (hm : b.descend? steps = some m) :
    m.Nested ∧ b.start ≤ m.start ∧ m.stop ≤ b.stop := by
  induction steps generalizing b with
  | nil =>
    cases hm
    exact ⟨h, le_rfl, le_rfl⟩
  | cons k steps ih =>
    obtain ⟨c, hc, hrest⟩ := Option.bind_eq_some_iff.1 hm
    have hmem := List.mem_of_getElem? hc
    obtain ⟨hnested, hstart, hstop⟩ := ih ((Siblings.kids h).nested c hmem) hrest
    obtain ⟨hleft, hright⟩ := h.within hmem
    exact ⟨hnested, hleft.trans hstart, hstop.trans hright⟩

/-! ## The deepest node that holds an offset -/

/-- the offset lies behind the start of the node, and not behind its end -/
def Covers (b : Branch) (offset : Nat) : Prop := b.start < offset ∧ offset ≤ b.stop

/-- a node holds what a node below it holds -/
theorem Nested.covers_of_descend (h : b.Nested) (hm : b.descend? steps = some m) (hcovers : m.Covers offset) :
    b.Covers offset := by
  obtain ⟨-, hstart, hstop⟩ := h.descend hm
  exact ⟨hstart.trans_lt hcovers.1, hcovers.2.trans hstop⟩

/-- **The deepest node that holds an offset**: every node that holds it is this one or stands around it. -/
structure IsDeepest (bs : List Branch) (offset : Nat) (address : List Nat) (n : Branch) : Prop where
  here : nodeOf? bs address = some n
  covers : n.Covers offset
  deepest : ∀ a m, nodeOf? bs a = some m → m.Covers offset → a <+: address

theorem pathAt_eq (offset : Nat) (b : Branch) : b.pathAt offset = b.label :: LpcStyle.pathAt b.kids offset := by
  cases b
  rfl

theorem pathAtKid_some (offset i : Nat) (bs : List Branch) : pathAtKid offset (some i) bs =
    match bs[i]? with
    | some b => if b.start < offset && offset ≤ b.stop then b.pathAt offset else []
    | none => [] := by
  induction bs generalizing i with
  | nil => simp [pathAtKid]
  | cons b bs ih =>
    cases i with
    | zero => simp [pathAtKid]
    | succ i => simpa [pathAtKid] using ih i

/-- of siblings, only the last one that starts before an offset can hold it -/
theorem Siblings.eq_last (h : Siblings bs) (hi : lastBefore? offset bs = some i) (hj : bs[j]? = some c)
    (hcovers : c.Covers offset) : j = i := by
  obtain ⟨b, hb, hstart, hlast⟩ := h.lastBefore?_eq_some hi
  refine le_antisymm (hlast j c hj hcovers.1) (Nat.le_of_not_lt fun hlt => ?_)
  have hstop := h.stop_le_start hlt hj hb
  have := hcovers.2
  omega

/-- one level of the walk, from what it does below each of the siblings -/
theorem Siblings.deepest (h : Siblings bs)
    (hbelow : ∀ b ∈ bs, b.Covers offset → ∃ steps n, b.descend? steps = some n ∧ n.Covers offset ∧
      (b.pathAt offset).getLast? = some n.label ∧ ∀ s m, b.descend? s = some m → m.Covers offset → s <+: steps) :
    LpcStyle.pathAt bs offset = [] ∧ (∀ b ∈ bs, ¬b.Covers offset) ∨
      ∃ address n, IsDeepest bs offset address n ∧ (LpcStyle.pathAt bs offset).getLast? = some n.label := by
  unfold LpcStyle.pathAt
  cases hlast : lastBefore? offset bs with
  | none =>
    refine .inl ⟨by rw [pathAtKid], fun b hb hcovers => ?_⟩
    exact absurd hcovers.1 (Nat.not_lt.2 (h.lastBefore?_eq_none.1 hlast b hb))
  | some i =>
    obtain ⟨b, hb, hstart, -⟩ := h.lastBefore?_eq_some hlast
    have hmem := List.mem_of_getElem? hb
    rw [pathAtKid_some, hb]
    dsimp only
    by_cases hstop : offset ≤ b.stop
    · rw [if_pos (by simp [hstart, hstop])]
      obtain ⟨steps, n, hn, hcovers, hpath, hdeepest⟩ := hbelow b hmem ⟨hstart, hstop⟩
      refine .inr ⟨i :: steps, n, ⟨nodeOf?_cons.2 ⟨b, hb, hn⟩, hcovers, fun a m hm hholds => ?_⟩, hpath⟩
      obtain _ | ⟨j, s⟩ := a
      · cases hm
      obtain ⟨c, hc, hdown⟩ := nodeOf?_cons.1 hm
      obtain rfl := h.eq_last hlast hc ((h.nested c (List.mem_of_getElem? hc)).covers_of_descend hdown hholds)
      obtain rfl : b = c := Option.some.inj (hb.symm.trans hc)
      exact (List.prefix_cons_inj j).2 (hdeepest s m hdown hholds)
    · rw [if_neg (by simp [hstop])]
      refine .inl ⟨rfl, fun c hc hcovers => ?_⟩
      obtain ⟨j, hj⟩ := List.mem_iff_getElem?.1 hc
      obtain rfl := h.eq_last hlast hj hcovers
      obtain rfl : b = c := Option.some.inj (hb.symm.trans hj)
      exact hstop hcovers.2

/-- below a node that holds the offset, the walk ends at the deepest one -/
theorem Nested.deepest (h : b.Nested) (hcovers : b.Covers offset) : ∃ steps n, b.descend? steps = some n ∧
    n.Covers offset ∧ (b.pathAt offset).getLast? = some n.label ∧
      ∀ s m, b.descend? s = some m → m.Covers offset → s <+: steps := by
  induction h with
  | @mk label kids suffix pos within ordered below ih =>
    have hpath : (Branch.mk label kids suffix).pathAt offset = label :: LpcStyle.pathAt kids offset := pathAt_eq offset _
    rw [hpath]
    rcases Siblings.deepest ⟨below, ordered⟩ ih with ⟨hnone, hkids⟩ | ⟨address, n, hdeepest, hlast⟩
    · -- no part holds the offset, so neither does anything below
      refine ⟨[], _, rfl, hcovers, by rw [hnone]; rfl, fun s m hm hholds => ?_⟩
      obtain _ | ⟨j, s⟩ := s
      · exact List.prefix_rfl
      obtain ⟨c, hc, hdown⟩ := Option.bind_eq_some_iff.1 hm
      have hmem := List.mem_of_getElem? hc
      exact absurd ((below c hmem).covers_of_descend hdown hholds) (hkids c hmem)
    · obtain _ | ⟨i, steps⟩ := address
      · exact absurd hdeepest.here (by simp [nodeOf?])
      refine ⟨i :: steps, n, hdeepest.here, hdeepest.covers, ?_, fun s m hm hholds => ?_⟩
      · rw [List.getLast?_cons, hlast]
        rfl
      · obtain _ | ⟨j, s⟩ := s
        · exact List.nil_prefix
        · exact hdeepest.deepest (j :: s) m hm hholds

/-! ## The last node before an offset -/

/-- **The last node before an offset**: it starts before the offset, and what else does so stands around it, lies below it
or ends before it starts. No part of it starts before the offset unless the node ends there too; then it has no parts, or
they end before the node does. -/
structure IsLastBefore (bs : List Branch) (offset : Nat) (address : List Nat) (n : Branch) : Prop where
  here : nodeOf? bs address = some n
  starts : n.start < offset
  behind : ∀ a m, nodeOf? bs a = some m → m.start < offset → ¬a <+: address → ¬address <+: a → m.stop ≤ n.start
  inside : offset < n.stop → ∀ kid ∈ n.kids, offset ≤ kid.start
  past : n.stop ≤ offset → n.kids = [] ∨ ∃ last, n.kids.getLast? = some last ∧ last.stop < n.stop

/-- the last node before an offset below a node that starts before it -/
structure LastBelow (b : Branch) (offset : Nat) (steps : List Nat) (n : Branch) : Prop where
  here : b.descend? steps = some n
  starts : n.start < offset
  behind : ∀ s m, b.descend? s = some m → m.start < offset → ¬s <+: steps → ¬steps <+: s → m.stop ≤ n.start
  inside : offset < n.stop → ∀ kid ∈ n.kids, offset ≤ kid.start
  past : n.stop ≤ offset → n.kids = [] ∨ ∃ last, n.kids.getLast? = some last ∧ last.stop < n.stop

theorem lastAheadKid_some (offset i : Nat) (outer : Option Label) (bs : List Branch) :
    lastAheadKid offset outer (some i) bs =
      match bs[i]? with
      | some b => b.lastAhead offset outer
      | none => outer := by
  induction bs generalizing i with
  | nil => simp [lastAheadKid]
  | cons b bs ih =>
    cases i with
    | zero => simp [lastAheadKid]
    | succ i => simpa [lastAheadKid] using ih i

/-- one level of the walk, from what it does below each of the siblings -/
theorem Siblings.lastAhead (h : Siblings bs) {outer : Option Label}
    (hbelow : ∀ b ∈ bs, b.start < offset → ∃ steps n, LastBelow b offset steps n ∧
      b.lastAhead offset outer = some n.label) :
    lastAheadKid offset outer (lastBefore? offset bs) bs = outer ∧ (∀ b ∈ bs, offset ≤ b.start) ∨
      ∃ address n, IsLastBefore bs offset address n ∧
        lastAheadKid offset outer (lastBefore? offset bs) bs = some n.label := by
  cases hlast : lastBefore? offset bs with
  | none => exact .inl ⟨by rw [lastAheadKid], h.lastBefore?_eq_none.1 hlast⟩
  | some i =>
    obtain ⟨b, hb, hstart, hmax⟩ := h.lastBefore?_eq_some hlast
    have hmem := List.mem_of_getElem? hb
    obtain ⟨steps, n, hn, hwalk⟩ := hbelow b hmem hstart
    obtain ⟨-, hleft, -⟩ := (h.nested b hmem).descend hn.here
    refine .inr ⟨i :: steps, n, ⟨nodeOf?_cons.2 ⟨b, hb, hn.here⟩, hn.starts, ?_, hn.inside, hn.past⟩, ?_⟩
    · intro a m hm hbefore haround hinside
      obtain _ | ⟨j, s⟩ := a
      · exact absurd List.nil_prefix haround
      obtain ⟨c, hc, hdown⟩ := nodeOf?_cons.1 hm
      obtain ⟨-, hcstart, hcstop⟩ := (h.nested c (List.mem_of_getElem? hc)).descend hdown
      -- a sibling before the one that is taken, or the same one
      rcases Nat.lt_or_eq_of_le (hmax j c hc (hcstart.trans_lt hbefore)) with hlt | rfl
      · exact hcstop.trans ((h.stop_le_start hlt hc hb).trans hleft)
      · obtain rfl : b = c := Option.some.inj (hb.symm.trans hc)
        refine hn.behind s m hdown hbefore (fun hs => haround ?_) fun hs => hinside ?_
        · exact (List.prefix_cons_inj j).2 hs
        · exact (List.prefix_cons_inj j).2 hs
    · rw [lastAheadKid_some, hb]
      exact hwalk

theorem not_endsWithLastKid {label : Label} {kids : List Branch} (hwithin : ∀ k ∈ kids, k.stop ≤ label.span.stop)
    (h : ¬endsWithLastKid label kids = true) :
    kids = [] ∨ ∃ last, kids.getLast? = some last ∧ last.stop < label.span.stop := by
  cases hlast : kids.getLast? with
  | none => exact .inl (List.getLast?_eq_none_iff.1 hlast)
  | some last =>
    refine .inr ⟨last, rfl, lt_of_le_of_ne (hwithin last (List.mem_of_getLast? hlast)) fun heq => h ?_⟩
    simp [endsWithLastKid, hlast, heq]

/-- below a node that starts before the offset, the walk ends at the last one -/
theorem Nested.lastAhead (h : b.Nested) (hstart : b.start < offset) (outer : Option Label) :
    ∃ steps n, LastBelow b offset steps n ∧ b.lastAhead offset outer = some n.label := by
  induction h generalizing outer with
  | @mk label kids suffix pos within ordered below ih =>
    have hahead : ¬offset ≤ label.span.start := Nat.not_le.2 hstart
    rw [Branch.lastAhead, if_neg hahead]
    by_cases hdown : (decide (offset < label.span.stop) || endsWithLastKid label kids) = true
    · rw [if_pos hdown]
      rcases Siblings.lastAhead ⟨below, ordered⟩ fun c hc hbefore => ih c hc hbefore (some label) with
        ⟨hwalk, hkids⟩ | ⟨address, n, hlast, hwalk⟩
      · refine ⟨[], _, ⟨rfl, hstart, ?_, fun _ => hkids, fun hpast => ?_⟩, hwalk⟩
        · exact fun s m _ _ _ hs => absurd List.nil_prefix hs
        · -- a last part that ends with the node starts before the offset
          have hpast : label.span.stop ≤ offset := hpast
          simp only [Bool.or_eq_true, decide_eq_true_eq, Nat.not_lt.2 hpast, false_or, endsWithLastKid,
            Option.any_eq_true, beq_iff_eq] at hdown
          obtain ⟨last, hlast, heq⟩ := hdown
          have hmem := List.mem_of_getLast? hlast
          have hpos := (below last hmem).pos
          have := hkids last hmem
          omega
      · obtain _ | ⟨i, steps⟩ := address
        · exact absurd hlast.here (by simp [nodeOf?])
        refine ⟨i :: steps, n, ⟨hlast.here, hlast.starts, fun s m hm hbefore haround hinside => ?_, hlast.inside,
          hlast.past⟩, hwalk⟩
        obtain _ | ⟨j, s⟩ := s
        · exact absurd List.nil_prefix haround
        · exact hlast.behind (j :: s) m hm hbefore haround hinside
    · rw [if_neg hdown]
      simp only [Bool.or_eq_true, decide_eq_true_eq, not_or] at hdown
      refine ⟨[], _, ⟨rfl, hstart, fun s m _ _ _ hs => absurd List.nil_prefix hs, fun hinside => ?_, fun _ => ?_⟩, rfl⟩
      · exact absurd hinside hdown.1
      · exact not_endsWithLastKid (fun k hk => (within k hk).2) hdown.2

end Branch

open Branch in
/-- **Lookups by offset are correct** in every forest whose ranges are not empty and nest, and whose siblings come in order.
Suffixes are no parts: they are not looked up. -/
theorem lookups_find {forest : List Branch} (hnested : ∀ b ∈ forest, b.Nested)
    (hordered : forest.Pairwise fun a b => a.stop ≤ b.start) (offset : Nat) :
    (nodeAt? forest offset = none ↔ ∀ b ∈ forest, ¬b.Covers offset) ∧
    (∀ l, nodeAt? forest offset = some l → ∃ address n, IsDeepest forest offset address n ∧ n.label = l) ∧
    (nodeBefore? forest offset = none ↔ ∀ b ∈ forest, offset ≤ b.start) ∧
    ∀ l, nodeBefore? forest offset = some l → ∃ address n, IsLastBefore forest offset address n ∧ n.label = l := by
  have hforest : Siblings forest := ⟨hnested, hordered⟩
  have hat := hforest.deepest fun b hb (hcovers : b.Covers offset) => (hnested b hb).deepest hcovers
  have hbefore := hforest.lastAhead fun b hb (hstart : b.start < offset) =>
    (hnested b hb).lastAhead hstart none
  refine ⟨?_, ?_, ?_, ?_⟩
  · rcases hat with ⟨hnone, hroots⟩ | ⟨address, n, hn, hlast⟩
    · simpa [nodeAt?, hnone] using hroots
    · rw [nodeAt?, hlast]
      simp only [reduceCtorEq, false_iff, not_forall, not_not]
      obtain _ | ⟨i, steps⟩ := address
      · exact absurd hn.here (by simp [nodeOf?])
      obtain ⟨b, hb, hdown⟩ := nodeOf?_cons.1 hn.here
      have hmem := List.mem_of_getElem? hb
      exact ⟨b, hmem, (hnested b hmem).covers_of_descend hdown hn.covers⟩
  · intro l hl
    rcases hat with ⟨hnone, -⟩ | ⟨address, n, hn, hlast⟩
    · simp [nodeAt?, hnone] at hl
    · exact ⟨address, n, hn, Option.some.inj (hlast.symm.trans hl)⟩
  · rcases hbefore with ⟨hnone, hroots⟩ | ⟨address, n, hn, hlast⟩
    · simpa [nodeBefore?, hnone] using hroots
    · rw [nodeBefore?, hlast]
      simp only [reduceCtorEq, false_iff, not_forall, Nat.not_le]
      obtain _ | ⟨i, steps⟩ := address
      · exact absurd hn.here (by simp [nodeOf?])
      obtain ⟨b, hb, hdown⟩ := nodeOf?_cons.1 hn.here
      have hmem := List.mem_of_getElem? hb
      obtain ⟨-, hleft, -⟩ := (hnested b hmem).descend hdown
      exact ⟨b, hmem, hleft.trans_lt hn.starts⟩
  · intro l hl
    rcases hbefore with ⟨hnone, -⟩ | ⟨address, n, hn, hlast⟩
    · rw [nodeBefore?, hnone] at hl
      cases hl
    · exact ⟨address, n, hn, Option.some.inj (hlast.symm.trans hl)⟩

/-- the forest of `x = 1 + 22; // z` and `y;` below it. The sum ends together with its second operand -/
def sumForest : List Branch := [
  .mk ⟨⟨0, 10⟩, .assignment () ⟨⟨2, 3⟩, ['=']⟩ (some ())⟩ [
    .mk ⟨⟨0, 1⟩, .identifier ['x']⟩ [] none,
    .mk ⟨⟨4, 10⟩, .binary () ⟨⟨6, 7⟩, ['+']⟩ () false⟩ [
      .mk ⟨⟨4, 5⟩, .literal .number ['1']⟩ [] none,
      .mk ⟨⟨8, 10⟩, .literal .number ['2', '2']⟩ [] none] none]
    (some ⟨.line, ⟨12, 16⟩, "// z".toList⟩),
  .mk ⟨⟨17, 18⟩, .identifier ['y']⟩ [] none]

/-- at the end of the second operand, and behind it -/
theorem lookups_find_sum : (∀ b ∈ sumForest, b.Nested) ∧ (sumForest.Pairwise fun a b => a.stop ≤ b.start) ∧
    (∃ address n, Branch.IsDeepest sumForest 10 address n ∧ n.label = ⟨⟨8, 10⟩, .literal .number ['2', '2']⟩) ∧
    ∃ address n, Branch.IsLastBefore sumForest 11 address n ∧ n.label = ⟨⟨8, 10⟩, .literal .number ['2', '2']⟩ := by
  have hleaf {label : Label} (h : label.span.start < label.span.stop) : (Branch.mk label [] none).Nested :=
    .mk h (by simp) .nil (by simp)
  have hnested : ∀ b ∈ sumForest, b.Nested := by
    refine List.forall_mem_cons.2 ⟨.mk (by decide) (by decide) (by decide) ?_, List.forall_mem_singleton.2 (hleaf (by decide))⟩
    refine List.forall_mem_cons.2 ⟨hleaf (by decide), List.forall_mem_singleton.2 ?_⟩
    refine .mk (by decide) (by decide) (by decide) ?_
    exact List.forall_mem_cons.2 ⟨hleaf (by decide), List.forall_mem_singleton.2 (hleaf (by decide))⟩
  have hordered : sumForest.Pairwise fun a b => a.stop ≤ b.start := by decide
  obtain ⟨-, hat, -⟩ := lookups_find hnested hordered 10
  obtain ⟨-, -, -, hbefore⟩ := lookups_find hnested hordered 11
  exact ⟨hnested, hordered, hat _ (by decide +kernel), hbefore _ (by decide +kernel)⟩

end LpcStyle

import Mathlib.Tactic
import LpcStyle.Proofs.Tree.Comments
import LpcStyle.Proofs.Tree.Paths
import LpcStyle.Tree.Lookup

/-!
Nodes by their places. A walk that starts at a root and knows every node by its place in the listing goes on to the
places of parts, suffixes, parents and looked-up nodes. Each of them is the place of an entry, and the entry is that of
the node. Main statement: `Document.allocated`.
-/

namespace LpcStyle

open Text

namespace Branch

/-- the place of what a step leads to, for a node at a place -/
def placeOf (place : Nat) : Branch → Step → Nat
  | .mk _ kids _, .kid k => place + 1 + sizes (kids.take k)
  | .mk _ kids _, .suffix => place + 1 + sizes kids

/-- the entry of a node at a place -/
def entry (parent : Option Nat) (place : Nat) (b : Branch) : Entry :=
  ⟨b.label, parent, b.suffix.map fun _ => b.placeOf place .suffix⟩

/-- the entries of the branch stand in the row from the place on -/
def Stands (row : List Entry) (parent : Option Nat) (place : Nat) (b : Branch) : Prop :=
  ∃ front back, row = front ++ b.entries parent place ++ back ∧ front.length = place

variable {row : List Entry} {parent : Option Nat} {place : Nat} {b c : Branch} {bs : List Branch} {s : Step} {l : Label}

theorem Stands.getElem? (h : b.Stands row parent place) : row[place]? = some (b.entry parent place) := by
  obtain ⟨front, back, rfl, rfl⟩ := h
  obtain ⟨label, kids, suffix⟩ := b
  simp [entries, entry, Branch.label, Branch.suffix, placeOf]

/-- a branch of some has its entries behind those of the branches before it -/
theorem stands_listing {k : Nat} (h : bs[k]? = some c) (parent : Option Nat) (place : Nat) :
    ∃ front back, listing parent place bs = front ++ c.entries parent (place + sizes (bs.take k)) ++ back ∧
      front.length = sizes (bs.take k) := by
  induction bs generalizing k place with
  | nil => cases h
  | cons b bs ih =>
    cases k with
    | zero =>
      obtain rfl : b = c := by simpa using h
      exact ⟨[], listing parent (place + b.size) bs, by simp [listing, sizes], rfl⟩
    | succ k =>
      -- the entries of the first branch move the place on by its size
      obtain ⟨front, back, hrow, hlength⟩ := ih (k := k) (by simpa using h) (place + b.size)
      have hplace : place + b.size + sizes (bs.take k) = place + sizes ((b :: bs).take (k + 1)) := by
        rw [List.take_succ_cons, sizes, Nat.add_assoc]
      rw [hplace] at hrow
      refine ⟨b.entries parent place ++ front, back, by simp [listing, hrow], ?_⟩
      rw [List.length_append, length_entries, hlength, List.take_succ_cons, sizes]

/-- **Where a node stands, its parts and its suffix stand behind it.** -/
theorem Stands.next (h : b.Stands row parent place) (hc : b.next? s = some c) :
    c.Stands row (some place) (b.placeOf place s) := by
  obtain ⟨front, back, rfl, hplace⟩ := h
  obtain ⟨label, kids, suffix⟩ := b
  cases s with
  | kid k =>
    obtain ⟨before, after, hkids, hlength⟩ := stands_listing hc (some place) (place + 1)
    refine ⟨front ++ ⟨label, parent, suffix.map fun _ => place + 1 + sizes kids⟩ :: before,
      after ++ (suffix.toList.map fun c => ⟨(ofComment c).label, some place, none⟩) ++ back, ?_, ?_⟩
    · simp [entries, hkids, placeOf]
    · simp only [List.length_append, List.length_cons, hlength, placeOf, hplace]
      omega
  | suffix =>
    obtain ⟨comment, hsuffix, rfl⟩ := Option.map_eq_some_iff.1 hc
    obtain rfl : suffix = some comment := hsuffix
    refine ⟨front ++ ⟨label, parent, some (place + 1 + sizes kids)⟩ :: listing (some place) (place + 1) kids, back,
      ?_, ?_⟩
    · simp [entries, ofComment, listing, Branch.label]
    · simp only [List.length_append, List.length_cons, length_listing, placeOf, hplace]
      omega

mutual

/-- a lookup gives a node of the branch, if it does not give what it had before -/
theorem mem_of_lastAhead (offset : Nat) : (b : Branch) → ∀ {outer : Option Label} {l : Label},
    b.lastAhead offset outer = some l → outer = some l ∨ l ∈ b.labels
  | .mk label kids suffix, outer, l, h => by
    rw [lastAhead] at h
    split at h
    · exact .inl h
    · split at h
      · rcases mem_of_lastAheadKid offset kids h with hlabel | hkid
        · exact .inr (by simp [labels, Option.some.inj hlabel])
        · exact .inr (by simp [labels, hkid])
      · exact .inr (by simp [labels, Option.some.inj h])

theorem mem_of_lastAheadKid (offset : Nat) : (bs : List Branch) → ∀ {outer : Option Label} {i : Option Nat} {l : Label},
    lastAheadKid offset outer i bs = some l → outer = some l ∨ l ∈ labelsOf bs
  | [], outer, i, l, h => by
    cases i <;> exact .inl (by simpa [lastAheadKid] using h)
  | b :: bs, outer, i, l, h => by
    match i with
    | none => exact .inl (by simpa [lastAheadKid] using h)
    | some 0 =>
      rcases mem_of_lastAhead offset b h with houter | hb
      · exact .inl houter
      · exact .inr (List.mem_append_left _ hb)
    | some (n + 1) =>
      rcases mem_of_lastAheadKid offset bs h with houter | hbs
      · exact .inl houter
      · exact .inr (List.mem_append_right _ hbs)

end

/-- **The node before an offset is one of the forest.** -/
theorem mem_of_nodeBefore? {offset : Nat} (h : nodeBefore? bs offset = some l) : l ∈ labelsOf bs := by
  rcases mem_of_lastAheadKid offset bs h with hnone | hmem
  · cases hnone
  · exact hmem

end Branch

/-- **The branches of a form are those of its parts**, behind the comment beside its opening brace. -/
theorem Shape.branches_eq (shape : Shape Node) :
    shape.branches = (shape.opening.map Branch.ofComment).toList ++ shape.parts.map Node.branch := by
  have hoption (o : Option Node) : Node.optionBranch o = o.toList.map Node.branch := by cases o <;> rfl
  cases shape <;> simp [branches, opening, parts, hoption]

namespace Document

variable {d : Document} {parent : Option Nat} {place : Nat} {b c : Branch} {s : Step} {l : Label}

/-- a walk from the roots down comes to the node, at its place and from the place of its parent -/
inductive Visits (d : Document) : Option Nat → Nat → Branch → Prop where
  | root {k : Nat} {b : Branch} (hb : d.forest[k]? = some b) : Visits d none (Branch.sizes (d.forest.take k)) b
  | next {parent : Option Nat} {place : Nat} {b c : Branch} {s : Step} (hvisit : Visits d parent place b)
      (hc : b.next? s = some c) : Visits d (some place) (b.placeOf place s) c

theorem Visits.stands (h : d.Visits parent place b) : b.Stands d.listing parent place := by
  induction h with
  | root hb =>
    obtain ⟨front, back, hrow, hlength⟩ := Branch.stands_listing hb none 0
    rw [Nat.zero_add] at hrow
    exact ⟨front, back, hrow, hlength⟩
  | next _ hc ih => exact ih.next hc

theorem Visits.follow {steps : List Step} (h : d.Visits parent place b) (hc : b.follow? steps = some c) :
    ∃ parent place, d.Visits parent place c := by
  induction steps generalizing parent place b with
  | nil =>
    cases hc
    exact ⟨parent, place, h⟩
  | cons s steps ih =>
    obtain ⟨x, hx, hrest⟩ := Option.bind_eq_some_iff.1 hc
    exact ih (h.next hx) hrest

/-- a walk comes to every node whose label is in the listing -/
theorem visits_of_mem (h : l ∈ Branch.labelsOf d.forest) : ∃ parent place b, d.Visits parent place b ∧ b.label = l := by
  rw [← Branch.map_label_listing none 0] at h
  obtain ⟨e, he, rfl⟩ := List.mem_map.1 h
  obtain ⟨place, hplace⟩ := List.mem_iff_getElem?.1 he
  rcases hangs hplace with ⟨-, b, hb, hlabel⟩ | ⟨f, parent, -, -, -, p, b, s, c, hp, hc, -, hlabel⟩
  · obtain ⟨k, hk⟩ := List.mem_iff_getElem?.1 hb
    exact ⟨_, _, b, .root hk, hlabel⟩
  · obtain ⟨r, hr, hsteps⟩ := Option.bind_eq_some_iff.1 hp
    obtain ⟨parent, place, hvisit⟩ := Visits.follow (.root hr) hsteps
    exact ⟨_, _, c, hvisit.next hc, hlabel⟩

/-- a walk that comes to a node comes to every node inside it -/
theorem Visits.inside {n k : Node} (hk : k.Inside n) (h : d.Visits parent place n.branch) :
    ∃ parent place, d.Visits parent place k.branch := by
  induction hk generalizing parent place with
  | self => exact ⟨parent, place, h⟩
  | @part span shape suffix m hm _ ih =>
    have hbranch : m.branch ∈ shape.branches := by
      rw [shape.branches_eq]
      exact List.mem_append_right _ (List.mem_map_of_mem hm)
    obtain ⟨i, hi⟩ := List.mem_iff_getElem?.1 hbranch
    exact ih (h.next (s := .kid i) hi)

/-- **Every place that a walk goes on to is the place of an entry.** -/
structure Allocated (d : Document) : Prop where
  /-- a walk comes to every node that stands in one of the roots -/
  printed : ∀ n ∈ d.roots, ∀ k : Node, k.Inside n → ∃ parent place, d.Visits parent place k.branch
  /-- roots, parts and suffixes: the entry there is that of the node, and knows the places of its parent and suffix -/
  below : ∀ parent place b, d.Visits parent place b → d.listing[place]? = some (b.entry parent place)
  /-- parents, one after the other -/
  above : ∀ parent place b, d.Visits parent place b →
    ∃ above, d.Ancestors place above ∧ ∀ k ∈ above, k < d.listing.length
  /-- the node before an offset -/
  before : ∀ offset l, nodeBefore? d.forest offset = some l → ∃ parent place b, d.Visits parent place b ∧ b.label = l

theorem allocated (d : Document) : d.Allocated where
  printed n hn k hk := by
    have hroot : n.branch ∈ d.forest := by
      rw [forest, Node.branches_eq_map]
      exact List.mem_map_of_mem hn
    obtain ⟨i, hi⟩ := List.mem_iff_getElem?.1 hroot
    exact Visits.inside hk (.root hi)
  below _ _ _ h := h.stands.getElem?
  above _ place _ h := by
    have hplace : place < d.listing.length := (List.getElem?_eq_some_iff.1 h.stands.getElem?).1
    obtain ⟨above, habove, -, hbefore⟩ := ancestors_lt hplace
    exact ⟨above, habove, fun k hk => (hbefore k hk).trans hplace⟩
  before _ _ h := visits_of_mem (Branch.mem_of_nodeBefore? h)

end Document

end LpcStyle

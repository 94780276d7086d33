import Mathlib.Tactic
import LpcStyle.Proofs.Tree.Nested

/-!
Ways through a tree. A path goes from a root down from node to node, each time to a part or to the suffix.
- `Document.hangs`: the parent of an entry stands before it, and is the entry of a node that lists its node;
- `Document.follow_unique`: where no two nodes have the same label, a node is reached along one path only.
-/

namespace LpcStyle

open Text

/-- a step down from a node -/
inductive Step where
  | kid (k : Nat)
  | suffix
deriving DecidableEq, Repr

/-- a way down from a root -/
@[ext] structure Path where
  root : Nat
  steps : List Step
deriving DecidableEq, Repr

namespace Branch

mutual

/-- the labels of a branch in the order of its listing -/
def labels : Branch → List Label
  | .mk label kids suffix => label :: labelsOf kids ++ suffix.toList.map fun c => (ofComment c).label

def labelsOf : List Branch → List Label
  | [] => []
  | b :: bs => b.labels ++ labelsOf bs

end

/-- the labels below a node -/
def inner : Branch → List Label
  | .mk _ kids suffix => labelsOf kids ++ suffix.toList.map fun c => (ofComment c).label

/-- the node that a step leads to -/
def next? : Branch → Step → Option Branch
  | .mk _ kids _, .kid k => kids[k]?
  | .mk _ _ suffix, .suffix => suffix.map ofComment

/-- the node that some steps lead to -/
def follow? : Branch → List Step → Option Branch
  | b, [] => some b
  | b, s :: steps => (b.next? s).bind fun c => c.follow? steps

variable {b c d : Branch} {as bs : List Branch} {s s' : Step} {steps steps' : List Step}

theorem labels_eq (b : Branch) : b.labels = b.label :: b.inner := by
  cases b
  rfl

theorem labelsOf_eq_flatMap (bs : List Branch) : labelsOf bs = bs.flatMap labels := by
  induction bs with
  | nil => rfl
  | cons b bs ih => rw [labelsOf, ih, List.flatMap_cons]

mutual

theorem map_label_entries (parent : Option Nat) (place : Nat) : (b : Branch) →
    (b.entries parent place).map (·.label) = b.labels
  | .mk label kids suffix => by
    simp only [entries, labels, List.map_append, List.map_cons, List.map_map, map_label_listing]
    rfl

/-- **A listing holds the labels of its branches.** -/
theorem map_label_listing (parent : Option Nat) (place : Nat) : (bs : List Branch) →
    (listing parent place bs).map (·.label) = labelsOf bs
  | [] => rfl
  | b :: bs => by rw [listing, labelsOf, List.map_append, map_label_entries, map_label_listing]

end

mutual

theorem filter_labels : (b : Branch) → b.labels.filter (·.comment?.isNone) = b.solids
  | .mk label kids suffix => by
    have hsuffix : (suffix.toList.map fun c => (ofComment c).label).filter (·.comment?.isNone) = [] := by
      cases suffix <;> rfl
    rw [labels, solids, List.filter_append, hsuffix, List.append_nil, List.filter_cons, filter_labelsOf]
    split <;> rfl

/-- the labels that are no comments -/
theorem filter_labelsOf : (bs : List Branch) → (labelsOf bs).filter (·.comment?.isNone) = solidsOf bs
  | [] => rfl
  | b :: bs => by rw [labelsOf, solidsOf, List.filter_append, filter_labels, filter_labelsOf]

end

/-! ## Paths -/

/-- a step leads into the inner labels -/
theorem labels_subset_inner (h : b.next? s = some c) : c.labels ⊆ b.inner := by
  obtain ⟨label, kids, suffix⟩ := b
  intro l hl
  cases s with
  | kid k =>
    refine List.mem_append_left _ ?_
    rw [labelsOf_eq_flatMap]
    exact List.mem_flatMap.2 ⟨c, List.mem_of_getElem? h, hl⟩
  | suffix =>
    obtain ⟨comment, hsuffix, rfl⟩ := Option.map_eq_some_iff.1 h
    have heq : l = (ofComment comment).label := List.mem_singleton.1 hl
    exact List.mem_append_right _ (by simp [hsuffix, heq])

theorem label_mem_of_follow (h : b.follow? steps = some c) : c.label ∈ b.labels := by
  induction steps generalizing b with
  | nil =>
    cases h
    simp [labels_eq]
  | cons s steps ih =>
    obtain ⟨x, hnext, hrest⟩ := Option.bind_eq_some_iff.1 h
    rw [labels_eq]
    exact List.mem_cons_of_mem _ (labels_subset_inner hnext (ih hrest))

/-- a path that goes on does not come back -/
theorem label_ne_of_follow (h : b.labels.Nodup) (hc : b.follow? (s :: steps) = some c) : c.label ≠ b.label := by
  intro heq
  rw [labels_eq] at h
  obtain ⟨x, hnext, hrest⟩ := Option.bind_eq_some_iff.1 hc
  exact (List.nodup_cons.1 h).1 (heq ▸ labels_subset_inner hnext (label_mem_of_follow hrest))

/-- branches of different places have no label in common -/
theorem disjoint_of_getElem? (h : (labelsOf bs).Nodup) {j k : Nat} (hjk : j ≠ k) (hb : bs[j]? = some b)
    (hc : bs[k]? = some c) : b.labels.Disjoint c.labels := by
  rw [labelsOf_eq_flatMap] at h
  have hapart := List.pairwise_iff_getElem.1 (List.nodup_flatMap.1 h).2
  obtain ⟨hj, rfl⟩ := List.getElem?_eq_some_iff.1 hb
  obtain ⟨hk, rfl⟩ := List.getElem?_eq_some_iff.1 hc
  rcases Nat.lt_or_gt_of_ne hjk with hlt | hgt
  · exact hapart j k hj hk hlt
  · exact (hapart k j hk hj hgt).symm

/-- different steps lead to nodes without a label in common -/
theorem disjoint_of_next (h : b.inner.Nodup) (hs : s ≠ s') (hc : b.next? s = some c) (hd : b.next? s' = some d) :
    c.labels.Disjoint d.labels := by
  obtain ⟨label, kids, suffix⟩ := b
  obtain ⟨hkids, -, hapart⟩ := List.nodup_append'.1 h
  -- a part and the suffix
  have hmixed {k : Nat} {x y : Branch} (hx : kids[k]? = some x) (hy : suffix.map ofComment = some y) :
      x.labels.Disjoint y.labels := by
    intro l hl hl'
    refine hapart (a := l) ?_ ?_
    · rw [labelsOf_eq_flatMap]
      exact List.mem_flatMap.2 ⟨x, List.mem_of_getElem? hx, hl⟩
    · obtain ⟨comment, hsuffix, rfl⟩ := Option.map_eq_some_iff.1 hy
      have heq : l = (ofComment comment).label := List.mem_singleton.1 hl'
      simp [hsuffix, heq]
  cases s with
  | kid k =>
    cases s' with
    | kid k' => exact disjoint_of_getElem? hkids (fun hk => hs (congrArg Step.kid hk)) hc hd
    | suffix => exact hmixed hc hd
  | suffix =>
    cases s' with
    | kid k' => exact (hmixed hd hc).symm
    | suffix => exact absurd rfl hs

theorem nodup_of_next (h : b.inner.Nodup) (hc : b.next? s = some c) : c.labels.Nodup := by
  obtain ⟨label, kids, suffix⟩ := b
  cases s with
  | kid k =>
    have hkids := (List.nodup_append'.1 h).1
    rw [labelsOf_eq_flatMap] at hkids
    exact (List.nodup_flatMap.1 hkids).1 c (List.mem_of_getElem? hc)
  | suffix =>
    obtain ⟨comment, -, rfl⟩ := Option.map_eq_some_iff.1 hc
    exact List.nodup_singleton _

/-- **One path to a node**, where all labels are distinct. -/
theorem follow_unique (h : b.labels.Nodup) (hc : b.follow? steps = some c) (hd : b.follow? steps' = some d)
    (hlabel : c.label = d.label) : steps = steps' := by
  induction steps generalizing b steps' with
  | nil =>
    cases hc
    cases steps' with
    | nil => rfl
    | cons s' rest' => exact absurd hlabel.symm (label_ne_of_follow h hd)
  | cons s rest ih =>
    cases steps' with
    | nil =>
      cases hd
      exact absurd hlabel (label_ne_of_follow h hc)
    | cons s' rest' =>
      obtain ⟨x, hx, hrest⟩ := Option.bind_eq_some_iff.1 hc
      obtain ⟨y, hy, hrest'⟩ := Option.bind_eq_some_iff.1 hd
      rw [labels_eq] at h
      have hinner := (List.nodup_cons.1 h).2
      by_cases hs : s = s'
      · obtain rfl := hs
        obtain rfl : x = y := Option.some.inj (hx.symm.trans hy)
        rw [ih (nodup_of_next hinner hx) hrest hrest']
      · have hapart := disjoint_of_next hinner hs hx hy (label_mem_of_follow hrest)
        rw [hlabel] at hapart
        exact absurd (label_mem_of_follow hrest') hapart

/-- some steps lead from a node to another, maybe none -/
def Reaches (b c : Branch) : Prop := ∃ steps, b.follow? steps = some c

/-- a path leads to a node -/
def Below (bs : List Branch) (c : Branch) : Prop := ∃ (k : Nat) (b : Branch), bs[k]? = some b ∧ b.Reaches c

/-! ## Parents -/

/-- an entry whose parent stands before it in a row of places, and is the entry of one of the nodes that are reached,
which lists the node of the entry -/
def Hangs (reached : Branch → Prop) (row : List (Entry × Nat)) (e : Entry) (place : Nat) : Prop :=
  ∃ f parent b s c, (f, parent) ∈ row ∧ parent < place ∧ e.parent = some parent ∧ f.label = b.label ∧ reached b ∧
    b.next? s = some c ∧ c.label = e.label

theorem Hangs.imp {reached reached' : Branch → Prop} {row row' : List (Entry × Nat)} {e : Entry} {place : Nat}
    (h : Hangs reached row e place) (hrow : row ⊆ row') (hreached : ∀ b, reached b → reached' b) :
    Hangs reached' row' e place := by
  obtain ⟨f, parent, b, s, c, hf, hlt, hparent, hlabel, hb, hnext, hc⟩ := h
  exact ⟨f, parent, b, s, c, hrow hf, hlt, hparent, hlabel, hreached b hb, hnext, hc⟩

/-- the entries of a branch with their places -/
theorem zipIdx_entries (parent : Option Nat) (place : Nat) (label : Label) (kids : List Branch) (suffix : Option Comment) :
    ((mk label kids suffix).entries parent place).zipIdx place =
      (⟨label, parent, suffix.map fun _ => place + 1 + sizes kids⟩, place) ::
        ((listing (some place) (place + 1) kids).zipIdx (place + 1) ++
          (suffix.toList.map fun c => ⟨(ofComment c).label, some place, none⟩).zipIdx (place + 1 + sizes kids)) := by
  rw [entries, List.cons_append, List.zipIdx_cons, List.zipIdx_append, length_listing]

mutual

/-- **An entry is the first of its branch, or hangs below another.** -/
theorem hangs_entries (parent : Option Nat) (place : Nat) : (b : Branch) → ∀ x ∈ (b.entries parent place).zipIdx place,
    (x.1.label = b.label ∧ x.1.parent = parent) ∨ Hangs b.Reaches ((b.entries parent place).zipIdx place) x.1 x.2
  | .mk label kids suffix => by
    have hkids := hangs_listing (some place) (place + 1) kids
    rw [zipIdx_entries]
    intro x hx
    rcases List.mem_cons.1 hx with rfl | hx
    · exact .inl ⟨rfl, rfl⟩
    right
    have hself : (mk label kids suffix).Reaches (mk label kids suffix) := ⟨[], rfl⟩
    rcases List.mem_append.1 hx with hkid | hsuffix
    · rcases hkids x hkid with ⟨hparent, c, hc, hlabel⟩ | hhangs
      · obtain ⟨k, hk⟩ := List.mem_iff_getElem?.1 hc
        have hle := List.le_snd_of_mem_zipIdx hkid
        exact ⟨_, place, _, .kid k, c, List.mem_cons_self, hle, hparent, rfl, hself, hk, hlabel.symm⟩
      · refine hhangs.imp (fun y hy => List.mem_cons_of_mem _ (List.mem_append_left _ hy)) ?_
        rintro c ⟨k, b, hb, steps, hc⟩
        exact ⟨.kid k :: steps, Option.bind_eq_some_iff.2 ⟨b, hb, hc⟩⟩
    · have hplace := List.le_snd_of_mem_zipIdx hsuffix
      obtain ⟨comment, hcomment, he⟩ := List.mem_map.1 (List.fst_mem_of_mem_zipIdx hsuffix)
      refine ⟨_, place, _, .suffix, ofComment comment, List.mem_cons_self, by omega, by rw [← he], rfl, hself, ?_, ?_⟩
      · rw [next?, Option.mem_toList.1 hcomment, Option.map_some]
      · rw [← he]

theorem hangs_listing (parent : Option Nat) (place : Nat) : (bs : List Branch) →
    ∀ x ∈ (listing parent place bs).zipIdx place, (x.1.parent = parent ∧ ∃ b ∈ bs, x.1.label = b.label) ∨
      Hangs (Below bs) ((listing parent place bs).zipIdx place) x.1 x.2
  | [] => by simp [listing]
  | b :: bs => by
    intro x hx
    have hb := hangs_entries parent place b
    have hbs := hangs_listing parent (place + b.size) bs
    rw [listing, List.zipIdx_append, length_entries] at hx ⊢
    rcases List.mem_append.1 hx with hx | hx
    · rcases hb x hx with ⟨hlabel, hparent⟩ | hhangs
      · exact .inl ⟨hparent, b, by simp, hlabel⟩
      · exact .inr (hhangs.imp (List.subset_append_left _ _) fun c hc => ⟨0, b, rfl, hc⟩)
    · rcases hbs x hx with ⟨hparent, c, hc, hlabel⟩ | hhangs
      · exact .inl ⟨hparent, c, List.mem_cons_of_mem _ hc, hlabel⟩
      · refine .inr (hhangs.imp (List.subset_append_right _ _) fun c hc => ?_)
        obtain ⟨k, d, hd, hc⟩ := hc
        exact ⟨k + 1, d, by simpa using hd, hc⟩

end

end Branch

/-! ## Documents -/

/-- the path one step further -/
def Path.down (p : Path) (s : Step) : Path := ⟨p.root, p.steps ++ [s]⟩

namespace Document

/-- the node at the end of a path -/
def follow? (d : Document) (p : Path) : Option Branch := d.forest[p.root]?.bind fun b => b.follow? p.steps

/-- a node with the first label is reached, and a node with the second is one of its parts, or its suffix -/
def Lists (d : Document) (l m : Label) : Prop :=
  ∃ p b s c, d.follow? p = some b ∧ b.next? s = some c ∧ b.label = l ∧ c.label = m

/-- the places above a place: its parent, the parent of that, and so on up to an entry without a parent -/
inductive Ancestors (d : Document) : Nat → List Nat → Prop where
  | root {place : Nat} {e : Entry} (he : d.listing[place]? = some e) (hparent : e.parent = none) : Ancestors d place []
  | step {place parent : Nat} {e : Entry} {above : List Nat} (he : d.listing[place]? = some e)
      (hparent : e.parent = some parent) (habove : Ancestors d parent above) : Ancestors d place (parent :: above)

variable {d : Document} {p q : Path} {s : Step} {b c : Branch} {l l' m : Label} {place : Nat} {e : Entry}

/-- **An entry is that of a root, or a node of an earlier entry lists its node.** -/
theorem hangs (h : d.listing[place]? = some e) : (e.parent = none ∧ ∃ b ∈ d.forest, b.label = e.label) ∨
    ∃ (f : Entry) (parent : Nat),
      d.listing[parent]? = some f ∧ parent < place ∧ e.parent = some parent ∧ d.Lists f.label e.label := by
  rcases Branch.hangs_listing none 0 d.forest (e, place) (List.mem_zipIdx_iff_getElem?.2 h) with hroot | hhangs
  · obtain ⟨hparent, b, hb, hlabel⟩ := hroot
    exact .inl ⟨hparent, b, hb, hlabel.symm⟩
  · obtain ⟨f, parent, b, s, c, hf, hlt, hparent, hlabel, ⟨k, r, hr, steps, hb⟩, hnext, hc⟩ := hhangs
    have hpath : d.follow? ⟨k, steps⟩ = some b := Option.bind_eq_some_iff.2 ⟨r, hr, hb⟩
    have hplace := List.mem_zipIdx_iff_getElem?.1 hf
    exact .inr ⟨f, parent, hplace, hlt, hparent, ⟨k, steps⟩, b, s, c, hpath, hnext, hlabel.symm, hc⟩

/-- **One path to a node**, where all labels are distinct. -/
theorem follow_unique (h : (Branch.labelsOf d.forest).Nodup) (hb : d.follow? p = some b) (hc : d.follow? q = some c)
    (hlabel : b.label = c.label) : p = q := by
  obtain ⟨root, steps⟩ := p
  obtain ⟨root', steps'⟩ := q
  obtain ⟨r, hr, hsteps⟩ := Option.bind_eq_some_iff.1 hb
  obtain ⟨r', hr', hsteps'⟩ := Option.bind_eq_some_iff.1 hc
  by_cases hroot : root = root'
  · obtain rfl := hroot
    obtain rfl : r = r' := Option.some.inj (hr.symm.trans hr')
    rw [Branch.labelsOf_eq_flatMap] at h
    have hnodup := (List.nodup_flatMap.1 h).1 r (List.mem_of_getElem? hr)
    exact congrArg (Path.mk root) (Branch.follow_unique hnodup hsteps hsteps' hlabel)
  · have hapart := Branch.disjoint_of_getElem? h hroot hr hr' (Branch.label_mem_of_follow hsteps)
    rw [hlabel] at hapart
    exact absurd (Branch.label_mem_of_follow hsteps') hapart

/-- the way up goes to earlier entries only, so it comes to an end -/
theorem ancestors_lt (h : place < d.listing.length) :
    ∃ above, d.Ancestors place above ∧ (place :: above).Nodup ∧ ∀ k ∈ above, k < place := by
  induction place using Nat.strong_induction_on with
  | _ place ih =>
    obtain ⟨e, he⟩ : ∃ e, d.listing[place]? = some e := ⟨_, List.getElem?_eq_getElem h⟩
    rcases hangs he with ⟨hparent, -⟩ | ⟨f, parent, hf, hlt, hparent, -⟩
    · exact ⟨[], .root he hparent, List.nodup_singleton _, by simp⟩
    · obtain ⟨above, habove, hnodup, hbefore⟩ := ih parent hlt (hlt.trans h)
      have hbelow : ∀ k ∈ parent :: above, k < place :=
        List.forall_mem_cons.2 ⟨hlt, fun k hk => (hbefore k hk).trans hlt⟩
      have hfresh : place ∉ parent :: above := fun hmem => (hbelow place hmem).false
      exact ⟨parent :: above, .step he hparent habove, List.nodup_cons.2 ⟨hfresh, hnodup⟩, hbelow⟩

end Document

end LpcStyle

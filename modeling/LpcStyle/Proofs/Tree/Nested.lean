import Mathlib.Tactic
import LpcStyle.Proofs.Tree.Comments
import LpcStyle.Proofs.Grammar.Places

/-!
Where nodes lie. A node is read between two offsets, and what is read next lies behind it; so no two nodes have the same
label, comments aside, and in a text without comments nodes lie inside the nodes around them. Only a form that may be
nothing but its one part, a shell, shares its range with that part.
- `Branch.Nested`: no range leaves the one around it, and siblings come in order;
- `Branch.Row`: what is known of branches that are read between two offsets;
- `Node.Rests`: what is known of a node that is read between two offsets.
-/

namespace LpcStyle

open Text

/-- forms that may be nothing but their one part -/
def Shape.isShell {α : Type} : Shape α → Bool
  | .mappingPair .. | .declarator .. => true
  | _ => false

/-- the other label starts later, ends earlier, or is of another form -/
def Label.Clear (l other : Label) : Prop :=
  l.span.start < other.span.start ∨ other.span.stop < l.span.stop ∨
    other.span.stop ≤ l.span.stop ∧ l.shape.isShell = true ∧ other.shape.isShell = false

theorem Label.Clear.ne {l other : Label} (h : l.Clear other) : l ≠ other := by
  rintro rfl
  rcases h with h | h | ⟨-, hshell, hplain⟩
  · exact lt_irrefl _ h
  · exact lt_irrefl _ h
  · rw [hshell] at hplain
    cases hplain

/-- **Ranges nest**: none is empty, none leaves the one around it, and siblings come in order. -/
inductive Branch.Nested : Branch → Prop where
  | mk {label : Label} {kids : List Branch} {suffix : Option Comment} (pos : label.span.start < label.span.stop)
      (within : ∀ k ∈ kids, label.span.start ≤ k.start ∧ k.stop ≤ label.span.stop)
      (ordered : kids.Pairwise fun a b => a.stop ≤ b.start) (below : ∀ k ∈ kids, k.Nested) :
      Nested (.mk label kids suffix)

namespace Branch

mutual

/-- the labels of a branch that are no comments -/
def solids : Branch → List Label
  | .mk label kids _ => (if label.comment?.isNone then [label] else []) ++ solidsOf kids

def solidsOf : List Branch → List Label
  | [] => []
  | b :: bs => b.solids ++ solidsOf bs

end

variable {q : Prop} {lo hi m lower upper : Nat} {as bs kids : List Branch} {b : Branch} {label d : Label}
  {suffix : Option Comment}

theorem solidsOf_eq_flatMap (bs : List Branch) : solidsOf bs = bs.flatMap solids := by
  induction bs with
  | nil => rfl
  | cons b bs ih => rw [solidsOf, ih, List.flatMap_cons]

@[simp] theorem solidsOf_nil : solidsOf [] = [] := rfl

@[simp] theorem solidsOf_cons (b : Branch) (bs : List Branch) : solidsOf (b :: bs) = b.solids ++ solidsOf bs := rfl

@[simp] theorem solidsOf_append (as bs : List Branch) : solidsOf (as ++ bs) = solidsOf as ++ solidsOf bs := by
  rw [solidsOf_eq_flatMap, List.flatMap_append, ← solidsOf_eq_flatMap, ← solidsOf_eq_flatMap]

theorem solids_mk_subset (h : d ∈ solids (.mk label kids suffix)) : d = label ∨ d ∈ solidsOf kids := by
  rcases List.mem_append.1 h with h | h
  · split at h
    · exact .inl (List.mem_singleton.1 h)
    · cases h
  · exact .inr h

@[simp] theorem solids_ofComment (c : Comment) : (ofComment c).solids = [] := rfl

theorem Nested.pos (h : b.Nested) : b.start < b.stop := by
  cases h with
  | mk pos _ _ _ => exact pos

/-- every label of a nested branch lies in its range -/
theorem Nested.solids (h : b.Nested) : ∀ d ∈ b.solids,
    b.start ≤ d.span.start ∧ d.span.start < d.span.stop ∧ d.span.stop ≤ b.stop := by
  induction h with
  | @mk label kids suffix pos within ordered _ ih =>
    intro d hd
    rcases solids_mk_subset hd with rfl | hd
    · exact ⟨le_rfl, pos, le_rfl⟩
    · rw [solidsOf_eq_flatMap] at hd
      obtain ⟨k, hk, hd⟩ := List.mem_flatMap.1 hd
      obtain ⟨hstart, hpos, hstop⟩ := ih k hk d hd
      obtain ⟨hleft, hright⟩ := within k hk
      exact ⟨hleft.trans hstart, hpos, hstop.trans hright⟩

/-! ## Branches between two offsets -/

/-- branches that are read between two offsets: their labels start there, no two are the same, and in a quiet text
the branches come in order and nest -/
structure Row (q : Prop) (lo hi : Nat) (bs : List Branch) : Prop where
  le : lo ≤ hi
  bounds : ∀ d ∈ solidsOf bs, lo ≤ d.span.start ∧ d.span.start < hi
  nodup : (solidsOf bs).Nodup
  within : q → ∀ b ∈ bs, lo ≤ b.start ∧ b.stop ≤ hi
  ordered : q → bs.Pairwise fun a b => a.stop ≤ b.start
  nested : q → ∀ b ∈ bs, b.Nested

namespace Row

theorem nil (h : lo ≤ hi) : Row q lo hi [] := ⟨h, by simp, by simp, by simp, by simp, by simp⟩

/-- a comment has no label that counts -/
theorem comment (c : Comment) (hq : ¬q) (h : lo ≤ hi) : Row q lo hi [ofComment c] :=
  ⟨h, by simp, by simp, fun h => absurd h hq, fun h => absurd h hq, fun h => absurd h hq⟩

theorem widen (h : Row q lo hi bs) (hlower : lower ≤ lo) (hupper : hi ≤ upper) : Row q lower upper bs where
  le := hlower.trans (h.le.trans hupper)
  bounds d hd := ⟨hlower.trans (h.bounds d hd).1, (h.bounds d hd).2.trans_le hupper⟩
  nodup := h.nodup
  within hq b hb := ⟨hlower.trans (h.within hq b hb).1, (h.within hq b hb).2.trans hupper⟩
  ordered := h.ordered
  nested := h.nested

/-- **What is read next lies behind.** -/
theorem append (has : Row q lo m as) (hbs : Row q m hi bs) : Row q lo hi (as ++ bs) where
  le := has.le.trans hbs.le
  bounds d hd := by
    rw [solidsOf_append] at hd
    rcases List.mem_append.1 hd with hd | hd
    · exact ⟨(has.bounds d hd).1, (has.bounds d hd).2.trans_le hbs.le⟩
    · exact ⟨has.le.trans (hbs.bounds d hd).1, (hbs.bounds d hd).2⟩
  nodup := by
    rw [solidsOf_append, List.nodup_append]
    refine ⟨has.nodup, hbs.nodup, ?_⟩
    rintro d hd _ he rfl
    have := (has.bounds d hd).2
    have := (hbs.bounds d he).1
    omega
  within hq b hb := by
    rcases List.mem_append.1 hb with hb | hb
    · exact ⟨(has.within hq b hb).1, (has.within hq b hb).2.trans hbs.le⟩
    · exact ⟨has.le.trans (hbs.within hq b hb).1, (hbs.within hq b hb).2⟩
  ordered hq := by
    refine List.pairwise_append.2 ⟨has.ordered hq, hbs.ordered hq, fun a ha b hb => ?_⟩
    exact (has.within hq a ha).2.trans (hbs.within hq b hb).1
  nested hq := List.forall_mem_append.2 ⟨has.nested hq, hbs.nested hq⟩

/-- branches may be left out -/
theorem sublist (h : Row q lo hi bs) (hsub : as.Sublist bs) : Row q lo hi as := by
  have hsolids : (solidsOf as).Sublist (solidsOf bs) := by
    rw [solidsOf_eq_flatMap, solidsOf_eq_flatMap]
    exact hsub.flatMap solids
  exact ⟨h.le, fun d hd => h.bounds d (hsolids.subset hd), h.nodup.sublist hsolids,
    fun hq b hb => h.within hq b (hsub.subset hb), fun hq => (h.ordered hq).sublist hsub,
    fun hq b hb => h.nested hq b (hsub.subset hb)⟩

/-- in a quiet text branches end where the last of them ends -/
theorem tight (h : Row q lo hi (bs ++ [b])) (hq : q) : Row q lo b.stop (bs ++ [b]) := by
  have hb : b ∈ bs ++ [b] := by simp
  have hordered := List.pairwise_append.1 (h.ordered hq)
  have hstop : ∀ c ∈ bs ++ [b], c.stop ≤ b.stop := by
    intro c hc
    rcases List.mem_append.1 hc with hc | hc
    · exact (hordered.2.2 c hc b (by simp)).trans (h.nested hq b hb).pos.le
    · rw [List.mem_singleton.1 hc]
  refine ⟨?_, fun d hd => ⟨(h.bounds d hd).1, ?_⟩, h.nodup, fun hq c hc => ⟨(h.within hq c hc).1, hstop c hc⟩,
    h.ordered, h.nested⟩
  · exact (h.within hq b hb).1.trans (h.nested hq b hb).pos.le
  · rw [solidsOf_eq_flatMap] at hd
    obtain ⟨c, hc, hd⟩ := List.mem_flatMap.1 hd
    obtain ⟨-, hpos, hle⟩ := (h.nested hq c hc).solids d hd
    exact hpos.trans_le (hle.trans (hstop c hc))

/-- **A branch around others**: its label is none of theirs. -/
theorem node (hstart : lo ≤ label.span.start) (hhi : label.span.start < hi) (hkids : Row q label.span.start hi kids)
    (hclear : ∀ d ∈ solidsOf kids, label.Clear d)
    (hquiet : q → label.span.start < label.span.stop ∧ label.span.stop ≤ hi ∧ ∀ k ∈ kids, k.stop ≤ label.span.stop) :
    Row q lo hi [.mk label kids suffix] where
  le := hstart.trans hhi.le
  bounds d hd := by
    rw [solidsOf_cons, solidsOf_nil, List.append_nil] at hd
    rcases solids_mk_subset hd with rfl | hd
    · exact ⟨hstart, hhi⟩
    · exact ⟨hstart.trans (hkids.bounds d hd).1, (hkids.bounds d hd).2⟩
  nodup := by
    rw [solidsOf_cons, solidsOf_nil, List.append_nil, Branch.solids]
    split
    · exact List.nodup_cons.2 ⟨fun h => (hclear label h).ne rfl, hkids.nodup⟩
    · exact hkids.nodup
  within hq b hb := by
    obtain rfl := List.mem_singleton.1 hb
    exact ⟨hstart, (hquiet hq).2.1⟩
  ordered _ := List.pairwise_singleton _ _
  nested hq b hb := by
    obtain rfl := List.mem_singleton.1 hb
    obtain ⟨hpos, -, hstop⟩ := hquiet hq
    exact .mk hpos (fun k hk => ⟨(hkids.within hq k hk).1, hstop k hk⟩) (hkids.ordered hq) (hkids.nested hq)

end Row

end Branch

/-! ## Nodes between two offsets -/

/-- some nodes that are read between two offsets -/
def Node.SitAll (text : List Char) (lo : Nat) (ns : List Node) (hi : Nat) : Prop :=
  Branch.Row (Quiet text) lo hi (Node.branches ns)

/-- a node that is read between two offsets, and ends between them -/
structure Node.Rests (text : List Char) (lo : Nat) (n : Node) (hi : Nat) : Prop where
  start : lo ≤ n.start
  pos : n.start < n.stop
  stop : n.stop ≤ hi
  row : Branch.Row (Quiet text) n.start n.stop [n.branch]
  kids : Branch.Row (Quiet text) n.start n.stop n.shape.branches
  clear : ∀ d ∈ Branch.solidsOf n.shape.branches, n.branch.label.Clear d

/-- a node that is no shell besides -/
structure Node.Sits (text : List Char) (lo : Nat) (n : Node) (hi : Nat) : Prop extends Node.Rests text lo n hi where
  plain : n.shape.isShell = false

namespace Node

variable {text : List Char} {lo hi m lower upper start stop : Nat} {n left : Node} {span : Span} {shape : Shape Node}
  {suffix : Option Comment} {ns : List Node} {d : Label} {rest : List Branch}

@[simp] theorem stop_branch (n : Node) : n.branch.stop = n.stop := by
  cases n
  rfl

theorem isShell_map (shape : Shape Node) : (shape.map fun _ => ()).isShell = shape.isShell := by
  cases shape <;> rfl

/-! ## What is known of a node -/

namespace Rests

theorem widen (h : n.Rests text lo hi) (hlower : lower ≤ lo) (hupper : hi ≤ upper) : n.Rests text lower upper :=
  ⟨hlower.trans h.start, h.pos, h.stop.trans hupper, h.row, h.kids, h.clear⟩

/-- the node ends behind where it may start -/
theorem starts (h : n.Rests text lo hi) : lo < n.stop := h.start.trans_lt h.pos

theorem lt (h : n.Rests text lo hi) : lo < hi := h.starts.trans_le h.stop

/-- the node by itself -/
theorem alone (h : n.Rests text lo hi) : Branch.Row (Quiet text) lo hi [n.branch] := h.row.widen h.start h.stop

/-- the node by itself, up to its end -/
theorem tight (h : n.Rests text lo hi) (hlower : lower ≤ lo) : Branch.Row (Quiet text) lower n.stop [n.branch] :=
  h.row.widen (hlower.trans h.start) le_rfl

/-- a suffix does not move a node -/
theorem withSuffix (h : n.Rests text lo hi) (c : Comment) : (n.withSuffix c).Rests text lo hi := by
  cases n with
  | mk span shape suffix =>
    refine ⟨h.start, h.pos, h.stop, ?_, h.kids, h.clear⟩
    refine .node le_rfl h.pos h.kids h.clear fun hq => ⟨h.pos, le_rfl, fun k hk => (h.kids.within hq k hk).2⟩

/-- a label inside the node starts later, or ends with the node at the latest -/
theorem label (h : n.Rests text lo hi) (hd : d ∈ n.branch.solids) : n.start < d.span.start ∨ d.span.stop ≤ n.stop := by
  cases n with
  | mk span shape suffix =>
    rcases Branch.solids_mk_subset hd with rfl | hd
    · exact .inr le_rfl
    · rcases h.clear d hd with hstart | hstop | ⟨hstop, -⟩
      · exact .inl hstart
      · exact .inr hstop.le
      · exact .inr hstop

/-- **A node of its parts**, which lie in its range and are clear of its label. -/
theorem ofParts (hstart : lo ≤ span.start) (hpos : span.start < span.stop) (hstop : span.stop ≤ hi)
    (hkids : Branch.Row (Quiet text) span.start span.stop shape.branches)
    (hclear : ∀ d ∈ Branch.solidsOf shape.branches, Label.Clear ⟨span, shape.map fun _ => ()⟩ d) :
    (Node.mk span shape suffix).Rests text lo hi := by
  refine ⟨hstart, hpos, hstop, ?_, hkids, hclear⟩
  exact .node le_rfl hpos hkids hclear fun hq => ⟨hpos, le_rfl, fun k hk => (hkids.within hq k hk).2⟩

/-- **A node that starts before its parts.** -/
theorem opened (hstart : lo ≤ span.start) (hm : span.start < m) (hstop : span.stop ≤ hi)
    (hkids : Branch.Row (Quiet text) m span.stop shape.branches) : (Node.mk span shape suffix).Rests text lo hi := by
  refine ofParts hstart (hm.trans_le hkids.le) hstop (hkids.widen hm.le le_rfl) fun d hd => .inl ?_
  exact hm.trans_le (hkids.bounds d hd).1

/-- **A node that starts with its first part** and goes on behind it. -/
theorem grown (hleft : left.Rests text lo m) (hbranches : shape.branches = left.branch :: rest) (hm : m < stop)
    (hstop : stop ≤ hi) (hrest : Branch.Row (Quiet text) m stop rest) :
    (Node.mk ⟨left.start, stop⟩ shape suffix).Rests text lo hi := by
  have hpos : left.start < stop := hleft.pos.trans (hleft.stop.trans_lt hm)
  refine ofParts hleft.start hpos hstop ?_ fun d hd => ?_
  · rw [hbranches]
    exact (hleft.row.widen le_rfl hleft.stop).append hrest
  · rw [hbranches, Branch.solidsOf_cons] at hd
    rcases List.mem_append.1 hd with hd | hd
    · rcases hleft.label hd with hstart | hend
      · exact .inl hstart
      · exact .inr (.inl (hend.trans_lt (hleft.stop.trans_lt hm)))
    · exact .inl ((hleft.pos.trans_le hleft.stop).trans_le (hrest.bounds d hd).1)

/-- **A node of two parts**, the second behind the first. -/
theorem joins {part : Node} {m' : Nat} (hleft : left.Rests text lo m) (hm : m ≤ m') (hpart : part.Rests text m' hi)
    (hbranches : shape.branches = [left.branch, part.branch]) :
    (Node.mk ⟨left.start, part.stop⟩ shape suffix).Rests text lo hi :=
  grown hleft hbranches (hm.trans_lt hpart.starts) hpart.stop (hpart.tight hm)

end Rests

namespace Sits

theorem starts (h : n.Sits text lo hi) : lo < n.stop := h.toRests.starts

theorem tight (h : n.Sits text lo hi) (hlower : lower ≤ lo) : Branch.Row (Quiet text) lower n.stop [n.branch] :=
  h.toRests.tight hlower

theorem widen (h : n.Sits text lo hi) (hlower : lower ≤ lo) (hupper : hi ≤ upper) : n.Sits text lower upper :=
  ⟨h.toRests.widen hlower hupper, h.plain⟩

theorem withSuffix (h : n.Sits text lo hi) (c : Comment) : (n.withSuffix c).Sits text lo hi := by
  cases n
  exact ⟨h.toRests.withSuffix c, h.plain⟩

/-- a label inside the node starts later, ends earlier, or is no shell -/
theorem label (h : n.Sits text lo hi) (hd : d ∈ n.branch.solids) :
    n.start < d.span.start ∨ d.span.stop < n.stop ∨ d.span.stop ≤ n.stop ∧ d.shape.isShell = false := by
  cases n with
  | mk span shape suffix =>
    rcases Branch.solids_mk_subset hd with rfl | hd
    · exact .inr (.inr ⟨le_rfl, (isShell_map shape).trans h.plain⟩)
    · rcases h.clear d hd with hstart | hstop | ⟨-, hshell, -⟩
      · exact .inl hstart
      · exact .inr (.inl hstop)
      · have hplain := (isShell_map shape).trans h.plain
        rw [show (Shape.map (fun _ => ()) shape).isShell = true from hshell] at hplain
        cases hplain

/-- **A shell** of one part, which is none itself. -/
theorem shell (h : n.Sits text lo hi) (hshell : shape.isShell = true) (hbranches : shape.branches = [n.branch]) :
    (Node.mk n.span shape suffix).Rests text lo hi := by
  refine .ofParts h.start h.pos h.stop ?_ fun d hd => ?_
  · rw [hbranches]
    exact h.row
  · rw [hbranches, Branch.solidsOf_cons, Branch.solidsOf_nil, List.append_nil] at hd
    rcases h.label hd with hstart | hstop | ⟨hstop, hplain⟩
    · exact .inl hstart
    · exact .inr (.inl hstop)
    · exact .inr (.inr ⟨hstop, (isShell_map shape).trans hshell, hplain⟩)

end Sits

/-! ## Lists -/

theorem branches_append (ms ns : List Node) : branches (ms ++ ns) = branches ms ++ branches ns := by simp

namespace SitAll

theorem nil (h : lo ≤ hi) : SitAll text lo [] hi := Branch.Row.nil h

theorem le (h : SitAll text lo ns hi) : lo ≤ hi := Branch.Row.le h

theorem widen (h : SitAll text lo ns hi) (hlower : lower ≤ lo) (hupper : hi ≤ upper) : SitAll text lower ns upper :=
  Branch.Row.widen h hlower hupper

/-- one more node, as branches -/
theorem snocRow (h : SitAll text lo ns m) (hn : Branch.Row (Quiet text) m hi [n.branch]) : SitAll text lo (ns ++ [n]) hi := by
  rw [SitAll, branches_append]
  exact Branch.Row.append h hn

theorem snoc (h : SitAll text lo ns m) (hn : n.Rests text m hi) : SitAll text lo (ns ++ [n]) hi := h.snocRow hn.alone

/-- up to the end of the last node -/
theorem snocTight (h : SitAll text lo ns m) (hn : n.Rests text m hi) : SitAll text lo (ns ++ [n]) n.stop :=
  h.snocRow (hn.row.widen hn.start le_rfl)

theorem comment (h : SitAll text lo ns hi) (c : Comment) (hq : ¬Quiet text) : SitAll text lo (ns ++ [.ofComment c]) hi :=
  h.snocRow (.comment c hq le_rfl)

/-- comments come after the nodes, if there are any in the text -/
theorem comments {cs : List Comment} (h : SitAll text lo ns hi) (hcs : cs ≠ [] → ¬Quiet text) :
    SitAll text lo (ns ++ cs.map .ofComment) hi := by
  induction cs generalizing ns with
  | nil => simpa using h
  | cons c cs ih =>
    have hquiet := hcs (List.cons_ne_nil c cs)
    simpa using ih (h.comment c hquiet) fun _ => hquiet

/-- a suffix does not move the last node -/
theorem withSuffix (h : SitAll text lo (ns ++ [n]) hi) (c : Comment) (hq : ¬Quiet text) :
    SitAll text lo (ns ++ [n.withSuffix c]) hi := by
  have hsolids : Branch.solidsOf (branches (ns ++ [n.withSuffix c])) = Branch.solidsOf (branches (ns ++ [n])) := by
    cases n
    rw [branches_append, branches_append, Branch.solidsOf_append, Branch.solidsOf_append]
    rfl
  refine ⟨h.le, ?_, ?_, fun h => absurd h hq, fun h => absurd h hq, fun h => absurd h hq⟩
  · rw [hsolids]
    exact Branch.Row.bounds h
  · rw [hsolids]
    exact Branch.Row.nodup h

theorem sublist {ms : List Node} (h : SitAll text lo ns hi) (hsub : ms.Sublist ns) : SitAll text lo ms hi := by
  rw [SitAll, branches_eq_map] at h ⊢
  exact Branch.Row.sublist h (hsub.map branch)

end SitAll

/-- nodes that are read one after the other, newest first -/
def Stack (text : List Char) (lo : Nat) (ns : List Node) (hi : Nat) : Prop := SitAll text lo ns.reverse hi

namespace Stack

theorem nil (h : lo ≤ hi) : Stack text lo [] hi := SitAll.nil h

theorem widen (h : Stack text lo ns m) (hupper : m ≤ hi) : Stack text lo ns hi := SitAll.widen h le_rfl hupper

/-- one more node, as branches -/
theorem pushRow (h : Stack text lo ns m) (hn : Branch.Row (Quiet text) m hi [n.branch]) : Stack text lo (n :: ns) hi := by
  rw [Stack, List.reverse_cons]
  exact SitAll.snocRow h hn

theorem push (h : Stack text lo ns m) (hn : n.Rests text m hi) : Stack text lo (n :: ns) hi := h.pushRow hn.alone

theorem comment (h : Stack text lo ns hi) (c : Comment) (hq : ¬Quiet text) : Stack text lo (.ofComment c :: ns) hi :=
  h.pushRow (.comment c hq le_rfl)

/-- a suffix does not move the last node -/
theorem withSuffix (h : Stack text lo (n :: ns) hi) (c : Comment) (hq : ¬Quiet text) :
    Stack text lo (n.withSuffix c :: ns) hi := by
  rw [Stack, List.reverse_cons] at h ⊢
  exact SitAll.withSuffix h c hq

end Stack

/-- nodes that are read one after the other, the last one and those before it, newest first -/
def Trail (text : List Char) (lo : Nat) (x : Node × List Node) (hi : Nat) : Prop :=
  ∃ m, Stack text lo x.2 m ∧ x.1.Rests text m hi

namespace Trail

variable {last : Node} {before : List Node}

theorem first (h : n.Rests text lo hi) : Trail text lo (n, []) hi := ⟨lo, .nil le_rfl, h⟩

theorem widen (h : Trail text lo (last, before) hi) (hlower : lower ≤ lo) (hupper : hi ≤ upper) :
    Trail text lower (last, before) upper := by
  obtain ⟨m, hbefore, hlast⟩ := h
  exact ⟨m, SitAll.widen hbefore hlower le_rfl, hlast.widen le_rfl hupper⟩

theorem next (h : Trail text lo (last, before) m) (hn : n.Rests text m hi) : Trail text lo (n, last :: before) hi := by
  obtain ⟨m', hbefore, hlast⟩ := h
  exact ⟨m, hbefore.push hlast, hn⟩

/-- a suffix does not move the last node -/
theorem withSuffix (h : Trail text lo (last, before) hi) (c : Comment) : Trail text lo (last.withSuffix c, before) hi := by
  obtain ⟨m, hbefore, hlast⟩ := h
  exact ⟨m, hbefore, hlast.withSuffix c⟩

theorem stop_le (h : Trail text lo (last, before) hi) : last.stop ≤ hi := by
  obtain ⟨m, -, hlast⟩ := h
  exact hlast.stop

/-- **They end where the last of them ends.** -/
theorem sitAll (h : Trail text lo (last, before) hi) : SitAll text lo (last :: before).reverse last.stop := by
  obtain ⟨m, hbefore, hlast⟩ := h
  rw [List.reverse_cons]
  exact SitAll.snocTight hbefore hlast

theorem lt (h : Trail text lo (last, before) hi) : lo < last.stop := by
  obtain ⟨m, hbefore, hlast⟩ := h
  exact (SitAll.le hbefore).trans_lt (hlast.start.trans_lt hlast.pos)

end Trail

end Node

end LpcStyle

import Mathlib.Tactic
import LpcStyle.Proofs.Arena.Grown

/-!
Keys in hand. Those that are listed below no cell are apart from each other and from those that are listed (`Owned`), so
what is done to the cell of one of them leaves the nodes of the others as they are. A new cell takes what it lists out of
hand, and so does a cell that gets a suffix or another form.
-/

namespace LpcStyle

open Text

namespace Shape

variable {α β γ : Type}

@[simp] theorem parts_map (f : α → β) (σ : Shape α) : (σ.map f).parts = σ.parts.map f := by
  cases σ <;> simp [map, parts, Option.toList_map]

@[simp] theorem opening_map (f : α → β) (σ : Shape α) : (σ.map f).opening = σ.opening := by cases σ <;> rfl

theorem map_map (f : α → β) (g : β → γ) (σ : Shape α) : (σ.map f).map g = σ.map (g ∘ f) := by
  cases σ <;> simp [map]

theorem closed_map (f : α → β) (σ : Shape α) : (σ.map f).closed = σ.closed.map f := by cases σ <;> rfl

theorem closed_of_opening {σ : Shape α} (h : σ.opening = none) : σ.closed = σ := by
  cases σ <;> first | rfl | (cases h; rfl)

end Shape

namespace Arena

open Store (Key)

variable {cells cells' : Store Cell} {key k : Key} {keys : List Key} {c c' : Cell} {b : Branch} {bs : List Branch}

/-- a key and the node that is grown from it -/
structure Handle where
  key : Key
  node : Node

namespace Handle

/-- the handle of a comment that stands by itself -/
def ofComment (c : Key × Comment) : Handle := ⟨c.1, .ofComment c.2⟩

end Handle

/-- the nodes are grown in the store, and no key is twice among theirs and those below a cell -/
structure Owned (cells : Store Cell) (hs : Multiset Handle) : Prop where
  grown : ∀ h ∈ hs, Grown cells h.key h.node.branch
  apart : (hs.map Handle.key + listed cells).Nodup
  known : ∀ k ∈ listed cells, k.index < cells.size
  unlinked : ∀ key c, cells.get? key = some c → c.parent = none

namespace Owned

variable {hs ms : Multiset Handle} {x : Handle} {n : Node}

theorem mono (h : Owned cells ms) (hle : hs ≤ ms) : Owned cells hs where
  grown x hx := h.grown x (Multiset.mem_of_le hle hx)
  apart := Multiset.nodup_of_le (Multiset.add_le_add_right (Multiset.map_le_map hle)) h.apart
  known := h.known
  unlinked := h.unlinked

theorem cell (h : Owned cells hs) (hx : x ∈ hs) : ∃ c, cells.get? x.key = some c ∧ c.Bears cells x.node.branch :=
  grown_iff.1 (h.grown x hx)

/-- every key that is owned is one of the store -/
theorem lt_size (h : Owned cells hs) {k : Key} (hk : k ∈ hs.map Handle.key + listed cells) : k.index < cells.size := by
  rcases Multiset.mem_add.1 hk with hk | hk
  · obtain ⟨x, hx, rfl⟩ := Multiset.mem_map.1 hk
    obtain ⟨c, hc, -⟩ := h.cell hx
    exact Store.lt_size hc
  · exact h.known k hk

/-- a new cell leaves those in hand as they are -/
theorem get?_alloc (h : Owned cells hs) (hx : x ∈ hs) : (cells.alloc c).2.get? x.key = cells.get? x.key := by
  obtain ⟨d, hd, -⟩ := h.cell hx
  exact Store.get?_alloc_of_lt cells c (Store.lt_size hd)

theorem listed_alloc (cells : Store Cell) (c : Cell) : listed (cells.alloc c).2 = listed cells + c.below := by
  simp [listed, Store.alloc]

theorem keeps_alloc (h : key.index < cells.size) : Keeps cells (cells.alloc c).2 key :=
  .of_eq (Store.get?_alloc_of_lt cells c h)

/-- **A new cell** takes what hangs below it. -/
theorem alloc (h : Owned cells (ms + hs)) (hbelow : (c.below : Multiset Key) = ms.map Handle.key)
    (hparent : c.parent = none) (hbears : c.Bears cells n.branch) :
    Owned (cells.alloc c).2 (⟨(cells.alloc c).1, n⟩ ::ₘ hs) := by
  have hkeys : hs.map Handle.key + listed (cells.alloc c).2 = (ms + hs).map Handle.key + listed cells := by
    rw [listed_alloc, hbelow, Multiset.map_add]
    abel
  have hlisted : ∀ k ∈ listed cells, Keeps cells (cells.alloc c).2 k := fun k hk => keeps_alloc (h.known k hk)
  have hold {k : Key} (hk : k ∈ hs.map Handle.key + listed (cells.alloc c).2) : k.index < cells.size :=
    h.lt_size (hkeys ▸ hk)
  refine ⟨?_, ?_, fun k hk => ?_, fun key d hd => ?_⟩
  · intro x hx
    rcases Multiset.mem_cons.1 hx with rfl | hx
    · refine grown_iff.2 ⟨c, Store.get?_alloc_self cells c, hbears.congr hlisted fun k hk => keeps_alloc (h.lt_size ?_)⟩
      rw [Multiset.map_add, ← hbelow]
      exact Multiset.mem_add.2 (.inl (Multiset.mem_add.2 (.inl hk)))
    · have hmem : x ∈ ms + hs := Multiset.mem_add.2 (.inr hx)
      obtain ⟨d, hd, -⟩ := h.cell hmem
      exact (h.grown x hmem).congr hlisted _ _ (keeps_alloc (Store.lt_size hd))
  · rw [Multiset.map_cons, Multiset.cons_add, Multiset.nodup_cons, hkeys]
    exact ⟨fun hmem => (h.lt_size hmem).false, h.apart⟩
  · rw [Store.size_alloc]
    exact (hold (Multiset.mem_add.2 (.inr hk))).trans (Nat.lt_succ_self _)
  · rcases Nat.lt_or_ge key.index cells.size with hlt | hge
    · exact h.unlinked key d ((Store.get?_alloc_of_lt cells c hlt).symm.trans hd)
    · have hkey : key = (cells.alloc c).1 := by
        have hlt := Store.lt_size hd
        rw [Store.size_alloc] at hlt
        exact congrArg Key.mk (Nat.le_antisymm (Nat.lt_succ_iff.1 hlt) hge)
      rw [hkey, Store.get?_alloc_self] at hd
      exact Option.some.inj hd ▸ hparent

/-- another cell in place of one has the keys below it listed in place of those below the old one -/
theorem listed_set (c' : Cell) (hc : cells.get? key = some c) :
    listed ⟨cells.items.setIfInBounds key.index c'⟩ + c.below = listed cells + c'.below := by
  obtain ⟨hlt, hget⟩ := Array.getElem?_eq_some_iff.1 hc
  have hlt' : key.index < cells.items.toList.length := by simpa using hlt
  obtain ⟨front, back, hold, hnew⟩ : ∃ front back, cells.items.toList = front ++ c :: back ∧
      cells.items.toList.set key.index c' = front ++ c' :: back := by
    refine ⟨cells.items.toList.take key.index, cells.items.toList.drop (key.index + 1), ?_, ?_⟩
    · rw [← hget, ← Array.getElem_toList, ← List.drop_eq_getElem_cons hlt', List.take_append_drop]
    · rw [List.set_eq_take_append_cons_drop, if_pos hlt']
  rw [listed, listed, Array.toList_setIfInBounds, hnew, hold]
  simp only [List.flatMap_append, List.flatMap_cons, ← Multiset.coe_add]
  abel

/-- **A changed cell** takes what hangs below it in addition, and the others in hand are left as they are. -/
theorem update {change : Cell → Cell} (h : Owned cells (x ::ₘ (ms + hs))) (hc : cells.get? x.key = some c)
    (hbelow : ((change c).below : Multiset Key) = c.below + ms.map Handle.key) (hparent : (change c).parent = c.parent)
    (hbears : (change c).Bears cells n.branch) :
    ∃ cells', cells.update? x.key change = some cells' ∧ Owned cells' (⟨x.key, n⟩ ::ₘ hs) ∧
      ∀ y ∈ hs, cells'.get? y.key = cells.get? y.key := by
  refine ⟨_, Store.update?_eq hc, ?_⟩
  have hget (k : Key) := Store.get?_set cells.items x.key k (change c) (Store.lt_size hc)
  have hlisted : listed ⟨cells.items.setIfInBounds x.key.index (change c)⟩ = listed cells + ms.map Handle.key := by
    have hset := listed_set (change c) hc
    rw [hbelow, Multiset.add_comm (c.below : Multiset Key), ← Multiset.add_assoc] at hset
    exact Multiset.add_left_inj.1 hset
  -- the key of the cell stands below no other one, nor is it one of those that are taken
  have hapart := h.apart
  rw [Multiset.map_cons, Multiset.cons_add, Multiset.nodup_cons, Multiset.map_add] at hapart
  obtain ⟨hown, hapart⟩ := hapart
  have hsame {k : Key} (hk : k ∈ ms.map Handle.key + hs.map Handle.key + listed cells) :
      (⟨cells.items.setIfInBounds x.key.index (change c)⟩ : Store Cell).get? k = cells.get? k := by
    refine (hget k).trans (if_neg ?_)
    rintro rfl
    exact hown hk
  have hkept : ∀ k ∈ listed cells, Keeps cells ⟨cells.items.setIfInBounds x.key.index (change c)⟩ k := fun k hk =>
    .of_eq (hsame (Multiset.mem_add.2 (.inr hk)))
  have hothers {y : Handle} (hy : y ∈ hs) : y.key ∈ ms.map Handle.key + hs.map Handle.key + listed cells :=
    Multiset.mem_add.2 (.inl (Multiset.mem_add.2 (.inr (Multiset.mem_map_of_mem _ hy))))
  refine ⟨⟨?_, ?_, fun k hk => ?_, fun key d hd => ?_⟩, fun y hy => hsame (hothers hy)⟩
  · intro y hy
    rcases Multiset.mem_cons.1 hy with rfl | hy
    · refine grown_iff.2 ⟨change c, (hget x.key).trans (if_pos rfl), hbears.congr hkept fun k hk => ?_⟩
      rcases Multiset.mem_add.1 (hbelow ▸ Multiset.mem_coe.2 hk) with hk | hk
      · exact hkept k (mem_listed hc hk)
      · exact .of_eq (hsame (Multiset.mem_add.2 (.inl (Multiset.mem_add.2 (.inl hk)))))
    · have hmem : y ∈ x ::ₘ (ms + hs) := Multiset.mem_cons_of_mem (Multiset.mem_add.2 (.inr hy))
      exact (h.grown y hmem).congr hkept _ _ (.of_eq (hsame (hothers hy)))
  · have hkeys : hs.map Handle.key + (listed cells + ms.map Handle.key) =
        ms.map Handle.key + hs.map Handle.key + listed cells := by abel
    rw [Multiset.map_cons, Multiset.cons_add, hlisted, hkeys]
    exact Multiset.nodup_cons.2 ⟨hown, hapart⟩
  · have hsize : (⟨cells.items.setIfInBounds x.key.index (change c)⟩ : Store Cell).size = cells.size := by
      simp [Store.size]
    rw [hsize]
    refine h.lt_size ?_
    rw [hlisted] at hk
    rw [Multiset.map_cons, Multiset.map_add]
    rcases Multiset.mem_add.1 hk with hk | hk
    · exact Multiset.mem_add.2 (.inr hk)
    · exact Multiset.mem_add.2 (.inl (Multiset.mem_cons_of_mem (Multiset.mem_add.2 (.inl hk))))
  · rw [hget] at hd
    split at hd
    · rw [← Option.some.inj hd, hparent]
      exact h.unlinked _ c hc
    · exact h.unlinked _ d hd

end Owned

/-! ## Changes of a store -/

/-- the branch of a node of a form, cell by cell -/
theorem Cell.Bears.ofShape {σ : Shape Handle} {suffix : Option Comment} (hσ : σ.opening = none)
    (hshape : c.shape = σ.map Handle.key) (hopener : c.opener = none)
    (hparts : ∀ x ∈ σ.parts, Grown cells x.key x.node.branch) (hsuffix : Option.Rel (Lone cells) c.suffix suffix) :
    c.Bears cells (Node.mk c.span (σ.map Handle.node) suffix).branch := by
  refine ⟨⟨rfl, ?_, ?_⟩, ?_, hsuffix⟩
  · rw [hshape]
    change _ = ((σ.map Handle.node).map fun _ => ()).closed
    rw [Shape.map_map, Shape.map_map, Shape.closed_map, Shape.closed_of_opening hσ]
    rfl
  · change _ = ((σ.map Handle.node).map fun _ => ()).opening.isSome
    rw [hopener, Shape.opening_map, Shape.opening_map, hσ]
    rfl
  · change List.Forall₂ _ _ (Shape.branches (σ.map Handle.node))
    rw [Cell.children, hopener, hshape, Shape.branches_eq, Shape.opening_map, hσ, Shape.parts_map, Shape.parts_map,
      List.map_map]
    refine List.forall₂_map_left_iff.2 (List.forall₂_map_right_iff.2 (List.forall₂_same.2 hparts))

/-- a block, with the comment beside its opening brace -/
theorem Cell.Bears.ofBlock {opener : Option (Key × Comment)} {xs : List Handle} {span : Span}
    (hopener : ∀ x ∈ opener, Lone cells x.1 x.2) (hparts : ∀ x ∈ xs, Grown cells x.key x.node.branch) :
    Cell.Bears { span, shape := .codeBlock none (xs.map Handle.key), opener := opener.map (·.1) } cells
      (Node.mk span (.codeBlock (opener.map (·.2)) (xs.map Handle.node)) none).branch := by
  have hkids : List.Forall₂ (Grown cells) (xs.map Handle.key) (Node.branches (xs.map Handle.node)) := by
    rw [Node.branches_eq_map, List.map_map]
    exact List.forall₂_map_left_iff.2 (List.forall₂_map_right_iff.2 (List.forall₂_same.2 hparts))
  refine ⟨⟨rfl, ?_, ?_⟩, ?_, .none⟩
  · simp [Branch.label, Node.branch, Shape.map, Shape.closed]
  · cases opener <;> rfl
  · cases opener with
    | none => exact hkids
    | some x => exact .cons (grown_ofComment.2 (hopener x rfl)) hkids

/-- keys that are grown as nodes are those of handles -/
theorem exists_handles {ns : List Node} (h : List.Forall₂ (Grown cells) keys (ns.map Node.branch)) :
    ∃ xs : List Handle,
      keys = xs.map Handle.key ∧ ns = xs.map Handle.node ∧ ∀ x ∈ xs, Grown cells x.key x.node.branch := by
  induction ns generalizing keys with
  | nil =>
    obtain rfl := List.forall₂_nil_right_iff.1 h
    exact ⟨[], rfl, rfl, by simp⟩
  | cons n ns ih =>
    obtain ⟨key, keys, hkey, hkeys, rfl⟩ := List.forall₂_cons_right_iff.1 h
    obtain ⟨xs, rfl, rfl, hxs⟩ := ih hkeys
    exact ⟨⟨key, n⟩ :: xs, rfl, rfl, List.forall_mem_cons.2 ⟨hkey, hxs⟩⟩

/-- the cell of a call -/
theorem Cell.Bears.call {span : Span} {callee : Node} {args : List Node} {suffix : Option Comment}
    (h : c.Bears cells (Node.mk span (.call callee args) suffix).branch) :
    ∃ (x : Handle) (xs : List Handle), c.shape = .call x.key (xs.map Handle.key) ∧ c.opener = none ∧ callee = x.node ∧
      args = xs.map Handle.node ∧ ∀ y ∈ x :: xs, Grown cells y.key y.node.branch := by
  have hshape : (c.shape.map fun _ => ()) = .call () (args.map fun _ => ()) := h.fits.shape
  have hopener : c.opener = none := Option.isSome_eq_false_iff.1 h.fits.opener |> Option.isNone_iff_eq_none.1
  have hkids : List.Forall₂ (Grown cells) c.children (callee.branch :: Node.branches args) := h.kids
  rw [Cell.children, hopener, Option.toList_none, List.nil_append] at hkids
  obtain ⟨key, keys, hcall⟩ : ∃ key keys, c.shape = .call key keys := by
    cases hkind : c.shape with
    | call key keys => exact ⟨key, keys, rfl⟩
    | _ => simp [hkind, Shape.map] at hshape
  rw [hcall] at hkids
  change List.Forall₂ (Grown cells) (key :: keys) (callee.branch :: Node.branches args) at hkids
  rw [Node.branches_eq_map] at hkids
  obtain ⟨hkey, hkeys⟩ := List.forall₂_cons.1 hkids
  obtain ⟨xs, rfl, rfl, hxs⟩ := exists_handles hkeys
  exact ⟨⟨key, callee⟩, xs, hcall, hopener, rfl, rfl, List.forall_mem_cons.2 ⟨hkey, hxs⟩⟩

namespace Owned

variable {hs ms : Multiset Handle} {x : Handle} {span : Span}

/-- **A node is built** of the parts in hand. -/
theorem build (σ : Shape Handle) (hσ : σ.opening = none) (h : Owned cells (↑σ.parts + hs)) :
    Owned (cells.alloc { span, shape := σ.map Handle.key }).2
      (⟨(cells.alloc { span, shape := σ.map Handle.key }).1, .mk span (σ.map Handle.node) none⟩ ::ₘ hs) := by
  refine h.alloc ?_ rfl (.ofShape hσ rfl rfl (fun x hx => h.grown x (Multiset.mem_add.2 (.inl hx))) .none)
  simp [Cell.below, Cell.children]

/-- **A block is built** of statements and comments in hand. -/
theorem buildBlock {opener : Option (Key × Comment)} {xs : List Handle}
    (h : Owned cells (↑((opener.map Handle.ofComment).toList ++ xs) + hs)) :
    Owned (cells.alloc { span, shape := .codeBlock none (xs.map Handle.key), opener := opener.map (·.1) }).2
      (⟨(cells.alloc { span, shape := .codeBlock none (xs.map Handle.key), opener := opener.map (·.1) }).1,
        .mk span (.codeBlock (opener.map (·.2)) (xs.map Handle.node)) none⟩ ::ₘ hs) := by
  have hgrown : ∀ x ∈ (opener.map Handle.ofComment).toList ++ xs, Grown cells x.key x.node.branch := fun x hx =>
    h.grown x (Multiset.mem_add.2 (.inl hx))
  refine h.alloc ?_ rfl (.ofBlock (fun x hx => ?_) fun x hx => hgrown x (List.mem_append_right _ hx))
  · cases opener <;> simp [Cell.below, Cell.children, Shape.parts, Handle.ofComment]
  · obtain rfl : opener = some x := hx
    exact grown_ofComment.1 (hgrown (.ofComment x) (by simp))

/-- **A comment gets a cell.** -/
theorem allocComment (h : Owned cells hs) (comment : Comment) :
    Owned (cells.alloc (.ofComment comment)).2 (.ofComment ((cells.alloc (.ofComment comment)).1, comment) ::ₘ hs) :=
  build (.comment comment.kind comment.text) rfl (by simpa [Shape.parts] using h)

/-- **A cell gets a suffix**, if it has none. -/
theorem setSuffix {comment : Key × Comment} (h : Owned cells (x ::ₘ Handle.ofComment comment ::ₘ hs))
    (hnone : x.node.hasSuffix = false) :
    ∃ cells', (cells.update? x.key fun c => { c with suffix := some comment.1 }) = some cells' ∧
      Owned cells' (⟨x.key, x.node.withSuffix comment.2⟩ ::ₘ hs) ∧
        ∀ y ∈ hs, cells'.get? y.key = cells.get? y.key := by
  have hcomment := h.grown (.ofComment comment) (by simp)
  rw [← Multiset.singleton_add (Handle.ofComment comment)] at h
  obtain ⟨c, hc, hbears⟩ := h.cell (Multiset.mem_cons_self _ _)
  obtain ⟨key, span, shape, suffix⟩ := x
  obtain rfl : suffix = none := Option.isSome_eq_false_iff.1 hnone |> Option.isNone_iff_eq_none.1
  have hsuffix : c.suffix = none := by
    have hrel := hbears.suffix
    change Option.Rel _ c.suffix none at hrel
    generalize c.suffix = s at hrel
    cases hrel
    rfl
  refine h.update hc ?_ rfl ⟨⟨hbears.fits.span, hbears.fits.shape, hbears.fits.opener⟩, hbears.kids, ?_⟩
  · simp only [Cell.below, Cell.children, hsuffix, Option.toList_some, Option.toList_none, List.append_nil,
      ← Multiset.coe_add, Multiset.map_singleton]
    rfl
  · exact .some (grown_ofComment.1 hcomment)

/-- **A cell gets another form**, which keeps its parts. -/
theorem replace (σ : Shape Handle) (hσ : σ.opening = none) (h : Owned cells (x ::ₘ (ms + hs)))
    (hc : cells.get? x.key = some c)
    (hbears : c.Bears cells x.node.branch) (hopener : c.opener = none)
    (hkeys : (σ.parts.map Handle.key : Multiset Key) = c.shape.parts + ms.map Handle.key)
    (hparts : ∀ y ∈ σ.parts, Grown cells y.key y.node.branch) :
    ∃ cells', (cells.update? x.key fun c => { c with shape := σ.map Handle.key, span }) = some cells' ∧
      Owned cells' (⟨x.key, .mk span (σ.map Handle.node) x.node.suffix⟩ ::ₘ hs) ∧
      ∀ y ∈ hs, cells'.get? y.key = cells.get? y.key := by
  have hsuffix : Option.Rel (Lone cells) c.suffix x.node.suffix := by
    obtain ⟨key, span, shape, suffix⟩ := x
    exact hbears.suffix
  refine h.update hc ?_ rfl (.ofShape (c := { c with shape := σ.map Handle.key, span }) hσ rfl hopener hparts hsuffix)
  simp only [Cell.below, Cell.children, hopener, Shape.parts_map, Option.toList_none, List.nil_append,
    ← Multiset.coe_add, hkeys]
  abel

end Owned

end Arena

end LpcStyle

import Mathlib.Tactic
import LpcStyle.Proofs.Arena.Owned
import LpcStyle.Proofs.Tree.Paths

/-!
Finished documents in a store. Parents are set in one pass over all cells, those that no root leads to included. Since no
key is listed twice, each link is set once, and the cells that a root leads to are a forest.
- `Document.IsForest`: paths, parents and ancestors of a document fit together;
- `Document.isForest`: that is so if no key is twice among the roots and below cells, and parents are what lists their keys;
- `Owned.linked`: the pass comes to an end, and leads to such a document.
-/

namespace LpcStyle.Arena

open Text
open Store (Key)

variable {cells cells' : Store Cell} {key k child parent : Key} {c c' : Cell} {s s' : Step}

/-! ## What is below a cell -/

/-- the key that a step leads to -/
def Cell.next? (c : Cell) : Step → Option Key
  | .kid k => c.children[k]?
  | .suffix => c.suffix

theorem Cell.mem_below_iff : k ∈ c.below ↔ ∃ s, c.next? s = some k := by
  rw [below, List.mem_append, Option.mem_toList]
  constructor
  · rintro (hkid | hsuffix)
    · obtain ⟨i, hi⟩ := List.mem_iff_getElem?.1 hkid
      exact ⟨.kid i, hi⟩
    · exact ⟨.suffix, hsuffix⟩
  · rintro ⟨_ | _, hs⟩
    · exact .inl (List.mem_of_getElem? hs)
    · exact .inr hs

/-- different steps lead to different keys, if no key is twice below the cell -/
theorem Cell.next_inj (h : c.below.Nodup) (hs : c.next? s = some k) (hs' : c.next? s' = some k) : s = s' := by
  obtain ⟨hkids, -, hapart⟩ := List.nodup_append'.1 h
  cases s with
  | kid i =>
    cases s' with
    | kid j =>
      obtain ⟨hi, -⟩ := List.getElem?_eq_some_iff.1 hs
      rw [(List.getElem?_inj hi hkids).1 (hs.trans hs'.symm)]
    | suffix => exact (hapart (List.mem_of_getElem? hs) (Option.mem_toList.2 hs')).elim
  | suffix =>
    cases s' with
    | kid j => exact (hapart (List.mem_of_getElem? hs') (Option.mem_toList.2 hs)).elim
    | suffix => rfl

/-- no key is twice below a cell, if none is listed twice -/
theorem nodup_below (h : (listed cells).Nodup) (hc : cells.get? key = some c) : c.below.Nodup := by
  obtain ⟨hlt, rfl⟩ := Array.getElem?_eq_some_iff.1 hc
  exact (List.nodup_flatMap.1 (Multiset.coe_nodup.1 h)).1 _ (Array.mem_toList_iff.2 (Array.getElem_mem hlt))

/-! ## Forests -/

namespace Document

variable {d : Document} {p q : Path}

/-- the key that a step leads to from a cell of the document -/
def next? (d : Document) (key : Key) (s : Step) : Option Key := (d.cells.get? key).bind (·.next? s)

/-- the key that some steps lead to -/
def follow? (d : Document) : Key → List Step → Option Key
  | key, [] => some key
  | key, s :: steps => (d.next? key s).bind fun k => d.follow? k steps

/-- the key at the end of a path -/
def at? (d : Document) (p : Path) : Option Key := d.roots[p.root]?.bind fun key => d.follow? key p.steps

/-- a path leads to the key -/
def Reaches (d : Document) (key : Key) : Prop := ∃ p, d.at? p = some key

/-- the parent that is set in the cell of a key -/
def parent? (d : Document) (key : Key) : Option Key := (d.cells.get? key).bind Cell.parent

/-- the keys above a key: its parent, the parent of that, and so on up to a key without a parent -/
inductive Ancestors (d : Document) : Key → List Key → Prop where
  | root {key : Key} (hparent : d.parent? key = none) : Ancestors d key []
  | step {key parent : Key} {above : List Key} (hparent : d.parent? key = some parent) (habove : Ancestors d parent above) :
      Ancestors d key (parent :: above)

/-- **Paths, parents and ancestors of a document fit together.** -/
structure IsForest (d : Document) : Prop where
  /-- every key that is reached has a cell -/
  allocated : ∀ key, d.Reaches key → ∃ c, d.cells.get? key = some c
  /-- no key is reached along two paths -/
  unique : ∀ p q key, d.at? p = some key → d.at? q = some key → p = q
  /-- the roots are those of the keys that are reached which have no parent -/
  roots : ∀ key, d.Reaches key → (d.parent? key = none ↔ key ∈ d.roots)
  /-- the parent is the one key that is reached and lists the key among its children or as its suffix -/
  parents : ∀ key parent, d.Reaches key →
    (d.parent? key = some parent ↔
      d.Reaches parent ∧ ∃ c, d.cells.get? parent = some c ∧ (key ∈ c.children ∨ c.suffix = some key))
  /-- the way up from a key meets no key twice and comes to an end at a root -/
  ancestors : ∀ key, d.Reaches key →
    ∃ above, d.Ancestors key above ∧ (key :: above).Nodup ∧ ∃ root ∈ d.roots, (key :: above).getLast? = some root

/-- no key is twice among the roots and below cells, all of them have cells, and the parent of a key is what lists it -/
structure Linked (d : Document) : Prop where
  apart : (↑d.roots + listed d.cells).Nodup
  known : ∀ k ∈ ↑d.roots + listed d.cells, ∃ c, d.cells.get? k = some c
  parent : ∀ child parent, d.parent? child = some parent ↔ ∃ c, d.cells.get? parent = some c ∧ child ∈ c.below

theorem next_eq_some_iff : d.next? key s = some k ↔ ∃ c, d.cells.get? key = some c ∧ c.next? s = some k :=
  Option.bind_eq_some_iff

/-- the last step of a path -/
theorem at_down (p : Path) (s : Step) : d.at? (p.down s) = (d.at? p).bind fun key => d.next? key s := by
  have hfollow (key : Key) (steps : List Step) :
      d.follow? key (steps ++ [s]) = (d.follow? key steps).bind fun k => d.next? k s := by
    induction steps generalizing key with
    | nil => exact (Option.bind_fun_some _)
    | cons t steps ih =>
      rw [List.cons_append, follow?, follow?, Option.bind_assoc]
      exact Option.bind_congr fun k _ => ih k
  rw [at?, at?, Path.down, Option.bind_assoc]
  exact Option.bind_congr fun key _ => hfollow key p.steps

theorem at_root (root : Nat) : d.at? ⟨root, []⟩ = d.roots[root]? := Option.bind_fun_some _

/-- a path ends at a root, or goes on from another one -/
theorem path_cases (p : Path) : (∃ root, p = ⟨root, []⟩) ∨ ∃ (q : Path) (s : Step), p = q.down s := by
  obtain ⟨root, steps⟩ := p
  rcases List.eq_nil_or_concat steps with rfl | ⟨front, s, rfl⟩
  · exact .inl ⟨root, rfl⟩
  · exact .inr ⟨⟨root, front⟩, s, by simp [Path.down]⟩

/-- what is reached by a step is listed -/
theorem listed_of_down (h : d.at? (p.down s) = some k) :
    ∃ key c, d.at? p = some key ∧ d.cells.get? key = some c ∧ c.next? s = some k := by
  rw [at_down] at h
  obtain ⟨key, hkey, hnext⟩ := Option.bind_eq_some_iff.1 h
  obtain ⟨c, hc, hs⟩ := next_eq_some_iff.1 hnext
  exact ⟨key, c, hkey, hc, hs⟩

namespace Linked

theorem not_listed_of_root (h : d.Linked) (hk : k ∈ d.roots) : k ∉ listed d.cells := fun hlisted =>
  Multiset.disjoint_left.1 (Multiset.nodup_add.1 h.apart).2.2 (Multiset.mem_coe.2 hk) hlisted

/-- what lists a key is its parent -/
theorem parent_of_next (h : d.Linked) (hc : d.cells.get? key = some c) (hs : c.next? s = some k) : d.parent? k = some key :=
  (h.parent k key).2 ⟨c, hc, Cell.mem_below_iff.2 ⟨s, hs⟩⟩

theorem parent_of_root (h : d.Linked) (hk : k ∈ d.roots) : d.parent? k = none := by
  refine Option.eq_none_iff_forall_not_mem.2 fun parent hparent => h.not_listed_of_root hk ?_
  obtain ⟨c, hc, hbelow⟩ := (h.parent k parent).1 hparent
  exact mem_listed hc hbelow

/-- **One path to a key.** Its last step is from the parent, and is told from other steps by the key. -/
theorem unique (h : d.Linked) (hp : d.at? p = some k) (hq : d.at? q = some k) : p = q := by
  obtain ⟨root, steps⟩ := p
  induction steps using List.reverseRecOn generalizing q k with
  | nil =>
    rw [at_root] at hp
    rcases path_cases q with ⟨root', rfl⟩ | ⟨q, s, rfl⟩
    · rw [at_root] at hq
      have hroots : d.roots.Nodup := Multiset.coe_nodup.1 (Multiset.nodup_add.1 h.apart).1
      obtain ⟨hlt, -⟩ := List.getElem?_eq_some_iff.1 hp
      rw [(List.getElem?_inj hlt hroots).1 (hp.trans hq.symm)]
    · obtain ⟨key, c, -, hc, hs⟩ := listed_of_down hq
      have hnone := h.parent_of_root (List.mem_of_getElem? hp)
      rw [h.parent_of_next hc hs] at hnone
      cases hnone
  | append_singleton front s ih =>
    obtain ⟨key, c, hkey, hc, hs⟩ := listed_of_down (p := ⟨root, front⟩) hp
    have hparent := h.parent_of_next hc hs
    rcases path_cases q with ⟨root', rfl⟩ | ⟨q, s', rfl⟩
    · rw [at_root] at hq
      rw [h.parent_of_root (List.mem_of_getElem? hq)] at hparent
      cases hparent
    · obtain ⟨key', c', hkey', hc', hs'⟩ := listed_of_down hq
      obtain rfl : key = key' := Option.some.inj (hparent.symm.trans (h.parent_of_next hc' hs'))
      obtain rfl : c = c' := Option.some.inj (hc.symm.trans hc')
      obtain rfl : s = s' := Cell.next_inj (nodup_below (Multiset.nodup_add.1 h.apart).2.1 hc) hs hs'
      rw [← ih hkey' hkey]
      rfl

/-- **The way up from a key goes along its path**, so all keys on it are reached by shorter paths. -/
theorem ancestors (h : d.Linked) (hp : d.at? p = some k) :
    ∃ above, d.Ancestors k above ∧ (∀ a ∈ above, ∃ q, d.at? q = some a ∧ q.steps.length < p.steps.length) ∧
      (k :: above).Nodup ∧ ∃ root ∈ d.roots, (k :: above).getLast? = some root := by
  obtain ⟨root, steps⟩ := p
  induction steps using List.reverseRecOn generalizing k with
  | nil =>
    rw [at_root] at hp
    have hk := List.mem_of_getElem? hp
    exact ⟨[], .root (h.parent_of_root hk), by simp, List.nodup_singleton k, k, hk, rfl⟩
  | append_singleton front s ih =>
    obtain ⟨key, c, hkey, hc, hs⟩ := listed_of_down (p := ⟨root, front⟩) hp
    obtain ⟨above, habove, hshort, hnodup, r, hr, hlast⟩ := ih hkey
    have hshort' : ∀ a ∈ key :: above, ∃ q, d.at? q = some a ∧ q.steps.length < (front ++ [s]).length := by
      rw [List.length_append, List.length_singleton]
      refine List.forall_mem_cons.2 ⟨⟨⟨root, front⟩, hkey, Nat.lt_succ_self _⟩, fun a ha => ?_⟩
      obtain ⟨q, hq, hlt⟩ := hshort a ha
      exact ⟨q, hq, hlt.trans (Nat.lt_succ_self _)⟩
    have hparent := h.parent_of_next hc hs
    refine ⟨key :: above, .step hparent habove, hshort', List.nodup_cons.2 ⟨fun hmem => ?_, hnodup⟩, r, hr, ?_⟩
    · obtain ⟨q, hq, hlt⟩ := hshort' k hmem
      rw [h.unique hq hp] at hlt
      exact hlt.false
    · rw [List.getLast?_cons_cons, hlast]

end Linked

/-- **A document is a forest** if it is linked. -/
theorem isForest (h : d.Linked) : d.IsForest where
  allocated key := by
    rintro ⟨p, hp⟩
    rcases path_cases p with ⟨root, rfl⟩ | ⟨p, s, rfl⟩
    · rw [at_root] at hp
      exact h.known key (Multiset.mem_add.2 (.inl (Multiset.mem_coe.2 (List.mem_of_getElem? hp))))
    · obtain ⟨parent, c, -, hc, hs⟩ := listed_of_down hp
      exact h.known key (Multiset.mem_add.2 (.inr (mem_listed hc (Cell.mem_below_iff.2 ⟨s, hs⟩))))
  unique p q key hp hq := h.unique hp hq
  roots key := by
    rintro ⟨p, hp⟩
    refine ⟨fun hnone => ?_, h.parent_of_root⟩
    rcases path_cases p with ⟨root, rfl⟩ | ⟨p, s, rfl⟩
    · rw [at_root] at hp
      exact List.mem_of_getElem? hp
    · obtain ⟨parent, c, -, hc, hs⟩ := listed_of_down hp
      rw [h.parent_of_next hc hs] at hnone
      cases hnone
  parents key parent := by
    rintro ⟨p, hp⟩
    have hbelow (c : Cell) : (key ∈ c.children ∨ c.suffix = some key) ↔ key ∈ c.below := by
      rw [Cell.below, List.mem_append, Option.mem_toList]
    simp only [hbelow, h.parent]
    refine ⟨fun hlists => ⟨?_, hlists⟩, And.right⟩
    rcases path_cases p with ⟨root, rfl⟩ | ⟨p, s, rfl⟩
    · rw [at_root] at hp
      obtain ⟨c, hc, hmem⟩ := hlists
      exact (h.not_listed_of_root (List.mem_of_getElem? hp) (mem_listed hc hmem)).elim
    · obtain ⟨parent', c, hparent', hc, hs⟩ := listed_of_down hp
      have hsame := (h.parent key parent).2 hlists
      rw [h.parent_of_next hc hs] at hsame
      exact ⟨p, Option.some.inj hsame ▸ hparent'⟩
  ancestors key := by
    rintro ⟨p, hp⟩
    obtain ⟨above, habove, -, hnodup, hroot⟩ := h.ancestors hp
    exact ⟨above, habove, hnodup, hroot⟩

end Document

/-! ## Setting parents -/

theorem mem_links_iff : (child, parent) ∈ links cells ↔ ∃ c, cells.get? parent = some c ∧ child ∈ c.below := by
  obtain ⟨i⟩ := parent
  simp only [links, Store.toList, List.mem_flatMap, List.mem_map]
  constructor
  · rintro ⟨_, ⟨⟨c, j⟩, hc, rfl⟩, k, hk, heq⟩
    cases heq
    exact ⟨c, by simpa [Store.get?] using List.mem_zipIdx_iff_getElem?.1 hc, hk⟩
  · rintro ⟨c, hc, hk⟩
    exact ⟨_, ⟨(c, i), List.mem_zipIdx_iff_getElem?.2 (by simpa [Store.get?] using hc), rfl⟩, child, hk, rfl⟩

theorem map_fst_links (cells : Store Cell) : (links cells).map Prod.fst = cells.items.toList.flatMap Cell.below := by
  have hitems (items : List Cell) (i : Nat) :
      ((items.zipIdx i).flatMap fun x => x.1.below) = items.flatMap Cell.below := by
    induction items generalizing i with
    | nil => rfl
    | cons c items ih => rw [List.zipIdx_cons, List.flatMap_cons, List.flatMap_cons, ih]
  rw [← hitems _ 0, links, Store.toList, List.map_flatMap, List.flatMap_map]
  simp only [List.map_map]
  exact List.flatMap_congr fun x _ => List.map_id' _

/-- **Links are set one after another**, each in a cell of its own. -/
theorem foldlM_link {ls : List (Key × Key)} (hknown : ∀ l ∈ ls, l.1.index < cells.size)
    (hapart : (ls.map Prod.fst).Nodup) :
    ∃ cells', ls.foldlM link? cells = some cells' ∧
      (∀ l ∈ ls, ∀ c, cells.get? l.1 = some c → cells'.get? l.1 = some { c with parent := some l.2 }) ∧
      ∀ k, k ∉ ls.map Prod.fst → cells'.get? k = cells.get? k := by
  induction ls generalizing cells with
  | nil => exact ⟨cells, rfl, by simp, fun _ _ => rfl⟩
  | cons l ls ih =>
    obtain ⟨child, parent⟩ := l
    obtain ⟨hlt, hknown⟩ := List.forall_mem_cons.1 hknown
    rw [List.map_cons, List.nodup_cons] at hapart
    obtain ⟨hfresh, hapart⟩ := hapart
    obtain ⟨c, hc⟩ : ∃ c, cells.get? child = some c := ⟨_, Array.getElem?_eq_getElem hlt⟩
    let linked : Store Cell := ⟨cells.items.setIfInBounds child.index { c with parent := some parent }⟩
    have hstep : link? cells (child, parent) = some linked := Store.update?_eq hc
    have hget (k : Key) := Store.get?_set cells.items child k { c with parent := some parent } hlt
    have hsize : linked.size = cells.size := by simp [linked, Store.size]
    have hknown' : ∀ l ∈ ls, l.1.index < linked.size := by rwa [hsize]
    obtain ⟨cells', hrest, hset, hkept⟩ := ih hknown' hapart
    refine ⟨cells', ?_, List.forall_mem_cons.2 ⟨fun d hd => ?_, fun l hl d hd => ?_⟩, fun k hk => ?_⟩
    · rw [List.foldlM_cons, hstep]
      exact hrest
    · rw [hkept child hfresh, hget, if_pos rfl, Option.some.inj (hc.symm.trans hd)]
    · have hmem : l.1 ∈ ls.map Prod.fst := List.mem_map_of_mem hl
      have hne : child ≠ l.1 := fun heq => hfresh (heq ▸ hmem)
      exact hset l hl d ((hget l.1).trans ((if_neg hne).trans hd))
    · rw [List.map_cons, List.mem_cons, not_or] at hk
      rw [hkept k hk.2, hget, if_neg (Ne.symm hk.1)]

/-- **What the pass does**: each cell gets the parent that links say, and is the same otherwise. -/
theorem Owned.foldlM_links {hs : Multiset Handle} (h : Owned cells hs) :
    ∃ cells', (links cells).foldlM link? cells = some cells' ∧ ∀ k, ∃ parent : Option Key,
      (cells'.get? k = (cells.get? k).map fun c => { c with parent }) ∧
        ∀ p, parent = some p ↔ (k, p) ∈ links cells := by
  have hapart : ((links cells).map Prod.fst).Nodup := by
    rw [map_fst_links]
    exact Multiset.coe_nodup.1 (Multiset.nodup_add.1 h.apart).2.1
  have hknown : ∀ l ∈ links cells, l.1.index < cells.size := fun l hl => by
    obtain ⟨c, hc, hk⟩ := mem_links_iff.1 hl
    exact h.known l.1 (mem_listed hc hk)
  obtain ⟨cells', hfold, hset, hkept⟩ := foldlM_link hknown hapart
  refine ⟨cells', hfold, fun k => ?_⟩
  by_cases hk : k ∈ (links cells).map Prod.fst
  · obtain ⟨⟨child, parent⟩, hl, rfl⟩ := List.mem_map.1 hk
    obtain ⟨c, hc⟩ : ∃ c, cells.get? child = some c := ⟨_, Array.getElem?_eq_getElem (hknown _ hl)⟩
    refine ⟨some parent, (hset _ hl c hc).trans (by rw [hc]; rfl), fun p => ⟨?_, fun hp => ?_⟩⟩
    · rintro ⟨⟩
      exact hl
    · cases List.inj_on_of_nodup_map hapart hl hp rfl
      rfl
  · refine ⟨none, (hkept k hk).trans ?_, fun p => ⟨nofun, fun hp => (hk (List.mem_map_of_mem hp)).elim⟩⟩
    cases hc : cells.get? k with
    | none => rfl
    | some c =>
      obtain ⟨span, shape, opener, suffix, parent⟩ := c
      obtain rfl : parent = none := h.unlinked k _ hc
      rfl

/-- **The finished document is linked**, and its roots are grown as before. -/
theorem Owned.linked {xs : List Handle} (h : Owned cells ↑xs) (text : List Char) :
    ∃ d, Document.new? text cells (xs.map Handle.key) = some d ∧ d.text = text ∧ d.Linked ∧
      List.Forall₂ (Grown d.cells) d.roots ((xs.map Handle.node).map Node.branch) := by
  obtain ⟨cells', hfold, hget⟩ := h.foldlM_links
  have hsome {k : Key} {c : Cell} (hc : cells.get? k = some c) : ∃ parent, cells'.get? k = some { c with parent } := by
    obtain ⟨parent, hk, -⟩ := hget k
    exact ⟨parent, hk.trans (by rw [hc]; rfl)⟩
  have hlisted : listed cells' = listed cells := by
    have hbelow (k : Key) : (cells'.get? k).map Cell.below = (cells.get? k).map Cell.below := by
      obtain ⟨parent, hk, -⟩ := hget k
      rw [hk, Option.map_map]
      rfl
    have hmap : cells'.items.toList.map Cell.below = cells.items.toList.map Cell.below := by
      refine List.ext_getElem? fun i => ?_
      simpa [Store.get?] using hbelow ⟨i⟩
    rw [listed, listed, List.flatMap_def, List.flatMap_def, hmap]
  have hknown {k : Key} (hk : k ∈ (xs : Multiset Handle).map Handle.key + listed cells) : ∃ c, cells.get? k = some c :=
    ⟨_, Array.getElem?_eq_getElem (h.lt_size hk)⟩
  have hnew : Document.new? text cells (xs.map Handle.key) = some ⟨text, cells', xs.map Handle.key⟩ := by
    rw [Document.new?, hfold]
    rfl
  refine ⟨_, hnew, rfl, ⟨?_, fun k hk => ?_, fun child parent => ?_⟩, ?_⟩
  · rw [hlisted]
    exact h.apart
  · rw [hlisted] at hk
    obtain ⟨c, hc⟩ := hknown hk
    obtain ⟨parent, hc'⟩ := hsome hc
    exact ⟨_, hc'⟩
  · have hlists : (∃ c, cells'.get? parent = some c ∧ child ∈ c.below) ↔ (child, parent) ∈ links cells := by
      obtain ⟨up, hk, -⟩ := hget parent
      rw [mem_links_iff, hk]
      cases cells.get? parent <;> simp [Cell.below, Cell.children]
    obtain ⟨up, hk, hup⟩ := hget child
    rw [hlists, ← hup, Document.parent?, hk]
    cases hc : cells.get? child with
    | some c => rfl
    | none =>
      refine ⟨fun hnone => ?_, fun hlink => ?_⟩
      · cases hnone
      · obtain ⟨c, hlister, hmem⟩ := mem_links_iff.1 ((hup parent).1 hlink)
        obtain ⟨c, hchild⟩ := hknown (Multiset.mem_add.2 (.inr (mem_listed hlister hmem)))
        rw [hc] at hchild
        cases hchild
  · rw [List.map_map]
    refine List.forall₂_map_left_iff.2 (List.forall₂_map_right_iff.2 (List.forall₂_same.2 fun x hx => ?_))
    exact (h.grown x (Multiset.mem_coe.2 hx)).congr (fun k _ c hc => hsome hc) _ _ fun c hc => hsome hc

end LpcStyle.Arena

import Mathlib.Tactic
import LpcStyle.Arena.Cell
import LpcStyle.Proofs.Tree.Allocated

/-!
What a store holds. The cells from a key on say what a branch says (`Grown`), and they go on saying it as long as the cells
below that are listed by others stay as they are, but for their parents.
-/

namespace LpcStyle

open Text

/-- the form without a comment beside its opening brace -/
def Shape.closed {α : Type} : Shape α → Shape α
  | .codeBlock _ ss => .codeBlock none ss
  | shape => shape

namespace Store

variable {α : Type} {s s' : Store α} {key k : Key} {item : α} {change : α → α}

theorem lt_size (h : s.get? key = some item) : key.index < s.size := (Array.getElem?_eq_some_iff.1 h).1

theorem update?_eq (h : s.get? key = some item) :
    s.update? key change = some ⟨s.items.setIfInBounds key.index (change item)⟩ := by
  simp [update?, h, set?, lt_size h]

theorem get?_set (items : Array α) (key k : Key) (item : α) (h : key.index < items.size) :
    (⟨items.setIfInBounds key.index item⟩ : Store α).get? k =
      if key = k then some item else (⟨items⟩ : Store α).get? k := by
  obtain ⟨i⟩ := key
  obtain ⟨j⟩ := k
  by_cases heq : i = j
  · subst heq
    simp [get?, h]
  · simp [get?, Array.getElem?_setIfInBounds_ne heq, heq]

end Store

namespace Arena

open Store (Key)

/-- what a cell says is what a label says -/
structure Cell.Fits (c : Cell) (l : Label) : Prop where
  span : c.span = l.span
  shape : (c.shape.map fun _ => ()) = l.shape.closed
  opener : c.opener.isSome = l.shape.opening.isSome

/-- the cell of a comment; nothing hangs below it -/
def Lone (cells : Store Cell) (key : Key) (comment : Comment) : Prop :=
  ∃ c, cells.get? key = some c ∧ c.Fits (Branch.ofComment comment).label ∧ c.below = []

mutual

/-- the cells from a key on say what a branch says -/
def Grown (cells : Store Cell) (key : Key) : Branch → Prop
  | .mk label kids suffix => ∃ c, cells.get? key = some c ∧ c.Fits label ∧ GrownAll cells c.children kids ∧
      Option.Rel (Lone cells) c.suffix suffix

def GrownAll (cells : Store Cell) : List Key → List Branch → Prop
  | [], [] => True
  | key :: keys, b :: bs => Grown cells key b ∧ GrownAll cells keys bs
  | _, _ => False

end

/-- the keys below some cell -/
def listed (cells : Store Cell) : Multiset Key := ↑(cells.items.toList.flatMap Cell.below)

/-- the cell of a key stays the same but for its parent -/
def Keeps (cells cells' : Store Cell) (key : Key) : Prop :=
  ∀ c, cells.get? key = some c → ∃ parent, cells'.get? key = some { c with parent }

variable {cells cells' : Store Cell} {key k : Key} {keys : List Key} {c c' : Cell} {b : Branch} {bs : List Branch}

theorem mem_listed (hc : cells.get? key = some c) (hk : k ∈ c.below) : k ∈ listed cells := by
  obtain ⟨hlt, hget⟩ := Array.getElem?_eq_some_iff.1 hc
  refine Multiset.mem_coe.2 (List.mem_flatMap.2 ⟨c, ?_, hk⟩)
  rw [← hget, Array.mem_toList_iff]
  exact Array.getElem_mem hlt

theorem grownAll_iff : GrownAll cells keys bs ↔ List.Forall₂ (Grown cells) keys bs := by
  induction bs generalizing keys with
  | nil => cases keys <;> simp [GrownAll]
  | cons b bs ih => cases keys <;> simp [GrownAll, ih]

theorem Keeps.of_eq (h : cells'.get? key = cells.get? key) : Keeps cells cells' key := fun c hc => ⟨c.parent, h.trans hc⟩

theorem Lone.congr {comment : Comment} (hkey : Keeps cells cells' key) (h : Lone cells key comment) :
    Lone cells' key comment := by
  obtain ⟨c, hc, hfits, hbelow⟩ := h
  obtain ⟨parent, hc'⟩ := hkey c hc
  exact ⟨_, hc', ⟨hfits.span, hfits.shape, hfits.opener⟩, hbelow⟩

mutual

/-- **Where the cells of a branch are kept, it is still grown.** -/
theorem Grown.congr (hlisted : ∀ k ∈ listed cells, Keeps cells cells' k) : (b : Branch) → (key : Key) →
    Keeps cells cells' key → Grown cells key b → Grown cells' key b
  | .mk label kids suffix, key, hkey, h => by
    rw [Grown] at h ⊢
    obtain ⟨c, hc, hfits, hkids, hsuffix⟩ := h
    obtain ⟨parent, hc'⟩ := hkey c hc
    refine ⟨_, hc', ⟨hfits.span, hfits.shape, hfits.opener⟩, ?_, ?_⟩
    · exact GrownAll.congr hlisted kids c.children (fun k hk => mem_listed hc (List.mem_append_left _ hk)) hkids
    · have hmem : ∀ k ∈ c.suffix, k ∈ listed cells := fun k hk =>
        mem_listed hc (List.mem_append_right _ (Option.mem_toList.2 hk))
      change Option.Rel (Lone cells') c.suffix suffix
      generalize c.suffix = below at hsuffix hmem ⊢
      cases hsuffix with
      | none => exact .none
      | some hlone => exact .some (hlone.congr (hlisted _ (hmem _ rfl)))

theorem GrownAll.congr (hlisted : ∀ k ∈ listed cells, Keeps cells cells' k) : (bs : List Branch) → (keys : List Key) →
    (∀ k ∈ keys, k ∈ listed cells) → GrownAll cells keys bs → GrownAll cells' keys bs
  | [], [], _, _ => by simp [GrownAll]
  | b :: bs, key :: keys, hkeys, h => by
    rw [GrownAll] at h ⊢
    obtain ⟨hkey, hkeys⟩ := List.forall_mem_cons.1 hkeys
    exact ⟨Grown.congr hlisted b key (hlisted key hkey) h.1, GrownAll.congr hlisted bs keys hkeys h.2⟩
  | [], _ :: _, _, h => by simp [GrownAll] at h
  | _ :: _, [], _, h => by simp [GrownAll] at h

end

/-- a cell bears a branch if it says what its label says and the keys below it are grown as what is below the branch -/
structure Cell.Bears (c : Cell) (cells : Store Cell) (b : Branch) : Prop where
  fits : c.Fits b.label
  kids : List.Forall₂ (Grown cells) c.children b.kids
  suffix : Option.Rel (Lone cells) c.suffix b.suffix

theorem grown_iff : Grown cells key b ↔ ∃ c, cells.get? key = some c ∧ c.Bears cells b := by
  obtain ⟨label, kids, suffix⟩ := b
  rw [Grown]
  refine exists_congr fun c => and_congr_right fun _ => ?_
  rw [grownAll_iff]
  constructor
  · rintro ⟨hfits, hkids, hsuffix⟩
    exact ⟨hfits, hkids, hsuffix⟩
  · rintro ⟨hfits, hkids, hsuffix⟩
    exact ⟨hfits, hkids, hsuffix⟩

theorem grown_ofComment {comment : Comment} : Grown cells key (Branch.ofComment comment) ↔ Lone cells key comment := by
  rw [grown_iff]
  refine exists_congr fun c => and_congr_right fun _ => ?_
  constructor
  · rintro ⟨hfits, hkids, hsuffix⟩
    refine ⟨hfits, ?_⟩
    change List.Forall₂ _ c.children [] at hkids
    change Option.Rel _ c.suffix none at hsuffix
    rw [List.forall₂_nil_right_iff] at hkids
    generalize hkey : c.suffix = below at hsuffix
    cases hsuffix
    rw [Cell.below, hkids, hkey]
    rfl
  · rintro ⟨hfits, hbelow⟩
    obtain ⟨hkids, hsuffix⟩ := List.append_eq_nil_iff.1 hbelow
    refine ⟨hfits, ?_, ?_⟩
    · rw [hkids]
      exact .nil
    · rw [Option.toList_eq_nil_iff.1 hsuffix]
      exact .none

theorem Cell.Bears.congr (h : c.Bears cells b) (hlisted : ∀ k ∈ listed cells, Keeps cells cells' k)
    (hbelow : ∀ k ∈ c.below, Keeps cells cells' k) : c.Bears cells' b where
  fits := h.fits
  kids := by
    have hmem : ∀ k ∈ c.children, Keeps cells cells' k := fun k hk => hbelow k (List.mem_append_left _ hk)
    have hkids := h.kids
    generalize c.children = keys at hmem hkids
    generalize b.kids = kids at hkids
    induction hkids with
    | nil => exact .nil
    | cons hkid _ ih =>
      obtain ⟨hkey, hmem⟩ := List.forall_mem_cons.1 hmem
      exact .cons (hkid.congr hlisted _ _ hkey) (ih hmem)
  suffix := by
    have hmem : ∀ k ∈ c.suffix, Keeps cells cells' k := fun k hk =>
      hbelow k (List.mem_append_right _ (Option.mem_toList.2 hk))
    have hsuffix := h.suffix
    generalize c.suffix = key at hmem hsuffix ⊢
    generalize b.suffix = comment at hsuffix ⊢
    cases hsuffix with
    | none => exact .none
    | some hlone => exact .some (hlone.congr (hmem _ rfl))

end Arena

end LpcStyle

/-!
An append-only store. A key is the place of an item, so keys stay valid and compare by age.
-/

namespace LpcStyle

/-- key of an item in a store -/
structure Store.Key where
  index : Nat
deriving DecidableEq, Repr

instance : Ord Store.Key := ⟨fun a b => compare a.index b.index⟩

structure Store (α : Type) where
  items : Array α := #[]

namespace Store

variable {α : Type}

def size (s : Store α) : Nat := s.items.size

/-- adds an item at the end -/
def alloc (s : Store α) (item : α) : Key × Store α := (⟨s.size⟩, ⟨s.items.push item⟩)

def get? (s : Store α) (key : Key) : Option α := s.items[key.index]?

/-- replaces an item; there is no result for a key that the store did not give -/
def set? (s : Store α) (key : Key) (item : α) : Option (Store α) :=
  if key.index < s.size then some ⟨s.items.setIfInBounds key.index item⟩ else none

/-- changes an item; there is no result for a key that the store did not give -/
def update? (s : Store α) (key : Key) (change : α → α) : Option (Store α) :=
  (s.get? key).bind fun item => s.set? key (change item)

/-- items with their keys, oldest first -/
def toList (s : Store α) : List (Key × α) := s.items.toList.zipIdx.map fun (item, i) => (⟨i⟩, item)

@[simp] theorem size_alloc (s : Store α) (item : α) : (s.alloc item).2.size = s.size + 1 := by
  simp [alloc, size]

@[simp] theorem get?_alloc_self (s : Store α) (item : α) : (s.alloc item).2.get? (s.alloc item).1 = some item := by
  simp [alloc, get?, size]

theorem get?_alloc_of_lt (s : Store α) (item : α) {key : Key} (h : key.index < s.size) :
    (s.alloc item).2.get? key = s.get? key := by
  simp only [size] at h
  simp [alloc, get?, Array.getElem?_push, Nat.ne_of_lt h]

end Store

end LpcStyle

import Mathlib.Tactic
import LpcStyle.Token.KindSet

/-!
Sets of kinds as finite sets. The two words of a set are read as one row of bits, in which a kind has the bit of its own
index. The row of a list holds the bits of the kinds in the list and no others, so it is the same for every list of these
kinds. Main statement: `ofList_faithful`.
-/

namespace LpcStyle

theorem Kind.ctorIdx_inj {j k : Kind} : j.ctorIdx = k.ctorIdx ↔ j = k := by
  constructor
  · intro h
    rw [← Kind.ofNat_ctorIdx j, h, Kind.ofNat_ctorIdx]
  · rintro rfl
    rfl

/-- every kind has a bit in one of the two words -/
theorem Kind.ctorIdx_lt (k : Kind) : k.ctorIdx < 128 := by
  cases k <;> decide

namespace KindSet

variable {s t : KindSet} {k : Kind} {a b : List Kind} {i : Nat}

/-! ## Bits -/

/-- a bit of the two words, counted through both of them -/
def bitAt (s : KindSet) (i : Nat) : Bool :=
  if i < 64 then s.low.toBitVec.getLsbD i else s.high.toBitVec.getLsbD (i - 64)

/-- the words hold nothing but their bits -/
theorem eq_of_bitAt (h : ∀ i, s.bitAt i = t.bitAt i) : s = t := by
  have hlow : s.low = t.low := by
    refine UInt64.toBitVec_inj.1 (BitVec.eq_of_getLsbD_eq fun i hi => ?_)
    simpa only [bitAt, if_pos hi] using h i
  have hhigh : s.high = t.high := by
    refine UInt64.toBitVec_inj.1 (BitVec.eq_of_getLsbD_eq fun i _ => ?_)
    have hbeyond : ¬i + 64 < 64 := by omega
    simpa only [bitAt, if_neg hbeyond, Nat.add_sub_cancel] using h (i + 64)
  obtain ⟨low, high⟩ := s
  obtain ⟨low', high'⟩ := t
  simp only at hlow hhigh
  rw [hlow, hhigh]

/-- the mask of a kind is one bit of a word -/
theorem toBitVec_bit (k : Kind) : (bit k).toBitVec = BitVec.twoPow 64 (k.ctorIdx % 64) := by
  simp [bit, BitVec.twoPow, BitVec.shiftLeft_eq', BitVec.toNat_umod]

/-- a mask of one bit finds that bit -/
theorem and_bit_ne_zero (word : UInt64) (k : Kind) :
    (word &&& bit k != 0) = word.toBitVec.getLsbD (k.ctorIdx % 64) := by
  have hlt : k.ctorIdx % 64 < 64 := Nat.mod_lt _ (by decide)
  have hne : BitVec.twoPow 64 (k.ctorIdx % 64) ≠ 0#64 := by
    intro hzero
    have hbit := congrArg (BitVec.getLsbD · (k.ctorIdx % 64)) hzero
    simp [hlt] at hbit
  have hword : (word &&& bit k != 0) = (word.toBitVec &&& BitVec.twoPow 64 (k.ctorIdx % 64) != 0#64) := by
    rw [Bool.eq_iff_iff, bne_iff_ne, bne_iff_ne, Ne, Ne, ← UInt64.toBitVec_inj, UInt64.toBitVec_and, toBitVec_bit]
    rfl
  rw [hword, BitVec.and_twoPow]
  cases word.toBitVec.getLsbD (k.ctorIdx % 64) with
  | true => simpa using hne
  | false => simp

/-! ## Operations -/

/-- a kind is looked for at its own index -/
theorem contains_eq_bitAt (s : KindSet) (k : Kind) : s.contains k = s.bitAt k.ctorIdx := by
  have hlt := k.ctorIdx_lt
  rw [contains, and_bit_ne_zero, bitAt]
  by_cases hlow : k.ctorIdx < 64
  · rw [if_pos hlow, if_pos (by omega), Nat.mod_eq_of_lt hlow]
  · have hmod : k.ctorIdx % 64 = k.ctorIdx - 64 := by omega
    rw [if_neg hlow, if_neg (by omega), hmod]

theorem bitAt_empty (i : Nat) : empty.bitAt i = false := by
  simp [bitAt, empty]

theorem bitAt_single (k : Kind) (i : Nat) : (single k).bitAt i = decide (k.ctorIdx = i) := by
  have hlt := k.ctorIdx_lt
  by_cases hlow : k.ctorIdx < 64
  · have hsingle : single k = ⟨bit k, 0⟩ := if_pos (by omega)
    rw [hsingle, bitAt]
    by_cases hi : i < 64
    · simp [hi, toBitVec_bit, Nat.mod_eq_of_lt hlow, eq_comm]
    · have hne : k.ctorIdx ≠ i := by omega
      simp [hi, hne]
  · have hsingle : single k = ⟨0, bit k⟩ := if_neg (by omega)
    rw [hsingle, bitAt]
    by_cases hi : i < 64
    · have hne : k.ctorIdx ≠ i := by omega
      simp [hi, hne]
    · have hmod : k.ctorIdx % 64 = k.ctorIdx - 64 := by omega
      have hword : k.ctorIdx - 64 < 64 := by omega
      have hsub : k.ctorIdx - 64 = i - 64 ↔ k.ctorIdx = i := by omega
      simp [hi, toBitVec_bit, hmod, hword, hsub]

theorem bitAt_union (s t : KindSet) (i : Nat) : (s.union t).bitAt i = (s.bitAt i || t.bitAt i) := by
  by_cases hi : i < 64 <;> simp [bitAt, union, hi]

/-- what the kinds of a list add to a set -/
theorem bitAt_foldl (kinds : List Kind) (s : KindSet) (i : Nat) :
    (kinds.foldl (fun s k => s.union (single k)) s).bitAt i = (s.bitAt i || decide (∃ k ∈ kinds, k.ctorIdx = i)) := by
  induction kinds generalizing s with
  | nil => simp
  | cons k kinds ih => simp [ih, bitAt_union, bitAt_single, Bool.or_assoc]

/-- **The bits of a list** are those of its kinds. -/
theorem bitAt_ofList (kinds : List Kind) (i : Nat) : (ofList kinds).bitAt i = true ↔ ∃ k ∈ kinds, k.ctorIdx = i := by
  rw [ofList, bitAt_foldl, bitAt_empty, Bool.false_or, decide_eq_true_eq]

/-! ## Members -/

theorem contains_union (s t : KindSet) (k : Kind) : (s.union t).contains k = (s.contains k || t.contains k) := by
  simp only [contains_eq_bitAt, bitAt_union]

theorem contains_ofList (kinds : List Kind) (k : Kind) : (ofList kinds).contains k = true ↔ k ∈ kinds := by
  rw [contains_eq_bitAt, bitAt_ofList]
  constructor
  · rintro ⟨j, hj, hindex⟩
    exact Kind.ctorIdx_inj.1 hindex ▸ hj
  · intro hk
    exact ⟨k, hk, rfl⟩

/-- lists with the same kinds give the same words -/
theorem ofList_congr (h : ∀ k, k ∈ a ↔ k ∈ b) : ofList a = ofList b := by
  refine eq_of_bitAt fun i => ?_
  rw [Bool.eq_iff_iff, bitAt_ofList, bitAt_ofList]
  simp only [h]

theorem ofList_append (a b : List Kind) : (ofList a).union (ofList b) = ofList (a ++ b) := by
  refine eq_of_bitAt fun i => ?_
  rw [Bool.eq_iff_iff, bitAt_union, Bool.or_eq_true, bitAt_ofList, bitAt_ofList, bitAt_ofList]
  simp only [List.mem_append, or_and_right, exists_or]

/-- **Sets of kinds are faithful finite sets.** The set of a list holds the kinds of the list and no others, a union holds
those of both, two sets are equal exactly when they have the same members, however the lists were ordered and however often
they name a kind, and the union of two lists' sets is the set of both lists together. -/
theorem ofList_faithful (a b : List Kind) :
    (∀ k, (ofList a).contains k = true ↔ k ∈ a) ∧
    (∀ k, ((ofList a).union (ofList b)).contains k = true ↔ k ∈ a ∨ k ∈ b) ∧
    (ofList a = ofList b ↔ ∀ k, k ∈ a ↔ k ∈ b) ∧
    (ofList a).union (ofList b) = ofList (a ++ b) := by
  refine ⟨contains_ofList a, fun k => ?_, ⟨fun h k => ?_, ofList_congr⟩, ofList_append a b⟩
  · rw [contains_union, Bool.or_eq_true, contains_ofList, contains_ofList]
  · rw [← contains_ofList a, h, contains_ofList]

/-- kinds on both sides of the boundary between the words, in another order and one of them twice -/
example : ofList [.directiveKey, .directive] = ofList [.directive, .directiveKey, .directive] := by decide

end KindSet

end LpcStyle

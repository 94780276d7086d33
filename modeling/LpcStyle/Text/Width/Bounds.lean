import LpcStyle.Text.Width

/-!
A text is measured from its end, and some characters take back a column that those after them were counted too wide.
No more is taken back than was counted (`owed_step`), so a width is never negative (`measure_nonneg`).
-/

namespace LpcStyle.Text

/-- columns that the character before may take back, because what follows it was counted too wide -/
def Follow.owed : Follow → Int
  | .picture .joinedRegional | .picture (.joinedRegionals false) => 1
  | .ligature .joinerAndConsonant | .ligature .subscript => 1
  | _ => 0

theorem Follow.owed_nonneg (f : Follow) : 0 ≤ f.owed := by
  unfold Follow.owed
  split <;> decide

theorem charWidth_of_isSubscriptLetter {c : Char} (h : isSubscriptLetter c = true) : charWidth c = 1 := by
  have key : ∀ k : Fin 48, isSubscriptLetter (Char.ofNat (0x1780 + k)) = true →
      charWidth (Char.ofNat (0x1780 + k)) = 1 := by decide +kernel
  have hc : 0x1780 ≤ c.toNat ∧ c.toNat < 0x1780 + 48 := by
    simp only [isSubscriptLetter, inRanges, List.any_cons, List.any_nil, Bool.or_eq_true, Bool.and_eq_true,
      decide_eq_true_eq, Bool.or_false] at h
    omega
  have hk := key ⟨c.toNat - 0x1780, by omega⟩
  have hn : 0x1780 + (c.toNat - 0x1780) = c.toNat := by omega
  simp only [hn, Char.ofNat_toNat] at hk
  exact hk h

theorem Picture.owed_start? {c : Char} {p : Picture} (h : Picture.start? c = some p) :
    (Follow.picture p).owed = 0 := by
  unfold Picture.start? at h
  repeat' split at h
  all_goals cases h
  all_goals rfl

theorem Ligature.owed_start? {c : Char} {l : Ligature} (h : Ligature.start? c = some l)
    (hc : ¬isSubscriptLetter c = true) : (Follow.ligature l).owed = 0 := by
  unfold Ligature.start? at h
  rw [if_neg hc] at h
  repeat' split at h
  all_goals cases h
  all_goals rfl

/-- only a letter that was counted with a column of its own can have it taken back -/
theorem Follow.owed_start (c : Char) : (Follow.start c).owed ≤ charWidth c := by
  by_cases hc : isSubscriptLetter c = true
  · rw [charWidth_of_isSubscriptLetter hc]
    unfold Follow.owed
    split <;> decide
  · have h : (Follow.start c).owed = 0 := by
      unfold Follow.start
      cases hp : Picture.start? c with
      | some p => exact Picture.owed_start? hp
      | none =>
        cases hl : Ligature.start? c with
        | some l => exact Ligature.owed_start? hl hc
        | none => rfl
    omega

theorem Picture.owed_join? {c : Char} {p q : Picture} {n : Int} (h : p.join? c = some (n, q)) :
    (Follow.picture q).owed ≤ n + (Follow.picture p).owed := by
  cases p with
  | joinedRegionals even =>
    cases even <;> simp only [Picture.join?] at h <;> (repeat' split at h) <;> cases h <;> simp_all [Follow.owed]
  | _ =>
    simp only [Picture.join?] at h
    (repeat' split at h) <;> cases h <;> simp [Follow.owed]

theorem Ligature.owed_complete? {c : Char} {l : Ligature} {m : Option Ligature} {n : Int}
    (h : l.complete? c = some (n, m)) :
    ((m.map Follow.ligature).getD .plain).owed ≤ n + (Follow.ligature l).owed := by
  cases l <;> simp only [Ligature.complete?] at h <;> (repeat' split at h) <;> cases h <;> simp [Follow.owed]

theorem Ligature.owed_join? {c : Char} {l : Ligature} {m : Option Ligature} {n : Int} (h : l.join? c = some (n, m)) :
    ((m.map Follow.ligature).getD .plain).owed ≤ n + (Follow.ligature l).owed := by
  unfold Ligature.join? at h
  split at h
  · cases h
    cases l <;> simp [Ligature.afterJoiner, Follow.owed]
  · split at h
    · cases h
      simp
    · exact Ligature.owed_complete? h

theorem Follow.owed_join? {c : Char} {f g : Follow} {n : Int} (h : f.join? c = some (n, g)) :
    g.owed ≤ n + f.owed := by
  cases f with
  | plain => cases h
  | lineFeed => cases h
  | picture p =>
    simp only [Follow.join?, Option.map_eq_some_iff] at h
    obtain ⟨⟨m, q⟩, hq, he⟩ := h
    cases he
    exact Picture.owed_join? hq
  | ligature l =>
    simp only [Follow.join?, Option.map_eq_some_iff] at h
    obtain ⟨⟨m, q⟩, hq, he⟩ := h
    cases he
    exact Ligature.owed_join? hq

theorem Ahead.owed_kept (a : Ahead) : a.kept.follow.owed ≤ a.follow.owed := by
  have := a.follow.owed_nonneg
  unfold Ahead.kept
  split
  · exact Int.le_refl _
  · exact this

theorem Ahead.owed_keptByPicture (a : Ahead) : a.keptByPicture.follow.owed ≤ a.follow.owed := by
  have := a.follow.owed_nonneg
  unfold Ahead.keptByPicture
  split
  · exact Int.le_refl _
  · exact this

theorem owed_stepBeyondAscii (c : Char) (next : Ahead) :
    (stepBeyondAscii c next).2.follow.owed ≤ (stepBeyondAscii c next).1 + next.follow.owed := by
  have hn := next.follow.owed_nonneg
  have hk := next.owed_kept
  have hp := next.owed_keptByPicture
  have hs := Follow.owed_start c
  unfold stepBeyondAscii
  split
  · simpa using hp
  split
  · simpa using hk
  split
  · simpa using hk
  split
  · show (0 : Int) ≤ 1 + next.follow.owed
    omega
  split
  · show (0 : Int) ≤ 2 + next.follow.owed
    omega
  split
  · rename_i columns follow hj
    exact Follow.owed_join? hj
  · simp only; omega

/-- no character takes back more columns than what follows it was counted too wide -/
theorem owed_step (c : Char) (next : Ahead) : (step c next).2.follow.owed ≤ (step c next).1 + next.follow.owed := by
  have hn := next.follow.owed_nonneg
  unfold step
  split
  · show (0 : Int) ≤ (if next.follow.joinsPictures then 0 else 2) + next.follow.owed
    split <;> omega
  split
  · have hw := owed_stepBeyondAscii c next.withoutPicture
    have hk : next.withoutPicture.follow.owed ≤ next.follow.owed := by
      unfold Ahead.withoutPicture
      split
      · exact next.owed_kept
      · exact Int.le_refl _
    omega
  split
  · show (0 : Int) ≤ 1 + next.follow.owed
    omega
  split
  · show (0 : Int) ≤ 0 + next.follow.owed
    omega
  · show (0 : Int) ≤ 1 + next.follow.owed
    omega

theorem owed_measure (text : List Char) : (measure text).2.follow.owed ≤ (measure text).1 := by
  induction text with
  | nil => exact Int.le_refl 0
  | cons c text ih =>
    have hs := owed_step c (measure text).2
    rw [measure_cons]
    simp only
    omega

/-- a width is never negative -/
theorem measure_nonneg (text : List Char) : 0 ≤ (measure text).1 :=
  Int.le_trans (Follow.owed_nonneg _) (owed_measure text)

end LpcStyle.Text

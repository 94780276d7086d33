import Mathlib.Tactic
import LpcStyle.Text.Location

/-!
Line and column of a place, found through an index of the line feeds. The index knows lines and counts bytes from zero;
the column in characters is read off the part of the text between the start of the line and the place. Any index that
keeps to `IndexesLines` gives the same places, those of `Location.after`, and later places have greater ones. Main
statement: `locate_indexed`; `indexesLines_byStarts` is the index of a text by the starts of its lines.
-/

namespace LpcStyle.Text

/-- `tail` is what stands between the last line feed of a text, or its start, and its end -/
structure LastRow (text head tail : List Char) : Prop where
  split : text = head ++ tail
  fed : head = [] ∨ head.getLast? = some '\n'
  solid : '\n' ∉ tail

/-- an index of the line feeds of a text gives, for each offset between two characters, the line and the bytes between
its start and the offset, both counted from zero -/
def IndexesLines (index : Nat → Nat × Nat) (text : List Char) : Prop :=
  ∀ before after head tail, text = before ++ after → LastRow before head tail →
    index (byteLength before) = (before.count '\n', byteLength tail)

/-- the order in which places are met in a text -/
def Location.Precedes (a b : Location) : Prop := a.line < b.line ∨ a.line = b.line ∧ a.column < b.column

/-- the place of an offset by an index of the line feeds: the characters of the line before the offset are counted, or
its bytes if that part cannot be taken out of the text -/
def Location.indexed (index : Nat → Nat × Nat) (text : List Char) (offset : Nat) : Location :=
  let stop := min offset (byteLength text)
  let (line, bytes) := index stop
  let characters :=
    match slice? text ⟨stop - bytes, stop⟩ with
    | some row => row.length
    | none => bytes
  ⟨line + 1, characters + 1⟩

/-! ## The last row -/

theorem exists_lastRow (text : List Char) : ∃ head tail, LastRow text head tail := by
  refine ⟨(text.reverse.dropWhile (· != '\n')).reverse, (text.reverse.takeWhile (· != '\n')).reverse, ?_, ?_, ?_⟩
  · rw [← List.reverse_append, List.takeWhile_append_dropWhile, List.reverse_reverse]
  · cases h : text.reverse.dropWhile (· != '\n') with
    | nil => exact .inl rfl
    | cons c rest =>
      have hc := List.head?_dropWhile_not (· != '\n') text.reverse
      rw [h] at hc
      exact .inr (by simpa using hc)
  · intro h
    have hfeed := List.all_eq_true.1 List.all_takeWhile '\n' (List.mem_reverse.1 h)
    exact absurd hfeed (by decide)

namespace LastRow

variable {text head tail : List Char}

/-- the last row is what the column of a place counts -/
theorem eq_takeWhile (h : LastRow text head tail) : text.reverse.takeWhile (· != '\n') = tail.reverse := by
  have htail : ∀ c ∈ tail.reverse, (c != '\n') = true := fun c hc =>
    bne_iff_ne.2 fun hfeed => h.solid (hfeed ▸ List.mem_reverse.1 hc)
  have hhead : head.reverse.takeWhile (· != '\n') = [] := by
    rcases h.fed with rfl | hlast
    · rfl
    · obtain ⟨front, rfl⟩ := List.getLast?_eq_some_iff.1 hlast
      simp
  rw [h.split, List.reverse_append, List.takeWhile_append_of_pos htail, hhead, List.append_nil]

theorem after_eq (h : LastRow text head tail) : Location.after text = ⟨1 + text.count '\n', 1 + tail.length⟩ := by
  rw [Location.after, h.eq_takeWhile, List.length_reverse, Nat.add_comm, Nat.add_comm tail.length]

/-- more text on the same line -/
theorem append (h : LastRow text head tail) {more : List Char} (hmore : '\n' ∉ more) :
    LastRow (text ++ more) head (tail ++ more) where
  split := by rw [h.split, List.append_assoc]
  fed := h.fed
  solid := fun hmem => (List.mem_append.1 hmem).elim h.solid hmore

end LastRow

/-! ## Order of places -/

/-- text without a line feed moves the column on, text with one the line -/
theorem Location.after_precedes (before : List Char) {more : List Char} (hmore : more ≠ []) :
    (Location.after before).Precedes (Location.after (before ++ more)) := by
  obtain ⟨head, tail, hrow⟩ := exists_lastRow before
  obtain ⟨head', tail', hrow'⟩ := exists_lastRow (before ++ more)
  by_cases hfeed : '\n' ∈ more
  · have hcount : 0 < more.count '\n' := List.count_pos_iff.2 hfeed
    left
    rw [hrow.after_eq, hrow'.after_eq, List.count_append]
    simp only
    omega
  · have hcount : more.count '\n' = 0 := List.count_eq_zero.2 hfeed
    have hlength : 0 < more.length := List.length_pos_iff.2 hmore
    right
    rw [hrow.after_eq, (hrow.append hfeed).after_eq, List.count_append, List.length_append]
    simp only
    omega

theorem Location.Precedes.ne {a b : Location} (h : a.Precedes b) : a ≠ b := by
  rintro rfl
  simp [Location.Precedes] at h

/-- of two first parts of a text, the shorter one starts the other -/
theorem exists_append_of_byteLength_lt {a a' b b' : List Char} (h : a ++ b = a' ++ b')
    (hlt : byteLength a < byteLength a') : ∃ more, more ≠ [] ∧ a' = a ++ more := by
  rcases List.append_eq_append_iff.1 h with ⟨more, rfl, -⟩ | ⟨more, rfl, -⟩
  · refine ⟨more, ?_, rfl⟩
    rintro rfl
    simp at hlt
  · rw [byteLength_append] at hlt
    omega

/-! ## Through an index -/

variable {index : Nat → Nat × Nat} {text : List Char}

/-- the end of a first part is not moved back -/
theorem min_byteLength {before after : List Char} (h : text = before ++ after) :
    min (byteLength before) (byteLength text) = byteLength before := by
  rw [h, byteLength_append]
  omega

/-- the part that is taken out of the text is the last row, so its characters are counted -/
theorem indexed_eq_after (hindex : IndexesLines index text) {before after : List Char} (h : text = before ++ after) :
    Location.indexed index text (byteLength before) = Location.after before := by
  obtain ⟨head, tail, hrow⟩ := exists_lastRow before
  have hlength : byteLength before = byteLength head + byteLength tail := by rw [hrow.split, byteLength_append]
  have hslice : slice? text ⟨byteLength before - byteLength tail, byteLength before⟩ = some tail := by
    apply slice?_eq_some_iff.2
    refine ⟨head, after, by rw [h, hrow.split], ?_, ?_⟩ <;> simp only <;> omega
  rw [hrow.after_eq, Nat.add_comm, Nat.add_comm 1 tail.length]
  simp only [Location.indexed, min_byteLength h, hindex before after head tail h hrow, hslice]

theorem locate_eq_after {before after : List Char} (h : text = before ++ after) :
    locate? text (byteLength before) = some (Location.after before) := by
  rw [locate?, min_byteLength h, takeBytes?_eq_some_iff.2 ⟨after, h, rfl⟩]
  rfl

/-- an offset past the end counts as the end -/
theorem indexed_of_le {offset : Nat} (h : byteLength text ≤ offset) :
    Location.indexed index text offset = Location.indexed index text (byteLength text) := by
  simp only [Location.indexed, Nat.min_eq_right h, Nat.min_self]

theorem locate_of_le {offset : Nat} (h : byteLength text ≤ offset) :
    locate? text offset = locate? text (byteLength text) := by
  simp only [locate?, Nat.min_eq_right h, Nat.min_self]

theorem indexed_precedes (hindex : IndexesLines index text) {a a' b b' : List Char} (ha : text = a ++ a')
    (hb : text = b ++ b') (hlt : byteLength a < byteLength b) :
    (Location.indexed index text (byteLength a)).Precedes (Location.indexed index text (byteLength b)) := by
  obtain ⟨more, hmore, rfl⟩ := exists_append_of_byteLength_lt (ha.symm.trans hb) hlt
  rw [indexed_eq_after hindex ha, indexed_eq_after hindex hb]
  exact Location.after_precedes a hmore

/-! ## The index by the starts of lines -/

/-- offsets behind the line feeds of a text that starts at an offset -/
def lineStarts (start : Nat) : List Char → List Nat
  | [] => []
  | c :: rest =>
    if c = '\n' then (start + c.utf8Size) :: lineStarts (start + c.utf8Size) rest
    else lineStarts (start + c.utf8Size) rest

/-- line and bytes of an offset by the last start of a line that does not pass it -/
def byStarts (text : List Char) (offset : Nat) : Nat × Nat :=
  let passed := (lineStarts 0 text).filter (· ≤ offset)
  (passed.length, offset - passed.getLast?.getD 0)

theorem lineStarts_append (start : Nat) (a b : List Char) :
    lineStarts start (a ++ b) = lineStarts start a ++ lineStarts (start + byteLength a) b := by
  induction a generalizing start with
  | nil => rfl
  | cons c a ih =>
    simp only [List.cons_append, lineStarts, ih, byteLength_cons, Nat.add_assoc]
    split <;> rfl

theorem length_lineStarts (start : Nat) (text : List Char) : (lineStarts start text).length = text.count '\n' := by
  induction text generalizing start with
  | nil => rfl
  | cons c text ih =>
    by_cases hc : c = '\n'
    · simp [lineStarts, hc, ih]
    · simp [lineStarts, hc, ih]

/-- lines start behind the start of the text and not behind its end -/
theorem mem_lineStarts {start offset : Nat} {text : List Char} (h : offset ∈ lineStarts start text) :
    start < offset ∧ offset ≤ start + byteLength text := by
  induction text generalizing start with
  | nil => simp [lineStarts] at h
  | cons c text ih =>
    have hc := c.utf8Size_pos
    have hrest (hmem : offset ∈ lineStarts (start + c.utf8Size) text) :
        start < offset ∧ offset ≤ start + byteLength (c :: text) := by
      obtain ⟨hlo, hhi⟩ := ih hmem
      rw [byteLength_cons]
      omega
    rw [lineStarts] at h
    split at h
    · rcases List.mem_cons.1 h with rfl | hmem
      · rw [byteLength_cons]
        omega
      · exact hrest hmem
    · exact hrest h

theorem filter_lineStarts (before after : List Char) :
    (lineStarts 0 (before ++ after)).filter (· ≤ byteLength before) = lineStarts 0 before := by
  have hbefore : (lineStarts 0 before).filter (· ≤ byteLength before) = lineStarts 0 before :=
    List.filter_eq_self.2 fun offset h => decide_eq_true (by have := mem_lineStarts h; omega)
  have hafter : (lineStarts (0 + byteLength before) after).filter (· ≤ byteLength before) = [] :=
    List.filter_eq_nil_iff.2 fun offset h hle => by
      have := mem_lineStarts h
      have := of_decide_eq_true hle
      omega
  rw [lineStarts_append, List.filter_append, hbefore, hafter, List.append_nil]

theorem getLast_lineStarts {text head tail : List Char} (h : LastRow text head tail) :
    (lineStarts 0 text).getLast?.getD 0 = byteLength head := by
  have htail : lineStarts (0 + byteLength head) tail = [] := by
    rw [← List.length_eq_zero_iff, length_lineStarts]
    exact List.count_eq_zero.2 h.solid
  rw [h.split, lineStarts_append, htail, List.append_nil]
  rcases h.fed with rfl | hlast
  · rfl
  · obtain ⟨front, rfl⟩ := List.getLast?_eq_some_iff.1 hlast
    rw [lineStarts_append, byteLength_append]
    simp [lineStarts]

theorem indexesLines_byStarts (text : List Char) : IndexesLines (byStarts text) text := by
  intro before after head tail h hrow
  have hlength : byteLength before = byteLength head + byteLength tail := by rw [hrow.split, byteLength_append]
  rw [h, byStarts, filter_lineStarts, length_lineStarts, getLast_lineStarts hrow, hlength, Nat.add_sub_cancel_left]

/-! ## Places of a text -/

/-- **Line and column are exact and can be read back.** With any index of the line feeds, the place of an offset between
two characters is one more than the line feeds before it and one more than the characters of its line before it; an
offset past the end counts as the end; and a later offset has a later place, so no two share one. -/
theorem locate_indexed (hindex : IndexesLines index text) :
    (∀ before after, text = before ++ after →
      locate? text (byteLength before) = some (Location.indexed index text (byteLength before)) ∧
      ∃ head tail, LastRow before head tail ∧
        Location.indexed index text (byteLength before) = ⟨1 + before.count '\n', 1 + tail.length⟩) ∧
    (∀ offset, byteLength text ≤ offset →
      Location.indexed index text offset = Location.indexed index text (byteLength text) ∧
      locate? text offset = some (Location.indexed index text offset)) ∧
    (∀ a a' b b', text = a ++ a' → text = b ++ b' →
      (byteLength a < byteLength b ↔
        (Location.indexed index text (byteLength a)).Precedes (Location.indexed index text (byteLength b))) ∧
      (Location.indexed index text (byteLength a) = Location.indexed index text (byteLength b) → a = b)) := by
  have hend : text = text ++ [] := (List.append_nil text).symm
  refine ⟨?_, ?_, ?_⟩
  · intro before after h
    obtain ⟨head, tail, hrow⟩ := exists_lastRow before
    have heq : Location.indexed index text (byteLength before) = Location.after before := indexed_eq_after hindex h
    exact ⟨by rw [heq, locate_eq_after h], head, tail, hrow, by rw [heq, hrow.after_eq]⟩
  · intro offset h
    rw [locate_of_le h, indexed_of_le h, indexed_eq_after hindex hend]
    exact ⟨rfl, locate_eq_after hend⟩
  · intro a a' b b' ha hb
    rcases Nat.lt_trichotomy (byteLength a) (byteLength b) with hlt | heq | hgt
    · have hprecedes := indexed_precedes hindex ha hb hlt
      exact ⟨⟨fun _ => hprecedes, fun _ => hlt⟩, fun h => absurd h hprecedes.ne⟩
    · have hab : a = b := by
        rcases List.append_eq_append_iff.1 (ha.symm.trans hb) with ⟨more, rfl, -⟩ | ⟨more, rfl, -⟩
        all_goals
          have hmore : ¬0 < byteLength more := by rw [byteLength_append] at heq; omega
          rw [not_imp_comm.1 byteLength_pos_of_ne_nil hmore, List.append_nil]
      subst hab
      exact ⟨⟨fun h => absurd h (Nat.lt_irrefl _), fun h => absurd rfl h.ne⟩, fun _ => rfl⟩
    · have hprecedes := indexed_precedes hindex hb ha hgt
      refine ⟨⟨fun h => absurd h (by omega), fun h => ?_⟩, fun h => absurd h.symm hprecedes.ne⟩
      rcases h with h | h <;> rcases hprecedes with h' | h' <;> omega

/-- two lines with characters of two bytes and of three -/
def accentedLines : List Char := "Café;\né = €;\n".toList

/-- on a text with longer characters, by the starts of its lines: the euro sign is the fifth character of the second line
though it is seven bytes on, the end of the text stands on a line of its own, and an offset far behind is the end -/
theorem locate_accentedLines :
    IndexesLines (byStarts accentedLines) accentedLines ∧
    Location.indexed (byStarts accentedLines) accentedLines 12 = ⟨2, 5⟩ ∧
    locate? accentedLines 12 = some ⟨2, 5⟩ ∧ byStarts accentedLines 12 = (1, 5) ∧
    Location.indexed (byStarts accentedLines) accentedLines 99 = ⟨3, 1⟩ ∧
    (Location.indexed (byStarts accentedLines) accentedLines 12).Precedes
      (Location.indexed (byStarts accentedLines) accentedLines 15) := by
  obtain ⟨hplaces, hpast, horder⟩ := locate_indexed (indexesLines_byStarts accentedLines)
  have heuro : accentedLines = "Café;\né = ".toList ++ "€;\n".toList := by decide +kernel
  have hbehind : accentedLines = "Café;\né = €".toList ++ ";\n".toList := by decide +kernel
  have hplace : Location.indexed (byStarts accentedLines) accentedLines 12 = ⟨2, 5⟩ := by decide +kernel
  have hlocate : locate? accentedLines 12 = some (Location.indexed (byStarts accentedLines) accentedLines 12) :=
    (hplaces _ _ heuro).1
  have hend : Location.indexed (byStarts accentedLines) accentedLines 99 = ⟨3, 1⟩ :=
    (hpast 99 (by decide +kernel)).1.trans (by decide +kernel)
  exact ⟨indexesLines_byStarts accentedLines, hplace, hplace ▸ hlocate, by decide +kernel, hend,
    (horder _ _ _ _ heuro hbehind).1.1 (by decide +kernel)⟩

end LpcStyle.Text

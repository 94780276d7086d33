/-!
Spans of a text, in bytes of its UTF-8 form. A text is a list of characters; a span that does not end on character
boundaries of the text selects nothing of it. `slice?_eq_some_iff` says what a span selects without counting bytes by
hand: the part between two others whose lengths are its ends.
-/

namespace LpcStyle.Text

/-- bytes of a text in UTF-8 -/
def byteLength : List Char → Nat
  | [] => 0
  | c :: rest => c.utf8Size + byteLength rest

/-- half-open range of byte offsets -/
structure Span where
  start : Nat
  stop : Nat
deriving DecidableEq, Repr, Inhabited

namespace Span

/-- the start does not pass the end -/
def Ordered (s : Span) : Prop := s.start ≤ s.stop

/-- the empty span at an offset -/
def empty (offset : Nat) : Span := ⟨offset, offset⟩

/-- the smallest span that holds both -/
def cover (a b : Span) : Span := ⟨min a.start b.start, max a.stop b.stop⟩

/-- `start..stop` -/
def label (s : Span) : List Char := s.start.repr.toList ++ "..".toList ++ s.stop.repr.toList

end Span

/-- the text from a byte offset on; `none` if the offset is no character boundary -/
def dropBytes? : Nat → List Char → Option (List Char)
  | 0, text => some text
  | _ + 1, [] => none
  | n + 1, c :: rest => if c.utf8Size ≤ n + 1 then dropBytes? (n + 1 - c.utf8Size) rest else none

/-- the first bytes of a text; `none` if they do not end on a character boundary -/
def takeBytes? : Nat → List Char → Option (List Char)
  | 0, _ => some []
  | _ + 1, [] => none
  | n + 1, c :: rest =>
    if c.utf8Size ≤ n + 1 then (takeBytes? (n + 1 - c.utf8Size) rest).map (c :: ·) else none

/-- the part of a text that a span selects; `none` if the span is not ordered, in bounds and on boundaries -/
def slice? (text : List Char) (span : Span) : Option (List Char) :=
  if span.start ≤ span.stop then (dropBytes? span.start text).bind (takeBytes? (span.stop - span.start)) else none

/-- the part of a text that a span selects, nothing for a span that is none of the text -/
def slice (text : List Char) (span : Span) : List Char := (slice? text span).getD []

@[simp] theorem byteLength_nil : byteLength [] = 0 := rfl

@[simp] theorem byteLength_cons (c : Char) (text : List Char) :
    byteLength (c :: text) = c.utf8Size + byteLength text := rfl

@[simp] theorem byteLength_append (a b : List Char) : byteLength (a ++ b) = byteLength a + byteLength b := by
  induction a with
  | nil => simp
  | cons c a ih => simp [ih, Nat.add_assoc]

theorem byteLength_pos_of_ne_nil {text : List Char} (h : text ≠ []) : 0 < byteLength text := by
  cases text with
  | nil => exact absurd rfl h
  | cons c rest =>
    have := c.utf8Size_pos
    simp only [byteLength_cons]
    omega

theorem dropBytes?_cons (n : Nat) (c : Char) (rest : List Char) :
    dropBytes? (c.utf8Size + n) (c :: rest) = dropBytes? n rest := by
  have hc := c.utf8Size_pos
  obtain ⟨k, hk⟩ : ∃ k, c.utf8Size + n = k + 1 := ⟨c.utf8Size + n - 1, by omega⟩
  rw [hk, dropBytes?, if_pos (by omega)]
  congr 1
  omega

theorem takeBytes?_cons (n : Nat) (c : Char) (rest : List Char) :
    takeBytes? (c.utf8Size + n) (c :: rest) = (takeBytes? n rest).map (c :: ·) := by
  have hc := c.utf8Size_pos
  obtain ⟨k, hk⟩ : ∃ k, c.utf8Size + n = k + 1 := ⟨c.utf8Size + n - 1, by omega⟩
  rw [hk, takeBytes?, if_pos (by omega)]
  congr 2
  omega

/-- an offset is a boundary exactly when it is the length of a first part -/
theorem dropBytes?_eq_some_iff {n : Nat} {text rest : List Char} :
    dropBytes? n text = some rest ↔ ∃ front, text = front ++ rest ∧ byteLength front = n := by
  constructor
  · intro h
    induction text generalizing n with
    | nil =>
      cases n with
      | zero => exact ⟨[], by simpa [dropBytes?] using h, rfl⟩
      | succ n => simp [dropBytes?] at h
    | cons c tail ih =>
      cases n with
      | zero => exact ⟨[], by simpa [dropBytes?] using h, rfl⟩
      | succ n =>
        simp only [dropBytes?] at h
        split at h
        · obtain ⟨front, rfl, hn⟩ := ih h
          exact ⟨c :: front, rfl, by simp only [byteLength_cons]; omega⟩
        · cases h
  · rintro ⟨front, rfl, rfl⟩
    induction front with
    | nil => simp [dropBytes?]
    | cons c front ih => simpa [dropBytes?_cons] using ih

theorem takeBytes?_eq_some_iff {n : Nat} {text front : List Char} :
    takeBytes? n text = some front ↔ ∃ rest, text = front ++ rest ∧ byteLength front = n := by
  constructor
  · intro h
    induction text generalizing n front with
    | nil =>
      cases n with
      | zero => simp only [takeBytes?, Option.some.injEq] at h; exact ⟨[], by simp [← h], by simp [← h]⟩
      | succ n => simp [takeBytes?] at h
    | cons c tail ih =>
      cases n with
      | zero => simp only [takeBytes?, Option.some.injEq] at h; exact ⟨c :: tail, by simp [← h], by simp [← h]⟩
      | succ n =>
        simp only [takeBytes?] at h
        split at h
        · obtain ⟨front', hf, rfl⟩ := Option.map_eq_some_iff.1 h
          obtain ⟨rest, rfl, hn⟩ := ih hf
          exact ⟨rest, rfl, by simp only [byteLength_cons]; omega⟩
        · cases h
  · rintro ⟨rest, rfl, rfl⟩
    induction front with
    | nil => simp [takeBytes?]
    | cons c front ih => simp [takeBytes?_cons, ih]

/-- a span selects a part exactly when it runs from the part's start to its end -/
theorem slice?_eq_some_iff {text part : List Char} {span : Span} :
    slice? text span = some part ↔
      ∃ before after, text = before ++ part ++ after ∧ byteLength before = span.start ∧
        span.start + byteLength part = span.stop := by
  constructor
  · intro h
    by_cases hle : span.start ≤ span.stop
    · cases hd : dropBytes? span.start text with
      | none => simp [slice?, hd] at h
      | some tail =>
        have ht : takeBytes? (span.stop - span.start) tail = some part := by
          simpa [slice?, hd, hle] using h
        obtain ⟨before, rfl, hb⟩ := dropBytes?_eq_some_iff.1 hd
        obtain ⟨after, rfl, hp⟩ := takeBytes?_eq_some_iff.1 ht
        exact ⟨before, after, by simp, hb, by omega⟩
    · simp [slice?, hle] at h
  · rintro ⟨before, after, rfl, hb, hp⟩
    have hd : dropBytes? span.start (before ++ part ++ after) = some (part ++ after) :=
      dropBytes?_eq_some_iff.2 ⟨before, by simp, hb⟩
    have ht : takeBytes? (span.stop - span.start) (part ++ after) = some part :=
      takeBytes?_eq_some_iff.2 ⟨after, rfl, by omega⟩
    have hle : span.start ≤ span.stop := by omega
    rw [slice?, if_pos hle, hd, Option.bind_some, ht]

end LpcStyle.Text

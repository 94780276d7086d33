/-!
Blank characters and the text operations built on them: trimming, words, lines. A blank is a character with the
White_Space property, so the no-break space and the line separators count.
-/

namespace LpcStyle.Text

/-- the White_Space property -/
def isBlank (c : Char) : Bool :=
  c == ' ' || ('\t' ≤ c && c ≤ '\r') || c == '\u0085' || c == '\u00a0' || c == '\u1680' ||
    ('\u2000' ≤ c && c ≤ '\u200a') || c == '\u2028' || c == '\u2029' || c == '\u202f' || c == '\u205f' ||
    c == '\u3000'

/-- every character that core calls whitespace is blank -/
theorem isBlank_of_isWhitespace {c : Char} (h : c.isWhitespace = true) : isBlank c = true := by
  simp only [Char.isWhitespace, Bool.or_eq_true, decide_eq_true_eq] at h
  rcases h with ((rfl | rfl) | rfl) | rfl <;> decide

/-- drops the characters at the end that satisfy `p` -/
def dropEndWhile (p : Char → Bool) (text : List Char) : List Char := (text.reverse.dropWhile p).reverse

/-- without the blanks at the start -/
def trimStart (text : List Char) : List Char := text.dropWhile isBlank

/-- without the blanks at the end -/
def trimEnd (text : List Char) : List Char := dropEndWhile isBlank text

/-- without the blanks at either end -/
def trim (text : List Char) : List Char := trimEnd (trimStart text)

/-- the pieces between the characters that satisfy `p`; there is one piece more than there are such characters -/
def splitOn (p : Char → Bool) : List Char → List (List Char)
  | [] => [[]]
  | c :: rest =>
    match splitOn p rest with
    | [] => [[c]]
    | piece :: pieces => if p c then [] :: piece :: pieces else (c :: piece) :: pieces

/-- the lines between line feeds -/
def lines (text : List Char) : List (List Char) := splitOn (· == '\n') text

/-- the longest runs without a blank -/
def words (text : List Char) : List (List Char) := (splitOn isBlank text).filter (!·.isEmpty)

/-- pieces joined by a separator -/
def join (separator : List Char) : List (List Char) → List Char
  | [] => []
  | [piece] => piece
  | piece :: pieces => piece ++ separator ++ join separator pieces

/-- the text starts with `front` -/
def startsWith (front text : List Char) : Bool := front.isPrefixOf text

/-- the text after `front`, if it starts with it -/
def dropFront? (front text : List Char) : Option (List Char) :=
  if startsWith front text then some (text.drop front.length) else none

/-- the text before `back`, if it ends with it -/
def dropBack? (back text : List Char) : Option (List Char) :=
  (dropFront? back.reverse text.reverse).map List.reverse

/-- number of characters before the first place where `p` holds of the rest of the text -/
def find (p : List Char → Bool) : List Char → Option Nat
  | [] => if p [] then some 0 else none
  | c :: rest => if p (c :: rest) then some 0 else (find p rest).map (· + 1)

/-- the text contains `piece` -/
def contains (piece text : List Char) : Bool := (find (startsWith piece) text).isSome

theorem splitOn_ne_nil (p : Char → Bool) (text : List Char) : splitOn p text ≠ [] := by
  cases text with
  | nil => simp [splitOn]
  | cons c rest =>
    simp only [splitOn]
    split
    · simp
    · split <;> simp

theorem dropFront?_eq_some_iff {front text rest : List Char} :
    dropFront? front text = some rest ↔ text = front ++ rest := by
  constructor
  · intro h
    by_cases hp : startsWith front text
    · obtain ⟨tail, rfl⟩ := List.isPrefixOf_iff_prefix.1 hp
      have hr : tail = rest := by simpa [dropFront?, hp] using h
      rw [hr]
    · simp [dropFront?, hp] at h
  · rintro rfl
    simp [dropFront?, startsWith]

theorem dropBack?_eq_some_iff {back text rest : List Char} :
    dropBack? back text = some rest ↔ text = rest ++ back := by
  simp only [dropBack?, Option.map_eq_some_iff, dropFront?_eq_some_iff]
  constructor
  · rintro ⟨r, hr, rfl⟩
    simpa using congrArg List.reverse hr
  · rintro rfl
    exact ⟨rest.reverse, by simp, by simp⟩

theorem join_cons (separator piece : List Char) {pieces : List (List Char)} (h : pieces ≠ []) :
    join separator (piece :: pieces) = piece ++ separator ++ join separator pieces := by
  cases pieces with
  | nil => exact absurd rfl h
  | cons p ps => rfl

/-- the lines of a text with line feeds between them are the text -/
theorem join_lines (text : List Char) : join ['\n'] (lines text) = text := by
  induction text with
  | nil => rfl
  | cons c rest ih =>
    simp only [lines] at ih ⊢
    simp only [splitOn]
    split
    · next h => exact absurd h (splitOn_ne_nil _ _)
    · next piece pieces h =>
      rw [h] at ih
      split
      · next hc =>
        have hc : c = '\n' := by simpa using hc
        simp [join_cons, ih, hc]
      · cases pieces with
        | nil => simpa [join] using ih
        | cons p ps =>
          simp only [join_cons _ _ (List.cons_ne_nil p ps)] at ih ⊢
          simp [← ih]

/-- no piece holds a character that the text was split at -/
theorem not_of_mem_splitOn {p : Char → Bool} {text piece : List Char} (h : piece ∈ splitOn p text) :
    ∀ c ∈ piece, p c = false := by
  induction text generalizing piece with
  | nil => simp [splitOn] at h; simp [h]
  | cons c rest ih =>
    simp only [splitOn] at h
    split at h
    · next hs => exact absurd hs (splitOn_ne_nil _ _)
    · next q qs hs =>
      split at h
      · rcases List.mem_cons.1 h with rfl | h
        · simp
        · exact ih (hs ▸ h)
      · next hc =>
        rcases List.mem_cons.1 h with rfl | h
        · intro d hd
          rcases List.mem_cons.1 hd with rfl | hd
          · simpa using hc
          · exact ih (hs ▸ List.mem_cons_self) d hd
        · exact ih (hs ▸ List.mem_cons_of_mem q h)

end LpcStyle.Text

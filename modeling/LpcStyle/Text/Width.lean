import LpcStyle.Text.Ligature

/-!
Display width of a text: the number of columns it takes when shown in a fixed-width font.

Most characters have a width of their own. Where several are drawn as one, what a character adds depends on those after
it, so a text is measured from its end (`measure`), and each character is told what follows it (`Ahead`).
-/

namespace LpcStyle.Text

/-- characters that take two columns: ideographs, kana, full-width forms, pictographs -/
def wideRanges : List (Nat × Nat) := [
  (0x1100, 0x115f), (0x231a, 0x231b), (0x2329, 0x232a), (0x23e9, 0x23ec), (0x23f0, 0x23f0), (0x23f3, 0x23f3),
  (0x25fd, 0x25fe), (0x2614, 0x2615), (0x2630, 0x2637), (0x2648, 0x2653), (0x267f, 0x267f), (0x268a, 0x268f),
  (0x2693, 0x2693), (0x26a1, 0x26a1), (0x26aa, 0x26ab), (0x26bd, 0x26be), (0x26c4, 0x26c5), (0x26ce, 0x26ce),
  (0x26d4, 0x26d4), (0x26ea, 0x26ea), (0x26f2, 0x26f3), (0x26f5, 0x26f5), (0x26fa, 0x26fa), (0x26fd, 0x26fd),
  (0x2705, 0x2705), (0x270a, 0x270b), (0x2728, 0x2728), (0x274c, 0x274c), (0x274e, 0x274e), (0x2753, 0x2755),
  (0x2757, 0x2757), (0x2795, 0x2797), (0x27b0, 0x27b0), (0x27bf, 0x27bf), (0x2b1b, 0x2b1c), (0x2b50, 0x2b50),
  (0x2b55, 0x2b55), (0x2e80, 0x2e99), (0x2e9b, 0x2ef3), (0x2f00, 0x2fd5), (0x2ff0, 0x303e), (0x3041, 0x3096),
  (0x3099, 0x30ff), (0x3105, 0x312f), (0x3131, 0x318e), (0x3190, 0x31e5), (0x31ef, 0x321e), (0x3220, 0x3247),
  (0x3250, 0xa48c), (0xa490, 0xa4c6), (0xa960, 0xa97c), (0xac00, 0xd7a3), (0xf900, 0xfaff), (0xfe10, 0xfe19),
  (0xfe30, 0xfe52), (0xfe54, 0xfe66), (0xfe68, 0xfe6b), (0xff01, 0xff60), (0xffe0, 0xffe6), (0x16fe0, 0x16fe4),
  (0x16ff0, 0x16ff6), (0x17000, 0x18cd5), (0x18cff, 0x18d1e), (0x18d80, 0x18df2), (0x1aff0, 0x1aff3),
  (0x1aff5, 0x1affb), (0x1affd, 0x1affe), (0x1b000, 0x1b122), (0x1b132, 0x1b132), (0x1b150, 0x1b152),
  (0x1b155, 0x1b155), (0x1b164, 0x1b167), (0x1b170, 0x1b2fb), (0x1d300, 0x1d356), (0x1d360, 0x1d376),
  (0x1f004, 0x1f004), (0x1f0cf, 0x1f0cf), (0x1f18e, 0x1f18e), (0x1f191, 0x1f19a), (0x1f200, 0x1f202),
  (0x1f210, 0x1f23b), (0x1f240, 0x1f248), (0x1f250, 0x1f251), (0x1f260, 0x1f265), (0x1f300, 0x1f320),
  (0x1f32d, 0x1f335), (0x1f337, 0x1f37c), (0x1f37e, 0x1f393), (0x1f3a0, 0x1f3ca), (0x1f3cf, 0x1f3d3),
  (0x1f3e0, 0x1f3f0), (0x1f3f4, 0x1f3f4), (0x1f3f8, 0x1f43e), (0x1f440, 0x1f440), (0x1f442, 0x1f4fc),
  (0x1f4ff, 0x1f53d), (0x1f54b, 0x1f54e), (0x1f550, 0x1f567), (0x1f57a, 0x1f57a), (0x1f595, 0x1f596),
  (0x1f5a4, 0x1f5a4), (0x1f5fb, 0x1f64f), (0x1f680, 0x1f6c5), (0x1f6cc, 0x1f6cc), (0x1f6d0, 0x1f6d2),
  (0x1f6d5, 0x1f6d8), (0x1f6dc, 0x1f6df), (0x1f6eb, 0x1f6ec), (0x1f6f4, 0x1f6fc), (0x1f7e0, 0x1f7eb),
  (0x1f7f0, 0x1f7f0), (0x1f90c, 0x1f93a), (0x1f93c, 0x1f945), (0x1f947, 0x1f9ff), (0x1fa70, 0x1fa7c),
  (0x1fa80, 0x1fa8a), (0x1fa8e, 0x1fac6), (0x1fac8, 0x1fac8), (0x1facd, 0x1fadc), (0x1fadf, 0x1faea),
  (0x1faef, 0x1faf8), (0x20000, 0x2fffd), (0x30000, 0x3fffd)]

/-- columns of one character by itself: none for a mark, two for a wide character, one for all else, controls included.
Two Khmer signs stand for several letters -/
def charWidth (c : Char) : Nat :=
  if c.toNat < 0xad then 1
  else if isZeroWidth c then 0
  else if c.toNat == 0x17d8 then 3
  else if c.toNat == 0x17a4 || inRanges wideRanges c.toNat then 2
  else 1

/-- quotation marks that a selector makes wide -/
def isQuotationMark (c : Char) : Bool := inRanges [(0x2018, 0x2019), (0x201c, 0x201d)] c.toNat

/-- what follows a place, as far as the character before it may be drawn together with it -/
inductive Follow where
  | plain
  | lineFeed
  | picture (picture : Picture)
  | ligature (ligature : Ligature)
deriving DecidableEq, Repr

namespace Follow

def start (c : Char) : Follow :=
  match Picture.start? c, Ligature.start? c with
  | some p, _ => picture p
  | none, some l => ligature l
  | none, none => plain

/-- a picture before a joiner becomes part of the picture after it -/
def joinsPictures : Follow → Bool
  | picture .joined | picture .joinedKeycap => true
  | _ => false

/-- a ligature that a selector does not end -/
def lasts : Follow → Bool
  | ligature l => l.lasts
  | _ => false

/-- columns of a character that is drawn together with what follows it, and what it is to the one before it -/
def join? (c : Char) : Follow → Option (Int × Follow)
  | picture p => (p.join? c).map fun (columns, p) => (columns, picture p)
  | ligature l => (l.join? c).map fun (columns, l) => (columns, (l.map ligature).getD plain)
  | _ => none

end Follow

/-- what follows a place, and the selectors that the character before it meets first -/
structure Ahead where
  follow : Follow := .plain
  /-- a selector asks for a picture -/
  asPicture : Bool := false
  /-- a selector asks for plain text -/
  asText : Bool := false
  /-- a selector asks for a wide form -/
  asWide : Bool := false
deriving DecidableEq, Repr

namespace Ahead

/-- what a selector other than that for pictures leaves of what follows it -/
def kept (a : Ahead) : Ahead := if a.follow.lasts then a else {}

/-- what the selector for pictures leaves of what follows it -/
def keptByPicture (a : Ahead) : Ahead := if a.follow.lasts || a.follow.joinsPictures then a else {}

/-- the place seen by a character that the selector for pictures means nothing to -/
def withoutPicture (a : Ahead) : Ahead := if a.asPicture then { a.kept with asPicture := false } else a

end Ahead

/-- columns that a character past the ASCII and control characters adds before what follows it, and what it is to the
character before it -/
def stepBeyondAscii (c : Char) (next : Ahead) : Int × Ahead :=
  if c.toNat == 0xfe0f then (0, { next.keptByPicture with asPicture := true })
  else if c.toNat == 0xfe0e then (0, { next.kept with asText := true })
  else if c.toNat == 0xfe01 then (0, { next.kept with asWide := true })
  else if next.asText && hasTextForm c then (1, {})
  else if next.asWide && isQuotationMark c then (2, {})
  else
    match next.follow.join? c with
    | some (columns, follow) => (columns, { follow })
    | none => (charWidth c, { follow := .start c })

/-- columns that a character adds before what follows it, and what it is to the character before it -/
def step (c : Char) (next : Ahead) : Int × Ahead :=
  if next.asPicture && isSelectable c then
    (if next.follow.joinsPictures then 0 else 2, { follow := .picture .whole })
  else if 0xa0 < c.toNat then stepBeyondAscii c next.withoutPicture
  else if c == '\n' then (1, { follow := .lineFeed })
  else if c == '\r' && next.follow == .lineFeed then (0, {})
  else (1, {})

/-- columns of a text, and what it is to a character before it -/
def measure (text : List Char) : Int × Ahead :=
  text.foldr (fun c (columns, next) => ((step c next).1 + columns, (step c next).2)) (0, {})

theorem measure_nil : measure [] = (0, {}) := rfl

theorem measure_cons (c : Char) (text : List Char) :
    measure (c :: text) = ((step c (measure text).2).1 + (measure text).1, (step c (measure text).2).2) := rfl

/-- columns of a text. An ASCII text takes one column a character, line ends included -/
def width (text : List Char) : Nat :=
  if text.all (·.toNat < 0x80) then text.length else (measure text).1.toNat

/-- text without a character above ASCII has as many columns as characters -/
theorem width_ascii {text : List Char} (h : ∀ c ∈ text, c.toNat < 0x80) : width text = text.length :=
  if_pos (by simpa using h)

/-- the table is in order -/
theorem wideRanges_rising : Rising wideRanges = true := by decide +kernel

end LpcStyle.Text

import LpcStyle.Text.Emoji
import LpcStyle.Text.Mark

/-!
Letters that are drawn as one in some scripts. A text is read from its end: a letter that may be the last of a ligature
is kept in mind until the letters before it complete the ligature or do not.
-/

namespace LpcStyle.Text

/-- characters without a column that part a lam from an alef after it -/
def partingRanges : List (Nat × Nat) := [
  (0x605, 0x605), (0x890, 0x891), (0x8e2, 0x8e2), (0x9be, 0x9be), (0x9d7, 0x9d7), (0xb3e, 0xb3e),
  (0xb57, 0xb57), (0xbbe, 0xbbe), (0xbd7, 0xbd7), (0xcc0, 0xcc0), (0xcc2, 0xcc2), (0xcc7, 0xcc8),
  (0xcca, 0xccb), (0xcd5, 0xcd6), (0xd3e, 0xd3e), (0xd4e, 0xd4e), (0xd57, 0xd57), (0xdcf, 0xdcf),
  (0xddf, 0xddf), (0x1160, 0x11ff), (0x1715, 0x1715), (0x1734, 0x1734), (0x180e, 0x180e), (0x1b35, 0x1b35),
  (0x1b3b, 0x1b3b), (0x1b3d, 0x1b3d), (0x1b43, 0x1b44), (0x1baa, 0x1baa), (0x1bf2, 0x1bf3), (0x200c, 0x200d),
  (0x2065, 0x2069), (0x302e, 0x302f), (0x3164, 0x3164), (0xa8fa, 0xa8fa), (0xa953, 0xa953), (0xa9c0, 0xa9c0),
  (0xd7b0, 0xd7c6), (0xd7cb, 0xd7fb), (0xffa0, 0xffa0), (0xfff0, 0xfff8), (0x111c0, 0x111c0),
  (0x111c2, 0x111c3), (0x11235, 0x11235), (0x1133e, 0x1133e), (0x1134d, 0x1134d), (0x11357, 0x11357),
  (0x113b8, 0x113b8), (0x113c2, 0x113c2), (0x113c5, 0x113c5), (0x113c7, 0x113c9), (0x113cf, 0x113cf),
  (0x113d1, 0x113d1), (0x114b0, 0x114b0), (0x114bd, 0x114bd), (0x115af, 0x115af), (0x116b6, 0x116b6),
  (0x11930, 0x11930), (0x1193d, 0x1193d), (0x1193f, 0x1193f), (0x11941, 0x11941), (0x11a84, 0x11a89),
  (0x11d46, 0x11d46), (0x11f02, 0x11f02), (0x11f41, 0x11f41), (0x16ff0, 0x16ff1), (0x1d165, 0x1d166),
  (0x1d16d, 0x1d172), (0xe0000, 0xe0000), (0xe0002, 0xe001f), (0xe0080, 0xe00ff), (0xe01f0, 0xe0fff)]

/-- the end of a ligature that may be completed by what stands before it -/
inductive Ligature where
  /-- Arabic alef, which a lam goes into -/
  | alef
  /-- Hebrew lamed; an alef joined to it goes into it -/
  | lamed (joined : Bool)
  /-- Buginese ya, alone or after a vowel sign joined to it -/
  | ya (joined : Bool)
  | signAndYa
  /-- a Tifinagh consonant, alone or with the consonant joiner before it -/
  | consonant (joined : Bool)
  | joinerAndConsonant
  /-- a Lisu tone letter that follows another one -/
  | tone
  /-- Old Turkic i; the letter joined to it goes into it -/
  | orkhonI (joined : Bool)
  /-- a Khmer letter that the coeng sign puts under the letter before it -/
  | subscript
  /-- parts of the composed vowel signs of Kirat Rai -/
  | vowelE
  | vowelAi
deriving DecidableEq, Repr

def isAlef (c : Char) : Bool :=
  inRanges [(0x622, 0x623), (0x625, 0x625), (0x627, 0x627), (0x671, 0x673), (0x675, 0x675), (0x773, 0x774),
    (0x870, 0x882)] c.toNat

def isLam (c : Char) : Bool :=
  inRanges [(0x644, 0x644), (0x6b5, 0x6b8), (0x76a, 0x76a), (0x8a6, 0x8a6), (0x8c7, 0x8c7)] c.toNat

/-- Khmer letters whose form under another letter takes no column -/
def isSubscriptLetter (c : Char) : Bool :=
  inRanges [(0x1780, 0x1782), (0x1784, 0x1787), (0x1789, 0x178c), (0x178e, 0x1793), (0x1795, 0x1798),
    (0x179b, 0x179d), (0x17a0, 0x17a0), (0x17a2, 0x17a2), (0x17a7, 0x17a7), (0x17ab, 0x17ac), (0x17af, 0x17af)] c.toNat

def isTifinaghConsonant (c : Char) : Bool := inRanges [(0x2d31, 0x2d65), (0x2d6f, 0x2d6f)] c.toNat

/-- marks that are not shown and may stand inside a ligature -/
def isHiddenMark (c : Char) : Bool :=
  inRanges [(0x34f, 0x34f), (0x17b4, 0x17b5), (0x180b, 0x180d), (0x180f, 0x180f), (0xfe00, 0xfe0f),
    (0xe0100, 0xe01ef)] c.toNat

/-- marks that may stand between a lam and an alef -/
def isJoinedOver (c : Char) : Bool := isZeroWidth c && !inRanges partingRanges c.toNat

namespace Ligature

/-- the ligature that may end with the character -/
def start? (c : Char) : Option Ligature :=
  if isAlef c then some alef
  else if c.toNat == 0x5dc then some (lamed false)
  else if isSubscriptLetter c then some subscript
  else if c.toNat == 0x1a10 then some (ya false)
  else if isTifinaghConsonant c then some (consonant false)
  else if c.toNat == 0xa4fc || c.toNat == 0xa4fd then some tone
  else if c.toNat == 0x10c03 then some (orkhonI false)
  else if c.toNat == 0x16d67 then some vowelE
  else if c.toNat == 0x16d68 then some vowelAi
  else none

/-- a selector between the parts does not end the ligature -/
def lasts : Ligature → Bool
  | vowelE | vowelAi => false
  | _ => true

/-- joiners and hidden marks between the parts do not end the ligature -/
def admitsJoiners : Ligature → Bool
  | alef | vowelE | vowelAi => false
  | _ => true

/-- the ligature with a joiner before it -/
def afterJoiner : Ligature → Ligature
  | lamed _ => lamed true
  | ya _ => ya true
  | consonant _ => consonant true
  | orkhonI _ => orkhonI true
  | l => l

/-- the columns that a letter adds where it goes into the ligature after it, and the ligature that is then still open.
What was counted too much is taken back -/
def complete? (c : Char) : Ligature → Option (Int × Option Ligature)
  | alef =>
    if isLam c then some (0, none)
    else if isJoinedOver c then some (0, some alef)
    else none
  | lamed joined => if joined && c.toNat == 0x5d0 then some (0, none) else none
  | ya joined => if joined && c.toNat == 0x1a17 then some (0, some signAndYa) else none
  | signAndYa => if c.toNat == 0x1a15 then some (0, none) else none
  | consonant joined =>
    if c.toNat == 0x2d7f then some (1, some joinerAndConsonant)
    else if joined && isTifinaghConsonant c then some (0, none)
    else none
  | joinerAndConsonant => if isTifinaghConsonant c then some (-1, none) else none
  | tone => if 0xa4f8 ≤ c.toNat && c.toNat ≤ 0xa4fb then some (0, none) else none
  | orkhonI joined => if joined && c.toNat == 0x10c32 then some (0, none) else none
  | subscript => if c.toNat == 0x17d2 then some (-1, none) else none
  | vowelE =>
    if c.toNat == 0x16d63 || c.toNat == 0x16d69 then some (0, none)
    else if c.toNat == 0x16d67 then some (0, some vowelAi)
    else if c.toNat == 0x16d68 then some (1, some vowelE)
    else none
  | vowelAi => if c.toNat == 0x16d63 then some (0, none) else none

/-- as `complete?`, with what may stand between the parts -/
def join? (c : Char) (l : Ligature) : Option (Int × Option Ligature) :=
  if l.admitsJoiners && isJoiner c then some (0, some l.afterJoiner)
  else if l.admitsJoiners && isHiddenMark c then some (0, some l)
  else complete? c l

end Ligature

/-- the table is in order -/
theorem partingRanges_rising : Rising partingRanges = true := by decide +kernel

end LpcStyle.Text

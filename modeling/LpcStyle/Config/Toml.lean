import LpcStyle.Config.Value

/-!
Configuration files. A file is a list of lines: comments, `key = value` entries and section headers. Keys may be
quoted and dotted; a key must not be given twice, and a section not be opened twice.
-/

namespace LpcStyle.Config.Toml

/-! ## Characters and blanks -/

/-- a space or tab -/
def isSpace (c : Char) : Bool := c == ' ' || c == '\t'

def skipSpaces (text : List Char) : List Char := text.dropWhile isSpace

/-- controls other than the tab stand in no comment and no string -/
def isPlain (c : Char) : Bool := c == '\t' || (0x20 ≤ c.toNat && c.toNat != 0x7f)

/-- a comment up to the end of its line -/
def skipComment : List Char → List Char
  | '#' :: rest => rest.dropWhile isPlain
  | text => text

/-- the text after a line end -/
def afterLineEnd? : List Char → Option (List Char)
  | '\n' :: rest => some rest
  | '\r' :: '\n' :: rest => some rest
  | _ => none

/-- the text after the blanks, the comment and the line end that may follow an entry -/
def afterLine? (text : List Char) : Option (List Char) :=
  match skipComment (skipSpaces text) with
  | [] => some []
  | text => afterLineEnd? text

/-- blanks, comments and line ends between the items of an array -/
def skipLines : Nat → List Char → List Char
  | 0, text => text
  | fuel + 1, text =>
    let text := skipComment (skipSpaces text)
    match afterLineEnd? text with
    | some rest => skipLines fuel rest
    | none => text

/-! ## Strings and keys -/

def hexValue? (c : Char) : Option Nat :=
  if c.isDigit then some (c.toNat - '0'.toNat)
  else if 'a' ≤ c && c ≤ 'f' then some (c.toNat - 'a'.toNat + 10)
  else if 'A' ≤ c && c ≤ 'F' then some (c.toNat - 'A'.toNat + 10)
  else none

/-- the character with the code point that the next `n` hexadecimal digits give -/
def codePoint? (n : Nat) (text : List Char) : Option (Char × List Char) := do
  let digits ← (text.take n).mapM hexValue?
  guard (digits.length = n)
  let code := digits.foldl (fun value digit => 16 * value + digit) 0
  guard (code < 0xd800 || (0xe000 ≤ code && code ≤ 0x10ffff))
  return (Char.ofNat code, text.drop n)

/-- the character that an escape stands for, from after its backslash -/
def escape? : List Char → Option (Char × List Char)
  | 'b' :: rest => some ('\x08', rest)
  | 't' :: rest => some ('\t', rest)
  | 'n' :: rest => some ('\n', rest)
  | 'f' :: rest => some ('\x0c', rest)
  | 'r' :: rest => some ('\r', rest)
  | '\x22' :: rest => some ('\x22', rest)
  | '\\' :: rest => some ('\\', rest)
  | 'u' :: rest => codePoint? 4 rest
  | 'U' :: rest => codePoint? 8 rest
  | _ => none

/-- a string in double quotes on one line, from after its opening quote; `done` is what is read, newest first -/
def basicTail? : Nat → List Char → List Char → Option (List Char × List Char)
  | 0, _, _ => none
  | fuel + 1, done, text =>
    match text with
    | [] => none
    | '\x22' :: rest => some (done.reverse, rest)
    | '\\' :: rest => (escape? rest).bind fun (c, rest) => basicTail? fuel (c :: done) rest
    | c :: rest => if isPlain c then basicTail? fuel (c :: done) rest else none

/-- a string in single quotes on one line, from after its opening quote -/
def literalTail? (text : List Char) : Option (List Char × List Char) :=
  match text.dropWhile fun c => isPlain c && c != '\x27' with
  | '\x27' :: rest => some (text.takeWhile fun c => isPlain c && c != '\x27', rest)
  | _ => none

/-- the text after a backslash that ends its line: the blanks and line ends up to the next character are skipped -/
def afterContinuation? (text : List Char) : Option (List Char) :=
  (afterLineEnd? (skipSpaces text)).map
    (·.dropWhile fun c => isSpace c || c == '\n' || c == '\r')

/-- how many of the quotes at the front belong to the closing mark of a string over several lines: three, after at most
two of its own -/
def closingQuotes? (quote : Char) (text : List Char) : Option Nat :=
  let n := (text.takeWhile (· == quote)).length
  if 3 ≤ n then some (min n 5) else none

/-- a string over several lines, from after its opening mark. Escapes count if `escapes` -/
def multilineTail? (quote : Char) (escapes : Bool) :
    Nat → List Char → List Char → Option (List Char × List Char)
  | 0, _, _ => none
  | fuel + 1, done, text =>
    match closingQuotes? quote text with
    | some n => some (done.reverse ++ List.replicate (n - 3) quote, text.drop n)
    | none =>
      match text with
      | [] => none
      | c :: rest =>
        if escapes && c == '\\' then
          match afterContinuation? rest with
          | some rest => multilineTail? quote escapes fuel done rest
          | none => (escape? rest).bind fun (c, rest) => multilineTail? quote escapes fuel (c :: done) rest
        else
          match afterLineEnd? text with
          | some rest => multilineTail? quote escapes fuel ('\n' :: done) rest
          | none => if isPlain c then multilineTail? quote escapes fuel (c :: done) rest else none

/-- a line end right after the opening mark is no part of the string -/
def skipFirstLineEnd (text : List Char) : List Char := (afterLineEnd? text).getD text

def string? (text : List Char) : Option (List Char × List Char) :=
  match text with
  | '\x22' :: '\x22' :: '\x22' :: rest =>
    multilineTail? '\x22' true (text.length + 1) [] (skipFirstLineEnd rest)
  | '\x27' :: '\x27' :: '\x27' :: rest =>
    multilineTail? '\x27' false (text.length + 1) [] (skipFirstLineEnd rest)
  | '\x22' :: rest => basicTail? (text.length + 1) [] rest
  | '\x27' :: rest => literalTail? rest
  | _ => none

def isBareKey (c : Char) : Bool := c.isAlphanum || c == '_' || c == '-'

def simpleKey? (text : List Char) : Option (List Char × List Char) :=
  match text with
  | '\x22' :: rest => basicTail? (text.length + 1) [] rest
  | '\x27' :: rest => literalTail? rest
  | _ =>
    let key := text.takeWhile isBareKey
    if key.isEmpty then none else some (key, text.drop key.length)

/-- keys with points between them -/
def dottedKey? : Nat → List Char → Option (List (List Char) × List Char)
  | 0, _ => none
  | fuel + 1, text => do
    let (key, rest) ← simpleKey? (skipSpaces text)
    match skipSpaces rest with
    | '.' :: rest =>
      let (keys, rest) ← dottedKey? fuel rest
      return (key :: keys, rest)
    | rest => return ([key], rest)

/-! ## Numbers and dates -/

/-- underscores stand alone and between digits -/
def underscoresFit (isDigit : Char → Bool) : List Char → Bool
  | [] => false
  | [c] => isDigit c
  | c :: '_' :: rest => isDigit c && underscoresFit isDigit rest
  | c :: rest => isDigit c && underscoresFit isDigit rest

/-- digits with single underscores between them; none if there is no digit -/
def digits? (isDigit : Char → Bool) (text : List Char) : Option (List Char × List Char) :=
  let run := text.takeWhile fun c => isDigit c || c == '_'
  if underscoresFit isDigit run then some (run.filter isDigit, text.drop run.length) else none

def numeral (base : Nat) (digits : List Char) : Nat :=
  digits.foldl (fun value c => base * value + (hexValue? c).getD 0) 0

/-- a number of 64 bits with a sign -/
def int64? (n : Int) : Option Value := if Int64.minValue.toInt ≤ n && n ≤ Int64.maxValue.toInt then some (.int n) else none

/-- a number with a base: `0x`, `0o` or `0b` and digits -/
def basedInteger? (text : List Char) : Option (Value × List Char) :=
  let read (base : Nat) (isDigit : Char → Bool) (rest : List Char) : Option (Value × List Char) := do
    let (digits, rest) ← digits? isDigit rest
    return (← int64? (numeral base digits), rest)
  match text with
  | '0' :: 'x' :: rest => read 16 (fun c => (hexValue? c).isSome) rest
  | '0' :: 'o' :: rest => read 8 (fun c => '0' ≤ c && c ≤ '7') rest
  | '0' :: 'b' :: rest => read 2 (fun c => c == '0' || c == '1') rest
  | _ => none

/-- decimal digits without a leading zero -/
def decimal? : List Char → Option (List Char × List Char)
  | '0' :: rest => some (['0'], rest)
  | text => digits? Char.isDigit text

def sign : List Char → Int × List Char
  | '-' :: rest => (-1, rest)
  | '+' :: rest => (1, rest)
  | text => (1, text)

/-- the part of a float after its whole number: a fraction, an exponent, or both -/
def floatTail? (text : List Char) : Option (List Char) :=
  let exponent? (text : List Char) : Option (List Char) :=
    match text with
    | e :: rest =>
      if e == 'e' || e == 'E' then (digits? Char.isDigit (sign rest).2).map (·.2) else none
    | [] => none
  match text with
  | '.' :: rest => do
    let (_, rest) ← digits? Char.isDigit rest
    return (exponent? rest).getD rest
  | _ => exponent? text

/-- a decimal number: an integer or a float -/
def decimalNumber? (text : List Char) : Option (Value × List Char) := do
  let (sign, text) := sign text
  match text with
  | 'i' :: 'n' :: 'f' :: rest => return (.other, rest)
  | 'n' :: 'a' :: 'n' :: rest => return (.other, rest)
  | _ =>
    let (digits, rest) ← decimal? text
    match floatTail? rest with
    | some rest => return (.other, rest)
    | none => return (← int64? (sign * numeral 10 digits), rest)

/-- a number of exactly `n` digits -/
def fixedDigits? (n : Nat) (text : List Char) : Option (Nat × List Char) :=
  let digits := text.take n
  if digits.length = n && digits.all Char.isDigit then some (numeral 10 digits, text.drop n) else none

def char? (c : Char) : List Char → Option (List Char)
  | d :: rest => if c == d then some rest else none
  | [] => none

def daysInMonth (year month : Nat) : Nat :=
  if month = 2 then if year % 4 = 0 && (year % 100 != 0 || year % 400 = 0) then 29 else 28
  else if [4, 6, 9, 11].contains month then 30 else 31

def date? (text : List Char) : Option (List Char) := do
  let (year, text) ← fixedDigits? 4 text
  let (month, text) ← fixedDigits? 2 (← char? '-' text)
  let (day, text) ← fixedDigits? 2 (← char? '-' text)
  guard (1 ≤ month && month ≤ 12 && 1 ≤ day && day ≤ daysInMonth year month)
  return text

def time? (text : List Char) : Option (List Char) := do
  let (hour, text) ← fixedDigits? 2 text
  let (minute, text) ← fixedDigits? 2 (← char? ':' text)
  let (second, text) ← fixedDigits? 2 (← char? ':' text)
  guard (hour < 24 && minute < 60 && second ≤ 60)
  match text with
  | '.' :: c :: rest => if c.isDigit then return rest.dropWhile Char.isDigit else return text
  | _ => return text

/-- the distance of a time from the meridian -/
def offset? (text : List Char) : Option (List Char) :=
  match text with
  | 'Z' :: rest | 'z' :: rest => some rest
  | '+' :: rest | '-' :: rest => do
    let (hour, text) ← fixedDigits? 2 rest
    let (minute, text) ← fixedDigits? 2 (← char? ':' text)
    guard (hour < 24 && minute < 60)
    return text
  | _ => none

/-- a date, a time, or both -/
def dateTime? (text : List Char) : Option (Value × List Char) :=
  match date? text with
  | some rest =>
    match rest with
    | c :: rest' =>
      if c == 'T' || c == 't' || c == ' ' then
        match time? rest' with
        | some rest => some (.other, (offset? rest).getD rest)
        | none => some (.other, rest)
      else some (.other, rest)
    | [] => some (.other, [])
  | none => (time? text).map fun rest => (.other, rest)

def number? (text : List Char) : Option (Value × List Char) :=
  (dateTime? text).orElse fun _ =>
    match text with
    | '0' :: 'x' :: _ | '0' :: 'o' :: _ | '0' :: 'b' :: _ => basedInteger? text
    | _ => decimalNumber? text

/-! ## Tables -/

/-- what a key of a table stands for -/
inductive Item where
  | value (value : Value)
  /-- `implicit` if no header opened it, `dotted` if dotted keys made it -/
  | table (implicit dotted : Bool) (entries : List (List Char × Item))
  /-- the tables of `[[name]]` headers, newest first -/
  | tables (newest : List (List Char × Item)) (older : List Item)

abbrev Entries := List (List Char × Item)

def Entries.get? (entries : Entries) (key : List Char) : Option Item := (entries.find? (·.1 == key)).map (·.2)

/-- the entries with the item of a key replaced or added -/
def Entries.set (entries : Entries) (key : List Char) (item : Item) : Entries :=
  if entries.any (·.1 == key) then entries.map fun (k, old) => if k == key then (k, item) else (k, old)
  else entries ++ [(key, item)]

/-- changes the table at a path, making the tables on the way. Dotted keys do not enter tables that a header opened -/
def descend (dotted : Bool) (change : Bool → Entries → Option Entries) :
    List (List Char) → Bool → Entries → Option Entries
  | [], isDotted, entries => change isDotted entries
  | key :: keys, _, entries => do
    let item ← match entries.get? key with
      | none => (descend dotted change keys dotted []).map (.table true dotted)
      | some (.value _) => none
      | some (.table implicit isDotted inner) =>
        if dotted && !implicit then none
        else (descend dotted change keys isDotted inner).map (.table implicit isDotted)
      | some (.tables newest older) => (descend dotted change keys false newest).map (.tables · older)
    return entries.set key item

/-- adds `keys = value` to a table. A table that dotted keys made takes dotted keys only -/
def assign? (entries : Entries) (keys : List (List Char)) (value : Value) : Option Entries := do
  let key ← keys.getLast?
  let path := keys.dropLast
  let add (isDotted : Bool) (inner : Entries) : Option Entries :=
    if isDotted == path.isEmpty || (inner.get? key).isSome then none else some (inner ++ [(key, .value value)])
  descend true add path false entries

/-! ## Values -/

/-- `key = value`, with the rule for values given -/
def entryBy? (value? : List Char → Option (Value × List Char)) (text : List Char) :
    Option (List (List Char) × Value × List Char) := do
  let (keys, rest) ← dottedKey? (text.length + 1) text
  let rest ← char? '=' rest
  let (value, rest) ← value? (skipSpaces rest)
  return (keys, value, rest)

/-- the items of an array up to its closing bracket, newest first -/
def arrayTail? (value? : List Char → Option (Value × List Char)) :
    Nat → List Value → List Char → Option (List Value × List Char)
  | 0, _, _ => none
  | fuel + 1, done, text =>
    match skipLines (text.length + 1) text with
    | ']' :: rest => some (done.reverse, rest)
    | text => do
      let (value, rest) ← value? text
      match skipLines (rest.length + 1) rest with
      | ',' :: rest => arrayTail? value? fuel (value :: done) rest
      | ']' :: rest => some ((value :: done).reverse, rest)
      | _ => none

/-- the entries of a table in braces, which stands on one line -/
def inlineTail? (value? : List Char → Option (Value × List Char)) :
    Nat → Entries → List Char → Option (List Char)
  | 0, _, _ => none
  | fuel + 1, done, text => do
    let (keys, value, rest) ← entryBy? value? text
    let done ← assign? done keys value
    match skipSpaces rest with
    | ',' :: rest => inlineTail? value? fuel done rest
    | '\x7d' :: rest => return rest
    | _ => none

/-- a value nested at most `depth` deep -/
def value? : Nat → List Char → Option (Value × List Char)
  | 0, _ => none
  | depth + 1, text =>
    match text with
    | [] => none
    | '[' :: rest =>
      (arrayTail? (value? depth) (rest.length + 1) [] rest).map fun (items, rest) => (.array items, rest)
    | '\x7b' :: rest =>
      match skipSpaces rest with
      | '\x7d' :: rest => some (.other, rest)
      | rest => (inlineTail? (value? depth) (rest.length + 1) [] rest).map fun rest => (.other, rest)
    | 't' :: 'r' :: 'u' :: 'e' :: rest => some (.bool true, rest)
    | 'f' :: 'a' :: 'l' :: 's' :: 'e' :: rest => some (.bool false, rest)
    | c :: _ =>
      if c == '\x22' || c == '\x27' then (string? text).map fun (s, rest) => (.string s, rest) else number? text

/-! ## Files -/

/-- the section that is being read: its path, whether it is one of several of that name, and its entries -/
structure Section where
  path : List (List Char) := []
  isArray : Bool := false
  entries : Entries := []

/-- the table of the file with a finished section put in -/
def Section.close? (s : Section) (root : Entries) : Option Entries :=
  match s.path.getLast? with
  | none => some s.entries
  | some key =>
    let put (_ : Bool) (parent : Entries) : Option Entries :=
      match parent.get? key with
      | none => some (parent.set key (if s.isArray then .tables s.entries [] else .table false false s.entries))
      | some (.tables newest older) =>
        if s.isArray then some (parent.set key (.tables s.entries (.table false false newest :: older))) else none
      | some (.table true _ _) => if s.isArray then none else some (parent.set key (.table false false s.entries))
      | some _ => none
    descend false put s.path.dropLast false root

/-- the entries of the table at a path; there are none if it is not made yet -/
def entriesAt? : Entries → List (List Char) → Option Entries
  | entries, [] => some entries
  | entries, key :: keys =>
    match entries.get? key with
    | none => some []
    | some (.value _) => none
    | some (.table _ _ inner) => entriesAt? inner keys
    | some (.tables newest _) => entriesAt? newest keys

/-- opens a section. A table that is there already may only have come from the headers of tables inside it -/
def Section.open? (root : Entries) (path : List (List Char)) (isArray : Bool) : Option Section := do
  let key ← path.getLast?
  let parent ← entriesAt? root path.dropLast
  match parent.get? key, isArray with
  | none, _ => return ⟨path, isArray, []⟩
  | some (.tables ..), true => return ⟨path, true, []⟩
  | some (.table true false entries), false => return ⟨path, false, entries⟩
  | _, _ => none

/-- a header from after its opening bracket: its path and whether it names one of several tables -/
def header? (text : List Char) : Option (List (List Char) × Bool × List Char) :=
  match text with
  | '[' :: rest => do
    let (keys, rest) ← dottedKey? (rest.length + 1) rest
    return (keys, true, ← char? ']' (← char? ']' rest))
  | _ => do
    let (keys, rest) ← dottedKey? (text.length + 1) text
    return (keys, false, ← char? ']' rest)

/-- reads the lines of a file into its table -/
def lines? : Nat → Entries → Section → List Char → Option Entries
  | 0, _, _, _ => none
  | fuel + 1, root, current, text =>
    match skipSpaces text with
    | [] => current.close? root
    | '[' :: rest => do
      let root ← current.close? root
      let (path, isArray, rest) ← header? rest
      lines? fuel root (← Section.open? root path isArray) (← afterLine? rest)
    | c :: rest =>
      if c == '#' || c == '\n' || c == '\r' then (afterLine? (c :: rest)).bind (lines? fuel root current)
      else do
        let (keys, value, rest) ← entryBy? (value? (text.length + 1)) (c :: rest)
        lines? fuel root { current with entries := ← assign? current.entries keys value } (← afterLine? rest)

/-- the configuration that a file holds -/
def parse? (text : List Char) : Option Value := do
  let text := match text with
    | '\ufeff' :: rest => rest
    | _ => text
  let entries ← lines? (text.length + 1) [] {} text
  return .table (entries.map fun (key, item) => (key, match item with
    | .value value => value
    | _ => .other))

end LpcStyle.Config.Toml

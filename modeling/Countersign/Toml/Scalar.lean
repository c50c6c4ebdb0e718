import Countersign.Json.Tree
import Countersign.Text.Digits

/-!
# Scalars of settings text

Strings, numbers, truth values and dates in TOML. A string stands between one quote or three of a
kind. Everything else is the longest run of its characters, judged as a whole; only a date and the
time behind it may be two such runs with a space between them. Settings have no use for fractions
and dates, so these have no value of their own.
-/
namespace Countersign.Toml

open Json (Tree Number)

def isBlank (c : Char) : Bool :=
  c == ' ' || c == '\t'

def skipBlank (input : List Char) : List Char :=
  input.dropWhile isBlank

def lineEnd? : List Char → Option (List Char)
  | '\n' :: rest => some rest
  | '\r' :: '\n' :: rest => some rest
  | _ => none

/-- A character that may stand in comments and strings: the tab, and all that are no controls of
ASCII. -/
def isPlain (c : Char) : Bool :=
  c == '\t' || (' ' ≤ c && c != '\x7f')

/-! ### Strings -/

def codePoint? (count : Nat) (input : List Char) : Option (Char × List Char) := do
  let ds := input.take count
  let n ← (Digits.continued 16 (16 ^ count) 0 ds).toOption
  if ds.length = count ∧ n.isValidChar then some (Char.ofNat n, input.drop count) else none

def escape? : List Char → Option (Char × List Char)
  | 'b' :: rest => some ('\x08', rest)
  | 't' :: rest => some ('\t', rest)
  | 'n' :: rest => some ('\n', rest)
  | 'f' :: rest => some ('\x0c', rest)
  | 'r' :: rest => some ('\r', rest)
  | '"' :: rest => some ('"', rest)
  | '\\' :: rest => some ('\\', rest)
  | 'u' :: rest => codePoint? 4 rest
  | 'U' :: rest => codePoint? 8 rest
  | _ => none

/-- Continues a string of one line up to its quote. Only double quotes know escapes; `before` is
what has been read, last first. -/
def short (quote : Char) : Nat → List Char → List Char → Option (String × List Char)
  | 0, _, _ => none
  | _ + 1, _, [] => none
  | fuel + 1, before, c :: rest =>
    if c = quote then some (String.ofList before.reverse, rest)
    else if c = '\\' ∧ quote = '"' then
      match escape? rest with
      | some (e, rest) => short quote fuel (e :: before) rest
      | none => none
    else if isPlain c then short quote fuel (c :: before) rest
    else none

def skipEmpty : List Char → List Char
  | ' ' :: rest => skipEmpty rest
  | '\t' :: rest => skipEmpty rest
  | '\n' :: rest => skipEmpty rest
  | '\r' :: '\n' :: rest => skipEmpty rest
  | rest => rest

/-- The text behind a line end and all blanks and line ends that follow it. -/
def behindFold? (input : List Char) : Option (List Char) :=
  (lineEnd? (skipBlank input)).map skipEmpty

/-- Ends a long string at three quotes. Up to two more quotes right behind belong to the text. -/
def closed (quote : Char) (before : List Char) (rest : List Char) : String × List Char :=
  let extra := (rest.take 2).takeWhile (· == quote)
  (String.ofList (before.reverse ++ extra), rest.drop extra.length)

/-- Continues a string of several lines. Every line end reads as a line feed; a backslash at the end
of a line takes the blanks and line ends behind it away. -/
def long (quote : Char) : Nat → List Char → List Char → Option (String × List Char)
  | 0, _, _ => none
  | fuel + 1, before, input =>
    match input with
    | [] => none
    | c :: rest =>
      if [quote, quote, quote].isPrefixOf input then some (closed quote before (input.drop 3))
      else if c = '\\' ∧ quote = '"' then
        match behindFold? rest, escape? rest with
        | some rest, _ => long quote fuel before rest
        | none, some (e, rest) => long quote fuel (e :: before) rest
        | none, none => none
      else
        match lineEnd? input with
        | some rest => long quote fuel ('\n' :: before) rest
        | none => if isPlain c then long quote fuel (c :: before) rest else none

/-- Reads a string behind its first quote. A line end right behind three quotes is dropped. Each
character takes a step, so the length is fuel enough. -/
def string? (quote : Char) (input : List Char) : Option (String × List Char) :=
  if [quote, quote].isPrefixOf input then
    let input := input.drop 2
    let input := (lineEnd? input).getD input
    long quote (input.length + 1) [] input
  else short quote (input.length + 1) [] input

/-! ### Integers -/

/-- Digits with single underscores between them, which are left out. -/
def grouped? (isDigit : Char → Bool) : List Char → Option (List Char)
  | [] => none
  | [c] => if isDigit c then some [c] else none
  | c :: '_' :: rest => if isDigit c then (grouped? isDigit rest).map (c :: ·) else none
  | c :: rest => if isDigit c then (grouped? isDigit rest).map (c :: ·) else none

/-- Decimal digits without a leading zero. -/
def whole? (cs : List Char) : Option (List Char) :=
  (grouped? Char.isDigit cs).filter fun ds => ds.length == 1 || ds.head? != some '0'

/-- The number of digits in a base, if it lies below `limit`. -/
def numberOf? (base limit : Nat) (ds : List Char) : Option Nat :=
  (Digits.continued base limit 0 ds).toOption

/-- Grouped digits of a base other than ten. -/
def based? (base : Nat) (cs : List Char) : Option Number := do
  let ds ← grouped? (fun c => (Digits.valueIn? base c).isSome) cs
  let n ← numberOf? base (2 ^ (63 : Nat)) ds
  return .natural n

/-- An integer that fits sixty-four bits with a sign. -/
def integer? : List Char → Option Number
  | '0' :: 'x' :: cs => based? 16 cs
  | '0' :: 'o' :: cs => based? 8 cs
  | '0' :: 'b' :: cs => based? 2 cs
  | '-' :: cs => do
    let ds ← whole? cs
    let n ← numberOf? 10 (2 ^ (63 : Nat) + 1) ds
    return if n = 0 then .natural 0 else .negative n
  | '+' :: cs => positive cs
  | cs => positive cs
where
  /-- An integer without a sign. -/
  positive (cs : List Char) : Option Number := do
    let ds ← whole? cs
    let n ← numberOf? 10 (2 ^ (63 : Nat)) ds
    return .natural n

/-! ### Fractions -/

/-- The least number that is rounded to no double any more. -/
def beyondDoubles : Nat :=
  2 ^ (1024 : Nat) - 2 ^ (970 : Nat)

/-- Digits scaled by a power of ten are beyond the doubles. The count of digits in front of the
point decides unless it is the one of the limit. -/
def isHuge (ds : List Char) (exponent : Int) : Bool :=
  let ds := ds.dropWhile (· == '0')
  let n := ds.foldl (fun n c => 10 * n + (c.toNat - 48)) 0
  let size : Int := ds.length + exponent
  if n = 0 ∨ size < 309 then false
  else if 309 < size then true
  else if 0 ≤ exponent then beyondDoubles ≤ n * 10 ^ exponent.toNat
  else beyondDoubles * 10 ^ exponent.natAbs ≤ n

def exponent? : List Char → Option Int
  | '-' :: cs => (digits cs).map fun n => -(n : Int)
  | '+' :: cs => (digits cs).map fun n => (n : Int)
  | cs => (digits cs).map fun n => (n : Int)
where
  /-- Digits among which zeros may lead. -/
  digits (cs : List Char) : Option Nat :=
    (grouped? Char.isDigit cs).map fun ds => ds.foldl (fun n c => 10 * n + (c.toNat - 48)) 0

def isDigitOrLine (c : Char) : Bool :=
  c.isDigit || c == '_'

/-- The digits of a fraction without its sign, and the power of ten that scales them. -/
def fraction? (cs : List Char) : Option (List Char × Int) := do
  let whole ← whole? (cs.takeWhile isDigitOrLine)
  match cs.dropWhile isDigitOrLine with
  | '.' :: rest =>
    let behind ← grouped? Char.isDigit (rest.takeWhile isDigitOrLine)
    let point : Int := -(behind.length : Int)
    match rest.dropWhile isDigitOrLine with
    | [] => return (whole ++ behind, point)
    | c :: rest =>
      if c = 'e' ∨ c = 'E' then return (whole ++ behind, point + (← exponent? rest)) else none
  | c :: rest => if c = 'e' ∨ c = 'E' then return (whole, ← exponent? rest) else none
  | [] => none

/-- A fraction without its sign, or one of the two names for no number. A fraction that is positive
must not lie beyond the doubles. -/
def isUnsignedFloat (minus : Bool) (cs : List Char) : Bool :=
  if cs = ['i', 'n', 'f'] ∨ cs = ['n', 'a', 'n'] then true
  else
    match fraction? cs with
    | some (ds, exponent) => minus || !isHuge ds exponent
    | none => false

def isFloat : List Char → Bool
  | '-' :: cs => isUnsignedFloat true cs
  | '+' :: cs => isUnsignedFloat false cs
  | cs => isUnsignedFloat false cs

/-! ### Dates -/

/-- So many digits whose number lies between two bounds, and the text behind them. -/
def part? (count low high : Nat) (cs : List Char) : Option (Nat × List Char) := do
  let ds := cs.take count
  let n ← numberOf? 10 (10 ^ count) ds
  if ds.length = count ∧ low ≤ n ∧ n ≤ high then some (n, cs.drop count) else none

def behind? (c : Char) : List Char → Option (List Char)
  | [] => none
  | d :: rest => if d = c then some rest else none

def isLeap (year : Nat) : Bool :=
  year % 4 == 0 && (year % 100 != 0 || year % 400 == 0)

def daysOf (year month : Nat) : Nat :=
  if month = 2 then if isLeap year then 29 else 28
  else if [4, 6, 9, 11].contains month then 30 else 31

def behindDate? (cs : List Char) : Option (List Char) := do
  let (year, cs) ← part? 4 0 9999 cs
  let cs ← behind? '-' cs
  let (month, cs) ← part? 2 1 12 cs
  let cs ← behind? '-' cs
  let (_, cs) ← part? 2 1 (daysOf year month) cs
  return cs

def behindTime? (cs : List Char) : Option (List Char) := do
  let (_, cs) ← part? 2 0 23 cs
  let cs ← behind? ':' cs
  let (_, cs) ← part? 2 0 59 cs
  let cs ← behind? ':' cs
  let (_, cs) ← part? 2 0 60 cs
  match cs with
  | '.' :: rest =>
    if (rest.head?.map Char.isDigit).getD false then some (rest.dropWhile Char.isDigit) else none
  | cs => some cs

/-- The distance of a time from the prime meridian. -/
def isOffset : List Char → Bool
  | [] => true
  | ['Z'] => true
  | ['z'] => true
  | c :: rest =>
    let behind := do
      let (_, cs) ← part? 2 0 23 rest
      let cs ← behind? ':' cs
      let (_, cs) ← part? 2 0 59 cs
      return cs
    (c == '+' || c == '-') && behind == some []

def isMoment (cs : List Char) : Bool :=
  match behindDate? cs with
  | some [] => true
  | some (c :: rest) =>
    if c = 'T' ∨ c = 't' ∨ c = ' ' then ((behindTime? rest).map isOffset).getD false else false
  | none => behindTime? cs == some []

/-! ### Words -/

/-- A character of a word: a letter or digit of ASCII, or a mark that numbers and dates use. -/
def isWordChar (c : Char) : Bool :=
  c.isAlphanum || ['+', '-', '.', '_', ':'].contains c

def meaning? (word : List Char) : Option Tree :=
  if word = ['t', 'r', 'u', 'e'] then some (.bool true)
  else if word = ['f', 'a', 'l', 's', 'e'] then some (.bool false)
  else if isMoment word ∨ isFloat word then some (.unreadable)
  else (integer? word).map .number

/-- Reads a scalar that is no string. A date takes a space and what follows it along if that begins
with a digit. -/
def scalar? (input : List Char) : Option (Tree × List Char) :=
  let word := input.takeWhile isWordChar
  let rest := input.drop word.length
  match rest with
  | ' ' :: c :: more =>
    if behindDate? word == some [] && c.isDigit then
      let time := (c :: more).takeWhile isWordChar
      if isMoment (word ++ ' ' :: time) then some (.unreadable, (c :: more).drop time.length)
      else none
    else (meaning? word).map (·, rest)
  | _ => (meaning? word).map (·, rest)

end Countersign.Toml

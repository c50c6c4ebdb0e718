import Countersign.Bytes
import Countersign.Json.Value
import Countersign.Text.Utf8

/-!
# Words, strings and numbers of JSON text

What stands in JSON text beside brackets, commas and colons: how it is written, and the value it
has. A string with half of a surrogate pair or with octets that are no UTF-8 has no value, and a
number beyond the doubles has none.
-/
namespace Countersign.Json

/-- A blank octet: space, tab, line feed or carriage return. -/
def isBlank (o : UInt8) : Bool :=
  o == 0x20 || o == 0x09 || o == 0x0A || o == 0x0D

def skipBlank (input : Bytes) : Bytes :=
  input.dropWhile isBlank

/-! ### Strings -/

/-- One item of a string: an octet of the text, or a code unit given as an escape. -/
inductive Piece where
  | octet (o : UInt8)
  | unit (u : Nat)

def hexValue? (o : UInt8) : Option Nat :=
  if 0x30 ≤ o ∧ o ≤ 0x39 then some (o.toNat - 0x30)
  else if 0x61 ≤ o ∧ o ≤ 0x66 then some (o.toNat - 0x57)
  else if 0x41 ≤ o ∧ o ≤ 0x46 then some (o.toNat - 0x37)
  else none

def unit? (a b c d : UInt8) : Option Nat := do
  return (((← hexValue? a) * 16 + (← hexValue? b)) * 16 + (← hexValue? c)) * 16 + (← hexValue? d)

def shortEscape? (o : UInt8) : Option UInt8 :=
  if o = 0x22 ∨ o = 0x5C ∨ o = 0x2F then some o
  else if o = 0x62 then some 0x08
  else if o = 0x66 then some 0x0C
  else if o = 0x6E then some 0x0A
  else if o = 0x72 then some 0x0D
  else if o = 0x74 then some 0x09
  else none

/-- Reads a string behind its opening quote: its items, and the text behind its closing quote. -/
def pieces? : Bytes → Option (List Piece × Bytes)
  | [] => none
  | 0x22 :: rest => some ([], rest)
  | 0x5C :: 0x75 :: a :: b :: c :: d :: rest => do
    let u ← unit? a b c d
    let (more, rest) ← pieces? rest
    return (.unit u :: more, rest)
  | 0x5C :: o :: rest => do
    let e ← shortEscape? o
    let (more, rest) ← pieces? rest
    return (.octet e :: more, rest)
  | o :: rest =>
    if o < 0x20 then none
    else do
      let (more, rest) ← pieces? rest
      return (.octet o :: more, rest)

/-- The octets that the items give. A code unit is a character by itself, or the first half of one
whose second half follows it. -/
def spelled? : List Piece → Option Bytes
  | [] => some []
  | .octet o :: rest => (spelled? rest).map (o :: ·)
  | .unit u :: rest =>
    if 0xD800 ≤ u ∧ u < 0xDC00 then
      match rest with
      | .unit v :: rest =>
        if 0xDC00 ≤ v ∧ v < 0xE000 then
          (spelled? rest).map (String.utf8EncodeChar
            (Char.ofNat (0x10000 + (u - 0xD800) * 0x400 + (v - 0xDC00))) ++ ·)
        else none
      | _ => none
    else if 0xDC00 ≤ u ∧ u < 0xE000 then none
    else (spelled? rest).map (String.utf8EncodeChar (Char.ofNat u) ++ ·)

def stringOf? (items : List Piece) : Option String :=
  (spelled? items).bind Utf8.decode?

/-! ### Numbers -/

def isDigit (o : UInt8) : Bool :=
  0x30 ≤ o && o ≤ 0x39

structure Literal where
  minus : Bool
  whole : List Nat
  /-- The digits behind the point, if there is one. -/
  fraction : Option (List Nat)
  /-- The sign and the digits of the exponent, if there is one. -/
  exponent : Option (Bool × List Nat)

def digitsOf (input : Bytes) : List Nat × Bytes :=
  ((input.takeWhile isDigit).map fun o => o.toNat - 0x30, input.dropWhile isDigit)

def fraction? : Bytes → Option (Option (List Nat) × Bytes)
  | 0x2E :: rest =>
    match digitsOf rest with
    | ([], _) => none
    | (ds, rest) => some (some ds, rest)
  | rest => some (none, rest)

def exponent? : Bytes → Option (Option (Bool × List Nat) × Bytes)
  | [] => some (none, [])
  | o :: rest =>
    if o = 0x65 ∨ o = 0x45 then
      let (minus, rest) := match rest with
        | 0x2B :: rest => (false, rest)
        | 0x2D :: rest => (true, rest)
        | rest => (false, rest)
      match digitsOf rest with
      | ([], _) => none
      | (ds, rest) => some (some (minus, ds), rest)
    else some (none, o :: rest)

/-- Reads a number as it is written; no digit may follow a leading zero. -/
def literal? (input : Bytes) : Option (Literal × Bytes) := do
  let (minus, input) := match input with
    | 0x2D :: rest => (true, rest)
    | rest => (false, rest)
  let (whole, input) ← match digitsOf input with
    | ([], _) => none
    | ([d], rest) => some ([d], rest)
    | (0 :: _, _) => none
    | (ds, rest) => some (ds, rest)
  let (fraction, input) ← fraction? input
  let (exponent, input) ← exponent? input
  return (⟨minus, whole, fraction, exponent⟩, input)

/-- Appends digits to a number as long as it stays below 2^64. Gives the number and how many digits
were left over. -/
def gathered : Nat → List Nat → Nat × Nat
  | n, [] => (n, 0)
  | n, d :: ds =>
    if 2 ^ (64 : Nat) ≤ 10 * n + d then (n, ds.length + 1) else gathered (10 * n + d) ds

/-- Exponents are counted up to this number; what reaches it is too large. -/
def exponentLimit : Nat := 2 ^ (31 : Nat)

def exponentStep (n d : Nat) : Nat :=
  min (10 * n + d) exponentLimit

def exponentOf (ds : List Nat) : Nat :=
  ds.foldl exponentStep 0

def tenTo (n : Nat) : Float :=
  Float.ofScientific 1 false n

/-- Scales a double by a power of ten in steps a double can hold, each of them rounded; `none` when
it leaves the doubles. -/
def scaled? (fuel : Nat) (x : Float) (exponent : Int) : Option Float :=
  if exponent.natAbs ≤ 308 then
    if 0 ≤ exponent then
      let y := x * tenTo exponent.toNat
      if y.isInf then none else some y
    else some (x / tenTo exponent.natAbs)
  else if x == 0.0 then some x
  else if 0 ≤ exponent then none
  else
    match fuel with
    | 0 => some 0.0
    | fuel + 1 => scaled? fuel (x / tenTo 308) (exponent + 308)

/-- The value of a written number: an integer if it is written as one and fits, otherwise a double.
At most the digits that fit sixty-four bits count; they are rounded to a double and then scaled. -/
def Literal.value? (l : Literal) : Option Number :=
  let signed (x : Float) : Number := .float (if l.minus then -x else x)
  let (n, left) := gathered 0 l.whole
  if l.fraction.isNone ∧ l.exponent.isNone ∧ left = 0 then
    if ¬l.minus then some (.natural n)
    else if n = 0 ∨ 2 ^ (63 : Nat) < n then some (signed n.toFloat)
    else some (.negative n)
  else
    let behind := l.fraction.getD []
    let (n, unread) := gathered n behind
    let point := (left : Int) - ((behind.length - unread : Nat) : Int)
    match l.exponent with
    | none => (scaled? 2 n.toFloat point).map signed
    | some (minus, ds) =>
      let e := exponentOf ds
      if exponentLimit ≤ e then
        if n ≠ 0 ∧ ¬minus then none else some (signed 0.0)
      else (scaled? 8 n.toFloat (if minus then point - e else point + e)).map signed

/-! ### Words -/

/-- The text behind a word, if it starts with it. -/
def behind? (word : List UInt8) (input : Bytes) : Option Bytes :=
  if word.isPrefixOf input then some (input.drop word.length) else none

end Countersign.Json

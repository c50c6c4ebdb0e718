import Countersign.Json.Token

/-!
# Where a reader stops

A reader that finds no value stops, and what it has passed by then is lost. A lone half of a
surrogate pair stops it in the middle of a string, an exponent too large to count in the middle of a
number.

A reader of numbers that meets a word or a string goes through it before it refuses it. If that
fails as well, it stops at the fault: behind a letter or an escape that is wrong, in front of a
digit or a bracket that is in the way.
-/
namespace Countersign.Json

/-- The first half of a surrogate pair. -/
def isLeading (u : Nat) : Bool :=
  0xD800 ≤ u && u < 0xDC00

/-- The second half of a surrogate pair. -/
def isTrailing (u : Nat) : Bool :=
  0xDC00 ≤ u && u < 0xE000

/-- The text behind a word, or behind its first wrong letter. -/
def stopInWord : List UInt8 → Bytes → Bytes
  | [], input => input
  | _ :: _, [] => []
  | l :: ls, o :: rest => if o = l then stopInWord ls rest else rest

mutual

/-- The text where the reader of a string stops, from behind the opening quote on. -/
def stopInString : Bytes → Bytes
  | [] => []
  | 0x22 :: rest => rest
  | 0x5C :: 0x75 :: a :: b :: c :: d :: rest =>
    match unit? a b c d with
    | none => rest
    | some u =>
      if isLeading u then stopInPair rest else if isTrailing u then rest else stopInString rest
  | 0x5C :: 0x75 :: _ => []
  | 0x5C :: o :: rest => if (shortEscape? o).isSome then stopInString rest else rest
  | o :: rest => if o < 0x20 then rest else stopInString rest

/-- The text where the reader of a string stops, from behind the first half of a pair on. -/
def stopInPair : Bytes → Bytes
  | 0x5C :: 0x75 :: a :: b :: c :: d :: rest =>
    match unit? a b c d with
    | none => rest
    | some u => if isTrailing u then stopInString rest else rest
  | 0x5C :: 0x75 :: _ => []
  | 0x5C :: _ :: rest => rest
  | _ :: rest => rest
  | [] => []

end

/-- The text behind the digits of an exponent, or behind the digit that makes it too large to count.
An exponent that leaves the number at zero has no limit. -/
def stopInExponentDigits (limited : Bool) (n : Nat) : Bytes → Bytes
  | [] => []
  | o :: rest =>
    if isDigit o then
      let m := exponentStep n (o.toNat - 0x30)
      if limited ∧ exponentLimit ≤ m then rest else stopInExponentDigits limited m rest
    else o :: rest

/-- The text where the reader of an exponent stops, from behind its mark on. -/
def stopInExponent (isZero : Bool) (input : Bytes) : Bytes :=
  let (minus, input) := match input with
    | 0x2B :: rest => (false, rest)
    | 0x2D :: rest => (true, rest)
    | rest => (false, rest)
  match input with
  | [] => []
  | o :: rest => if isDigit o then stopInExponentDigits (!isZero && !minus) 0 (o :: rest) else rest

/-- The text where the reader of a number stops, from behind its whole part on. -/
def stopBehindWhole (whole : List Nat) (input : Bytes) : Bytes :=
  let (behind, rest) := match input with
    | 0x2E :: rest => digitsOf rest
    | rest => ([0], rest)
  match rest with
  | [] => []
  | o :: more =>
    if behind.isEmpty then o :: more
    else if o = 0x65 ∨ o = 0x45 then stopInExponent ((whole ++ behind).all (· == 0)) more
    else o :: more

/-- The text where the reader of a number stops, from behind its sign on. -/
def stopInNumber (input : Bytes) : Bytes :=
  match digitsOf input with
  | ([], rest) => rest.drop 1
  | ([d], rest) => stopBehindWhole [d] rest
  | (0 :: _, _) => input.drop 1
  | (ds, rest) => stopBehindWhole ds rest

/-- The text where a reader of numbers stops. In front of anything but a number, a word or a string
it stops at once. -/
def stop : Bytes → Bytes
  | [] => []
  | 0x6E :: rest => stopInWord [0x75, 0x6C, 0x6C] rest
  | 0x74 :: rest => stopInWord [0x72, 0x75, 0x65] rest
  | 0x66 :: rest => stopInWord [0x61, 0x6C, 0x73, 0x65] rest
  | 0x22 :: rest => stopInString rest
  | 0x2D :: rest => stopInNumber rest
  | o :: rest => if isDigit o then stopInNumber (o :: rest) else o :: rest

/-- The text behind the closing bracket of an array, if a reader of numbers stops in front of it. -/
def behindBracket? (input : Bytes) : Option Bytes :=
  match skipBlank (stop (skipBlank input)) with
  | 0x5D :: rest => some rest
  | _ => none

end Countersign.Json

/-!
# Integers in text

Reading of unsigned integers in a base. A number has one digit at least, may start with zeros, and
may follow one plus sign. The digits are judged from left to right, so of two faults the one further
left is reported.
-/
namespace Countersign.Digits

inductive Fault where
  | empty
  | invalidDigit
  | tooLarge
  deriving DecidableEq, Repr

def Fault.message : Fault → String
  | .empty => "cannot parse integer from empty string"
  | .invalidDigit => "invalid digit found in string"
  | .tooLarge => "number too large to fit in target type"

def value? (c : Char) : Option Nat :=
  if '0' ≤ c ∧ c ≤ '9' then some (c.toNat - 48)
  else if 'a' ≤ c ∧ c ≤ 'z' then some (c.toNat - 87)
  else if 'A' ≤ c ∧ c ≤ 'Z' then some (c.toNat - 55)
  else none

def valueIn? (base : Nat) (c : Char) : Option Nat :=
  (value? c).filter (· < base)

/-- Continues a number with more digits; `limit` is the first number that does not fit. -/
def continued (base limit : Nat) : Nat → List Char → Except Fault Nat
  | n, [] => .ok n
  | n, c :: rest =>
    match valueIn? base c with
    | none => .error .invalidDigit
    | some d =>
      if limit ≤ base * n + d then .error .tooLarge else continued base limit (base * n + d) rest

def read (base limit : Nat) : List Char → Except Fault Nat
  | [] => .error .empty
  | ['+'] => .error .invalidDigit
  | '+' :: rest => continued base limit 0 rest
  | cs => continued base limit 0 cs

/-- Reads digits among which underscores are skipped; no digit at all is zero. -/
def readLoose? (base limit : Nat) (cs : List Char) : Option Nat :=
  (continued base limit 0 (cs.filter (· ≠ '_'))).toOption

def decimal (n : Nat) : String :=
  String.ofList (Nat.toDigits 10 n)

/-- The hexadecimal digits of a number after the mark `0x`. -/
def marked (n : Nat) : String :=
  String.ofList ('0' :: 'x' :: Nat.toDigits 16 n)

end Countersign.Digits

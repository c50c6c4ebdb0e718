import Countersign.Bytes
import Countersign.Text.Quoted
import Countersign.Text.Utf8

/-!
# Hexadecimal text

Two digits an octet. Writing uses small letters; reading takes both cases and names the first
octet of the text that is no digit.
-/
namespace Countersign.Hex

inductive Fault where
  | oddLength
  | badOctet (octet : UInt8) (position : Nat)
  deriving DecidableEq, Repr

/-- An octet that is no digit is shown as the character of its number. -/
def Fault.message : Fault → String
  | .oddLength => "Odd number of digits"
  | .badOctet o i =>
    "Invalid character " ++ Text.quotedLetter (Char.ofNat o.toNat) ++ " at position " ++ Nat.repr i

def digit (n : Nat) : Char :=
  if n < 10 then Char.ofNat (48 + n) else Char.ofNat (87 + n)

def digits (b : Bytes) : List Char :=
  b.flatMap fun o => [digit (o.toNat / 16), digit (o.toNat % 16)]

def encode (b : Bytes) : String :=
  String.ofList (digits b)

def encodeMarked (b : Bytes) : String :=
  String.ofList ('0' :: 'x' :: digits b)

def value? (o : UInt8) : Option Nat :=
  if 48 ≤ o ∧ o ≤ 57 then some (o.toNat - 48)
  else if 97 ≤ o ∧ o ≤ 102 then some (o.toNat - 87)
  else if 65 ≤ o ∧ o ≤ 70 then some (o.toNat - 55)
  else none

def pairs (position : Nat) : Bytes → Except Fault Bytes
  | a :: b :: rest =>
    match value? a, value? b with
    | none, _ => .error (.badOctet a position)
    | _, none => .error (.badOctet b (position + 1))
    | some x, some y =>
      match pairs (position + 2) rest with
      | .error e => .error e
      | .ok bytes => .ok (UInt8.ofNat (16 * x + y) :: bytes)
  | [a] => .error (.badOctet a position)
  | [] => .ok []

/-- Reads the octets of a text; an odd number of them is refused before anything else. -/
def decodeOctets (text : Bytes) : Except Fault Bytes :=
  if text.length % 2 = 1 then .error .oddLength else pairs 0 text

/-- A text without one leading mark `0x`. -/
def unmarked (text : String) : List Char :=
  match text.toList with
  | '0' :: 'x' :: rest => rest
  | cs => cs

def decode (text : String) : Except Fault Bytes :=
  decodeOctets ((unmarked text).flatMap String.utf8EncodeChar)

end Countersign.Hex

import Countersign.Json.Decoder
import Countersign.Text.Digits
import Countersign.Text.Hex

/-!
# Quantities and byte strings in JSON

How numbers of a fixed width and byte strings stand in JSON: small numbers as integer literals, wide
ones as marked hexadecimal text, byte strings as marked hexadecimal text. Reading takes more forms
than writing gives.
-/
namespace Countersign.Json

def Decoder.word (bits : Nat) : Decoder (Word bits) :=
  fun t => do
    let n ← Decoder.natural (2 ^ bits) t
    ofOption (Word.ofNat? bits n)

/-- The base that the first two characters of a text name, and the digits. -/
def baseOf : List Char → Nat × List Char
  | '0' :: 'x' :: ds => (16, ds)
  | '0' :: 'X' :: ds => (16, ds)
  | '0' :: 'o' :: ds => (8, ds)
  | '0' :: 'O' :: ds => (8, ds)
  | '0' :: 'b' :: ds => (2, ds)
  | '0' :: 'B' :: ds => (2, ds)
  | ds => (10, ds)

/-- A wide number as an integer literal, or as text in one of four bases with underscores
anywhere. -/
def Decoder.quantity : Decoder (Word 256)
  | .number (.natural n) => ofOption (Word.ofNat? 256 n)
  | .string s =>
    let (base, ds) := baseOf s.toList
    ofOption ((Digits.readLoose? base (2 ^ (256 : Nat)) ds).bind (Word.ofNat? 256))
  | _ => .error .invalid

def ofQuantity (n : Word 256) : Json :=
  .string (Digits.marked n.val)

/-- Hexadecimal text whose mark, if there is one, is in either case. -/
def hexOf? (text : String) : Option Bytes :=
  match text.toList with
  | '0' :: 'X' :: rest => (Hex.decodeOctets (rest.flatMap String.utf8EncodeChar)).toOption
  | _ => (Hex.decode text).toOption

/-- A byte string as hexadecimal text, or as an array of octets. -/
def Decoder.bytes : Decoder Bytes
  | .string s => ofOption (hexOf? s)
  | t => (Decoder.list (Decoder.natural 256) t).map fun ns => ns.map UInt8.ofNat

/-- Behind the last octet of a byte string of known length one item is passed over, if it is no
octet. -/
def isPassedOver : Tree → Bool
  | .unreadable => false
  | .malformed => false
  | t => !t.isOctet

/-- An array without the item that is passed over behind its first `n`. -/
def withoutSurplus (n : Nat) : Tree → Tree
  | .array items =>
    match items.drop n with
    | [t] => .array (if isPassedOver t then items.take n else items)
    | _ => .array items
  | t => t

def Decoder.octets (n : Nat) : Decoder (Octets n) :=
  fun t => do
    let b ← Decoder.bytes (withoutSurplus n t)
    ofOption (Octets.ofBytes? n b)

def ofBytes (b : Bytes) : Json :=
  .string (Hex.encodeMarked b)

end Countersign.Json

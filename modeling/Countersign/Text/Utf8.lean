import Countersign.Bytes

/-!
# UTF-8

Text to octets and back. The reader is a machine that takes one octet at a time and owes the
octets that complete an open character; an octet it cannot take ends the open character as a fault
and is read again as the first of a new one.
-/
namespace Countersign.Utf8

def encode (text : String) : Bytes :=
  text.toList.flatMap String.utf8EncodeChar

/-- A character that has begun: what its octets spell so far, how many octets it still owes, and
the bounds of the next one. -/
structure Begun where
  value : Nat
  owed : Nat
  low : UInt8
  high : UInt8

inductive Step where
  | finished (c : Char)
  | begun (b : Begun)
  | fault

/-- The first octet of a character. The bounds keep out long forms, surrogates and code points
above the last one. -/
def first (o : UInt8) : Step :=
  if o < 0x80 then .finished (Char.ofNat o.toNat)
  else if o < 0xC2 then .fault
  else if o < 0xE0 then .begun ⟨o.toNat - 0xC0, 1, 0x80, 0xBF⟩
  else if o < 0xF0 then
    .begun ⟨o.toNat - 0xE0, 2, if o = 0xE0 then 0xA0 else 0x80, if o = 0xED then 0x9F else 0xBF⟩
  else if o < 0xF5 then
    .begun ⟨o.toNat - 0xF0, 3, if o = 0xF0 then 0x90 else 0x80, if o = 0xF4 then 0x8F else 0xBF⟩
  else .fault

def next (b : Begun) (o : UInt8) : Step :=
  if o < b.low ∨ b.high < o then .fault
  else
    let value := b.value * 64 + (o.toNat - 0x80)
    if b.owed ≤ 1 then .finished (Char.ofNat value) else .begun ⟨value, b.owed - 1, 0x80, 0xBF⟩

/-- The reader between two octets: the character it is in, and what it has read, last first. A
fault is recorded as `none`. -/
structure State where
  begun : Option Begun
  read : List (Option Char)

def State.record (read : List (Option Char)) : Step → State
  | .finished c => ⟨none, some c :: read⟩
  | .begun b => ⟨some b, read⟩
  | .fault => ⟨none, none :: read⟩

def State.take (s : State) (o : UInt8) : State :=
  match s.begun with
  | none => .record s.read (first o)
  | some b =>
    match next b o with
    | .fault => .record (none :: s.read) (first o)
    | step => .record s.read step

/-- What the reader has read when the octets end; an open character is a fault. -/
def State.done (s : State) : List (Option Char) :=
  match s.begun with
  | none => s.read.reverse
  | some _ => (none :: s.read).reverse

/-- The characters of a byte string, with `none` for each longest part that begins no character. -/
def scan (b : Bytes) : List (Option Char) :=
  (b.foldl State.take ⟨none, []⟩).done

def decode? (b : Bytes) : Option String :=
  let read := scan b
  if read.all Option.isSome then some (String.ofList (read.filterMap id)) else none

/-- The text of a byte string, with U+FFFD in place of each fault. -/
def decodeLossy (b : Bytes) : String :=
  String.ofList ((scan b).map fun c => c.getD '\uFFFD')

end Countersign.Utf8

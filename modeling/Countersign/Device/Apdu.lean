import Countersign.Bytes
import Countersign.Error

/-!
# Commands and answers of a device

A command has a class, an instruction, two parameters and at most 255 octets of data. An answer is
data with a status word of two octets behind it.
-/
namespace Countersign

structure Apdu where
  cla : UInt8
  ins : UInt8
  p1 : UInt8
  p2 : UInt8
  data : Bytes
  deriving DecidableEq, Repr

namespace Apdu

def maxData : Nat := 255

/-- The octet that gives the length of the data; it does not grow above 255. -/
def lc (a : Apdu) : UInt8 :=
  if a.data.length ≤ maxData then UInt8.ofNat a.data.length else 255

/-- The octets of a command. The length is written even if there is no data. -/
def toBytes (a : Apdu) : Bytes :=
  [a.cla, a.ins, a.p1, a.p2, a.lc] ++ a.data

end Apdu

structure Answer where
  data : Bytes
  status : Nat
  deriving DecidableEq, Repr

def statusMessage (status : Nat) : String :=
  match status with
  | 0x0001 => "U2F: Unknown"
  | 0x0002 => "U2F: Bad request"
  | 0x0003 => "U2F: Configuration unsupported"
  | 0x0004 => "U2F: Device Ineligible"
  | 0x0005 => "U2F: Timeout"
  | 0x000E => "Timeout"
  | 0x9000 => "No errors"
  | 0x9001 => "Device is busy"
  | 0x5515 => "Device is locked"
  | 0x6400 => "Execution Error"
  | 0x6511 => "App does not seem to be open"
  | 0x6E00 => "App does not seem to be open"
  | 0x6E01 => "App does not seem to be open"
  | 0x6700 => "Wrong Length"
  | 0x6982 => "Empty Buffer"
  | 0x6983 => "Output buffer too small"
  | 0x6984 => "Data is invalid"
  | 0x6985 => "Conditions not satisfied"
  | 0x6986 => "Transaction rejected"
  | 0x6A80 => "Bad key handle"
  | 0x6B00 => "Invalid P1/P2"
  | 0x6D00 => "Instruction not supported"
  | 0x6F00 => "Unknown error"
  | 0x6F01 => "Sign/verify error"
  | _ => "Unknown Status Code"

namespace Answer

/-- Splits the octets of an answer, of which there must be two at least. -/
def ofBytes (b : Bytes) : Except Error Answer :=
  if b.length < 2 then
    .error (.malformedResponse (Digits.decimal b.length ++ " byte reply has no status word"))
  else .ok ⟨b.take (b.length - 2), Bytes.toNat (b.drop (b.length - 2))⟩

def isSuccess (a : Answer) : Bool :=
  a.status == 0x9000

/-- The error of a status word. A locked device and a refusal by the user have errors of their
own. -/
def toError (a : Answer) : Error :=
  if a.status = 0x5515 then .deviceLocked
  else if a.status = 0x6986 ∨ a.status = 0x6985 then .signRejected
  else .device a.status (statusMessage a.status)

def check (a : Answer) : Except Error Unit :=
  if a.isSuccess then .ok () else .error a.toError

end Answer

end Countersign

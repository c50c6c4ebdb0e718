import Countersign.Curve.Ecdsa
import Countersign.Error

/-!
# Signatures in DER

The Cosmos app answers with a sequence of two integers. Reading is lenient about the length of the
sequence and about what follows the integers; of an integer at most one leading zero octet is
dropped. The compact form that chains expect is low.
-/
namespace Countersign.DerSignature

inductive Fault where
  | noSequence
  | missing (name : String)
  | overrun (name : String)
  | tooWide (name : String)
  deriving DecidableEq, Repr

def Fault.message : Fault → String
  | .noSequence => "DER signature: not a SEQUENCE"
  | .missing name => "DER signature: missing " ++ name ++ " integer"
  | .overrun name => "DER signature: " ++ name ++ " overruns the buffer"
  | .tooWide name => "DER signature: " ++ name ++ " wider than 32 bytes"

/-- Reads one integer: its octets, and those behind it. -/
def integer (name : String) : Bytes → Except Fault (Bytes × Bytes)
  | 0x02 :: length :: rest =>
    if rest.length < length.toNat then .error (.overrun name)
    else .ok (rest.take length.toNat, rest.drop length.toNat)
  | _ => .error (.missing name)

/-- The octets of an integer in the width of a number of the curve. -/
def widened (name : String) (b : Bytes) : Except Fault Bytes :=
  let b := match b with
    | 0x00 :: rest => rest
    | b => b
  if 32 < b.length then .error (.tooWide name) else .ok (Bytes.padLeft 32 b)

def read : Bytes → Except Fault (Bytes × Bytes)
  | 0x30 :: _ :: body => do
    let (r, body) ← integer "r" body
    let (s, _) ← integer "s" body
    let r ← widened "r" r
    let s ← widened "s" s
    return (r, s)
  | _ => .error .noSequence

/-- Reads the two numbers as the program reports faults. -/
def parse (der : Bytes) : Except Error (Bytes × Bytes) :=
  match read der with
  | .ok parts => .ok parts
  | .error e => .error (.invalidSignature e.message)

def toCompact (der : Bytes) : Except Error Bytes := do
  let (r, s) ← parse der
  let c : Curve.EcdsaPair := ⟨Bytes.toNat r, Bytes.toNat s⟩
  if c.inRange then return c.lowered.bytes
  else .error (.invalidSignature "scalar out of range")

end Countersign.DerSignature

import Countersign.Curve.Encoding
import Countersign.Error
import Countersign.Hash.Keccak256
import Countersign.Text.Hex

/-!
# Account addresses

An address is the last twenty octets of the hash of a public key's coordinates. It is shown in
hexadecimal, either in small letters or with the capitals of EIP-55, which are a checksum.
-/
namespace Countersign

/-- Reads a public key in any of the encodings of the curve. -/
def parsePublicKey (b : Bytes) : Except Error Curve.Point :=
  match Curve.Point.decode? b with
  | some p => .ok p
  | none =>
    .error (.invalidPublicKey (Digits.decimal b.length ++ " bytes are not a secp256k1 point"))

def compressPublicKey (b : Bytes) : Except Error Bytes :=
  (parsePublicKey b).map Curve.Point.compressed

abbrev Address := Octets 20

namespace Address

def zero : Address :=
  Octets.ofNat 20 0

def ofPoint (p : Curve.Point) : Address :=
  Octets.ofNat 20 (Bytes.toNat ((Keccak256.hash p.coordinates).drop 12))

/-- The address of a public key. Sixty-four octets are the two coordinates without a tag. -/
def ofPublicKey (b : Bytes) : Except Error Address :=
  (parsePublicKey (if b.length = 64 then 0x04 :: b else b)).map ofPoint

def ofHex (text : String) : Except Error Address :=
  match Hex.decode text with
  | .error e => .error (.hexDecodeFailed e.message)
  | .ok b =>
    match Octets.ofBytes? 20 b with
    | some a => .ok a
    | none =>
      .error (.addressDerivationFailed ("address has " ++ Digits.decimal b.length ++ " bytes"))

def toHex (a : Address) : String :=
  Hex.encodeMarked a.bytes

/-- Letters become capitals where the hash of the small form has a high half octet. -/
def capitals (digits : List Char) : List Char :=
  let hash := Hex.digits (Keccak256.hash (digits.flatMap String.utf8EncodeChar))
  List.zipWith (fun c h => if '8' ≤ h then c.toUpper else c) digits hash

/-- The form with a checksum, which is how an address is shown. -/
def toChecksum (a : Address) : String :=
  String.ofList ('0' :: 'x' :: capitals (Hex.digits a.bytes))

end Address

end Countersign

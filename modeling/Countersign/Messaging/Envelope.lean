import Countersign.Cipher.Gcm
import Countersign.Entropy
import Countersign.Error
import Countersign.Hash.Keyed
import Countersign.Text.Utf8

/-!
# Sealed envelopes

Encryption to the owner of a point. The sender draws a secret for this one message; the key is
derived from the coordinate that sender and owner share, with the sender's point as salt. The
envelope holds that point in its long form, the nonce, and the masked text with its tag.
-/
namespace Countersign.Messaging

def keyInfo : Bytes :=
  Utf8.encode "wallet-background-core/messaging/aes-256-gcm"

/-- The octets of an envelope beyond its text. -/
def overhead : Nat := 65 + 12 + 16

/-- The key between a secret and a point; the salt is the sender's point as it is sent. -/
def envelopeKey (d : Curve.Scalar) (q : Curve.Point) (salt : Bytes) : Bytes :=
  Sha256.hkdf 32 salt (Bytes.ofNat 32 (d.shared q)) keyInfo

/-- Encrypts with the secret and the nonce that were drawn. -/
def sealWith (secret : Curve.Scalar) (nonce : Bytes) (recipient : Curve.Point) (text : Bytes) :
    Bytes :=
  let sender := secret.point.uncompressed
  sender ++ nonce ++ Gcm.encrypt (envelopeKey secret recipient sender) nonce text

/-- Encrypts a text to a point. There is no result if the source of randomness never gives a valid
secret. -/
def sealTo? (e : Entropy) (recipient : Curve.Point) (text : Bytes) : Option (Bytes × Entropy) := do
  let (secret, e) ← e.scalar?
  let (nonce, e) := e.draw 12
  return (sealWith secret nonce recipient text, e)

def unsealWith (secret : Curve.Scalar) (envelope : Bytes) : Except Error Bytes :=
  if envelope.length < overhead then
    .error (.encryption ("ciphertext has " ++ Digits.decimal envelope.length
      ++ " bytes, expected at least " ++ Digits.decimal overhead))
  else
    let sender := envelope.take 65
    let nonce := (envelope.drop 65).take 12
    match Curve.Point.decode? sender with
    | none => .error (.invalidPublicKey "ephemeral key is not a secp256k1 point")
    | some q =>
      match Gcm.decrypt? (envelopeKey secret q sender) nonce (envelope.drop 77) with
      | some text => .ok text
      | none => .error (.encryption "ciphertext failed authentication")

end Countersign.Messaging

import Countersign.Hash.Sha256

/-!
# Keyed hashing

HMAC with SHA-256, and the key derivation HKDF built on it.
-/
namespace Countersign.Sha256

/-- A key as one block; a longer key is hashed first. -/
def keyBlock (key : Bytes) : Bytes :=
  Bytes.padRight 64 (if 64 < key.length then hash key else key)

def hmac (key message : Bytes) : Bytes :=
  let block := keyBlock key
  hash (block.map (· ^^^ 0x5C) ++ hash (block.map (· ^^^ 0x36) ++ message))

/-- Blocks of derived key, each from the one before, the context and its number. -/
def derivedBlocks (key info : Bytes) : Nat → Nat → Bytes → Bytes
  | 0, _, _ => []
  | count + 1, number, before =>
    let block := hmac key (before ++ info ++ [UInt8.ofNat number])
    block ++ derivedBlocks key info count (number + 1) block

/-- Derives a key of the given length from a secret, a salt and a context. -/
def hkdf (length : Nat) (salt secret info : Bytes) : Bytes :=
  (derivedBlocks (hmac salt secret) info ((length + 31) / 32) 1 []).take length

end Countersign.Sha256

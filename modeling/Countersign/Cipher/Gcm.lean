import Countersign.Cipher.Aes256

/-!
# Galois counter mode

Authenticated encryption with AES-256, a nonce of twelve octets and a tag of sixteen, without
further authenticated data. The text is masked with enciphered counters; the tag is a polynomial in
a secret point over the field of blocks, masked in the same way.
-/
namespace Countersign.Gcm

/-- The product of two blocks as field elements. The leading bit of a block is its constant term. -/
def product (x y : Nat) : Nat :=
  let step := fun ((z, v) : Nat × Nat) (i : Nat) =>
    (if x.testBit (127 - i) then z ^^^ v else z,
      if v % 2 = 1 then (v >>> 1) ^^^ (0xE1 <<< 120) else v >>> 1)
  ((List.range 128).foldl step (0, y)).1

/-- The block at a place of the counter sequence; the first one masks the tag. -/
def counter (nonce : Bytes) (place : Nat) : Bytes :=
  nonce ++ Bytes.ofNat 4 (place + 1)

/-- Masks a text with the counters behind the first one; masking twice gives the text back. -/
def mask (keys : List Bytes) (nonce text : Bytes) : Bytes :=
  ((text.chunks 16).zipIdx 1).flatMap fun (piece, place) =>
    Bytes.xor piece (Aes256.encipher keys (counter nonce place))

def tag (keys : List Bytes) (nonce masked : Bytes) : Bytes :=
  let point := Bytes.toNat (Aes256.encipher keys (List.replicate 16 0))
  let blocks := (masked.chunks 16).map (Bytes.padRight 16) ++ [Bytes.ofNat 16 (8 * masked.length)]
  let sum := blocks.foldl (fun n b => product (n ^^^ Bytes.toNat b) point) 0
  Bytes.xor (Bytes.ofNat 16 sum) (Aes256.encipher keys (counter nonce 0))

/-- Enciphers a text and appends its tag. -/
def encrypt (key nonce text : Bytes) : Bytes :=
  let keys := Aes256.roundKeys key
  let masked := mask keys nonce text
  masked ++ tag keys nonce masked

/-- Deciphers a text if its tag is right. -/
def decrypt? (key nonce sealed : Bytes) : Option Bytes :=
  let keys := Aes256.roundKeys key
  let masked := sealed.take (sealed.length - 16)
  if sealed.drop (sealed.length - 16) = tag keys nonce masked then some (mask keys nonce masked)
  else none

end Countersign.Gcm

import Countersign.Caller
import Countersign.Curve.Ecdsa
import Countersign.Ethereum.Address
import Countersign.Messaging.Envelope
import Countersign.Messaging.SignDoc
import Countersign.Text.Base64

/-!
# Messaging with derived keys

Each chain has a messaging key: the hash of the keyring's signature on a fixed document. It is
derived once and kept. The keys of others are kept by address; one that is not known is asked for,
if there is anyone to ask.

The keyring and the directory of keys lie outside. They are functions of the question and of how
many questions came before it, so they may answer the same question differently; the service records
what it asked.
-/
namespace Countersign.Messaging

inductive Question where
  | signature (caller : Caller) (chain : String) (doc : Bytes)
  | key (chain address : String)
  deriving DecidableEq, Repr

abbrev Keyring := Nat → Caller → String → Bytes → Except Error Bytes

abbrev Directory := Nat → String → String → Except Error String

structure Service where
  keyring : Keyring
  directory : Option Directory
  memo : String
  privateKeys : List (String × Curve.Scalar)
  publicKeys : List (String × Curve.Point)
  asked : List Question

namespace Service

def fresh (keyring : Keyring) (directory : Option Directory) (memo : String) : Service :=
  ⟨keyring, directory, memo, [], [], []⟩

def ask (s : Service) (q : Question) : Service :=
  { s with asked := s.asked ++ [q] }

/-! ### Keys of this wallet -/

def derivedKey (signature : Bytes) : Except Error Curve.Scalar :=
  match Curve.Scalar.decode? (Sha256.hash signature) with
  | some d => .ok d
  | none => .error (.invalidPrivateKey "derived key is not a valid secp256k1 scalar")

/-- The key of a chain. The keyring is asked unless the key is known. -/
def privateKey (s : Service) (caller : Caller) (chain : String) :
    Except Error Curve.Scalar × Service :=
  match s.privateKeys.lookup chain with
  | some d => (.ok d, s)
  | none =>
    let doc := signDocBytes chain s.memo
    let answer := s.keyring s.asked.length caller chain doc
    let s := s.ask (.signature caller chain doc)
    match answer with
    | .error e => (.error e, s)
    | .ok signature =>
      match derivedKey signature with
      | .error e => (.error e, s)
      | .ok d => (.ok d, { s with privateKeys := (chain, d) :: s.privateKeys })

def publicKey (s : Service) (caller : Caller) (chain : String) : Except Error String × Service :=
  match s.privateKey caller chain with
  | (.error e, s) => (.error e, s)
  | (.ok d, s) => (.ok (Base64.encode d.point.compressed), s)

/-! ### Keys of others -/

def octetsOf (text : String) : Except Error Bytes :=
  match Base64.decode? text with
  | some b => .ok b
  | none => .error (.base64DecodeFailed "not canonical padded text")

def keyOf (text : String) : Except Error Curve.Point := do
  let b ← octetsOf text
  parsePublicKey b

def keep (s : Service) (address : String) (q : Curve.Point) : Service :=
  { s with publicKeys := (address, q) :: s.publicKeys.filter fun entry => entry.1 != address }

def register (s : Service) (address key : String) : Except Error Unit × Service :=
  match keyOf key with
  | .error e => (.error e, s)
  | .ok q => (.ok (), s.keep address q)

/-- The first half of a look-up: the key if it is known, otherwise the answer of the directory. -/
def beginLookup (s : Service) (chain address : String) :
    Except Error (Curve.Point ⊕ Except Error String) × Service :=
  match s.publicKeys.lookup address with
  | some q => (.ok (.inl q), s)
  | none =>
    match s.directory with
    | none => (.error (.publicKeyLookupNotImplemented address), s)
    | some directory =>
      (.ok (.inr (directory s.asked.length chain address)), s.ask (.key chain address))

/-- The second half of a look-up: reads the answer of the directory and keeps the key. -/
def finishLookup (s : Service) (address : String) (answer : Except Error String) :
    Except Error Curve.Point × Service :=
  match answer with
  | .error e => (.error e, s)
  | .ok text =>
    match keyOf text with
    | .error e => (.error e, s)
    | .ok q => (.ok q, s.keep address q)

/-- The key of an address. The directory is asked unless the key is known. -/
def lookup (s : Service) (chain address : String) : Except Error Curve.Point × Service :=
  match s.beginLookup chain address with
  | (.error e, s) => (.error e, s)
  | (.ok (.inl q), s) => (.ok q, s)
  | (.ok (.inr answer), s) => s.finishLookup address answer

/-! ### Messages -/

/-- Decrypts an envelope in Base64; the text is given in Base64 as well. -/
def decrypt (s : Service) (caller : Caller) (chain envelope : String) :
    Except Error String × Service :=
  match octetsOf envelope with
  | .error e => (.error e, s)
  | .ok b =>
    match s.privateKey caller chain with
    | (.error e, s) => (.error e, s)
    | (.ok d, s) => ((unsealWith d b).map Base64.encode, s)

/-- Encrypts a text in Base64 to the owner of an address. -/
def encrypt (s : Service) (random : Entropy) (chain address text : String) :
    Except Error String × Service × Entropy :=
  match octetsOf text with
  | .error e => (.error e, s, random)
  | .ok b =>
    match s.lookup chain address with
    | (.error e, s) => (.error e, s, random)
    | (.ok q, s) =>
      match sealTo? random q b with
      | some (envelope, random) => (.ok (Base64.encode envelope), s, random)
      | none => (.error (.encryption "no valid secret was drawn"), s, random)

/-- Signs the hash of a payload in Base64; the signature is compact and in Base64. -/
def sign (s : Service) (caller : Caller) (chain payload : String) :
    Except Error String × Service :=
  match octetsOf payload with
  | .error e => (.error e, s)
  | .ok b =>
    match s.privateKey caller chain with
    | (.error e, s) => (.error e, s)
    | (.ok d, s) =>
      match Curve.sign? d (Sha256.hash b) with
      | some c => (.ok (Base64.encode c.bytes), s)
      | none => (.error (.invalidSignature "no valid secret number was drawn"), s)

def describe (s : Service) : String :=
  "MessagingService \x7b has_resolver: " ++ (if s.directory.isSome then "true" else "false")
    ++ ", known_public_keys: " ++ Digits.decimal s.publicKeys.length ++ ", .. \x7d"

end Service

end Countersign.Messaging

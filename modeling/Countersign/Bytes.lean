/-!
# Byte strings

Octets as lists, and the numbers they write. A number is written in a fixed width, most or least
significant octet first, and is reduced to what fits that width.
-/
namespace Countersign

-- Powers of numbers are the core library's, also where another library brings its own.
attribute [scoped instance (high)] instPowNat

abbrev Bytes := List UInt8

namespace Bytes

/-- The number a string writes, most significant octet first. -/
def toNat (b : Bytes) : Nat :=
  b.foldl (fun n o => 256 * n + o.toNat) 0

/-- The low `width` octets of a number, least significant first. -/
def ofNatLE : Nat → Nat → Bytes
  | 0, _ => []
  | width + 1, n => UInt8.ofNat (n % 256) :: ofNatLE width (n / 256)

/-- The low `width` octets of a number, most significant first. -/
def ofNat (width n : Nat) : Bytes :=
  (ofNatLE width n).reverse

/-- A string without its leading zero octets. -/
def trimmed (b : Bytes) : Bytes :=
  b.dropWhile (· == 0)

/-- A string with zero octets in front, up to the given width. -/
def padLeft (width : Nat) (b : Bytes) : Bytes :=
  List.replicate (width - b.length) 0 ++ b

/-- A string with zero octets behind, up to the given width. -/
def padRight (width : Nat) (b : Bytes) : Bytes :=
  b ++ List.replicate (width - b.length) 0

/-- Octet by octet exclusive or, as long as the shorter string. -/
def xor (a b : Bytes) : Bytes :=
  List.zipWith (· ^^^ ·) a b

/-- Consecutive pieces of the given size; only the last may be shorter. -/
def chunks (size : Nat) (b : Bytes) : List Bytes :=
  pieces b.length b
where
  /-- At most `fuel` pieces; a piece takes an octet at least, so the length is fuel enough. -/
  pieces : Nat → Bytes → List Bytes
    | 0, _ => []
    | _ + 1, [] => []
    | fuel + 1, b => b.take size :: pieces fuel (b.drop size)

/-- A field with its length in the octet in front of it: its octets, and those behind it. -/
def field? : Bytes → Option (Bytes × Bytes)
  | [] => none
  | length :: rest =>
    if length.toNat ≤ rest.length then some (rest.take length.toNat, rest.drop length.toNat)
    else none

@[simp] theorem length_ofNatLE (width n : Nat) : (ofNatLE width n).length = width := by
  induction width generalizing n with
  | zero => rfl
  | succ width ih => simp [ofNatLE, ih]

@[simp] theorem length_ofNat (width n : Nat) : (ofNat width n).length = width := by
  simp [ofNat]

theorem length_padLeft {width : Nat} {b : Bytes} (h : b.length ≤ width) :
    (padLeft width b).length = width := by
  simp [padLeft]; omega

end Bytes

structure Octets (n : Nat) where
  bytes : Bytes
  length_eq : bytes.length = n
  deriving DecidableEq, Repr

namespace Octets

def ofBytes? (n : Nat) (b : Bytes) : Option (Octets n) :=
  if h : b.length = n then some ⟨b, h⟩ else none

def ofNat (n value : Nat) : Octets n :=
  ⟨Bytes.ofNat n value, Bytes.length_ofNat n value⟩

def toNat {n : Nat} (o : Octets n) : Nat :=
  Bytes.toNat o.bytes

end Octets

/-- An unsigned number of a fixed count of bits. -/
abbrev Word (bits : Nat) := Fin (2 ^ bits)

/-- The low bits of a number, which are left of it when it overflows. -/
def Word.ofNat (bits n : Nat) : Word bits :=
  ⟨n % 2 ^ bits, Nat.mod_lt n (Nat.two_pow_pos bits)⟩

def Word.ofNat? (bits n : Nat) : Option (Word bits) :=
  if h : n < 2 ^ bits then some ⟨n, h⟩ else none

end Countersign

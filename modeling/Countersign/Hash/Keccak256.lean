import Countersign.Bytes

/-!
# Keccak-256

The sponge with a rate of 136 octets and the padding that closes a message with a one octet. A
state holds twenty-five words; the word in column `x` of row `y` stands at `x + 5 * y`.
-/
namespace Countersign.Keccak256

def constants : List UInt64 :=
  [0x0000000000000001, 0x0000000000008082, 0x800000000000808A, 0x8000000080008000,
   0x000000000000808B, 0x0000000080000001, 0x8000000080008081, 0x8000000000008009,
   0x000000000000008A, 0x0000000000000088, 0x0000000080008009, 0x000000008000000A,
   0x000000008000808B, 0x800000000000008B, 0x8000000000008089, 0x8000000000008003,
   0x8000000000008002, 0x8000000000000080, 0x000000000000800A, 0x800000008000000A,
   0x8000000080008081, 0x8000000000008080, 0x0000000080000001, 0x8000000080008008]

/-- For each place the place its word comes from, and by how much the word is rotated. -/
def moves : List (Nat × UInt64) :=
  [(0, 0), (6, 44), (12, 43), (18, 21), (24, 14),
   (3, 28), (9, 20), (10, 3), (16, 45), (22, 61),
   (1, 1), (7, 6), (13, 25), (19, 8), (20, 18),
   (4, 27), (5, 36), (11, 10), (17, 15), (23, 56),
   (2, 62), (8, 55), (14, 39), (15, 41), (21, 2)]

def rotate (x n : UInt64) : UInt64 :=
  if n = 0 then x else x <<< n ||| x >>> (64 - n)

def columns : List UInt64 → List UInt64
  | a0 :: a1 :: a2 :: a3 :: a4 :: rest =>
    match columns rest with
    | [b0, b1, b2, b3, b4] => [a0 ^^^ b0, a1 ^^^ b1, a2 ^^^ b2, a3 ^^^ b3, a4 ^^^ b4]
    | _ => [a0, a1, a2, a3, a4]
  | _ => []

/-- Adds to each column the parities of its neighbours. -/
def mix (s : List UInt64) : List UInt64 :=
  match columns s with
  | [c0, c1, c2, c3, c4] =>
    let add := [c4 ^^^ rotate c1 1, c0 ^^^ rotate c2 1, c1 ^^^ rotate c3 1, c2 ^^^ rotate c4 1,
      c3 ^^^ rotate c0 1]
    List.zipWith (· ^^^ ·) s (add ++ add ++ add ++ add ++ add)
  | _ => s

def rows : List UInt64 → List UInt64
  | a :: b :: c :: d :: e :: rest =>
    (a ^^^ (~~~b &&& c)) :: (b ^^^ (~~~c &&& d)) :: (c ^^^ (~~~d &&& e)) :: (d ^^^ (~~~e &&& a))
      :: (e ^^^ (~~~a &&& b)) :: rows rest
  | _ => []

def round (s : List UInt64) (constant : UInt64) : List UInt64 :=
  let s := mix s
  match rows (moves.map fun (i, n) => rotate (s.getD i 0) n) with
  | a :: rest => (a ^^^ constant) :: rest
  | [] => []

def permute (s : List UInt64) : List UInt64 :=
  constants.foldl round s

def words (b : Bytes) : List UInt64 :=
  (b.chunks 8).map fun o => UInt64.ofNat (Bytes.toNat o.reverse)

/-- Adds a block to the front of a state and stirs it. -/
def absorb (s : List UInt64) (block : Bytes) : List UInt64 :=
  let w := words block
  permute (List.zipWith (· ^^^ ·) s w ++ s.drop w.length)

def padded (message : Bytes) : Bytes :=
  let missing := 136 - message.length % 136
  if missing = 1 then message ++ [0x81]
  else message ++ 0x01 :: List.replicate (missing - 2) 0 ++ [0x80]

def hash (message : Bytes) : Bytes :=
  let s := ((padded message).chunks 136).foldl absorb (List.replicate 25 0)
  (s.take 4).flatMap fun w => Bytes.ofNatLE 8 w.toNat

end Countersign.Keccak256

import Countersign.Hash.Keccak256
import Countersign.Hash.Keyed
import Countersign.Proofs.Bytes

/-!
# Lengths of hashes

Both hashes give thirty-two octets whatever the message is, and so does a derived key of that
length.
-/
namespace Countersign

namespace Keccak256

/-- Rows have five words; an incomplete one is dropped. -/
theorem length_rows (s : List UInt64) : (rows s).length = s.length / 5 * 5 := by
  fun_induction rows s with
  | case1 a b c d e rest ih =>
    simp only [List.length_cons, ih]
    omega
  | case2 s h =>
    match s, h with
    | [], _ | [_], _ | [_, _], _ | [_, _, _], _ | [_, _, _, _], _ => simp
    | a :: b :: c :: d :: e :: rest, h => exact absurd rfl (h a b c d e rest)

/-- A round gives twenty-five words whatever it is given, since it moves that many. -/
theorem length_round (s : List UInt64) (constant : UInt64) : (round s constant).length = 25 := by
  have hlen (f : Nat × UInt64 → UInt64) : (rows (moves.map f)).length = 25 := by
    rw [length_rows, List.length_map]
    rfl
  simp only [round]
  split
  next w rest h => rw [List.length_cons, ← List.length_cons (a := w), ← h, hlen]
  next h => exact absurd (congrArg List.length h) (by rw [hlen]; decide)

theorem length_rounds {cs : List UInt64} (hcs : cs ≠ []) (s : List UInt64) :
    (cs.foldl round s).length = 25 := by
  induction cs generalizing s with
  | nil => exact absurd rfl hcs
  | cons c cs ih =>
    cases cs with
    | nil => exact length_round s c
    | cons d cs => exact ih (List.cons_ne_nil d cs) (round s c)

/-- Twenty-five words come out of all rounds. -/
theorem length_permute (s : List UInt64) : (permute s).length = 25 :=
  length_rounds (List.cons_ne_nil _ _) s

theorem length_absorbed (blocks : List Bytes) {s : List UInt64} (hs : s.length = 25) :
    (blocks.foldl absorb s).length = 25 := by
  induction blocks generalizing s with
  | nil => exact hs
  | cons b blocks ih => exact ih (length_permute _)

/-- The hash is the front of a state of twenty-five words. -/
@[simp] theorem length_hash (message : Bytes) : (hash message).length = 32 := by
  have hs := length_absorbed ((padded message).chunks 136)
    (List.length_replicate (n := 25) (a := 0))
  unfold hash
  rw [Bytes.length_flatMap fun w => Bytes.length_ofNatLE 8 _, List.length_take, hs]
  rfl

end Keccak256

namespace Sha256

@[simp] theorem length_hash (message : Bytes) : (hash message).length = 32 :=
  Bytes.length_flatMap (fun _ => Bytes.length_ofNat 4 _) _

theorem length_hmac (key message : Bytes) : (hmac key message).length = 32 := length_hash _

/-- Derived keys are asked for in the length of one block. -/
theorem length_hkdf (salt secret info : Bytes) : (hkdf 32 salt secret info).length = 32 := by
  have h : (derivedBlocks (hmac salt secret) info 1 1 []).length = 32 := by
    simp [derivedBlocks, length_hmac]
  simp only [hkdf, List.length_take]
  change min 32 (derivedBlocks (hmac salt secret) info 1 1 []).length = 32
  rw [h]
  rfl

end Sha256

end Countersign

import Countersign.Ethereum.Transaction
import Countersign.Proofs.Ethereum.Rlp

/-!
# The recovery number of a legacy transaction

A device reports the last octet of `2 * chain + 35 + parity`, or the parity itself, counted from
zero or from twenty-seven. The number is rebuilt in sixty-four bits, and is the sum as long as the
sum fits. It is then the one that was meant, except where the last octet happens to be zero or one:
it is read as a parity there, and it is the wrong one.
-/
namespace Countersign

namespace Signature

/-- The chains, each with a parity, on which the last octet is taken for the other parity. -/
def Misread (chain p : Nat) : Prop :=
  chain % 128 = 110 ∧ p = 1 ∨ chain % 128 = 111 ∧ p = 0

instance (chain p : Nat) : Decidable (Misread chain p) :=
  inferInstanceAs (Decidable (_ ∨ _))

theorem parity_eq (g : Signature) :
    g.parity =
      if g.v.toNat = 0 ∨ g.v.toNat = 27 then 0
      else if g.v.toNat = 1 ∨ g.v.toNat = 28 then 1
      else 1 - g.v.toNat % 2 := by
  have heq (k : UInt8) : g.v = k ↔ g.v.toNat = k.toNat := UInt8.toNat_inj.symm
  have hmod : g.v % 2 = 0 ↔ g.v.toNat % 2 = 0 := by
    rw [← UInt8.toNat_inj, UInt8.toNat_mod]
    rfl
  have h0 : g.v = 0 ↔ g.v.toNat = 0 := heq 0
  have h1 : g.v = 1 ↔ g.v.toNat = 1 := heq 1
  have h27 : g.v = 27 ↔ g.v.toNat = 27 := heq 27
  have h28 : g.v = 28 ↔ g.v.toNat = 28 := heq 28
  simp only [parity, odd, h0, h1, h27, h28]
  by_cases hz : g.v.toNat = 0 ∨ g.v.toNat = 27
  · simp [hz]
  · by_cases ho : g.v.toNat = 1 ∨ g.v.toNat = 28
    · simp [hz, ho]
    · simp only [hz, ho, if_false, beq_iff_eq, hmod]
      split <;> omega

theorem parity_le (g : Signature) : g.parity ≤ 1 := by
  unfold parity
  split <;> simp

theorem parity_direct (g : Signature) (p : Nat) (hp : p = 0 ∨ p = 1)
    (hv : g.v.toNat = p ∨ g.v.toNat = 27 + p) : g.parity = p := by
  rw [parity_eq]
  split
  · omega
  · split <;> omega

theorem parity_read (g : Signature) (chain p : Nat) (hp : p = 0 ∨ p = 1)
    (hv : g.v.toNat = (2 * chain + 35 + p) % 256) (h : ¬Misread chain p) : g.parity = p := by
  unfold Misread at h
  rw [parity_eq]
  split
  · omega
  · split <;> omega

theorem parity_misread (g : Signature) (chain p : Nat)
    (hv : g.v.toNat = (2 * chain + 35 + p) % 256) (h : Misread chain p) : g.parity = 1 - p := by
  unfold Misread at h
  rw [parity_eq]
  split
  · omega
  · split <;> omega

end Signature

namespace LegacyTransaction

open Signature (Misread)

/-- The encoding with a given recovery number. -/
def signedWith (tx : LegacyTransaction) (g : Signature) (n : Nat) : Bytes :=
  (Rlp.list (tx.body ++ .nat n :: signatureItems g)).encode

theorem recovery_val (tx : LegacyTransaction) (g : Signature) :
    (tx.recovery g).val = (2 * tx.chainId + 35 + g.parity) % 2 ^ 64 := by
  rw [recovery, Word.ofNat, Nat.mul_comm]

/-- The number that is broadcast is the sum exactly where the sum does not overflow. -/
theorem recovery_val_iff (tx : LegacyTransaction) (g : Signature) :
    (tx.recovery g).val = 2 * tx.chainId + 35 + g.parity ↔
      2 * tx.chainId + 35 + g.parity < 2 ^ 64 := by
  rw [recovery_val]
  omega

theorem signed_eq (tx : LegacyTransaction) (g : Signature)
    (h : 2 * tx.chainId + 35 + g.parity < 2 ^ 64) :
    tx.signed g = tx.signedWith g (2 * tx.chainId + 35 + g.parity) := by
  rw [signed, (tx.recovery_val_iff g).mpr h, signedWith]

/-- The recovery number can be told from the encoding. -/
theorem signedWith_inj (tx : LegacyTransaction) (g : Signature) {m n : Nat} (hm : m < 2 ^ 256)
    (hn : n < 2 ^ 256) (h : tx.signedWith g m = tx.signedWith g n) : m = n :=
  Rlp.encode_nat_inj hm hn (Rlp.encode_item_cancel h)

/-- As long as twice the chain and thirty-six fit sixty-four bits nothing overflows, and the
recovery number that is broadcast is the sum itself. It is the one that the device meant if the
device reports the parity, and if it reports the last octet exactly on the chains where that octet
is not read as the other parity; there it is the number of the other parity. -/
theorem signed_recovery (tx : LegacyTransaction) (g : Signature) (p : Nat) (hp : p = 0 ∨ p = 1)
    (hc : 2 * tx.chainId.val + 36 < 2 ^ 64) :
    (2 * tx.chainId + 35 + g.parity < 2 ^ 64 ∧
        (tx.recovery g).val = 2 * tx.chainId + 35 + g.parity) ∧
      (g.v.toNat = p ∨ g.v.toNat = 27 + p →
        tx.signed g = tx.signedWith g (2 * tx.chainId + 35 + p)) ∧
      (g.v.toNat = (2 * tx.chainId + 35 + p) % 256 →
        (tx.signed g = tx.signedWith g (2 * tx.chainId + 35 + p) ↔ ¬Misread tx.chainId p) ∧
          (Misread tx.chainId p →
            tx.signed g = tx.signedWith g (2 * tx.chainId + 35 + (1 - p)))) := by
  have hparity := g.parity_le
  have hfits : 2 * tx.chainId + 35 + g.parity < 2 ^ 64 := by omega
  have hsigned := tx.signed_eq g hfits
  refine ⟨⟨hfits, (tx.recovery_val_iff g).mpr hfits⟩, fun hv => ?_,
    fun hv => ⟨⟨fun h hmis => ?_, fun h => ?_⟩, fun h => ?_⟩⟩
  · rw [hsigned, g.parity_direct p hp hv]
  · rw [hsigned, g.parity_misread tx.chainId p hv hmis] at h
    have heq := tx.signedWith_inj g (by omega) (by omega) h
    omega
  · rw [hsigned, g.parity_read tx.chainId p hp hv h]
  · rw [hsigned, g.parity_misread tx.chainId p hv h]

/-- On chain 137 the device reports 54 for parity one, or 28. -/
theorem chain_137_recovered :
    let tx : LegacyTransaction := ⟨137, 0, 0, 21000, none, 0, []⟩
    let r := Octets.ofNat 32 7
    tx.signed ⟨r, r, 54⟩ = tx.signedWith ⟨r, r, 54⟩ 310 ∧
      tx.signed ⟨r, r, 28⟩ = tx.signedWith ⟨r, r, 28⟩ 310 := by
  intro tx r
  have hmis : ¬Misread tx.chainId 1 := by decide
  obtain ⟨_, _, hoctet⟩ := signed_recovery tx ⟨r, r, 54⟩ 1 (.inr rfl) (by decide)
  obtain ⟨_, hdirect, _⟩ := signed_recovery tx ⟨r, r, 28⟩ 1 (.inr rfl) (by decide)
  exact ⟨((hoctet (by decide)).1).mpr hmis, hdirect (.inr rfl)⟩

/-- On chain 110 the device reports zero for parity one, and the number of parity zero is broadcast.
-/
theorem chain_110_misread :
    let tx : LegacyTransaction := ⟨110, 0, 0, 21000, none, 0, []⟩
    let r := Octets.ofNat 32 7
    (2 * 110 + 35 + 1) % 256 = 0 ∧ tx.signed ⟨r, r, 0⟩ = tx.signedWith ⟨r, r, 0⟩ 255 ∧
      tx.signed ⟨r, r, 0⟩ ≠ tx.signedWith ⟨r, r, 0⟩ 256 := by
  intro tx r
  refine ⟨rfl, rfl, ?_⟩
  intro h
  have heq := tx.signedWith_inj ⟨r, r, 0⟩ (by decide) (by decide) h
  cases heq

end LegacyTransaction

end Countersign

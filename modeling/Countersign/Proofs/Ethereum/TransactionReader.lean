import Countersign.Ethereum.Transaction
import Countersign.Proofs.Ethereum.Recovery
import Countersign.Proofs.Ethereum.RlpReader

/-!
# Reading transactions

Both encodings of a transaction, the one that is signed and the one that is broadcast, are read back
field by field by a strict reader. They have the same fields in front. Behind them the encoding that
is signed has the chain of a legacy transaction, and the one that is broadcast has the signature.
-/
namespace Countersign

namespace Rlp

/-- Reads a number, which has no zero octet in front. -/
def number? : Rlp → Option Nat
  | .bytes b => if b.head? = some 0 then none else some (Bytes.toNat b)
  | .list _ => none

/-- Reads a number that fits. -/
def word? (bits : Nat) (t : Rlp) : Option (Word bits) :=
  t.number?.bind (Word.ofNat? bits)

/-- Reads a byte string. -/
def octets? : Rlp → Option Bytes
  | .bytes b => some b
  | .list _ => none

/-- Reads a byte string of a fixed length. -/
def fixed? (n : Nat) (t : Rlp) : Option (Octets n) :=
  t.octets?.bind (Octets.ofBytes? n)

/-- Reads a list. -/
def items? : Rlp → Option (List Rlp)
  | .list items => some items
  | .bytes _ => none

theorem number_trimmed (b : Bytes) :
    (Rlp.bytes (Bytes.trimmed b)).number? = some (Bytes.toNat b) := by
  simp only [number?, Bytes.head_trimmed, if_false, Bytes.toNat_trimmed]

theorem number_nat {n : Nat} (hn : n < 2 ^ 256) : (Rlp.nat n).number? = some n := by
  have hmod : n % 256 ^ 32 = n := Nat.mod_eq_of_lt (by simpa using hn)
  rw [nat, number_trimmed, Bytes.toNat_ofNat, hmod]

theorem word_nat {bits : Nat} (hbits : bits ≤ 256) (w : Word bits) :
    (Rlp.nat w).word? bits = some w := by
  have hw : w.val < 2 ^ 256 :=
    Nat.lt_of_lt_of_le w.isLt (Nat.pow_le_pow_right (by decide) hbits)
  simp [word?, number_nat hw, Word.ofNat?]

theorem fixed_bytes {n : Nat} (o : Octets n) : (Rlp.bytes o.bytes).fixed? n = some o := by
  simp [fixed?, octets?, Octets.ofBytes?, o.length_eq]

end Rlp

theorem mapM_map_some {α β : Type} {f : α → β} {g : β → Option α} (h : ∀ a, g (f a) = some a)
    (xs : List α) : (xs.map f).mapM g = some xs := by
  induction xs with
  | nil => rfl
  | cons x xs ih => simp [h, ih]

/-- Reads a recipient: twenty octets, or none if there is no recipient. -/
def recipient? (t : Rlp) : Option (Option Address) := do
  let b ← t.octets?
  if b = [] then return none else some <$> t.fixed? 20

theorem recipient_item (r : Option Address) : recipient? (recipientItem r) = some r := by
  cases r with
  | none => rfl
  | some a =>
    have hne : a.bytes ≠ [] := by
      intro hnil
      have hlen := a.length_eq
      rw [hnil] at hlen
      cases hlen
    simp [recipient?, recipientItem, Rlp.fixed_bytes, Rlp.octets?, hne]

/-- Reads an entry of an access list. -/
def AccessListEntry.read? : Rlp → Option AccessListEntry
  | .list [address, keys] => do
    let address ← address.fixed? 20
    let keys ← keys.items?
    let keys ← keys.mapM (Rlp.fixed? 32)
    return ⟨address, keys⟩
  | _ => none

theorem AccessListEntry.read_item (e : AccessListEntry) : read? e.item = some e := by
  have hkeys := mapM_map_some (f := fun k : Octets 32 => Rlp.bytes k.bytes) Rlp.fixed_bytes
    e.storageKeys
  simp only [read?, item, Rlp.items?, Rlp.fixed_bytes, Option.bind_eq_bind, Option.bind_some, hkeys]
  rfl

namespace Transaction

/-! ### Fields -/

/-- The fields that both encodings of a transaction begin with. The chain of a legacy transaction is
not among them. -/
inductive Body where
  | legacy (nonce : Word 64) (gasPrice : Word 256) (gasLimit : Word 64)
      (recipient : Option Address) (value : Word 256) (data : Bytes)
  | fee (chainId nonce : Word 64) (maxPriorityFeePerGas maxFeePerGas : Word 256)
      (gasLimit : Word 64) (recipient : Option Address) (value : Word 256) (data : Bytes)
      (accessList : List AccessListEntry)
  deriving DecidableEq

/-- The fields of a transaction. -/
def body : Transaction → Body
  | .legacy tx =>
    .legacy tx.nonce tx.gasPrice tx.gasLimit tx.recipient tx.value tx.data
  | .fee tx =>
    .fee tx.chainId tx.nonce tx.maxPriorityFeePerGas tx.maxFeePerGas tx.gasLimit tx.recipient
      tx.value tx.data tx.accessList

/-- The numbers behind the fields in the encoding that is signed. -/
def chainMark : Transaction → List Nat
  | .legacy tx => [tx.chainId, 0, 0]
  | .fee _ => []

/-- The number that goes in front of the signature in the encoding that is broadcast, as far as it
fits sixty-four bits. -/
def recovery : Transaction → Signature → Nat
  | .legacy tx, g => 2 * tx.chainId + 35 + g.parity
  | .fee _, g => g.parity

/-- Reads the fields of a legacy transaction, and gives the items behind them. -/
def legacyBody? : List Rlp → Option (Body × List Rlp)
  | nonce :: gasPrice :: gasLimit :: recipient :: value :: data :: behind => do
    let nonce ← nonce.word? 64
    let gasPrice ← gasPrice.word? 256
    let gasLimit ← gasLimit.word? 64
    let recipient ← recipient? recipient
    let value ← value.word? 256
    let data ← data.octets?
    return (.legacy nonce gasPrice gasLimit recipient value data, behind)
  | _ => none

/-- Reads the fields of a transaction with a priority fee, and gives the items behind them. -/
def feeBody? : List Rlp → Option (Body × List Rlp)
  | chainId :: nonce :: maxPriorityFeePerGas :: maxFeePerGas :: gasLimit :: recipient :: value ::
      data :: accessList :: behind => do
    let chainId ← chainId.word? 64
    let nonce ← nonce.word? 64
    let maxPriorityFeePerGas ← maxPriorityFeePerGas.word? 256
    let maxFeePerGas ← maxFeePerGas.word? 256
    let gasLimit ← gasLimit.word? 64
    let recipient ← recipient? recipient
    let value ← value.word? 256
    let data ← data.octets?
    let entries ← accessList.items?
    let accessList ← entries.mapM AccessListEntry.read?
    return (.fee chainId nonce maxPriorityFeePerGas maxFeePerGas gasLimit recipient value data
      accessList, behind)
  | _ => none

theorem legacyBody_append (tx : LegacyTransaction) (behind : List Rlp) :
    legacyBody? (tx.body ++ behind) = some ((Transaction.legacy tx).body, behind) := by
  simp [LegacyTransaction.body, legacyBody?, body, Rlp.word_nat, recipient_item, Rlp.octets?]

theorem feeBody_append (tx : FeeTransaction) (behind : List Rlp) :
    feeBody? (tx.body ++ behind) = some ((Transaction.fee tx).body, behind) := by
  simp [FeeTransaction.body, feeBody?, body, Rlp.word_nat, recipient_item, Rlp.octets?, Rlp.items?,
    mapM_map_some AccessListEntry.read_item]

/-! ### Encodings -/

/-- Reads a list of fields with numbers behind them. -/
def readList? (body? : List Rlp → Option (Body × List Rlp)) (b : Bytes) :
    Option (Body × List Nat) := do
  let t ← Rlp.decode? b
  let items ← t.items?
  let (body, behind) ← body? items
  let numbers ← behind.mapM Rlp.number?
  return (body, numbers)

/-- Reads an encoding: its fields, and the numbers behind them. The first octet tells the kinds
apart. -/
def read? : Bytes → Option (Body × List Nat)
  | [] => none
  | o :: b =>
    if o = FeeTransaction.envelope then readList? feeBody? b else readList? legacyBody? (o :: b)

theorem readList_encode {body? : List Rlp → Option (Body × List Rlp)} {items behind : List Rlp}
    {body : Body} {numbers : List Nat} (hbody : body? items = some (body, behind))
    (hnumbers : behind.mapM Rlp.number? = some numbers)
    (hlen : (Rlp.list items).encode.length < 2 ^ 64) :
    readList? body? (Rlp.list items).encode = some (body, numbers) := by
  simp [readList?, Rlp.decode_encode hlen, Rlp.items?, hbody, hnumbers]

/-- The encoding of a list does not begin with the octet that marks the other kind. -/
theorem read_list (items : List Rlp) :
    read? (Rlp.list items).encode = readList? legacyBody? (Rlp.list items).encode := by
  obtain ⟨o, octets, hhead, hge, -⟩ :=
    Rlp.head_shape 0xC0 (by decide) (Rlp.encodeAll items).length
  have hne : o ≠ FeeTransaction.envelope := by
    rintro rfl
    revert hge
    decide
  simp only [Rlp.encode, hhead, List.cons_append, read?, hne, if_false]

theorem numbers_signature (g : Signature) {n : Nat} (hn : n < 2 ^ 256) :
    (Rlp.nat n :: signatureItems g).mapM Rlp.number? = some [n, g.r.toNat, g.s.toNat] := by
  simp [signatureItems, Rlp.number_nat hn, Rlp.number_trimmed, Octets.toNat]

theorem read_unsigned {tx : Transaction} (h : tx.unsigned.length < 2 ^ 64) :
    read? tx.unsigned = some (tx.body, tx.chainMark) := by
  cases tx with
  | legacy tx =>
    have hchain : tx.chainId.val < 2 ^ 256 := by omega
    have hmark : [Rlp.nat tx.chainId, Rlp.nat 0, Rlp.nat 0].mapM Rlp.number? =
        some [tx.chainId.val, 0, 0] := by
      simp [Rlp.number_nat hchain, Rlp.number_nat (n := 0) (by decide)]
    rw [unsigned, LegacyTransaction.unsigned, read_list]
    exact readList_encode (legacyBody_append tx _) hmark h
  | fee tx =>
    have hbody := feeBody_append tx []
    rw [List.append_nil] at hbody
    simp only [unsigned, FeeTransaction.unsigned, List.length_cons] at h ⊢
    rw [read?, if_pos rfl]
    exact readList_encode hbody rfl (by omega)

theorem read_signed {tx : Transaction} {g : Signature} (h : (tx.signed g).length < 2 ^ 64) :
    read? (tx.signed g) = some (tx.body, [tx.recovery g % 2 ^ 64, g.r.toNat, g.s.toNat]) := by
  cases tx with
  | legacy tx =>
    have hbound : (tx.recovery g).val < 2 ^ 256 :=
      Nat.lt_trans (tx.recovery g).isLt (by decide)
    simp only [signed, LegacyTransaction.signed] at h ⊢
    rw [read_list, readList_encode (legacyBody_append tx _) (numbers_signature g hbound) h,
      tx.recovery_val, recovery]
  | fee tx =>
    have hparity := g.parity_le
    have hmod : g.parity % 2 ^ 64 = g.parity := Nat.mod_eq_of_lt (by omega)
    simp only [signed, FeeTransaction.signed, List.length_cons, recovery, hmod] at h ⊢
    rw [read?, if_pos rfl]
    exact readList_encode (feeBody_append tx _) (numbers_signature g (by omega)) (by omega)

/-- The fields and the chain are all that there is to a transaction. -/
theorem eq_of_body {tx tx' : Transaction} (hbody : tx.body = tx'.body)
    (hmark : tx.chainMark = tx'.chainMark) : tx = tx' := by
  cases tx with
  | legacy tx =>
    cases tx' with
    | fee tx' => cases hbody
    | legacy tx' =>
      obtain ⟨chainId, nonce, gasPrice, gasLimit, recipient, value, data⟩ := tx
      obtain ⟨chainId', nonce', gasPrice', gasLimit', recipient', value', data'⟩ := tx'
      simp only [body, Body.legacy.injEq] at hbody
      obtain ⟨rfl, rfl, rfl, rfl, rfl, rfl⟩ := hbody
      have hchain : chainId.val = chainId'.val := (List.cons.inj hmark).1
      rw [Fin.ext hchain]
  | fee tx =>
    cases tx' with
    | legacy tx' => cases hbody
    | fee tx' =>
      obtain ⟨chainId, nonce, priority, fee, gasLimit, recipient, value, data, entries⟩ := tx
      obtain ⟨chainId', nonce', priority', fee', gasLimit', recipient', value', data', entries'⟩ :=
        tx'
      simp only [body, Body.fee.injEq] at hbody
      obtain ⟨rfl, rfl, rfl, rfl, rfl, rfl, rfl, rfl, rfl⟩ := hbody
      rfl

/-- An encoding below `2 ^ 64` octets, the longest that heads can announce, is read back. The one
that is signed has the fields of the transaction and the chain mark of its kind, and no other
transaction has it; the one that is broadcast has the same fields and behind them the recovery
number, in sixty-four bits, and the two numbers of the signature. The trees are read strictly:
nothing but its encoding is read as a tree. -/
theorem encodings_read_back (tx : Transaction) (g : Signature) :
    (tx.unsigned.length < 2 ^ 64 →
      read? tx.unsigned = some (tx.body, tx.chainMark) ∧
        ∀ tx' : Transaction, tx'.unsigned = tx.unsigned → tx' = tx) ∧
    ((tx.signed g).length < 2 ^ 64 →
      read? (tx.signed g) = some (tx.body, [tx.recovery g % 2 ^ 64, g.r.toNat, g.s.toNat]) ∧
        (tx.recovery g < 2 ^ 64 →
          read? (tx.signed g) = some (tx.body, [tx.recovery g, g.r.toNat, g.s.toNat]))) ∧
    ∀ (b : Bytes) (t : Rlp), Rlp.decode? b = some t → t.encode = b := by
  refine ⟨fun h => ⟨read_unsigned h, fun tx' heq => ?_⟩, fun h => ⟨read_signed h, fun hfits => ?_⟩,
    fun _ _ => Rlp.encode_of_decode⟩
  · have h' : tx'.unsigned.length < 2 ^ 64 := by rwa [heq]
    have hread := (read_unsigned h').symm.trans ((congrArg read? heq).trans (read_unsigned h))
    obtain ⟨hbody, hmark⟩ := Prod.mk.inj (Option.some.inj hread)
    exact eq_of_body hbody hmark
  · rw [read_signed h, Nat.mod_eq_of_lt hfits]

/-- A contract is created with sixty octets of data and one announced slot: the list, the data and
the access list have long heads, and there is no recipient. -/
theorem creation_read_back :
    let entry : AccessListEntry := ⟨Address.zero, [Octets.ofNat 32 7]⟩
    let tx : Transaction :=
      .fee ⟨1, 0, 1000000000, 100000000000, 21000, none, 0, List.replicate 60 0xAB, [entry]⟩
    let g : Signature := ⟨Octets.ofNat 32 7, Octets.ofNat 32 300, 28⟩
    tx.unsigned.take 3 = [0x02, 0xF8, 0x8A] ∧
      read? tx.unsigned = some (tx.body, []) ∧
      read? (tx.signed g) = some (tx.body, [1, 7, 300]) := by
  intro entry tx g
  obtain ⟨hunsigned, hsigned, -⟩ := encodings_read_back tx g
  exact ⟨by decide +kernel, (hunsigned (by decide +kernel)).1, (hsigned (by decide +kernel)).1⟩

end Transaction

end Countersign

import Countersign.Ethereum.Transaction
import Countersign.Proofs.Json.Forms

/-!
# Transactions in JSON

A transaction comes back from its JSON form, and from any other document that gives its members:
numbers and byte strings in whatever forms are taken, members in any order with others among them,
and a recipient, data or an access list left out if there is none. So whatever a document looked
like, writing what was read and reading it again changes nothing of what is signed.
-/
namespace Countersign

open Json

/-! ### Forms -/

/-- A small number is given as an integer literal. -/
def WordForm {bits : Nat} (n : Word bits) (t : Tree) : Prop :=
  t = .number (.natural n)

/-- A recipient is given by its octets; null stands for none. -/
inductive RecipientForm : Option Address → Tree → Prop
  | nobody : RecipientForm none .null
  | address {a : Address} {t : Tree} (h : BytesForm a.bytes t) : RecipientForm (some a) t

/-- The members of an entry of an access list. -/
def AccessListEntry.forms (e : AccessListEntry) : List MemberForm :=
  [⟨"address", BytesForm e.address.bytes, False⟩,
    ⟨"storageKeys", ListForm (fun k : Octets 32 => BytesForm k.bytes) e.storageKeys, False⟩]

/-- The members of a legacy transaction. -/
def LegacyTransaction.forms (tx : LegacyTransaction) : List MemberForm :=
  [⟨"chainId", WordForm tx.chainId, False⟩, ⟨"nonce", WordForm tx.nonce, False⟩,
    ⟨"gasPrice", QuantityForm tx.gasPrice, False⟩, ⟨"gasLimit", WordForm tx.gasLimit, False⟩,
    ⟨"to", RecipientForm tx.recipient, tx.recipient = none⟩,
    ⟨"value", QuantityForm tx.value, False⟩, ⟨"data", BytesForm tx.data, tx.data = []⟩]

/-- The members of a fee transaction. -/
def FeeTransaction.forms (tx : FeeTransaction) : List MemberForm :=
  [⟨"chainId", WordForm tx.chainId, False⟩, ⟨"nonce", WordForm tx.nonce, False⟩,
    ⟨"maxPriorityFeePerGas", QuantityForm tx.maxPriorityFeePerGas, False⟩,
    ⟨"maxFeePerGas", QuantityForm tx.maxFeePerGas, False⟩,
    ⟨"gasLimit", WordForm tx.gasLimit, False⟩,
    ⟨"to", RecipientForm tx.recipient, tx.recipient = none⟩,
    ⟨"value", QuantityForm tx.value, False⟩, ⟨"data", BytesForm tx.data, tx.data = []⟩,
    ⟨"accessList", ListForm (fun e : AccessListEntry => ObjectForm e.forms) tx.accessList,
      tx.accessList = []⟩]

namespace Transaction

/-- The name of the kind. -/
def kind : Transaction → String
  | .legacy _ => "legacy"
  | .fee _ => "eip1559"

/-- The members besides the kind. -/
def forms : Transaction → List MemberForm
  | .legacy tx => tx.forms
  | .fee tx => tx.forms

/-- A tree gives a transaction: it names the kind, and has the members in their forms. -/
def GivenBy (t : Transaction) (root : Tree) : Prop :=
  ∃ base all, root = .object (all.map named) ∧ InForms t.forms base ∧
    Extends ("type" :: t.forms.map MemberForm.name) (("type", .string t.kind) :: base) all

end Transaction

/-! ### Members are read -/

theorem word_of_form {bits : Nat} {n : Word bits} {t : Tree} (h : WordForm n t) :
    Decoder.word bits t = .ok n := by
  rw [Decoder.word, natural_iff.mpr ⟨h, n.isLt⟩, ok_bind, ofOption_eq_ok, word_eq_some]

theorem recipient_of_form {r : Option Address} {t : Tree} (h : RecipientForm r t) :
    Decoder.nullable (Decoder.octets 20) t = .ok r := by
  cases h with
  | nobody => rfl
  | address h =>
    have hsome := congrArg (Except.map some) (octets_of_form h)
    cases h <;> exact hsome

theorem keys_of_form {keys : List (Octets 32)} {t : Tree}
    (h : ListForm (fun k : Octets 32 => BytesForm k.bytes) keys t) :
    Decoder.list (Decoder.octets 32) t = .ok keys := by
  refine list_of_form ?_ h
  exact fun _ _ => octets_of_form

theorem AccessListEntry.takes {e : AccessListEntry} {base : List (String × Tree)}
    (h : InForms e.forms base) : Takes decode (e.forms.map MemberForm.name) base e := by
  refine h.takes (.and (.and (Record.reads_of _) (h.required ?_ fun t => octets_of_form))
    (h.required ?_ fun t => keys_of_form)) rfl (List.Subset.refl _) <;>
    simp [forms]

theorem AccessListEntry.decode_of_form {e : AccessListEntry} {t : Tree} (h : ObjectForm e.forms t) :
    decode t = .ok e := by
  obtain ⟨base, all, rfl, hbase, hall⟩ := h
  exact takes hbase all hall

theorem entries_of_form {entries : List AccessListEntry} {t : Tree}
    (h : ListForm (fun e : AccessListEntry => ObjectForm e.forms) entries t) :
    Decoder.list AccessListEntry.decode t = .ok entries := by
  refine list_of_form ?_ h
  exact fun _ _ => AccessListEntry.decode_of_form

theorem LegacyTransaction.takes {tx : LegacyTransaction} {base : List (String × Tree)}
    (h : InForms tx.forms base) {known : List String}
    (hknown : tx.forms.map MemberForm.name ⊆ known) : Takes decode known base tx := by
  refine h.takes (.and (.and (.and (.and (.and (.and (.and (Record.reads_of _)
    (h.required ?_ fun t => word_of_form)) (h.required ?_ fun t => word_of_form))
    (h.required ?_ fun t => quantity_iff.mpr)) (h.required ?_ fun t => word_of_form))
    (h.optional ?_ fun t => recipient_of_form)) (h.required ?_ fun t => quantity_iff.mpr))
    (h.optional ?_ fun t => bytes_iff.mpr)) rfl hknown <;> simp [forms]

theorem FeeTransaction.takes {tx : FeeTransaction} {base : List (String × Tree)}
    (h : InForms tx.forms base) {known : List String}
    (hknown : tx.forms.map MemberForm.name ⊆ known) : Takes decode known base tx := by
  refine h.takes (.and (.and (.and (.and (.and (.and (.and (.and (.and (Record.reads_of _)
    (h.required ?_ fun t => word_of_form)) (h.required ?_ fun t => word_of_form))
    (h.required ?_ fun t => quantity_iff.mpr)) (h.required ?_ fun t => quantity_iff.mpr))
    (h.required ?_ fun t => word_of_form)) (h.optional ?_ fun t => recipient_of_form))
    (h.required ?_ fun t => quantity_iff.mpr)) (h.optional ?_ fun t => bytes_iff.mpr))
    (h.optional ?_ fun t => entries_of_form)) rfl hknown <;> simp [forms]

/-! ### Whole transactions -/

theorem WordForm.sound {bits : Nat} {n : Word bits} {t : Tree} (h : WordForm n t) :
    t.sound = true := by
  subst h
  rfl

theorem RecipientForm.sound {r : Option Address} {t : Tree} (h : RecipientForm r t) :
    t.sound = true := by
  cases h with
  | nobody => rfl
  | address h => exact h.sound

theorem AccessListEntry.sound_of_form {e : AccessListEntry} {t : Tree} (h : ObjectForm e.forms t) :
    t.sound = true := by
  refine h.sound ?_
  simp only [forms, List.forall_mem_cons]
  exact ⟨fun t h => h.sound, fun t h => h.sound fun _ _ => BytesForm.sound, nofun⟩

namespace Transaction

theorem sound_of_form (t : Transaction) : ∀ f ∈ t.forms, ∀ u, f.form u → u.sound = true := by
  cases t with
  | legacy tx =>
    simp only [forms, LegacyTransaction.forms, List.forall_mem_cons]
    exact ⟨fun _ h => h.sound, fun _ h => h.sound, fun _ h => h.sound, fun _ h => h.sound,
      fun _ h => h.sound, fun _ h => h.sound, fun _ h => h.sound, nofun⟩
  | fee tx =>
    simp only [forms, FeeTransaction.forms, List.forall_mem_cons]
    exact ⟨fun _ h => h.sound, fun _ h => h.sound, fun _ h => h.sound, fun _ h => h.sound,
      fun _ h => h.sound, fun _ h => h.sound, fun _ h => h.sound, fun _ h => h.sound,
      fun _ h => h.sound fun _ _ => AccessListEntry.sound_of_form, nofun⟩

theorem type_notMem (t : Transaction) : "type" ∉ t.forms.map MemberForm.name := by
  cases t <;> simp [forms, LegacyTransaction.forms, FeeTransaction.forms]

/-- The members are taken wherever the kind stands among them. -/
theorem takes {t : Transaction} {base : List (String × Tree)} (h : InForms t.forms base) :
    Takes decode ("type" :: t.forms.map MemberForm.name) (("type", .string t.kind) :: base) t := by
  have hbase : ∀ m ∈ base, m.1 ≠ "type" ∧ m.2.sound = true := by
    intro m hm
    obtain ⟨f, hf, hform⟩ := h.form_of_mem hm
    refine ⟨fun heq => t.type_notMem ?_, t.sound_of_form f hf m.2 hform⟩
    exact heq ▸ h.declared (List.mem_map_of_mem hm)
  have hknown := List.subset_cons_self "type" (t.forms.map MemberForm.name)
  cases t with
  | legacy tx => exact takes_tagged rfl List.mem_cons_self hbase ((tx.takes h hknown).map _)
  | fee tx => exact takes_tagged rfl List.mem_cons_self hbase ((tx.takes h hknown).map _)

/-- A document that gives a transaction is read as it. -/
theorem ofJson_of_given {t : Transaction} {input : Bytes} (hended : (read .any input).ended = true)
    (h : t.GivenBy (read .any input).root) : ofJson input = .ok t := by
  obtain ⟨base, all, hroot, hbase, hall⟩ := h
  have hdecode : decodeDocument decode input = .ok t := by
    rw [decodeDocument, decodeShaped, hroot, takes hbase all hall, ok_bind, if_pos hended]
  rw [ofJson, hdecode]

end Transaction

/-! ### What is written -/

theorem wordForm_written (n : Word 64) : WordForm n (Json.nat n).tree := tree_nat n.isLt

theorem recipientForm_written (r : Option Address) : RecipientForm r (recipientJson r).tree := by
  cases r with
  | none => exact .nobody
  | some a => exact .address (bytesForm_written a.bytes)

theorem AccessListEntry.form_written (e : AccessListEntry) : ObjectForm e.forms e.toJson.tree := by
  have hmembers : InForms e.forms (treesOf [("address", ofBytes e.address.bytes),
      ("storageKeys", .array (e.storageKeys.map fun k => ofBytes k.bytes))]) := by
    refine inForms_written (by simp) (List.Subset.refl _) ?_
    simp only [forms, List.forall_mem_cons]
    exact ⟨⟨_, rfl, bytesForm_written _⟩,
      ⟨_, rfl, listForm_written (fun k : Octets 32 => bytesForm_written k.bytes) _⟩, nofun⟩
  refine ⟨_, _, ?_, hmembers, extends_self _ _⟩
  rw [map_named_treesOf]
  rfl

namespace Transaction

/-- The members that are written besides the kind. -/
def members : Transaction → List (String × Json)
  | .legacy tx => tx.members
  | .fee tx => tx.members

theorem toJson_eq (t : Transaction) :
    t.toJson = .object (("type", .string t.kind) :: t.members) := by
  cases t <;> rfl

theorem inForms_members (t : Transaction) : InForms t.forms (treesOf t.members) := by
  cases t with
  | legacy tx =>
    refine inForms_written (by simp [members, LegacyTransaction.members]) (List.Subset.refl _) ?_
    simp only [forms, LegacyTransaction.forms, List.forall_mem_cons]
    exact ⟨⟨_, rfl, wordForm_written _⟩, ⟨_, rfl, wordForm_written _⟩,
      ⟨_, rfl, quantityForm_written _⟩,
      ⟨_, rfl, wordForm_written _⟩, ⟨_, rfl, recipientForm_written _⟩,
      ⟨_, rfl, quantityForm_written _⟩, ⟨_, rfl, bytesForm_written _⟩, nofun⟩
  | fee tx =>
    refine inForms_written (by simp [members, FeeTransaction.members]) (List.Subset.refl _) ?_
    simp only [forms, FeeTransaction.forms, List.forall_mem_cons]
    exact ⟨⟨_, rfl, wordForm_written _⟩, ⟨_, rfl, wordForm_written _⟩,
      ⟨_, rfl, quantityForm_written _⟩,
      ⟨_, rfl, quantityForm_written _⟩, ⟨_, rfl, wordForm_written _⟩,
      ⟨_, rfl, recipientForm_written _⟩,
      ⟨_, rfl, quantityForm_written _⟩, ⟨_, rfl, bytesForm_written _⟩,
      ⟨_, rfl, listForm_written AccessListEntry.form_written _⟩, nofun⟩

end Transaction

/-! ### Text that is written -/

theorem recipientJson_within (d : Nat) (r : Option Address) : (recipientJson r).ReadWithin d := by
  cases r <;> exact ⟨trivial, Nat.zero_le d⟩

theorem AccessListEntry.toJson_within (e : AccessListEntry) : e.toJson.ReadWithin 2 := by
  refine .object ?_
  simp only [List.forall_mem_cons]
  exact ⟨.string 1 _, .array (List.forall_mem_map.mpr fun k _ => .string 0 _), nofun⟩

namespace Transaction

theorem toJson_within (t : Transaction) : t.toJson.ReadWithin 4 := by
  cases t with
  | legacy tx =>
    refine .object ?_
    simp only [LegacyTransaction.members, List.forall_mem_cons]
    exact ⟨.string 3 _, .nat 3 _, .nat 3 _, .string 3 _, .nat 3 _, recipientJson_within 3 _,
      .string 3 _, .string 3 _, nofun⟩
  | fee tx =>
    refine .object ?_
    simp only [FeeTransaction.members, List.forall_mem_cons]
    exact ⟨.string 3 _, .nat 3 _, .nat 3 _, .string 3 _, .string 3 _, .nat 3 _,
      recipientJson_within 3 _,
      .string 3 _, .string 3 _, .array (List.forall_mem_map.mpr fun e _ => e.toJson_within), nofun⟩

/-- The compact text of a transaction is read as the transaction. -/
theorem ofJson_toJson (t : Transaction) : ofJson (Utf8.encode t.toJson.render) = .ok t := by
  obtain ⟨hnumbers, hdepth⟩ := t.toJson_within
  have hread := read_render t.toJson hnumbers (Nat.le_trans hdepth (by decide))
  refine ofJson_of_given (by rw [hread]) ?_
  rw [hread]
  refine ⟨treesOf t.members, treesOf (("type", .string t.kind) :: t.members), ?_, t.inForms_members,
    extends_self _ _⟩
  rw [toJson_eq, map_named_treesOf]
  rfl

/-- A transaction comes back from what is written for it; so whatever document it was read from,
writing and reading it changes neither the transaction nor what is signed. A document that gives a
transaction is read as it. Wide numbers and byte strings are taken in their forms and in no others.
-/
theorem transactions_back_from_json :
    (∀ t, ofJson (Utf8.encode t.toJson.render) = .ok t) ∧
    (∀ input t, ofJson input = .ok t →
      ofJson (Utf8.encode t.toJson.render) = ofJson input ∧
        (ofJson (Utf8.encode t.toJson.render)).map unsigned = .ok t.unsigned) ∧
    (∀ input t, (read .any input).ended = true → t.GivenBy (read .any input).root →
      ofJson input = .ok t) ∧
    (∀ (u : Tree) (n : Word 256), Decoder.quantity u = .ok n ↔ QuantityForm n u) ∧
    ∀ (u : Tree) (b : Bytes), Decoder.bytes u = .ok b ↔ BytesForm b u := by
  refine ⟨ofJson_toJson, fun input t h => ⟨?_, ?_⟩, fun _ _ => ofJson_of_given,
    fun _ _ => quantity_iff, fun _ _ => bytes_iff⟩
  · rw [h, ofJson_toJson]
  · rw [ofJson_toJson]
    rfl

/-- A deployment that costs two. -/
def deployment : LegacyTransaction where
  chainId := 1
  nonce := 0
  gasPrice := 1000
  gasLimit := 21000
  recipient := none
  value := 2
  data := [0x60, 0xff]

/-- Members that give it without a recipient, numbers and octets in other forms than are written. -/
def looseMembers : List (String × Json) :=
  [("chainId", .nat 1), ("nonce", .nat 0), ("gasPrice", .string "0O1_750"),
    ("gasLimit", .nat 21000), ("value", .nat 2), ("data", .array [.nat 0x60, .nat 0xff])]

theorem inForms_loose : InForms deployment.forms (treesOf looseMembers) := by
  refine inForms_treesOf (by decide) (by decide) ?_
  simp only [LegacyTransaction.forms, List.forall_mem_cons]
  exact ⟨.inl ⟨_, rfl, wordForm_written 1⟩, .inl ⟨_, rfl, wordForm_written 0⟩,
    .inl ⟨_, rfl, quantity_iff.mp (by decide)⟩, .inl ⟨_, rfl, wordForm_written 21000⟩,
    .inr ⟨rfl, rfl⟩,
    .inl ⟨_, rfl, quantity_iff.mp (by decide)⟩, .inl ⟨_, rfl, bytes_iff.mp (by decide)⟩, nofun⟩

/-- Such members are read in another order and with a note in front; written anew they give the same
to sign. -/
theorem loose_deployment_read :
    let members := ("type", Json.string "legacy") :: looseMembers ++ [("note", .array [.null])]
    let input := Utf8.encode (Json.object members.reverse).render
    ofJson input = .ok (.legacy deployment) ∧
      (ofJson (Utf8.encode (Transaction.legacy deployment).toJson.render)).map unsigned =
        .ok deployment.unsigned := by
  intro members input
  obtain ⟨-, hagain, hgiven, -⟩ := transactions_back_from_json
  have hnumbers : (Json.object members.reverse).IsRead :=
    ⟨⟨trivial, trivial⟩, ⟨rfl, rfl, trivial⟩, rfl, rfl, trivial, rfl, rfl, trivial, trivial⟩
  have hread : read .any input = ⟨(Json.object members.reverse).tree, true⟩ :=
    read_render (Json.object members.reverse) hnumbers (by decide)
  have hperm : (treesOf members.reverse).Perm (treesOf members) := (List.reverse_perm members).map _
  have hinput : ofJson input = .ok (.legacy deployment) := by
    refine hgiven input (.legacy deployment) (by rw [hread]) ?_
    rw [hread]
    refine ⟨treesOf looseMembers, treesOf members.reverse, ?_, inForms_loose,
      treesOf [("note", .array [.null])], hperm, by decide⟩
    rw [map_named_treesOf]
    rfl
  exact ⟨hinput, (hagain input (.legacy deployment) hinput).2⟩

end Transaction

end Countersign

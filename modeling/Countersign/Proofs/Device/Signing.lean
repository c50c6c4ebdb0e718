import Countersign.Proofs.Device.Session
import Countersign.Proofs.Ethereum.Refusal

/-!
# What the Ethereum app signs

An input that cannot be read is refused before anything is sent. What is signed otherwise is the
input as it was read: the commands carry nothing but the path and its encoding, and the result is
made of the signature in the last answer.
-/
namespace Countersign

/-! ### Answers with a signature -/

/-- A command for each answer, one after the other, was sent over a link. The commands carry a
payload in pieces, and the last answer begins with a signature. -/
def Link.Signs (link : Link) (payload : Bytes) (g : Signature) (link' : Link) : Prop :=
  ∃ (commands : List Apdu) (answers : List Bytes) (more : Bytes),
    commands.flatMap Apdu.data = payload ∧ answers.length = commands.length ∧
    link.replies = answers.map Exchange.success ++ link'.replies ∧
    link' = { link with replies := link'.replies, log := link.log ++ commands.map .send } ∧
    answers.getLast? = some (g.v :: (g.r.bytes ++ g.s.bytes ++ more))

namespace Signature

theorem part_ok {name : String} {b : Bytes} {o : Octets 32} (h : part name b = .ok o) :
    o.bytes = b := by
  unfold part Octets.ofBytes? at h
  split at h
  next hsome =>
    split at hsome
    next => rw [← Except.ok.inj h, ← Option.some.inj hsome]
    next => cases hsome
  next => cases h

/-- A signature is read from the octets that it has. -/
theorem ofReply_ok {b : Bytes} {g : Signature} (h : ofReply b = .ok g) :
    ∃ more, b = g.v :: (g.r.bytes ++ g.s.bytes ++ more) := by
  unfold ofReply at h
  split at h
  next v rest =>
    split at h
    next =>
      obtain ⟨r, hr, h⟩ := exists_of_bind_ok h
      obtain ⟨s, hs, h⟩ := exists_of_bind_ok h
      obtain rfl := Except.ok.inj h
      refine ⟨(rest.drop 32).drop 32, ?_⟩
      rw [part_ok hr, part_ok hs, List.append_assoc, List.take_append_drop, List.take_append_drop]
    next => cases h
  next => cases h

end Signature

namespace EthereumApp

open Exchange

/-- The pieces together are the payload. -/
theorem flatMap_pieceCommands (ins : UInt8) (payload : Bytes) :
    (pieceCommands ins payload).flatMap Apdu.data = payload := by
  have hflat := Bytes.flatten_chunks (by decide : 0 < Apdu.maxData) payload
  unfold pieceCommands
  cases hc : Bytes.chunks Apdu.maxData payload with
  | nil =>
    rw [hc] at hflat
    exact hflat
  | cons piece rest =>
    rw [hc, List.flatten_cons] at hflat
    simpa [List.flatMap_map, List.flatMap_id'] using hflat

theorem signPieces_ok {ins : UInt8} {payload : Bytes} {g : Signature} {link link' : Link}
    (h : (signPieces ins payload).on link = (.ok g, link')) : link.Signs payload g link' := by
  obtain ⟨b, between, hdata, hreply⟩ := on_bind_ok h
  obtain ⟨hsignature, rfl⟩ := Prod.mk.inj hreply
  obtain ⟨answers, hlength, hreplies, hlink, hlast⟩ := dataOfLast_ok hdata
  obtain ⟨more, rfl⟩ := Signature.ofReply_ok hsignature
  refine ⟨_, answers, more, flatMap_pieceCommands ins payload, hlength, hreplies, hlink, ?_⟩
  cases hanswer : answers.getLast? with
  | none =>
    rw [hanswer] at hlast
    cases hlast
  | some last =>
    rw [hanswer] at hlast
    exact congrArg some hlast

theorem signTypedData_ok {path : DerivationPath} {domain message : Bytes} {g : Signature}
    {link link' : Link} (h : (signTypedData path domain message).on link = (.ok g, link')) :
    link.Signs (path.ethereumBytes ++ (domain ++ message)) g link' := by
  obtain ⟨b, between, hdata, hreply⟩ := on_bind_ok h
  obtain ⟨hsignature, rfl⟩ := Prod.mk.inj hreply
  obtain ⟨hreplies, hlink⟩ := data_ok hdata
  obtain ⟨more, rfl⟩ := Signature.ofReply_ok hsignature
  exact ⟨[_], [_], more, by simp, rfl, hreplies, hlink, rfl⟩

end EthereumApp

/-! ### What is read -/

/-- What is signed: a message, a transaction, or the hashes of the domain and the message of typed
data. -/
inductive Signable where
  | message (text : Bytes)
  | transaction (tx : Transaction)
  | typedData (domain hash : Bytes)

namespace Signable

/-- What goes to the device behind the path. -/
def payload : Signable → Bytes
  | message text => Bytes.ofNat 4 text.length ++ text
  | transaction tx => tx.unsigned
  | typedData domain hash => domain ++ hash

/-- What a signature is handed back as. -/
def output (g : Signature) : Signable → Bytes
  | message _ => g.toBytes
  | transaction tx => tx.signed g
  | typedData _ _ => g.toBytes

/-- What an input is read as. Typed data has to be read, to pass validation and to have both hashes;
the length of a message has to fit four octets. -/
inductive Reads : SignKind → Bytes → Signable → Prop
  | message {text : Bytes} (h : text.length < 2 ^ 32) : Reads .message text (message text)
  | transaction {text : Bytes} {tx : Transaction} (h : Transaction.ofJson text = .ok tx) :
      Reads .transaction text (transaction tx)
  | typedData {text : Bytes} {d : TypedData} {domain hash : Bytes}
      (hread : TypedData.ofJson text = .ok d) (hvalid : d.validate = .ok ())
      (hdomain : d.domain.separator = .ok domain) (hhash : d.messageHash = .ok hash) :
      Reads .typedData text (typedData domain hash)

/-- The errors of an input that cannot be read. -/
inductive Unreadable : SignKind → Error → Prop
  | transaction (detail : String) : Unreadable .transaction (.invalidTransaction detail)
  | typedData {e : Error} (h : TypedData.Refusal e) : Unreadable .typedData e

end Signable

namespace Session

open Signable

theorem reads_of_typedHashes {text domain message : Bytes}
    (h : typedHashes text = .ok (domain, message)) :
    Reads .typedData text (.typedData domain message) := by
  obtain ⟨d, hread, h⟩ := exists_of_bind_ok h
  obtain ⟨_, hvalid, h⟩ := exists_of_bind_ok h
  obtain ⟨separator, hseparator, h⟩ := exists_of_bind_ok h
  obtain ⟨hash, hhash, h⟩ := exists_of_bind_ok h
  obtain ⟨rfl, rfl⟩ := Prod.mk.inj (Except.ok.inj h)
  refine .typedData ?_ ?_ hseparator hhash
  · cases hd : TypedData.ofJson text with
    | error e => simp [hd] at hread
    | ok d' =>
      rw [hd] at hread
      exact congrArg _ (Except.ok.inj hread)
  · cases hd : d.validate with
    | error e => simp [hd] at hvalid
    | ok u => rfl

theorem on_of_wrapped {α : Type} {wrap : String → Error} {x : Exchange α} {link link' : Link}
    {a : α} (h : (wrapped wrap x).on link = (.ok a, link')) : x.on link = (.ok a, link') := by
  simp only [wrapped, Exchange.on] at h ⊢
  rcases hx : x link with ⟨e | b, between⟩ <;> rw [hx] at h
  · cases h
  · exact h

/-- Signing with wrapped errors hands back what is made of the signature. -/
theorem signs_of_wrapped {x : Exchange Signature} {payload out : Bytes} {f : Signature → Bytes}
    {link link' : Link} (hx : ∀ g, x.on link = (.ok g, link') → link.Signs payload g link')
    (h : (do let g ← wrapped .failedSign x; return f g : Exchange Bytes).on link =
      (.ok out, link')) :
    ∃ g, link.Signs payload g link' ∧ out = f g := by
  obtain ⟨g, between, hg, hout⟩ := Exchange.on_bind_ok h
  obtain ⟨hf, rfl⟩ := Prod.mk.inj hout
  exact ⟨g, hx g (on_of_wrapped hg), (Except.ok.inj hf).symm⟩

variable {s : Session} {kind : SignKind} {path : DerivationPath} {text : Bytes}

theorem signEthereum_signing (hs : s.persona = some .ethereum) {x : Exchange Bytes}
    (hx : signing kind path text = .ok x) :
    s.signEthereum kind path text =
      ((x.on s.link).1.mapError .refused, { s with link := (x.on s.link).2 }) := by
  simp only [signEthereum, hs, hx, run]

/-- An input that cannot be read is refused, and the session is left as it is. -/
theorem signEthereum_unreadable (hs : s.persona = some .ethereum)
    (hlength : kind = .message → text.length < 2 ^ 32) (h : ∀ x, ¬Reads kind text x) :
    ∃ e, Unreadable kind e ∧ s.signEthereum kind path text = (.error (.refused e), s) := by
  cases kind with
  | message => exact absurd (.message (hlength rfl)) (h _)
  | transaction =>
    cases hread : Transaction.ofJson text with
    | ok tx => exact absurd (.transaction hread) (h _)
    | error e =>
      have he : Unreadable .transaction e := by
        unfold Transaction.ofJson at hread
        split at hread
        next => cases hread
        next => exact Except.error.inj hread ▸ .transaction _
      refine ⟨e, he, ?_⟩
      rw [signEthereum_signing hs rfl, hread, Exchange.on_bind]
      rfl
  | typedData =>
    cases hhashes : typedHashes text with
    | ok hashes => exact absurd (reads_of_typedHashes hhashes) (h _)
    | error fault =>
      obtain ⟨e, rfl, he⟩ := typedHashes_refuses text fault hhashes
      have hsigning : signing .typedData path text = .ok (Exchange.lift (.error e)) := by
        simp only [signing, hhashes]
      refine ⟨e, .typedData he, ?_⟩
      rw [signEthereum_signing hs hsigning]
      rfl

/-- What is signed is what was read. -/
theorem signing_ok {x : Exchange Bytes} (hx : signing kind path text = .ok x)
    (hlength : kind = .message → text.length < 2 ^ 32) {out : Bytes} {link link' : Link}
    (h : x.on link = (.ok out, link')) :
    ∃ y g, Reads kind text y ∧ link.Signs (path.ethereumBytes ++ y.payload) g link' ∧
      out = y.output g := by
  cases kind with
  | message =>
    obtain rfl := Except.ok.inj hx
    obtain ⟨g, hsigns, rfl⟩ := signs_of_wrapped (fun g => EthereumApp.signPieces_ok) h
    rw [List.append_assoc] at hsigns
    exact ⟨_, g, .message (hlength rfl), hsigns, rfl⟩
  | transaction =>
    obtain rfl := Except.ok.inj hx
    obtain ⟨tx, between, hread, hrest⟩ := Exchange.on_bind_ok h
    obtain ⟨htx, rfl⟩ := Prod.mk.inj hread
    obtain ⟨g, hsigns, rfl⟩ := signs_of_wrapped (fun g => EthereumApp.signPieces_ok) hrest
    exact ⟨_, g, .transaction htx, hsigns, rfl⟩
  | typedData =>
    cases hhashes : typedHashes text with
    | error fault =>
      cases fault with
      | overrun length => simp [signing, hhashes] at hx
      | refused e =>
        simp only [signing, hhashes, Except.ok.injEq] at hx
        subst hx
        cases h
    | ok hashes =>
      simp only [signing, hhashes, Except.ok.injEq] at hx
      subst hx
      obtain ⟨g, hsigns, rfl⟩ := signs_of_wrapped (fun g => EthereumApp.signTypedData_ok) h
      exact ⟨_, g, reads_of_typedHashes hhashes, hsigns, rfl⟩

/-- An input that cannot be read is refused with an error of its kind; nothing is sent, and the
session stays ready. If there is a result, the input was read, the commands carry the path in
twenty-one octets and the input as it was read, and the result is made of the signature that the
last answer begins with; nothing else about the session has changed. The four octets in front of a
message are its length. -/
theorem signs_what_was_read (s : Session) (hs : s.persona = some .ethereum) (kind : SignKind)
    (path : DerivationPath) (text : Bytes) (hlength : kind = .message → text.length < 2 ^ 32) :
    ((∀ x, ¬Reads kind text x) → ∃ e, Unreadable kind e ∧
      s.signEthereum kind path text = (.error (.refused e), s) ∧ s.state = .ready .ethereum) ∧
    (∀ out s', s.signEthereum kind path text = (.ok out, s') → ∃ x g, Reads kind text x ∧
      s.link.Signs (path.ethereumBytes ++ x.payload) g s'.link ∧ s' = { s with link := s'.link } ∧
      out = x.output g) ∧
    path.ethereumBytes.length = 21 ∧
    (kind = .message → Bytes.toNat (Bytes.ofNat 4 text.length) = text.length) := by
  refine ⟨fun h => ?_, fun out s' h => ?_, path.length_ethereumBytes, fun hkind => ?_⟩
  · obtain ⟨e, he, hrefused⟩ := signEthereum_unreadable hs hlength h
    exact ⟨e, he, hrefused, by simp only [state, hs]; rfl⟩
  · cases hx : signing kind path text with
    | error fault =>
      simp [signEthereum, hs, hx] at h
    | ok x =>
      rw [signEthereum_signing hs hx] at h
      obtain ⟨hout, rfl⟩ := Prod.mk.inj h
      have hok : x.on s.link = (.ok out, (x.on s.link).2) := by
        refine Prod.ext ?_ rfl
        cases hr : (x.on s.link).1 with
        | error e => simp [hr, Except.mapError] at hout
        | ok b =>
          rw [hr] at hout
          exact congrArg _ (Except.ok.inj hout)
      obtain ⟨y, g, hreads, hsigns, rfl⟩ := signing_ok hx hlength hok
      exact ⟨y, g, hreads, hsigns, rfl, rfl⟩
  · have hshort : text.length < 256 ^ 4 := hlength hkind
    rw [Bytes.toNat_ofNat, Nat.mod_eq_of_lt hshort]

/-- A session whose device takes two pieces and answers the second one with a signature. -/
def twoPieces : Session :=
  ⟨some .ethereum, .fresh [Exchange.success [],
    Exchange.success (28 :: (Bytes.ofNat 32 7 ++ Bytes.ofNat 32 9))] none⟩

/-- A message of 240 octets goes in pieces of 255 and ten octets; typed data without a domain is
refused. -/
theorem pieces_signed_and_blank_refused :
    let path := DerivationPath.first DerivationPath.ethereumCoin
    let text : Bytes := List.replicate 240 0x61
    twoPieces.persona = some .ethereum ∧ text.length < 2 ^ 32 ∧
      (twoPieces.signEthereum .message path text).1 =
        .ok (Bytes.ofNat 32 7 ++ Bytes.ofNat 32 9 ++ [28]) ∧
      (twoPieces.signEthereum .message path text).2.link.sent.map (·.data.length) = [255, 10] ∧
      (∃ g : Signature, twoPieces.link.Signs (path.ethereumBytes ++ (Bytes.ofNat 4 240 ++ text)) g
        (twoPieces.signEthereum .message path text).2.link) ∧
      ∃ e, Unreadable .typedData e ∧
        twoPieces.signEthereum .typedData path (Utf8.encode "\x7b\x7d") =
          (.error (.refused e), twoPieces) := by
  intro path text
  have hlength : text.length = 240 := List.length_replicate
  have hshort : text.length < 2 ^ 32 := by omega
  have hout : (twoPieces.signEthereum .message path text).1 =
      .ok (Bytes.ofNat 32 7 ++ Bytes.ofNat 32 9 ++ [28]) := by
    decide +kernel
  obtain ⟨-, hsigned, -⟩ :=
    signs_what_was_read twoPieces rfl .message path text fun _ => hshort
  obtain ⟨x, g, hread, hsigns, -⟩ :=
    hsigned _ (twoPieces.signEthereum .message path text).2 (Prod.ext hout rfl)
  obtain ⟨hrefused, -⟩ := signs_what_was_read twoPieces rfl .typedData path
    (Utf8.encode "\x7b\x7d") nofun
  obtain ⟨e, he, hblank, -⟩ := hrefused fun x hx => by
    cases hx with
    | typedData hread =>
      have hnone : (TypedData.ofJson (Utf8.encode "\x7b\x7d")).toOption = none := by decide +kernel
      rw [hread] at hnone
      cases hnone
  cases hread with
  | message =>
    rw [payload, hlength] at hsigns
    exact ⟨rfl, hshort, hout, by decide +kernel, ⟨g, hsigns⟩, e, he, hblank⟩

end Session

end Countersign

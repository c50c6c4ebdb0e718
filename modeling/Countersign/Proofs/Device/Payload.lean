import Countersign.Proofs.Device.PathOctets
import Countersign.Proofs.Device.Pieces

/-!
# Signing a payload in pieces

The Ethereum app gets the path and what it is to sign as one payload, in pieces that are full up to
the last one. An app that starts anew with the first piece and adds the others holds the payload in
the end, whatever it has got before. It finds the path in front, and behind it a message of just the
length that is announced. The first reply that is no success ends it, and otherwise the signature is
read from the last one.
-/
namespace Countersign

/-! ### Replies with a signature -/

namespace Signature

theorem part_of_length {name : String} {b : Bytes} (h : b.length = 32) :
    part name b = .ok ⟨b, h⟩ := by
  simp only [part, Octets.ofBytes?, h, dite_true]

theorem ofReply_short {reply : Bytes} (h : reply.length < 65) :
    ∃ text, ofReply reply = .error (.invalidSignature text) := by
  cases reply with
  | nil => exact ⟨_, rfl⟩
  | cons v rest =>
    rw [List.length_cons] at h
    exact ⟨_, if_neg (by omega)⟩

theorem ofReply_long {reply : Bytes} (h : 65 ≤ reply.length) : ∃ g, ofReply reply = .ok g := by
  cases reply with
  | nil => cases h
  | cons v rest =>
    rw [List.length_cons] at h
    have hr : (rest.take 32).length = 32 := by
      rw [List.length_take]
      omega
    have hs : ((rest.drop 32).take 32).length = 32 := by
      rw [List.length_take, List.length_drop]
      omega
    refine ⟨⟨⟨_, hr⟩, ⟨_, hs⟩, v⟩, ?_⟩
    simp only [ofReply, if_pos (show 64 ≤ rest.length by omega), ofParts, part_of_length hr,
      part_of_length hs]
    rfl

/-- What a reply is read as: nothing if it is too short for a signature, and otherwise the signature
that it begins with. -/
inductive ReadAs (reply : Bytes) : Except Error Signature → Prop
  | short (text : String) (h : reply.length < 65) : ReadAs reply (.error (.invalidSignature text))
  | signature {g : Signature} {more : Bytes} (h : reply = g.v :: (g.r.bytes ++ g.s.bytes ++ more)) :
      ReadAs reply (.ok g)

theorem readAs_ofReply (reply : Bytes) : ReadAs reply (ofReply reply) := by
  rcases Nat.lt_or_ge reply.length 65 with hshort | hlong
  · obtain ⟨text, htext⟩ := ofReply_short hshort
    exact htext ▸ .short text hshort
  · obtain ⟨g, hg⟩ := ofReply_long hlong
    obtain ⟨more, hmore⟩ := ofReply_ok hg
    exact hg ▸ .signature hmore

end Signature

namespace EthereumApp

/-! ### The receiver -/

/-- What an app holds that starts anew with a first piece and adds every other one. -/
def hold (held : Bytes) (a : Apdu) : Bytes :=
  if a.p1 = 0x00 then a.data else if a.p1 = 0x80 then held ++ a.data else held

/-- What an app holds after commands in turn. -/
def holdAll (held : Bytes) (as : List Apdu) : Bytes :=
  as.foldl hold held

/-- The path and the message in a payload: the numbers of the path, the length of the message in
four octets, and the message, behind which there is nothing. -/
def message? (payload : Bytes) : Option (List Nat × Bytes) := do
  let (path, rest) ← Bytes.counted? payload
  let (announced, text) ← Bytes.words? Bytes.toNat 1 rest
  if announced = [text.length] then some (path, text) else none

/-- The command that carries the first piece of a payload. -/
def firstCommand (ins : UInt8) (piece : Bytes) : Apdu :=
  ⟨cla, ins, 0x00, 0, piece⟩

/-- The command that carries another piece of a payload. -/
def moreCommand (ins : UInt8) (piece : Bytes) : Apdu :=
  ⟨cla, ins, 0x80, 0, piece⟩

theorem hold_first (held : Bytes) (ins : UInt8) (piece : Bytes) :
    hold held (firstCommand ins piece) = piece := rfl

theorem hold_more (held : Bytes) (ins : UInt8) (piece : Bytes) :
    hold held (moreCommand ins piece) = held ++ piece := rfl

/-- Whatever is held already, the pieces are put behind it in turn. -/
theorem holdAll_more (held : Bytes) (ins : UInt8) (pieces : List Bytes) :
    holdAll held (pieces.map (moreCommand ins)) = held ++ pieces.flatten := by
  induction pieces generalizing held with
  | nil => exact (List.append_nil held).symm
  | cons piece pieces ih =>
    calc holdAll held ((piece :: pieces).map (moreCommand ins))
        = holdAll (held ++ piece) (pieces.map (moreCommand ins)) := by
          rw [List.map_cons, holdAll, List.foldl_cons, hold_more, holdAll]
      _ = held ++ (piece :: pieces).flatten := by
          rw [ih, List.flatten_cons, List.append_assoc]

/-! ### The pieces -/

/-- The commands for a payload that is not empty. -/
theorem pieceCommands_eq (ins : UInt8) {payload : Bytes} (h : payload ≠ []) :
    ∃ first more full last, first :: more = full ++ [last] ∧ Bytes.CutInto 255 payload full last ∧
      pieceCommands ins payload = firstCommand ins first :: more.map (moreCommand ins) := by
  obtain ⟨full, last, hchunks, hcut⟩ := Bytes.chunks_eq (by decide : 0 < Apdu.maxData) h
  cases hpieces : full ++ [last] with
  | nil => simp at hpieces
  | cons first more =>
    refine ⟨first, more, full, last, hpieces.symm, hcut, ?_⟩
    rw [pieceCommands, hchunks, hpieces]
    rfl

theorem length_pieceCommands (ins : UInt8) {payload : Bytes} (h : payload ≠ []) :
    (pieceCommands ins payload).length = (payload.length + 254) / 255 := by
  obtain ⟨first, more, full, last, hpieces, hcut, hcommands⟩ := pieceCommands_eq ins h
  obtain ⟨hlength, hpos, hle⟩ := hcut.length
  have hcount := congrArg List.length hpieces
  simp only [List.length_cons, List.length_append, List.length_nil] at hcount
  rw [hcommands, hlength, List.length_cons, List.length_map]
  omega

/-- Whatever an app has got before, it holds the payload. -/
theorem holdAll_pieceCommands (held : Bytes) (ins : UInt8) {payload : Bytes} (h : payload ≠ []) :
    holdAll held (pieceCommands ins payload) = payload := by
  obtain ⟨first, more, full, last, hpieces, hcut, hcommands⟩ := pieceCommands_eq ins h
  calc holdAll held (pieceCommands ins payload)
      = holdAll first (more.map (moreCommand ins)) := by
        rw [hcommands, holdAll, List.foldl_cons, hold_first, holdAll]
    _ = (full ++ [last]).flatten := by
        rw [holdAll_more, ← hpieces, List.flatten_cons]
    _ = payload := by
        rw [List.flatten_append, List.flatten_singleton, hcut.whole]

theorem message_payload (path : DerivationPath) {text : Bytes} (h : text.length < 2 ^ 32) :
    message? (path.ethereumBytes ++ (Bytes.ofNat 4 text.length ++ text)) =
      some (path.marked, text) := by
  have hvalue : ∀ n ∈ [text.length], Bytes.toNat (Bytes.ofNat 4 n) = n := by
    rintro n hn
    obtain rfl := List.mem_singleton.mp hn
    rw [Bytes.toNat_ofNat]
    exact Nat.mod_eq_of_lt h
  have hlength := Bytes.words_flatMap (Bytes.length_ofNat 4) hvalue text
  rw [List.length_singleton, List.flatMap_singleton] at hlength
  simp [message?, path.counted_ethereumBytes, hlength]

/-! ### The operations -/

open Exchange

/-- An operation sends a payload for an instruction and reads the signature from the last reply. The
first command carries the first piece of the payload and each other one a further piece; all pieces
are full up to the last one. An app that gets all commands holds the payload. The commands go as
their replies do. -/
structure Streams (x : Exchange Signature) (ins : UInt8) (payload : Bytes) : Prop where
  commands : ∃ first more full last, first :: more = full ++ [last] ∧
    Bytes.CutInto 255 payload full last ∧
    pieceCommands ins payload = firstCommand ins first :: more.map (moreCommand ins)
  count : (pieceCommands ins payload).length = (payload.length + 254) / 255
  held : ∀ before, holdAll before (pieceCommands ins payload) = payload
  goes : ∀ link : Link, ∃ r sent rest,
      Course (pieceCommands ins payload).length link.replies r sent rest
  on : ∀ (link : Link) r sent rest,
      Course (pieceCommands ins payload).length link.replies r sent rest →
      x.on link = (r.bind Signature.ofReply,
        { link with
          log := link.log ++ ((pieceCommands ins payload).take sent).map .send
          replies := rest })

theorem streams_signPieces (ins : UInt8) {payload : Bytes} (h : payload ≠ []) :
    Streams (signPieces ins payload) ins payload where
  commands := pieceCommands_eq ins h
  count := length_pieceCommands ins h
  held := fun before => holdAll_pieceCommands before ins h
  goes := fun link => by
    obtain ⟨first, more, _, _, -, -, hcommands⟩ := pieceCommands_eq ins h
    rw [hcommands]
    exact exists_course (Nat.succ_pos _) link.replies
  on := fun link r sent rest hcourse => by
    rw [signPieces, on_bind, on_dataOfLast [] hcourse]
    cases r <;> rfl

/-- A message of less than `2^32` octets, or a transaction, is signed as a whole. It goes behind the
path, in pieces of 255 octets up to the last one, which is not empty; the first piece is marked as
such and all others as further ones. An app that starts anew with the first piece and adds the
others finds the numbers of the path with their marks, and behind them the transaction, or the
length of the message and just that many octets. The numbers are those of no other path, as far as
they leave the bit of the mark free. The first reply that is no success ends it with its error, and
nothing is sent behind it; with no reply left the device has gone away; and if all replies are
successes the last one is read: it is no signature if and only if it has less than sixty-five
octets, and otherwise it begins with the signature. -/
theorem signs_whole_payload (path : DerivationPath) :
    (∀ text : Bytes, text.length < 2 ^ 32 →
      let payload := path.ethereumBytes ++ (Bytes.ofNat 4 text.length ++ text)
      Streams (signPersonalMessage path text) 0x08 payload ∧
        ∀ before,
          message? (holdAll before (pieceCommands 0x08 payload)) = some (path.marked, text)) ∧
    (∀ unsigned : Bytes,
      let payload := path.ethereumBytes ++ unsigned
      Streams (signTransaction path unsigned) 0x04 payload ∧
        ∀ before, Bytes.counted? (holdAll before (pieceCommands 0x04 payload)) =
          some (path.marked, unsigned)) ∧
    (∀ other : DerivationPath, path.marked = other.marked → path.IsShort → other.IsShort →
      path = other) ∧
    ∀ reply, Signature.ReadAs reply (Signature.ofReply reply) := by
  refine ⟨fun text htext => ?_, fun unsigned => ?_,
    fun other h hpath hother => (DerivationPath.marked_inj.mp h).eq hpath hother,
      Signature.readAs_ofReply⟩
  · have hstreams : Streams (signPersonalMessage path text) 0x08
        (path.ethereumBytes ++ (Bytes.ofNat 4 text.length ++ text)) := by
      rw [signPersonalMessage, List.append_assoc]
      exact streams_signPieces 0x08 (List.cons_ne_nil _ _)
    exact ⟨hstreams, fun before => by rw [hstreams.held, message_payload path htext]⟩
  · have hstreams : Streams (signTransaction path unsigned) 0x04 (path.ethereumBytes ++ unsigned) :=
      streams_signPieces 0x04 (List.cons_ne_nil _ _)
    exact ⟨hstreams, fun before => by rw [hstreams.held, path.counted_ethereumBytes]⟩

/-- A message of three hundred octets goes in two pieces: the device answers both, the second one
with a signature or with too little for one, or its user refuses at the first one. -/
theorem message_of_300_signed :
    let path := DerivationPath.first DerivationPath.ethereumCoin
    let text : Bytes := List.replicate 300 0xAB
    let payload := path.ethereumBytes ++ (Bytes.ofNat 4 text.length ++ text)
    let commands := pieceCommands 0x08 payload
    let g : Signature := ⟨.ofNat 32 7, .ofNat 32 9, 28⟩
    let reply := g.v :: (g.r.bytes ++ g.s.bytes)
    text.length < 2 ^ 32 ∧ commands.length = 2 ∧
      message? (holdAll [0xFF] commands) = some (path.marked, text) ∧
      (signPersonalMessage path text).on (Link.fresh [success [], success reply] none) =
        (.ok g, ⟨[], none, commands.map .send⟩) ∧
      (∃ why, (signPersonalMessage path text).on
          (Link.fresh [success [], success (reply.take 64)] none) =
        (.error (.invalidSignature why), ⟨[], none, commands.map .send⟩)) ∧
      (signPersonalMessage path text).on (Link.fresh [.ofStatus [] 0x6985, success reply] none) =
        (.error .signRejected, ⟨[success reply], none, (commands.take 1).map .send⟩) := by
  intro path text payload commands g reply
  have htext : text.length = 300 := List.length_replicate
  have hshort : text.length < 2 ^ 32 := by omega
  obtain ⟨hmessage, -, -, -⟩ := signs_whole_payload path
  obtain ⟨hstreams, hheld⟩ := hmessage text hshort
  have htwo : commands.length = 2 := by
    have hpayload : payload.length = 325 := by simp [payload, htext]
    rw [hstreams.count, hpayload]
  have hall : commands.take 2 = commands := htwo ▸ List.take_length
  have hboth (d : Bytes) : Course commands.length [success [], success d] (.ok d) 2 [] := by
    rw [htwo]
    exact .answered (show _ = ([[]] ++ [d]).map success ++ [] from rfl) rfl
  refine ⟨hshort, htwo, hheld [0xFF], ?_, ?_, ?_⟩
  · rw [hstreams.on (Link.fresh _ none) _ _ _ (hboth reply), hall]
    rfl
  · rw [hstreams.on (Link.fresh _ none) _ _ _ (hboth (reply.take 64)), hall]
    exact ⟨_, rfl⟩
  · have hcourse :
        Course commands.length [.ofStatus [] 0x6985, success reply] (.error .signRejected) 1
        [success reply] :=
      .failed (show _ = [].map success ++ _ :: [success reply] from rfl) (by rw [htwo]; decide)
        (Reply.outcome_ofStatus [] (by decide) (by decide))
    rw [hstreams.on (Link.fresh _ none) _ _ _ hcourse]
    rfl

end EthereumApp

end Countersign

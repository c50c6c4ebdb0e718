import Countersign.Proofs.Device.Ending

/-!
# Signing a text in pieces

A text goes to the Cosmos app behind the path, in pieces that are full up to the last one. Only the
last piece asks for the signature, so that an app that keeps what it gets signs the whole text or
nothing. The first reply that is no success ends it.
-/
namespace Countersign

/-! ### Runs of commands -/

namespace Exchange

/-- How it goes with a number of commands, of which there is one at least: what it comes to, how
many of the commands are sent, and the replies that are left. -/
inductive Course (count : Nat) (replies : List Reply) :
    Except Error Bytes → Nat → List Reply → Prop
  | answered {answers : List Bytes} {d : Bytes} {rest : List Reply}
    (h : replies = (answers ++ [d]).map success ++ rest) (hcount : answers.length + 1 = count) :
    Course count replies (.ok d) count rest
  | failed {answers : List Bytes} {reply : Reply} {rest : List Reply} {e : Error}
    (h : replies = answers.map success ++ reply :: rest) (hcount : answers.length < count)
    (he : reply.outcome = .error e) : Course count replies (.error e) (answers.length + 1) rest
  | gone {answers : List Bytes} (h : replies = answers.map success)
      (hcount : answers.length < count) :
    Course count replies (.error (.link .disconnected)) (answers.length + 1) []

/-- A success in front is one command more. -/
theorem Course.prepend {count sent : Nat} {replies rest : List Reply} {r : Except Error Bytes}
    (h : Course count replies r sent rest) (d : Bytes) :
    Course (count + 1) (success d :: replies) r (sent + 1) rest := by
  cases h with
  | @answered answers last rest h hcount =>
    have hmore : success d :: replies = ((d :: answers) ++ [last]).map success ++ rest := by
      rw [h]; rfl
    exact .answered hmore (congrArg Nat.succ hcount)
  | @failed answers reply rest e h hcount he =>
    have hmore : success d :: replies = (d :: answers).map success ++ reply :: rest := by
      rw [h]; rfl
    exact .failed hmore (Nat.succ_lt_succ hcount) he
  | @gone answers h hcount =>
    have hmore : success d :: replies = (d :: answers).map success := by rw [h]; rfl
    exact .gone hmore (Nat.succ_lt_succ hcount)

/-- It goes in one of these ways, whatever the replies are. -/
theorem exists_course {count : Nat} (hcount : 0 < count) (replies : List Reply) :
    ∃ r sent rest, Course count replies r sent rest := by
  induction replies generalizing count with
  | nil =>
    have hnone : ([] : List Reply) = [].map success := rfl
    exact ⟨_, _, _, .gone hnone hcount⟩
  | cons reply replies ih =>
    cases hreply : reply.outcome with
    | error e =>
      have hfirst : reply :: replies = [].map success ++ reply :: replies := rfl
      exact ⟨_, _, _, .failed hfirst hcount hreply⟩
    | ok d =>
      obtain rfl := eq_success hreply
      match count, hcount with
      | 1, _ =>
        have hone : success d :: replies = ([] ++ [d]).map success ++ replies := rfl
        exact ⟨_, _, _, .answered hone rfl⟩
      | count + 2, _ =>
        obtain ⟨r, sent, rest, h⟩ := ih (Nat.succ_pos count)
        exact ⟨r, sent + 1, rest, h.prepend d⟩

/-- Commands that are answered with success are behind. -/
theorem on_dataOfLast_successes {answers : List Bytes} {as : List Apdu} {link : Link}
    {rest : List Reply} (before : Bytes) (h : link.replies = answers.map success ++ rest)
    (hlength : answers.length ≤ as.length) :
    (dataOfLast before as).on link =
      (dataOfLast (answers.getLast?.getD before) (as.drop answers.length)).on
        { link with log := link.log ++ (as.take answers.length).map .send, replies := rest } := by
  induction answers generalizing before link as with
  | nil =>
    obtain ⟨replies, fault, log⟩ := link
    obtain rfl : replies = rest := h
    simp only [List.length_nil, List.take_zero, List.map_nil, List.append_nil, List.drop_zero]
    rfl
  | cons d answers ih =>
    cases as with
    | nil => cases hlength
    | cons a as =>
      have hfirst : (dataOfLast before (a :: as)).on link = (dataOfLast d as).on
          { link with log := link.log ++ [.send a], replies := answers.map success ++ rest } := by
        rw [dataOfLast, on_bind, on_data, h]
        simp only [List.map_cons, List.cons_append, outcome_success]
      rw [hfirst, ih d rfl (Nat.le_of_succ_le_succ hlength)]
      simp [List.getLast?_cons]

/-- Commands go as their replies do: the successes answer the first ones, and the next command, if
one is left, ends them. -/
theorem on_dataOfLast {as : List Apdu} {link : Link} {r : Except Error Bytes} {sent : Nat}
    {rest : List Reply} (before : Bytes) (h : Course as.length link.replies r sent rest) :
    (dataOfLast before as).on link =
      (r, { link with log := link.log ++ (as.take sent).map .send, replies := rest }) := by
  have hnext {answers : List Bytes} (hcount : answers.length < as.length) :
      as.drop answers.length = as[answers.length] :: as.drop (answers.length + 1) ∧
        as.take (answers.length + 1) = as.take answers.length ++ [as[answers.length]] :=
    ⟨List.drop_eq_getElem_cons hcount, (List.take_concat_get' as _ hcount).symm⟩
  cases h with
  | @answered answers d rest h hcount =>
    have hall : (answers ++ [d]).length = as.length := by simpa using hcount
    rw [on_dataOfLast_successes before h (Nat.le_of_eq hall), hall, List.drop_length,
      List.getLast?_concat]
    rfl
  | @failed answers reply rest e h hcount he =>
    obtain ⟨hdrop, htake⟩ := hnext hcount
    rw [on_dataOfLast_successes before h (Nat.le_of_lt hcount), hdrop, htake, dataOfLast, on_bind,
      on_data]
    simp only [he, List.map_append, List.append_assoc]
    rfl
  | @gone answers h hcount =>
    have hnone : link.replies = answers.map success ++ [] := by rw [h, List.append_nil]
    obtain ⟨hdrop, htake⟩ := hnext hcount
    rw [on_dataOfLast_successes before hnone (Nat.le_of_lt hcount), hdrop, htake, dataOfLast,
      on_bind, on_data]
    simp only [List.map_append, List.append_assoc]
    rfl

end Exchange

/-! ### The receiver -/

namespace CosmosApp

/-- An app that is asked to sign: the path and the text that it has got, and what it has signed. -/
structure Receiver where
  path : Bytes
  text : Bytes
  signed : List (Bytes × Bytes)
  deriving DecidableEq, Repr

namespace Receiver

/-- A path starts a text anew; a piece is added to the text; and the last piece has it signed. -/
def take (r : Receiver) (a : Apdu) : Receiver :=
  if a.p1 = 0x00 then { r with path := a.data, text := [] }
  else if a.p1 = 0x01 then { r with text := r.text ++ a.data }
  else if a.p1 = 0x02 then
    { r with text := r.text ++ a.data, signed := r.signed ++ [(r.path, r.text ++ a.data)] }
  else r

/-- Commands in turn. -/
def takes (r : Receiver) (as : List Apdu) : Receiver :=
  as.foldl take r

@[simp] theorem takes_nil (r : Receiver) : r.takes [] = r := rfl
@[simp] theorem takes_cons (r : Receiver) (a : Apdu) (as : List Apdu) :
    r.takes (a :: as) = (r.take a).takes as := rfl

theorem takes_append (r : Receiver) (as bs : List Apdu) :
    r.takes (as ++ bs) = (r.takes as).takes bs :=
  List.foldl_append

/-- Only the last piece has something signed. -/
theorem signed_take (r : Receiver) {a : Apdu} (h : a.p1 ≠ 0x02) : (r.take a).signed = r.signed := by
  unfold take
  split_ifs <;> rfl

theorem signed_takes (r : Receiver) {as : List Apdu} (h : ∀ a ∈ as, a.p1 ≠ 0x02) :
    (r.takes as).signed = r.signed := by
  induction as generalizing r with
  | nil => rfl
  | cons a as ih =>
    obtain ⟨ha, has⟩ := List.forall_mem_cons.mp h
    rw [takes_cons, ih _ has, signed_take r ha]

end Receiver

/-- The command that carries the path. -/
def pathCommand (path : DerivationPath) : Apdu :=
  ⟨cla, 0x02, 0x00, 0, path.cosmosBytes⟩

/-- The command that carries a piece of the text. -/
def addCommand (piece : Bytes) : Apdu :=
  ⟨cla, 0x02, 0x01, 0, piece⟩

/-- The command that carries the last piece of the text. -/
def lastCommand (piece : Bytes) : Apdu :=
  ⟨cla, 0x02, 0x02, 0, piece⟩

theorem pieceCommands_concat (full : List Bytes) (last : Bytes) :
    pieceCommands (full ++ [last]) = full.map addCommand ++ [lastCommand last] := by
  induction full with
  | nil => rfl
  | cons piece full ih =>
    rw [List.cons_append, pieceCommands, ih]
    · rfl
    · simp

/-- The commands for a text that is not empty. -/
theorem signCommands_eq (path : DerivationPath) {text : Bytes} (htext : text ≠ []) :
    ∃ full last, Bytes.CutInto 250 text full last ∧
      signCommands path text = pathCommand path :: full.map addCommand ++ [lastCommand last] := by
  obtain ⟨full, last, hchunks, hcut⟩ := Bytes.chunks_eq (by decide : 0 < pieceSize) htext
  refine ⟨full, last, hcut, ?_⟩
  rw [signCommands, hchunks, pieceCommands_concat]
  rfl

theorem length_signCommands (path : DerivationPath) {text : Bytes} (htext : text ≠ []) :
    (signCommands path text).length = 1 + (text.length + 249) / 250 := by
  obtain ⟨full, last, hcut, hcommands⟩ := signCommands_eq path htext
  obtain ⟨hlength, hpos, hle⟩ := hcut.length
  rw [hcommands, hlength]
  simp only [List.length_append, List.length_cons, List.length_map, List.length_nil]
  omega

namespace Receiver

theorem takes_adds (r : Receiver) (pieces : List Bytes) :
    r.takes (pieces.map addCommand) = { r with text := r.text ++ pieces.flatten } := by
  induction pieces generalizing r with
  | nil => simp
  | cons piece pieces ih =>
    have hadd : r.take (addCommand piece) = { r with text := r.text ++ piece } := rfl
    simp [hadd, ih]

/-- Whatever the app has got before, it signs the path with the text. -/
theorem takes_signCommands (r : Receiver) (path : DerivationPath) {text : Bytes}
    (htext : text ≠ []) :
    r.takes (signCommands path text) =
      ⟨path.cosmosBytes, text, r.signed ++ [(path.cosmosBytes, text)]⟩ := by
  obtain ⟨full, last, hcut, hcommands⟩ := signCommands_eq path htext
  have hpath : r.take (pathCommand path) = { r with path := path.cosmosBytes, text := [] } := rfl
  rw [hcommands, takes_append, takes_cons r, hpath, takes_adds, ← hcut.whole]
  rfl

/-- An app that has not got all the commands has signed nothing. -/
theorem signed_takes_part (r : Receiver) (path : DerivationPath) {text : Bytes} (htext : text ≠ [])
    {k : Nat} (hk : k < (signCommands path text).length) :
    (r.takes ((signCommands path text).take k)).signed = r.signed := by
  obtain ⟨full, last, -, hcommands⟩ := signCommands_eq path htext
  rw [hcommands, List.length_append, List.length_singleton] at hk
  rw [hcommands, List.take_append_of_le_length (by omega)]
  refine r.signed_takes fun a ha => ?_
  rcases List.mem_cons.mp (List.mem_of_mem_take ha) with rfl | ha
  · exact nofun
  · obtain ⟨piece, -, rfl⟩ := List.mem_map.mp ha
    exact nofun

end Receiver

open Exchange

/-- A text is signed as a whole. An empty one is refused, and nothing is sent. Otherwise the path
goes first and the text behind it, in full pieces up to the last one, which alone asks for the
signature. An app that gets all of this signs the path with the text, whatever it has got before,
and one that has not got all of it signs nothing. The commands go as their replies do: the data of
the last reply is the result if all of them are successes; the first reply that is no success ends
it with its error; and with no reply left the device has gone away. -/
theorem signs_whole_text (path : DerivationPath) :
    (∀ link, (sign path []).on link = (.error (.failedSign "empty sign doc"), link)) ∧
    ∀ text, text ≠ [] →
      let commands := signCommands path text
      (∃ full last, Bytes.CutInto 250 text full last ∧
        commands = pathCommand path :: full.map addCommand ++ [lastCommand last]) ∧
      commands.length = 1 + (text.length + 249) / 250 ∧
      (∀ r : Receiver,
        r.takes commands = ⟨path.cosmosBytes, text, r.signed ++ [(path.cosmosBytes, text)]⟩ ∧
        ∀ k < commands.length, (r.takes (commands.take k)).signed = r.signed) ∧
      ∀ link, (∃ r sent rest, Course commands.length link.replies r sent rest) ∧
        ∀ r sent rest, Course commands.length link.replies r sent rest →
          (sign path text).on link =
            (r, { link with
              log := link.log ++ (commands.take sent).map .send
              replies := rest }) := by
  refine ⟨fun link => rfl, fun text htext => ⟨signCommands_eq path htext,
    length_signCommands path htext, fun r => ⟨r.takes_signCommands path htext,
    fun k hk => r.signed_takes_part path htext hk⟩, fun link => ⟨?_, fun r sent rest h => ?_⟩⟩⟩
  · exact exists_course (Nat.succ_pos _) link.replies
  · rw [sign, if_neg (by simpa using htext)]
    exact on_dataOfLast [] h

/-- A text with one octet more than a piece holds: the device answers to the three commands, or its
user refuses at the second one. -/
theorem text_of_251_signed :
    let d : Bytes := [0x30, 0x06, 0x02, 0x01, 0x01, 0x02, 0x01, 0x02]
    let path := DerivationPath.first DerivationPath.cosmosCoin
    let text : Bytes := List.replicate 251 0x20
    let commands := signCommands path text
    text ≠ [] ∧ commands.length = 3 ∧
      (sign path text).on (Link.fresh [success [], success [1], success d] none) =
        (.ok d, ⟨[], none, commands.map .send⟩) ∧
      (sign path text).on (Link.fresh [success [], .ofStatus [] 0x6986, success d] none) =
        (.error .signRejected, ⟨[success d], none, (commands.take 2).map .send⟩) := by
  intro d path text commands
  have htext : text ≠ [] := by decide
  obtain ⟨-, hlength, -, hrun⟩ := (signs_whole_text path).2 text htext
  have hthree : commands.length = 3 := by
    rw [hlength, List.length_replicate]
  refine ⟨htext, hthree, ?_, ?_⟩
  · have hcourse : Course commands.length [success [], success [1], success d] (.ok d)
        commands.length [] :=
      .answered (show _ = ([[], [1]] ++ [d]).map success ++ [] from rfl) (by rw [hthree]; rfl)
    rw [(hrun (Link.fresh _ none)).2 _ _ _ hcourse, List.take_length]
    rfl
  · have hcourse : Course commands.length [success [], .ofStatus [] 0x6986, success d]
        (.error .signRejected) 2 [success d] :=
      .failed (show _ = [[]].map success ++ _ :: [success d] from rfl) (by rw [hthree]; decide)
        (Reply.outcome_ofStatus [] (by decide) (by decide))
    rw [(hrun (Link.fresh _ none)).2 _ _ _ hcourse]
    rfl

end CosmosApp

end Countersign

import Countersign.Device.Link
import Countersign.Proofs.Bytes

/-!
# What an operation sends

An operation over a link is known from outside by the commands it sends. Operations that are put
together from sending and pure steps take a reply for each command, let nothing but the replies
decide what they send and give, and never close the link. One that succeeds has had a successful
answer to each command.
-/
namespace Countersign

namespace Answer

/-- An answer that reports success has the status word `9000` behind its data. -/
theorem octets_of_check {b : Bytes} {a : Answer} (h : ofBytes b = .ok a)
    (hcheck : a.check = .ok ()) : b = a.data ++ [0x90, 0x00] := by
  unfold ofBytes at h
  split at h
  next => cases h
  next hlen =>
    obtain rfl := Except.ok.inj h
    have hstatus : Bytes.toNat (b.drop (b.length - 2)) = 0x9000 := by
      simpa [check, isSuccess] using hcheck
    have hword : (b.drop (b.length - 2)).length = 2 := by
      rw [List.length_drop]
      omega
    have hdrop : b.drop (b.length - 2) = [0x90, 0x00] := by
      rw [← Bytes.ofNat_toNat_self hword, hstatus]
      decide
    rw [← hdrop, List.take_append_drop]

end Answer

theorem Link.answered_success {reply : Reply} {a : Answer} (h : answered reply = .ok a)
    (hcheck : a.check = .ok ()) : reply = .answer (a.data ++ [0x90, 0x00]) := by
  cases reply with
  | failure fault => cases h
  | answer octets =>
    cases ha : Answer.ofBytes octets with
    | error e => simp [answered, ha] at h
    | ok given =>
      simp only [answered, ha, Except.ok.injEq] at h
      subst h
      rw [← Answer.octets_of_check ha hcheck]

namespace Exchange

variable {α β : Type} {P : Apdu → Prop}

/-- Whatever the device replies, the operation sends commands with the property, takes one reply for
each, and leaves the rest of the link alone. -/
def Sends (P : Apdu → Prop) (x : Exchange α) : Prop :=
  ∀ replies, ∃ (r : Except Error α) (as : List Apdu), (∀ a ∈ as, P a) ∧ ∀ fault log,
    x.on ⟨replies, fault, log⟩ = (r, ⟨replies.drop as.length, fault, log ++ as.map .send⟩)

theorem Sends.mono {Q : Apdu → Prop} {x : Exchange α} (h : Sends P x) (hPQ : ∀ a, P a → Q a) :
    Sends Q x := by
  intro replies
  obtain ⟨r, as, has, hx⟩ := h replies
  exact ⟨r, as, fun a ha => hPQ a (has a ha), hx⟩

theorem on_bind (x : Exchange α) (f : α → Exchange β) (link : Link) :
    (x >>= f).on link =
      match x.on link with
      | (.ok a, link) => (f a).on link
      | (.error e, link) => (.error e, link) := by
  change ExceptT.bindCont f (x link).1 (x link).2 = _
  unfold on
  rcases x link with ⟨e | a, link⟩ <;> rfl

theorem sends_lift (r : Except Error α) : Sends P (lift r) := by
  intro replies
  refine ⟨r, [], by simp, fun fault log => ?_⟩
  simp [on, lift]

theorem sends_pure (a : α) : Sends P (pure a : Exchange α) := sends_lift (.ok a)

theorem sends_send {a : Apdu} (ha : P a) : Sends P (send a) := by
  intro replies
  cases replies with
  | nil => exact ⟨.error (.link .disconnected), [a], by simpa using ha, fun _ _ => rfl⟩
  | cons reply rest =>
    refine ⟨(Link.answered reply).mapError .link, [a], by simpa using ha, fun fault log => ?_⟩
    simp only [on, send, List.length_singleton, List.drop_succ_cons, List.drop_zero]
    cases Link.answered reply <;> rfl

/-- The commands of a sequence are those of its first part and then those of its second. -/
theorem Sends.bind {x : Exchange α} {f : α → Exchange β} (hx : Sends P x)
    (hf : ∀ a, Sends P (f a)) : Sends P (x >>= f) := by
  intro replies
  obtain ⟨r, as, has, hx⟩ := hx replies
  cases r with
  | error e => exact ⟨.error e, as, has, fun fault log => by rw [on_bind, hx]⟩
  | ok a =>
    obtain ⟨r, bs, hbs, hf⟩ := hf a (replies.drop as.length)
    refine ⟨r, as ++ bs, ?_, fun fault log => ?_⟩
    · intro b hb
      rcases List.mem_append.mp hb with hb | hb
      · exact has b hb
      · exact hbs b hb
    · rw [on_bind, hx]
      simp only [hf, List.length_append, List.drop_drop, List.map_append, List.append_assoc]

/-- Behind a pure step only its result has to be gone on with. -/
theorem sends_lift_bind {r : Except Error α} {f : α → Exchange β}
    (hf : ∀ a, r = .ok a → Sends P (f a)) : Sends P (lift r >>= f) := by
  cases r with
  | error e =>
    intro replies
    refine ⟨.error e, [], by simp, fun fault log => ?_⟩
    rw [on_bind]
    simp [on, lift]
  | ok a => exact hf a rfl

theorem sends_data {a : Apdu} (ha : P a) : Sends P (data a) :=
  (sends_send ha).bind fun _ => sends_lift_bind fun _ _ => sends_pure _

theorem sends_dataOfLast (before : Bytes) {as : List Apdu} (has : ∀ a ∈ as, P a) :
    Sends P (dataOfLast before as) := by
  induction as generalizing before with
  | nil => exact sends_pure before
  | cons a as ih =>
    obtain ⟨ha, has⟩ := List.forall_mem_cons.mp has
    exact (sends_data ha).bind fun d => ih d has

/-- What an operation leaves of a link: more commands sent, and nothing else done with it. -/
theorem Sends.link {x : Exchange α} (h : Sends P x) (link : Link) :
    ∃ as : List Apdu, (∀ a ∈ as, P a) ∧ (x.on link).2.log = link.log ++ as.map .send ∧
      (x.on link).2.closeFault = link.closeFault := by
  obtain ⟨r, as, has, hx⟩ := h link.replies
  exact ⟨as, has, by rw [hx], by rw [hx]⟩

/-- Whether closing would fail makes no difference to an operation. -/
theorem Sends.on_closeFault {x : Exchange α} (h : Sends P x) (link : Link)
    (fault : Option LinkFault) :
    x.on { link with closeFault := fault } =
      ((x.on link).1, { (x.on link).2 with closeFault := fault }) := by
  obtain ⟨r, as, -, hx⟩ := h link.replies
  rw [hx, hx]

/-- Whatever the device replies, the operation sends the command. -/
def Issues (a : Apdu) (x : Exchange α) : Prop :=
  ∀ link : Link, a ∈ (x.on link).2.sent

theorem issues_send (a : Apdu) : Issues a (send a) := by
  intro link
  simp only [on, send]
  cases link.replies with
  | nil => simp [Link.sent, LinkUse.command?]
  | cons reply rest =>
    simp only
    cases Link.answered reply <;> simp [Link.sent, LinkUse.command?]

theorem Issues.bind {a : Apdu} {x : Exchange α} {f : α → Exchange β} (hx : Issues a x)
    (hf : ∀ b, Sends (fun _ => True) (f b)) : Issues a (x >>= f) := by
  intro link
  have h := hx link
  rw [on_bind]
  rcases hl : x.on link with ⟨e | b, link'⟩ <;> rw [hl] at h
  · exact h
  · obtain ⟨as, -, hlog, -⟩ := (hf b).link link'
    rw [Link.sent_of_log hlog]
    exact List.mem_append_left as h

theorem issues_data (a : Apdu) : Issues a (data a) :=
  (issues_send a).bind fun _ => sends_lift_bind fun _ _ => sends_pure _

/-! ### Operations that succeed -/

/-- An operation in two parts succeeds in its first part, and then in its second. -/
theorem on_bind_ok {x : Exchange α} {f : α → Exchange β} {link link' : Link} {b : β}
    (h : (x >>= f).on link = (.ok b, link')) :
    ∃ a between, x.on link = (.ok a, between) ∧ (f a).on between = (.ok b, link') := by
  rw [on_bind] at h
  rcases hx : x.on link with ⟨e | a, between⟩ <;> rw [hx] at h
  · cases h
  · exact ⟨a, between, rfl, h⟩

/-- The reply with a successful answer: the data with the status word behind it. -/
def success (d : Bytes) : Reply :=
  .answer (d ++ [0x90, 0x00])

/-- A command whose answer is a success takes the reply with its data. -/
theorem data_ok {a : Apdu} {link link' : Link} {d : Bytes}
    (h : (data a).on link = (.ok d, link')) :
    link.replies = success d :: link'.replies ∧
      link' = { link with replies := link'.replies, log := link.log ++ [.send a] } := by
  obtain ⟨answer, between, hsend, h⟩ := on_bind_ok h
  obtain ⟨_, _, hcheck, h⟩ := on_bind_ok h
  obtain ⟨hchecked, rfl⟩ := Prod.mk.inj hcheck
  obtain ⟨hd, rfl⟩ := Prod.mk.inj h
  obtain rfl : answer.data = d := Except.ok.inj hd
  simp only [on, send] at hsend
  cases hreplies : link.replies with
  | nil => simp [hreplies] at hsend
  | cons reply rest =>
    simp only [hreplies] at hsend
    cases hanswered : Link.answered reply with
    | error fault => simp [hanswered] at hsend
    | ok given =>
      simp only [hanswered, Prod.mk.injEq, Except.ok.injEq] at hsend
      obtain ⟨rfl, rfl⟩ := hsend
      exact ⟨congrArg (· :: rest) (Link.answered_success hanswered hchecked), rfl⟩

/-- Commands that all succeed take a reply with data each, and give the last data. -/
theorem dataOfLast_ok {as : List Apdu} {before d : Bytes} {link link' : Link}
    (h : (dataOfLast before as).on link = (.ok d, link')) :
    ∃ answers : List Bytes, answers.length = as.length ∧
      link.replies = answers.map success ++ link'.replies ∧
      link' = { link with replies := link'.replies, log := link.log ++ as.map .send } ∧
      answers.getLast?.getD before = d := by
  induction as generalizing before link with
  | nil =>
    obtain ⟨hd, rfl⟩ := Prod.mk.inj h
    exact ⟨[], rfl, rfl, by simp, Except.ok.inj hd⟩
  | cons a as ih =>
    obtain ⟨first, between, hfirst, hrest⟩ := on_bind_ok h
    obtain ⟨hreplies, hbetween⟩ := data_ok hfirst
    obtain ⟨answers, hlength, hmore, hlink, hlast⟩ := ih hrest
    refine ⟨first :: answers, by simp [hlength], ?_, ?_, ?_⟩
    · rw [hreplies, hmore]
      rfl
    · rw [hlink, hbetween]
      simp
    · rw [List.getLast?_cons]
      exact hlast

end Exchange

end Countersign

import Countersign.Proofs.Messaging.Keys

/-!
# Delivery of messages

A sender gets the key of a reader from a directory that asks the reader itself, who has a key for
each chain. The sender keeps the first one it gets and uses it on all chains. A message is therefore
readable on the chain for which that key was asked, and on the chains on which the reader has the
same key; a reader with other keys on other chains cannot read what was sent to it there.
-/
namespace Countersign.Messaging

/-- How a sender finds a reader: the address, the caller for whom the reader gives out its key, and
the directory of all other addresses. -/
structure Registry where
  address : String
  caller : Caller
  others : Directory

/-- A sender and a reader. -/
structure Correspondents where
  sender : Service
  reader : Service

/-- What a sender does with the keys of others. -/
inductive Errand where
  | lookup (chain address : String)
  | encrypt (random : Entropy) (chain address text : String)

namespace Errand

/-- The chain on which it is done. -/
def chain : Errand → String
  | lookup chain _ => chain
  | encrypt _ chain _ _ => chain

/-- Whose key it needs. -/
def address : Errand → String
  | lookup _ address => address
  | encrypt _ _ address _ => address

/-- The service after an errand. -/
def done (s : Service) : Errand → Service
  | lookup chain address => (s.lookup chain address).2
  | encrypt random chain address text => (s.encrypt random chain address text).2.1

/-- An errand looks up the key of its address, if any. -/
theorem done_cases (s : Service) (e : Errand) :
    e.done s = s ∨ e.done s = (s.lookup e.chain e.address).2 := by
  cases e with
  | lookup chain address => exact .inr rfl
  | encrypt random chain address text => exact s.encrypt_service random chain address text

end Errand

namespace Registry

variable (r : Registry)

/-- The directory, which gives the key that the reader has at the moment. -/
def directory (reader : Service) : Directory :=
  fun n chain address =>
    if address = r.address then (reader.publicKey r.caller chain).1 else r.others n chain address

/-- What a question to the directory does to the reader. -/
def answer (reader : Service) : Question → Service
  | .key chain address =>
    if address = r.address then (reader.publicKey r.caller chain).2 else reader
  | .signature .. => reader

/-- The sender with the directory. -/
def sender (c : Correspondents) : Service :=
  { c.sender with directory := some (r.directory c.reader) }

/-- The correspondents after an errand: the reader has answered what the sender has asked. -/
def step (c : Correspondents) (e : Errand) : Correspondents :=
  let s := e.done (r.sender c)
  ⟨s, (s.asked.drop c.sender.asked.length).foldl r.answer c.reader⟩

/-- The correspondents after errands. -/
def run (c : Correspondents) (es : List Errand) : Correspondents :=
  es.foldl r.step c

/-- The key that the sender has for the reader. -/
def known (c : Correspondents) : Option Curve.Point :=
  c.sender.publicKeys.lookup r.address

/-- The chain of the first errand behind which the sender has a key for the reader. -/
def firstChain? (c : Correspondents) : List Errand → Option String
  | [] => none
  | e :: es =>
    if (r.known (r.step c e)).isSome then some e.chain else firstChain? (r.step c e) es

@[simp] theorem run_nil (c : Correspondents) : r.run c [] = c := rfl

@[simp] theorem run_cons (c : Correspondents) (e : Errand) (es : List Errand) :
    r.run c (e :: es) = r.run (r.step c e) es := rfl

/-- All keys of the reader on chains are those of another state or more. -/
def KeepsKeys (s s' : Service) : Prop :=
  ∀ chain d, s.privateKeys.lookup chain = some d → s'.privateKeys.lookup chain = some d

/-- The sender got its key for the reader on a chain: it is that of the key the reader has there. -/
def GotOn (c : Correspondents) (chain : String) : Prop :=
  ∃ d, c.reader.privateKeys.lookup chain = some d ∧ r.known c = some d.point

variable {r}

theorem KeepsKeys.refl (s : Service) : KeepsKeys s s := fun _ _ h => h

theorem keepsKeys_answer (reader : Service) (q : Question) :
    KeepsKeys reader (r.answer reader q) := by
  cases q with
  | signature caller chain doc => exact .refl reader
  | key chain address =>
    simp only [answer]
    split
    · exact fun other d h => Service.publicKey_keeps h r.caller chain
    · exact .refl reader

/-- The reader answers the questions that the errand adds. -/
theorem step_of_asked {c : Correspondents} {e : Errand} (qs : List Question)
    (h : (e.done (r.sender c)).asked = c.sender.asked ++ qs) :
    r.step c e = ⟨e.done (r.sender c), qs.foldl r.answer c.reader⟩ := by
  simp only [step, h, List.drop_left]

theorem step_idle {c : Correspondents} {e : Errand} (h : e.done (r.sender c) = r.sender c) :
    r.known (r.step c e) = r.known c ∧ (r.step c e).reader = c.reader := by
  have hstep := step_of_asked (r := r) (c := c) (e := e) [] (by rw [h, List.append_nil]; rfl)
  rw [hstep, h]
  exact ⟨rfl, rfl⟩

/-- All that an errand can do: the reader keeps its keys, and the key that the sender has for the
reader stays unless the sender had none and got one on the chain of the errand. -/
theorem step_cases (c : Correspondents) (e : Errand) :
    KeepsKeys c.reader (r.step c e).reader ∧
    (r.known (r.step c e) = r.known c ∨
      r.known c = none ∧ e.address = r.address ∧ r.GotOn (r.step c e) e.chain) := by
  have hidle (h : e.done (r.sender c) = r.sender c) :
      KeepsKeys c.reader (r.step c e).reader ∧ r.known (r.step c e) = r.known c := by
    obtain ⟨hknown, hreader⟩ := step_idle h
    exact ⟨hreader ▸ .refl _, hknown⟩
  rcases e.done_cases (r.sender c) with h | h
  · exact (hidle h).imp_right .inl
  rcases Service.lookup_cases (s := r.sender c) rfl e.chain e.address with
    ⟨q, -, hl⟩ | ⟨hnone, ⟨error, hl⟩ | ⟨text, q, hanswer, hkey, hl⟩⟩ <;> rw [hl] at h
  · exact (hidle h).imp_right .inl
  · have hstep := step_of_asked (r := r) (c := c) (e := e) [.key e.chain e.address]
      (by rw [h]; rfl)
    rw [hstep, h]
    exact ⟨keepsKeys_answer (r := r) c.reader (.key e.chain e.address), .inl rfl⟩
  · have hstep := step_of_asked (r := r) (c := c) (e := e) [.key e.chain e.address]
      (by rw [h]; rfl)
    rw [hstep, h]
    refine ⟨keepsKeys_answer (r := r) c.reader (.key e.chain e.address), ?_⟩
    by_cases haddress : e.address = r.address
    · right
      simp only [directory, haddress, if_true] at hanswer
      obtain ⟨d, hd, rfl⟩ := Service.publicKey_ok hanswer
      obtain rfl := Except.ok.inj ((Service.keyOf_compressed d).symm.trans hkey)
      refine ⟨by rw [known, ← haddress]; exact hnone, haddress, d, ?_, ?_⟩
      · simpa only [List.foldl_cons, List.foldl_nil, answer, haddress, if_true] using hd
      · rw [known, Service.lookup_keep, if_pos haddress.symm]
    · left
      rw [known, Service.lookup_keep, if_neg (Ne.symm haddress)]
      rfl

theorem GotOn.step {c : Correspondents} {chain : String} (h : r.GotOn c chain) (e : Errand) :
    r.GotOn (r.step c e) chain := by
  obtain ⟨d, hd, hknown⟩ := h
  obtain ⟨hkeeps, hcases⟩ := step_cases (r := r) c e
  refine ⟨d, hkeeps chain d hd, ?_⟩
  rcases hcases with hsame | ⟨hnone, -⟩
  · rw [hsame, hknown]
  · rw [hknown] at hnone
    cases hnone

theorem GotOn.run {c : Correspondents} {chain : String} (h : r.GotOn c chain) (es : List Errand) :
    r.GotOn (r.run c es) chain := by
  induction es generalizing c with
  | nil => exact h
  | cons e es ih => exact ih (h.step e)

/-- A run gives the sender its key for the reader on the first chain, or no key at all. -/
theorem run_cases {c : Correspondents} (hc : r.known c = none) (es : List Errand) :
    (r.firstChain? c es = none ∧ r.known (r.run c es) = none) ∨
    ∃ chain, r.firstChain? c es = some chain ∧ r.GotOn (r.run c es) chain ∧
      ∃ e ∈ es, e.address = r.address ∧ e.chain = chain := by
  induction es generalizing c with
  | nil => exact .inl ⟨rfl, hc⟩
  | cons e es ih =>
    rcases (step_cases (r := r) c e).2 with hsame | ⟨-, haddress, hgot⟩
    · have hnone : r.known (r.step c e) = none := hsame.trans hc
      rw [firstChain?, hnone, run_cons]
      refine (ih hnone).imp_right ?_
      rintro ⟨chain, hfirst, hgot, e', he', hrest⟩
      exact ⟨chain, hfirst, hgot, e', List.mem_cons_of_mem e he', hrest⟩
    · have hsome : (r.known (r.step c e)).isSome = true := by
        obtain ⟨d, -, hknown⟩ := hgot
        rw [hknown]
        rfl
      rw [firstChain?, if_pos hsome, run_cons]
      exact .inr ⟨e.chain, rfl, hgot.run es, e, List.mem_cons_self, haddress, rfl⟩

/-- What is encrypted for the reader is sealed to the key that the sender then has for it. -/
theorem encrypt_known {c : Correspondents} {random : Entropy} {chain envelope : String} {b : Bytes}
    (h : ((r.sender c).encrypt random chain r.address (Base64.encode b)).1 = .ok envelope) :
    ∃ q sealed random',
      r.known (r.step c (.encrypt random chain r.address (Base64.encode b))) = some q ∧
        sealTo? random q b = some (sealed, random') ∧ envelope = Base64.encode sealed := by
  obtain ⟨q, sealed, random', hq, hsealed, henvelope, hservice⟩ := Service.encrypt_ok h
  refine ⟨q, sealed, random', ?_, hsealed, henvelope⟩
  change ((r.sender c).encrypt random chain r.address (Base64.encode b)).2.1.publicKeys.lookup
    r.address = some q
  rw [hservice]
  rcases Service.lookup_cases (s := r.sender c) rfl chain r.address with
    ⟨q', hknown, hl⟩ | ⟨-, ⟨e, hl⟩ | ⟨text, q', -, -, hl⟩⟩ <;> rw [hl] at hq ⊢
  · rw [← Except.ok.inj hq]
    exact hknown
  · cases hq
  · rw [Service.lookup_keep, if_pos rfl, ← Except.ok.inj hq]

/-- A message that was encrypted for the reader after any errands, on whatever chain, is read on the
chain for which the sender first got a key of the reader, and on each chain on which the reader has
the same key. If all errands for the reader were on the chain of the message, it is read there. -/
theorem read_on_first_chain (r : Registry) (sender reader : Service)
    (hsender : sender.publicKeys.lookup r.address = none) (es : List Errand) (random : Entropy)
    (chain envelope : String) (b : Bytes)
    (h : ((r.sender (r.run ⟨sender, reader⟩ es)).encrypt random chain r.address
      (Base64.encode b)).1 = .ok envelope) :
    let first := (r.firstChain? ⟨sender, reader⟩ es).getD chain
    let reader' := (r.step (r.run ⟨sender, reader⟩ es)
      (.encrypt random chain r.address (Base64.encode b))).reader
    (∀ caller other, (reader'.privateKey caller other).1 = (reader'.privateKey caller first).1 →
      (reader'.decrypt caller other envelope).1 = .ok (Base64.encode b)) ∧
    ((∀ e ∈ es, e.address = r.address → e.chain = chain) →
      ∀ caller, (reader'.decrypt caller chain envelope).1 = .ok (Base64.encode b)) := by
  intro first reader'
  have hgot : r.GotOn (r.step (r.run ⟨sender, reader⟩ es)
      (.encrypt random chain r.address (Base64.encode b))) first := by
    rcases run_cases (c := ⟨sender, reader⟩) hsender es with ⟨hfirst, hnone⟩ | ⟨c₀, hfirst, hgot, -⟩
    · obtain ⟨q, -, -, hknown, -⟩ := encrypt_known h
      rcases (step_cases (r := r) (r.run ⟨sender, reader⟩ es)
        (.encrypt random chain r.address (Base64.encode b))).2 with hsame | ⟨-, -, hgot⟩
      · rw [hsame, hnone] at hknown
        cases hknown
      · have hchain : first = chain := by simp only [first, hfirst, Option.getD_none]
        rw [hchain]
        exact hgot
    · simpa only [first, hfirst, Option.getD_some] using hgot.step _
  have hread (caller : Caller) (other : String)
      (hkey : (reader'.privateKey caller other).1 = (reader'.privateKey caller first).1) :
      (reader'.decrypt caller other envelope).1 = .ok (Base64.encode b) := by
    obtain ⟨d, hd, hknown⟩ := hgot
    obtain ⟨q, sealed, random', hq, hsealed, rfl⟩ := encrypt_known h
    obtain rfl : q = d.point := Option.some.inj (hq.symm.trans hknown)
    rw [Service.privateKey_known hd] at hkey
    rw [Service.decrypt_of_key hkey, unseal_sealTo hsealed]
    rfl
  refine ⟨hread, fun hchains caller => hread caller chain ?_⟩
  have hchain : first = chain := by
    rcases run_cases (c := ⟨sender, reader⟩) hsender es with
      ⟨hfirst, -⟩ | ⟨c₀, hfirst, -, e, he, haddress, rfl⟩
    · simp only [first, hfirst, Option.getD_none]
    · simp only [first, hfirst, Option.getD_some]
      exact hchains e he haddress
  rw [hchain]

/-- A sender without a key for the reader gets the one that the reader gives out. -/
theorem step_lookup {c : Correspondents} (hnone : r.known c = none) {chain : String}
    {d : Curve.Scalar} {reader : Service}
    (h : c.reader.publicKey r.caller chain = (.ok (Base64.encode d.point.compressed), reader)) :
    r.known (r.step c (.lookup chain r.address)) = some d.point ∧
      (r.step c (.lookup chain r.address)).reader = reader := by
  have hanswer : r.directory c.reader c.sender.asked.length chain r.address =
      .ok (Base64.encode d.point.compressed) := by
    rw [directory, if_pos rfl, h]
  have hdone : Errand.done (r.sender c) (.lookup chain r.address) =
      ((r.sender c).ask (.key chain r.address)).keep r.address d.point :=
    congrArg Prod.snd
      (Service.lookup_of_answer (s := r.sender c) rfl hnone hanswer (Service.keyOf_compressed d))
  have hstep := step_of_asked (r := r) (c := c) (e := .lookup chain r.address)
    [.key chain r.address] (by rw [hdone]; rfl)
  rw [hstep, hdone]
  refine ⟨by rw [known, Service.lookup_keep, if_pos rfl], ?_⟩
  simp only [List.foldl_cons, List.foldl_nil, answer, if_true, h]

/-- A sender with a key for the reader encrypts to it on all chains, and asks the reader nothing. -/
theorem encrypt_to_known {c : Correspondents} {q : Curve.Point} (hq : r.known c = some q)
    {random random' : Entropy} {b sealed : Bytes}
    (hsealed : sealTo? random q b = some (sealed, random')) (chain : String) :
    ((r.sender c).encrypt random chain r.address (Base64.encode b)).1 = .ok (Base64.encode sealed) ∧
      (r.step c (.encrypt random chain r.address (Base64.encode b))).reader = c.reader := by
  have hencrypt := Service.encrypt_of_known (s := r.sender c) hq hsealed chain
  exact ⟨by rw [hencrypt], (step_idle (by rw [Errand.done, hencrypt])).2⟩

end Registry

/-! ### A reader with two keys -/

section TwoKeys

/-- A reader whose keyring signs with one octet on one chain and with another one elsewhere. -/
def twoKeyed : Service :=
  .fresh (fun _ _ chain _ => .ok (if chain = "first" then [1] else [2])) none ""

/-- Its key on that chain. -/
def firstKey : Curve.Scalar :=
  ⟨0x4bf5122f344554c53bde2ebb8cd2b7e3d1600ad631c385a5d7cce23c7785459a, by decide, by decide⟩

/-- Its key elsewhere. -/
def secondKey : Curve.Scalar :=
  ⟨0xdbc1b4c900ffe48d575b5da5c638040125f65db0fe3e24494b76ea986457d986, by decide, by decide⟩

/-- The reader behind the look-up of its key on that chain. -/
def askedOnce : Service :=
  { twoKeyed.ask (.signature .wallet "first" (signDocBytes "first" "")) with
    privateKeys := [("first", firstKey)] }

/-- A registry in which it is the only entry. -/
def soleEntry : Registry :=
  ⟨"reader", .wallet, fun _ _ address => .error (.publicKeyLookupNotImplemented address)⟩

/-- A sender that knows nobody. -/
def newSender : Service :=
  .fresh (fun _ _ _ _ => .ok []) none ""

/-- The secret that is drawn is one. -/
def oneDrawn : Entropy :=
  .ofBytes (List.replicate 31 0 ++ [1])

/-- The secret one, whose point is the generator. -/
def one : Curve.Scalar := ⟨1, by decide, by decide⟩

theorem twoKeyed_first : twoKeyed.privateKey .wallet "first" = (.ok firstKey, askedOnce) :=
  Service.privateKey_derived [1] rfl rfl (by decide +kernel)

theorem askedOnce_second : (askedOnce.privateKey .wallet "second").1 = .ok secondKey := by
  rw [Service.privateKey_derived [2] (d := secondKey) rfl rfl (by decide +kernel)]

theorem sealTo_oneDrawn (q : Curve.Point) (text : Bytes) : ∃ random,
    sealTo? oneDrawn q text = some (sealWith one (List.replicate 12 0) q text, random) :=
  ⟨_, rfl⟩

/-- The sender behind the look-up. -/
theorem known_first :
    let c := soleEntry.run ⟨newSender, twoKeyed⟩ [.lookup "first" "reader"]
    soleEntry.known c = some firstKey.point ∧ c.reader = askedOnce :=
  Registry.step_lookup (r := soleEntry) (c := ⟨newSender, twoKeyed⟩) rfl
    (Service.publicKey_of_privateKey twoKeyed_first)

/-- A message on the second chain is read on the first one, where its key was asked for. -/
theorem second_read_on_first :
    let c := soleEntry.run ⟨newSender, twoKeyed⟩ [.lookup "first" "reader"]
    ∃ envelope, ((soleEntry.sender c).encrypt oneDrawn "second" "reader"
        (Base64.encode [0x67, 0x6d])).1 = .ok envelope ∧
      ((soleEntry.step c
        (.encrypt oneDrawn "second" "reader" (Base64.encode [0x67, 0x6d]))).reader.decrypt
        .wallet "first" envelope).1 = .ok (Base64.encode [0x67, 0x6d]) := by
  intro c
  obtain ⟨hknown, -⟩ := known_first
  obtain ⟨random, hsealed⟩ := sealTo_oneDrawn firstKey.point [0x67, 0x6d]
  obtain ⟨hencrypt, -⟩ := Registry.encrypt_to_known hknown hsealed "second"
  refine ⟨_, hencrypt, ?_⟩
  have hfirst : soleEntry.firstChain? ⟨newSender, twoKeyed⟩ [.lookup "first" "reader"] =
      some "first" := by
    rw [Registry.firstChain?, if_pos]
    · rfl
    · exact Option.isSome_of_eq_some hknown
  obtain ⟨hread, -⟩ := Registry.read_on_first_chain soleEntry newSender twoKeyed rfl
    [.lookup "first" "reader"] oneDrawn "second" _ [0x67, 0x6d] hencrypt
  refine hread .wallet "first" ?_
  rw [hfirst]
  rfl

theorem one_point : one.point = Curve.generator := by
  decide +kernel

theorem shared_first : firstKey.shared Curve.generator =
    0xd415b187c6e7ce9da46ac888d20df20737d6f16a41639e68ea055311e1535dd9 :=
  Curve.Scalar.shared_generator (by decide +kernel)

theorem shared_second : secondKey.shared Curve.generator =
    0xd27cd27dbff481bc6fc4aa39dd19405eb6010237784ecba13bab130a4a62df5d :=
  Curve.Scalar.shared_generator (by decide +kernel)

theorem envelopeKey_first : envelopeKey one firstKey.point one.point.uncompressed = Bytes.ofNat 32
    0xd63625f6058c9778bec33eca42ee60cdfc45ec2bf18b60b7ae0745a1ca1eb5df := by
  rw [envelopeKey_comm, one_point, envelopeKey, shared_first]
  decide +kernel

theorem envelopeKey_second : envelopeKey secondKey one.point one.point.uncompressed = Bytes.ofNat 32
    0x81573b260b43ac821920637ae656cc95d29c4f8844bd2e00524506be4f0eda00 := by
  rw [one_point, envelopeKey, shared_second]
  decide +kernel

/-- A message on the second chain is not read there: it was sealed to the key on the first one. -/
theorem second_unread_on_second :
    let c := soleEntry.run ⟨newSender, twoKeyed⟩ [.lookup "first" "reader"]
    ∃ envelope, ((soleEntry.sender c).encrypt oneDrawn "second" "reader"
        (Base64.encode [0x67, 0x6d])).1 = .ok envelope ∧
      ((soleEntry.step c
        (.encrypt oneDrawn "second" "reader" (Base64.encode [0x67, 0x6d]))).reader.decrypt
        .wallet "second" envelope).1 = .error (.encryption "ciphertext failed authentication") := by
  intro c
  obtain ⟨hknown, hreader⟩ := known_first
  obtain ⟨random, hsealed⟩ := sealTo_oneDrawn firstKey.point [0x67, 0x6d]
  obtain ⟨hencrypt, hidle⟩ := Registry.encrypt_to_known hknown hsealed "second"
  refine ⟨_, hencrypt, ?_⟩
  have hopened :
      unsealWith secondKey (sealWith one (List.replicate 12 0) firstKey.point [0x67, 0x6d])
      = .error (.encryption "ciphertext failed authentication") := by
    rw [unseal_sealWith one secondKey firstKey.point rfl, envelopeKey_first, envelopeKey_second]
    decide +kernel
  have hasked : (soleEntry.step c (.encrypt oneDrawn "second" "reader"
      (Base64.encode [0x67, 0x6d]))).reader = askedOnce := hidle.trans hreader
  rw [hasked, Service.decrypt_of_key askedOnce_second, hopened]
  rfl

end TwoKeys

end Countersign.Messaging

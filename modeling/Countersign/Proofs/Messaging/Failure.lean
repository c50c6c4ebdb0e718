import Countersign.Proofs.Messaging.Keys

/-!
# Failed calls

A call that fails takes in no key and loses none, so a key that was asked for in vain is asked for
again. A call that succeeds changes the key of one address only, and a key that is known is not
asked for. What is handed in is read before anybody is asked.
-/
namespace Countersign.Messaging

/-- The error of a text that is not the Base64 of a point. -/
inductive KeyFault (text : String) : Error → Prop
  | unreadable (detail : String) (h : ∀ b, text ≠ Base64.encode b) :
      KeyFault text (.base64DecodeFailed detail)
  | pointless (b : Bytes) (detail : String) (htext : text = Base64.encode b)
      (h : Curve.Point.decode? b = none) : KeyFault text (.invalidPublicKey detail)

/-- The error of a look-up: there is nobody to ask, the directory fails, or its answer is no key. -/
inductive LookupFault (s : Service) (chain address : String) : Error → Prop
  | nobody (h : s.directory = none) :
      LookupFault s chain address (.publicKeyLookupNotImplemented address)
  | refused (directory : Directory) (e : Error) (h : s.directory = some directory)
      (hanswer : directory s.asked.length chain address = .error e) : LookupFault s chain address e
  | unusable (directory : Directory) (text : String) (e : Error) (h : s.directory = some directory)
      (hanswer : directory s.asked.length chain address = .ok text) (hfault : KeyFault text e) :
      LookupFault s chain address e

namespace Service

/-- The next look-up of an address asks the directory, on whatever chain. -/
def Asks (s : Service) (address : String) : Prop :=
  ∀ chain, (s.lookup chain address).2.asked = s.asked ++ [.key chain address]

/-- A call for an address changed nothing, except that the directory may have been asked. If the
address was to be asked for before, it still is. -/
structure NoTrace (s s' : Service) (chain address : String) : Prop where
  state : s' = s ∨ s' = s.ask (.key chain address)
  publicKeys : s'.publicKeys = s.publicKeys
  asks : s.Asks address → s'.Asks address

/-- The keys of others are those of before, but for the key of one address. -/
structure Knows (s s' : Service) (address : String) (q : Curve.Point) : Prop where
  known : s'.publicKeys.lookup address = some q
  others : ∀ other, other ≠ address → s'.publicKeys.lookup other = s.publicKeys.lookup other
  privateKeys : s'.privateKeys = s.privateKeys

variable {s s' : Service} {chain address text : String} {e : Error} {q : Curve.Point}

/-! ### Reading -/

theorem octetsOf_refused (h : ∀ b, text ≠ Base64.encode b) :
    octetsOf text = .error (.base64DecodeFailed "not canonical padded text") := by
  cases hd : Base64.decode? text with
  | none => simp only [octetsOf, hd]
  | some b => exact absurd (Base64.decode_eq_some.mp hd) (h b)

theorem octetsOf_cases (text : String) :
    (∃ b, text = Base64.encode b ∧ octetsOf text = .ok b) ∨ ∀ b, text ≠ Base64.encode b := by
  by_cases h : ∃ b, text = Base64.encode b
  · obtain ⟨b, rfl⟩ := h
    exact .inl ⟨b, rfl, octetsOf_encode b⟩
  · exact .inr fun b hb => h ⟨b, hb⟩

theorem keyOf_error (h : keyOf text = .error e) : KeyFault text e := by
  rcases octetsOf_cases text with ⟨b, htext, hb⟩ | hnone
  · simp only [keyOf, hb, bind, Except.bind, parsePublicKey] at h
    split at h
    next => cases h
    next hpoint =>
      obtain rfl := Except.error.inj h
      exact .pointless b _ htext hpoint
  · simp only [keyOf, octetsOf_refused hnone, bind, Except.bind] at h
    obtain rfl := Except.error.inj h
    exact .unreadable _ hnone

/-! ### Keys of others -/

/-- An address is asked for as long as its key is not known and there is a directory. -/
theorem asks_iff : s.Asks address ↔ s.directory.isSome ∧ s.publicKeys.lookup address = none := by
  constructor
  · intro h
    have hasked := h ""
    cases hknown : s.publicKeys.lookup address with
    | some q => simp [lookup, beginLookup, hknown] at hasked
    | none =>
      cases hdirectory : s.directory with
      | none => simp [lookup, beginLookup, hknown, hdirectory] at hasked
      | some directory => exact ⟨rfl, rfl⟩
  · rintro ⟨hdirectory, hnone⟩ chain
    obtain ⟨directory, hdirectory⟩ := Option.isSome_iff_exists.mp hdirectory
    rcases lookup_cases hdirectory chain address with
      ⟨q, hknown, -⟩ | ⟨-, ⟨e, hl⟩ | ⟨text, q, -, -, hl⟩⟩
    · rw [hnone] at hknown
      cases hknown
    · rw [hl]
      rfl
    · rw [hl]
      rfl

theorem asks_ask (s : Service) (question : Question) (address : String) :
    (s.ask question).Asks address ↔ s.Asks address := by
  rw [asks_iff, asks_iff]
  rfl

theorem NoTrace.refl (s : Service) (chain address : String) : NoTrace s s chain address :=
  ⟨.inl rfl, rfl, id⟩

theorem NoTrace.asked (s : Service) (chain address : String) :
    NoTrace s (s.ask (.key chain address)) chain address :=
  ⟨.inr rfl, rfl, (asks_ask s _ address).mpr⟩

theorem Knows.of_known (h : s.publicKeys.lookup address = some q) : Knows s s address q :=
  ⟨h, fun _ _ => rfl, rfl⟩

theorem Knows.keep (s : Service) (address : String) (q : Curve.Point) :
    Knows s (s.keep address q) address q :=
  ⟨by rw [lookup_keep, if_pos rfl], fun other h => by rw [lookup_keep, if_neg h], rfl⟩

theorem Knows.of_ask {question : Question} (h : Knows (s.ask question) s' address q) :
    Knows s s' address q :=
  ⟨h.known, h.others, h.privateKeys⟩

/-- The second half of a look-up. Whatever was done since the first half stays as it is. -/
theorem finishLookup_cases (s : Service) (address : String) (answer : Except Error String) :
    (∃ e, s.finishLookup address answer = (.error e, s) ∧
      (answer = .error e ∨ ∃ text, answer = .ok text ∧ KeyFault text e)) ∨
    ∃ q, s.finishLookup address answer = (.ok q, s.keep address q) := by
  cases answer with
  | error e => exact .inl ⟨e, rfl, .inl rfl⟩
  | ok text =>
    simp only [finishLookup]
    cases hkey : keyOf text with
    | error e => exact .inl ⟨e, rfl, .inr ⟨text, rfl, keyOf_error hkey⟩⟩
    | ok q => exact .inr ⟨q, rfl⟩

theorem lookup_known (h : s.publicKeys.lookup address = some q) (chain : String) :
    s.lookup chain address = (.ok q, s) := by
  simp only [lookup, beginLookup, h]

/-- All that a look-up can do, with a directory or without one. -/
theorem lookup_outcome (s : Service) (chain address : String) :
    (∃ q, s.publicKeys.lookup address = some q ∧ s.lookup chain address = (.ok q, s)) ∨
    s.publicKeys.lookup address = none ∧
      ((∃ e s', s.lookup chain address = (.error e, s') ∧ LookupFault s chain address e ∧
        NoTrace s s' chain address) ∨
      ∃ q, s.lookup chain address = (.ok q, (s.ask (.key chain address)).keep address q)) := by
  cases hknown : s.publicKeys.lookup address with
  | some q => exact .inl ⟨q, rfl, lookup_known hknown chain⟩
  | none =>
    refine .inr ⟨rfl, ?_⟩
    cases hdirectory : s.directory with
    | none =>
      simp only [lookup, beginLookup, hknown, hdirectory]
      exact .inl ⟨_, s, rfl, .nobody hdirectory, .refl s chain address⟩
    | some directory =>
      simp only [lookup, beginLookup, hknown, hdirectory]
      rcases finishLookup_cases (s.ask (.key chain address)) address
          (directory s.asked.length chain address) with
        ⟨e, hf, hanswer | ⟨text, hanswer, hfault⟩⟩ | ⟨q, hf⟩
      · exact .inl ⟨e, _, hf, .refused directory e hdirectory hanswer, .asked s chain address⟩
      · exact .inl ⟨e, _, hf, .unusable directory text e hdirectory hanswer hfault,
          .asked s chain address⟩
      · exact .inr ⟨q, hf⟩

/-- A look-up that fails found no key, and leaves none. -/
theorem lookup_error (h : s.lookup chain address = (.error e, s')) :
    LookupFault s chain address e ∧ NoTrace s s' chain address ∧
      s.publicKeys.lookup address = none := by
  rcases s.lookup_outcome chain address with
    ⟨q, -, hl⟩ | ⟨hnone, ⟨e', t, hl, hfault, htrace⟩ | ⟨q, hl⟩⟩ <;> rw [hl] at h <;> cases h
  exact ⟨hfault, htrace, hnone⟩

theorem lookup_ok (h : s.lookup chain address = (.ok q, s')) : Knows s s' address q := by
  rcases s.lookup_outcome chain address with
    ⟨p, hknown, hl⟩ | ⟨-, ⟨e', t, hl, -⟩ | ⟨p, hl⟩⟩ <;> rw [hl] at h <;> cases h
  · exact .of_known hknown
  · exact (Knows.keep (s.ask (.key chain address)) address q).of_ask

theorem register_error (h : s.register address text = (.error e, s')) :
    KeyFault text e ∧ s' = s := by
  unfold register at h
  cases hkey : keyOf text with
  | error e' =>
    rw [hkey] at h
    cases h
    exact ⟨keyOf_error hkey, rfl⟩
  | ok q =>
    rw [hkey] at h
    cases h

theorem register_ok (h : s.register address text = (.ok (), s')) :
    ∃ q, keyOf text = .ok q ∧ Knows s s' address q := by
  unfold register at h
  cases hkey : keyOf text with
  | error e =>
    rw [hkey] at h
    cases h
  | ok q =>
    rw [hkey] at h
    cases h
    exact ⟨q, rfl, .keep s address q⟩

/-! ### Messages -/

variable {random random' : Entropy} {b : Bytes}

/-- A source that gives a secret is enough to seal anything. -/
theorem sealTo_of_scalar (h : random.scalar?.isSome) (q : Curve.Point) (b : Bytes) :
    ∃ sealed random', sealTo? random q b = some (sealed, random') := by
  obtain ⟨drawn, hdrawn⟩ := Option.isSome_iff_exists.mp h
  simp [sealTo?, hdrawn]

theorem encrypt_refused (h : ∀ b, text ≠ Base64.encode b) (s : Service) (random : Entropy)
    (chain address : String) :
    s.encrypt random chain address text =
      (.error (.base64DecodeFailed "not canonical padded text"), s, random) := by
  simp only [encrypt, octetsOf_refused h]

/-- With a source that gives a secret, all that makes an encryption fail is the look-up. -/
theorem encrypt_encode_error (hrandom : random.scalar?.isSome)
    (h : s.encrypt random chain address (Base64.encode b) = (.error e, s', random')) :
    s.lookup chain address = (.error e, s') := by
  simp only [encrypt, octetsOf_encode] at h
  rcases hl : s.lookup chain address with ⟨e' | q, t⟩ <;> simp only [hl] at h
  · cases h
    rfl
  · obtain ⟨sealed, left, hsealed⟩ := sealTo_of_scalar hrandom q b
    rw [hsealed] at h
    cases h

theorem encrypt_known {envelope : String}
    (h : s.encrypt random chain address text = (.ok envelope, s', random')) :
    ∃ q, s.lookup chain address = (.ok q, s') := by
  unfold encrypt at h
  cases ho : octetsOf text with
  | error e =>
    rw [ho] at h
    cases h
  | ok b =>
    rcases hl : s.lookup chain address with ⟨e | q, t⟩ <;> simp only [ho, hl] at h
    · cases h
    · refine ⟨q, ?_⟩
      cases hsealed : sealTo? random q b with
      | none =>
        rw [hsealed] at h
        cases h
      | some sealed =>
        rw [hsealed] at h
        cases h
        rfl

/-- A text that is not Base64 is refused before anybody is asked. A look-up, a key that is handed in
or a message that fails leaves the keys as they were, and the address is asked for again. One that
succeeds sets the key of its address and no other, and nothing at all if the key was known. For a
message the source of randomness has to give a secret at some time: the service draws until it does.
-/
theorem failures_leave_no_trace (s : Service) :
    (∀ text, (∀ b, text ≠ Base64.encode b) → ∀ caller chain address random, ∃ detail,
      s.decrypt caller chain text = (.error (.base64DecodeFailed detail), s) ∧
      s.sign caller chain text = (.error (.base64DecodeFailed detail), s) ∧
      s.encrypt random chain address text = (.error (.base64DecodeFailed detail), s, random)) ∧
    (∀ chain address e s', s.lookup chain address = (.error e, s') →
      LookupFault s chain address e ∧ NoTrace s s' chain address ∧
      (s.directory.isSome → s'.Asks address)) ∧
    (∀ chain address text e s', s.register address text = (.error e, s') →
      KeyFault text e ∧ NoTrace s s' chain address ∧ s' = s) ∧
    (∀ random chain address b e s' random', random.scalar?.isSome →
      s.encrypt random chain address (Base64.encode b) = (.error e, s', random') →
      LookupFault s chain address e ∧ NoTrace s s' chain address ∧
      (s.directory.isSome → s'.Asks address)) ∧
    (∀ chain address q s', s.lookup chain address = (.ok q, s') → Knows s s' address q) ∧
    (∀ address text s', s.register address text = (.ok (), s') →
      ∃ q, keyOf text = .ok q ∧ Knows s s' address q) ∧
    (∀ random chain address text envelope s' random',
      s.encrypt random chain address text = (.ok envelope, s', random') →
      ∃ q, Knows s s' address q) ∧
    ∀ address q, s.publicKeys.lookup address = some q → ∀ chain,
      s.lookup chain address = (.ok q, s) ∧
      ∀ random text, (s.encrypt random chain address text).2.1 = s := by
  have hfailed (chain address e s') (h : s.lookup chain address = (.error e, s')) :
      LookupFault s chain address e ∧ NoTrace s s' chain address ∧
        (s.directory.isSome → s'.Asks address) := by
    obtain ⟨hfault, hsame, hnone⟩ := lookup_error h
    exact ⟨hfault, hsame, fun hdirectory => hsame.asks (asks_iff.mpr ⟨hdirectory, hnone⟩)⟩
  refine ⟨?unread, hfailed, ?refused, ?unsealed, ?found, ?registered, ?sealed, ?known⟩
  case unread =>
    intro text htext caller chain address random
    refine ⟨_, ?_, ?_, encrypt_refused htext s random chain address⟩
    · simp only [decrypt, octetsOf_refused htext]
    · simp only [sign, octetsOf_refused htext]
  case refused =>
    intro chain address text e s' h
    obtain ⟨hfault, rfl⟩ := register_error h
    exact ⟨hfault, .refl s' chain address, rfl⟩
  case unsealed =>
    intro random chain address b e s' random' hrandom h
    exact hfailed chain address e s' (encrypt_encode_error hrandom h)
  case found =>
    intro chain address q s' h
    exact lookup_ok h
  case registered =>
    intro address text s' h
    exact register_ok h
  case sealed =>
    intro random chain address text envelope s' random' h
    obtain ⟨q, hq⟩ := encrypt_known h
    exact ⟨q, lookup_ok hq⟩
  case known =>
    intro address q hq chain
    refine ⟨lookup_known hq chain, fun random text => ?_⟩
    rcases s.encrypt_service random chain address text with h | h
    · exact h
    · rw [h, lookup_known hq chain]

/-- A directory whose first answer is no key, and whose later answers are the key of a secret. -/
def wrongOnce (d : Curve.Scalar) : Directory
  | 0, _, _ => .ok "key"
  | _ + 1, _, _ => .ok (Base64.encode d.point.compressed)

theorem key_unreadable (b : Bytes) : "key" ≠ Base64.encode b := by
  intro h
  have hread := Base64.decode_eq_some.mpr h
  cases hread

/-- A wrong answer is forgotten: the address is asked for again, the next answer is kept, and a
wrong key that is handed in afterwards does not replace it. -/
theorem wrong_answer_forgotten :
    let d : Curve.Scalar := ⟨1, by decide, by decide⟩
    let s := Service.fresh (fun _ _ _ _ => .error (.keyring "locked")) (some (wrongOnce d)) "memo"
    let asked := s.ask (.key "chain" "reader")
    let known := (asked.ask (.key "chain" "reader")).keep "reader" d.point
    s.lookup "chain" "reader" =
      (.error (.base64DecodeFailed "not canonical padded text"), asked) ∧
    asked.Asks "reader" ∧
    asked.lookup "chain" "reader" = (.ok d.point, known) ∧
    Knows asked known "reader" d.point ∧
    known.register "reader" "key" =
      (.error (.base64DecodeFailed "not canonical padded text"), known) ∧
    known.lookup "other" "reader" = (.ok d.point, known) := by
  intro d s asked known
  have hread : keyOf "key" = .error (.base64DecodeFailed "not canonical padded text") := by
    rw [keyOf, octetsOf_refused key_unreadable]
    rfl
  have hfirst : s.lookup "chain" "reader" =
      (.error (.base64DecodeFailed "not canonical padded text"), asked) := by
    simp only [s, fresh, lookup, beginLookup, List.lookup_nil, List.length_nil, wrongOnce,
      finishLookup, hread]
    rfl
  have hsecond : asked.lookup "chain" "reader" = (.ok d.point, known) :=
    lookup_of_answer rfl rfl rfl (keyOf_compressed d)
  obtain ⟨-, hfailed, -⟩ := failures_leave_no_trace s
  obtain ⟨-, -, hasks⟩ := hfailed "chain" "reader" _ asked hfirst
  obtain ⟨-, -, -, -, hgot, -⟩ := failures_leave_no_trace asked
  have hknows := hgot "chain" "reader" d.point known hsecond
  have hrefused : known.register "reader" "key" =
      (.error (.base64DecodeFailed "not canonical padded text"), known) := by
    rw [register, hread]
  obtain ⟨-, -, -, -, -, -, -, hcached⟩ := failures_leave_no_trace known
  exact ⟨hfirst, hasks rfl, hsecond, hknows, hrefused,
    (hcached "reader" d.point hknows.known "other").1⟩

end Service

end Countersign.Messaging

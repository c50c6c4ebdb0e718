import Countersign.Proofs.Device.Ending

/-!
# Words for a screen saver

Opening a session looks for the screen saver in the text of a failure. Links may say so in their
texts; the texts that the program and the status words of devices have of their own never do,
whatever numbers, addresses and characters are filled in. To see this it is enough to look at three
of the letters.
-/
namespace Countersign

/-! ### Occurrence -/

/-- A text occurs in another one if it is a part of it without gaps. -/
theorem occursIn_iff {part whole : List Char} : occursIn part whole = true ↔ part <:+: whole := by
  induction whole with
  | nil => simp [occursIn]
  | cons c rest ih => simp [occursIn, ih, List.infix_cons_iff]

namespace LinkFault

/-- The failure says in words that the screen saver is on, or gives the number of the status word of
a locked device. Capitals are read as small letters. -/
def SaysLocked : LinkFault → Prop
  | .other text =>
    "screen saver".toList <:+: text.toList.map Char.toLower ∨
      "21781".toList <:+: text.toList.map Char.toLower
  | _ => False

/-- What has a small letter has no place among the characters in front of the letters. -/
theorem toLower_eq_iff {c d : Char} (hd : d.toNat < 65) : c.toLower = d ↔ c = d := by
  unfold Char.toLower
  split
  next hc =>
    obtain ⟨hlow, hhigh⟩ : 65 ≤ c.toNat ∧ c.toNat ≤ 90 :=
      ⟨UInt32.le_iff_toNat_le.mp hc.1, UInt32.le_iff_toNat_le.mp hc.2⟩
    constructor
    · rintro rfl
      have hsmall : (c.val + ('a'.val - 'A'.val)).toNat = c.toNat + 32 := by
        have hgap : ('a'.val - 'A'.val).toNat = 32 := rfl
        rw [UInt32.toNat_add, hgap]
        exact Nat.mod_eq_of_lt (by simp only [Char.toNat] at hhigh ⊢; omega)
      simp only [Char.toNat] at hd hsmall hlow
      omega
    · rintro rfl
      omega
  next => rfl

/-- A number is in a text if it is there with small letters for capitals. -/
theorem number_infix_iff {number text : List Char} (hnumber : ∀ d ∈ number, d.toNat < 65) :
    number <:+: text.map Char.toLower ↔ number <:+: text := by
  have hsame {part : List Char} (h : part.map Char.toLower = number) : part = number := by
    subst h
    induction part with
    | nil => rfl
    | cons c part ih =>
      obtain ⟨hc, hpart⟩ := List.forall_mem_cons.mp hnumber
      rw [List.map_cons, ← ih hpart, ← (toLower_eq_iff hc).mp rfl]
  constructor
  · rintro ⟨front, rest, h⟩
    obtain ⟨_, rest', rfl, hfront, -⟩ := List.append_eq_map_iff.mp h
    obtain ⟨front', part, rfl, -, hpart⟩ := List.map_eq_append_iff.mp hfront
    exact ⟨front', rest', by rw [hsame hpart]⟩
  · intro h
    have hmap := h.map Char.toLower
    rwa [List.map_congr_left (g := id) fun d hd => (toLower_eq_iff (hnumber d hd)).mpr rfl,
      List.map_id] at hmap

theorem isScreenSaver_iff {fault : LinkFault} : fault.isScreenSaver = true ↔ fault.SaysLocked := by
  cases fault with
  | other text =>
    have hdigits : ∀ d ∈ "21781".toList, d.toNat < 65 := by simp
    rw [isScreenSaver, Bool.or_eq_true, namesScreenSaver, occursIn_iff, occursIn_iff, SaysLocked,
      number_infix_iff hdigits]
  | deviceNotFound | disconnected | closed =>
    simp only [isScreenSaver, SaysLocked, Bool.false_eq_true]

end LinkFault

/-! ### Three letters -/

/-- The letters s, r and v of a text; capitals are read as small letters. -/
def traces (text : String) : List Char :=
  (text.toList.map Char.toLower).filter fun c => c ∈ ['s', 'r', 'v']

theorem traces_append (a b : String) : traces (a ++ b) = traces a ++ traces b := by
  simp [traces]

/-- The letters of the words are not all in a text one behind the other. -/
def IsQuiet (text : String) : Prop :=
  ¬traces "screen saver" <:+: traces text

instance (text : String) : Decidable (IsQuiet text) :=
  inferInstanceAs (Decidable (¬traces "screen saver" <:+: traces text))

theorem namesScreenSaver_of_isQuiet {text : String} (h : IsQuiet text) :
    namesScreenSaver text = false := by
  rw [Bool.eq_false_iff, namesScreenSaver, Ne, occursIn_iff]
  exact fun hin => h (hin.filter fun c => c ∈ ['s', 'r', 'v'])

theorem traces_eq_nil {cs : List Char} (h : ∀ c ∈ cs, c.toLower ∉ ['s', 'r', 'v']) :
    traces (String.ofList cs) = [] := by
  simpa [traces, List.filter_eq_nil_iff] using h

theorem digit_silent : ∀ d : Fin 16, (Nat.digitChar d).toLower ∉ ['s', 'r', 'v'] := by
  decide

theorem toDigits_silent {base : Nat} (hone : 1 < base) (hbase : base ≤ 16) (n : Nat) :
    ∀ c ∈ Nat.toDigits base n, c.toLower ∉ ['s', 'r', 'v'] := by
  induction n using Nat.strong_induction_on with
  | _ n ih =>
    by_cases hn : n < base
    · rw [Nat.toDigits_of_lt_base hn]
      simpa using digit_silent ⟨n, by omega⟩
    · have hlt : n % base < base := Nat.mod_lt n (by omega)
      rw [Nat.toDigits_of_base_le hone (by omega)]
      intro c hc
      rcases List.mem_append.mp hc with hc | hc
      · exact ih (n / base) (Nat.div_lt_self (by omega) hone) c hc
      · obtain rfl := List.mem_singleton.mp hc
        exact digit_silent ⟨n % base, by omega⟩

@[simp] theorem traces_decimal (n : Nat) : traces (Digits.decimal n) = [] :=
  traces_eq_nil (toDigits_silent (by decide) (by decide) n)

@[simp] theorem traces_repr (n : Nat) : traces (Nat.repr n) = [] :=
  traces_eq_nil (toDigits_silent (by decide) (by decide) n)

@[simp] theorem traces_statusText (status : Nat) : traces (Error.statusText status) = [] := by
  refine traces_eq_nil fun c hc => ?_
  simp only [List.cons_append, List.mem_cons, List.mem_append] at hc
  rcases hc with rfl | rfl | hc | hc
  · decide
  · decide
  · obtain rfl := List.eq_of_mem_replicate hc
    decide
  · exact toDigits_silent (by decide) (by decide) status c hc

theorem hexDigits_silent (b : Bytes) :
    ∀ c ∈ Hex.digits b, c.toLower ∉ ['s', 'r', 'v'] ∧ c.toUpper.toLower ∉ ['s', 'r', 'v'] := by
  have hdigit : ∀ d : Fin 16, (Hex.digit d).toLower ∉ ['s', 'r', 'v'] ∧
      (Hex.digit d).toUpper.toLower ∉ ['s', 'r', 'v'] := by
    decide
  intro c hc
  obtain ⟨o, -, hc⟩ := List.mem_flatMap.mp hc
  have ho : o.toNat < 256 := o.toNat_lt
  rcases List.mem_cons.mp hc with rfl | hc
  · exact hdigit ⟨o.toNat / 16, by omega⟩
  · obtain rfl := List.mem_singleton.mp hc
    exact hdigit ⟨o.toNat % 16, by omega⟩

@[simp] theorem traces_toChecksum (a : Address) : traces a.toChecksum = [] := by
  refine traces_eq_nil fun c hc => ?_
  simp only [List.mem_cons] at hc
  rcases hc with rfl | rfl | hc
  · decide
  · decide
  · simp only [Address.capitals, List.mem_iff_getElem, List.length_zipWith,
      List.getElem_zipWith] at hc
    obtain ⟨i, hi, rfl⟩ := hc
    obtain ⟨hsmall, hlarge⟩ := hexDigits_silent a.bytes _ (List.getElem_mem (by omega : i < _))
    split
    · exact hlarge
    · exact hsmall

/-- One character between quotes has one of the letters at most: its own, or that of an escape. -/
theorem length_traces_quotedLetter (c : Char) : (traces (Text.quotedLetter c)).length ≤ 1 := by
  have hquotes (cs : List Char) :
      traces (String.ofList ('\'' :: cs ++ ['\''])) = traces (String.ofList cs) := by
    simp [traces]
  have hescape (cs : List Char) :
      traces (String.ofList ('\\' :: cs)) = traces (String.ofList cs) := by
    simp [traces]
  have hone (d : Char) : (traces (String.ofList [d])).length ≤ 1 :=
    (List.length_filter_le _ _).trans (by simp)
  have hdigits : traces (String.ofList
      (['\\', 'u', '\x7b'] ++ Nat.toDigits 16 c.toNat ++ ['\x7d'])) = [] := by
    have hmarks : ∀ d ∈ ['\\', 'u', '\x7b'] ++ ['\x7d'], d.toLower ∉ ['s', 'r', 'v'] := by simp
    refine traces_eq_nil fun d hd => ?_
    rcases List.mem_append.mp hd with hd | hd
    · rcases List.mem_append.mp hd with hd | hd
      · exact hmarks d (List.mem_append_left _ hd)
      · exact toDigits_silent (by decide) (by decide) _ d hd
    · exact hmarks d (List.mem_append_right _ hd)
  rw [Text.quotedLetter, hquotes]
  unfold Text.quotedChar
  split_ifs
  iterate 6
    · rw [hescape]
      exact hone _
  · rw [hdigits]
    exact Nat.zero_le 1
  · exact hone c

/-! ### Errors of a probe -/

/-- A probe that fails with the error reports that the app is not there. -/
def Error.IsAbsence (e : Error) : Prop :=
  ∀ title, probeError title e = .appNotInitialised title

theorem isAbsence_of_isQuiet {e : Error} {text : String} (h : IsQuiet text)
    (hreported : ∀ title, probeError title e =
      if namesScreenSaver text then .deviceLocked else .appNotInitialised title) :
    e.IsAbsence := by
  intro title
  rw [hreported, namesScreenSaver_of_isQuiet h]
  rfl

theorem malformed_absent {detail : String} (h : IsQuiet ("malformed device response: " ++ detail)) :
    Error.IsAbsence (.malformedResponse detail) :=
  isAbsence_of_isQuiet h fun _ => rfl

theorem CosmosApp.version_absent (b : Bytes) : FailsWith Error.IsAbsence (Version.parse b) := by
  unfold Version.parse
  split
  · exact .ok _
  · refine .error (malformed_absent ?_)
    simp only [IsQuiet, traces_append, traces_decimal]
    decide +kernel

theorem CosmosApp.info_absent (b : Bytes) : FailsWith Error.IsAbsence (Info.parse b) := by
  simp only [Info.parse]
  split
  · exact .ok _
  · exact .error (malformed_absent (by decide +kernel))

/-- A text that is no hexadecimal one is told by its first wrong character, which may be one of the
letters: the words would fill the text then, which begins with another letter. -/
theorem hexFault_quiet (fault : Hex.Fault) :
    IsQuiet ("hex decoding failed: " ++ fault.message) := by
  cases fault with
  | oddLength =>
    show IsQuiet ("hex decoding failed: " ++ "Odd number of digits")
    decide +kernel
  | badOctet octet position =>
    show IsQuiet ("hex decoding failed: " ++ ("Invalid character " ++
      Text.quotedLetter (Char.ofNat octet.toNat) ++ " at position " ++ Nat.repr position))
    have hone := length_traces_quotedLetter (Char.ofNat octet.toNat)
    have hfront :
        traces "hex decoding failed: " ++ traces "Invalid character " = ['v', 'r', 'r'] := by
      decide +kernel
    have hrest : traces " at position " = ['s'] := by decide +kernel
    have hwords : traces "screen saver" = ['s', 'r', 's', 'v', 'r'] := by decide +kernel
    simp only [IsQuiet, traces_append, traces_repr, List.append_nil, hrest, hwords]
    rw [← List.append_assoc, ← List.append_assoc, hfront]
    intro hin
    have heq := hin.eq_of_length (Nat.le_antisymm hin.length_le (by simp; omega))
    cases heq

theorem ofHex_absent (text : String) : FailsWith Error.IsAbsence (Address.ofHex text) := by
  unfold Address.ofHex
  split
  next fault _ => exact .error (isAbsence_of_isQuiet (hexFault_quiet fault) fun _ => rfl)
  next b _ =>
    split
    · exact .ok _
    · have hquiet : IsQuiet ("address derivation failed: " ++
          ("address has " ++ Digits.decimal b.length ++ " bytes")) := by
        simp only [IsQuiet, traces_append, traces_decimal]
        decide +kernel
      exact .error (isAbsence_of_isQuiet hquiet fun _ => rfl)

theorem parsePublicKey_absent (b : Bytes) : FailsWith Error.IsAbsence (parsePublicKey b) := by
  unfold parsePublicKey
  split
  · exact .ok _
  · have hquiet : IsQuiet ("invalid public key: " ++
        (Digits.decimal b.length ++ " bytes are not a secp256k1 point")) := by
      simp only [IsQuiet, traces_append, traces_decimal]
      decide +kernel
    exact .error (isAbsence_of_isQuiet hquiet fun _ => rfl)

theorem EthereumApp.key_absent (b : Bytes) : FailsWith Error.IsAbsence (Key.parse b) := by
  refine .bind ?_ fun parts => (ofHex_absent _).bind fun reported => .bind ?_ fun derived => ?_
  · simp only [splitReply]
    split
    · exact .ok _
    · exact .error (malformed_absent (by decide +kernel))
  · exact (parsePublicKey_absent _).map _
  · split
    · exact .ok _
    · refine .error (malformed_absent ?_)
      simp only [IsQuiet, traces_append, traces_toChecksum]
      decide +kernel

theorem rejected_absent : Error.IsAbsence .signRejected := by
  have hquiet : IsQuiet "Signing request was rejected on the Ledger device" := by
    decide +kernel
  exact isAbsence_of_isQuiet hquiet fun _ => rfl

/-- No text of a status word names the screen saver, not even that of a locked device. -/
theorem device_absent (status : Nat) : Error.IsAbsence (.device status (statusMessage status)) := by
  have hquiet : IsQuiet ("Ledger device error " ++ Error.statusText status ++ ": " ++
      statusMessage status) := by
    simp only [IsQuiet, traces_append, traces_statusText]
    unfold statusMessage
    split <;> decide +kernel
  exact isAbsence_of_isQuiet hquiet fun _ => rfl

end Countersign

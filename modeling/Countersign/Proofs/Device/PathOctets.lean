import Countersign.Device.Path
import Countersign.Proofs.Bytes
import Mathlib.Algebra.Group.Nat.Defs

/-!
# Paths in octets

A device takes the highest bit of a number in a path for the mark of a hardened step, and the other
bits for the step itself. All five numbers of a path may have that bit. It is lost in a number that
is marked anyway, and marks one that is not, so only steps of thirty-one bits are taken as they are
shown.
-/
namespace Countersign

/-! ### Numbers of four octets -/

namespace Bytes

/-- Numbers of four octets from the front of a byte string, and what stands behind them. -/
def words? (value : Bytes → Nat) : Nat → Bytes → Option (List Nat × Bytes)
  | 0, b => some ([], b)
  | count + 1, b =>
    if b.length < 4 then none
    else (words? value count (b.drop 4)).map fun (ns, rest) => (value (b.take 4) :: ns, rest)

/-- Numbers behind an octet that says how many there are. -/
def counted? : Bytes → Option (List Nat × Bytes)
  | [] => none
  | count :: b => words? toNat count.toNat b

/-- Numbers that are written in four octets each are read back. -/
theorem words_flatMap {value : Bytes → Nat} {octets : Nat → Bytes}
    (hlength : ∀ n, (octets n).length = 4) {ns : List Nat} (hvalue : ∀ n ∈ ns, value (octets n) = n)
    (rest : Bytes) :
    words? value ns.length (ns.flatMap octets ++ rest) = some (ns, rest) := by
  induction ns with
  | nil => rfl
  | cons n ns ih =>
    obtain ⟨hn, hns⟩ := List.forall_mem_cons.mp hvalue
    have hfront : (n :: ns).flatMap octets ++ rest = octets n ++ (ns.flatMap octets ++ rest) := by
      simp
    rw [hfront, List.length_cons, words?, if_neg (by rw [List.length_append, hlength]; omega),
      List.drop_left' (hlength n), List.take_left' (hlength n), ih hns, hn]
    rfl

/-- The number that a string writes, least significant octet first. -/
def toNatLE (b : Bytes) : Nat :=
  toNat b.reverse

theorem toNatLE_ofNatLE (width n : Nat) : toNatLE (ofNatLE width n) = n % 256 ^ width :=
  toNat_ofNat width n

end Bytes

namespace DerivationPath

/-! ### Steps -/

/-- A step of a path: a number, and whether it is hardened. -/
structure Step where
  number : Nat
  hardened : Bool
  deriving DecidableEq, Repr

/-- The text of a step, with an apostrophe if it is hardened. -/
def Step.text (s : Step) : List Char :=
  '/' :: Nat.toDigits 10 s.number ++ (if s.hardened then ['\''] else [])

/-- The step that a device takes a number for. -/
def Step.ofNumber (n : Nat) : Step :=
  ⟨n % 2 ^ 31, n.testBit 31⟩

/-- The steps of a path as text shows them. -/
def shown (p : DerivationPath) : List Step :=
  p.segments.zipIdx.map fun (n, place) => ⟨n, isHardened place⟩

/-- The steps of a path as devices take them. -/
def taken (p : DerivationPath) : List Step :=
  p.segments.zipIdx.map fun (n, place) => ⟨n % 2 ^ 31, isHardened place || n.testBit 31⟩

/-- All numbers leave the highest bit free. -/
def IsShort (p : DerivationPath) : Prop :=
  ∀ n ∈ p.segments, n < 2 ^ 31

instance (p : DerivationPath) : Decidable p.IsShort :=
  inferInstanceAs (Decidable (∀ n ∈ p.segments, n < 2 ^ 31))

theorem segmentsText_eq (place : Nat) (segments : List Nat) :
    segmentsText place segments =
      (segments.zipIdx place).flatMap fun (n, place) => Step.text ⟨n, isHardened place⟩ := by
  induction segments generalizing place with
  | nil => rfl
  | cons n rest ih => simp [segmentsText, Step.text, ih]

theorem text_eq (p : DerivationPath) : p.text.toList = 'm' :: p.shown.flatMap Step.text := by
  rw [text, String.toList_ofList, segmentsText_eq, shown, List.flatMap_map]

theorem segments_lt (p : DerivationPath) : ∀ n ∈ p.segments, n < 2 ^ 32 := by
  simp [segments, purpose]

/-! ### Marks -/

/-- A mark takes the place of the highest bit, be it free or set already. -/
theorem or_mark {n : Nat} (h : n < 2 ^ 32) : n ||| 0x80000000 = 2 ^ 31 + n % 2 ^ 31 := by
  have hlow {m : Nat} (hm : m < 2 ^ 31) : m ||| 0x80000000 = 2 ^ 31 + m := by
    rw [Nat.or_comm]
    exact (Nat.two_pow_add_eq_or_of_lt hm 1).symm
  rcases Nat.lt_or_ge n (2 ^ 31) with hn | hn
  · rw [hlow hn, Nat.mod_eq_of_lt hn]
  · obtain ⟨m, rfl⟩ := Nat.exists_eq_add_of_le hn
    have hm : m < 2 ^ 31 := by omega
    have hmod : (2 ^ 31 + m) % 2 ^ 31 = m := by omega
    rw [hmod, ← hlow hm, Nat.or_assoc, Nat.or_self]

theorem testBit_mark {n : Nat} (h : n < 2 ^ 32) : n.testBit 31 = decide (2 ^ 31 ≤ n) := by
  rw [Nat.testBit_eq_decide_div_mod_eq]
  exact decide_eq_decide.mpr (by omega)

theorem ofNumber_or_mark {n : Nat} (h : n < 2 ^ 32) :
    Step.ofNumber (n ||| 0x80000000) = ⟨n % 2 ^ 31, true⟩ := by
  rw [or_mark h, Step.ofNumber, testBit_mark (by omega)]
  simp

theorem marked_eq (p : DerivationPath) :
    p.marked = [purpose ||| 0x80000000, p.coinType ||| 0x80000000, p.fields.account ||| 0x80000000,
      p.fields.change, p.fields.addressIndex] := rfl

theorem marked_lt (p : DerivationPath) : ∀ n ∈ p.marked, n < 2 ^ 32 := by
  have hor {n : Nat} (hn : n < 2 ^ 32) : n ||| 0x80000000 < 2 ^ 32 :=
    Nat.or_lt_two_pow hn (by decide)
  simp only [marked_eq, List.forall_mem_cons, List.not_mem_nil, false_implies, implies_true,
    and_true]
  exact ⟨by decide, hor p.coinType.isLt, hor p.fields.account.isLt, p.fields.change.isLt,
    p.fields.addressIndex.isLt⟩

theorem map_ofNumber_marked (p : DerivationPath) : p.marked.map Step.ofNumber = p.taken := by
  rw [marked_eq, List.map_cons, List.map_cons, List.map_cons, ofNumber_or_mark (by decide),
    ofNumber_or_mark p.coinType.isLt, ofNumber_or_mark p.fields.account.isLt]
  rfl

/-! ### Paths with the same octets -/

/-- Devices cannot tell two paths apart: the numbers that are marked may differ in the highest bit,
and the others are the same. -/
def TakenAlike (p q : DerivationPath) : Prop :=
  (p.coinType : Nat) % 2 ^ 31 = q.coinType % 2 ^ 31 ∧
    (p.fields.account : Nat) % 2 ^ 31 = q.fields.account % 2 ^ 31 ∧
    p.fields.change = q.fields.change ∧ p.fields.addressIndex = q.fields.addressIndex

theorem or_mark_inj {m n : Nat} (hm : m < 2 ^ 32) (hn : n < 2 ^ 32) :
    m ||| 0x80000000 = n ||| 0x80000000 ↔ m % 2 ^ 31 = n % 2 ^ 31 := by
  rw [or_mark hm, or_mark hn]
  exact Nat.add_left_cancel_iff

theorem marked_inj {p q : DerivationPath} : p.marked = q.marked ↔ p.TakenAlike q := by
  simp only [marked_eq, TakenAlike, List.cons.injEq, true_and, and_true,
    or_mark_inj p.coinType.isLt q.coinType.isLt,
    or_mark_inj p.fields.account.isLt q.fields.account.isLt, Fin.val_inj]

theorem words_cosmosBytes (p : DerivationPath) :
    Bytes.words? Bytes.toNatLE 5 p.cosmosBytes = some (p.marked, []) := by
  have hvalue : ∀ n ∈ p.marked, Bytes.toNatLE (Bytes.ofNatLE 4 n) = n := fun n hn => by
    rw [Bytes.toNatLE_ofNatLE]
    exact Nat.mod_eq_of_lt (p.marked_lt n hn)
  have hread := Bytes.words_flatMap (Bytes.length_ofNatLE 4) hvalue []
  rwa [List.append_nil] at hread

/-- The numbers of a path stand in front of whatever follows it. -/
theorem counted_ethereumBytes (p : DerivationPath) (rest : Bytes) :
    Bytes.counted? (p.ethereumBytes ++ rest) = some (p.marked, rest) := by
  have hvalue : ∀ n ∈ p.marked, Bytes.toNat (Bytes.ofNat 4 n) = n := fun n hn => by
    rw [Bytes.toNat_ofNat]
    exact Nat.mod_eq_of_lt (p.marked_lt n hn)
  exact Bytes.words_flatMap (Bytes.length_ofNat 4) hvalue rest

theorem cosmosBytes_inj {p q : DerivationPath} :
    p.cosmosBytes = q.cosmosBytes ↔ p.TakenAlike q := by
  rw [← marked_inj]
  refine ⟨fun h => ?_, fun h => by rw [cosmosBytes, h, cosmosBytes]⟩
  have hread := p.words_cosmosBytes
  rw [h, q.words_cosmosBytes] at hread
  exact (Prod.mk.inj (Option.some.inj hread)).1.symm

theorem ethereumBytes_inj {p q : DerivationPath} :
    p.ethereumBytes = q.ethereumBytes ↔ p.TakenAlike q := by
  rw [← marked_inj]
  refine ⟨fun h => ?_, fun h => by rw [ethereumBytes, h, ethereumBytes]⟩
  have hread := p.counted_ethereumBytes []
  rw [h, q.counted_ethereumBytes []] at hread
  exact (Prod.mk.inj (Option.some.inj hread)).1.symm

/-- Paths whose numbers leave the highest bit free are told apart. -/
theorem TakenAlike.eq {p q : DerivationPath} (hp : p.IsShort) (hq : q.IsShort)
    (h : p.TakenAlike q) : p = q := by
  obtain ⟨coin, account, change, index⟩ := p
  obtain ⟨coin', account', change', index'⟩ := q
  simp only [IsShort, segments, List.forall_mem_cons] at hp hq
  obtain ⟨hcoin, haccount, rfl, rfl⟩ := h
  have hcoins : coin = coin' := Fin.ext (by simpa only [Nat.mod_eq_of_lt, hp, hq] using hcoin)
  have haccounts : account = account' :=
    Fin.ext (by simpa only [Nat.mod_eq_of_lt, hp, hq] using haccount)
  rw [hcoins, haccounts]

/-- A path is taken as it is shown if and only if its numbers leave the highest bit free. -/
theorem taken_eq_shown {p : DerivationPath} : p.taken = p.shown ↔ p.IsShort := by
  have hstep {n : Nat} (hn : n < 2 ^ 32) (marked : Bool) :
      (⟨n % 2 ^ 31, marked || n.testBit 31⟩ : Step) = ⟨n, marked⟩ ↔ n < 2 ^ 31 := by
    rw [Step.mk.injEq, testBit_mark hn]
    constructor
    · rintro ⟨hmod, -⟩
      omega
    · intro hlt
      rw [decide_eq_false (Nat.not_le.mpr hlt), Bool.or_false]
      exact ⟨Nat.mod_eq_of_lt hlt, rfl⟩
  have hsegments := p.segments_lt
  simp only [segments, List.forall_mem_cons] at hsegments
  obtain ⟨hpurpose, hcoin, haccount, hchange, hindex, -⟩ := hsegments
  simp only [taken, shown, segments, IsShort, List.zipIdx_cons, List.zipIdx_nil, List.map_cons,
    List.map_nil, List.cons.injEq, List.forall_mem_cons, hstep hpurpose, hstep hcoin,
    hstep haccount, hstep hchange, hstep hindex, List.not_mem_nil, false_implies, implies_true]

/-- The steps that a device takes are the same in both forms of the octets: of each number the low
thirty-one bits, hardened for the first three numbers and for every other one that has the highest
bit. They are the steps that the text shows, where those with an apostrophe are hardened, if and
only if no number has the highest bit. Paths have the same octets, in the one form or the other, if
and only if they differ in nothing but the highest bit of the coin and the account, so those without
any such bit are told apart. -/
theorem taken_as_shown (p : DerivationPath) :
    p.text.toList = 'm' :: p.shown.flatMap Step.text ∧
    (∃ numbers, Bytes.words? Bytes.toNatLE 5 p.cosmosBytes = some (numbers, []) ∧
      Bytes.counted? p.ethereumBytes = some (numbers, []) ∧ numbers.map Step.ofNumber = p.taken) ∧
    (p.taken = p.shown ↔ p.IsShort) ∧
    ∀ q : DerivationPath, (p.cosmosBytes = q.cosmosBytes ↔ p.TakenAlike q) ∧
      (p.ethereumBytes = q.ethereumBytes ↔ p.TakenAlike q) ∧
      (p.IsShort → q.IsShort →
        (p.cosmosBytes = q.cosmosBytes ↔ p = q) ∧ (p.ethereumBytes = q.ethereumBytes ↔ p = q)) := by
  refine ⟨p.text_eq, ⟨p.marked, p.words_cosmosBytes, ?_, p.map_ofNumber_marked⟩, taken_eq_shown,
    fun q => ⟨cosmosBytes_inj, ethereumBytes_inj,
      fun hp hq => ⟨⟨fun h => ?_, ?_⟩, ⟨fun h => ?_, ?_⟩⟩⟩⟩
  · simpa using p.counted_ethereumBytes []
  · exact (cosmosBytes_inj.mp h).eq hp hq
  · exact congrArg cosmosBytes
  · exact (ethereumBytes_inj.mp h).eq hp hq
  · exact congrArg ethereumBytes

/-- The last index of thirty-one bits is taken as it is shown, and its octets are not those of the
first one. -/
theorem last_index_taken :
    let p : DerivationPath := ⟨118, ⟨7, 0, 2147483647⟩⟩
    let q : DerivationPath := ⟨118, ⟨7, 0, 0⟩⟩
    p.IsShort ∧ q.IsShort ∧ p.taken = p.shown ∧ p.cosmosBytes ≠ q.cosmosBytes ∧
      p.ethereumBytes ≠ q.ethereumBytes := by
  intro p q
  have hp : p.IsShort := by decide
  have hq : q.IsShort := by decide
  have hne : p ≠ q := by decide
  obtain ⟨-, -, hshown, htold⟩ := taken_as_shown p
  obtain ⟨hcosmos, hethereum⟩ := (htold q).2.2 hp hq
  exact ⟨hp, hq, hshown.mpr hp, hne ∘ hcosmos.mp, hne ∘ hethereum.mp⟩

/-- Two coins that differ in the highest bit have the same octets, and an index with that bit is
taken for a hardened one, though no text shows an apostrophe behind it. All three texts are read. -/
theorem highest_bits_misread :
    let p : DerivationPath := ⟨118, ⟨0, 0, 0⟩⟩
    let q : DerivationPath := ⟨2147483766, ⟨0, 0, 0⟩⟩
    let r : DerivationPath := ⟨118, ⟨0, 0, 2147483648⟩⟩
    parse "m/44'/118'/0'/0/0" = .ok p ∧ parse "m/44'/2147483766'/0'/0/0" = .ok q ∧ p ≠ q ∧
      p.cosmosBytes = q.cosmosBytes ∧ p.ethereumBytes = q.ethereumBytes ∧
      parse "m/44'/118'/0'/0/2147483648" = .ok r ∧ r.shown[4]? = some ⟨2147483648, false⟩ ∧
      r.cosmosBytes.drop 16 = [0x00, 0x00, 0x00, 0x80] ∧ r.taken[4]? = some ⟨0, true⟩ := by
  decide +kernel

end DerivationPath

end Countersign

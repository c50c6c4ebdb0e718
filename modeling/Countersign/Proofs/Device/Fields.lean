import Countersign.Proofs.Bytes
import Countersign.Proofs.Device.KeyExport
import Countersign.Proofs.Text.Utf8

/-!
# Replies of fields

Some replies are fields behind each other, each with its length in an octet in front of it. What is
returned are the first two fields, whatever their lengths and whatever follows. A reply that ends
within them is malformed. The octets are looked for before they are taken, so none is taken from
behind the end.
-/
namespace Countersign

namespace Bytes

/-- Two fields behind each other, where something else stands in front of them and anything behind.
Each field has as many octets as the octet in front of it says. -/
inductive Fields (head : Nat) (x y : Bytes) : Bytes → Prop
  | mk (front : Bytes) {a b : UInt8} {more : Bytes} (hfront : front.length = head)
      (hx : x.length = a.toNat) (hy : y.length = b.toNat) :
      Fields head x y (front ++ (a :: x ++ (b :: y ++ more)))

/-- The octets up to the end of both fields. -/
def declared (head : Nat) (x y : Bytes) : Nat :=
  head + (1 + x.length) + (1 + y.length)

/-- The first two fields. -/
def twoFields? (b : Bytes) : Option (Bytes × Bytes) := do
  let (x, rest) ← field? b
  let (y, _) ← field? rest
  return (x, y)

/-! ### One field -/

theorem field_append {a : UInt8} {x : Bytes} (hx : x.length = a.toNat) (rest : Bytes) :
    field? (a :: x ++ rest) = some (x, rest) := by
  have hle : a.toNat ≤ (x ++ rest).length := by
    rw [List.length_append]
    omega
  rw [List.cons_append, field?, if_pos hle, ← hx, List.take_left, List.drop_left]

/-- A field is as long as the octet in front of it says. -/
theorem field_eq_some {b x rest : Bytes} :
    field? b = some (x, rest) ↔ ∃ a : UInt8, x.length = a.toNat ∧ b = a :: x ++ rest := by
  constructor
  · intro h
    cases b with
    | nil => cases h
    | cons a b =>
      simp only [field?] at h
      split at h
      next hle =>
        obtain ⟨rfl, rfl⟩ := Prod.mk.inj (Option.some.inj h)
        refine ⟨a, by rw [List.length_take, Nat.min_eq_left hle], ?_⟩
        rw [List.cons_append, List.take_append_drop]
      next => cases h
  · rintro ⟨a, hx, rfl⟩
    exact field_append hx rest

/-! ### Two fields -/

theorem twoFields_eq_some {b x y : Bytes} : twoFields? b = some (x, y) ↔ Fields 0 x y b := by
  constructor
  · intro h
    obtain ⟨⟨x', rest⟩, hfirst, h⟩ := Option.bind_eq_some_iff.mp h
    obtain ⟨⟨y', more⟩, hsecond, h⟩ := Option.bind_eq_some_iff.mp h
    obtain ⟨rfl, rfl⟩ := Prod.mk.inj (Option.some.inj h)
    obtain ⟨c, hy, rfl⟩ := field_eq_some.mp hsecond
    obtain ⟨a, hx, rfl⟩ := field_eq_some.mp hfirst
    exact .mk [] rfl hx hy
  · intro h
    cases h with
    | @mk front a c more hfront hx hy =>
      obtain rfl := List.eq_nil_of_length_eq_zero hfront
      rw [List.nil_append, twoFields?, field_append hx]
      simp only [Option.bind_eq_bind, Option.bind_some, field_append hy, Option.pure_def]

/-- A head is passed over. -/
theorem twoFields_drop {head : Nat} {b x y : Bytes} :
    twoFields? (b.drop head) = some (x, y) ↔ Fields head x y b := by
  rw [twoFields_eq_some]
  constructor
  · intro h
    have hhead : head ≤ b.length := by
      by_contra hlong
      rw [List.drop_of_length_le (by omega)] at h
      generalize hb : ([] : Bytes) = empty at h
      cases h
      simp at hb
    generalize hrest : b.drop head = rest at h
    cases h with
    | @mk front a c more hfront hx hy =>
      obtain rfl := List.eq_nil_of_length_eq_zero hfront
      have hb : b = b.take head ++ (a :: x ++ (c :: y ++ more)) := by
        rw [← List.nil_append (a :: x ++ _), ← hrest, List.take_append_drop]
      rw [hb]
      exact .mk _ (by rw [List.length_take, Nat.min_eq_left hhead]) hx hy
  · intro h
    cases h with
    | @mk front a c more hfront hx hy =>
      rw [← hfront, List.drop_left]
      exact .mk [] rfl hx hy

namespace Fields

variable {head : Nat} {x y x' y' b : Bytes}

theorem unique (h : Fields head x y b) (h' : Fields head x' y' b) : x = x' ∧ y = y' := by
  rw [← twoFields_drop] at h h'
  exact Prod.mk.inj (Option.some.inj (h.symm.trans h'))

theorem append (h : Fields head x y b) (more : Bytes) : Fields head x y (b ++ more) := by
  cases h with
  | @mk front a c behind hfront hx hy =>
    simp only [List.append_assoc]
    exact .mk front hfront hx hy

theorem declared_le (h : Fields head x y b) : declared head x y ≤ b.length := by
  cases h with
  | mk _ hfront hx hy =>
    simp only [declared, List.length_append, List.length_cons]
    omega

/-- Octets that end within the declared fields have no two fields. -/
theorem not_take (h : Fields head x y b) {n : Nat} (hn : n < declared head x y) :
    ¬Fields head x' y' (b.take n) := by
  intro hcut
  have hwhole : Fields head x' y' b := by
    have hmore := hcut.append (b.drop n)
    rwa [List.take_append_drop] at hmore
  obtain ⟨rfl, rfl⟩ := h.unique hwhole
  have hlength := hcut.declared_le
  rw [List.length_take] at hlength
  omega

end Fields

end Bytes

/-! ### Readers of two fields -/

open Bytes

/-- A reader that makes something of the two fields behind a head, and has one error for all else.
-/
structure ReadsFields {α : Type} (head : Nat) (make : Bytes → Bytes → α) (fault : Error)
    (parse : Bytes → Except Error α) : Prop where
  /-- It succeeds on two fields only. -/
  ok_iff : ∀ b a, parse b = .ok a ↔ ∃ x y, Fields head x y b ∧ a = make x y
  error_iff : ∀ b e, parse b = .error e ↔ e = fault ∧ ∀ x y, ¬Fields head x y b
  /-- It fails on all that ends within the fields. -/
  cut : ∀ b x y n, Fields head x y b → n < declared head x y → parse (b.take n) = .error fault
  /-- It does not see what is behind the fields. -/
  append : ∀ b x y more, Fields head x y b → parse (b ++ more) = parse b

namespace ReadsFields

variable {α : Type} {head : Nat} {make : Bytes → Bytes → α} {fault : Error}
  {parse : Bytes → Except Error α}

theorem of_twoFields (h : ∀ b, parse b = match twoFields? (b.drop head) with
    | some (x, y) => .ok (make x y)
    | none => .error fault) : ReadsFields head make fault parse := by
  have hread {b x y : Bytes} (hfields : Fields head x y b) : parse b = .ok (make x y) := by
    rw [h, twoFields_drop.mpr hfields]
  have hnone {b : Bytes} (hfields : ∀ x y, ¬Fields head x y b) : parse b = .error fault := by
    have hfields : twoFields? (b.drop head) = none :=
      Option.eq_none_iff_forall_ne_some.mpr fun parts hparts =>
        hfields _ _ (twoFields_drop.mp hparts)
    rw [h, hfields]
  refine ⟨fun b a => ?_, fun b e => ?_, fun b x y n hb hn => ?_, fun b x y more hb => ?_⟩
  · by_cases hb : ∃ x y, Fields head x y b
    · obtain ⟨x, y, hb⟩ := hb
      rw [hread hb]
      refine ⟨fun ha => ⟨x, y, hb, (Except.ok.inj ha).symm⟩, ?_⟩
      rintro ⟨x', y', hb', rfl⟩
      obtain ⟨rfl, rfl⟩ := hb.unique hb'
      rfl
    · rw [hnone fun x y hfields => hb ⟨x, y, hfields⟩]
      exact ⟨nofun, fun ⟨x, y, hfields, _⟩ => absurd ⟨x, y, hfields⟩ hb⟩
  · by_cases hb : ∃ x y, Fields head x y b
    · obtain ⟨x, y, hb⟩ := hb
      rw [hread hb]
      exact ⟨nofun, fun ⟨_, hfields⟩ => absurd hb (hfields x y)⟩
    · have hfields : ∀ x y, ¬Fields head x y b := fun x y hfields => hb ⟨x, y, hfields⟩
      rw [hnone hfields, Except.error.injEq]
      exact ⟨fun he => ⟨he.symm, hfields⟩, fun ⟨he, _⟩ => he.symm⟩
  · exact hnone fun x' y' => hb.not_take hn
  · rw [hread hb, hread (hb.append more)]

end ReadsFields

/-! ### Accesses -/

namespace Bytes

variable (fault : Error)

/-- So many octets from a place on, if they are all there. -/
def slice? (place count : Nat) (b : Bytes) : Option Bytes :=
  if place + count ≤ b.length then some ((b.drop place).take count) else none

/-- Looks whether there is an octet at a place and takes it, with nothing to go on with if it is
taken from outside of the octets. -/
def octetWithin (place : Nat) (b : Bytes) : ExceptT Error Option UInt8 :=
  if b.length ≤ place then throw fault else (b[place]? : Option UInt8)

/-- Looks whether there are so many octets and takes them, in the same way. -/
def sliceWithin (place count : Nat) (b : Bytes) : ExceptT Error Option Bytes :=
  if b.length < place + count then throw fault else (slice? place count b : Option Bytes)

/-- Reads the field at a place. Gives the place behind it too. -/
def fieldWithin (place : Nat) (b : Bytes) : ExceptT Error Option (Bytes × Nat) := do
  let length ← octetWithin fault place b
  let x ← sliceWithin fault (place + 1) length.toNat b
  return (x, place + 1 + length.toNat)

/-- Reads the two fields from a place on. -/
def fieldsWithin (place : Nat) (b : Bytes) : ExceptT Error Option (Bytes × Bytes) := do
  let (x, place) ← fieldWithin fault place b
  let (y, _) ← fieldWithin fault place b
  return (x, y)

/-- A field is read at its place, and what is behind it is behind the next place. -/
theorem fieldWithin_some {place : Nat} {b x rest : Bytes}
    (h : field? (b.drop place) = some (x, rest)) :
    fieldWithin fault place b = pure (x, place + 1 + x.length) ∧
      rest = b.drop (place + 1 + x.length) := by
  obtain ⟨a, hx, hb⟩ := field_eq_some.mp h
  have hlength : b.length - place = 1 + x.length + rest.length := by
    have hdrop := congrArg List.length hb
    simp only [List.length_drop, List.length_append, List.length_cons] at hdrop
    omega
  have hoctet : b[place]? = some a := by
    have hhead := congrArg List.head? hb
    rwa [List.head?_drop] at hhead
  have hbehind : b.drop (place + 1) = x ++ rest := by
    rw [← List.drop_drop, hb]
    rfl
  have hthere : place + 1 + a.toNat ≤ b.length := by omega
  constructor
  · rw [fieldWithin, octetWithin, if_neg (by omega), hoctet]
    change sliceWithin fault (place + 1) a.toNat b >>= _ = _
    rw [sliceWithin, if_neg (by omega), slice?, if_pos hthere, hbehind, ← hx, List.take_left]
    rfl
  · rw [← List.drop_drop, hbehind, List.drop_left]

theorem fieldWithin_none {place : Nat} {b : Bytes} (h : field? (b.drop place) = none) :
    fieldWithin fault place b = throw fault := by
  rw [fieldWithin, octetWithin]
  split
  next => rfl
  next hlt =>
    have hplace : place < b.length := Nat.not_le.mp hlt
    rw [List.drop_eq_getElem_cons hplace, field?] at h
    rw [List.getElem?_eq_getElem hplace]
    have hcut : b.length < place + 1 + b[place].toNat := by
      split at h
      next => cases h
      next hcut =>
        rw [List.length_drop] at hcut
        omega
    change sliceWithin fault (place + 1) b[place].toNat b >>= _ = _
    rw [sliceWithin, if_pos hcut]
    rfl

/-- No octet is taken from outside, whatever the lengths are. -/
theorem fieldsWithin_eq (place : Nat) (b : Bytes) :
    fieldsWithin fault place b = match twoFields? (b.drop place) with
      | some parts => pure parts
      | none => throw fault := by
  rw [fieldsWithin, twoFields?]
  cases hfirst : field? (b.drop place) with
  | none =>
    rw [fieldWithin_none fault hfirst]
    rfl
  | some first =>
    obtain ⟨x, rest⟩ := first
    obtain ⟨hread, rfl⟩ := fieldWithin_some fault hfirst
    rw [hread, Option.bind_eq_bind, Option.bind_some, pure_bind]
    cases hsecond : field? (b.drop (place + 1 + x.length)) with
    | none =>
      dsimp only
      rw [fieldWithin_none fault hsecond, hsecond]
      rfl
    | some second =>
      dsimp only
      rw [(fieldWithin_some fault hsecond).1, hsecond]
      rfl

end Bytes

/-! ### Both replies -/

/-- The error for a reply that does not hold the name and the version of an app. -/
def CosmosApp.truncated : Error :=
  .malformedResponse "truncated app info response"

/-- Reads the name and the version by the places of their octets. -/
def CosmosApp.infoWithin (b : Bytes) : ExceptT Error Option CosmosApp.Info := do
  let (name, version) ← fieldsWithin CosmosApp.truncated 1 b
  return ⟨Utf8.decodeLossy name, Utf8.decodeLossy version⟩

theorem CosmosApp.readsFields_info :
    ReadsFields 1 (fun name version => ⟨Utf8.decodeLossy name, Utf8.decodeLossy version⟩)
      CosmosApp.truncated CosmosApp.Info.parse :=
  .of_twoFields fun _ => rfl

theorem CosmosApp.infoWithin_eq (b : Bytes) : infoWithin b = ExceptT.mk (some (Info.parse b)) := by
  have hparse : Info.parse b = match twoFields? (b.drop 1) with
    | some (name, version) => .ok ⟨Utf8.decodeLossy name, Utf8.decodeLossy version⟩
    | none => .error CosmosApp.truncated := rfl
  rw [infoWithin, fieldsWithin_eq, hparse]
  cases twoFields? (b.drop 1) <;> rfl

namespace EthereumApp

/-- The error for a reply that does not hold a key and an address. -/
def truncated : Error :=
  .malformedResponse "truncated address response"

/-- Splits the reply by the places of its octets. -/
def splitWithin (b : Bytes) : ExceptT Error Option (Bytes × Bytes) := do
  let keyLength ← octetWithin truncated 0 b
  let key ← sliceWithin truncated 1 keyLength.toNat b
  let textLength ← octetWithin truncated (1 + keyLength.toNat) b
  let text ← sliceWithin truncated (2 + keyLength.toNat) textLength.toNat b
  return (key, text)

theorem splitReply_eq (b : Bytes) : splitReply b = match twoFields? b with
    | some parts => .ok parts
    | none => .error truncated :=
  rfl

theorem readsFields_splitReply : ReadsFields 0 Prod.mk truncated splitReply := by
  refine .of_twoFields fun b => ?_
  rw [splitReply_eq, List.drop_zero]
  cases twoFields? b <;> rfl

theorem splitWithin_eq (b : Bytes) : splitWithin b = ExceptT.mk (some (splitReply b)) := by
  have hplaces : splitWithin b = fieldsWithin truncated 0 b := by
    have hplace (n : Nat) : 1 + n + 1 = 2 + n := by omega
    simp only [splitWithin, fieldsWithin, fieldWithin, bind_assoc, pure_bind, Nat.zero_add, hplace]
  rw [hplaces, fieldsWithin_eq, splitReply_eq, List.drop_zero]
  cases twoFields? b <;> rfl

/-- What is made of a key depends on the two parts of the reply. -/
theorem Key.parse_congr {b b' : Bytes} (h : splitReply b = splitReply b') :
    Key.parse b = Key.parse b' := by
  rw [Key.parse, Key.parse, h]

theorem Key.parse_truncated {b : Bytes} (h : splitReply b = .error truncated) :
    Key.parse b = .error truncated := by
  rw [Key.parse, h]
  rfl

end EthereumApp

/-- The name and the version of an app are read from a format, two fields and anything behind them,
and as texts if they are texts; a key and an address are split from two fields and anything behind
them. All else is malformed, and so is what ends before both fields do; what is behind them makes no
difference, to the key that is read from the reply neither. No octet is taken from outside of the
reply, whatever the lengths are. -/
theorem replies_read_by_fields :
    ReadsFields 1 (fun name version => ⟨Utf8.decodeLossy name, Utf8.decodeLossy version⟩)
        CosmosApp.truncated CosmosApp.Info.parse ∧
      (∀ name version b, Fields 1 (Utf8.encode name) (Utf8.encode version) b →
        CosmosApp.Info.parse b = .ok ⟨name, version⟩) ∧
      ReadsFields 0 Prod.mk EthereumApp.truncated EthereumApp.splitReply ∧
      (∀ b, (∀ key text, ¬Fields 0 key text b) →
        EthereumApp.Key.parse b = .error EthereumApp.truncated) ∧
      (∀ b key text, Fields 0 key text b →
        (∀ n < declared 0 key text,
          EthereumApp.Key.parse (b.take n) = .error EthereumApp.truncated) ∧
          ∀ more, EthereumApp.Key.parse (b ++ more) = EthereumApp.Key.parse b) ∧
      ∀ b, CosmosApp.infoWithin b = ExceptT.mk (some (CosmosApp.Info.parse b)) ∧
        EthereumApp.splitWithin b = ExceptT.mk (some (EthereumApp.splitReply b)) := by
  have hinfo := CosmosApp.readsFields_info
  have hsplit := EthereumApp.readsFields_splitReply
  refine ⟨hinfo, fun name version b hb => ?_, hsplit, fun b hb => ?_,
    fun b key text hb => ⟨fun n hn => ?_, fun more => ?_⟩,
    fun b => ⟨CosmosApp.infoWithin_eq b, EthereumApp.splitWithin_eq b⟩⟩
  · have htexts := (hinfo.ok_iff b _).mpr ⟨_, _, hb, rfl⟩
    rwa [Utf8.decodeLossy_encode, Utf8.decodeLossy_encode] at htexts
  · exact EthereumApp.Key.parse_truncated ((hsplit.error_iff b _).mpr ⟨rfl, hb⟩)
  · exact EthereumApp.Key.parse_truncated (hsplit.cut b key text n hb hn)
  · exact EthereumApp.Key.parse_congr (hsplit.append b key text more hb)

/-- The reply of an app with more behind the version is read; its octets up to the last one of the
version are malformed, and so are those of a key in front of an address that is not there. -/
theorem longer_info_read :
    let reply : Bytes :=
      0x01 :: (6 :: Utf8.encode "Cosmos" ++ (6 :: Utf8.encode "2.34.9" ++ [0x01, 0x80]))
    let cut : Bytes := 0x02 :: [0x04, 0x05] ++ (0x03 :: [0x41] ++ [])
    Fields 1 (Utf8.encode "Cosmos") (Utf8.encode "2.34.9") reply ∧
      CosmosApp.Info.parse reply = .ok ⟨"Cosmos", "2.34.9"⟩ ∧
      CosmosApp.Info.parse (reply.take 14) =
        .error (.malformedResponse "truncated app info response") ∧
      EthereumApp.Key.parse cut = .error (.malformedResponse "truncated address response") := by
  intro reply cut
  obtain ⟨hinfo, htexts, hsplit, hkey, -⟩ := replies_read_by_fields
  have hreply : Fields 1 (Utf8.encode "Cosmos") (Utf8.encode "2.34.9") reply :=
    .mk [0x01] rfl (by decide) (by decide)
  have hcut : ∀ key text, ¬Fields 0 key text cut := by
    intro key text h
    have hsome := twoFields_eq_some.mpr h
    have hnone : twoFields? cut = none := by decide
    rw [hnone] at hsome
    cases hsome
  exact ⟨hreply, htexts _ _ _ hreply, hinfo.cut reply _ _ 14 hreply (by decide), hkey cut hcut⟩

end Countersign

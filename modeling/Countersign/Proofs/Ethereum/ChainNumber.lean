import Countersign.Proofs.Ethereum.Integers
import Countersign.Proofs.Json.Forms
import Countersign.Proofs.Page.Wire

/-!
# Chains of domains

A chain is given as a number in one of three forms, and not given by `null` or not at all. Just
these are read. The rest of the domain is read alike whatever stands for the chain, so all forms of
a number make the same domain.
-/
namespace Countersign

open Json

/-- The digits of an integer literal, and no sign, point or exponent. -/
def Json.Literal.IsWhole (l : Literal) (n : Nat) : Prop :=
  l.minus = false ∧ l.fraction = none ∧ l.exponent = none ∧ writtenBy 0 l.whole = n

theorem Json.gathered_left {n : Nat} {ds : List Nat} (h : (gathered n ds).2 = 0) :
    (gathered n ds).1 = writtenBy n ds := by
  induction ds generalizing n with
  | nil => rfl
  | cons d ds ih =>
    rw [gathered] at h ⊢
    split at h
    next => cases h
    next hfits =>
      rw [if_neg hfits]
      exact ih h

/-- The literals of a natural number of sixty-four bits are its digits. -/
theorem Json.Literal.value_natural {l : Literal} {n : Nat} :
    l.value? = some (.natural n) ↔ l.IsWhole n ∧ n < 2 ^ 64 := by
  constructor
  · intro h
    have hfits : n < 2 ^ 64 := fits_of_literal h
    have hfloat {x : Option Float} {f : Float → Float} :
        x.map (fun x => .float (f x)) ≠ some (Number.natural n) := by
      intro hx
      obtain ⟨y, -, hy⟩ := Option.map_eq_some_iff.mp hx
      cases hy
    unfold Literal.value? at h
    dsimp only at h
    split at h
    next hwhole =>
      obtain ⟨hfraction, hexponent, hleft⟩ := hwhole
      split at h
      next hminus =>
        obtain rfl := Number.natural.inj (Option.some.inj h)
        refine ⟨⟨by simpa using hminus, by simpa using hfraction, by simpa using hexponent, ?_⟩,
          hfits⟩
        exact (gathered_left hleft).symm
      next =>
        split at h
        next => cases h
        next => cases h
    next =>
      split at h
      next => exact absurd h hfloat
      next =>
        split at h
        next =>
          split at h
          next => cases h
          next => cases h
        next => exact absurd h hfloat
  · rintro ⟨⟨hminus, hfraction, hexponent, rfl⟩, hfits⟩
    simp [Literal.value?, hminus, hfraction, hexponent, gathered_eq hfits]

/-! ### Members that are seen -/

namespace Json.Record

variable {α : Type} {r : Record α} {name : String} {seen seen' : List (String × Tree)}

/-- What was seen is the same but for one name. -/
def SameBut (name : String) (seen seen' : List (String × Tree)) : Prop :=
  ∀ k, k ≠ name → seen.lookup k = seen'.lookup k

theorem SameBut.append (h : SameBut name seen seen') (front : List (String × Tree)) :
    SameBut name (front ++ seen) (front ++ seen') := by
  intro k hk
  rw [List.lookup_append, List.lookup_append, h k hk]

theorem SameBut.cons_left (h : SameBut name seen seen') (t : Tree) :
    SameBut name ((name, t) :: seen) seen' := by
  intro k hk
  rw [List.lookup_cons, beq_eq_false_iff_ne.mpr hk]
  exact h k hk

theorem collect_append (r : Record α) (closed : Bool) (seen : List (String × Tree))
    (front behind : List (Option String × Tree)) :
    r.collect closed seen (front ++ behind) =
      r.collect closed seen front >>= fun seen => r.collect closed seen behind := by
  induction front generalizing seen with
  | nil => rfl
  | cons m front ih =>
    obtain ⟨k, t⟩ := m
    cases k with
    | none => rfl
    | some k =>
      rw [List.cons_append, collect, collect]
      split
      next f _ =>
        split
        next => rfl
        next =>
          cases f.check t with
          | error e => rfl
          | ok _ => exact ih _
      next =>
        split
        next => rfl
        next =>
          split
          next => exact ih _
          next => rfl

/-- Members of other names are collected alike, and are put in front of what was seen. -/
theorem collect_sameBut (r : Record α) (closed : Bool) (h : SameBut name seen seen')
    {members : List (Option String × Tree)} (hmembers : ∀ m ∈ members, m.1 ≠ some name) :
    (∃ e, r.collect closed seen members = .error e ∧ r.collect closed seen' members = .error e) ∨
      ∃ more : List (String × Tree), more.lookup name = none ∧
        r.collect closed seen members = .ok (more ++ seen) ∧
        r.collect closed seen' members = .ok (more ++ seen') := by
  induction members generalizing seen seen' with
  | nil => exact .inr ⟨[], rfl, rfl, rfl⟩
  | cons m members ih =>
    obtain ⟨k, t⟩ := m
    obtain ⟨hk, hrest⟩ := List.forall_mem_cons.mp hmembers
    cases k with
    | none => exact .inl ⟨_, rfl, rfl⟩
    | some k =>
      have hk : k ≠ name := fun heq => hk (congrArg some heq)
      rw [collect, collect, h k hk]
      split
      next f _ =>
        split
        next => exact .inl ⟨_, rfl, rfl⟩
        next =>
          cases f.check t with
          | error e => exact .inl ⟨e, rfl, rfl⟩
          | ok _ =>
            rcases ih (h.append [(k, t)]) hrest with herror | ⟨more, hmore, hseen, hseen'⟩
            · exact .inl herror
            · refine .inr ⟨more ++ [(k, t)], ?_, ?_, ?_⟩
              · simp [List.lookup_append, hmore, List.lookup_cons, beq_eq_false_iff_ne.mpr hk.symm]
              · rw [List.append_assoc]
                exact hseen
              · rw [List.append_assoc]
                exact hseen'
      next =>
        split
        next => exact .inl ⟨_, rfl, rfl⟩
        next =>
          split
          next => exact ih h hrest
          next => exact .inl ⟨_, rfl, rfl⟩

/-- What was seen of a name stays if no member has it. -/
theorem lookup_collect {r : Record α} {closed : Bool} {members : List (Option String × Tree)}
    (hmembers : ∀ m ∈ members, m.1 ≠ some name) (h : r.collect closed seen members = .ok seen') :
    seen'.lookup name = seen.lookup name := by
  have hself : SameBut name seen seen := fun _ _ => rfl
  rcases r.collect_sameBut closed hself hmembers with ⟨e, he, -⟩ | ⟨more, hmore, hok, -⟩
  · rw [he] at h
    cases h
  · obtain rfl := Except.ok.inj (hok.symm.trans h)
    rw [List.lookup_append, hmore, Option.none_or]

/-- The items of an array are seen under the names of the members, as many as there are. -/
theorem names_inOrder {fields : List Field} {items : List Tree}
    (h : inOrder false fields items = .ok seen) :
    seen.map Prod.fst = (fields.map Field.name).take items.length := by
  induction fields generalizing items seen with
  | nil =>
    cases items with
    | nil =>
      obtain rfl := Except.ok.inj h
      rfl
    | cons t items => cases h
  | cons f fields ih =>
    cases items with
    | nil =>
      rw [inOrder] at h
      split at h
      next => simpa using ih h
      next => cases h
    | cons t items =>
      obtain ⟨_, -, h⟩ := exists_of_bind_ok h
      obtain ⟨more, hmore, h⟩ := exists_of_bind_ok h
      obtain rfl := Except.ok.inj h
      simp [ih hmore]

end Json.Record

namespace TypedData

/-! ### Forms of a chain -/

/-- A chain is given as an integer literal, as decimal digits, or as hexadecimal digits behind a
mark; a plus sign may stand in front of the digits of a text. -/
inductive ChainForm (n : Word 64) : Tree → Prop
  | literal : ChainForm n (.number (.natural n))
  | decimal {s : String} (h : Digits.Signed 10 s.toList n) : ChainForm n (.string s)
  | hexadecimal {s : String} {ds : List Char} (hs : s.toList = '0' :: 'x' :: ds)
      (h : Digits.Signed 16 ds n) : ChainForm n (.string s)

theorem toOption_read_iff {base limit : Nat} (hb : base ≤ 16) {cs : List Char} {n : Nat} :
    (Digits.read base limit cs).toOption = some n ↔ Digits.Signed base cs n ∧ n < limit := by
  rw [← Digits.read_iff hb]
  cases Digits.read base limit cs with
  | ok m => simp only [Except.toOption, Option.some.injEq, Except.ok.injEq]
  | error e => simp only [reduceCtorEq, Except.toOption]

/-- A text stands for a chain if and only if it has a form of its number. The mark is no part of
decimal digits, so no text has forms of both kinds. -/
theorem chainOfText_eq_some {s : String} {n : Word 64} :
    chainOfText? s = some n.val ↔ ChainForm n (.string s) := by
  unfold chainOfText?
  split
  next ds hs =>
    rw [toOption_read_iff (Nat.le_refl 16)]
    constructor
    · exact fun h => .hexadecimal hs h.1
    · intro h
      cases h with
      | decimal h =>
        have hmark : 'x' ∈ s.toList := by simp [hs]
        rcases h.isDigit 'x' hmark with hplus | ⟨d, hd⟩
        · cases hplus
        · exact absurd rfl (hd.ne (by decide) (by simp))
      | hexadecimal hs' h =>
        obtain rfl : ds = _ := by simpa using hs.symm.trans hs'
        exact ⟨h, n.isLt⟩
  next hs =>
    rw [toOption_read_iff (by decide)]
    constructor
    · exact fun h => .decimal h.1
    · intro h
      cases h with
      | decimal h => exact ⟨h, n.isLt⟩
      | hexadecimal hs' _ => exact absurd hs' (hs _)

theorem found_eq_ok {shown : String} {m : Option Nat} {c : Option (Word 64)} :
    chainOf.found shown m = .ok c ↔ ∃ n : Word 64, c = some n ∧ m = some n.val := by
  unfold chainOf.found
  split
  next n hn =>
    obtain ⟨k, rfl, hk⟩ := Option.bind_eq_some_iff.mp hn
    obtain rfl := word_eq_some.mp hk
    constructor
    · exact fun h => ⟨n, (Except.ok.inj h).symm, rfl⟩
    · rintro ⟨n', rfl, hn'⟩
      rw [Fin.ext (Option.some.inj hn')]
  next hnone =>
    constructor
    · exact nofun
    · rintro ⟨n, rfl, rfl⟩
      rw [Option.bind_some, word_eq_some.mpr rfl] at hnone
      cases hnone

/-- A chain is read from `null` as none, and from each of its forms. -/
theorem decodeChain_eq_ok {t : Tree} {c : Option (Word 64)} :
    decodeChain t = .ok c ↔ t = .null ∧ c = none ∨ ∃ n, c = some n ∧ ChainForm n t := by
  have hother {t : Tree} (hnull : t ≠ .null) (hform : ∀ n, ¬ChainForm n t)
      (hvalue : ∀ v ∈ t.value?, chainOf v = chainOf.found v.render none) :
      decodeChain t = .ok c ↔ t = .null ∧ c = none ∨ ∃ n, c = some n ∧ ChainForm n t := by
    constructor
    · intro h
      obtain ⟨v, hv, hc⟩ := exists_of_bind_ok h
      rw [hvalue v (ofOption_eq_ok.mp hv)] at hc
      obtain ⟨n, -, hn⟩ := found_eq_ok.mp hc
      cases hn
    · rintro (⟨h, -⟩ | ⟨n, -, h⟩)
      · exact absurd h hnull
      · exact absurd h (hform n)
  have hsingle {v w : Json} (h : v ∈ some w) : v = w := (Option.some.inj h).symm
  cases t with
  | null =>
    constructor
    · exact fun h => .inl ⟨rfl, (Except.ok.inj h).symm⟩
    · rintro (⟨-, rfl⟩ | ⟨n, -, h⟩)
      · rfl
      · cases h
  | string s =>
    refine found_eq_ok.trans ⟨?_, ?_⟩
    · rintro ⟨n, rfl, hn⟩
      exact .inr ⟨n, rfl, chainOfText_eq_some.mp hn⟩
    · rintro (⟨h, -⟩ | ⟨n, rfl, h⟩)
      · cases h
      · exact ⟨n, rfl, chainOfText_eq_some.mpr h⟩
  | number k =>
    cases k with
    | natural m =>
      refine found_eq_ok.trans ⟨?_, ?_⟩
      · rintro ⟨n, rfl, hn⟩
        obtain rfl := Option.some.inj hn
        exact .inr ⟨n, rfl, .literal⟩
      · rintro (⟨h, -⟩ | ⟨n, rfl, h⟩)
        · cases h
        · cases h
          exact ⟨n, rfl, rfl⟩
    | negative | float => exact hother nofun nofun fun v hv => hsingle hv ▸ rfl
  | bool => exact hother nofun nofun fun v hv => hsingle hv ▸ rfl
  | array | object =>
    refine hother nofun nofun fun v hv => ?_
    obtain ⟨vs, -, rfl⟩ := Option.map_eq_some_iff.mp hv
    rfl
  | unreadable | malformed | stray => exact hother nofun nofun nofun

theorem decodeChain_eq_some {t : Tree} {n : Word 64} :
    decodeChain t = .ok (some n) ↔ ChainForm n t := by
  rw [decodeChain_eq_ok]
  constructor
  · rintro (⟨-, h⟩ | ⟨n', h, hform⟩)
    · cases h
    · rwa [Option.some.inj h]
  · exact fun h => .inr ⟨n, rfl, h⟩

theorem decodeChain_eq_none {t : Tree} : decodeChain t = .ok none ↔ t = .null := by
  rw [decodeChain_eq_ok]
  constructor
  · rintro (⟨h, -⟩ | ⟨n, h, -⟩)
    · exact h
    · cases h
  · exact fun h => .inl ⟨h, rfl⟩

/-! ### The rest of a domain -/

namespace Domain

/-- The members of a domain. -/
def record : Record Domain :=
  Record.of Domain.mk
    |>.and (.optional "name" (Decoder.nullable Decoder.string) none)
    |>.and (.optional "version" (Decoder.nullable Decoder.string) none)
    |>.and (.optional "chainId" decodeChain none)
    |>.and (.optional "verifyingContract" (Decoder.nullable Decoder.string) none)
    |>.and (.optional "salt" (Decoder.nullable Decoder.string) none)

theorem decode_eq : Domain.decode = record.decode := rfl

/-- The chain of a member that may be missing. -/
def chainIn : Option Tree → Except DecodeError (Option (Word 64))
  | some t => decodeChain t
  | none => .ok none

/-- A domain with another chain. -/
def withChain (c : Option (Word 64)) (d : Domain) : Domain :=
  { d with chainId := c }

/-- The members are read in turn. -/
theorem build_eq (found : String → Option Tree) : record.build found = do
    let name ← (Record.optional "name" (Decoder.nullable Decoder.string) none).build found
    let version ← (Record.optional "version" (Decoder.nullable Decoder.string) none).build found
    let chain ← chainIn (found "chainId")
    let contract ←
      (Record.optional "verifyingContract" (Decoder.nullable Decoder.string) none).build found
    let salt ← (Record.optional "salt" (Decoder.nullable Decoder.string) none).build found
    return ⟨name, version, chain, contract, salt⟩ := by
  have hchain :
      (Record.optional "chainId" decodeChain none).build found = chainIn (found "chainId") := by
    simp only [Record.optional]
    cases found "chainId" <;> rfl
  simp only [record, Record.and, Record.of, ok_bind, bind_assoc, pure_bind, hchain]

/-- With a chain the same domain is built as without. -/
theorem build_withChain {found base : String → Option Tree}
    (h : ∀ k, k ≠ "chainId" → found k = base k) {c : Option (Word 64)}
    (hc : chainIn (found "chainId") = .ok c) (hnone : chainIn (base "chainId") = .ok none) :
    record.build found = withChain c <$> record.build base := by
  have hsame {k : String} (hk : k ≠ "chainId") (d : Decoder (Option String)) :
      (Record.optional k d none).build found = (Record.optional k d none).build base := by
    simp only [Record.optional, h k hk]
  rw [build_eq, build_eq, hsame (by decide), hsame (by decide), hsame (by decide),
    hsame (by decide), hc, hnone]
  simp only [map_bind, map_pure, ok_bind, withChain]

/-- A domain that is built has the chain that is found. -/
theorem chainIn_of_build {found : String → Option Tree} {d : Domain}
    (h : record.build found = .ok d) : chainIn (found "chainId") = .ok d.chainId := by
  rw [build_eq] at h
  obtain ⟨name, -, h⟩ := exists_of_bind_ok h
  obtain ⟨version, -, h⟩ := exists_of_bind_ok h
  obtain ⟨chain, hchain, h⟩ := exists_of_bind_ok h
  obtain ⟨contract, -, h⟩ := exists_of_bind_ok h
  obtain ⟨salt, -, h⟩ := exists_of_bind_ok h
  obtain rfl := Except.ok.inj h
  exact hchain

/-- The chain is judged where it stands. -/
theorem collect_chain {seen : List (String × Tree)} (hseen : seen.lookup "chainId" = none)
    (t : Tree) (after : List (Option String × Tree)) :
    record.collect false seen ((some "chainId", t) :: after) =
      decodeChain t >>= fun _ => record.collect false (("chainId", t) :: seen) after := by
  have hfield : record.field? "chainId" =
      some ⟨"chainId", fun t => (decodeChain t).map fun _ => (), true⟩ := rfl
  rw [Record.collect, hfield]
  simp only [hseen, Option.isSome_none, Bool.false_eq_true, if_false]
  cases decodeChain t <;> rfl

/-- The items of an array are the members in their order. -/
theorem decode_items (name version : Tree) (rest : List Tree) :
    Domain.decode (.array (name :: version :: rest)) = (do
      let _ ← Decoder.nullable Decoder.string name
      let _ ← Decoder.nullable Decoder.string version
      let more ← Record.inOrder false (record.fields.drop 2) rest
      record.build fun k => (("name", name) :: ("version", version) :: more).lookup k) := by
  have hitems : Record.inOrder false record.fields (name :: version :: rest) =
      (Decoder.nullable Decoder.string name).map (fun _ => ()) >>= fun _ =>
        ((Decoder.nullable Decoder.string version).map (fun _ => ()) >>= fun _ =>
          Record.inOrder false (record.fields.drop 2) rest >>= fun more =>
            pure (("version", version) :: more)) >>= fun more =>
              pure (("name", name) :: more) := rfl
  rw [decode_eq, Record.decode, Record.decodeWith, hitems]
  cases Decoder.nullable Decoder.string name with
  | error e => rfl
  | ok _ =>
    cases Decoder.nullable Decoder.string version with
    | error e => rfl
    | ok _ => cases Record.inOrder false (record.fields.drop 2) rest <;> rfl

theorem inOrder_chain (t : Tree) (rest : List Tree) :
    Record.inOrder false (record.fields.drop 2) (t :: rest) = do
      let _ ← decodeChain t
      let more ← Record.inOrder false (record.fields.drop 3) rest
      return ("chainId", t) :: more := by
  have hitem : Record.inOrder false (record.fields.drop 2) (t :: rest) =
      (decodeChain t).map (fun _ => ()) >>= fun _ =>
        Record.inOrder false (record.fields.drop 3) rest >>= fun more =>
          pure (("chainId", t) :: more) := rfl
  rw [hitem]
  cases decodeChain t <;> rfl

/-- A domain with a place for its chain: an object without a chain, around one of its members, or an
array. -/
inductive Around where
  | members (before after : List (Option String × Tree))
      (h : ∀ m ∈ before ++ after, m.1 ≠ some "chainId")
  | items (name version : Tree) (rest : List Tree)

/-- The domain with a value for its chain. -/
def Around.put (t : Tree) : Around → Tree
  | .members before after _ => .object (before ++ (some "chainId", t) :: after)
  | .items name version rest => .array (name :: version :: t :: rest)

/-- The domain without a chain. In front of other items there must be something for it. -/
def Around.bare : Around → Tree
  | .members before after _ => .object (before ++ after)
  | .items name version [] => .array [name, version]
  | .items name version rest => .array (name :: version :: .null :: rest)

/-- A domain whose chain is read is the bare one with that chain, whatever the form of the chain is.
-/
theorem decode_put (around : Around) {t : Tree} {c : Option (Word 64)}
    (hc : decodeChain t = .ok c) :
    Domain.decode (around.put t) = withChain c <$> Domain.decode around.bare := by
  have hnull : decodeChain .null = .ok none := rfl
  cases around with
  | members before after h =>
    obtain ⟨hbefore, hafter⟩ := List.forall_mem_append.mp h
    simp only [Around.put, Around.bare, decode_eq, Record.decode, Record.decodeWith,
      Record.collect_append]
    have hempty : Record.SameBut "chainId" [] [] := fun _ _ => rfl
    rcases record.collect_sameBut false hempty hbefore with ⟨e, he, -⟩ | ⟨seen, hseen, hfront, -⟩
    · rw [he]
      rfl
    · rw [List.append_nil] at hfront
      have hsame : Record.SameBut "chainId" (("chainId", t) :: seen) seen :=
        Record.SameBut.cons_left (fun _ _ => rfl) t
      rw [hfront, ok_bind, ok_bind, collect_chain hseen, hc, ok_bind]
      rcases record.collect_sameBut false hsame hafter with
        ⟨e, he, he'⟩ | ⟨more, hmore, hwith, hbare⟩
      · rw [he, he']
        rfl
      · rw [hwith, hbare, ok_bind, ok_bind]
        refine build_withChain (hsame.append more) ?_ ?_
        · simpa [List.lookup_append, hmore, chainIn] using hc
        · simp [List.lookup_append, hmore, hseen, chainIn]
  | items name version rest =>
    have hbehind {more more' : List (String × Tree)} (h : Record.SameBut "chainId" more more') :=
      h.append [("name", name), ("version", version)]
    simp only [Around.put, decode_items, inOrder_chain, hc, ok_bind, bind_assoc, pure_bind]
    cases rest with
    | nil =>
      have hput : Record.inOrder false (record.fields.drop 3) [] = .ok [] := rfl
      have hbare : Record.inOrder false (record.fields.drop 2) [] = .ok [] := rfl
      simp only [Around.bare, decode_items, hput, hbare, ok_bind, map_bind]
      refine bind_congr fun _ => bind_congr fun _ => ?_
      exact build_withChain (hbehind (Record.SameBut.cons_left (fun _ _ => rfl) t)) hc rfl
    | cons u rest =>
      simp only [Around.bare, decode_items, inOrder_chain, hnull, ok_bind, map_bind, bind_assoc,
        pure_bind]
      refine bind_congr fun _ => bind_congr fun _ => bind_congr fun more => ?_
      have hsame :
          Record.SameBut "chainId" (("chainId", t) :: more) (("chainId", .null) :: more) := by
        intro k hk
        rw [List.lookup_cons, List.lookup_cons, beq_eq_false_iff_ne.mpr hk]
      exact build_withChain (hbehind hsame) hc hnull

/-- The chain of a domain that is read is that of its value. -/
theorem chain_of_put {around : Around} {t : Tree} {d : Domain}
    (h : Domain.decode (around.put t) = .ok d) : decodeChain t = .ok d.chainId := by
  cases around with
  | members before after hothers =>
    obtain ⟨hbefore, hafter⟩ := List.forall_mem_append.mp hothers
    obtain ⟨seen, hseen, hbuild⟩ : ∃ seen,
        record.collect false [] (before ++ (some "chainId", t) :: after) = .ok seen ∧
          record.build (fun k => seen.lookup k) = .ok d :=
      exists_of_bind_ok h
    rw [Record.collect_append] at hseen
    obtain ⟨front, hfront, hseen⟩ := exists_of_bind_ok hseen
    rw [collect_chain (Record.lookup_collect hbefore hfront)] at hseen
    obtain ⟨c, -, hseen⟩ := exists_of_bind_ok hseen
    have hchain := chainIn_of_build hbuild
    rwa [Record.lookup_collect hafter hseen] at hchain
  | items name version rest =>
    rw [Around.put, decode_items] at h
    obtain ⟨_, -, h⟩ := exists_of_bind_ok h
    obtain ⟨_, -, h⟩ := exists_of_bind_ok h
    obtain ⟨more, hmore, hbuild⟩ := exists_of_bind_ok h
    rw [inOrder_chain] at hmore
    obtain ⟨c, -, hmore⟩ := exists_of_bind_ok hmore
    obtain ⟨behind, -, hmore⟩ := exists_of_bind_ok hmore
    obtain rfl := Except.ok.inj hmore
    exact chainIn_of_build hbuild

/-- A domain has no chain without a member or an item for it. -/
inductive Chainless : Tree → Prop
  | object {members : List (Option String × Tree)} (h : ∀ m ∈ members, m.1 ≠ some "chainId") :
      Chainless (.object members)
  | array {items : List Tree} (h : items.length ≤ 2) : Chainless (.array items)

theorem chain_of_chainless {t : Tree} (ht : Chainless t) {d : Domain}
    (h : Domain.decode t = .ok d) : d.chainId = none := by
  have hnone {seen : List (String × Tree)} (hseen : seen.lookup "chainId" = none)
      (hbuild : record.build (fun k => seen.lookup k) = .ok d) : d.chainId = none := by
    have hchain := chainIn_of_build hbuild
    rw [hseen] at hchain
    exact (Except.ok.inj hchain).symm
  cases ht with
  | @object members hmembers =>
    obtain ⟨seen, hseen, hbuild⟩ : ∃ seen, record.collect false [] members = .ok seen ∧
        record.build (fun k => seen.lookup k) = .ok d := exists_of_bind_ok h
    exact hnone (Record.lookup_collect hmembers hseen) hbuild
  | @array items hitems =>
    obtain ⟨seen, hseen, hbuild⟩ : ∃ seen, Record.inOrder false record.fields items = .ok seen ∧
        record.build (fun k => seen.lookup k) = .ok d := exists_of_bind_ok h
    refine hnone ?_ hbuild
    have hnames := Record.names_inOrder hseen
    have hfront : ∀ n ≤ 2, "chainId" ∉ (record.fields.map Json.Field.name).take n := by decide
    refine List.lookup_eq_none_iff.mpr fun m hm => bne_iff_ne.mpr fun heq => hfront _ hitems ?_
    rw [← hnames]
    exact List.mem_map.mpr ⟨m, hm, heq.symm⟩

/-- A domain comes back from its text. -/
theorem decode_render (d : Domain) : decodeText Domain.decode d.toJson.render = .ok d := by
  have hpresent {α : Type} {k : String} {v : Option α} {f : α → Json} (hf : ∀ a, (f a).depth ≤ 0) :
      ∀ m ∈ TypedData.present k (v.map f), m.2.depth ≤ 0 := by
    cases v with
    | none => simp [TypedData.present]
    | some a => simpa [TypedData.present] using hf a
  have htext (s : String) : (Json.string s).depth ≤ 0 := Nat.le_refl 0
  have hflat : ∀ m ∈ d.jsonMembers, m.2.depth ≤ 0 := by
    simp only [jsonMembers, List.forall_mem_append]
    exact ⟨⟨⟨⟨hpresent htext, hpresent htext⟩, hpresent fun _ => Nat.le_refl 0⟩, hpresent htext⟩,
      hpresent htext⟩
  have hdepth : (Json.object d.jsonMembers).depth ≤ depthLimit := by
    have hmembers := membersDepth_le hflat
    rw [depth, depthLimit]
    omega
  have hround := (roundTrips_of_takes d.takes d.members_isRead).compact d.jsonMembers []
    (by rw [List.append_nil]) (by simp) hdepth
  rwa [← d.toJson_eq] at hround

end Domain

/-! ### Chains are normalized -/

open Domain

/-- Some value for a chain is read as a number just if it is one of the forms of the number, among
which the literals are those of its digits; it is read as none just if it is `null`, and is an error
otherwise. A domain has the chain that its value is read as, and none without a value; the rest of
it does not depend on the value. So all forms of a number give the same domain, which has the same
separator. A domain comes back from its own text. -/
theorem chains_normalized :
    (∀ t : Tree,
      (∀ n, decodeChain t = .ok (some n) ↔ ChainForm n t) ∧ (decodeChain t = .ok none ↔ t = .null) ∧
      ((∃ e, decodeChain t = .error e) ↔ t ≠ .null ∧ ∀ n, ¬ChainForm n t)) ∧
    (∀ (l : Literal) (n : Nat), l.value? = some (.natural n) ↔ l.IsWhole n ∧ n < 2 ^ 64) ∧
    (∀ around : Around,
      (∀ t d, Domain.decode (around.put t) = .ok d → decodeChain t = .ok d.chainId) ∧
      (∀ t c, decodeChain t = .ok c →
        Domain.decode (around.put t) = withChain c <$> Domain.decode around.bare) ∧
      ∀ n t t', ChainForm n t → ChainForm n t' →
        Domain.decode (around.put t) = Domain.decode (around.put t') ∧
          ∀ d d', Domain.decode (around.put t) = .ok d → Domain.decode (around.put t') = .ok d' →
            d = d' ∧ d.separator = d'.separator) ∧
    (∀ t d, Chainless t → Domain.decode t = .ok d → d.chainId = none) ∧
    ∀ t d, Domain.decode t = .ok d → decodeText Domain.decode d.toJson.render = .ok d := by
  refine ⟨fun t => ⟨fun n => decodeChain_eq_some, decodeChain_eq_none, ?_⟩,
    fun l n => Literal.value_natural,
    fun around => ⟨fun t d => chain_of_put, fun t c => decode_put around, fun n t t' ht ht' => ?_⟩,
    fun t d ht => chain_of_chainless ht, fun t d _ => decode_render d⟩
  · cases hchain : decodeChain t with
    | ok c =>
      refine ⟨nofun, fun ⟨hnull, hform⟩ => ?_⟩
      rcases decodeChain_eq_ok.mp hchain with ⟨h, -⟩ | ⟨n, -, h⟩
      · exact absurd h hnull
      · exact absurd h (hform n)
    | error e =>
      refine ⟨fun _ => ⟨?_, fun n hform => ?_⟩, fun _ => ⟨e, rfl⟩⟩
      · rintro rfl
        rw [decodeChain_eq_none.mpr rfl] at hchain
        cases hchain
      · rw [decodeChain_eq_some.mpr hform] at hchain
        cases hchain
  · have hsame : Domain.decode (around.put t) = Domain.decode (around.put t') := by
      rw [decode_put around (decodeChain_eq_some.mpr ht),
        decode_put around (decodeChain_eq_some.mpr ht')]
    refine ⟨hsame, fun d d' hd hd' => ?_⟩
    obtain rfl := Except.ok.inj (hd.symm.trans (hsame.trans hd'))
    exact ⟨rfl, rfl⟩

/-- Chain 137 as a literal, in decimal and in hexadecimal behind a plus sign; a mark in capitals is
none. -/
theorem chain_137_in_three_forms :
    let around : Around := .members [(some "name", .string "Ether Mail")] [] (by decide)
    let d : Domain := ⟨some "Ether Mail", none, some 137, none, none⟩
    (∀ t ∈ [.number (.natural 137), .string "137", .string "0x+89"],
      Domain.decode (around.put t) = .ok d) ∧
      (∃ e, decodeChain (.string "0X89") = .error e) ∧
      decodeText Domain.decode d.toJson.render = .ok d := by
  intro around d
  obtain ⟨hchain, -, haround, -, hround⟩ := chains_normalized
  obtain ⟨-, hput, hforms⟩ := haround around
  have hliteral : ChainForm 137 (.number (.natural 137)) := .literal
  have hdecimal : ChainForm 137 (.string "137") :=
    .decimal ⟨_, Digits.numeral_toDigits (by decide) 137, .inl (by decide)⟩
  have hhexadecimal : ChainForm 137 (.string "0x+89") :=
    .hexadecimal rfl ⟨_, Digits.numeral_toDigits (by decide) 137, .inr (by decide)⟩
  have hread : Domain.decode (around.put (.number (.natural 137))) = .ok d :=
    hput _ _ ((hchain _).1 137 |>.mpr hliteral)
  refine ⟨?_, ⟨_, rfl⟩, hround _ d hread⟩
  simp only [List.forall_mem_cons]
  refine ⟨hread, ?_, ?_, nofun⟩
  · rw [← (hforms 137 _ _ hliteral hdecimal).1, hread]
  · rw [← (hforms 137 _ _ hliteral hhexadecimal).1, hread]

end TypedData

end Countersign

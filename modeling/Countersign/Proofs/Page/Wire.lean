import Countersign.Approval.Message
import Countersign.Caller
import Countersign.Device.Path
import Countersign.Ethereum.TypedData
import Countersign.Page.Answer
import Countersign.Page.Request
import Countersign.Proofs.Json.RoundTrip

/-!
# Messages on the wire

What pages, the user interface and the wallet hand to one another as JSON is read back as what it
was. It is so in whatever order the members of the message stand, and whatever else its object has,
as long as no member that it knows stands there twice. Payloads that the wallet only passes on come
back as they were.
-/
namespace Countersign

open Json

/-! ### Callers and reports -/

namespace Caller

/-- The members of the JSON form. -/
def jsonMembers (c : Caller) : List (String × Json) :=
  [("isInternal", .bool c.isInternal), ("origin", .string c.origin)]

theorem takes (c : Caller) : Takes decode ["isInternal", "origin"] (treesOf c.jsonMembers) c := by
  obtain ⟨isInternal, origin⟩ := c
  refine takes_record ["isInternal",
    "origin"] (.and (.and (Record.reads_of _) (reads_member rfl rfl))
    (reads_member rfl rfl)) rfl ?_ ?_ ?_ <;> simp [jsonMembers]

theorem members_isRead (c : Caller) : ∀ m ∈ c.jsonMembers, m.2.IsRead := by
  simp [jsonMembers, IsRead]

end Caller

namespace ErrorReport

/-- The members of the JSON form. -/
def jsonMembers (r : ErrorReport) : List (String × Json) :=
  [("module", .string r.module), ("code", Json.nat r.code), ("message", .string r.message)]

theorem takes (r : ErrorReport) :
    Takes decode ["module", "code", "message"] (treesOf r.jsonMembers) r := by
  obtain ⟨module, code, message⟩ := r
  refine takes_record ["module", "code", "message"] (.and (.and (.and (Record.reads_of _)
    (reads_member rfl rfl)) (reads_member rfl (word_nat (by decide) code))) (reads_member rfl rfl))
    rfl ?_ ?_ ?_ <;> simp [jsonMembers]

theorem members_isRead (r : ErrorReport) : ∀ m ∈ r.jsonMembers, m.2.IsRead := by
  have hcode : (r.code : Nat) < 2 ^ 64 := Nat.lt_trans r.code.isLt (by decide)
  simp [jsonMembers, IsRead, isRead_nat hcode]

end ErrorReport

/-! ### Messages to the user interface -/

namespace Approval

theorem Request.takes {r : Request} (h : r.payload.IsCanonical) {known : List String}
    (hknown : ["id", "type", "isInternal", "payload"] ⊆ known) :
    Takes Request.decode known (treesOf r.members) r := by
  obtain ⟨id, type, isInternal, payload⟩ := r
  refine takes_record ["id", "type", "isInternal", "payload"] (.and (.and (.and (.and
    (Record.reads_of _) (reads_member rfl rfl)) (reads_member rfl rfl)) (reads_member rfl rfl))
    (reads_member rfl (free_tree h))) rfl hknown ?_ ?_ <;> simp [Request.members]

theorem Request.members_isRead {r : Request} (h : r.payload.IsCanonical) :
    ∀ m ∈ r.members, m.2.IsRead := by
  simp [Request.members, IsRead, IsCanonical.isRead h]

namespace Message

/-- The members of the JSON form. -/
def jsonMembers : Message → List (String × Json)
  | .asked r => ("msg", .string "push-interaction-data") :: r.members
  | .event type payload => ("msg", .string "push-event-data") :: eventMembers type payload

theorem toJson_eq (m : Message) : m.toJson = .object m.jsonMembers := by
  cases m <;> rfl

/-- What the user interface is told about is a free-form value without doubles. -/
def HasCanonicalPayload : Message → Prop
  | .asked r => r.payload.IsCanonical
  | .event _ payload => payload.IsCanonical

theorem takes_event (type : String) {payload : Json} (h : payload.IsCanonical) {known : List String}
    (hknown : ["type", "payload"] ⊆ known) :
    Takes decodeEvent known (treesOf (eventMembers type payload)) (type, payload) := by
  refine takes_record ["type", "payload"] (.and (.and (Record.reads_of _) (reads_member rfl rfl))
    (reads_member rfl (free_tree h))) rfl hknown ?_ ?_ <;> simp [eventMembers]

theorem takes {m : Message} (h : m.HasCanonicalPayload) :
    Takes decode (m.jsonMembers.map Prod.fst) (treesOf m.jsonMembers) m := by
  cases m with
  | asked r =>
    refine takes_choice rfl (by simp [jsonMembers]) ?_
      ((Request.takes h (by simp [jsonMembers, Request.members])).map _)
    simp [Request.members, IsRead, IsCanonical.isRead h]
  | event type payload =>
    refine takes_choice rfl (by simp [jsonMembers]) ?_
      ((takes_event type h (by simp [jsonMembers, eventMembers])).map _)
    simp [eventMembers, IsRead, IsCanonical.isRead h]

theorem members_isRead {m : Message} (h : m.HasCanonicalPayload) :
    ∀ n ∈ m.jsonMembers, n.2.IsRead := by
  cases m with
  | asked r => simp [jsonMembers, Request.members, IsRead, IsCanonical.isRead h]
  | event type payload => simp [jsonMembers, eventMembers, IsRead, IsCanonical.isRead h]

end Message

end Approval

/-! ### Requests of pages -/

namespace PageRequest

/-- What a page hands over as the outcome of an approval is a free-form value without doubles. -/
def HasCanonicalPayload : PageRequest → Prop
  | .approve _ result => result.IsCanonical
  | _ => True

/-- A record of one text takes it among any other members. -/
theorem takes_one {name : String} {f : String → PageRequest} {known : List String} (s : String)
    (hknown : [name] ⊆ known) : Takes (one name f) known (treesOf [(name, .string s)]) (f s) := by
  have hs : List.lookup name [(name, Json.string s)] = some (.string s) := List.lookup_cons_self
  refine takes_record [name] (.and (Record.reads_of f) (reads_member hs rfl)) rfl hknown ?_ ?_ <;>
    simp

theorem takes_two {first second : String} {f : String → String → PageRequest} {known : List String}
    (s t : String) (hne : second ≠ first) (hknown : [first, second] ⊆ known) :
    Takes (two first second f) known (treesOf [(first, .string s), (second, .string t)])
      (f s t) := by
  have hs : List.lookup first [(first, Json.string s), (second, .string t)] = some (.string s) :=
    List.lookup_cons_self
  have ht :
      List.lookup second [(first, Json.string s), (second, .string t)] = some (.string t) := by
    rw [List.lookup_cons, beq_eq_false_iff_ne.mpr hne]
    exact List.lookup_cons_self
  refine takes_record [first, second] (.and (.and (Record.reads_of f) (reads_member hs rfl))
    (reads_member ht rfl)) rfl hknown ?_ ?_
  · simp
  · simpa using hne.symm

theorem members_isRead {q : PageRequest} (h : q.HasCanonicalPayload) :
    ∀ m ∈ q.members, m.1 ≠ "type" ∧ m.2.IsRead := by
  cases q with
  | approve id result => simp [members, IsRead, IsCanonical.isRead h]
  | reject | rejectAll | listPending | publicKey | encrypt | decrypt | sign =>
    simp [members, IsRead]

theorem takes {q : PageRequest} (h : q.HasCanonicalPayload) :
    Takes decode ("type" :: q.members.map Prod.fst)
      (treesOf (("type", .string q.kind) :: q.members)) q := by
  have hmembers := members_isRead h
  cases q with
  | approve id result =>
    refine takes_choice rfl (by simp) hmembers (takes_record ["id", "result"] (.and (.and
      (Record.reads_of _) (reads_member rfl rfl)) (reads_member rfl (free_tree h))) rfl ?_ ?_
        ?_) <;>
      simp [members]
  | reject id => exact takes_choice rfl (by simp) hmembers (takes_one id (by simp [members]))
  | rejectAll type => exact takes_choice rfl (by simp) hmembers (takes_one type (by simp [members]))
  | listPending type =>
    exact takes_choice rfl (by simp) hmembers (takes_one type (by simp [members]))
  | publicKey chain =>
    exact takes_choice rfl (by simp) hmembers (takes_one chain (by simp [members]))
  | encrypt chain address text =>
    refine takes_choice rfl (by simp) hmembers (takes_record ["chainId", "targetAddress", "message"]
      (.and (.and (.and (Record.reads_of _) (reads_member rfl rfl)) (reads_member rfl rfl))
        (reads_member rfl rfl)) rfl ?_ ?_ ?_) <;> simp [members]
  | decrypt chain envelope =>
    exact takes_choice rfl (by simp) hmembers
      (takes_two chain envelope (by decide) (by simp [members]))
  | sign chain payload =>
    exact takes_choice rfl (by simp) hmembers
      (takes_two chain payload (by decide) (by simp [members]))

end PageRequest

/-! ### Answers to pages -/

namespace PageAnswer

/-- The payloads of the requests in an answer are free-form values without doubles. -/
def HasCanonicalPayloads : PageAnswer → Prop
  | .pending requests => ∀ r ∈ requests, r.payload.IsCanonical
  | _ => True

/-- The members of the JSON form. -/
def jsonMembers (a : PageAnswer) : List (String × Json) :=
  match a.part with
  | none => [("type", .string a.kind)]
  | some v => [("type", .string a.kind), ("data", v)]

theorem toJson_eq (a : PageAnswer) : a.toJson = .object a.jsonMembers := by
  cases a <;> rfl

theorem part_isRead {a : PageAnswer} (h : a.HasCanonicalPayloads) {v : Json}
    (hv : a.part = some v) : v.IsRead := by
  cases a with
  | done => cases hv
  | count n =>
    obtain rfl := Option.some.inj hv
    exact isRead_nat n.isLt
  | pending requests =>
    obtain rfl := Option.some.inj hv
    exact itemsRead_iff.mpr <| List.forall_mem_map.mpr fun r hr =>
      membersRead_iff.mpr (Approval.Request.members_isRead (h r hr))
  | publicKey | envelope | message | signature =>
    obtain rfl := Option.some.inj hv
    trivial
  | error report =>
    obtain rfl := Option.some.inj hv
    exact membersRead_iff.mpr report.members_isRead

theorem members_isRead {a : PageAnswer} (h : a.HasCanonicalPayloads) :
    ∀ m ∈ a.jsonMembers, m.2.IsRead := by
  unfold jsonMembers
  cases hpart : a.part with
  | none => simp [IsRead]
  | some v => simp [IsRead, part_isRead h hpart]

theorem takes {a : PageAnswer} (h : a.HasCanonicalPayloads) :
    Takes decode ["type", "data"] (treesOf a.jsonMembers) a := by
  have hsound {v : Json} (hv : a.part = some v) : v.tree.sound = true :=
    sound_tree v (part_isRead h hv)
  cases a with
  | done => exact takes_tagOnly rfl rfl (by simp) (by simp)
  | count n =>
    refine takes_tagAndPart rfl ?_ (hsound rfl) (by simp) (by simp) (by decide)
    exact congrArg (Except.map count) (word_nat (Nat.le_refl 64) n)
  | pending requests =>
    refine takes_tagAndPart rfl ?_ (hsound rfl) (by simp) (by simp) (by decide)
    refine congrArg (Except.map pending) (list_trees fun r hr => ?_)
    exact (Approval.Request.takes (h r hr) (List.Subset.refl _)).tree
  | publicKey key => exact takes_tagAndPart rfl rfl rfl (by simp) (by simp) (by decide)
  | envelope text => exact takes_tagAndPart rfl rfl rfl (by simp) (by simp) (by decide)
  | message text => exact takes_tagAndPart rfl rfl rfl (by simp) (by simp) (by decide)
  | signature text => exact takes_tagAndPart rfl rfl rfl (by simp) (by simp) (by decide)
  | error report =>
    refine takes_tagAndPart rfl ?_ (hsound rfl) (by simp) (by simp) (by decide)
    exact congrArg (Except.map error) report.takes.tree

end PageAnswer

/-! ### Paths and domains -/

namespace DerivationPath

/-- The members of the JSON form. -/
def jsonMembers (p : DerivationPath) : List (String × Json) :=
  ("coinType", Json.nat p.coinType) :: fieldMembers p.fields

theorem coinAmong_behind {coin : Word 32} {all : List (String × Tree)}
    (h : ∀ m ∈ all, m.1 ≠ "coinType" ∧ m.2.sound = true) (kept : List (Option String × Tree)) :
    coinAmong (some coin) kept (all.map named) =
      .ok (some coin, .object (kept.reverse ++ all.map named)) := by
  induction all generalizing kept with
  | nil => rw [List.map_nil, coinAmong, List.append_nil]
  | cons m all ih =>
    obtain ⟨⟨hname, hsound⟩, hall⟩ := List.forall_mem_cons.mp h
    rw [List.map_cons, named, coinAmong, if_neg hname, if_pos hsound, ih hall, List.reverse_cons,
      List.append_assoc]
    rfl

/-- The coin is found wherever it stands, and the others are kept in their order. -/
theorem coinAmong_split {coin : Word 32} {before after : List (String × Tree)}
    (h : ∀ m ∈ before ++ after, m.1 ≠ "coinType" ∧ m.2.sound = true)
    (kept : List (Option String × Tree)) :
    coinAmong none kept ((before ++ ("coinType", (Json.nat coin).tree) :: after).map named) =
      .ok (some coin, .object (kept.reverse ++ (before ++ after).map named)) := by
  induction before generalizing kept with
  | nil =>
    rw [List.nil_append, List.map_cons, named, coinAmong, if_pos rfl]
    simp only [Option.isSome_none, Bool.false_eq_true, if_false, word_nat (by decide : 32 ≤ 64),
      ok_bind]
    exact coinAmong_behind h kept
  | cons m before ih =>
    obtain ⟨⟨hname, hsound⟩, hall⟩ := List.forall_mem_cons.mp h
    rw [List.cons_append, List.map_cons, named, coinAmong, if_neg hname, if_pos hsound, ih hall,
      List.reverse_cons, List.append_assoc]
    rfl

theorem takes_fields (f : PathFields) {known : List String}
    (hknown : ["account", "change", "addressIndex"] ⊆ known) :
    Takes decodeFields.decode known (treesOf (fieldMembers f)) f := by
  obtain ⟨account, change, index⟩ := f
  have hword (n : Word 32) : Decoder.word 32 (Json.nat n).tree = .ok n := word_nat (by decide) n
  refine takes_record ["account", "change", "addressIndex"] (.and (.and (.and (Record.reads_of _)
    (reads_member rfl (hword account))) (reads_member rfl (hword change)))
    (reads_member rfl (hword index))) rfl hknown ?_ ?_ <;> simp [fieldMembers]

theorem members_isRead (p : DerivationPath) : ∀ m ∈ p.jsonMembers, m.2.IsRead := by
  have hword (n : Word 32) : (Json.nat n).IsRead := isRead_nat (Nat.lt_trans n.isLt (by decide))
  simp [jsonMembers, fieldMembers, hword]

theorem takes (p : DerivationPath) :
    Takes decode ["coinType", "account", "change", "addressIndex"] (treesOf p.jsonMembers) p := by
  intro all h
  obtain ⟨before, after, rfl, hothers, hrest⟩ := h.split List.mem_cons_self fun m hm => by
    obtain ⟨m, hmem, rfl⟩ := List.mem_map.mp hm
    refine ⟨?_, sound_tree m.2 (p.members_isRead m (List.mem_cons_of_mem _ hmem))⟩
    have hnames : ∀ m ∈ fieldMembers p.fields, m.1 ≠ "coinType" := by simp [fieldMembers]
    exact hnames m hmem
  have hfields : decodeFields.decode (.object ((before ++ after).map named)) = .ok p.fields :=
    takes_fields p.fields (by simp) _ hrest
  simp only [decode, coinAmong_split hothers, ok_bind, List.reverse_nil, List.nil_append, hfields]
  rfl

end DerivationPath

namespace TypedData.Domain

/-- The members of the JSON form. -/
def jsonMembers (d : Domain) : List (String × Json) :=
  TypedData.present "name" (d.name.map .string) ++
    TypedData.present "version" (d.version.map .string)
    ++ TypedData.present "chainId" (d.chainId.map fun n : Word 64 => Json.nat n)
    ++ TypedData.present "verifyingContract" (d.verifyingContract.map .string)
    ++ TypedData.present "salt" (d.salt.map .string)

theorem toJson_eq (d : Domain) : d.toJson = .object d.jsonMembers := by
  obtain ⟨name, version, chain, contract, salt⟩ := d
  cases chain <;> rfl

theorem lookup_present (k name : String) (v : Option Json) :
    (TypedData.present k v).lookup name = if name = k then v else none := by
  cases v with
  | none => simp [TypedData.present]
  | some v =>
    by_cases h : name = k
    · simp [TypedData.present, h]
    · have hne : (name == k) = false := beq_eq_false_iff_ne.mpr h
      simp [TypedData.present, List.lookup_cons, h, hne]

theorem names_present (k : String) (v : Option Json) :
    ((TypedData.present k v).map Prod.fst).Sublist [k] := by
  cases v with
  | none => exact List.nil_sublist _
  | some v => exact List.Sublist.refl _

/-- The names stand in their order, some of them missing. -/
theorem names_members (d : Domain) : (d.jsonMembers.map Prod.fst).Sublist
    ["name", "version", "chainId", "verifyingContract", "salt"] := by
  simp only [jsonMembers, List.map_append]
  exact ((((names_present _ _).append (names_present _ _)).append (names_present _ _)).append
    (names_present _ _)).append (names_present _ _)

/-- The number of a chain is read back. -/
theorem chain_nat (n : Word 64) : decodeChain (Json.nat n).tree = .ok (some n) := by
  rw [tree_nat n.isLt]
  simp only [decodeChain, Decoder.free, Tree.value?, Decoder.ofOption, ok_bind, chainOf,
    chainOf.found, Option.bind_some, Word.ofNat?, dif_pos n.isLt]

theorem takes (d : Domain) :
    Takes decode ["name", "version", "chainId", "verifyingContract", "salt"] (treesOf d.jsonMembers)
      d := by
  have hnames := d.names_members
  have htext (s : String) : Decoder.nullable Decoder.string (Json.string s).tree = .ok (some s) :=
    rfl
  have hlookup (name : String) : d.jsonMembers.lookup name =
      ((((if name = "name" then d.name.map .string else none).or
        (if name = "version" then d.version.map .string else none)).or
        (if name = "chainId" then d.chainId.map (fun n : Word 64 => Json.nat n) else none)).or
        (if name = "verifyingContract" then d.verifyingContract.map .string else none)).or
        (if name = "salt" then d.salt.map .string else none) := by
    simp only [jsonMembers, List.lookup_append, lookup_present]
  refine takes_record _ (.and (.and (.and (.and (.and (Record.reads_of _) (reads_present ?_ htext))
    (reads_present ?_ htext)) (reads_present ?_ chain_nat)) (reads_present ?_ htext))
    (reads_present ?_ htext)) rfl (List.Subset.refl _) hnames.subset (hnames.nodup (by decide)) <;>
    simp [hlookup]

theorem members_isRead (d : Domain) : ∀ m ∈ d.jsonMembers, m.2.IsRead := by
  have hpresent {k : String} {v : Option Json} (hv : ∀ a, v = some a → a.IsRead) :
      ∀ m ∈ TypedData.present k v, m.2.IsRead := by
    cases v with
    | none => exact nofun
    | some v => simpa [TypedData.present] using hv v rfl
  have htext {v : Option String} : ∀ a, v.map Json.string = some a → a.IsRead := by
    rintro a ha
    obtain ⟨s, -, rfl⟩ := Option.map_eq_some_iff.mp ha
    trivial
  have hchain : ∀ a, d.chainId.map (fun n : Word 64 => Json.nat n) = some a → a.IsRead := by
    rintro a ha
    obtain ⟨n, -, rfl⟩ := Option.map_eq_some_iff.mp ha
    exact isRead_nat n.isLt
  simp only [jsonMembers, List.forall_mem_append]
  exact ⟨⟨⟨⟨hpresent htext, hpresent htext⟩, hpresent hchain⟩, hpresent htext⟩, hpresent htext⟩

end TypedData.Domain

/-! ### All messages -/

/-- Requests of pages, their answers, messages to the user interface, requests for approval, error
reports, callers, paths and domains come back from their JSON form, and a request is tagged with its
kind. Free-form payloads may be anything that has no doubles: names in each object ascend, as they
do in all free-form values, and numbers are integers of sixty-four bits. -/
theorem messages_roundTrip :
    (∀ q : PageRequest, q.HasCanonicalPayload →
      q.toJson = .object (("type", .string q.kind) :: q.members) ∧
      q.toJson.member? "type" = some (.string q.kind) ∧
      RoundTrips PageRequest.decode ("type" :: q.members.map Prod.fst)
        (("type", .string q.kind) :: q.members) q) ∧
    (∀ a : PageAnswer, a.HasCanonicalPayloads → a.toJson = .object a.jsonMembers ∧
      RoundTrips PageAnswer.decode ["type", "data"] a.jsonMembers a) ∧
    (∀ m : Approval.Message, m.HasCanonicalPayload → m.toJson = .object m.jsonMembers ∧
      RoundTrips Approval.Message.decode (m.jsonMembers.map Prod.fst) m.jsonMembers m) ∧
    (∀ r : Approval.Request, r.payload.IsCanonical → r.toJson = .object r.members ∧
      RoundTrips Approval.Request.decode ["id", "type", "isInternal", "payload"] r.members r) ∧
    (∀ r : ErrorReport, r.toJson = .object r.jsonMembers ∧
      RoundTrips ErrorReport.decode ["module", "code", "message"] r.jsonMembers r) ∧
    (∀ c : Caller, c.toJson = .object c.jsonMembers ∧
      RoundTrips Caller.decode ["isInternal", "origin"] c.jsonMembers c) ∧
    (∀ p : DerivationPath, p.toJson = .object p.jsonMembers ∧
      RoundTrips DerivationPath.decode ["coinType", "account", "change",
        "addressIndex"] p.jsonMembers p) ∧
    ∀ d : TypedData.Domain, d.toJson = .object d.jsonMembers ∧
      RoundTrips TypedData.Domain.decode
        ["name", "version", "chainId", "verifyingContract", "salt"] d.jsonMembers d := by
  refine ⟨fun q h => ⟨rfl, rfl, ?_⟩, fun a h => ⟨a.toJson_eq, ?_⟩, fun m h => ⟨m.toJson_eq, ?_⟩,
    fun r h => ⟨rfl, ?_⟩, fun r => ⟨rfl, ?_⟩, fun c => ⟨rfl, ?_⟩, fun p => ⟨rfl, ?_⟩,
    fun d => ⟨d.toJson_eq, ?_⟩⟩
  · exact roundTrips_of_takes (PageRequest.takes h) <| List.forall_mem_cons.mpr
      ⟨trivial, fun m hm => (PageRequest.members_isRead h m hm).2⟩
  · exact roundTrips_of_takes (PageAnswer.takes h) (PageAnswer.members_isRead h)
  · exact roundTrips_of_takes (Approval.Message.takes h) (Approval.Message.members_isRead h)
  · exact roundTrips_of_takes (Approval.Request.takes h (List.Subset.refl _))
      (Approval.Request.members_isRead h)
  · exact roundTrips_of_takes r.takes r.members_isRead
  · exact roundTrips_of_takes c.takes c.members_isRead
  · exact roundTrips_of_takes p.takes p.members_isRead
  · exact roundTrips_of_takes d.takes d.members_isRead

/-- An approval whose members stand in another order, with a note among them that no page knows of.
-/
theorem noted_approval_read :
    let result : Json := .object [("count", .number (.negative 1)), ("items", .array [.null])]
    let q := PageRequest.approve "7" result
    let members : List (String × Json) :=
      [("note", .array [.bool true]), ("result", result), ("id", .string "7"),
        ("type", .string "approve-interaction")]
    q.HasCanonicalPayload ∧ (Json.object members).depth ≤ depthLimit ∧
      decodeText PageRequest.decode (Json.object members).render = .ok q := by
  intro result q members
  have hpayload : q.HasCanonicalPayload := by
    have hnames : ["count", "items"].Pairwise (· < ·) := by decide
    exact ⟨hnames, ⟨by decide, by decide⟩, ⟨trivial, trivial⟩, trivial⟩
  have hdepth : (Json.object members).depth ≤ depthLimit := by decide
  obtain ⟨hrequests, -⟩ := messages_roundTrip
  obtain ⟨-, -, hround⟩ := hrequests q hpayload
  have hperm : members.Perm ((("type", .string q.kind) :: q.members) ++
      [("note", .array [.bool true])]) :=
    (List.reverse_perm members).symm
  have hnote : ∀ e ∈ [("note", Json.array [.bool true])],
      e.1 ∉ "type" :: q.members.map Prod.fst ∧ e.2.IsRead := by
    simp [q, PageRequest.members, IsRead, ItemsRead]
  exact ⟨hpayload, hdepth, hround.compact members _ hperm hnote hdepth⟩

end Countersign

import Countersign.Proofs.Json.Compact
import Countersign.Proofs.Messaging.Keys

/-!
# Documents told apart

The document that is signed for a key has one text, which names the chain and the memo and nothing
else that varies. It is read back as that document whatever the two hold, so neither can pass for a
part of the other, and no two keys are derived from one document unless both agree.
-/
namespace Countersign.Messaging

open Json (IsCompact)

theorem isCanonical_signDoc (chain memo : String) : (signDoc chain memo).IsCanonical := by
  have hnames :
      ["account_number", "chain_id", "fee", "memo", "msgs", "sequence"].Pairwise (· < ·) := by
    decide
  have hfee : ["amount", "gas"].Pairwise (· < ·) := by decide
  exact ⟨hnames, trivial, trivial, ⟨hfee, trivial, trivial, trivial⟩, trivial, trivial, trivial,
    trivial⟩

theorem depth_signDoc_le (chain memo : String) : (signDoc chain memo).depth ≤ Json.depthLimit := by
  have hdepth : (signDoc chain memo).depth = 3 := rfl
  rw [hdepth]
  decide

theorem signDocBytes_inj {chain memo chain' memo' : String} :
    signDocBytes chain memo = signDocBytes chain' memo' ↔ chain = chain' ∧ memo = memo' := by
  constructor
  · intro h
    have hdoc : signDoc chain memo = signDoc chain' memo' :=
      Json.encode_render_inj (isCanonical_signDoc chain memo) (depth_signDoc_le chain memo)
        (isCanonical_signDoc chain' memo') (depth_signDoc_le chain' memo') h
    simpa [signDoc] using hdoc
  · rintro ⟨rfl, rfl⟩
    rfl

/-- A service that does not know its key has the document for the chain and its memo signed. -/
theorem Service.asked_privateKey {s : Service} {chain : String}
    (h : s.privateKeys.lookup chain = none) (caller : Caller) :
    (s.privateKey caller chain).2.asked =
      s.asked ++ [.signature caller chain (signDocBytes chain s.memo)] := by
  simp only [privateKey, h]
  cases s.keyring s.asked.length caller chain (signDocBytes chain s.memo) with
  | error e => rfl
  | ok signature =>
    dsimp only
    cases derivedKey signature with
    | error e => rfl
    | ok d => rfl

/-- The document is compact, its names ascend, it is read back as itself, and its octets tell each
chain and memo from all others. So do the documents that any two services have signed for their
keys. -/
theorem canonical_documents_apart :
    (∀ chain memo, IsCompact (signDocBytes chain memo) ∧
      (∃ t, Json.read .any (signDocBytes chain memo) = ⟨t, true⟩ ∧ t.Ascends) ∧
      Json.decodeDocument Json.Decoder.free (signDocBytes chain memo) =
        .ok (.object [("account_number", .string "0"), ("chain_id", .string chain),
          ("fee", .object [("amount", .array []), ("gas", .string "0")]), ("memo", .string memo),
          ("msgs", .array []), ("sequence", .string "0")])) ∧
    (∀ chain memo chain' memo',
      signDocBytes chain memo = signDocBytes chain' memo' ↔ chain = chain' ∧ memo = memo') ∧
    ∀ (s s' : Service) (caller caller' : Caller) (chain chain' : String),
      s.privateKeys.lookup chain = none → s'.privateKeys.lookup chain' = none →
        ∃ doc doc', (s.privateKey caller chain).2.asked = s.asked ++ [.signature caller chain doc] ∧
          (s'.privateKey caller' chain').2.asked = s'.asked ++ [.signature caller' chain' doc'] ∧
          (doc = doc' ↔ chain = chain' ∧ s.memo = s'.memo) := by
  refine ⟨fun chain memo => ⟨?_, ⟨(signDoc chain memo).tree, ?_, ?_⟩, ?_⟩,
    fun _ _ _ _ => signDocBytes_inj, fun s s' caller caller' chain chain' hs hs' => ?_⟩
  · exact Json.isCompact_render (isCanonical_signDoc chain memo)
  · exact Json.read_render _ (isCanonical_signDoc chain memo).isRead (depth_signDoc_le chain memo)
  · exact Json.ascends_tree _ (isCanonical_signDoc chain memo)
  · exact Json.decode_render (isCanonical_signDoc chain memo) (depth_signDoc_le chain memo)
  · exact ⟨_, _, Service.asked_privateKey hs caller, Service.asked_privateKey hs' caller',
      signDocBytes_inj⟩

/-- Without escapes these two chains and memos would have the same document. -/
theorem forged_member_told_apart :
    let keyring : Keyring := fun _ _ _ doc => .ok doc
    let between := "\",\"fee\":\x7b\"amount\":[],\"gas\":\"0\"\x7d,\"memo\":\""
    let first := Service.fresh keyring none ("b" ++ between ++ "c")
    let second := Service.fresh keyring none "c"
    first.privateKeys.lookup "a" = none ∧ second.privateKeys.lookup ("a" ++ between ++ "b") = none ∧
      ∃ doc doc', (first.privateKey .wallet "a").2.asked = [.signature .wallet "a" doc] ∧
        (second.privateKey .wallet ("a" ++ between ++ "b")).2.asked =
          [.signature .wallet ("a" ++ between ++ "b") doc'] ∧ doc ≠ doc' := by
  intro keyring between first second
  obtain ⟨doc, doc', hdoc, hdoc', hsame⟩ :=
    canonical_documents_apart.2.2 first second .wallet .wallet "a" ("a" ++ between ++ "b") rfl rfl
  refine ⟨rfl, rfl, doc, doc', hdoc, hdoc', fun heq => ?_⟩
  exact absurd (hsame.mp heq).1 (by decide)

example : (signDoc "osmosis-1" "derive").render =
    "\x7b\"account_number\":\"0\",\"chain_id\":\"osmosis-1\"," ++
      "\"fee\":\x7b\"amount\":[],\"gas\":\"0\"\x7d," ++
      "\"memo\":\"derive\",\"msgs\":[],\"sequence\":\"0\"\x7d" := by
  decide

end Countersign.Messaging

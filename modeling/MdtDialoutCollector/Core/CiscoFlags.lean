import MdtDialoutCollector.Core.AcceptedReads
import MdtDialoutCollector.Core.HandleMessage

/-! The two conversions of a Cisco message. The validator asks that the two settings differ,
as strings; a stream asks of each whether it is the string `true`. Two settings that differ
without one of them being `true` leave a GPB-KV message to neither conversion. -/

namespace MdtDialoutCollector.Core

open Data DataManipulation External Labels Proto Text Utils

/-! ### The branches of `CiscoStream::HandleMessage` -/

inductive CiscoBranch where
  | emptyData
  | gpbkv2json (tlm : Cisco.Telemetry)
  | msgToJson (tlm : Cisco.Telemetry)
  | conflicting
  | gpb
  | json
  | unhandled

def ciscoBranch (P : Protobuf) (ctx : Context) (data : Bytes) : CiscoBranch :=
  if data.isEmpty then .emptyData
  else match P.parseCisco data with
  | some tlm =>
    if !tlm.dataGpbkv.isEmpty then
      if ctx.ciscoGpbkv2json then .gpbkv2json tlm
      else if ctx.ciscoMsgToJson then .msgToJson tlm
      else .conflicting
    else if tlm.dataGpb.isSome then .gpb
    else .unhandled
  | none => .json

variable {P : Protobuf} {ctx : Context} {data : Bytes}

/-- What a branch delivers. -/
theorem ciscoBodies_eq (J : JsonCpp) :
    ciscoBodies J P ctx data =
      match ciscoBranch P ctx data with
      | .gpbkv2json tlm => if (ciscoGpbkv2Json J tlm).1 then [(ciscoGpbkv2Json J tlm).2] else []
      | .msgToJson tlm => [(P.ciscoToJson tlm).2]
      | .gpb | .json => [data]
      | .emptyData | .conflicting | .unhandled => [] := by
  rw [ciscoBodies, ciscoBranch]
  by_cases hempty : data.isEmpty = true
  · rw [if_pos hempty, if_pos hempty]
  · rw [if_neg hempty, if_neg hempty]
    cases P.parseCisco data with
    | none => rfl
    | some tlm =>
      simp only
      split_ifs with _ _ hok
      · exact (if_pos hok).symm
      · exact (if_neg hok).symm
      all_goals rfl

/-- A GPB-KV message is conflicting where both flags are off. -/
theorem ciscoBranch_eq_conflicting_iff :
    ciscoBranch P ctx data = .conflicting ↔
      ctx.ciscoGpbkv2json = false ∧ ctx.ciscoMsgToJson = false ∧ data ≠ [] ∧
        ∃ tlm, P.parseCisco data = some tlm ∧ tlm.dataGpbkv ≠ [] := by
  rw [ciscoBranch]
  by_cases hempty : data = []
  · simp [hempty]
  · cases P.parseCisco data with
    | none => simp [hempty]
    | some tlm =>
      by_cases hkv : tlm.dataGpbkv = []
      · by_cases hgpb : tlm.dataGpb.isSome = true <;> simp [hempty, hkv, hgpb]
      · cases ctx.ciscoGpbkv2json <;> cases ctx.ciscoMsgToJson <;> simp [hempty, hkv]

/-! ### The flags -/

theorem ciscoFlags {labelMap : LabelMap} {g : Stage → Params} {cfg : Config}
    (hparams : g .dataManipulation = dataManipulationParameters cfg)
    (hctx : ciscoFsmCtrl labelMap g = .ok ctx) :
    ctx.ciscoGpbkv2json = decide (ciscoGpbkv2json cfg = lit "true") ∧
      ctx.ciscoMsgToJson = decide (ciscoMessageToJson cfg = lit "true") := by
  obtain ⟨hmsg, hkv⟩ := find_cisco cfg
  rw [ciscoFsmCtrl, hparams, Params.atKey_of_find hmsg, Params.atKey_of_find hkv] at hctx
  obtain ⟨⟨pl, maxReplies⟩, -, hctx⟩ := bind_eq_ok.mp hctx
  cases hctx
  exact ⟨rfl, rfl⟩

theorem one_cisco_conversion_iff {H : Host} {zmqUri : Bytes} {g₀ : Globals} {p : Params}
    (hp : handle H zmqUri g₀ .dataManipulation = .ok p) {cfg : Config}
    (hfile : H.configFile = .read cfg) {labelMap : LabelMap} {g : Stage → Params}
    (hg : g .dataManipulation = p) (hctx : ciscoFsmCtrl labelMap g = .ok ctx) :
    ((ctx.ciscoGpbkv2json ^^ ctx.ciscoMsgToJson) = true ∧
        ∀ P data, ciscoBranch P ctx data ≠ .conflicting) ↔
      ciscoMessageToJson cfg = lit "true" ∨ ciscoGpbkv2json cfg = lit "true" := by
  obtain ⟨hlog, hvalid⟩ := handle_eq_ok hp
  have hmain : MainPublished cfg g₀ .dataManipulation := by
    rintro (h | h) <;> cases h
  obtain ⟨-, ⟨⟨-, -, hdiffer⟩, -⟩, hparams⟩ :=
    (decides_validate hfile hlog hmain).eq_ok_iff.mp hvalid
  obtain ⟨hkv, hmsg⟩ := ciscoFlags (hg.trans hparams) hctx
  constructor
  · rintro ⟨hxor, -⟩
    rw [hkv, hmsg] at hxor
    by_contra hneither
    rw [not_or] at hneither
    simp [hneither.1, hneither.2] at hxor
  · intro htrue
    -- the settings differ, so no more than one of them is `true`
    have hxor : (ctx.ciscoGpbkv2json ^^ ctx.ciscoMsgToJson) = true := by
      rw [hkv, hmsg]
      rcases htrue with h | h
      · rw [h] at hdiffer ⊢
        simp [Ne.symm hdiffer]
      · rw [h] at hdiffer ⊢
        simp [hdiffer]
    refine ⟨hxor, fun P data hbranch => ?_⟩
    obtain ⟨hoff, hoff', -⟩ := ciscoBranch_eq_conflicting_iff.mp hbranch
    rw [hoff, hoff'] at hxor
    cases hxor

theorem one_cisco_conversion_default :
    ∃ p ctx, handle (calmHost ciscoOnly) [] readyGlobals .dataManipulation = .ok p ∧
      ciscoFsmCtrl .empty (fileParameters ciscoOnly []) = .ok ctx ∧
      (((ctx.ciscoGpbkv2json ^^ ctx.ciscoMsgToJson) = true ∧
          ∀ P data, ciscoBranch P ctx data ≠ .conflicting) ↔
        ciscoMessageToJson ciscoOnly = lit "true" ∨ ciscoGpbkv2json ciscoOnly = lit "true") := by
  have hp : handle (calmHost ciscoOnly) [] readyGlobals .dataManipulation =
      .ok (dataManipulationParameters ciscoOnly) := rfl
  have hrun : ∃ ctx, ciscoFsmCtrl .empty (fileParameters ciscoOnly []) = .ok ctx := ⟨_, rfl⟩
  obtain ⟨ctx, hctx⟩ := hrun
  exact ⟨_, ctx, hp, hctx, one_cisco_conversion_iff hp rfl rfl hctx⟩

/-- Two settings that differ, neither of which switches a conversion on. -/
def yesAndNo : Config :=
  .ofStrings [("iface", eth0), ("socket_cisco", ciscoAddress),
    ("data_delivery_method", zmqMethod),
    ("enable_cisco_gpbkv2json", ⟨lit "yes", by decide⟩),
    ("enable_cisco_message_to_json_string", ⟨lit "no", by decide⟩)]

/-- The configuration is accepted, a worker starts, and every GPB-KV message is dropped. -/
theorem both_conversions_off :
    ∃ g ctx, loadStages (calmHost yesAndNo) [] stages bootedGlobals = .ok (true, g) ∧
      ciscoFsmCtrl .empty g.params = .ok ctx ∧
      (ctx.ciscoGpbkv2json ^^ ctx.ciscoMsgToJson) = false ∧
      ∀ P data tlm, data ≠ [] → P.parseCisco data = some tlm → tlm.dataGpbkv ≠ [] →
        ciscoBranch P ctx data = .conflicting := by
  refine ⟨_, _, rfl, rfl, rfl, fun P data tlm hdata htlm hkv => ?_⟩
  exact ciscoBranch_eq_conflicting_iff.mpr ⟨rfl, rfl, hdata, tlm, htlm, hkv⟩

end MdtDialoutCollector.Core

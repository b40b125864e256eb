import MdtDialoutCollector.Core.Envelopes
import MdtDialoutCollector.DataManipulation.EnvelopeBody
import MdtDialoutCollector.External.Reference
import MdtDialoutCollector.Labels.Reload

/-! The label of the envelopes, from the CSV file to the record. A peer that the map does
not have gets the documented members; a peer that it has gets two others. -/

namespace MdtDialoutCollector.Core

open DataManipulation External Json Labels Text Utils

def unknown : Bytes := lit "unknown"

/-- The documented label: the name and the platform of the address. -/
def nodeLabel (nodeId platformId : Bytes) : Record :=
  Record.null.setAll [(lit "node_id", .str nodeId), (lit "platform_id", .str platformId)]

/-- What the table says of a peer. -/
def documentedLabel (rows : List LabelRow) (ip : Bytes) : Record :=
  match lastRow rows ip with
  | some row => nodeLabel row.nid row.pid
  | none => nodeLabel unknown unknown

/-- The envelope has the label that the table says, and no other members in it. -/
def LabelDocumented (rows : List LabelRow) (ip : Bytes) (envelope : Record) : Prop :=
  envelope.toValue.get? (lit "label") = some (documentedLabel rows ip).toValue

/-- Reloads one after the other, each of its two files as they are then. -/
def reloads (c : LabelSettings) (files : List (Option Bytes × Option Bytes)) (m : LabelMap) :
    Outcome LabelMap :=
  files.foldlM (fun m f => reloadLabelMaps c f.1 f.2 m) m

theorem reloadLabelMaps_csv {c : LabelSettings} (hc : c.asMap = true) {csv : Option Bytes}
    {rows : List LabelRow} (hcsv : csvTable csv = some rows) (ptm : Option Bytes) (m : LabelMap) :
    reloadLabelMaps c csv ptm m =
      .running (storeRows .empty (rows.take (intSize rows.length))) := by
  have hptm : c.asMapPtm = false := by
    cases hp : c.asMapPtm with
    | false => rfl
    | true => exact absurd ⟨hc, hp⟩ c.exclusive
  rw [reloadLabelMaps, hc, hptm, if_pos rfl, loadLabelMap_eq, hcsv]
  rfl

/-- Of several reloads the last one alone counts. -/
theorem reloads_eq {c : LabelSettings} (hc : c.asMap = true)
    {files : List (Option Bytes × Option Bytes)} {csv ptm : Option Bytes} {m₀ m : LabelMap}
    {rows : List LabelRow} (hcsv : csvTable csv = some rows)
    (h : reloads c (files ++ [(csv, ptm)]) m₀ = .running m) :
    m = storeRows .empty (rows.take (intSize rows.length)) := by
  rw [reloads, List.foldlM_append] at h
  simp only [List.foldlM_cons, List.foldlM_nil, bind_pure, reloadLabelMaps_csv hc hcsv] at h
  cases hbefore : files.foldlM (fun m f => reloadLabelMaps c f.1 f.2 m) m₀ with
  | running m₁ =>
    rw [hbefore, Outcome.running_bind, Outcome.running.injEq] at h
    exact h.symm
  | exited =>
    rw [hbefore] at h
    cases h
  | terminated =>
    rw [hbefore] at h
    cases h
  | undefined =>
    rw [hbefore] at h
    cases h

theorem get?_nodeLabel (nodeId platformId : Bytes) :
    (nodeLabel nodeId platformId).toValue.get? (lit "node_id") = some (.str nodeId) ∧
    (nodeLabel nodeId platformId).toValue.get? (lit "platform_id") = some (.str platformId) := by
  have hrecord : nodeLabel nodeId platformId =
      (Record.null.set (lit "node_id") (.str nodeId)).set (lit "platform_id") (.str platformId) := rfl
  have hne : lit "node_id" ≠ lit "platform_id" := by decide
  rw [hrecord, Record.get?_set_of_ne _ hne]
  exact ⟨Record.get?_set_self _ _ _, Record.get?_set_self _ _ _⟩

theorem nodeLabel_inj {nodeId nodeId' platformId platformId' : Bytes}
    (h : (nodeLabel nodeId platformId).toValue = (nodeLabel nodeId' platformId').toValue) :
    nodeId = nodeId' ∧ platformId = platformId' := by
  obtain ⟨hnode, hplatform⟩ := get?_nodeLabel nodeId platformId
  obtain ⟨hnode', hplatform'⟩ := get?_nodeLabel nodeId' platformId'
  rw [h, hnode'] at hnode
  rw [h, hplatform'] at hplatform
  cases hnode
  cases hplatform
  exact ⟨rfl, rfl⟩

/-- The two members of a peer that the map has are not the documented ones. -/
theorem labelsOf_ne_nodeLabel {m : LabelMap} {ip : Bytes} {labels : List Bytes}
    (h : m.find ip = some labels) (nodeId platformId : Bytes) :
    (labelsOf m ip).toValue ≠ (nodeLabel nodeId platformId).toValue := by
  intro heq
  obtain ⟨nkey, pkey, rfl⟩ := LabelMap.find_eq_pair h
  have hnone : (labelsOf m ip).toValue.get? (lit "node_id") = none := by
    simp only [labelsOf, h]
    exact Record.get?_setAll_of_not_mem (by decide : lit "node_id" ∉ [lit "nkey", lit "pkey"]) .null
  rw [heq, (get?_nodeLabel nodeId platformId).1] at hnone
  cases hnone

theorem labelsOf_storeRows_iff (rows : List LabelRow) (n : ℕ) (ip : Bytes) :
    (labelsOf (storeRows .empty (rows.take n)) ip).toValue = (documentedLabel rows ip).toValue ↔
      lastRow (rows.take n) ip = none ∧
      ∀ row, lastRow rows ip = some row → row.nid = unknown ∧ row.pid = unknown := by
  have hfind : (storeRows .empty (rows.take n)).find ip =
      (lastRow (rows.take n) ip).map LabelRow.labels := by
    rw [find_storeRows, LabelMap.find_empty, Option.or_none]
  cases hcounted : lastRow (rows.take n) ip with
  | some row =>
    rw [hcounted, Option.map_some] at hfind
    refine iff_of_false (fun h => ?_) fun h => Option.some_ne_none row h.1
    rw [documentedLabel] at h
    split at h
    · exact labelsOf_ne_nodeLabel hfind _ _ h
    · exact labelsOf_ne_nodeLabel hfind _ _ h
  | none =>
    rw [hcounted, Option.map_none] at hfind
    have hlabels : labelsOf (storeRows .empty (rows.take n)) ip = nodeLabel unknown unknown := by
      rw [labelsOf, hfind]
      rfl
    rw [hlabels, documentedLabel]
    cases lastRow rows ip with
    | none => exact iff_of_true rfl ⟨rfl, nofun⟩
    | some row =>
      constructor
      · intro h
        obtain ⟨hnid, hpid⟩ := nodeLabel_inj h
        refine ⟨rfl, fun row' hrow' => ?_⟩
        cases hrow'
        exact ⟨hnid.symm, hpid.symm⟩
      · rintro ⟨-, h⟩
        obtain ⟨hnid, hpid⟩ := h row rfl
        simp only [hnid, hpid]

/-- The envelopes of a message carry the labels of its peer. -/
theorem label_of_mem_messageEnvelopes {J : JsonCpp} {P : Protobuf} {ctx : Context}
    (hencode : ctx.labelEncode = true) {m : LabelMap} {now : Int64} {peer : Bytes} {msg : Message}
    {seq : UInt64} {r : Record}
    (hr : r ∈ messageEnvelopes J P { ctx with labelMap := m } now peer msg seq) :
    r.toValue.get? (lit "label") = some (labelsOf m (parsePeer peer).ip).toValue := by
  obtain ⟨k, hk, hget⟩ := List.getElem_of_mem hr
  obtain ⟨body, hbody⟩ := getElem?_messageEnvelopes ((List.getElem?_eq_getElem hk).trans
    (congrArg some hget))
  obtain ⟨port, rfl⟩ := exists_of_envelopeOf hbody
  simp only [hencode, if_true]
  exact get?_envelope _ now _ _ port (by simp [envelopeMembers, labelOf])

/-- A label follows the documentation exactly where the map does not have the peer. -/
theorem label_documented_iff {c : LabelSettings} (hc : c.asMap = true)
    {files : List (Option Bytes × Option Bytes)} {csv ptm : Option Bytes} {m₀ m : LabelMap}
    {rows : List LabelRow} (hcsv : csvTable csv = some rows)
    (hload : reloads c (files ++ [(csv, ptm)]) m₀ = .running m)
    {J : JsonCpp} {P : Protobuf} {ctx : Context} (hencode : ctx.labelEncode = true) {now : Int64}
    {peer : Bytes} {msg : Message} {seq : UInt64} {r : Record}
    (hr : r ∈ messageEnvelopes J P { ctx with labelMap := m } now peer msg seq) :
    LabelDocumented rows (parsePeer peer).ip r ↔
      lastRow (rows.take (intSize rows.length)) (parsePeer peer).ip = none ∧
      ∀ row, lastRow rows (parsePeer peer).ip = some row → row.nid = unknown ∧ row.pid = unknown := by
  have hlabel := label_of_mem_messageEnvelopes hencode hr
  rw [LabelDocumented, hlabel, Option.some.injEq, reloads_eq hc hcsv hload]
  exact labelsOf_storeRows_iff rows (intSize rows.length) (parsePeer peer).ip

/-- The documented file's first line. -/
def readmeCsv : Bytes := lit "1.1.1.1,daisy-router-01,Cisco-XR\n"

def readmeRow : LabelRow := ⟨lit "1.1.1.1", lit "daisy-router-01", lit "Cisco-XR"⟩

theorem csvTable_readmeCsv : csvTable (some readmeCsv) = some [readmeRow] := by decide

/-- The settings of a worker that labels its envelopes from a CSV file. -/
def labelContext (m : LabelMap) : Context :=
  { defaultContext .kafka with
    labelEncode := true
    labelMap := m }

def readmeMap : LabelMap := storeRows .empty [readmeRow]

theorem reloads_readmeCsv :
    reloads ⟨true, false, by decide⟩ ([] ++ [(some readmeCsv, none)]) .empty =
      .running readmeMap := by
  have hsize : intSize [readmeRow].length = [readmeRow].length := intSize_of_lt (by decide)
  have hreload := reloadLabelMaps_csv (c := ⟨true, false, by decide⟩) rfl csvTable_readmeCsv none
    .empty
  rw [hsize, List.take_length] at hreload
  exact (bind_pure _).trans hreload

/-- The envelope of a peer for a Huawei message with one JSON text. -/
def readmeEnvelope (ip : Bytes) : Record :=
  envelope 1 0 (lit "mdt-dialout-collector") ip 57400 (.obj [])
    (some (labelsOf readmeMap ip).toValue)

theorem mem_messageEnvelopes_readme {peer ip : Bytes}
    (hpeer : parsePeer peer = ⟨ip, lit "57400"⟩) :
    readmeEnvelope ip ∈ messageEnvelopes Reference.jsonCpp Reference.protobuf
      { labelContext .empty with labelMap := readmeMap } 0 peer (.huawei (.dataJson (lit "{}")))
        0 := by
  have hport : stoi (parsePeer peer).port = .ok 57400 := by
    rw [hpeer]
    exact (by decide : stoi (lit "57400") = .ok 57400)
  have hfit : Fits Reference.jsonCpp (lit "{}") := by decide
  rw [messageEnvelopes_dataJson Reference.protobuf rfl (by decide) hport hfit, hpeer]
  exact List.mem_singleton_self _

theorem label_documented_readme :
    reloads ⟨true, false, by decide⟩ ([] ++ [(some readmeCsv, none)]) .empty =
      .running readmeMap ∧
    (LabelDocumented [readmeRow] (parsePeer (lit "ipv4:192.0.2.1:57400")).ip
        (readmeEnvelope (lit "192.0.2.1")) ↔
      lastRow ([readmeRow].take (intSize [readmeRow].length))
        (parsePeer (lit "ipv4:192.0.2.1:57400")).ip = none ∧
      ∀ row, lastRow [readmeRow] (parsePeer (lit "ipv4:192.0.2.1:57400")).ip = some row →
        row.nid = unknown ∧ row.pid = unknown) :=
  ⟨reloads_readmeCsv, label_documented_iff (c := ⟨true, false, by decide⟩) rfl csvTable_readmeCsv
    reloads_readmeCsv rfl (mem_messageEnvelopes_readme (by decide))⟩

/-- The documented file gives its own first address the members `nkey` and `pkey`. -/
theorem readme_label_undocumented : ¬∀ (c : LabelSettings) (files : List (Option Bytes × Option Bytes))
    (csv ptm : Option Bytes) (rows : List LabelRow) (m₀ m : LabelMap), c.asMap = true →
      csvTable csv = some rows → reloads c (files ++ [(csv, ptm)]) m₀ = .running m →
        ∀ (ctx : Context) (now : Int64) (peer : Bytes) (msg : Message) (seq : UInt64),
          ctx.labelEncode = true →
          ∀ r ∈ messageEnvelopes Reference.jsonCpp Reference.protobuf { ctx with labelMap := m } now
            peer msg seq, LabelDocumented rows (parsePeer peer).ip r := by
  intro h
  have hpeer : parsePeer (lit "ipv4:1.1.1.1:57400") = ⟨lit "1.1.1.1", lit "57400"⟩ := by decide
  have hlabel := h _ _ _ _ _ _ _ rfl csvTable_readmeCsv reloads_readmeCsv (labelContext .empty) 0 _
    _ 0 rfl _ (mem_messageEnvelopes_readme hpeer)
  have hget : (readmeEnvelope (lit "1.1.1.1")).toValue.get? (lit "label") =
      some (labelsOf readmeMap (lit "1.1.1.1")).toValue :=
    get?_envelope 1 0 _ _ 57400 (by simp [envelopeMembers])
  rw [LabelDocumented, hpeer, hget, Option.some.injEq] at hlabel
  have hfind : readmeMap.find (lit "1.1.1.1") = some [lit "daisy-router-01", lit "Cisco-XR"] := by
    decide
  exact labelsOf_ne_nodeLabel hfind _ _ hlabel

end MdtDialoutCollector.Core

import MdtDialoutCollector.DataManipulation.Envelope
import MdtDialoutCollector.DataManipulation.Gnmi
import MdtDialoutCollector.External.Protobuf

/-! `JuniperExtension` and `JuniperUpdate`: the telemetry header of the extensions, and
the notification as tags and a tree of metrics, where every update is put at the end of
its path. -/

namespace MdtDialoutCollector.DataManipulation

open External Json Proto Proto.Gnmi Text

/-! ### The header extension -/

/-- The members a decoded header adds, `none` where the helper gives up. -/
def headerMembers (J : JsonCpp) (P : Protobuf) (header : P.HeaderExtension) (root : Record) :
    Except StdException (Bool × Record) := do
  let root :=
    if (P.systemId header).isEmpty then root
    else root.set (lit "system_id") (.str (P.systemId header))
  let (ok, streamDataIn) := P.headerToJson header
  if ok then do
    let extRoot ← parseOrText J streamDataIn
    .ok (true, root.set (lit "extension") extRoot)
  else .ok (false, root)

/-- The value returned, and `root` as it was left. -/
def juniperExtension (J : JsonCpp) (P : Protobuf) :
    List Extension → Record → Except StdException (Bool × Record)
  | [], root => .ok (true, root)
  | .registeredExt id msg :: exts, root =>
    if id = juniperTelemetryHeader then
      match P.parseHeader msg with
      | some header => do
        let (ok, root) ← headerMembers J P header root
        if ok then juniperExtension J P exts root else .ok (false, root)
      | none => .ok (false, root)
    else juniperExtension J P exts root
  | .masterArbitration :: exts, root => juniperExtension J P exts root

/-! ### The notification -/

def nodeName (elem : PathElem) : Bytes :=
  elem.key.foldl (fun s e => s ++ lit "[" ++ e.1 ++ lit "=" ++ e.2 ++ lit "]") elem.name

def tags (pathPrefix : List PathElem) : Record :=
  (Record.obj []).setAll <| pathPrefix.flatMap fun elem =>
    elem.key.map fun e => (elem.name ++ lit "_" ++ e.1, .str e.2)

def typedValue (J : JsonCpp) : Option TypedValue → Except StdException Value
  | some (.intVal n) => .ok (.ofInt64 n)
  | some (.uintVal n) => .ok (.ofUInt64 n)
  | some (.stringVal s) => .ok (.str s)
  | some (.boolVal b) => .ok (.bool b)
  | some (.floatVal d) => .ok (.real d)
  | some (.jsonVal text) => parseOrText J text
  | some (.jsonIetfVal text) => parseOrText J text
  | some (.bytesVal b) => .ok (.str b)
  | some (.asciiVal s) => .ok (.str s)
  | _ => .ok (.str (lit "unsupported_type"))

/-- The loop over the updates. A walk that leaves the objects is jsoncpp's logic error. -/
def metricsLoop (J : JsonCpp) : List Update → Value → Except StdException Value
  | [], metrics => .ok metrics
  | u :: us, metrics => do
    let value ← typedValue J u.val
    match metrics.put? (u.path.map nodeName) value with
    | some metrics => metricsLoop J us metrics
    | none => .error .logicError

/-- The members a notification adds to `root`; empty tags and metrics are left out. -/
def notificationRecord (jup : Notification) (root : Record) (metrics : Value) : Record :=
  ((root.setAll [(lit "sensor_path", .arr (sensorPath jup.pathPrefix)),
    (lit "notification_timestamp", .ofUInt64 jup.timestamp.toUInt64)]).setAll
      (if (tags jup.pathPrefix).toValue.empty then []
      else [(lit "tags", (tags jup.pathPrefix).toValue)])).setAll
        (if metrics.empty then [] else [(lit "metrics", metrics)])

def notificationMembers (J : JsonCpp) (jup : Notification) (root : Record) :
    Except StdException Record := do
  let metrics ← metricsLoop J jup.update (.obj [])
  .ok (notificationRecord jup root metrics)

def juniperUpdate (J : JsonCpp) (juniperStream : SubscribeResponse) (root : Record) :
    Except StdException (Bool × Bytes) := do
  let root ← match juniperStream.update with
    | some jup => notificationMembers J jup root
    | none => .ok root
  .ok (true, J.writeString root.toValue)

/-! ### The tree of metrics -/

/-- The texts that `JuniperUpdate` hands to the JSON reader. -/
def jsonText : Option TypedValue → Option Bytes
  | some (.jsonVal text) => some text
  | some (.jsonIetfVal text) => some text
  | _ => none

/-- The value of an update whose text fits. -/
def updateValue (J : JsonCpp) (val : Option TypedValue) : Value :=
  match typedValue J val with
  | .ok v => v
  | .error _ => .null

def assignments (J : JsonCpp) (us : List Update) : List (List Bytes × Value) :=
  us.map fun u => (u.path.map nodeName, updateValue J u.val)

/-- The tree the updates of a notification describe. -/
def metricsTree (J : JsonCpp) (us : List Update) : Members := Members.putAll [] (assignments J us)

theorem typedValue_of_fits {J : JsonCpp} {val : Option TypedValue}
    (h : ∀ text, jsonText val = some text → Fits J text) :
    typedValue J val = .ok (updateValue J val) := by
  cases val with
  | none => rfl
  | some v =>
    cases v with
    | jsonVal text => simp [updateValue, typedValue, parseOrText_of_fits (h text rfl)]
    | jsonIetfVal text => simp [updateValue, typedValue, parseOrText_of_fits (h text rfl)]
    | _ => rfl

theorem typedValue_of_not_fits {J : JsonCpp} {val : Option TypedValue} {text : Bytes}
    (h : jsonText val = some text) (ht : ¬Fits J text) :
    typedValue J val = .error .runtimeError := by
  cases val with
  | none => simp [jsonText] at h
  | some v =>
    cases v with
    | jsonVal t =>
      cases h
      exact parseOrText_of_not_fits ht
    | jsonIetfVal t =>
      cases h
      exact parseOrText_of_not_fits ht
    | _ => simp [jsonText] at h

/-- Every text in the updates can be read. -/
def TextsFit (J : JsonCpp) (us : List Update) : Prop :=
  ∀ u ∈ us, ∀ text, jsonText u.val = some text → Fits J text

theorem metricsLoop_of_fit {J : JsonCpp} {us : List Update} (h : TextsFit J us) (ms : Members) :
    metricsLoop J us (.obj ms) = .ok (.obj (ms.putAll (assignments J us))) := by
  induction us generalizing ms with
  | nil => rfl
  | cons u us ih =>
    obtain ⟨hu, hus⟩ := List.forall_mem_cons.mp h
    rw [metricsLoop, typedValue_of_fits hu]
    simp only [Value.put?_obj, bind, Except.bind]
    exact ih hus _

theorem metricsLoop_of_not_fit {J : JsonCpp} {us : List Update} (h : ¬TextsFit J us)
    (ms : Members) : metricsLoop J us (.obj ms) = .error .runtimeError := by
  induction us generalizing ms with
  | nil => exact absurd (by simp [TextsFit]) h
  | cons u us ih =>
    rw [metricsLoop]
    by_cases hu : ∀ text, jsonText u.val = some text → Fits J text
    · rw [typedValue_of_fits hu]
      simp only [Value.put?_obj, bind, Except.bind]
      exact ih (fun hus => h (List.forall_mem_cons.mpr ⟨hu, hus⟩)) _
    · push Not at hu
      obtain ⟨text, ht, hbad⟩ := hu
      rw [typedValue_of_not_fits ht hbad]
      rfl

/-! ### The record that is written -/

/-- Every telemetry header of the message decodes and converts. -/
def HeadersDecode (P : Protobuf) (exts : List Extension) : Prop :=
  ∀ msg, .registeredExt juniperTelemetryHeader msg ∈ exts →
    ∃ header, P.parseHeader msg = some header ∧ (P.headerToJson header).1 = true

theorem headersDecode_cons_header {P : Protobuf} {msg : Bytes} {exts : List Extension} :
    HeadersDecode P (.registeredExt juniperTelemetryHeader msg :: exts) ↔
      (∃ header, P.parseHeader msg = some header ∧ (P.headerToJson header).1 = true) ∧
        HeadersDecode P exts := by
  constructor
  · intro h
    exact ⟨h msg List.mem_cons_self, fun m hm => h m (List.mem_cons_of_mem _ hm)⟩
  · rintro ⟨hmsg, hexts⟩ m hm
    rcases List.mem_cons.mp hm with hm | hm
    · injection hm with _ hm
      exact hm ▸ hmsg
    · exact hexts m hm

/-- Any other extension is passed over. -/
theorem headersDecode_cons_other {P : Protobuf} {ext : Extension} {exts : List Extension}
    (hext : ∀ msg, ext ≠ .registeredExt juniperTelemetryHeader msg) :
    HeadersDecode P (ext :: exts) ↔ HeadersDecode P exts := by
  constructor
  · exact fun h m hm => h m (List.mem_cons_of_mem _ hm)
  · intro h m hm
    rcases List.mem_cons.mp hm with hm | hm
    · exact absurd hm.symm (hext m)
    · exact h m hm

/-- What `JuniperExtension` keeps of `root`, however far it gets. -/
def HeaderRoot (root : Record) : Prop := root.toValue.depth ≤ 3 ∧ root.toValue.Canonical

theorem headerRoot_null : HeaderRoot .null := ⟨depth_null_le 2, Value.canonical_null⟩

theorem headerRoot_set {root : Record} (h : HeaderRoot root) (k : Bytes) {x : Value}
    (hd : x.depth ≤ 2) (hx : x.Canonical) : HeaderRoot (root.set k x) :=
  ⟨Record.depth_set_le h.1 hd, Record.canonical_set h.2 hx⟩

section Lawful

variable {J : JsonCpp} {P : Protobuf} (hJ : J.Lawful) (hP : P.Lawful J.floats)

include hJ hP

/-- The text of a converted header is a shallow document, so its parse comes back. -/
theorem headerMembers_spec (header : P.HeaderExtension) {root : Record} (h : HeaderRoot root) :
    ∃ root', headerMembers J P header root = .ok ((P.headerToJson header).1, root') ∧
      HeaderRoot root' := by
  have hsys : HeaderRoot (if (P.systemId header).isEmpty then root
      else root.set (lit "system_id") (.str (P.systemId header))) := by
    split_ifs
    · exact h
    · exact headerRoot_set h _ (depth_str_le (by decide) _) (Value.canonical_str _)
  unfold headerMembers
  generalize (if (P.systemId header).isEmpty then root
      else root.set (lit "system_id") (.str (P.systemId header))) = r at hsys ⊢
  cases hok : (P.headerToJson header).1 with
  | false => exact ⟨r, by simp [hok], hsys⟩
  | true =>
    obtain ⟨t, ht, hdepth⟩ := hP.header_json header hok
    have hfits : Fits J (P.headerToJson header).2 :=
      fits_document hJ ht (hdepth.trans (by decide))
    have hval : textValue J (P.headerToJson header).2 = t.resolve := by
      rw [textValue, hJ.parse_document _ t ht, if_pos (hdepth.trans (by decide))]
    refine ⟨r.set (lit "extension") (textValue J (P.headerToJson header).2), ?_, ?_⟩
    · simp only [hok, if_true, parseOrText_of_fits hfits]
      rfl
    · refine headerRoot_set hsys _ ?_ (textValue_canonical hJ _).1
      rw [hval]
      exact t.depth_resolve_le.trans hdepth

theorem juniperExtension_spec (exts : List Extension) {root : Record} (h : HeaderRoot root) :
    ∃ ok root', juniperExtension J P exts root = .ok (ok, root') ∧ HeaderRoot root' ∧
      (ok = true ↔ HeadersDecode P exts) := by
  induction exts generalizing root with
  | nil => exact ⟨true, root, rfl, h, by simp [HeadersDecode]⟩
  | cons ext exts ih =>
    cases ext with
    | masterArbitration =>
      obtain ⟨ok, root', heq, hroot, hiff⟩ := ih h
      have hext : ∀ m, Extension.masterArbitration ≠ .registeredExt juniperTelemetryHeader m :=
        fun _ => Extension.noConfusion
      exact ⟨ok, root', heq, hroot, hiff.trans (headersDecode_cons_other hext).symm⟩
    | registeredExt id msg =>
      rw [juniperExtension]
      by_cases hid : id = juniperTelemetryHeader
      · subst hid
        rw [if_pos rfl]
        cases hparse : P.parseHeader msg with
        | none =>
          exact ⟨false, root, rfl, h, by simp [headersDecode_cons_header, hparse]⟩
        | some header =>
          obtain ⟨root₁, heq, hroot₁⟩ := headerMembers_spec hJ hP header h
          simp only [heq, bind, Except.bind]
          cases hok : (P.headerToJson header).1 with
          | false =>
            exact ⟨false, root₁, rfl, hroot₁, by simp [headersDecode_cons_header, hparse, hok]⟩
          | true =>
            obtain ⟨ok, root', heq', hroot', hiff⟩ := ih hroot₁
            refine ⟨ok, root', heq', hroot', hiff.trans ?_⟩
            simp [headersDecode_cons_header, hparse, hok]
      · rw [if_neg hid]
        obtain ⟨ok, root', heq, hroot, hiff⟩ := ih h
        refine ⟨ok, root', heq, hroot, hiff.trans (headersDecode_cons_other ?_).symm⟩
        rintro m ⟨⟩
        exact hid rfl

end Lawful

/-- The members of a notification, once its texts fit. -/
def notificationRoot (J : JsonCpp) (jup : Notification) (root : Record) : Record :=
  notificationRecord jup root (.obj (metricsTree J jup.update))

theorem notificationMembers_of_fit {J : JsonCpp} {jup : Notification} (h : TextsFit J jup.update)
    (root : Record) : notificationMembers J jup root = .ok (notificationRoot J jup root) := by
  unfold notificationMembers
  rw [metricsLoop_of_fit h]
  rfl

theorem notificationMembers_of_not_fit {J : JsonCpp} {jup : Notification}
    (h : ¬TextsFit J jup.update) (root : Record) :
    notificationMembers J jup root = .error .runtimeError := by
  unfold notificationMembers
  simp only [metricsLoop_of_not_fit h]
  rfl

theorem updateValue_canonical {J : JsonCpp} (hJ : J.Lawful) (val : Option TypedValue) :
    (updateValue J val).Canonical := by
  have htext : ∀ text, (match parseOrText J text with
      | .ok v => v
      | .error _ => Value.null).Canonical := by
    intro text
    by_cases h : Fits J text
    · rw [parseOrText_of_fits h]
      exact (textValue_canonical hJ text).1
    · rw [parseOrText_of_not_fits h]
      exact Value.canonical_null
  cases val with
  | none => exact Value.canonical_str _
  | some v =>
    cases v with
    | intVal n => exact Value.canonical_ofInt64 n
    | uintVal n => exact Value.canonical_ofUInt64 n
    | boolVal b => exact Value.canonical_bool b
    | floatVal d => exact Value.canonical_real d
    | jsonVal text => exact htext text
    | jsonIetfVal text => exact htext text
    | _ => exact Value.canonical_str _

theorem mem_tags {pathPrefix : List PathElem} {m : Bytes × Value}
    (h : m ∈ pathPrefix.flatMap fun elem => elem.key.map fun e =>
      (elem.name ++ lit "_" ++ e.1, Value.str e.2)) : ∃ s, m.2 = .str s := by
  simp only [List.mem_flatMap, List.mem_map] at h
  obtain ⟨_, _, e, _, rfl⟩ := h
  exact ⟨e.2, rfl⟩

theorem canonical_tags (pathPrefix : List PathElem) : (tags pathPrefix).toValue.Canonical := by
  refine Record.canonical_setAll
    ((Value.every_obj []).mpr ⟨⟨List.Pairwise.nil, trivial⟩, by simp⟩) fun m hm => ?_
  obtain ⟨s, hs⟩ := mem_tags hm
  rw [hs]
  exact Value.canonical_str s

end MdtDialoutCollector.DataManipulation

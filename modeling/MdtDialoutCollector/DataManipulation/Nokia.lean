import MdtDialoutCollector.DataManipulation.Gnmi
import MdtDialoutCollector.External.JsonCpp

/-! `NokiaUpdate`: a notification as one flat object, each update under the names on its
path. Every value is read through `json_ietf_val`, which is empty for the other
variants. -/

namespace MdtDialoutCollector.DataManipulation

open Data External Json Proto.Gnmi Text

/-- `json_ietf_val()`. -/
def jsonIetfVal : Option TypedValue → Bytes
  | some (.jsonIetfVal text) => text
  | _ => []

def collectedPath (sensorPath : List Value) : Bytes :=
  sensorPath.foldl (fun path element =>
    match element.get? (lit "name") with
    | some (.str name) => path ++ lit "/" ++ name
    | _ => path) []

/-- The key of an update: the names on its path, each after a slash. -/
def flatPath (path : List PathElem) : Bytes :=
  path.foldl (fun s elem => s ++ lit "/" ++ elem.name) []

def updateMembers (us : List Update) : Members :=
  us.map fun u => (flatPath u.path, .str (jsonIetfVal u.val))

def nokiaNotification (nup : Notification) (root : Record) : Record :=
  (root.setAll
    [(lit "collected_path", .str (collectedPath (sensorPath nup.pathPrefix))),
      (lit "sensor_path", .arr (sensorPath nup.pathPrefix)),
      (lit "notification_timestamp", .ofUInt64 nup.timestamp.toUInt64)]).setAll
    (updateMembers nup.update)

def nokiaRoot (nokiaStream : SubscribeResponse) (root : Record) : Record :=
  match nokiaStream.update with
  | some nup => nokiaNotification nup root
  | none => root

def nokiaUpdate (J : JsonCpp) (nokiaStream : SubscribeResponse) (root : Record) : Bool × Bytes :=
  (true, J.writeString (nokiaRoot nokiaStream root).toValue)

/-! ### Shape of the record -/

mutual

/-- The value an update carries, variant by variant. -/
def carriedValue : TypedValue → Value
  | .stringVal s => .str s
  | .intVal n => .ofInt64 n
  | .uintVal n => .ofUInt64 n
  | .boolVal b => .bool b
  | .bytesVal b => .str b
  | .floatVal d => .real d
  | .doubleVal d => .real d
  | .decimalVal digits precision =>
    .obj [(lit "digits", .ofInt64 digits), (lit "precision", .ofUInt32 precision)]
  | .leaflistVal element => .arr (carriedValues element)
  | .anyVal typeUrl value => .obj [(lit "type_url", .str typeUrl), (lit "value", .str value)]
  | .jsonVal text => .str text
  | .jsonIetfVal text => .str text
  | .asciiVal s => .str s
  | .protoBytes b => .str b

def carriedValues : List TypedValue → List Value
  | [] => []
  | v :: vs => carriedValue v :: carriedValues vs

end

/-- Equal paths have equal names and the same keys in any order. -/
def SamePath (p q : List PathElem) : Prop :=
  List.Forall₂ (fun a b => a.name = b.name ∧ a.key.Perm b.key) p q

/-- Every update is found under the key it is written under, different paths have different
keys, and the header members are as they were written. -/
structure RowsKept (root : Value) (nup : Notification) : Prop where
  value : ∀ u ∈ nup.update, ∀ v, u.val = some v →
    root.get? (flatPath u.path) = some (carriedValue v)
  separate : nup.update.Pairwise fun u u' =>
    ¬SamePath u.path u'.path → flatPath u.path ≠ flatPath u'.path
  collected : root.get? (lit "collected_path") =
    some (.str (collectedPath (sensorPath nup.pathPrefix)))
  sensor : root.get? (lit "sensor_path") = some (.arr (sensorPath nup.pathPrefix))
  timestamp : root.get? (lit "notification_timestamp") =
    some (.ofUInt64 nup.timestamp.toUInt64)

/-- A `json_ietf_val`, or text or bytes that are empty as `json_ietf_val()` then is. -/
def IetfText : TypedValue → Prop
  | .jsonIetfVal _ => True
  | .stringVal s => s = []
  | .bytesVal b => b = []
  | .jsonVal text => text = []
  | .asciiVal s => s = []
  | .protoBytes b => b = []
  | _ => False

theorem carriedValue_eq_iff (v : TypedValue) :
    carriedValue v = .str (jsonIetfVal (some v)) ↔ IetfText v := by
  cases v <;> simp [carriedValue, jsonIetfVal, IetfText, Value.ofInt64, Value.ofUInt64]

/-- A flattened path is empty or starts with a slash. -/
theorem flatPath_head (path : List PathElem) : flatPath path = [] ∨ ∃ s, flatPath path = 47 :: s := by
  have h : ∀ (path : List PathElem) (acc : Bytes), (acc = [] ∨ ∃ s, acc = 47 :: s) →
      path.foldl (fun s elem => s ++ lit "/" ++ elem.name) acc = [] ∨
        ∃ s, path.foldl (fun s elem => s ++ lit "/" ++ elem.name) acc = 47 :: s := by
    intro path
    induction path with
    | nil => exact fun _ h => h
    | cons elem path ih =>
      intro acc hacc
      refine ih _ (.inr ?_)
      rcases hacc with rfl | ⟨s, rfl⟩
      · exact ⟨elem.name, rfl⟩
      · exact ⟨s ++ lit "/" ++ elem.name, rfl⟩
  exact h path [] (.inl rfl)

theorem keys_updateMembers (us : List Update) :
    (updateMembers us).map Prod.fst = us.map fun u => flatPath u.path := by
  rw [updateMembers, List.map_map]
  rfl

/-- The members of the header are not among the keys of the updates. -/
theorem not_mem_updateKeys {k : Bytes} (hne : k ≠ []) (hslash : k.head? ≠ some 47)
    (us : List Update) : k ∉ (updateMembers us).map Prod.fst := by
  rw [keys_updateMembers, List.mem_map]
  rintro ⟨u, -, rfl⟩
  rcases flatPath_head u.path with h | ⟨s, h⟩
  · exact hne h
  · exact hslash (by rw [h]; rfl)

theorem get?_nokiaHeader (nup : Notification) {k : Bytes} {x : Value}
    (h : (k, x) ∈ [(lit "collected_path", Value.str (collectedPath (sensorPath nup.pathPrefix))),
      (lit "sensor_path", .arr (sensorPath nup.pathPrefix)),
      (lit "notification_timestamp", .ofUInt64 nup.timestamp.toUInt64)])
    (hne : k ≠ []) (hslash : k.head? ≠ some 47) :
    (nokiaNotification nup .null).toValue.get? k = some x := by
  rw [nokiaNotification, Record.get?_setAll_of_not_mem (not_mem_updateKeys hne hslash nup.update)]
  exact Record.get?_setAll_of_mem h (show List.Nodup [lit "collected_path", lit "sensor_path",
    lit "notification_timestamp"] by decide) .null

theorem get?_update (nup : Notification)
    (hnodup : (nup.update.map fun u => flatPath u.path).Nodup) {u : Update} (hu : u ∈ nup.update) :
    (nokiaNotification nup .null).toValue.get? (flatPath u.path) =
      some (.str (jsonIetfVal u.val)) := by
  rw [nokiaNotification]
  refine Record.get?_setAll_of_mem ?_ (by rwa [keys_updateMembers]) _
  exact List.mem_map.mpr ⟨u, hu, rfl⟩

/-- `NokiaUpdate` keeps the rows of a notification exactly when their names alone tell the
paths apart and every value is IETF JSON text. -/
theorem nokiaUpdate_rows_kept_iff {stream : SubscribeResponse} {nup : Notification}
    (hup : stream.update = some nup)
    (hpaths : nup.update.Pairwise fun u u' => ¬SamePath u.path u'.path) :
    RowsKept (nokiaRoot stream .null).toValue nup ↔
      (nup.update.Pairwise fun u u' => flatPath u.path ≠ flatPath u'.path) ∧
      ∀ u ∈ nup.update, ∀ v, u.val = some v → IetfText v := by
  have hroot : nokiaRoot stream .null = nokiaNotification nup .null := by rw [nokiaRoot, hup]
  rw [hroot]
  constructor
  · intro h
    have hflat : nup.update.Pairwise fun u u' => flatPath u.path ≠ flatPath u'.path :=
      (hpaths.and h.separate).imp fun hp => hp.2 hp.1
    refine ⟨hflat, fun u hu v hv => (carriedValue_eq_iff v).mp ?_⟩
    have hwritten := get?_update nup (List.pairwise_map.mpr hflat) hu
    rw [h.value u hu v hv, Option.some.injEq] at hwritten
    rw [hwritten, hv]
  · rintro ⟨hflat, htext⟩
    refine ⟨fun u hu v hv => ?_, hflat.imp ?_, ?_, ?_, ?_⟩
    · rw [get?_update nup (List.pairwise_map.mpr hflat) hu, hv,
        (carriedValue_eq_iff v).mpr (htext u hu v hv)]
    · exact fun hne _ => hne
    · exact get?_nokiaHeader nup (by simp) (by decide) (by decide)
    · exact get?_nokiaHeader nup (by simp) (by decide) (by decide)
    · exact get?_nokiaHeader nup (by simp) (by decide) (by decide)

/-- One update of the leaf `description`. -/
def descriptionUpdate (v : TypedValue) : Notification where
  timestamp := 0
  pathPrefix := [⟨lit "state", [], List.nodup_nil⟩]
  update := [⟨[⟨lit "description", [], List.nodup_nil⟩], some v⟩]

theorem nokiaUpdate_keeps_description :
    RowsKept (nokiaRoot ⟨some (descriptionUpdate (.jsonIetfVal (lit "7"))), []⟩ .null).toValue
      (descriptionUpdate (.jsonIetfVal (lit "7"))) :=
  (nokiaUpdate_rows_kept_iff rfl (List.pairwise_singleton _ _)).mpr
    ⟨List.pairwise_singleton _ _, by simp [descriptionUpdate, IetfText]⟩

/-- A `string_val` is written as the empty string. -/
theorem string_val_lost :
    ¬RowsKept (nokiaRoot ⟨some (descriptionUpdate (.stringVal (lit "canary"))), []⟩ .null).toValue
      (descriptionUpdate (.stringVal (lit "canary"))) := by
  intro h
  have hvalue := h.value _ List.mem_cons_self _ rfl
  have hnodup : [flatPath [⟨lit "description", [], List.nodup_nil⟩]].Nodup := by simp
  have hwritten := get?_update (descriptionUpdate (.stringVal (lit "canary"))) hnodup
    List.mem_cons_self
  rw [nokiaRoot, hwritten] at hvalue
  cases hvalue

end MdtDialoutCollector.DataManipulation

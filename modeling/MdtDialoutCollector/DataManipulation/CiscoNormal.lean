import MdtDialoutCollector.DataManipulation.Cisco

/-! What the JSON of a Cisco field forgets. A field is an element of its parent's array,
wrapped by its name if it has one; the members `timestamp`, `fields` and `value` are told
apart from a wrapped name because a sub-field list is the only array and a time stamp alone
is the only other object of one member. -/

namespace MdtDialoutCollector.DataManipulation

open Data Json Proto Proto.Cisco Text

/-- A field up to what is written of it: its value is the JSON scalar. -/
inductive NormalField where
  | mk (timestamp : UInt64) (name : Bytes) (value : Value) (fields : List NormalField)

/-- What the array of the parent holds for a field. -/
def fieldElement (f : TelemetryField) : Value := named f.name (ciscoGpbkvField2Json f)

mutual

/-- A field with nothing but a time stamp reads as a field called `timestamp`. -/
def normalize : TelemetryField → NormalField
  | ⟨timestamp, name, value, fields, _⟩ =>
    if name.isEmpty && timestamp != 0 && value.isNone && fields.isEmpty then
      .mk 0 (lit "timestamp") (.ofUInt64 timestamp) []
    else .mk timestamp name (fieldValue value) (normalizeFields fields)

def normalizeFields : List TelemetryField → List NormalField
  | [] => []
  | f :: fs => normalize f :: normalizeFields fs

end

/-! ### The members of a field's object -/

/-- Neither an object nor an array. -/
def Scalar (v : Value) : Prop := (∀ ms, v ≠ .obj ms) ∧ ∀ xs, v ≠ .arr xs

theorem scalar_ofUInt64 (n : UInt64) : Scalar (.ofUInt64 n) :=
  ⟨fun _ h => (nomatch h), fun _ h => (nomatch h)⟩

theorem scalar_fieldValue (v : Option ValueByType) : Scalar (fieldValue v) := by
  cases v with
  | none => exact ⟨fun _ h => (nomatch h), fun _ h => (nomatch h)⟩
  | some v => cases v <;> exact ⟨fun _ h => (nomatch h), fun _ h => (nomatch h)⟩

theorem fieldValue_eq_null {v : Option ValueByType} : fieldValue v = .null ↔ v = none := by
  cases v with
  | none => simp [fieldValue]
  | some v =>
    cases v <;> simp [fieldValue, Value.ofUInt32, Value.ofUInt64, Value.ofInt32, Value.ofInt64]

theorem empty_of_scalar {v : Value} (hv : Scalar v) : v.empty = true ↔ v = .null := by
  cases v with
  | arr xs => exact absurd rfl (hv.2 xs)
  | obj ms => exact absurd rfl (hv.1 ms)
  | _ => simp [Value.empty]

theorem empty_appended (xs : List Value) : (Value.appended xs).empty = true ↔ xs = [] := by
  cases xs <;> simp [Value.appended, Value.empty]

theorem get?_scalar {v : Value} (hv : Scalar v) (k : Bytes) : v.get? k = none := by
  cases v with
  | obj ms => exact absurd rfl (hv.1 ms)
  | _ => rfl

section Members

variable {t t' : UInt64} {xs xs' : List Value} {v v' : Value}

/-- A field with neither a time stamp nor sub-fields is its value. -/
theorem fieldObject_zero_nil : fieldObject 0 (.appended []) v = v := rfl

def valueMember (v : Value) : Members := if v.empty then [] else [(lit "value", v)]

/-- `value` is the last of the three keys. -/
theorem fieldObject_eq_obj {subFields : Value} {ms : Members}
    (hroot : Record.null.setAll (fieldMembers t subFields) = .obj ms) (hne : ms ≠ [])
    (hms : ∀ k ∈ ms.map Prod.fst, k < lit "value") :
    fieldObject t subFields v = .obj (ms ++ valueMember v) := by
  have hroot_ne : (Record.obj ms).toValue.empty = false := by
    simpa [Record.toValue, Value.empty] using hne
  simp only [fieldObject, hroot, hroot_ne, Bool.not_false, if_true, valueMember]
  cases v.empty with
  | true => exact congrArg Value.obj (List.append_nil ms).symm
  | false =>
    exact congrArg Value.obj (Assoc.set_eq_append (fun m hm => hms _ (List.mem_map_of_mem hm)) v)

theorem fieldObject_timestamp (ht : t ≠ 0) :
    fieldObject t (.appended []) v = .obj ([(lit "timestamp", .ofUInt64 t)] ++ valueMember v) := by
  refine fieldObject_eq_obj ?_ (by simp) (show ∀ k ∈ [lit "timestamp"], k < lit "value" by decide)
  simp only [fieldMembers, bne_iff_ne, ne_eq, ht, not_false_eq_true, if_true]
  rfl

theorem appended_empty_eq_false (hxs : xs ≠ []) : (Value.appended xs).empty = false := by
  rw [← Bool.not_eq_true, empty_appended]
  exact hxs

theorem fieldObject_fields (hxs : xs ≠ []) :
    fieldObject 0 (.appended xs) v = .obj ([(lit "fields", .appended xs)] ++ valueMember v) := by
  refine fieldObject_eq_obj ?_ (by simp) (show ∀ k ∈ [lit "fields"], k < lit "value" by decide)
  simp only [fieldMembers, appended_empty_eq_false hxs]
  rfl

theorem fieldObject_both (ht : t ≠ 0) (hxs : xs ≠ []) :
    fieldObject t (.appended xs) v = .obj
      ([(lit "fields", .appended xs), (lit "timestamp", .ofUInt64 t)] ++ valueMember v) := by
  refine fieldObject_eq_obj ?_ (by simp)
    (show ∀ k ∈ [lit "fields", lit "timestamp"], k < lit "value" by decide)
  simp only [fieldMembers, bne_iff_ne, ne_eq, ht, not_false_eq_true, if_true,
    appended_empty_eq_false hxs]
  rfl

/-- The value is found under `value` unless the field is its value. -/
theorem get?_valueMember (v : Value) {k : Bytes} :
    Assoc.get? k (valueMember v) = if v.empty = false ∧ lit "value" = k then some v else none := by
  rw [valueMember]
  cases v.empty <;> simp [Assoc.get?_cons]

theorem get?_timestamp (hv : Scalar v) :
    (fieldObject t (.appended xs) v).get? (lit "timestamp") =
      if t = 0 then none else some (.ofUInt64 t) := by
  have hft : lit "fields" ≠ lit "timestamp" := by decide
  have hvt : lit "value" ≠ lit "timestamp" := by decide
  by_cases ht : t = 0
  · subst ht
    by_cases hxs : xs = []
    · subst hxs
      rw [fieldObject_zero_nil, get?_scalar hv, if_pos rfl]
    · rw [fieldObject_fields hxs]
      simp [Value.get?, Assoc.get?_cons, get?_valueMember, hft, hvt]
  · by_cases hxs : xs = []
    · subst hxs
      rw [fieldObject_timestamp ht]
      simp [Value.get?, Assoc.get?_cons, ht]
    · rw [fieldObject_both ht hxs]
      simp [Value.get?, Assoc.get?_cons, hft, ht]

theorem get?_fields (hv : Scalar v) : (fieldObject t (.appended xs) v).get? (lit "fields") =
    if xs = [] then none else some (.appended xs) := by
  have htf : lit "timestamp" ≠ lit "fields" := by decide
  have hvf : lit "value" ≠ lit "fields" := by decide
  by_cases ht : t = 0
  · subst ht
    by_cases hxs : xs = []
    · subst hxs
      rw [fieldObject_zero_nil, get?_scalar hv, if_pos rfl]
    · rw [fieldObject_fields hxs]
      simp [Value.get?, Assoc.get?_cons, hxs]
  · by_cases hxs : xs = []
    · subst hxs
      rw [fieldObject_timestamp ht]
      simp [Value.get?, Assoc.get?_cons, get?_valueMember, htf, hvf]
    · rw [fieldObject_both ht hxs]
      simp [Value.get?, Assoc.get?_cons, hxs]

theorem get?_value (h : t ≠ 0 ∨ xs ≠ []) : (fieldObject t (.appended xs) v).get? (lit "value") =
    if v.empty then none else some v := by
  have htv : lit "timestamp" ≠ lit "value" := by decide
  have hfv : lit "fields" ≠ lit "value" := by decide
  by_cases ht : t = 0
  · subst ht
    rw [fieldObject_fields (by simpa using h)]
    cases hempty : v.empty <;> simp [Value.get?, Assoc.get?_cons, get?_valueMember, hfv, hempty]
  · by_cases hxs : xs = []
    · subst hxs
      rw [fieldObject_timestamp ht]
      cases hempty : v.empty <;> simp [Value.get?, Assoc.get?_cons, get?_valueMember, htv, hempty]
    · rw [fieldObject_both ht hxs]
      cases hempty : v.empty <;>
        simp [Value.get?, Assoc.get?_cons, get?_valueMember, htv, hfv, hempty]

theorem ofUInt64_inj {m n : UInt64} (h : Value.ofUInt64 m = .ofUInt64 n) : m = n := by
  rw [Value.ofUInt64, Value.ofUInt64, Value.int.injEq, Int.ofNat_inj] at h
  exact UInt64.toNat_inj.mp h

theorem appended_inj (h : Value.appended xs = .appended xs') : xs = xs' := by
  cases xs <;> cases xs' <;> simp_all [Value.appended]

/-- Time stamp, sub-fields and value can be read off a field's JSON. -/
theorem fieldObject_inj (hv : Scalar v) (hv' : Scalar v')
    (h : fieldObject t (.appended xs) v = fieldObject t' (.appended xs') v') :
    t = t' ∧ xs = xs' ∧ v = v' := by
  have ht : t = t' := by
    have hget := congrArg (fun w => w.get? (lit "timestamp")) h
    simp only [get?_timestamp hv, get?_timestamp hv'] at hget
    split_ifs at hget with ht ht' ht'
    · rw [ht, ht']
    · exact ofUInt64_inj (Option.some.inj hget)
  have hxs : xs = xs' := by
    have hget := congrArg (fun w => w.get? (lit "fields")) h
    simp only [get?_fields hv, get?_fields hv'] at hget
    split_ifs at hget with hxs hxs' hxs'
    · rw [hxs, hxs']
    · exact appended_inj (Option.some.inj hget)
  subst ht hxs
  refine ⟨rfl, rfl, ?_⟩
  by_cases hobj : t ≠ 0 ∨ xs ≠ []
  · have hget := congrArg (fun w => w.get? (lit "value")) h
    simp only [get?_value hobj] at hget
    split_ifs at hget with hempty hempty' hempty'
    · rw [(empty_of_scalar hv).mp hempty, (empty_of_scalar hv').mp hempty']
    · exact Option.some.inj hget
  · rw [not_or, not_not, not_not] at hobj
    obtain ⟨rfl, rfl⟩ := hobj
    rwa [fieldObject_zero_nil, fieldObject_zero_nil] at h

/-- The JSON of a field is never an array. -/
theorem fieldObject_ne_arr (hv : Scalar v) (ys : List Value) :
    fieldObject t (.appended xs) v ≠ .arr ys := by
  by_cases ht : t = 0
  · subst ht
    by_cases hxs : xs = []
    · subst hxs
      exact hv.2 ys
    · rw [fieldObject_fields hxs]
      simp
  · by_cases hxs : xs = []
    · subst hxs
      rw [fieldObject_timestamp ht]
      simp
    · rw [fieldObject_both ht hxs]
      simp

/-- An object of one member that a field is written as, when the member could be another
field's: only a time stamp alone is. -/
theorem fieldObject_eq_singleton (hv : Scalar v) {k : Bytes} {x : Value}
    (hx : ∀ ys, x ≠ .arr ys) (h : fieldObject t (.appended xs) v = .obj [(k, x)]) :
    t ≠ 0 ∧ xs = [] ∧ v = .null ∧ k = lit "timestamp" ∧ x = .ofUInt64 t := by
  have hget : ∀ j, (fieldObject t (.appended xs) v).get? j = if k = j then some x else none := by
    intro j
    rw [h, Value.get?, Assoc.get?_cons, Assoc.get?_nil]
    split_ifs <;> rfl
  have hxs : xs = [] := by
    by_contra hxs
    have hfields := (get?_fields (t := t) hv).symm.trans (hget (lit "fields"))
    rw [if_neg hxs] at hfields
    split_ifs at hfields
    cases xs with
    | nil => exact hxs rfl
    | cons y ys => exact hx _ (Option.some.inj hfields).symm
  subst hxs
  have ht : t ≠ 0 := by
    rintro rfl
    exact hv.1 _ h
  have htime := (get?_timestamp hv).symm.trans (hget (lit "timestamp"))
  rw [if_neg ht] at htime
  split_ifs at htime with hk
  have hvalue := (get?_value (.inl ht)).symm.trans (hget (lit "value"))
  rw [hk, if_neg (show lit "timestamp" ≠ lit "value" by decide)] at hvalue
  split_ifs at hvalue with hempty
  exact ⟨ht, rfl, (empty_of_scalar hv).mp hempty, hk, (Option.some.inj htime).symm⟩

end Members

/-! ### The normal form -/

/-- An unnamed field that is written as the object of its time stamp alone. -/
def Bare (f : TelemetryField) : Prop :=
  f.name = [] ∧ f.timestamp ≠ 0 ∧ f.value = none ∧ f.fields = []

theorem normalize_of_bare {f : TelemetryField} (h : Bare f) :
    normalize f = .mk 0 (lit "timestamp") (.ofUInt64 f.timestamp) [] := by
  obtain ⟨timestamp, name, value, fields, delete⟩ := f
  obtain ⟨rfl, ht, rfl, rfl⟩ := h
  simp only at ht
  simp [normalize, ht]

theorem normalize_of_not_bare {f : TelemetryField} (h : ¬ Bare f) :
    normalize f = .mk f.timestamp f.name (fieldValue f.value) (normalizeFields f.fields) := by
  obtain ⟨timestamp, name, value, fields, delete⟩ := f
  rw [normalize, if_neg]
  simpa [Bare] using h

/-! ### Elements -/

theorem ciscoGpbkvField2Json_eq (f : TelemetryField) :
    ciscoGpbkvField2Json f =
      fieldObject f.timestamp (.appended (ciscoGpbkvFields2Json f.fields)) (fieldValue f.value) := by
  obtain ⟨timestamp, name, value, fields, delete⟩ := f
  rw [ciscoGpbkvField2Json]

theorem ciscoGpbkvFields2Json_eq_nil {fs : List TelemetryField} :
    ciscoGpbkvFields2Json fs = [] ↔ fs = [] := by
  cases fs <;> simp [ciscoGpbkvFields2Json]

theorem normalizeFields_eq_nil {fs : List TelemetryField} : normalizeFields fs = [] ↔ fs = [] := by
  cases fs <;> simp [normalizeFields]

theorem fieldElement_of_nil {f : TelemetryField} (h : f.name = []) :
    fieldElement f = ciscoGpbkvField2Json f := by
  rw [fieldElement, named, h]
  rfl

theorem fieldElement_of_ne_nil {f : TelemetryField} (h : f.name ≠ []) :
    fieldElement f = .obj [(f.name, ciscoGpbkvField2Json f)] := by
  rw [fieldElement, named, List.isEmpty_eq_false_iff.mpr h]
  rfl

theorem fieldElement_of_bare {f : TelemetryField} (h : Bare f) :
    fieldElement f = .obj [(lit "timestamp", .ofUInt64 f.timestamp)] := by
  obtain ⟨hname, ht, hvalue, hfields⟩ := h
  rw [fieldElement_of_nil hname, ciscoGpbkvField2Json_eq, hvalue, hfields]
  exact fieldObject_timestamp ht

/-- An unnamed field that is written as an object with a name is bare. -/
theorem bare_of_fieldElement {f : TelemetryField} (hname : f.name = []) {k : Bytes} {x : Value}
    (hx : ∀ ys, x ≠ .arr ys) (h : fieldElement f = .obj [(k, x)]) : Bare f := by
  rw [fieldElement_of_nil hname, ciscoGpbkvField2Json_eq] at h
  obtain ⟨ht, hfields, hvalue, -⟩ := fieldObject_eq_singleton (scalar_fieldValue _) hx h
  exact ⟨hname, ht, fieldValue_eq_null.mp hvalue, ciscoGpbkvFields2Json_eq_nil.mp hfields⟩

theorem ciscoGpbkvField2Json_ne_arr (f : TelemetryField) (ys : List Value) :
    ciscoGpbkvField2Json f ≠ .arr ys := by
  rw [ciscoGpbkvField2Json_eq]
  exact fieldObject_ne_arr (scalar_fieldValue _) ys

/-- Apart from bare fields, every part of a field can be read off its element. -/
theorem fieldElement_eq_iff_of_not_bare {f g : TelemetryField} (hf : ¬ Bare f) (hg : ¬ Bare g) :
    fieldElement f = fieldElement g ↔ f.timestamp = g.timestamp ∧ f.name = g.name ∧
      fieldValue f.value = fieldValue g.value ∧
      ciscoGpbkvFields2Json f.fields = ciscoGpbkvFields2Json g.fields := by
  constructor
  · intro h
    obtain ⟨hname, hjson⟩ : f.name = g.name ∧ ciscoGpbkvField2Json f = ciscoGpbkvField2Json g := by
      by_cases hfn : f.name = []
      · by_cases hgn : g.name = []
        · rw [fieldElement_of_nil hfn, fieldElement_of_nil hgn] at h
          exact ⟨hfn.trans hgn.symm, h⟩
        · rw [fieldElement_of_ne_nil hgn] at h
          exact absurd (bare_of_fieldElement hfn (ciscoGpbkvField2Json_ne_arr g) h) hf
      · rw [fieldElement_of_ne_nil hfn] at h
        by_cases hgn : g.name = []
        · exact absurd (bare_of_fieldElement hgn (ciscoGpbkvField2Json_ne_arr f) h.symm) hg
        · rw [fieldElement_of_ne_nil hgn] at h
          simpa using h
    rw [ciscoGpbkvField2Json_eq, ciscoGpbkvField2Json_eq] at hjson
    obtain ⟨ht, hfields, hvalue⟩ :=
      fieldObject_inj (scalar_fieldValue _) (scalar_fieldValue _) hjson
    exact ⟨ht, hname, hvalue, hfields⟩
  · rintro ⟨ht, hname, hvalue, hfields⟩
    rw [fieldElement, fieldElement, ciscoGpbkvField2Json_eq, ciscoGpbkvField2Json_eq, ht, hname,
      hvalue, hfields]

/-- The one field that is not bare and reads like a bare one. -/
theorem fieldElement_eq_timestamp_iff {g : TelemetryField} (hg : ¬ Bare g) (t : UInt64) :
    fieldElement g = .obj [(lit "timestamp", .ofUInt64 t)] ↔
      g.timestamp = 0 ∧ g.name = lit "timestamp" ∧ fieldValue g.value = .ofUInt64 t ∧
        g.fields = [] := by
  have hscalar := scalar_ofUInt64 t
  constructor
  · intro h
    have hgn : g.name ≠ [] := fun hgn => hg (bare_of_fieldElement hgn hscalar.2 h)
    rw [fieldElement_of_ne_nil hgn, ciscoGpbkvField2Json_eq] at h
    simp only [Value.obj.injEq, List.cons.injEq, Prod.mk.injEq, and_true] at h
    obtain ⟨hname, hjson⟩ := h
    rw [← fieldObject_zero_nil (v := .ofUInt64 t)] at hjson
    obtain ⟨ht, hfields, hvalue⟩ := fieldObject_inj (scalar_fieldValue _) hscalar hjson
    exact ⟨ht, hname, hvalue, ciscoGpbkvFields2Json_eq_nil.mp hfields⟩
  · rintro ⟨ht, hname, hvalue, hfields⟩
    rw [fieldElement, ciscoGpbkvField2Json_eq, ht, hname, hvalue, hfields]
    rfl

theorem fieldElement_eq_bare_iff {f g : TelemetryField} (hf : Bare f) (hg : ¬ Bare g) :
    fieldElement g = fieldElement f ↔ normalize g = normalize f := by
  rw [fieldElement_of_bare hf, normalize_of_bare hf, fieldElement_eq_timestamp_iff hg,
    normalize_of_not_bare hg, NormalField.mk.injEq, normalizeFields_eq_nil]

/-- One level: if the sub-fields are told apart by their normal forms, so are the fields. -/
theorem fieldElement_eq_iff_of_fields {f g : TelemetryField}
    (ih : ciscoGpbkvFields2Json f.fields = ciscoGpbkvFields2Json g.fields ↔
      normalizeFields f.fields = normalizeFields g.fields) :
    fieldElement f = fieldElement g ↔ normalize f = normalize g := by
  by_cases hf : Bare f
  · by_cases hg : Bare g
    · rw [fieldElement_of_bare hf, fieldElement_of_bare hg, normalize_of_bare hf,
        normalize_of_bare hg]
      simp
    · exact eq_comm.trans ((fieldElement_eq_bare_iff hf hg).trans eq_comm)
  · by_cases hg : Bare g
    · exact fieldElement_eq_bare_iff hg hf
    · rw [normalize_of_not_bare hf, normalize_of_not_bare hg, fieldElement_eq_iff_of_not_bare hf hg,
        NormalField.mk.injEq, ih]

mutual

/-- Two fields are written alike exactly when they have the same normal form. -/
theorem fieldElement_eq_iff (f g : TelemetryField) :
    fieldElement f = fieldElement g ↔ normalize f = normalize g := by
  obtain ⟨timestamp, name, value, fields, delete⟩ := f
  exact fieldElement_eq_iff_of_fields (ciscoGpbkvFields2Json_eq_iff fields g.fields)

theorem ciscoGpbkvFields2Json_eq_iff (fs gs : List TelemetryField) :
    ciscoGpbkvFields2Json fs = ciscoGpbkvFields2Json gs ↔ normalizeFields fs = normalizeFields gs := by
  match fs, gs with
  | [], [] => simp [ciscoGpbkvFields2Json, normalizeFields]
  | [], g :: gs => simp [ciscoGpbkvFields2Json, normalizeFields]
  | f :: fs, [] => simp [ciscoGpbkvFields2Json, normalizeFields]
  | f :: fs, g :: gs =>
    rw [ciscoGpbkvFields2Json, ciscoGpbkvFields2Json, normalizeFields, normalizeFields,
      List.cons.injEq, List.cons.injEq, ciscoGpbkvFields2Json_eq_iff fs gs]
    exact and_congr_left fun _ => fieldElement_eq_iff f g

end

end MdtDialoutCollector.DataManipulation

import MdtDialoutCollector.DataManipulation.Juniper
import MdtDialoutCollector.External.Reference
import Mathlib.Data.List.Perm.Subperm

/-! The tags of a Juniper notification. A tag is named after its element and its key with
an underscore between them, so a filter is lost where two of these names are one. -/

namespace MdtDialoutCollector.DataManipulation

open Data External Json Proto.Gnmi Text

/-- A key of an element of the prefix. -/
structure Filter where
  name : Bytes
  key : Bytes
  value : Bytes
  deriving DecidableEq

def Filter.tagName (f : Filter) : Bytes := f.name ++ lit "_" ++ f.key

/-- The filters of a prefix, element by element. -/
def prefixFilters (pathPrefix : List PathElem) : List Filter :=
  pathPrefix.flatMap fun elem => elem.key.map fun e => ⟨elem.name, e.1, e.2⟩

/-- What the loop over the prefix assigns. -/
def tagMembers (fs : List Filter) : Members := fs.map fun f => (f.tagName, .str f.value)

theorem tags_eq (pathPrefix : List PathElem) :
    tags pathPrefix = (Record.obj []).setAll (tagMembers (prefixFilters pathPrefix)) := by
  rw [tags, tagMembers, prefixFilters, List.map_flatMap]
  simp only [List.map_map]
  rfl

/-- Every filter has a tag with its value, no two have the same one, and there are no more. -/
def FiltersTagged (pathPrefix : List PathElem) (tags : Value) : Prop :=
  ∃ name : Fin (prefixFilters pathPrefix).length → Bytes, Function.Injective name ∧
    (∀ i, tags.get? (name i) = some (.str ((prefixFilters pathPrefix).get i).value)) ∧
    ∃ ms, tags = .obj ms ∧ ms.length = (prefixFilters pathPrefix).length

/-- One element name goes on where the other's key begins. -/
def Filter.Collide (f g : Filter) : Prop :=
  f.name = g.name ∧ f.key = g.key ∨
  (∃ r, g.name = f.name ++ lit "_" ++ r ∧ f.key = r ++ lit "_" ++ g.key) ∨
  ∃ r, f.name = g.name ++ lit "_" ++ r ∧ g.key = r ++ lit "_" ++ f.key

theorem Filter.tagName_eq_iff (f g : Filter) : f.tagName = g.tagName ↔ f.Collide g := by
  have hlit : lit "_" = [95] := rfl
  simp only [tagName, Collide, hlit, List.append_assoc, List.singleton_append]
  rw [List.append_eq_append_iff]
  constructor
  · rintro (⟨a, hname, hkey⟩ | ⟨a, hname, hkey⟩)
    · cases a with
      | nil =>
        rw [List.append_nil] at hname
        exact .inl ⟨hname.symm, (List.cons.inj hkey).2⟩
      | cons c r =>
        obtain ⟨rfl, hrest⟩ := List.cons.inj hkey
        exact .inr (.inl ⟨r, hname, hrest⟩)
    · cases a with
      | nil =>
        rw [List.append_nil] at hname
        exact .inl ⟨hname, (List.cons.inj hkey).2.symm⟩
      | cons c r =>
        obtain ⟨rfl, hrest⟩ := List.cons.inj hkey
        exact .inr (.inr ⟨r, hname, hrest⟩)
  · rintro (⟨hname, hkey⟩ | ⟨r, hname, hkey⟩ | ⟨r, hname, hkey⟩)
    · exact .inl ⟨[], by rw [hname, List.append_nil], by rw [hkey]; rfl⟩
    · exact .inl ⟨95 :: r, hname, by rw [hkey]; rfl⟩
    · exact .inr ⟨95 :: r, hname, by rw [hkey]; rfl⟩

/-! ### The tags object -/

theorem setAll_obj (ms us : Members) :
    ∃ ms', (Record.obj ms).setAll us = .obj ms' ∧
      ∀ e ∈ ms', e ∈ ms ∨ e ∈ us := by
  induction us generalizing ms with
  | nil => exact ⟨ms, rfl, fun e he => .inl he⟩
  | cons u us ih =>
    obtain ⟨ms', hms', hmem⟩ := ih (Assoc.set u.1 u.2 ms)
    refine ⟨ms', hms', fun e he => ?_⟩
    rcases hmem e he with he | he
    · rcases Assoc.mem_of_mem_set he with rfl | he
      · exact .inr List.mem_cons_self
      · exact .inl he
    · exact .inr (List.mem_cons_of_mem u he)

/-- The tags are some of the assignments, one for each name. -/
theorem tags_obj (pathPrefix : List PathElem) :
    ∃ ms, (tags pathPrefix).toValue = .obj ms ∧ (ms.map Prod.fst).Nodup ∧
      ms.map Prod.fst ⊆ (tagMembers (prefixFilters pathPrefix)).map Prod.fst := by
  obtain ⟨ms, hms, hmem⟩ := setAll_obj [] (tagMembers (prefixFilters pathPrefix))
  have htags : (tags pathPrefix).toValue = .obj ms := by
    rw [tags_eq, hms]
    rfl
  have hcanonical := canonical_tags pathPrefix
  rw [htags] at hcanonical
  have hsorted : Assoc.Sorted ms := ((Value.every_obj ms).mp hcanonical).1.1
  refine ⟨ms, htags, ?_, ?_⟩
  · exact List.pairwise_map.mpr (hsorted.imp fun h => h.ne)
  · refine List.map_subset _ fun e he => ?_
    exact (hmem e he).resolve_left List.not_mem_nil

theorem nodup_tagNames_iff (fs : List Filter) :
    ((tagMembers fs).map Prod.fst).Nodup ↔ fs.Pairwise fun f g => ¬f.Collide g := by
  rw [tagMembers, List.map_map, List.Nodup, List.pairwise_map]
  simp only [Function.comp_apply, ne_eq, Filter.tagName_eq_iff]

theorem length_tagMembers (fs : List Filter) : ((tagMembers fs).map Prod.fst).length = fs.length := by
  rw [List.length_map, tagMembers, List.length_map]

/-- As many tags as filters leave no room for a name used twice. -/
theorem FiltersTagged.pairwise {pathPrefix : List PathElem}
    (h : FiltersTagged pathPrefix (tags pathPrefix).toValue) :
    (prefixFilters pathPrefix).Pairwise fun f g => ¬f.Collide g := by
  obtain ⟨-, -, -, ms, hms, hlength⟩ := h
  obtain ⟨ms', hms', hnodup, hsubset⟩ := tags_obj pathPrefix
  obtain rfl : ms = ms' := Value.obj.inj (hms.symm.trans hms')
  rw [← nodup_tagNames_iff]
  have hperm := (List.subperm_of_subset hnodup hsubset).perm_of_length_le
    (by rw [length_tagMembers, List.length_map, hlength])
  exact hperm.nodup_iff.mp hnodup

theorem filtersTagged_tags_iff (pathPrefix : List PathElem) :
    FiltersTagged pathPrefix (tags pathPrefix).toValue ↔
      (prefixFilters pathPrefix).Pairwise fun f g => ¬f.Collide g := by
  refine ⟨FiltersTagged.pairwise, fun h => ?_⟩
  have hnames := (nodup_tagNames_iff _).mpr h
  have hget : ∀ f ∈ prefixFilters pathPrefix,
      (tags pathPrefix).toValue.get? f.tagName = some (.str f.value) := by
    intro f hf
    have hmem : (f.tagName, Value.str f.value) ∈ tagMembers (prefixFilters pathPrefix) :=
      List.mem_map_of_mem hf
    rw [tags_eq]
    exact Record.get?_setAll_of_mem hmem hnames _
  obtain ⟨ms, hms, hnodup, hsubset⟩ := tags_obj pathPrefix
  refine ⟨fun i => ((prefixFilters pathPrefix).get i).tagName, fun i j hij => ?_,
    fun i => hget _ (List.get_mem _ i), ms, hms, ?_⟩
  · by_contra hne
    rcases Nat.lt_or_gt_of_ne fun e => hne (Fin.ext e) with hlt | hlt
    · exact List.pairwise_iff_get.mp h i j hlt ((Filter.tagName_eq_iff _ _).mp hij)
    · exact List.pairwise_iff_get.mp h j i hlt ((Filter.tagName_eq_iff _ _).mp hij.symm)
  · have hback : (tagMembers (prefixFilters pathPrefix)).map Prod.fst ⊆ ms.map Prod.fst := by
      intro k hk
      obtain ⟨m, hm, rfl⟩ := List.mem_map.mp hk
      obtain ⟨f, hf, rfl⟩ := List.mem_map.mp hm
      have hat := hget f hf
      rw [hms] at hat
      exact List.mem_map_of_mem (f := Prod.fst) (Assoc.mem_of_get? hat)
    have hle := (List.subperm_of_subset hnodup hsubset).length_le
    have hge := (List.subperm_of_subset hnames hback).length_le
    rw [length_tagMembers, List.length_map] at hle hge
    exact Nat.le_antisymm hle hge

/-! ### The emitted tags -/

def emittedTags (root : Record) : Value := (root.toValue.get? (lit "tags")).getD (.obj [])

variable {J : JsonCpp} {P : Protobuf} {root root' : Record}

theorem get?_headerMembers {header : P.HeaderExtension} {ok : Bool} {k : Bytes}
    (hsys : k ≠ lit "system_id") (hext : k ≠ lit "extension")
    (h : headerMembers J P header root = .ok (ok, root')) :
    root'.toValue.get? k = root.toValue.get? k := by
  have hid : (if (P.systemId header).isEmpty then root
      else root.set (lit "system_id") (.str (P.systemId header))).toValue.get? k =
        root.toValue.get? k := by
    split_ifs
    · rfl
    · exact Record.get?_set_of_ne root hsys _
  unfold headerMembers at h
  generalize (if (P.systemId header).isEmpty then root
      else root.set (lit "system_id") (.str (P.systemId header))) = r at hid h
  rw [← hid]
  cases hok : (P.headerToJson header).1 with
  | false =>
    simp only [hok, Bool.false_eq_true, if_false, Except.ok.injEq, Prod.mk.injEq] at h
    rw [h.2]
  | true =>
    simp only [hok, if_true] at h
    cases hparse : parseOrText J (P.headerToJson header).2 with
    | error e =>
      rw [hparse] at h
      cases h
    | ok x =>
      rw [hparse] at h
      cases h
      exact Record.get?_set_of_ne r hext x

/-- The header extensions set `system_id` and `extension` and no other member. -/
theorem get?_juniperExtension {exts : List Extension} {ok : Bool} {k : Bytes}
    (hsys : k ≠ lit "system_id") (hext : k ≠ lit "extension")
    (h : juniperExtension J P exts root = .ok (ok, root')) :
    root'.toValue.get? k = root.toValue.get? k := by
  induction exts generalizing root with
  | nil =>
    cases h
    rfl
  | cons ext exts ih =>
    cases ext with
    | masterArbitration => exact ih h
    | registeredExt id msg =>
      rw [juniperExtension] at h
      split_ifs at h
      · cases hparse : P.parseHeader msg with
        | none =>
          rw [hparse] at h
          cases h
          rfl
        | some header =>
          rw [hparse] at h
          cases hmembers : headerMembers J P header root with
          | error e =>
            simp only [hmembers] at h
            cases h
          | ok r =>
            obtain ⟨ok₁, root₁⟩ := r
            simp only [hmembers, bind, Except.bind] at h
            rw [← get?_headerMembers hsys hext hmembers]
            cases ok₁ with
            | true => exact ih h
            | false =>
              cases h
              rfl
      · exact ih h

theorem emittedTags_eq {jup : Notification} (hroot : root.toValue.get? (lit "tags") = none)
    (h : notificationMembers J jup root = .ok root') :
    emittedTags root' = (tags jup.pathPrefix).toValue := by
  obtain ⟨ms, hms, -⟩ := tags_obj jup.pathPrefix
  have hbase : (root.setAll [(lit "sensor_path", .arr (sensorPath jup.pathPrefix)),
      (lit "notification_timestamp", .ofUInt64 jup.timestamp.toUInt64)]).toValue.get?
        (lit "tags") = none := by
    have hkeys : lit "tags" ∉ [lit "sensor_path", lit "notification_timestamp"] := by decide
    rw [Record.get?_setAll_of_not_mem hkeys, hroot]
  have hset : ∀ metrics : Value, (notificationRecord jup root metrics).toValue.get? (lit "tags") =
      if ms = [] then none else some (.obj ms) := by
    intro metrics
    have hkeys : lit "tags" ∉
        (if metrics.empty then [] else [(lit "metrics", metrics)] : Members).map Prod.fst := by
      split_ifs
      · exact List.not_mem_nil
      · exact (by decide : lit "tags" ∉ [lit "metrics"])
    rw [notificationRecord, Record.get?_setAll_of_not_mem hkeys, hms]
    cases ms with
    | nil => exact hbase
    | cons m ms => exact Record.get?_set_self _ _ _
  obtain ⟨metrics, rfl⟩ : ∃ metrics, notificationRecord jup root metrics = root' := by
    rw [notificationMembers] at h
    cases hloop : metricsLoop J jup.update (.obj []) with
    | error e =>
      rw [hloop] at h
      cases h
    | ok metrics =>
      rw [hloop] at h
      cases h
      exact ⟨metrics, rfl⟩
  rw [emittedTags, hset, hms]
  split_ifs with hnil
  · rw [hnil]
    rfl
  · rfl

/-- Every notification that is written, as `HandleMessage` has its record filled. -/
theorem filters_tagged_iff {exts : List Extension} {ok : Bool} {jup : Notification}
    (hextension : juniperExtension J P exts .null = .ok (ok, root))
    (h : notificationMembers J jup root = .ok root') :
    FiltersTagged jup.pathPrefix (emittedTags root') ↔
      (prefixFilters jup.pathPrefix).Pairwise fun f g => ¬f.Collide g := by
  have hroot : root.toValue.get? (lit "tags") = none :=
    get?_juniperExtension (by decide) (by decide) hextension
  rw [emittedTags_eq hroot h, filtersTagged_tags_iff]

/-- A prefix with one interface. -/
def interfacePrefix : Notification where
  timestamp := 0
  pathPrefix := [⟨lit "interface", [(lit "name", lit "ge-0/0/0")], by decide⟩]
  update := []

theorem interfacePrefix_tagged :
    juniperExtension Reference.jsonCpp Reference.protobuf [] .null = .ok (true, .null) ∧
    notificationMembers Reference.jsonCpp interfacePrefix .null =
      .ok (notificationRoot Reference.jsonCpp interfacePrefix .null) ∧
    (FiltersTagged interfacePrefix.pathPrefix
        (emittedTags (notificationRoot Reference.jsonCpp interfacePrefix .null)) ↔
      (prefixFilters interfacePrefix.pathPrefix).Pairwise fun f g => ¬f.Collide g) := by
  have hextension : juniperExtension Reference.jsonCpp Reference.protobuf [] .null =
      .ok (true, .null) := rfl
  have hmembers : notificationMembers Reference.jsonCpp interfacePrefix .null =
      .ok (notificationRoot Reference.jsonCpp interfacePrefix .null) := rfl
  exact ⟨hextension, hmembers, filters_tagged_iff hextension hmembers⟩

/-- One element name at two depths, as interfaces and their aggregates have it. -/
def repeatedElement : Notification where
  timestamp := 0
  pathPrefix := [⟨lit "interface", [(lit "name", lit "ae0")], by decide⟩,
    ⟨lit "members", [], List.nodup_nil⟩, ⟨lit "interface", [(lit "name", lit "ge-0/0/0")], by decide⟩]
  update := []

/-- The filter of the first interface is overwritten by that of the second. -/
theorem repeatedElement_loses_filter : ¬∀ (jup : Notification) (root' : Record),
    notificationMembers Reference.jsonCpp jup .null = .ok root' →
      FiltersTagged jup.pathPrefix (emittedTags root') := by
  intro h
  have hmembers : notificationMembers Reference.jsonCpp repeatedElement .null =
      .ok (notificationRoot Reference.jsonCpp repeatedElement .null) := rfl
  have htagged := h repeatedElement _ hmembers
  rw [emittedTags_eq rfl hmembers] at htagged
  have hnames := (nodup_tagNames_iff _).mpr htagged.pairwise
  exact absurd hnames (by decide)

end MdtDialoutCollector.DataManipulation

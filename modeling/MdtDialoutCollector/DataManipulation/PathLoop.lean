import MdtDialoutCollector.DataManipulation.MetricsTree

/-! One run of the loop over a path, and what it leaves of the tree. The value is found at the end
of its path, and a path that does not cross it leads where it led before. -/

namespace MdtDialoutCollector.DataManipulation

open Data External Json Proto.Gnmi Text

/-- The nodes that `isMember` and `operator[]` are applied to, from the first to the last. -/
def visited : Value → List Bytes → List Value
  | _, [] => []
  | node, k :: ks => node :: visited (node.objectAt k) ks

/-- Neither path leads on from the other. -/
def Incomparable (p q : List Bytes) : Prop := ¬p <+: q ∧ ¬q <+: p

/-! ### One path -/

theorem isObject_visited (path : List Bytes) (ms : Members) :
    ∀ node ∈ visited (.obj ms) path, node.isObject = true := by
  induction path generalizing ms with
  | nil => simp [visited]
  | cons k ks ih =>
    rw [visited, List.forall_mem_cons, Value.objectAt_obj]
    exact ⟨rfl, ih (ms.child k)⟩

/-- The loop is done with an object, and the value is at the end of the path. -/
theorem put?_stores {p : List Bytes} (hp : p ≠ []) (ms : Members) (v : Value) :
    ∃ t', (Value.obj ms).put? p v = some t' ∧ t'.isObject = true ∧ t'.at? p = some v ∧
      ∀ q, Incomparable p q → t'.at? q = (Value.obj ms).at? q :=
  ⟨_, Value.put?_obj p v ms, rfl, at?_put_self hp ms v,
    fun _ hq => at?_put_of_incomparable hq.1 hq.2 ms v⟩

/-! ### A list of updates -/

/-- Values put at other paths, one after the other, leave a value where it is. -/
theorem at?_putAll_of_incomparable {p : List Bytes} {us : List (List Bytes × Value)}
    (h : ∀ u ∈ us, Incomparable u.1 p) (ms : Members) :
    (Value.obj (ms.putAll us)).at? p = (Value.obj ms).at? p := by
  induction us generalizing ms with
  | nil => rfl
  | cons u us ih =>
    obtain ⟨hu, hus⟩ := List.forall_mem_cons.mp h
    calc (Value.obj (ms.putAll (u :: us))).at? p
        = (Value.obj ((ms.put u.1 u.2).putAll us)).at? p := rfl
      _ = (Value.obj (ms.put u.1 u.2)).at? p := ih hus _
      _ = (Value.obj ms).at? p := at?_put_of_incomparable hu.1 hu.2 ms u.2

/-- A loop that comes to its end has put every update's value. -/
theorem metricsLoop_ok {J : JsonCpp} {us : List Update} {ms : Members} {t' : Value}
    (h : metricsLoop J us (.obj ms) = .ok t') : t' = .obj (ms.putAll (assignments J us)) := by
  by_cases hfit : TextsFit J us
  · rw [metricsLoop_of_fit hfit] at h
    cases h
    rfl
  · rw [metricsLoop_of_not_fit hfit] at h
    cases h

/-- The last value at a path survives what is put elsewhere after it. -/
theorem metricsLoop_keeps {J : JsonCpp} {before after : List Update} {u : Update} {ms : Members}
    {t' : Value} (hloop : metricsLoop J (before ++ u :: after) (.obj ms) = .ok t')
    (hu : nodePath u ≠ []) (hafter : ∀ w ∈ after, Incomparable (nodePath w) (nodePath u)) :
    t'.at? (nodePath u) = some (updateValue J u.val) := by
  have hassignments : assignments J (before ++ u :: after) =
      assignments J before ++ (nodePath u, updateValue J u.val) :: assignments J after := by
    simp only [assignments, nodePath, List.map_append, List.map_cons]
  have hrest : ∀ a ∈ assignments J after, Incomparable a.1 (nodePath u) := by
    rw [assignments, List.forall_mem_map]
    exact hafter
  rw [metricsLoop_ok hloop, hassignments, Members.putAll, List.foldl_append, List.foldl_cons]
  exact (at?_putAll_of_incomparable hrest _).trans (at?_put_self hu _ _)

/-- What one run of the loop does to an object, and so what a list of updates leaves. -/
theorem path_loop_frame (J : JsonCpp) :
    (∀ (ms : Members) (p : List Bytes) (v : Value), p ≠ [] →
      ∃ t', (Value.obj ms).put? p v = some t' ∧ t'.isObject = true ∧ t'.at? p = some v ∧
        (∀ q, Incomparable p q → t'.at? q = (Value.obj ms).at? q) ∧
        ∀ node ∈ visited (.obj ms) p, node.isObject = true) ∧
    ∀ (before after : List Update) (u : Update) (ms : Members) (t' : Value),
      metricsLoop J (before ++ u :: after) (.obj ms) = .ok t' → nodePath u ≠ [] →
      (∀ w ∈ after, Incomparable (nodePath w) (nodePath u)) →
      t'.at? (nodePath u) = some (updateValue J u.val) := by
  constructor
  · intro ms p v hp
    obtain ⟨t', hput, hobject, hself, hframe⟩ := put?_stores hp ms v
    exact ⟨t', hput, hobject, hself, hframe, isObject_visited p ms⟩
  · exact fun before after u ms t' => metricsLoop_keeps

/-- The first of two counters is still there when the second has been put beside it. -/
theorem path_loop_frame_counters :
    ∃ t', metricsLoop Reference.jsonCpp counters.update (.obj []) = .ok t' ∧
      t'.at? [lit "counters", lit "in"] = some (.ofInt64 1) := by
  refine ⟨_, rfl, ?_⟩
  refine (path_loop_frame Reference.jsonCpp).2 []
    [⟨[plainElem (lit "counters"), plainElem (lit "out")], some (.intVal 2)⟩]
    ⟨[plainElem (lit "counters"), plainElem (lit "in")], some (.intVal 1)⟩ [] _ rfl (by decide) ?_
  rw [List.forall_mem_singleton]
  exact ⟨by decide, by decide⟩

end MdtDialoutCollector.DataManipulation

import MdtDialoutCollector.DataManipulation.Juniper
import MdtDialoutCollector.External.Reference

/-! The updates of a Juniper notification in the tree of metrics. A value on the way to a
longer path is replaced unless it is an object, so all updates are found at the ends of
their paths where the values on one path agree. -/

namespace MdtDialoutCollector.DataManipulation

open External Json Proto.Gnmi Text

/-- The member names on the way to an update's value. -/
def nodePath (u : Update) : List Bytes := u.path.map nodeName

/-- The metrics that are emitted hold every update's value at the end of its path. -/
def EachAtItsPath (J : JsonCpp) (jup : Notification) (root : Record) : Prop :=
  ∃ root', notificationMembers J jup root = .ok root' ∧
    ∀ u ∈ jup.update, ∃ metrics, root'.toValue.get? (lit "metrics") = some metrics ∧
      metrics.at? (nodePath u) = some (updateValue J u.val)

/-- An update's value holds that of every update further down its path. -/
def ValuesAgree (J : JsonCpp) (us : List Update) : Prop :=
  ∀ u ∈ us, ∀ w ∈ us, ∀ r, r ≠ [] → nodePath w = nodePath u ++ r →
    (updateValue J u.val).at? r = some (updateValue J w.val)

theorem agree_assignments {J : JsonCpp} {us : List Update} :
    Agree (assignments J us) ↔ ValuesAgree J us := by
  rw [Agree, assignments, List.forall_mem_map]
  refine forall₂_congr fun u _ => ?_
  rw [List.forall_mem_map]
  rfl

/-- All updates hang below one value, so their values agree. -/
theorem EachAtItsPath.valuesAgree {J : JsonCpp} {jup : Notification} {root : Record}
    (h : EachAtItsPath J jup root) : ValuesAgree J jup.update := by
  obtain ⟨root', -, hmetrics⟩ := h
  rw [← agree_assignments]
  cases htree : root'.toValue.get? (lit "metrics") with
  | none =>
    refine fun a ha => absurd ha ?_
    rw [assignments, List.mem_map]
    rintro ⟨u, hu, -⟩
    obtain ⟨metrics, hsome, -⟩ := hmetrics u hu
    rw [htree] at hsome
    cases hsome
  | some tree =>
    have hat : ∀ a ∈ assignments J jup.update, tree.at? a.1 = some a.2 := by
      rw [assignments, List.forall_mem_map]
      intro u hu
      obtain ⟨metrics, hsome, hat⟩ := hmetrics u hu
      rw [htree, Option.some.injEq] at hsome
      exact hsome ▸ hat
    exact agree_of_at? hat

theorem get?_metrics {J : JsonCpp} {jup : Notification} (h : metricsTree J jup.update ≠ [])
    (root : Record) :
    (notificationRoot J jup root).toValue.get? (lit "metrics") =
      some (.obj (metricsTree J jup.update)) := by
  have hempty : (Value.obj (metricsTree J jup.update)).empty = false := by
    rw [Value.empty, List.isEmpty_eq_false_iff]
    exact h
  rw [notificationRoot, notificationRecord, hempty]
  exact Record.get?_set_self _ _ _

theorem each_at_its_path_iff {J : JsonCpp} (hJ : J.Lawful) {jup : Notification}
    (hdistinct : jup.update.Pairwise fun u w => nodePath u ≠ nodePath w)
    (hpath : ∀ u ∈ jup.update, u.path ≠ []) (hfit : TextsFit J jup.update) (root : Record) :
    EachAtItsPath J jup root ↔ ValuesAgree J jup.update := by
  refine ⟨EachAtItsPath.valuesAgree, fun h => ?_⟩
  refine ⟨_, notificationMembers_of_fit hfit root, fun u hu => ?_⟩
  have hat : (Value.obj (metricsTree J jup.update)).at? (nodePath u) =
      some (updateValue J u.val) := by
    have hcanonical : ∀ a ∈ assignments J jup.update, a.2.Canonical := by
      rw [assignments, List.forall_mem_map]
      exact fun w _ => updateValue_canonical hJ w.val
    have hne : ∀ a ∈ assignments J jup.update, a.1 ≠ [] := by
      rw [assignments, List.forall_mem_map]
      exact fun w hw => mt List.map_eq_nil_iff.mp (hpath w hw)
    have hpairwise : (assignments J jup.update).Pairwise fun a b => a.1 ≠ b.1 :=
      List.pairwise_map.mpr hdistinct
    exact at?_putAll hcanonical hne hpairwise (agree_assignments.mpr h) _
      (List.mem_map_of_mem hu)
  refine ⟨_, get?_metrics (fun hnil => ?_) root, hat⟩
  obtain ⟨k, ks, hk⟩ := List.exists_cons_of_ne_nil (hpath u hu)
  rw [hnil, nodePath, hk] at hat
  cases hat

def plainElem (name : Bytes) : PathElem := ⟨name, [], List.nodup_nil⟩

/-- Two counters below one node. -/
def counters : Notification where
  timestamp := 0
  pathPrefix := []
  update := [⟨[plainElem (lit "counters"), plainElem (lit "in")], some (.intVal 1)⟩,
    ⟨[plainElem (lit "counters"), plainElem (lit "out")], some (.intVal 2)⟩]

theorem counters_each_at_its_path :
    counters.update.Pairwise (fun u w => nodePath u ≠ nodePath w) ∧
    (∀ u ∈ counters.update, u.path ≠ []) ∧ TextsFit Reference.jsonCpp counters.update ∧
    (EachAtItsPath Reference.jsonCpp counters .null ↔
      ValuesAgree Reference.jsonCpp counters.update) := by
  have hdistinct : counters.update.Pairwise fun u w => nodePath u ≠ nodePath w := by
    simp only [counters, List.pairwise_cons, List.mem_singleton, forall_eq, List.not_mem_nil,
      false_imp_iff, implies_true, List.Pairwise.nil, and_true]
    decide
  have hpath : ∀ u ∈ counters.update, u.path ≠ [] := by simp [counters]
  have hfit : TextsFit Reference.jsonCpp counters.update := by
    simp [TextsFit, counters, jsonText]
  exact ⟨hdistinct, hpath, hfit,
    each_at_its_path_iff Reference.jsonCpp_lawful hdistinct hpath hfit .null⟩

/-- A value, and another further down its path. -/
def nestedUpdates : Notification where
  timestamp := 0
  pathPrefix := []
  update := [⟨[plainElem (lit "counters")], some (.intVal 1)⟩,
    ⟨[plainElem (lit "counters"), plainElem (lit "in")], some (.intVal 2)⟩]

/-- The first value gives way to an object. -/
theorem nestedUpdates_replace : ¬∀ (jup : Notification) (root : Record),
    jup.update.Pairwise (fun u w => nodePath u ≠ nodePath w) →
      EachAtItsPath Reference.jsonCpp jup root := by
  intro h
  have hdistinct : nestedUpdates.update.Pairwise fun u w => nodePath u ≠ nodePath w := by
    simp only [nestedUpdates, List.pairwise_cons, List.mem_singleton, forall_eq, List.not_mem_nil,
      false_imp_iff, implies_true, List.Pairwise.nil, and_true]
    decide
  have hagree := (h nestedUpdates .null hdistinct).valuesAgree _ List.mem_cons_self _
    (List.mem_cons_of_mem _ List.mem_cons_self) [lit "in"] (by simp) rfl
  cases hagree

end MdtDialoutCollector.DataManipulation

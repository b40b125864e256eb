import MdtDialoutCollector.Json.Value
import Mathlib.Data.List.Induction

/-! Values put at the end of a path of member names. The walk down a value is partial:
names are looked up in objects only. Started at an object it never meets anything
else, since a node on the way that is no object is replaced by one. -/

namespace MdtDialoutCollector.Json

open Data Text

/-- The members of the object at `k`, none where there is no object. -/
def Members.child (ms : Members) (k : Bytes) : Members :=
  match Assoc.get? k ms with
  | some (.obj c) => c
  | _ => []

/-- `v` at the end of `path`, with objects on the way to it. -/
def Members.put (ms : Members) : List Bytes → Value → Members
  | [], _ => ms
  | [k], v => Assoc.set k v ms
  | k :: j :: ks, v => Assoc.set k (.obj (Members.put (ms.child k) (j :: ks) v)) ms

/-- The object the walk goes on with: the one at `k`, or a new one. -/
def Value.objectAt (node : Value) (k : Bytes) : Value :=
  match node.get? k with
  | some (.obj c) => .obj c
  | _ => .obj []

/-- The walk with its failures: `isMember` and `operator[]` of a value that has no members. -/
def Value.put? (node : Value) : List Bytes → Value → Option Value
  | [], _ => some node
  | [k], v => node.assign? k v
  | k :: j :: ks, v =>
    if node.isObject then do
      let child ← Value.put? (node.objectAt k) (j :: ks) v
      node.assign? k child
    else none

theorem Value.objectAt_obj (ms : Members) (k : Bytes) :
    (Value.obj ms).objectAt k = .obj (ms.child k) := by
  simp only [objectAt, get?, Members.child]
  split <;> rfl

theorem Value.put?_obj (path : List Bytes) (v : Value) (ms : Members) :
    (Value.obj ms).put? path v = some (.obj (ms.put path v)) := by
  induction path generalizing ms with
  | nil => rfl
  | cons k ks ih =>
    cases ks with
    | nil => rfl
    | cons j ks =>
      simp only [Value.put?, isObject, if_true, Value.objectAt_obj, ih, Option.bind_eq_bind,
        Option.bind_some, assign?, Members.put]

theorem canonical_child {ms : Members} (h : (Value.obj ms).Canonical) (k : Bytes) :
    (Value.obj (ms.child k)).Canonical := by
  unfold Members.child
  split
  · next c hc =>
    exact ((Value.every_obj ms).mp h).2 _ (Assoc.mem_of_get? hc)
  · exact (Value.every_obj []).mpr ⟨⟨List.Pairwise.nil, trivial⟩, by simp⟩

theorem canonical_put {ms : Members} {path : List Bytes} {v : Value}
    (hms : (Value.obj ms).Canonical) (hv : v.Canonical) :
    (Value.obj (ms.put path v)).Canonical := by
  induction path generalizing ms with
  | nil => exact hms
  | cons k ks ih =>
    cases ks with
    | nil => exact Record.canonical_set (r := .obj ms) hms hv
    | cons j ks => exact Record.canonical_set (r := .obj ms) hms (ih (canonical_child hms k))

/-- The tree a list of assignments describes, each at the end of its path. -/
def Members.putAll (ms : Members) (us : List (List Bytes × Value)) : Members :=
  us.foldl (fun ms u => ms.put u.1 u.2) ms

theorem canonical_putAll {us : List (List Bytes × Value)} {ms : Members}
    (hms : (Value.obj ms).Canonical) (hus : ∀ u ∈ us, u.2.Canonical) :
    (Value.obj (ms.putAll us)).Canonical := by
  induction us generalizing ms with
  | nil => exact hms
  | cons u us ih =>
    obtain ⟨hu, hus⟩ := List.forall_mem_cons.mp hus
    exact ih (canonical_put hms hu) hus

/-! ### What is found at the end of a path -/

/-- The walk down a path of member names. -/
def Value.at? (v : Value) : List Bytes → Option Value
  | [] => some v
  | k :: ks => (v.get? k).bind fun c => c.at? ks

@[simp] theorem Value.at?_nil (v : Value) : v.at? [] = some v := rfl

theorem Value.at?_cons (v : Value) (k : Bytes) (ks : List Bytes) :
    v.at? (k :: ks) = (v.get? k).bind fun c => c.at? ks := rfl

theorem Value.at?_append (v : Value) (p q : List Bytes) :
    v.at? (p ++ q) = (v.at? p).bind fun c => c.at? q := by
  induction p generalizing v with
  | nil => rfl
  | cons k ks ih =>
    rw [List.cons_append, at?_cons, at?_cons, Option.bind_assoc]
    exact Option.bind_congr fun c _ => ih c

/-- Below a member the walk is in the object there. -/
theorem Value.at?_child {ks : List Bytes} (hks : ks ≠ []) (ms : Members) (k : Bytes) :
    (Value.obj ms).at? (k :: ks) = (Value.obj (ms.child k)).at? ks := by
  obtain ⟨j, ks, rfl⟩ := List.exists_cons_of_ne_nil hks
  rw [at?_cons, Members.child, get?]
  cases hk : Assoc.get? k ms with
  | none => rfl
  | some c => cases c <;> rfl

theorem Members.put_cons {ks : List Bytes} (hks : ks ≠ []) (ms : Members) (k : Bytes) (v : Value) :
    ms.put (k :: ks) v = Assoc.set k (.obj ((ms.child k).put ks v)) ms := by
  obtain ⟨j, ks, rfl⟩ := List.exists_cons_of_ne_nil hks
  rfl

theorem get?_put_cons_of_ne {j k : Bytes} (h : j ≠ k) (ms : Members) (ks : List Bytes) (v : Value) :
    (Value.obj (ms.put (k :: ks) v)).get? j = (Value.obj ms).get? j := by
  cases ks with
  | nil => exact Assoc.get?_set_of_ne h v ms
  | cons i ks => exact Assoc.get?_set_of_ne h _ ms

theorem get?_put_cons_self {ks : List Bytes} (hks : ks ≠ []) (ms : Members) (k : Bytes)
    (v : Value) : (Value.obj (ms.put (k :: ks) v)).get? k = some (.obj ((ms.child k).put ks v)) := by
  rw [Members.put_cons hks]
  exact Assoc.get?_set_self k _ ms

theorem at?_put_append {p : List Bytes} (hp : p ≠ []) (ms : Members) (v : Value) (q : List Bytes) :
    (Value.obj (ms.put p v)).at? (p ++ q) = v.at? q := by
  induction p generalizing ms with
  | nil => exact absurd rfl hp
  | cons k ks ih =>
    by_cases hks : ks = []
    · subst hks
      have hk : (Value.obj (ms.put [k] v)).get? k = some v := Assoc.get?_set_self k v ms
      rw [List.singleton_append, Value.at?_cons, hk, Option.bind_some]
    · rw [List.cons_append, Value.at?_cons, get?_put_cons_self hks, Option.bind_some]
      exact ih hks (ms.child k)

theorem at?_put_self {p : List Bytes} (hp : p ≠ []) (ms : Members) (v : Value) :
    (Value.obj (ms.put p v)).at? p = some v := by
  have h := at?_put_append hp ms v []
  rwa [List.append_nil] at h

/-- A value put elsewhere changes nothing, whatever is replaced on the way to it. -/
theorem at?_put_of_incomparable {p q : List Bytes} (hpq : ¬p <+: q) (hqp : ¬q <+: p) (ms : Members)
    (v : Value) : (Value.obj (ms.put p v)).at? q = (Value.obj ms).at? q := by
  induction p generalizing ms q with
  | nil => exact absurd (List.nil_prefix) hpq
  | cons k ks ih =>
    cases q with
    | nil => exact absurd (List.nil_prefix) hqp
    | cons j js =>
      by_cases hjk : j = k
      · subst hjk
        rw [List.prefix_cons_inj] at hpq hqp
        have hks : ks ≠ [] := fun h => hpq (h ▸ List.nil_prefix)
        have hjs : js ≠ [] := fun h => hqp (h ▸ List.nil_prefix)
        rw [Value.at?_child hjs ms, Value.at?_cons, get?_put_cons_self hks, Option.bind_some]
        exact ih hpq hqp (ms.child j)
      · rw [Value.at?_cons, get?_put_cons_of_ne hjk, Value.at?_cons]

/-- Putting back what is there changes nothing. -/
theorem put_eq_self {p : List Bytes} {ms : Members} {v : Value} (hms : (Value.obj ms).Canonical)
    (h : (Value.obj ms).at? p = some v) : ms.put p v = ms := by
  induction p generalizing ms with
  | nil => rfl
  | cons k ks ih =>
    have hsorted : Assoc.Sorted ms := ((Value.every_obj ms).mp hms).1.1
    by_cases hks : ks = []
    · subst hks
      rw [Value.at?_cons, Value.get?] at h
      cases hk : Assoc.get? k ms with
      | none =>
        rw [hk] at h
        cases h
      | some c =>
        rw [hk] at h
        cases h
        exact Assoc.set_eq_self hsorted hk
    · have hchild : Assoc.get? k ms = some (.obj (ms.child k)) := by
        obtain ⟨j, ks, rfl⟩ := List.exists_cons_of_ne_nil hks
        rw [Value.at?_cons, Value.get?] at h
        rw [Members.child]
        cases hk : Assoc.get? k ms with
        | none =>
          rw [hk] at h
          cases h
        | some c =>
          rw [hk, Option.bind_some] at h
          cases c with
          | obj c => rfl
          | _ => cases h
      rw [Value.at?_child hks] at h
      rw [Members.put_cons hks, ih (canonical_child hms k) h]
      exact Assoc.set_eq_self hsorted hchild

/-! ### What all the assignments leave -/

/-- Where one path leads on from another, the value at the shorter one holds the value at
the longer one. -/
def Agree (us : List (List Bytes × Value)) : Prop :=
  ∀ u ∈ us, ∀ w ∈ us, ∀ r, r ≠ [] → w.1 = u.1 ++ r → u.2.at? r = some w.2

theorem Agree.init {us : List (List Bytes × Value)} {w : List Bytes × Value}
    (h : Agree (us ++ [w])) : Agree us := fun a ha b hb =>
  h a (List.mem_append_left [w] ha) b (List.mem_append_left [w] hb)

/-- One more assignment keeps a value that was at the end of its path there. -/
theorem at?_put_of_agree {p q : List Bytes} {v x : Value} {ms : Members}
    (hms : (Value.obj ms).Canonical) (hq : q ≠ []) (hpq : p ≠ q)
    (hbelow : ∀ r, r ≠ [] → p = q ++ r → x.at? r = some v)
    (habove : ∀ r, r ≠ [] → q = p ++ r → v.at? r = some x)
    (h : (Value.obj ms).at? p = some v) : (Value.obj (ms.put q x)).at? p = some v := by
  by_cases hprefix : q <+: p
  · obtain ⟨r, rfl⟩ := hprefix
    have hr : r ≠ [] := by
      rintro rfl
      exact hpq (List.append_nil q)
    rw [at?_put_append hq]
    exact hbelow r hr rfl
  · by_cases hextends : p <+: q
    · obtain ⟨r, rfl⟩ := hextends
      have hr : r ≠ [] := by
        rintro rfl
        exact hpq (List.append_nil p).symm
      -- the value at `p` holds `x` already, so the walk overwrites it with itself
      have hthere : (Value.obj ms).at? (p ++ r) = some x := by
        rw [Value.at?_append, h, Option.bind_some]
        exact habove r hr rfl
      rwa [put_eq_self hms hthere]
    · rwa [at?_put_of_incomparable hprefix hextends]

theorem putAll_append (ms : Members) (us : List (List Bytes × Value)) (w : List Bytes × Value) :
    ms.putAll (us ++ [w]) = (ms.putAll us).put w.1 w.2 := by
  rw [Members.putAll, List.foldl_append]
  rfl

theorem canonical_obj_nil : (Value.obj []).Canonical :=
  (Value.every_obj []).mpr ⟨⟨List.Pairwise.nil, trivial⟩, by simp⟩

/-- Values at different paths are all found again, in whatever order they were put. -/
theorem at?_putAll {us : List (List Bytes × Value)} (hus : ∀ u ∈ us, u.2.Canonical)
    (hne : ∀ u ∈ us, u.1 ≠ []) (hdistinct : us.Pairwise fun u w => u.1 ≠ w.1) (h : Agree us) :
    ∀ u ∈ us, (Value.obj (Members.putAll [] us)).at? u.1 = some u.2 := by
  induction us using List.reverseRecOn with
  | nil => exact fun u hu => absurd hu List.not_mem_nil
  | append_singleton us w ih =>
    obtain ⟨hdistinct, -, hnew⟩ := List.pairwise_append.mp hdistinct
    have hus' := fun u hu => hus u (List.mem_append_left [w] hu)
    have hne' := fun u hu => hne u (List.mem_append_left [w] hu)
    have hw : w ∈ us ++ [w] := List.mem_append_right us List.mem_cons_self
    intro u hu
    rw [putAll_append]
    rcases List.mem_append.mp hu with hold | hlast
    · exact at?_put_of_agree (canonical_putAll canonical_obj_nil hus') (hne w hw)
        (hnew u hold w List.mem_cons_self) (h w hw u hu) (h u hu w hw)
        (ih hus' hne' hdistinct h.init u hold)
    · rw [List.mem_singleton.mp hlast]
      exact at?_put_self (hne w hw) _ w.2

/-- Values that are found again agree. -/
theorem agree_of_at? {us : List (List Bytes × Value)} {tree : Value}
    (h : ∀ u ∈ us, tree.at? u.1 = some u.2) : Agree us := by
  intro u hu w hw r _ hr
  have hbelow := h w hw
  rwa [hr, Value.at?_append, h u hu, Option.bind_some] at hbelow

end MdtDialoutCollector.Json

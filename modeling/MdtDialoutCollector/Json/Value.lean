import MdtDialoutCollector.Data.Assoc
import MdtDialoutCollector.Text.Bytes

/-! JSON values over byte strings. Objects keep their members in key order, numbers
are integers or doubles, and a double is its bit pattern. Besides the member
operations the module has the three measures the development reasons with: nesting
depth, the list of all nodes, and properties that hold at every node. -/

namespace MdtDialoutCollector.Json

open Data Text

structure Double where
  bits : UInt64
  deriving DecidableEq, Repr

/-- Exponent all ones, fraction not zero. -/
def Double.isNaN (d : Double) : Bool :=
  d.bits.toNat / 2 ^ 52 % 2 ^ 11 == 2 ^ 11 - 1 && d.bits.toNat % 2 ^ 52 != 0

inductive Value where
  | null
  | bool (b : Bool)
  | int (n : ℤ)
  | real (d : Double)
  | str (s : Bytes)
  | arr (xs : List Value)
  | obj (ms : List (Bytes × Value))
  deriving Repr, Inhabited

abbrev Members := List (Bytes × Value)

/-! ### Members -/

namespace Value

def isObject : Value → Bool
  | .obj _ => true
  | _ => false

/-- The member at `k`, if the value is an object and has one. -/
def get? (v : Value) (k : Bytes) : Option Value :=
  match v with
  | .obj ms => Assoc.get? k ms
  | _ => none

/-- `v[k] = x`, which turns a null into an object and is an error on other types. -/
def assign? (v : Value) (k : Bytes) (x : Value) : Option Value :=
  match v with
  | .null => some (.obj [(k, x)])
  | .obj ms => some (.obj (Assoc.set k x ms))
  | _ => none

/-- `v.empty()`: null, or a container without elements. -/
def empty : Value → Bool
  | .null => true
  | .arr xs => xs.isEmpty
  | .obj ms => ms.isEmpty
  | _ => false

end Value

/-- A value that has only been assigned to through its members. -/
inductive Record where
  | null
  | obj (ms : Members)
  deriving Inhabited

namespace Record

def set (r : Record) (k : Bytes) (x : Value) : Record :=
  match r with
  | .null => .obj [(k, x)]
  | .obj ms => .obj (Assoc.set k x ms)

/-- Assignments one after the other. -/
def setAll (r : Record) (ms : Members) : Record := ms.foldl (fun r m => r.set m.1 m.2) r

def toValue : Record → Value
  | .null => .null
  | .obj ms => .obj ms

theorem setAll_cons (r : Record) (m : Bytes × Value) (ms : Members) :
    r.setAll (m :: ms) = (r.set m.1 m.2).setAll ms := rfl

/-- `set` is what `operator[]` assigns. -/
theorem assign?_toValue (r : Record) (k : Bytes) (x : Value) :
    r.toValue.assign? k x = some (r.set k x).toValue := by
  cases r <;> rfl

@[simp] theorem get?_set_self (r : Record) (k : Bytes) (x : Value) :
    (r.set k x).toValue.get? k = some x := by
  cases r with
  | null => simp [set, toValue, Value.get?, Assoc.get?]
  | obj ms => exact Assoc.get?_set_self k x ms

@[simp] theorem get?_set_of_ne (r : Record) {j k : Bytes} (h : j ≠ k) (x : Value) :
    (r.set k x).toValue.get? j = r.toValue.get? j := by
  cases r with
  | null => simp [set, toValue, Value.get?, Assoc.get?, h.symm]
  | obj ms => exact Assoc.get?_set_of_ne h x ms

theorem get?_setAll_of_not_mem {k : Bytes} {ms : Members} (h : k ∉ ms.map Prod.fst) (r : Record) :
    (r.setAll ms).toValue.get? k = r.toValue.get? k := by
  induction ms generalizing r with
  | nil => rfl
  | cons m ms ih =>
    rw [List.map_cons, List.mem_cons, not_or] at h
    rw [setAll_cons, ih h.2, get?_set_of_ne r h.1]

/-- Assigned once, a member has the value that was assigned. -/
theorem get?_setAll_of_mem {k : Bytes} {x : Value} {ms : Members} (h : (k, x) ∈ ms)
    (hnodup : (ms.map Prod.fst).Nodup) (r : Record) : (r.setAll ms).toValue.get? k = some x := by
  induction ms generalizing r with
  | nil => simp at h
  | cons m ms ih =>
    rw [List.map_cons, List.nodup_cons] at hnodup
    rw [setAll_cons]
    rcases List.mem_cons.mp h with rfl | h
    · rw [get?_setAll_of_not_mem hnodup.1, get?_set_self]
    · exact ih h hnodup.2 _

end Record

/-! ### Induction -/

namespace Value

mutual

private theorem induct_value {P : Value → Prop} (null : P .null) (bool : ∀ b, P (.bool b))
    (int : ∀ n, P (.int n)) (real : ∀ d, P (.real d)) (str : ∀ s, P (.str s))
    (arr : ∀ xs, (∀ x ∈ xs, P x) → P (.arr xs))
    (obj : ∀ ms, (∀ m ∈ ms, P m.2) → P (.obj ms)) : ∀ v, P v
  | .null => null
  | .bool b => bool b
  | .int n => int n
  | .real d => real d
  | .str s => str s
  | .arr xs => arr xs (induct_arr null bool int real str arr obj xs)
  | .obj ms => obj ms (induct_obj null bool int real str arr obj ms)

private theorem induct_arr {P : Value → Prop} (null : P .null) (bool : ∀ b, P (.bool b))
    (int : ∀ n, P (.int n)) (real : ∀ d, P (.real d)) (str : ∀ s, P (.str s))
    (arr : ∀ xs, (∀ x ∈ xs, P x) → P (.arr xs))
    (obj : ∀ ms, (∀ m ∈ ms, P m.2) → P (.obj ms)) : ∀ (xs : List Value), ∀ x ∈ xs, P x
  | [] => by simp
  | x :: xs => List.forall_mem_cons.mpr ⟨induct_value null bool int real str arr obj x,
      induct_arr null bool int real str arr obj xs⟩

private theorem induct_obj {P : Value → Prop} (null : P .null) (bool : ∀ b, P (.bool b))
    (int : ∀ n, P (.int n)) (real : ∀ d, P (.real d)) (str : ∀ s, P (.str s))
    (arr : ∀ xs, (∀ x ∈ xs, P x) → P (.arr xs))
    (obj : ∀ ms, (∀ m ∈ ms, P m.2) → P (.obj ms)) : ∀ (ms : Members), ∀ m ∈ ms, P m.2
  | [] => by simp
  | (_, v) :: ms => List.forall_mem_cons.mpr ⟨induct_value null bool int real str arr obj v,
      induct_obj null bool int real str arr obj ms⟩

end

/-- Induction on a value, with the hypothesis for every element and every member. -/
@[induction_eliminator]
theorem induct {P : Value → Prop} (null : P .null) (bool : ∀ b, P (.bool b))
    (int : ∀ n, P (.int n)) (real : ∀ d, P (.real d)) (str : ∀ s, P (.str s))
    (arr : ∀ xs, (∀ x ∈ xs, P x) → P (.arr xs))
    (obj : ∀ ms, (∀ m ∈ ms, P m.2) → P (.obj ms)) (v : Value) : P v :=
  induct_value null bool int real str arr obj v

end Value

/-! ### Depth -/

mutual

/-- Nesting depth, where a scalar and an empty container count one. -/
def Value.depth : Value → ℕ
  | .arr xs => depthArr xs + 1
  | .obj ms => depthObj ms + 1
  | _ => 1

def depthArr : List Value → ℕ
  | [] => 0
  | x :: xs => max x.depth (depthArr xs)

def depthObj : Members → ℕ
  | [] => 0
  | (_, v) :: ms => max v.depth (depthObj ms)

end

theorem depthArr_le {n : ℕ} (xs : List Value) : depthArr xs ≤ n ↔ ∀ x ∈ xs, x.depth ≤ n := by
  induction xs with
  | nil => simp [depthArr]
  | cons x xs ih => simp [depthArr, ih]

theorem depthObj_le {n : ℕ} (ms : Members) : depthObj ms ≤ n ↔ ∀ m ∈ ms, m.2.depth ≤ n := by
  induction ms with
  | nil => simp [depthObj]
  | cons m ms ih => simp [depthObj, ih]

namespace Value

theorem depth_arr_le {n : ℕ} (xs : List Value) :
    (Value.arr xs).depth ≤ n + 1 ↔ ∀ x ∈ xs, x.depth ≤ n := by
  simp [depth, depthArr_le]

theorem depth_obj_le {n : ℕ} (ms : Members) :
    (Value.obj ms).depth ≤ n + 1 ↔ ∀ m ∈ ms, m.2.depth ≤ n := by
  simp [depth, depthObj_le]

theorem depth_pos (v : Value) : 1 ≤ v.depth := by
  cases v <;> simp [depth]

end Value

theorem Record.depth_set_le {n : ℕ} {k : Bytes} {x : Value} {r : Record}
    (hr : r.toValue.depth ≤ n + 1) (hx : x.depth ≤ n) : (r.set k x).toValue.depth ≤ n + 1 := by
  cases r with
  | null => simp [set, toValue, Value.depth_obj_le, hx]
  | obj ms =>
    rw [toValue, Value.depth_obj_le] at hr
    rw [set, toValue, Value.depth_obj_le]
    intro m hm
    rcases Assoc.mem_of_mem_set hm with rfl | hm
    · exact hx
    · exact hr m hm

theorem Record.depth_setAll_le {n : ℕ} {ms : Members} {r : Record}
    (hr : r.toValue.depth ≤ n + 1) (hms : ∀ m ∈ ms, m.2.depth ≤ n) :
    (r.setAll ms).toValue.depth ≤ n + 1 := by
  induction ms generalizing r with
  | nil => exact hr
  | cons m ms ih =>
    obtain ⟨hm, hms⟩ := List.forall_mem_cons.mp hms
    exact ih (depth_set_le hr hm) hms

/-- An assigned member is nested one level below the object. -/
theorem Record.depth_lt_of_set {n : ℕ} {k : Bytes} {x : Value} {r : Record}
    (h : (r.set k x).toValue.depth ≤ n + 1) : x.depth ≤ n := by
  cases r with
  | null => simpa [set, toValue, Value.depth_obj_le] using h
  | obj ms =>
    rw [set, toValue, Value.depth_obj_le] at h
    exact h _ (Assoc.mem_set_self k x ms)

/-! ### Properties of every node -/

mutual

/-- `p` holds of the value and of everything nested in it. -/
def Value.Every (p : Value → Prop) : Value → Prop
  | .arr xs => p (.arr xs) ∧ EveryArr p xs
  | .obj ms => p (.obj ms) ∧ EveryObj p ms
  | v => p v

def EveryArr (p : Value → Prop) : List Value → Prop
  | [] => True
  | x :: xs => x.Every p ∧ EveryArr p xs

def EveryObj (p : Value → Prop) : Members → Prop
  | [] => True
  | (_, v) :: ms => v.Every p ∧ EveryObj p ms

end

variable {p : Value → Prop}

theorem everyArr_iff (xs : List Value) : EveryArr p xs ↔ ∀ x ∈ xs, x.Every p := by
  induction xs with
  | nil => simp [EveryArr]
  | cons x xs ih => simp [EveryArr, ih]

theorem everyObj_iff (ms : Members) : EveryObj p ms ↔ ∀ m ∈ ms, m.2.Every p := by
  induction ms with
  | nil => simp [EveryObj]
  | cons m ms ih => simp [EveryObj, ih]

namespace Value

theorem every_arr (xs : List Value) :
    (Value.arr xs).Every p ↔ p (.arr xs) ∧ ∀ x ∈ xs, x.Every p := by
  simp [Every, everyArr_iff]

theorem every_obj (ms : Members) :
    (Value.obj ms).Every p ↔ p (.obj ms) ∧ ∀ m ∈ ms, m.2.Every p := by
  simp [Every, everyObj_iff]

/-- Members in key order, each key once. -/
def KeysSorted : Value → Prop
  | .obj ms => Assoc.Sorted ms
  | _ => True

/-- An integer of the signed or the unsigned 64-bit type. -/
def InRange : Value → Prop
  | .int n => -2 ^ 63 ≤ n ∧ n < 2 ^ 64
  | _ => True

def NotNaN : Value → Prop
  | .real d => d.isNaN = false
  | _ => True

/-- The strings a node carries itself. -/
def ownStrings : Value → List Bytes
  | .str s => [s]
  | .obj ms => ms.map Prod.fst
  | _ => []

/-- A value as `std::map` and the number types keep it. -/
def Canonical : Value → Prop := Every fun v => v.KeysSorted ∧ v.InRange

/-- Every string and every member name of the value satisfies `q`. -/
def Strings (q : Bytes → Bool) : Value → Prop := Every fun v => ∀ s ∈ v.ownStrings, q s = true

end Value

theorem Record.every_set {k : Bytes} {x : Value} {r : Record}
    (hp : ∀ ms, p (.obj ms) → p (.obj (Assoc.set k x ms))) (hnull : p (.obj [(k, x)]))
    (hr : r.toValue.Every p) (hx : x.Every p) : (r.set k x).toValue.Every p := by
  cases r with
  | null => simp [set, toValue, Value.every_obj, hnull, hx]
  | obj ms =>
    rw [toValue, Value.every_obj] at hr
    rw [set, toValue, Value.every_obj]
    refine ⟨hp ms hr.1, fun m hm => ?_⟩
    rcases Assoc.mem_of_mem_set hm with rfl | hm
    · exact hx
    · exact hr.2 m hm

theorem Record.canonical_set {k : Bytes} {x : Value} {r : Record} (hr : r.toValue.Canonical)
    (hx : x.Canonical) : (r.set k x).toValue.Canonical :=
  every_set (fun _ h => ⟨Assoc.sorted_set h.1 k x, trivial⟩)
    ⟨List.pairwise_singleton _ _, trivial⟩ hr hx

theorem Record.strings_set {q : Bytes → Bool} {k : Bytes} {x : Value} {r : Record}
    (hk : q k = true) (hr : r.toValue.Strings q) (hx : x.Strings q) :
    (r.set k x).toValue.Strings q := by
  refine every_set (fun ms h s hs => ?_) (by simp [Value.ownStrings, hk]) hr hx
  simp only [Value.ownStrings, List.mem_map] at hs h
  obtain ⟨e, he, rfl⟩ := hs
  rcases Assoc.mem_of_mem_set he with rfl | he
  · exact hk
  · exact h _ ⟨e, he, rfl⟩

theorem Record.canonical_setAll {ms : Members} {r : Record} (hr : r.toValue.Canonical)
    (hms : ∀ m ∈ ms, m.2.Canonical) : (r.setAll ms).toValue.Canonical := by
  induction ms generalizing r with
  | nil => exact hr
  | cons m ms ih =>
    obtain ⟨hm, hms⟩ := List.forall_mem_cons.mp hms
    exact ih (canonical_set hr hm) hms

theorem Record.strings_setAll {q : Bytes → Bool} {ms : Members} {r : Record}
    (hr : r.toValue.Strings q) (hms : ∀ m ∈ ms, q m.1 = true ∧ m.2.Strings q) :
    (r.setAll ms).toValue.Strings q := by
  induction ms generalizing r with
  | nil => exact hr
  | cons m ms ih =>
    obtain ⟨hm, hms⟩ := List.forall_mem_cons.mp hms
    exact ih (strings_set hm.1 hr hm.2) hms

theorem Record.keysSorted_setAll {ms : Members} {r : Record} (hr : r.toValue.KeysSorted) :
    (r.setAll ms).toValue.KeysSorted := by
  induction ms generalizing r with
  | nil => exact hr
  | cons m ms ih =>
    refine ih ?_
    cases r with
    | null => exact List.pairwise_singleton _ _
    | obj ms => exact Assoc.sorted_set hr m.1 m.2

/-- Members may be assigned in any order. -/
theorem Record.set_comm {r : Record} (hr : r.toValue.KeysSorted) {j k : Bytes} (hjk : j ≠ k)
    (x y : Value) : (r.set k y).set j x = (r.set j x).set k y := by
  cases r with
  | null => exact congrArg Record.obj (Assoc.set_comm hjk x y List.Pairwise.nil)
  | obj ms => exact congrArg Record.obj (Assoc.set_comm hjk x y hr)

theorem Record.notNaN_set {k : Bytes} {x : Value} {r : Record} (hr : r.toValue.Every Value.NotNaN)
    (hx : x.Every Value.NotNaN) : (r.set k x).toValue.Every Value.NotNaN :=
  every_set (fun _ _ => trivial) trivial hr hx

theorem Record.notNaN_setAll {ms : Members} {r : Record} (hr : r.toValue.Every Value.NotNaN)
    (hms : ∀ m ∈ ms, m.2.Every Value.NotNaN) : (r.setAll ms).toValue.Every Value.NotNaN := by
  induction ms generalizing r with
  | nil => exact hr
  | cons m ms ih =>
    obtain ⟨hm, hms⟩ := List.forall_mem_cons.mp hms
    exact ih (notNaN_set hr hm) hms

namespace Value

theorem every_of_get? {k : Bytes} {v x : Value} (hv : v.Every p) (h : v.get? k = some x) :
    x.Every p := by
  cases v with
  | obj ms => exact ((every_obj ms).mp hv).2 _ (Assoc.mem_of_get? h)
  | _ => simp [get?] at h

theorem strings_arr {q : Bytes → Bool} (xs : List Value) :
    (Value.arr xs).Strings q ↔ ∀ x ∈ xs, x.Strings q := by
  simp [Strings, every_arr, ownStrings]

theorem strings_obj {q : Bytes → Bool} (ms : Members) :
    (Value.obj ms).Strings q ↔ ∀ m ∈ ms, q m.1 = true ∧ m.2.Strings q := by
  simp only [Strings, every_obj, ownStrings, List.mem_map]
  constructor
  · intro h m hm
    exact ⟨h.1 m.1 ⟨m, hm, rfl⟩, h.2 m hm⟩
  · intro h
    refine ⟨?_, fun m hm => (h m hm).2⟩
    rintro s ⟨m, hm, rfl⟩
    exact (h m hm).1

end Value

/-! ### Values that code builds -/

namespace Value

def ofUInt64 (n : UInt64) : Value := .int n.toNat

def ofUInt32 (n : UInt32) : Value := .int n.toNat

def ofInt64 (n : Int64) : Value := .int n.toInt

def ofInt32 (n : Int32) : Value := .int n.toInt

/-- A null value that the elements have been appended to, one by one. -/
def appended : List Value → Value
  | [] => .null
  | x :: xs => .arr (x :: xs)

theorem canonical_null : Value.null.Canonical := ⟨trivial, trivial⟩

theorem canonical_str (s : Bytes) : (Value.str s).Canonical := ⟨trivial, trivial⟩

theorem canonical_bool (b : Bool) : (Value.bool b).Canonical := ⟨trivial, trivial⟩

theorem canonical_real (d : Double) : (Value.real d).Canonical := ⟨trivial, trivial⟩

theorem canonical_int {n : ℤ} (h : -2 ^ 63 ≤ n ∧ n < 2 ^ 64) : (Value.int n).Canonical := ⟨trivial, h⟩

theorem canonical_arr {xs : List Value} (h : ∀ x ∈ xs, x.Canonical) : (Value.arr xs).Canonical :=
  (every_arr xs).mpr ⟨⟨trivial, trivial⟩, h⟩

theorem canonical_ofUInt64 (n : UInt64) : (ofUInt64 n).Canonical := by
  have := n.toNat_lt
  exact canonical_int (by omega)

theorem canonical_ofUInt32 (n : UInt32) : (ofUInt32 n).Canonical := by
  have := n.toNat_lt
  exact canonical_int (by omega)

theorem canonical_ofInt64 (n : Int64) : (ofInt64 n).Canonical := by
  have := n.le_toInt
  have := n.toInt_lt
  exact canonical_int (by omega)

theorem canonical_ofInt32 (n : Int32) : (ofInt32 n).Canonical := by
  have := n.le_toInt
  have := n.toInt_lt
  exact canonical_int (by omega)

theorem canonical_appended {xs : List Value} (h : ∀ x ∈ xs, x.Canonical) :
    (appended xs).Canonical := by
  cases xs with
  | nil => exact canonical_null
  | cons x xs => exact canonical_arr h

theorem depth_appended_le {n : ℕ} {xs : List Value} (h : ∀ x ∈ xs, x.depth ≤ n) :
    (appended xs).depth ≤ n + 1 := by
  cases xs with
  | nil => simp [appended, depth]
  | cons x xs => exact (depth_arr_le _).mpr h

end Value

/-! ### What a text keeps of a value -/

mutual

/-- A text has no NaN: null is printed in its place. -/
def Value.printed : Value → Value
  | .real d => if d.isNaN then .null else .real d
  | .arr xs => .arr (printedArr xs)
  | .obj ms => .obj (printedObj ms)
  | .null => .null
  | .bool b => .bool b
  | .int n => .int n
  | .str s => .str s

def printedArr : List Value → List Value
  | [] => []
  | x :: xs => x.printed :: printedArr xs

def printedObj : Members → Members
  | [] => []
  | (k, v) :: ms => (k, v.printed) :: printedObj ms

end

mutual

/-- Equal names in one object denote one member: the last of them. -/
def Value.resolve : Value → Value
  | .arr xs => .arr (resolveArr xs)
  | .obj ms => .obj (resolveObj [] ms)
  | .null => .null
  | .bool b => .bool b
  | .int n => .int n
  | .real d => .real d
  | .str s => .str s

def resolveArr : List Value → List Value
  | [] => []
  | x :: xs => x.resolve :: resolveArr xs

def resolveObj (acc : Members) : Members → Members
  | [] => acc
  | (k, v) :: ms => resolveObj (Assoc.set k v.resolve acc) ms

end

theorem printedArr_eq_map (xs : List Value) : printedArr xs = xs.map Value.printed := by
  induction xs with
  | nil => rfl
  | cons x xs ih => rw [printedArr, ih, List.map_cons]

theorem printedObj_eq_map (ms : Members) :
    printedObj ms = ms.map fun m => (m.1, m.2.printed) := by
  induction ms with
  | nil => rfl
  | cons m ms ih =>
    obtain ⟨k, v⟩ := m
    rw [printedObj, ih, List.map_cons]

theorem resolveArr_eq_map (xs : List Value) : resolveArr xs = xs.map Value.resolve := by
  induction xs with
  | nil => rfl
  | cons x xs ih => rw [resolveArr, ih, List.map_cons]

theorem mem_resolveObj {ms acc : Members} {e : Bytes × Value} (h : e ∈ resolveObj acc ms) :
    e ∈ acc ∨ ∃ m ∈ ms, e = (m.1, m.2.resolve) := by
  induction ms generalizing acc with
  | nil => exact .inl h
  | cons m ms ih =>
    obtain ⟨k, v⟩ := m
    rcases ih h with h | ⟨m, hm, rfl⟩
    · rcases Assoc.mem_of_mem_set h with rfl | h
      · exact .inr ⟨(k, v), List.mem_cons_self, rfl⟩
      · exact .inl h
    · exact .inr ⟨m, List.mem_cons_of_mem _ hm, rfl⟩

theorem sorted_resolveObj (ms : Members) {acc : Members} (h : Assoc.Sorted acc) :
    Assoc.Sorted (resolveObj acc ms) := by
  induction ms generalizing acc with
  | nil => exact h
  | cons m ms ih => exact ih (Assoc.sorted_set h m.1 m.2.resolve)

/-- Members in key order are resolved where they stand. -/
theorem resolveObj_eq_append {ms acc : Members} (h : Assoc.Sorted (acc ++ ms)) :
    resolveObj acc ms = acc ++ ms.map fun m => (m.1, m.2.resolve) := by
  induction ms generalizing acc with
  | nil => simp [resolveObj]
  | cons m ms ih =>
    obtain ⟨k, v⟩ := m
    obtain ⟨hacc, hms, hlt⟩ := List.pairwise_append.mp h
    obtain ⟨hk, hms⟩ := List.pairwise_cons.mp hms
    have hset : Assoc.set k v.resolve acc = acc ++ [(k, v.resolve)] :=
      Assoc.set_eq_append (fun e he => hlt e he (k, v) List.mem_cons_self) _
    have hsorted : Assoc.Sorted ((acc ++ [(k, v.resolve)]) ++ ms) := by
      rw [List.append_assoc, List.singleton_append]
      refine List.pairwise_append.mpr ⟨hacc, List.pairwise_cons.mpr ⟨hk, hms⟩, ?_⟩
      intro e he f hf
      rcases List.mem_cons.mp hf with rfl | hf
      · exact hlt e he (k, v) List.mem_cons_self
      · exact hlt e he f (List.mem_cons_of_mem _ hf)
    rw [resolveObj, hset, ih hsorted]
    simp

namespace Value

theorem depth_printed (v : Value) : v.printed.depth = v.depth := by
  induction v with
  | real d =>
    rw [printed]
    split_ifs <;> rfl
  | arr xs ih =>
    have h : depthArr (printedArr xs) = depthArr xs := by
      induction xs with
      | nil => rfl
      | cons x xs ihx =>
        rw [List.forall_mem_cons] at ih
        simp only [printedArr, depthArr, ih.1, ihx ih.2]
    simp only [printed, depth, h]
  | obj ms ih =>
    have h : depthObj (printedObj ms) = depthObj ms := by
      induction ms with
      | nil => rfl
      | cons m ms ihm =>
        obtain ⟨k, v⟩ := m
        rw [List.forall_mem_cons] at ih
        simp only [printedObj, depthObj, ih.1, ihm ih.2]
    simp only [printed, depth, h]
  | _ => rfl

/-- Resolving equal names only drops members. -/
theorem depth_resolve_le (v : Value) : v.resolve.depth ≤ v.depth := by
  induction v with
  | arr xs ih =>
    rw [resolve, resolveArr_eq_map]
    refine (depth_arr_le _).mpr (List.forall_mem_map.mpr fun x hx => ?_)
    exact (ih x hx).trans ((depthArr_le xs).mp (Nat.le_refl _) x hx)
  | obj ms ih =>
    rw [resolve]
    refine (depth_obj_le _).mpr fun e he => ?_
    rcases mem_resolveObj he with he | ⟨m, hm, rfl⟩
    · simp at he
    · exact (ih m hm).trans ((depthObj_le ms).mp (Nat.le_refl _) m hm)
  | _ => exact Nat.le_refl _

theorem printed_eq_self {v : Value} (h : v.Every NotNaN) : v.printed = v := by
  induction v with
  | real d =>
    have hd : d.isNaN = false := h
    simp [printed, hd]
  | arr xs ih =>
    have hx := ((every_arr xs).mp h).2
    rw [printed, printedArr_eq_map, List.map_congr_left fun x hx' => ih x hx' (hx x hx'),
      List.map_id']
  | obj ms ih =>
    have hm := ((every_obj ms).mp h).2
    have hid : ∀ m ∈ ms, (m.1, m.2.printed) = id m := fun m hm' => by rw [ih m hm' (hm m hm'), id]
    rw [printed, printedObj_eq_map, List.map_congr_left hid, List.map_id]
  | _ => rfl

theorem canonical_printed {v : Value} (h : v.Canonical) : v.printed.Canonical := by
  induction v with
  | real d =>
    rw [printed]
    split_ifs <;> exact ⟨trivial, trivial⟩
  | arr xs ih =>
    have hx := ((every_arr xs).mp h).2
    rw [printed, printedArr_eq_map, Canonical, every_arr]
    refine ⟨⟨trivial, trivial⟩, List.forall_mem_map.mpr fun x hx' => ih x hx' (hx x hx')⟩
  | obj ms ih =>
    obtain ⟨⟨hs, -⟩, hm⟩ := (every_obj ms).mp h
    rw [printed, printedObj_eq_map, Canonical, every_obj]
    refine ⟨⟨List.pairwise_map.mpr hs, trivial⟩, List.forall_mem_map.mpr fun m hm' => ?_⟩
    exact ih m hm' (hm m hm')
  | _ => exact h

theorem resolve_eq_self {v : Value} (h : v.Canonical) : v.resolve = v := by
  induction v with
  | arr xs ih =>
    have hx := ((every_arr xs).mp h).2
    rw [resolve, resolveArr_eq_map, List.map_congr_left fun x hx' => ih x hx' (hx x hx'),
      List.map_id']
  | obj ms ih =>
    obtain ⟨⟨hs, -⟩, hm⟩ := (every_obj ms).mp h
    have happend : resolveObj [] ms = [] ++ ms.map fun m => (m.1, m.2.resolve) :=
      resolveObj_eq_append hs
    have hid : ∀ m ∈ ms, (m.1, m.2.resolve) = id m := fun m hm' => by rw [ih m hm' (hm m hm'), id]
    rw [resolve, happend, List.nil_append, List.map_congr_left hid, List.map_id]
  | _ => rfl

theorem strings_resolve {q : Bytes → Bool} {v : Value} (h : v.Strings q) : v.resolve.Strings q := by
  induction v with
  | arr xs ih =>
    rw [strings_arr] at h
    rw [resolve, resolveArr_eq_map, strings_arr, List.forall_mem_map]
    exact fun x hx => ih x hx (h x hx)
  | obj ms ih =>
    rw [strings_obj] at h
    rw [resolve, strings_obj]
    intro e he
    rcases mem_resolveObj he with he | ⟨m, hm, rfl⟩
    · simp at he
    · exact ⟨(h m hm).1, ih m hm (h m hm).2⟩
  | _ => exact h

/-- Resolving puts the members in key order and leaves the numbers as they are. -/
theorem canonical_resolve {v : Value} (h : v.Every fun u => u.InRange ∧ u.NotNaN) :
    v.resolve.Canonical ∧ v.resolve.Every NotNaN := by
  induction v with
  | arr xs ih =>
    have hx := ((every_arr xs).mp h).2
    rw [resolve, resolveArr_eq_map, Canonical, every_arr, every_arr]
    exact ⟨⟨⟨trivial, trivial⟩, List.forall_mem_map.mpr fun x hx' => (ih x hx' (hx x hx')).1⟩,
      trivial, List.forall_mem_map.mpr fun x hx' => (ih x hx' (hx x hx')).2⟩
  | obj ms ih =>
    have hm := ((every_obj ms).mp h).2
    have hmem : ∀ e ∈ resolveObj [] ms, e.2.Canonical ∧ e.2.Every NotNaN := by
      intro e he
      rcases mem_resolveObj he with he | ⟨m, hm', rfl⟩
      · simp at he
      · exact ih m hm' (hm m hm')
    rw [resolve, Canonical, every_obj, every_obj]
    exact ⟨⟨⟨sorted_resolveObj ms List.Pairwise.nil, trivial⟩, fun e he => (hmem e he).1⟩,
      trivial, fun e he => (hmem e he).2⟩
  | int n => exact ⟨⟨trivial, h.1⟩, trivial⟩
  | real d => exact ⟨⟨trivial, trivial⟩, h.2⟩
  | _ => exact ⟨⟨trivial, trivial⟩, trivial⟩

end Value

end MdtDialoutCollector.Json

import MdtDialoutCollector.DataManipulation.Juniper
import MdtDialoutCollector.External.Reference
import MdtDialoutCollector.Text.Search
import Mathlib.Data.List.Forall2

/-! The node names of a Juniper path. A name lists the keys of its element in the order in
which the key map is iterated, which protobuf leaves open, so it is a function of the map
only where the keys read the same in every order. -/

namespace MdtDialoutCollector.DataManipulation

open External Json Proto.Gnmi Text

/-- What one key adds to a node name: `[k=v]`. -/
def keyText (e : Bytes × Bytes) : Bytes := lit "[" ++ e.1 ++ lit "=" ++ e.2 ++ lit "]"

theorem nodeName_eq (elem : PathElem) :
    nodeName elem = elem.key.foldl (fun s e => s ++ keyText e) elem.name := by
  simp only [nodeName, keyText, List.append_assoc]

/-- The element with its key map iterated in another order. -/
def SameElem (elem elem' : PathElem) : Prop :=
  elem.name = elem'.name ∧ elem.key.Perm elem'.key

def SameEntry (path path' : List PathElem) : Prop := List.Forall₂ SameElem path path'

/-- The updates with their key maps iterated in other orders. -/
def Reordered (us us' : List Update) : Prop :=
  List.Forall₂ (fun u u' => u.val = u'.val ∧ SameEntry u.path u'.path) us us'

/-- The metrics are the same for any two iteration orders, and updates under one list entry
are under one node. -/
def OrderFree (J : JsonCpp) (us : List Update) : Prop :=
  ∀ us₁ us₂, Reordered us us₁ → Reordered us us₂ →
    metricsLoop J us₁ (.obj []) = metricsLoop J us₂ (.obj []) ∧
    ∀ u₁ ∈ us₁, ∀ u₂ ∈ us₂, ∀ entry₁ entry₂, entry₁ <+: u₁.path → entry₂ <+: u₂.path →
      SameEntry entry₁ entry₂ → entry₁.map nodeName = entry₂.map nodeName

/-- Any two keys read the same in both orders. -/
def KeysCommute (elem : PathElem) : Prop :=
  ∀ e ∈ elem.key, ∀ f ∈ elem.key, keyText e ++ keyText f = keyText f ++ keyText e

theorem KeysCommute.same {elem elem' : PathElem} (h : KeysCommute elem)
    (hsame : SameElem elem elem') : KeysCommute elem' := fun e he f hf =>
  h e (hsame.2.mem_iff.mpr he) f (hsame.2.mem_iff.mpr hf)

theorem KeysCommute.nodeName_eq {elem elem' : PathElem} (h : KeysCommute elem)
    (hsame : SameElem elem elem') : nodeName elem = nodeName elem' := by
  obtain ⟨hname, hkey⟩ := hsame
  rw [DataManipulation.nodeName_eq, DataManipulation.nodeName_eq, ← hname]
  refine hkey.foldl_eq' (fun e he f hf s => ?_) elem.name
  rw [List.append_assoc, h e he f hf, List.append_assoc]

theorem nodeName_flatten (elem : PathElem) :
    nodeName elem = elem.name ++ (elem.key.map keyText).flatten := by
  rw [nodeName_eq, List.foldl_append_eq_append]

/-- Two keys in front of the others, in either order, give one name only where they commute. -/
theorem keyText_comm_of_nodeName_eq (elem elem' : PathElem) {e f : Bytes × Bytes}
    {rest : List (Bytes × Bytes)} (hkey : elem.key = e :: f :: rest)
    (hkey' : elem'.key = f :: e :: rest) (hname : elem.name = elem'.name)
    (h : nodeName elem = nodeName elem') : keyText e ++ keyText f = keyText f ++ keyText e := by
  rw [nodeName_flatten, nodeName_flatten, hkey, hkey', hname] at h
  simp only [List.map_cons, List.flatten_cons, ← List.append_assoc] at h
  rw [List.append_left_inj] at h
  simpa only [List.append_assoc, List.append_right_inj] using h

/-! ### Reordering the key maps -/

/-- A list with two of its members in front. -/
theorem perm_cons_cons {α : Type*} [DecidableEq α] {l : List α} {x y : α} (hx : x ∈ l) (hy : y ∈ l)
    (hxy : x ≠ y) : l.Perm (x :: y :: (l.erase x).erase y) :=
  (List.perm_cons_erase hx).trans
    ((List.perm_cons_erase ((List.mem_erase_of_ne hxy.symm).mpr hy)).cons x)

/-- The element with its key map iterated in the given order. -/
def iterated (elem : PathElem) (key : List (Bytes × Bytes)) (h : elem.key.Perm key) :
    PathElem where
  name := elem.name
  key := key
  nodup := (h.map Prod.fst).nodup_iff.mp elem.nodup

/-- Every element is read in an order of its own. -/
def iterateAll (order : PathElem → PathElem) (us : List Update) : List Update :=
  us.map fun u => { u with path := u.path.map order }

theorem sameEntry_map {order : PathElem → PathElem} (h : ∀ elem, SameElem elem (order elem))
    (path : List PathElem) : SameEntry path (path.map order) :=
  List.forall₂_map_right_iff.mpr (List.forall₂_same.mpr fun elem _ => h elem)

theorem reordered_iterateAll {order : PathElem → PathElem} (h : ∀ elem, SameElem elem (order elem))
    (us : List Update) : Reordered us (iterateAll order us) :=
  List.forall₂_map_right_iff.mpr
    (List.forall₂_same.mpr fun u _ => ⟨rfl, sameEntry_map h u.path⟩)

/-- One element is iterated in the given order, and the others as before. -/
def reorderAt (elem : PathElem) (key : List (Bytes × Bytes)) (h : elem.key.Perm key)
    (x : PathElem) : PathElem :=
  if x = elem then iterated elem key h else x

theorem sameElem_reorderAt {elem : PathElem} {key : List (Bytes × Bytes)} (h : elem.key.Perm key)
    (x : PathElem) : SameElem x (reorderAt elem key h x) := by
  unfold reorderAt
  split_ifs with hx
  · subst hx
    exact ⟨rfl, h⟩
  · exact ⟨rfl, List.Perm.refl _⟩

/-- An element that two updates share has one name in all its orders. -/
theorem OrderFree.nodeName_eq {J : JsonCpp} {us : List Update} (h : OrderFree J us) {u : Update}
    (hu : u ∈ us) {elem : PathElem} (helem : elem ∈ u.path) {key key' : List (Bytes × Bytes)}
    (hkey : elem.key.Perm key) (hkey' : elem.key.Perm key') :
    nodeName (iterated elem key hkey) = nodeName (iterated elem key' hkey') := by
  have hsame := sameElem_reorderAt hkey
  have hsame' := sameElem_reorderAt hkey'
  obtain ⟨before, after, hpath⟩ := List.append_of_mem helem
  have hentry : before ++ [elem] <+: u.path :=
    ⟨after, (List.append_cons before elem after).symm.trans hpath.symm⟩
  have hsameEntry : SameEntry ((before ++ [elem]).map (reorderAt elem key hkey))
      ((before ++ [elem]).map (reorderAt elem key' hkey')) := by
    refine List.forall₂_map_left_iff.mpr (List.forall₂_map_right_iff.mpr
      (List.forall₂_same.mpr fun x _ => ?_))
    exact ⟨(hsame x).1.symm.trans (hsame' x).1, (hsame x).2.symm.trans (hsame' x).2⟩
  have hnames := (h _ _ (reordered_iterateAll hsame us) (reordered_iterateAll hsame' us)).2
    _ (List.mem_map_of_mem hu) _ (List.mem_map_of_mem hu) _ _ (hentry.map _) (hentry.map _)
    hsameEntry
  rw [List.map_map, List.map_map, List.map_inj_left] at hnames
  have hname := hnames elem (List.mem_append_right before List.mem_cons_self)
  simpa only [Function.comp_apply, reorderAt, if_true] using hname

theorem OrderFree.keysCommute {J : JsonCpp} {us : List Update} (h : OrderFree J us) {u : Update}
    (hu : u ∈ us) {elem : PathElem} (helem : elem ∈ u.path) : KeysCommute elem := by
  intro e he f hf
  by_cases hef : e = f
  · rw [hef]
  · have hkey := perm_cons_cons he hf hef
    have hkey' := hkey.trans (List.Perm.swap f e _)
    exact keyText_comm_of_nodeName_eq (iterated elem _ hkey) (iterated elem _ hkey') rfl rfl rfl
      (h.nodeName_eq hu helem hkey hkey')

/-! ### Where the order does not show -/

theorem map_nodeName_eq {path path' : List PathElem} (h : ∀ elem ∈ path, KeysCommute elem)
    (hsame : SameEntry path path') : path.map nodeName = path'.map nodeName := by
  induction hsame with
  | nil => rfl
  | cons helem _ ih =>
    obtain ⟨hcommute, hrest⟩ := List.forall_mem_cons.mp h
    rw [List.map_cons, List.map_cons, hcommute.nodeName_eq helem, ih hrest]

theorem keysCommute_of_sameEntry {path path' : List PathElem} (h : ∀ elem ∈ path, KeysCommute elem)
    (hsame : SameEntry path path') : ∀ elem ∈ path', KeysCommute elem := by
  induction hsame with
  | nil => exact h
  | cons helem _ ih =>
    obtain ⟨hcommute, hrest⟩ := List.forall_mem_cons.mp h
    exact List.forall_mem_cons.mpr ⟨hcommute.same helem, ih hrest⟩

def AllKeysCommute (us : List Update) : Prop := ∀ u ∈ us, ∀ elem ∈ u.path, KeysCommute elem

theorem metricsLoop_reordered {J : JsonCpp} {us us' : List Update} (h : AllKeysCommute us)
    (hsame : Reordered us us') (metrics : Value) :
    metricsLoop J us metrics = metricsLoop J us' metrics := by
  induction hsame generalizing metrics with
  | nil => rfl
  | cons hu _ ih =>
    obtain ⟨hcommute, hrest⟩ := List.forall_mem_cons.mp h
    rw [metricsLoop, metricsLoop, hu.1, map_nodeName_eq hcommute hu.2]
    simp only [ih hrest]

theorem keysCommute_of_reordered {us us' : List Update} (h : AllKeysCommute us)
    (hsame : Reordered us us') : AllKeysCommute us' := by
  induction hsame with
  | nil => exact h
  | cons hu _ ih =>
    obtain ⟨hcommute, hrest⟩ := List.forall_mem_cons.mp h
    exact List.forall_mem_cons.mpr ⟨keysCommute_of_sameEntry hcommute hu.2, ih hrest⟩

theorem order_free_iff (J : JsonCpp) (us : List Update) :
    OrderFree J us ↔ ∀ u ∈ us, ∀ elem ∈ u.path, KeysCommute elem := by
  refine ⟨fun h u hu elem helem => h.keysCommute hu helem, fun h us₁ us₂ h₁ h₂ => ⟨?_, ?_⟩⟩
  · rw [← metricsLoop_reordered h h₁, ← metricsLoop_reordered h h₂]
  · intro u₁ hu₁ u₂ _ entry₁ entry₂ hentry₁ _ hsame
    have hcommute := keysCommute_of_reordered h h₁ u₁ hu₁
    exact map_nodeName_eq (fun elem helem => hcommute elem (hentry₁.subset helem)) hsame

/-- Two keys whose names have no `=` never commute. -/
theorem keysCommute_iff_length_le_one {elem : PathElem} (h : ∀ e ∈ elem.key, 61 ∉ e.1) :
    KeysCommute elem ↔ elem.key.length ≤ 1 := by
  have hopen : ∀ e ∈ elem.key, 61 ∉ lit "[" ++ e.1 := fun e he hmem =>
    (List.mem_append.mp hmem).elim (by decide) (h e he)
  constructor
  · intro hcommute
    have hname : ∀ e ∈ elem.key, ∀ f ∈ elem.key, e.1 = f.1 := by
      intro e he f hf
      have heq : (lit "[" ++ e.1) ++ 61 :: (e.2 ++ lit "]" ++ keyText f) =
          (lit "[" ++ f.1) ++ 61 :: (f.2 ++ lit "]" ++ keyText e) := by
        have hcomm := hcommute e he f hf
        simpa [keyText, lit] using hcomm
      exact List.append_cancel_left (append_cons_inj (hopen e he) (hopen f hf) heq).1
    match hkey : elem.key, elem.nodup, hname with
    | [], _, _ => exact Nat.zero_le 1
    | [_], _, _ => exact Nat.le_refl 1
    | e :: f :: _, hnodup, hname =>
      have hef := hname e List.mem_cons_self f (List.mem_cons_of_mem e List.mem_cons_self)
      exact absurd hnodup (by simp [hef])
  · intro hlength e he f hf
    match hkey : elem.key, hlength, he, hf with
    | [_], _, he, hf => rw [List.mem_singleton.mp he, List.mem_singleton.mp hf]

/-- An element with two keys, as a BGP neighbour of a routing instance has them. -/
def neighbor : PathElem where
  name := lit "neighbor"
  key := [(lit "neighbor-address", lit "192.0.2.1"), (lit "vrf", lit "default")]

theorem neighbor_order_shows : ¬∀ us, OrderFree Reference.jsonCpp us := by
  intro h
  have hcommute : KeysCommute neighbor :=
    (h [⟨[neighbor], some (.intVal 1)⟩]).keysCommute List.mem_cons_self List.mem_cons_self
  have hlength := (keysCommute_iff_length_le_one (by decide)).mp hcommute
  exact absurd hlength (by decide)

end MdtDialoutCollector.DataManipulation

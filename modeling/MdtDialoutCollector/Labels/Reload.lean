import MdtDialoutCollector.Labels.Load
import Mathlib.Data.List.Induction

/-! What a reload leaves behind. The table a file stands for is read off its rows, the last
row of an address winning; the loader builds exactly that table from a well-formed CSV file,
and does not return from any other. -/

namespace MdtDialoutCollector.Labels

open Csv Text

structure LabelRow where
  ip : Bytes
  nid : Bytes
  pid : Bytes
  deriving DecidableEq

def LabelRow.labels (r : LabelRow) : List Bytes := [r.nid, r.pid]

/-- The row that decides the labels of an address. -/
def lastRow (rows : List LabelRow) (ip : Bytes) : Option LabelRow :=
  rows.reverse.find? fun r => r.ip = ip

/-- The map holds the table of these rows and nothing else. -/
def Tabulates (m : LabelMap) (rows : List LabelRow) : Prop :=
  ∀ ip, m.find ip = (lastRow rows ip).map LabelRow.labels

/-- Cells past the third are ignored. -/
def rowOf : Cells → Option LabelRow
  | ip :: nid :: pid :: _ => some ⟨ip, nid, pid⟩
  | _ => none

/-- The rows of a CSV file, or `none` where the file is malformed. -/
def csvTable (file : Option Bytes) : Option (List LabelRow) := do
  let text ← file
  (parseCsv 44 (skipMark text)).mapM rowOf

/-- The columns of a table. -/
def columnsOf (rows : List LabelRow) : Columns :=
  ⟨rows.map LabelRow.ip, rows.map LabelRow.nid, rows.map LabelRow.pid⟩

theorem columns_of_data (data : List Cells) :
    (do
      let ipaddrs ← data.mapM (·[0]?)
      let nid ← data.mapM (·[1]?)
      let pid ← data.mapM (·[2]?)
      return (⟨ipaddrs, nid, pid⟩ : Columns) : Option Columns) =
      (data.mapM rowOf).map columnsOf := by
  induction data with
  | nil => rfl
  | cons row data ih =>
    match row with
    | [] => simp [rowOf]
    | [_] => simp [rowOf]
    | [_, _] => simp [rowOf]
    | ip :: nid :: pid :: _ =>
      -- a full row adds one cell to each column and one row to the table
      simp only [List.mapM_cons, rowOf, List.getElem?_cons_zero, List.getElem?_cons_succ]
      generalize data.mapM (m := Option) (·[0]?) = ips at ih ⊢
      generalize data.mapM (m := Option) (·[1]?) = nids at ih ⊢
      generalize data.mapM (m := Option) (·[2]?) = pids at ih ⊢
      generalize data.mapM rowOf = rows at ih ⊢
      cases ips <;> cases nids <;> cases pids <;> cases rows <;> simp_all [columnsOf]

theorem csvColumns_eq (file : Option Bytes) : csvColumns file = (csvTable file).map columnsOf := by
  cases file with
  | none => rfl
  | some text => exact columns_of_data (parseCsv 44 (skipMark text))

/-! ### The loop that stores the labels -/

def storeRows (m : LabelMap) (rows : List LabelRow) : LabelMap :=
  rows.foldl (fun m r => m.insert r.ip r.nid r.pid) m

theorem storeRows_append (m : LabelMap) (rows : List LabelRow) (r : LabelRow) :
    storeRows m (rows ++ [r]) = (storeRows m rows).insert r.ip r.nid r.pid := by
  rw [storeRows, List.foldl_append]
  rfl

theorem lastRow_append (rows : List LabelRow) (r : LabelRow) (ip : Bytes) :
    lastRow (rows ++ [r]) ip = if r.ip = ip then some r else lastRow rows ip := by
  simp only [lastRow, List.reverse_append, List.reverse_singleton, List.singleton_append,
    List.find?_cons]
  by_cases h : r.ip = ip <;> simp [h]

theorem find_storeRows (m : LabelMap) (rows : List LabelRow) (ip : Bytes) :
    (storeRows m rows).find ip = ((lastRow rows ip).map LabelRow.labels).or (m.find ip) := by
  induction rows using List.reverseRecOn with
  | nil => rfl
  | append_singleton rows r ih =>
    rw [storeRows_append, LabelMap.find_insert, lastRow_append, ih]
    by_cases h : r.ip = ip
    · rw [if_pos h.symm, if_pos h]
      rfl
    · rw [if_neg fun e => h e.symm, if_neg h]

/-- On three full columns no index runs past the end. -/
theorem storeLabels_columnsOf (m : LabelMap) (rows : List LabelRow) (size : ℕ)
    (hsize : size ≤ rows.length) :
    storeLabels m (columnsOf rows) size = .running (storeRows m (rows.take size)) := by
  induction size with
  | zero => rfl
  | succ n ih =>
    have hn : n < rows.length := hsize
    have ih := ih hn.le
    rw [storeLabels] at ih ⊢
    rw [List.range_succ, List.foldlM_append, ih, Outcome.running_bind, List.foldlM_cons,
      List.take_add_one, List.getElem?_eq_getElem hn, Option.toList_some, storeRows_append]
    simp [columnsOf, hn]

/-! ### The row count as an `int` -/

theorem toNat_bmod_le (n m : ℕ) : (Int.bmod n m).toNat ≤ n := by
  have hmod : (n : ℤ) % m ≤ n := by
    rw [← Int.natCast_mod]
    exact_mod_cast Nat.mod_le n m
  rw [Int.bmod_eq_emod]
  split <;> omega

theorem toNat_bmod_of_lt {n m : ℕ} (h : n * 2 < m) : (Int.bmod n m).toNat = n := by
  rw [Int.bmod_eq_of_le_mul_two (by omega) (by omega), Int.toNat_natCast]

theorem intSize_le (n : ℕ) : intSize n ≤ n := toNat_bmod_le n _

theorem intSize_of_lt {n : ℕ} (h : n < 2 ^ 31) : intSize n = n := toNat_bmod_of_lt (by omega)

/-- The rows past the number an `int` counts change nothing. -/
def Counted (rows : List LabelRow) : Prop :=
  ∀ ip, lastRow (rows.take (intSize rows.length)) ip = lastRow rows ip

theorem counted_of_lt {rows : List LabelRow} (h : rows.length < 2 ^ 31) : Counted rows := by
  intro ip
  rw [intSize_of_lt h, List.take_length]

theorem tabulates_storeRows_iff (rows : List LabelRow) :
    Tabulates (storeRows .empty (rows.take (intSize rows.length))) rows ↔ Counted rows := by
  refine forall_congr' fun ip => ?_
  rw [find_storeRows, LabelMap.find_empty, Option.or_none]
  constructor
  · intro h
    -- the two rows have the address in common, so they are equal where their labels are
    have hip : ∀ (rs : List LabelRow) r, lastRow rs ip = some r → r.ip = ip := by
      intro rs r hr
      simpa using List.find?_some hr
    cases hl : lastRow (rows.take (intSize rows.length)) ip with
    | none =>
      rw [hl] at h
      exact (Option.map_eq_none_iff.mp h.symm).symm
    | some r =>
      rw [hl, Option.map_some, eq_comm, Option.map_eq_some_iff] at h
      obtain ⟨r', hr', hlabels⟩ := h
      rw [hr']
      have hr := (hip _ r hl).trans (hip _ r' hr').symm
      obtain ⟨ip₁, nid, pid⟩ := r
      obtain ⟨ip₂, nid', pid'⟩ := r'
      simp only [LabelRow.labels, List.cons.injEq, and_true] at hlabels hr
      rw [hr, hlabels.1, hlabels.2]
  · intro h
    rw [h]

/-! ### The reload -/

theorem loadLabelMap_eq (m : LabelMap) (file : Option Bytes) :
    loadLabelMap m file = match csvTable file with
      | none => .exited
      | some rows => .running (storeRows .empty (rows.take (intSize rows.length))) := by
  rw [loadLabelMap, csvColumns_eq]
  cases csvTable file with
  | none => rfl
  | some rows =>
    have hlen : (columnsOf rows).ipaddrs.length = rows.length := List.length_map _
    simp only [Option.map_some, hlen]
    exact storeLabels_columnsOf .empty rows _ (intSize_le _)

/-- No PTM file lets the daemon run on. -/
theorem loadLabelMapPreTagStyle_stops (m : LabelMap) (file : Option Bytes) (m' : LabelMap) :
    loadLabelMapPreTagStyle m file ≠ .running m' := by
  rw [loadLabelMapPreTagStyle]
  cases file with
  | none => exact fun h => by cases h
  | some text =>
    simp only [Document.read, Option.map_some, Document.removeRow_getRowCount]
    exact fun h => by cases h

/-- The table a reload is to install: the one its file stands for, where there is a file and
it is well formed. How a PTM file is read is a parameter. -/
def newTable (c : LabelSettings) (csv ptm : Option Bytes)
    (ptmTable : Option Bytes → Option (List LabelRow)) : Option (List LabelRow) :=
  if c.asMap then csvTable csv else if c.asMapPtm then ptmTable ptm else none

/-- The reload installs the whole new table, or leaves the map as it was; the daemon runs on
either way. -/
def AllOrNothing (c : LabelSettings) (csv ptm : Option Bytes)
    (ptmTable : Option Bytes → Option (List LabelRow)) (m : LabelMap) : Prop :=
  match newTable c csv ptm ptmTable with
  | some rows => ∃ m', reloadLabelMaps c csv ptm m = .running m' ∧ Tabulates m' rows
  | none => reloadLabelMaps c csv ptm m = .running m

/-- A reload is all or nothing only where it loads a well-formed CSV file, or nothing. -/
theorem reload_all_or_nothing_iff (c : LabelSettings) (csv ptm : Option Bytes)
    (ptmTable : Option Bytes → Option (List LabelRow)) (m : LabelMap) :
    AllOrNothing c csv ptm ptmTable m ↔
      c.asMapPtm = false ∧ (c.asMap = true → ∃ rows, csvTable csv = some rows ∧ Counted rows) := by
  obtain ⟨asMap, asMapPtm, hexclusive⟩ := c
  cases asMap with
  | false =>
    cases asMapPtm with
    | false => exact ⟨fun _ => ⟨rfl, fun h => by cases h⟩, fun _ => rfl⟩
    | true =>
      have hreload : reloadLabelMaps ⟨false, true, hexclusive⟩ csv ptm m =
          loadLabelMapPreTagStyle m ptm := rfl
      have htable : newTable ⟨false, true, hexclusive⟩ csv ptm ptmTable = ptmTable ptm := rfl
      refine ⟨fun h => ?_, fun h => by cases h.1⟩
      rw [AllOrNothing, hreload, htable] at h
      cases hrows : ptmTable ptm with
      | none =>
        rw [hrows] at h
        exact absurd h (loadLabelMapPreTagStyle_stops m ptm m)
      | some rows =>
        rw [hrows] at h
        obtain ⟨m', h, -⟩ := h
        exact absurd h (loadLabelMapPreTagStyle_stops m ptm m')
  | true =>
    cases asMapPtm with
    | true => exact absurd ⟨rfl, rfl⟩ hexclusive
    | false =>
      have hreload : reloadLabelMaps ⟨true, false, hexclusive⟩ csv ptm m = loadLabelMap m csv := by
        show (loadLabelMap m csv >>= Outcome.running) = _
        cases loadLabelMap m csv <;> rfl
      have htable : newTable ⟨true, false, hexclusive⟩ csv ptm ptmTable = csvTable csv := rfl
      rw [AllOrNothing, hreload, htable, loadLabelMap_eq]
      cases csvTable csv with
      | none => simp
      | some rows => simp [tabulates_storeRows_iff]

/-- The second line of the file has not been finished yet. -/
def halfEdited : Bytes := lit "1.1.1.1,daisy-router-01,Cisco-XR\n2.2.2.2,daisy-router-02\n"

/-- The daemon ends with the map cleared. -/
theorem half_edited_reload_exits :
    ¬∀ c csv ptm ptmTable m, AllOrNothing c csv ptm ptmTable m := by
  intro h
  have hmalformed : csvTable (some halfEdited) = none := by decide
  have hexit : loadLabelMap .empty (some halfEdited) = .exited := by
    rw [loadLabelMap_eq, hmalformed]
  have hkept := h ⟨true, false, by decide⟩ (some halfEdited) none (fun _ => none) .empty
  have htable : newTable ⟨true, false, by decide⟩ (some halfEdited) none (fun _ => none) = none :=
    hmalformed
  rw [AllOrNothing, htable] at hkept
  replace hkept : (loadLabelMap .empty (some halfEdited) >>= Outcome.running) = .running .empty :=
    hkept
  rw [hexit] at hkept
  cases hkept

end MdtDialoutCollector.Labels

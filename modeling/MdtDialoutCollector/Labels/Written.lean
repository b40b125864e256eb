import MdtDialoutCollector.Csv.Written
import MdtDialoutCollector.Labels.Reload

/-! The label map of a CSV file as it was written: for every address the labels of the last
line that starts with it. -/

namespace MdtDialoutCollector.Labels

open Csv Text

/-- The two labels on a line. -/
def lineLabels (row : Cells) : List Bytes := (row.drop 1).take 2

/-- The labels on the last line that starts with the address. -/
def lastLabels (rows : List Cells) (ip : Bytes) : Option (List Bytes) :=
  (rows.reverse.find? fun row => row.head? = some ip).map lineLabels

/-- An address, its two labels and anything else. -/
def Full (row : Cells) : Prop := 3 ≤ row.length

instance : DecidablePred Full := fun _ => inferInstanceAs (Decidable (_ ≤ _))

theorem Full.rowOf {row : Cells} (h : Full row) :
    ∃ r, rowOf row = some r ∧ row.head? = some r.ip ∧ lineLabels row = r.labels := by
  match row, h with
  | ip :: nid :: pid :: _, _ => exact ⟨⟨ip, nid, pid⟩, rfl, rfl, rfl⟩

theorem rowOf_of_not_full {row : Cells} (h : ¬Full row) : rowOf row = none := by
  match row with
  | [] | [_] | [_, _] => rfl
  | ip :: nid :: pid :: more => exact absurd (Nat.le_add_left 3 more.length) h

/-- A table has a row for each line, and there is none where a line is too short. -/
theorem mapM_rowOf (rows : List Cells) :
    rows.mapM rowOf = if ∀ row ∈ rows, Full row then some (rows.filterMap rowOf) else none := by
  induction rows with
  | nil => rfl
  | cons row rows ih =>
    rw [List.mapM_cons, ih]
    by_cases hrow : Full row
    · obtain ⟨r, hr, -, -⟩ := hrow.rowOf
      simp only [hr, List.filterMap_cons, List.forall_mem_cons, hrow, true_and]
      split <;> rfl
    · have hshort : ¬∀ row' ∈ row :: rows, Full row' := fun h => hrow (h row List.mem_cons_self)
      rw [rowOf_of_not_full hrow, if_neg hshort]
      rfl

/-- The first row of an address comes from the first line that starts with it. -/
theorem find?_filterMap_rowOf (rows : List Cells) (h : ∀ row ∈ rows, Full row) (ip : Bytes) :
    ((rows.filterMap rowOf).find? fun r => r.ip = ip).map LabelRow.labels =
      (rows.find? fun row => row.head? = some ip).map lineLabels := by
  induction rows with
  | nil => rfl
  | cons row rows ih =>
    obtain ⟨r, hr, hip, hlabels⟩ := (h row List.mem_cons_self).rowOf
    rw [List.filterMap_cons, hr, List.find?_cons, List.find?_cons, hip]
    by_cases h' : r.ip = ip
    · simp [h', hlabels]
    · simpa [h'] using ih fun row' hrow' => h row' (List.mem_cons_of_mem _ hrow')

theorem lastRow_filterMap_rowOf (rows : List Cells) (h : ∀ row ∈ rows, Full row) (ip : Bytes) :
    (lastRow (rows.filterMap rowOf) ip).map LabelRow.labels = lastLabels rows ip := by
  rw [lastRow, ← List.filterMap_reverse]
  exact find?_filterMap_rowOf rows.reverse (fun row hrow => h row (List.mem_reverse.mp hrow)) ip

theorem csvTable_text (f : File comma) :
    csvTable (some f.text) = if ∀ row ∈ f.rows, Full row then some (f.rows.filterMap rowOf) else none := by
  have hread : parseCsv 44 (skipMark f.text) = f.rows := by
    rw [skipMark_text]
    exact parseCsv_body f
  rw [← mapM_rowOf, ← hread]
  rfl

/-- Where every line is full the map holds, for every address, the labels on the last line
that starts with it, and nothing of what it held before; where one is not the daemon ends. -/
theorem loadLabelMap_text (m : LabelMap) (f : File comma) (hcount : f.rows.length < 2 ^ 31) :
    if ∀ row ∈ f.rows, Full row then
      ∃ m', loadLabelMap m (some f.text) = .running m' ∧ ∀ ip, m'.find ip = lastLabels f.rows ip
    else loadLabelMap m (some f.text) = .exited := by
  rw [loadLabelMap_eq, csvTable_text]
  by_cases h : ∀ row ∈ f.rows, Full row
  · simp only [if_pos h]
    have hrows : (f.rows.filterMap rowOf).length < 2 ^ 31 :=
      lt_of_le_of_lt (List.length_filterMap_le _ _) hcount
    refine ⟨_, rfl, fun ip => ?_⟩
    rw [← lastRow_filterMap_rowOf f.rows h]
    exact (tabulates_storeRows_iff _).mpr (counted_of_lt hrows) ip
  · simp only [if_neg h]

/-- The second line is about the same address; it has no line break and an empty label. -/
def relabelled : File comma where
  lines := [⟨[.plain (lit "1.1.1.1") (by decide) (by decide) (by decide),
    .quoted (lit "daisy,\"01\"") (by decide),
    .plain (lit "Cisco-XR") (by decide) (by decide) (by decide)], by simp, true⟩]
  last := [.plain (lit "1.1.1.1") (by decide) (by decide) (by decide),
    .plain (lit "daisy\"02\"") (by decide) (by decide) (by decide), .quoted [] (by decide)]
  visible := .inr (by decide)
  unmarked _ s h := by
    have hfirst := congrArg List.head? h
    rw [List.head?_cons] at hfirst
    exact absurd hfirst (by decide)

theorem loadLabelMap_text_relabelled : ∃ m', loadLabelMap .empty (some relabelled.text) = .running m' ∧
    m'.find (lit "1.1.1.1") = some [lit "daisy\"02\"", []] := by
  have h := loadLabelMap_text .empty relabelled (by decide)
  rw [if_pos (by decide)] at h
  obtain ⟨m', hload, hfind⟩ := h
  exact ⟨m', hload, (hfind _).trans (by decide)⟩

end MdtDialoutCollector.Labels

import MdtDialoutCollector.Data.Assoc
import MdtDialoutCollector.Text.Bytes

/-! The label map: an address to its labels. The loaders give every address a vector of
two labels, so a map carries that as a field. -/

namespace MdtDialoutCollector.Labels

open Data Text

abbrev Entries := List (Bytes × List Bytes)

structure LabelMap where
  entries : Entries
  pairs : ∀ e ∈ entries, e.2.length = 2 := by decide

namespace LabelMap

def empty : LabelMap := ⟨[], by simp⟩

/-- `label_map.find(ip)`. -/
def find (m : LabelMap) (ip : Bytes) : Option (List Bytes) := Assoc.get? ip m.entries

/-- `label_map[ip] = {nid, pid}`. -/
def insert (m : LabelMap) (ip nid pid : Bytes) : LabelMap where
  entries := Assoc.set ip [nid, pid] m.entries
  pairs e he := by
    rcases Assoc.mem_of_mem_set he with rfl | he
    · rfl
    · exact m.pairs e he

@[simp] theorem find_empty (ip : Bytes) : empty.find ip = none := rfl

theorem find_insert (m : LabelMap) (ip nid pid key : Bytes) :
    (m.insert ip nid pid).find key = if key = ip then some [nid, pid] else m.find key := by
  by_cases h : key = ip
  · subst h
    rw [if_pos rfl]
    exact Assoc.get?_set_self key [nid, pid] m.entries
  · rw [if_neg h]
    exact Assoc.get?_set_of_ne h [nid, pid] m.entries

theorem length_find {m : LabelMap} {ip : Bytes} {labels : List Bytes}
    (h : m.find ip = some labels) : labels.length = 2 :=
  m.pairs _ (Assoc.mem_of_get? h)

theorem find_eq_pair {m : LabelMap} {ip : Bytes} {labels : List Bytes}
    (h : m.find ip = some labels) : ∃ nid pid, labels = [nid, pid] := by
  match labels, length_find h with
  | [nid, pid], _ => exact ⟨nid, pid, rfl⟩

end LabelMap

end MdtDialoutCollector.Labels

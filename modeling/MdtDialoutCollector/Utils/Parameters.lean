import MdtDialoutCollector.Text.Bytes
import Mathlib.Logic.Function.Basic

/-! The parameter maps that the configuration is loaded into, with the two operations the
collector uses: `emplace`, which never overwrites, and `at`, which throws on a missing key. -/

namespace MdtDialoutCollector.Utils

open Text

/-- A `std::map<std::string, std::string>`. -/
@[ext] structure Params where
  find : String → Option Bytes

namespace Params

def empty : Params := ⟨fun _ => none⟩

def emplace (p : Params) (key : String) (value : Bytes) : Params :=
  match p.find key with
  | some _ => p
  | none => ⟨Function.update p.find key (some value)⟩

/-- `p.at(key)`. -/
def atKey (p : Params) (key : String) : Except StdException Bytes :=
  match p.find key with
  | some value => .ok value
  | none => .error .outOfRange

@[simp] theorem find_empty (key : String) : empty.find key = none := rfl

@[simp] theorem find_emplace (p : Params) (key j : String) (value : Bytes) :
    (p.emplace key value).find j =
      if j = key then some ((p.find key).getD value) else p.find j := by
  rw [emplace]
  cases h : p.find key with
  | some v =>
    by_cases hj : j = key
    · simp [hj, h]
    · simp [hj]
  | none => simp [Function.update_apply]

theorem atKey_of_find {p : Params} {key : String} {value : Bytes} (h : p.find key = some value) :
    p.atKey key = .ok value := by
  rw [atKey, h]

theorem atKey_eq_ok_iff {p : Params} {key : String} {value : Bytes} :
    p.atKey key = .ok value ↔ p.find key = some value := by
  rw [atKey]
  cases p.find key <;> simp

end Params

end MdtDialoutCollector.Utils

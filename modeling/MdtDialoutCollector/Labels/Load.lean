import MdtDialoutCollector.Csv.Document
import MdtDialoutCollector.Labels.Map
import Mathlib.Data.Int.Init

/-! The two label-map loaders and the reload that `SIGUSR1` asks for. A loader clears the
map before it reads its file, and ends the process where the file is malformed. -/

namespace MdtDialoutCollector.Labels

open Csv Text

/-- How a call ends: with a value, in `std::exit`, in an exception nobody catches, or with
undefined behaviour. -/
inductive Outcome (α : Type) where
  | running (a : α)
  | exited
  | terminated
  | undefined

namespace Outcome

variable {α β : Type}

def bind : Outcome α → (α → Outcome β) → Outcome β
  | .running a, f => f a
  | .exited, _ => .exited
  | .terminated, _ => .terminated
  | .undefined, _ => .undefined

instance : Monad Outcome where
  pure := .running
  bind := bind

@[simp] theorem running_bind (a : α) (f : α → Outcome β) : (Outcome.running a >>= f) = f a := rfl

instance : LawfulMonad Outcome := LawfulMonad.mk' Outcome
  (by intro α x; cases x <;> rfl)
  (by intro α β x f; rfl)
  (by intro α β γ x f g; cases x <;> rfl)

end Outcome

/-- How often `for (int i = 0; i < n; ++i)` runs for `int n = v.size()`. -/
def intSize (n : ℕ) : ℕ := (Int.bmod n (2 ^ 32)).toNat

/-! ### The rows of a map -/

structure Columns where
  ipaddrs : Cells := []
  nid : Cells := []
  pid : Cells := []

def LabelMap.clear (_ : LabelMap) : LabelMap := .empty

/-- The loop at the end of both loaders, whose `[i]` are not checked. -/
def storeLabels (m : LabelMap) (c : Columns) (size : ℕ) : Outcome LabelMap :=
  (List.range size).foldlM (fun m i =>
    match c.ipaddrs[i]?, c.nid[i]?, c.pid[i]? with
    | some ipaddr, some nid, some pid => .running (m.insert ipaddr nid pid)
    | _, _, _ => .undefined) m

/-! ### The CSV loader -/

/-- The columns read inside the `try`, where an exception anywhere is caught. -/
def csvColumns (file : Option Bytes) : Option Columns := do
  let doc ← Document.read 44 file
  let ipaddrs ← doc.getColumn 0
  let nid ← doc.getColumn 1
  let pid ← doc.getColumn 2
  return ⟨ipaddrs, nid, pid⟩

def loadLabelMap (m : LabelMap) (file : Option Bytes) : Outcome LabelMap :=
  let m := m.clear
  match csvColumns file with
  | none => .exited
  | some c => storeLabels m c (intSize c.ipaddrs.length)

/-! ### The PTM loader -/

def npos : ℕ := 2 ^ 64 - 1

/-- `s.substr(pos, n)` outside any `try`. -/
def substrAt (s : Bytes) (pos n : UInt32) : Outcome Bytes :=
  if s.length < pos.toNat then .terminated else .running (substr s pos.toNat n.toNat)

/-- The positions are `size_t` values kept in an `unsigned`, so that `npos + 1` is 0 and the
difference wraps around. -/
def addressOf (ipaddr : Bytes) : Outcome Bytes :=
  let start := UInt32.ofNat ((find ipaddr 61).getD npos + 1)
  let stop := UInt32.ofNat ((rfind ipaddr 47).getD npos)
  substrAt ipaddr start (stop - start)

def labelText (label : Bytes) : Outcome Bytes :=
  let start := UInt32.ofNat ((find label 61).getD npos + 1)
  let stop := UInt32.ofNat label.length
  substrAt label start (stop - start)

theorem find_lt {s : Bytes} {c : UInt8} {pos : ℕ} (h : find s c = some pos) : pos < s.length :=
  (List.findIdx?_eq_some_iff_getElem.mp h).1

/-- The token loop: the second of the tokens ended by a `%` goes to `nid`, and what is left
after the last `%` is returned. -/
def tokenLoop (label : Bytes) (counter : ℕ) (nid : Cells) : Cells × Bytes :=
  match h : find label 37 with
  | none => (nid, label)
  | some pos =>
    have _ := find_lt h
    tokenLoop (label.drop (pos + 1)) (counter + 1)
      (if counter = 1 then nid ++ [substr label 0 pos] else nid)
termination_by label.length
decreasing_by
  rw [List.length_drop]
  omega

def preTagRow (c : Columns) (label ipaddr : Bytes) : Outcome Columns := do
  let address ← addressOf ipaddr
  let text ← labelText label
  let tokens := tokenLoop text 0 c.nid
  return ⟨c.ipaddrs ++ [address], tokens.1, c.pid ++ [tokens.2]⟩

/-- `_labels.at(i)` and `_ipaddrs.at(i)` throw past the end of their columns. -/
def preTagColumns (labels ipaddrs : Cells) : Outcome Columns :=
  (List.range (intSize ipaddrs.length)).foldlM (fun c i =>
    match labels[i]?, ipaddrs[i]? with
    | some label, some ipaddr => preTagRow c label ipaddr
    | _, _ => .terminated) {}

def loadLabelMapPreTagStyle (m : LabelMap) (file : Option Bytes) : Outcome LabelMap :=
  let m := m.clear
  match Document.read 32 file with
  | none => .exited
  | some doc =>
    match doc.removeRow doc.getRowCount with
    | none => .undefined
    | some doc =>
      match doc.getColumn 0, doc.getColumn 1 with
      | some labels, some ipaddrs => do
        let c ← preTagColumns labels ipaddrs
        storeLabels m c (intSize ipaddrs.length)
      | _, _ => .exited

/-! ### The reload -/

/-- The two label-map settings; the configuration is refused where both are set. -/
structure LabelSettings where
  asMap : Bool
  asMapPtm : Bool
  exclusive : ¬(asMap = true ∧ asMapPtm = true) := by decide

def reloadLabelMaps (c : LabelSettings) (csv ptm : Option Bytes) (m : LabelMap) :
    Outcome LabelMap := do
  let m ← if c.asMap then loadLabelMap m csv else .running m
  if c.asMapPtm then loadLabelMapPreTagStyle m ptm else .running m

end MdtDialoutCollector.Labels

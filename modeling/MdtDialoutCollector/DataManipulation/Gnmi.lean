import MdtDialoutCollector.Json.Path
import MdtDialoutCollector.Proto.Messages

/-! What the two gNMI vendors share: the path of the notification's prefix as a JSON
array of named elements with their filters. -/

namespace MdtDialoutCollector.DataManipulation

open Json Proto.Gnmi Text

def filters (elem : PathElem) : Record :=
  Record.null.setAll (elem.key.map fun e => (e.1, .str e.2))

def pathElement (elem : PathElem) : Record :=
  (Record.null.set (lit "name") (.str elem.name)).setAll
    (if elem.key = [] then [] else [(lit "filters", (filters elem).toValue)])

def sensorPath (pathPrefix : List PathElem) : List Value :=
  pathPrefix.map fun elem => (pathElement elem).toValue

theorem depth_str_le {n : ℕ} (hn : 1 ≤ n) (s : Bytes) : (Value.str s).depth ≤ n := hn

theorem depth_null_le (n : ℕ) : Record.null.toValue.depth ≤ n + 1 := Nat.le_add_left 1 n

end MdtDialoutCollector.DataManipulation

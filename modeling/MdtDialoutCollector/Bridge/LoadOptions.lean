import MdtDialoutCollector.Utils.Loading

/-! `LoadOptions`, through which a host process loads the configuration. -/

namespace MdtDialoutCollector.Bridge

open Data External Text Utils

/-- The `int` of the source, as a truth value, and the globals the call leaves behind. -/
def loadOptions (H : Host) (zmqUri : Bytes) (g : Globals) : Check (Bool × Globals) := do
  let R ← logsHandler H g.registry
  useLogger R .multiLoggerBoot
  loadConfiguration H zmqUri { g with registry := R }

/-! ### What is published -/

variable {H : Host} {zmqUri : Bytes} {g g' : Globals} {b : Bool}

theorem loadStages_of_loadOptions (h : loadOptions H zmqUri g = .ok (b, g')) :
    ∃ R, loadStages H zmqUri stages { g with registry := R } = .ok (b, g') := by
  rw [loadOptions, bind_eq_ok] at h
  obtain ⟨R, -, h⟩ := h
  rw [bind_eq_ok] at h
  obtain ⟨-, -, h⟩ := h
  rw [loadConfiguration, bind_eq_ok] at h
  obtain ⟨-, -, h⟩ := h
  exact ⟨R, h⟩

/-- A call that returns has published the parameters of a first part of the stages, of all of
them where it returns one. -/
theorem loadOptions_published (h : loadOptions H zmqUri g = .ok (b, g')) :
    ∃ done rest, done ++ rest = stages ∧ (b = true ↔ rest = []) ∧
      (∀ s ∈ done, FromFile H zmqUri s (g'.params s)) ∧ ∀ s ∈ rest, g'.params s = g.params s := by
  obtain ⟨R, h⟩ := loadStages_of_loadOptions h
  have hstart : Published H zmqUri { g with registry := R } { g with registry := R } [] :=
    ⟨fun t ht => absurd ht List.not_mem_nil, fun _ _ => rfl⟩
  obtain ⟨done, rest, hstages, hb, hpub⟩ := loadStages_published (List.nil_append stages) hstart h
  refine ⟨done, rest, hstages, hb, hpub.new, fun s hs => hpub.old s fun hdone => ?_⟩
  have hnodup : (done ++ rest).Nodup := by rw [hstages]; decide
  exact (List.nodup_append.mp hnodup).2.2 s hdone s hs rfl

theorem loadOptions_published_ciscoOnly :
    ∃ g', loadOptions (calmHost ciscoOnly) [] freshGlobals = .ok (true, g') ∧
      ∃ done rest, done ++ rest = stages ∧ (true = true ↔ rest = []) ∧
        (∀ s ∈ done, FromFile (calmHost ciscoOnly) [] s (g'.params s)) ∧
        ∀ s ∈ rest, g'.params s = freshGlobals.params s :=
  ⟨_, rfl, loadOptions_published rfl⟩

/-- The empty file passes the first stage and is refused at the second, which misses the
interface: the parameters of the logs have been replaced by then. -/
theorem refused_load_replaces_logs :
    ∃ g', loadOptions (calmHost (.ofStrings [])) [] freshGlobals = .ok (false, g') ∧
      g'.params .logs ≠ freshGlobals.params .logs := by
  refine ⟨_, rfl, fun h => ?_⟩
  have hfind : (some (lit "false") : Option Bytes) = none :=
    congrArg (fun p : Params => p.find "syslog") h
  cases hfind

end MdtDialoutCollector.Bridge

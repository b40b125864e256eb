import MdtDialoutCollector.Core.EnvelopeLabel
import MdtDialoutCollector.Data.SharedMutex
import MdtDialoutCollector.Runs.Simulation

/-! The label map is shared: every worker reads it in `HandleMessage`, and the thread that
reloads it clears it and stores it again row by row. `HandleMessage` holds
`label_map_mutex` shared for as long as it runs and the reload holds it alone, so that any
interleaving of their steps amounts to whole messages and whole reloads, one at a time in
the order in which they come to their ends. -/

namespace MdtDialoutCollector.Core

open Csv Data DataManipulation External Json Labels Runs Text Utils

/-! ### The writes of a reload -/

inductive MapWrite where
  | clear
  | store (ipaddr nid pid : Bytes)

def MapWrite.apply (m : LabelMap) : MapWrite → LabelMap
  | .clear => m.clear
  | .store ipaddr nid pid => m.insert ipaddr nid pid

def applyAll (m : LabelMap) (ws : List MapWrite) : LabelMap := ws.foldl MapWrite.apply m

def storeWrite (c : Columns) (i : ℕ) : Option MapWrite :=
  match c.ipaddrs[i]?, c.nid[i]?, c.pid[i]? with
  | some ipaddr, some nid, some pid => some (.store ipaddr nid pid)
  | _, _, _ => none

/-- The writes of `LoadLabelMap`; a file that it does not come back from has none. -/
def loadWrites (file : Option Bytes) : Option (List MapWrite) :=
  match csvColumns file with
  | none => none
  | some c => ((List.range (intSize c.ipaddrs.length)).mapM (storeWrite c)).map (.clear :: ·)

/-- The writes of `ReloadLabelMaps`. The PTM loader never comes back. -/
def reloadWrites (c : LabelSettings) (csv : Option Bytes) : Option (List MapWrite) :=
  if c.asMapPtm then none else if c.asMap then loadWrites csv else some []

theorem storeLabels_eq (m : LabelMap) (c : Columns) (size : ℕ) :
    storeLabels m c size = match (List.range size).mapM (storeWrite c) with
      | some ws => .running (applyAll m ws)
      | none => .undefined := by
  rw [storeLabels]
  generalize List.range size = is
  induction is generalizing m with
  | nil => rfl
  | cons i is ih =>
    rw [List.foldlM_cons, List.mapM_cons, storeWrite]
    cases c.ipaddrs[i]? with
    | none => rfl
    | some ipaddr =>
      cases c.nid[i]? with
      | none => rfl
      | some nid =>
        cases c.pid[i]? with
        | none => rfl
        | some pid =>
          simp only [Outcome.running_bind, ih]
          cases is.mapM (storeWrite c) <;> rfl

theorem storeLabels_clear_running_iff (m m' : LabelMap) (c : Columns) (size : ℕ) :
    storeLabels m.clear c size = .running m' ↔
      ∃ ws, ((List.range size).mapM (storeWrite c)).map (.clear :: ·) = some ws ∧
        applyAll m ws = m' := by
  rw [storeLabels_eq]
  cases (List.range size).mapM (storeWrite c) with
  | none => simp
  | some ws => simp [applyAll, MapWrite.apply]

theorem loadLabelMap_running_iff (m m' : LabelMap) (file : Option Bytes) :
    loadLabelMap m file = .running m' ↔ ∃ ws, loadWrites file = some ws ∧ applyAll m ws = m' := by
  rw [loadLabelMap, loadWrites]
  cases csvColumns file with
  | none => simp
  | some c => exact storeLabels_clear_running_iff m m' c (intSize c.ipaddrs.length)

/-- The writes are all there is to a reload that comes back. -/
theorem reload_running_iff (c : LabelSettings) (csv ptm : Option Bytes) (m m' : LabelMap) :
    reloadLabelMaps c csv ptm m = .running m' ↔
      ∃ ws, reloadWrites c csv = some ws ∧ applyAll m ws = m' := by
  obtain ⟨asMap, asMapPtm, hexclusive⟩ := c
  cases asMapPtm with
  | true =>
    cases asMap with
    | true => exact absurd ⟨rfl, rfl⟩ hexclusive
    | false =>
      refine ⟨fun h => absurd h (loadLabelMapPreTagStyle_stops m ptm m'), ?_⟩
      rintro ⟨ws, hws, -⟩
      cases hws
  | false =>
    cases asMap with
    | false =>
      have hreload : reloadLabelMaps ⟨false, false, hexclusive⟩ csv ptm m = .running m := rfl
      have hwrites : reloadWrites ⟨false, false, hexclusive⟩ csv = some [] := rfl
      simp [hreload, hwrites, applyAll]
    | true =>
      have hreload : reloadLabelMaps ⟨true, false, hexclusive⟩ csv ptm m = loadLabelMap m csv := by
        show (loadLabelMap m csv >>= Outcome.running) = _
        cases loadLabelMap m csv <;> rfl
      have hwrites : reloadWrites ⟨true, false, hexclusive⟩ csv = loadWrites csv := rfl
      rw [hreload, hwrites]
      exact loadLabelMap_running_iff m m' csv

/-! ### The threads -/

/-- A call of `HandleMessage`, with the bodies it has still to deliver. -/
structure Handling where
  now : Int64
  peer : Bytes
  msg : Message
  left : List Bytes

/-- `handling` has the calls under way, and `writes` what is left to do of a reload. -/
structure Locked (ι : Type) where
  labelMap : LabelMap
  mutex : SharedMutex ι := .shared []
  handling : ι → Option Handling := fun _ => none
  workers : ι → Worker := fun _ => {}
  writes : Option (List MapWrite) := none

namespace Locked

variable {ι : Type} [DecidableEq ι]

inductive Action (ι : Type) where
  | lockShared (i : ι) (now : Int64) (peer : Bytes) (msg : Message)
  | deliver (i : ι)
  | unlockShared (i : ι)
  | lock (csv ptm : Option Bytes)
  | write
  | unlock

/-- An exception that leaves its thread ends the process, and so does a malformed file. -/
def step (J : JsonCpp) (P : Protobuf) (T : Transport) (ctx : Context) (c : LabelSettings)
    (s : Locked ι) : Action ι → Option (Locked ι)
  | .lockShared i now peer msg =>
    match s.mutex.lockShared i, bodies J P ctx msg with
    | some mutex, .ok left => some { s with
        mutex := mutex
        handling := Function.update s.handling i (some ⟨now, peer, msg, left⟩) }
    | _, _ => none
  | .deliver i =>
    match s.handling i with
    | some ⟨now, peer, msg, body :: rest⟩ =>
      match deliverPayload J T { ctx with labelMap := s.labelMap } now body (parsePeer peer).ip
          (parsePeer peer).port (s.workers i) with
      | (.ok (), w) => some { s with
          workers := Function.update s.workers i w
          handling := Function.update s.handling i (some ⟨now, peer, msg, rest⟩) }
      | (.error _, _) => none
    | _ => none
  | .unlockShared i =>
    match s.handling i, s.mutex.unlockShared i with
    | some ⟨_, _, _, []⟩, some mutex =>
      some { s with mutex := mutex, handling := Function.update s.handling i none }
    | _, _ => none
  | .lock csv _ =>
    match s.mutex.lock, reloadWrites c csv with
    | some mutex, some ws => some { s with mutex := mutex, writes := some ws }
    | _, _ => none
  | .write =>
    match s.writes with
    | some (w :: ws) => some { s with labelMap := w.apply s.labelMap, writes := some ws }
    | _ => none
  | .unlock =>
    match s.writes, s.mutex.unlock with
    | some [], some mutex => some { s with mutex := mutex, writes := none }
    | _, _ => none

end Locked

/-- The workers and the reloading thread, from the map that `main` has loaded. -/
def locked (J : JsonCpp) (P : Protobuf) (T : Transport) (ctx : Context) (c : LabelSettings)
    (ι : Type) [DecidableEq ι] : Machine (Locked ι) (Locked.Action ι) where
  start := { labelMap := ctx.labelMap }
  step := Locked.step J P T ctx c

/-! ### One call at a time -/

structure Serial (ι : Type) where
  labelMap : LabelMap
  workers : ι → Worker := fun _ => {}

namespace Serial

variable {ι : Type} [DecidableEq ι]

inductive Action (ι : Type) where
  | handle (i : ι) (now : Int64) (peer : Bytes) (msg : Message)
  | reload (csv ptm : Option Bytes)

def step (J : JsonCpp) (P : Protobuf) (T : Transport) (ctx : Context) (c : LabelSettings)
    (s : Serial ι) : Action ι → Option (Serial ι)
  | .handle i now peer msg =>
    match handleMessage J P T { ctx with labelMap := s.labelMap } now peer msg (s.workers i) with
    | (.ok (), w) => some { s with workers := Function.update s.workers i w }
    | (.error _, _) => none
  | .reload csv ptm =>
    match reloadLabelMaps c csv ptm s.labelMap with
    | .running m => some { s with labelMap := m }
    | _ => none

end Serial

/-- What the mutex is to make of the threads: whole messages and whole reloads. -/
def serial (J : JsonCpp) (P : Protobuf) (T : Transport) (ctx : Context) (c : LabelSettings)
    (ι : Type) [DecidableEq ι] : Machine (Serial ι) (Serial.Action ι) where
  start := { labelMap := ctx.labelMap }
  step := Serial.step J P T ctx c

/-! ### The interleavings -/

section Delivery

variable {J : JsonCpp} {T : Transport} {ctx : Context} {now : Int64} {peer : PeerEndpoint}

theorem deliverAll_append {done : List Bytes} {w w' : Worker}
    (h : deliverAll J T ctx now peer done w = (.ok (), w')) (rest : List Bytes) :
    deliverAll J T ctx now peer (done ++ rest) w = deliverAll J T ctx now peer rest w' := by
  induction done generalizing w with
  | nil =>
    cases h
    rfl
  | cons body done ih =>
    rw [deliverAll] at h
    rw [List.cons_append, deliverAll]
    cases hbody : deliverPayload J T ctx now body peer.ip peer.port w with
    | mk result w₁ =>
      simp only [hbody] at h ⊢
      cases result with
      | error e => cases h
      | ok _ => exact ih h

/-- Decoding does not look at the label map. -/
theorem bodies_labelMap (P : Protobuf) (m : LabelMap) (msg : Message) :
    bodies J P { ctx with labelMap := m } msg = bodies J P ctx msg := by
  cases msg <;> rfl

end Delivery

namespace Locked

variable {ι : Type} [DecidableEq ι] {J : JsonCpp} {P : Protobuf} {T : Transport} {ctx : Context}
  {c : LabelSettings} {s s' : Locked ι} {t : Serial ι}

/-- The call has delivered its first bodies, with the map as it is, to a worker that stood as
it does one call at a time. -/
def UnderWay (J : JsonCpp) (P : Protobuf) (T : Transport) (ctx : Context) (m : LabelMap)
    (before after : Worker) (h : Handling) : Prop :=
  ∃ done, bodies J P ctx h.msg = .ok (done ++ h.left) ∧
    deliverAll J T { ctx with labelMap := m } h.now (parsePeer h.peer) done before = (.ok (), after)

/-- The calls under way have the lock, and are still to happen one at a time; a reload that
has begun has happened there. -/
structure Stands (J : JsonCpp) (P : Protobuf) (T : Transport) (ctx : Context) (s : Locked ι)
    (t : Serial ι) : Prop where
  proper : s.mutex.Proper
  writing : s.writes ≠ none → s.mutex = .exclusive
  labelMap : applyAll s.labelMap (s.writes.getD []) = t.labelMap
  idle : ∀ i, s.handling i = none → s.workers i = t.workers i
  busy : ∀ i h, s.handling i = some h → s.mutex.SharedBy i ∧
    UnderWay J P T ctx s.labelMap (t.workers i) (s.workers i) h

namespace Stands

variable (h : Stands J P T ctx s t)

include h

omit [DecidableEq ι] in
theorem no_writes (hmutex : s.mutex ≠ .exclusive) : s.writes = none := by
  by_contra hwrites
  exact hmutex (h.writing hwrites)

omit [DecidableEq ι] in
theorem labelMap_eq (hmutex : s.mutex ≠ .exclusive) : s.labelMap = t.labelMap := by
  rw [← h.labelMap, h.no_writes hmutex]
  rfl

omit [DecidableEq ι] in
theorem no_handling (hmutex : ∀ i, ¬s.mutex.SharedBy i) (i : ι) : s.handling i = none := by
  cases hi : s.handling i with
  | none => rfl
  | some x => exact absurd (h.busy i x hi).1 (hmutex i)

theorem lockShared {i : ι} {now : Int64} {peer : Bytes} {msg : Message}
    (hstep : Locked.step J P T ctx c s (.lockShared i now peer msg) = some s') :
    Stands J P T ctx s' t := by
  rw [Locked.step] at hstep
  split at hstep
  · rename_i mutex left hlock hbodies
    cases hstep
    obtain ⟨hmutex, -, hfree, hshared, hproper⟩ := SharedMutex.lockShared_spec hlock
    have hwrites := h.no_writes hmutex
    have hidle : s.handling i = none := by
      by_contra hbusy
      obtain ⟨x, hx⟩ := Option.ne_none_iff_exists'.mp hbusy
      exact hfree (h.busy i x hx).1
    refine ⟨hproper h.proper, fun hnot => absurd hwrites hnot, h.labelMap, fun j hj => ?_,
      fun j x hj => ?_⟩
    · refine h.idle j ?_
      by_cases hji : j = i
      · exact hji ▸ hidle
      · simpa only [Function.update_of_ne hji] using hj
    · by_cases hji : j = i
      · subst hji
        simp only [Function.update_self, Option.some.injEq] at hj
        subst hj
        refine ⟨(hshared j).mpr (.inl rfl), [], hbodies, ?_⟩
        rw [deliverAll, h.idle j hidle]
      · simp only [Function.update_of_ne hji] at hj
        obtain ⟨hj₁, hj₂⟩ := h.busy j x hj
        exact ⟨(hshared j).mpr (.inr hj₁), hj₂⟩
  · cases hstep

theorem deliver {i : ι} (hstep : Locked.step J P T ctx c s (.deliver i) = some s') :
    Stands J P T ctx s' t := by
  rw [Locked.step] at hstep
  split at hstep
  · rename_i now peer msg body rest hi
    split at hstep
    · rename_i w hdeliver
      cases hstep
      obtain ⟨hown, done, hbodies, hdone⟩ := h.busy i _ hi
      refine ⟨h.proper, h.writing, h.labelMap, fun j hj => ?_, fun j x hj => ?_⟩
      · by_cases hji : j = i
        · simp only [hji, Function.update_self, reduceCtorEq] at hj
        · simp only [Function.update_of_ne hji] at hj
          show Function.update s.workers i w j = _
          rw [Function.update_of_ne hji]
          exact h.idle j hj
      · by_cases hji : j = i
        · subst hji
          simp only [Function.update_self, Option.some.injEq] at hj
          subst hj
          refine ⟨hown, done ++ [body], ?_, ?_⟩
          · rw [List.append_assoc]
            exact hbodies
          · show _ = (_, Function.update s.workers j w j)
            rw [deliverAll_append hdone, Function.update_self, deliverAll, hdeliver]
            rfl
        · simp only [Function.update_of_ne hji] at hj
          obtain ⟨hj₁, hj₂⟩ := h.busy j x hj
          refine ⟨hj₁, ?_⟩
          show UnderWay J P T ctx s.labelMap (t.workers j) (Function.update s.workers i w j) x
          rw [Function.update_of_ne hji]
          exact hj₂
    · cases hstep
  · cases hstep

/-- A call that comes to its end has been the whole call. -/
theorem unlockShared {i : ι} (hstep : Locked.step J P T ctx c s (.unlockShared i) = some s') :
    ∃ now peer msg t', s.handling i = some ⟨now, peer, msg, []⟩ ∧
      Serial.step J P T ctx c t (.handle i now peer msg) = some t' ∧ Stands J P T ctx s' t' := by
  rw [Locked.step] at hstep
  split at hstep
  · rename_i now peer msg mutex hi hunlock
    cases hstep
    obtain ⟨hmutex, -, hown, hrest⟩ := SharedMutex.unlockShared_spec hunlock
    obtain ⟨hproper, hshared⟩ := hrest h.proper
    obtain ⟨-, done, hbodies, hdone⟩ := h.busy i _ hi
    have hhandle : handleMessage J P T { ctx with labelMap := t.labelMap } now peer msg
        (t.workers i) = (.ok (), s.workers i) := by
      rw [handleMessage, bodies_labelMap, hbodies, List.append_nil, ← h.labelMap_eq hmutex]
      exact hdone
    refine ⟨now, peer, msg, { t with workers := Function.update t.workers i (s.workers i) }, hi, ?_,
      hproper, fun hnot => absurd (h.no_writes hmutex) hnot, h.labelMap, fun j hj => ?_,
      fun j x hj => ?_⟩
    · rw [Serial.step, hhandle]
    · by_cases hji : j = i
      · rw [hji]
        show s.workers i = Function.update t.workers i (s.workers i) i
        rw [Function.update_self]
      · simp only [Function.update_of_ne hji] at hj
        show s.workers j = Function.update t.workers i _ j
        rw [Function.update_of_ne hji]
        exact h.idle j hj
    · by_cases hji : j = i
      · simp only [hji, Function.update_self, reduceCtorEq] at hj
      · simp only [Function.update_of_ne hji] at hj
        obtain ⟨hj₁, hj₂⟩ := h.busy j x hj
        refine ⟨(hshared j).mpr ⟨hji, hj₁⟩, ?_⟩
        show UnderWay J P T ctx s.labelMap (Function.update t.workers i _ j) (s.workers j) x
        rw [Function.update_of_ne hji]
        exact hj₂
  · cases hstep

theorem lock {csv ptm : Option Bytes}
    (hstep : Locked.step J P T ctx c s (.lock csv ptm) = some s') :
    ∃ t', Serial.step J P T ctx c t (.reload csv ptm) = some t' ∧ Stands J P T ctx s' t' := by
  rw [Locked.step] at hstep
  split at hstep
  · rename_i mutex ws hlock hwrites
    cases hstep
    obtain ⟨hmutex, rfl, hnone⟩ := SharedMutex.lock_spec hlock
    have hreload : reloadLabelMaps c csv ptm t.labelMap = .running (applyAll s.labelMap ws) := by
      rw [← h.labelMap_eq hmutex]
      exact (reload_running_iff c csv ptm s.labelMap _).mpr ⟨ws, hwrites, rfl⟩
    refine ⟨{ t with labelMap := applyAll s.labelMap ws }, ?_, trivial, fun _ => rfl, rfl, h.idle,
      fun i x hi => ?_⟩
    · rw [Serial.step, hreload]
    · rw [h.no_handling hnone] at hi
      cases hi
  · cases hstep

/-- While the map is written nobody reads it. -/
theorem write (hstep : Locked.step J P T ctx c s .write = some s') : Stands J P T ctx s' t := by
  rw [Locked.step] at hstep
  split at hstep
  · rename_i w ws hwrites
    cases hstep
    have hmutex := h.writing (by simp [hwrites])
    have hmap := h.labelMap
    rw [hwrites] at hmap
    refine ⟨h.proper, fun _ => hmutex, hmap, h.idle, fun i x hi => ?_⟩
    rw [h.no_handling (fun j => by simp [hmutex, SharedMutex.SharedBy]) i] at hi
    cases hi
  · cases hstep

theorem unlock (hstep : Locked.step J P T ctx c s .unlock = some s') : Stands J P T ctx s' t := by
  rw [Locked.step] at hstep
  split at hstep
  · rename_i mutex hwrites hunlock
    cases hstep
    obtain ⟨hmutex, rfl, -⟩ := SharedMutex.unlock_spec hunlock
    have hmap := h.labelMap
    rw [hwrites] at hmap
    refine ⟨List.nodup_nil, fun hnot => absurd rfl hnot, hmap, h.idle, fun i x hi => ?_⟩
    rw [h.no_handling (fun j => by simp [hmutex, SharedMutex.SharedBy]) i] at hi
    cases hi
  · cases hstep

end Stands

/-- What a step amounts to: a message where its call ends, a reload where its lock is taken. -/
def turn (s : Locked ι) : Action ι → List (Serial.Action ι)
  | .unlockShared i => (s.handling i).toList.map fun h => .handle i h.now h.peer h.msg
  | .lock csv ptm => [.reload csv ptm]
  | .lockShared .. | .deliver _ | .write | .unlock => []

theorem Stands.step (h : Stands J P T ctx s t) {a : Action ι}
    (hstep : Locked.step J P T ctx c s a = some s') :
    ∃ t', (serial J P T ctx c ι).run (turn s a) t = some t' ∧ Stands J P T ctx s' t' := by
  cases a with
  | lockShared i now peer msg => exact ⟨t, rfl, h.lockShared hstep⟩
  | deliver i => exact ⟨t, rfl, h.deliver hstep⟩
  | unlockShared i =>
    obtain ⟨now, peer, msg, t', hi, ht', hstands⟩ := h.unlockShared hstep
    have hturn : (serial J P T ctx c ι).step t (.handle i now peer msg) = some t' := ht'
    refine ⟨t', ?_, hstands⟩
    rw [turn, hi]
    exact (serial J P T ctx c ι).run_cons_of_step hturn []
  | lock csv ptm =>
    obtain ⟨t', ht', hstands⟩ := h.lock hstep
    have hturn : (serial J P T ctx c ι).step t (.reload csv ptm) = some t' := ht'
    exact ⟨t', (serial J P T ctx c ι).run_cons_of_step hturn [], hstands⟩
  | write => exact ⟨t, rfl, h.write hstep⟩
  | unlock => exact ⟨t, rfl, h.unlock hstep⟩

omit [DecidableEq ι] in
theorem stands_start (m : LabelMap) : Stands J P T ctx (ι := ι) { labelMap := m } { labelMap := m } where
  proper := List.nodup_nil
  writing hnot := absurd rfl hnot
  labelMap := rfl
  idle _ _ := rfl
  busy _ _ hi := by cases hi

end Locked

/-- The threads do what their calls do one at a time. -/
def inTurn (J : JsonCpp) (P : Protobuf) (T : Transport) (ctx : Context) (c : LabelSettings)
    (ι : Type) [DecidableEq ι] : Simulation (locked J P T ctx c ι) (serial J P T ctx c ι) where
  rel := Locked.Stands J P T ctx
  image := Locked.turn
  start := Locked.stands_start ctx.labelMap
  step h hstep := h.step hstep

/-- Workers between two messages and a map that is not being written stand as if every call
that has come to its end had been made alone. -/
theorem calls_in_turn {ι : Type} [DecidableEq ι] (J : JsonCpp) (P : Protobuf) (T : Transport)
    (ctx : Context) (c : LabelSettings) (as : List (Locked.Action ι)) {s : Locked ι}
    (h : (locked J P T ctx c ι).run as (locked J P T ctx c ι).start = some s) :
    ∃ t, (serial J P T ctx c ι).run
        ((inTurn J P T ctx c ι).images as (locked J P T ctx c ι).start)
        (serial J P T ctx c ι).start = some t ∧
      (∀ i, s.handling i = none → s.workers i = t.workers i) ∧
      (s.writes = none → s.labelMap = t.labelMap) := by
  obtain ⟨t, ht, hstands⟩ := (inTurn J P T ctx c ι).run (inTurn J P T ctx c ι).start h
  have hstands : Locked.Stands J P T ctx s t := hstands
  refine ⟨t, ht, hstands.idle, fun hwrites => ?_⟩
  have hmap := hstands.labelMap
  rw [hwrites] at hmap
  exact hmap

/-! ### The labels of the records -/

namespace Serial

variable {ι : Type} [DecidableEq ι] {J : JsonCpp} {P : Protobuf} {T : Transport} {ctx : Context}
  {c : LabelSettings} {s t : Serial ι}

/-- The files of a reload. -/
def Action.files : Action ι → Option (Option Bytes × Option Bytes)
  | .handle .. => none
  | .reload csv ptm => some (csv, ptm)

theorem labelMap_of_run {bs : List (Action ι)} (h : (serial J P T ctx c ι).run bs s = some t) :
    reloads c (bs.filterMap Action.files) s.labelMap = .running t.labelMap := by
  induction bs generalizing s with
  | nil =>
    simp only [Machine.run_nil, Option.some.injEq] at h
    rw [h]
    rfl
  | cons a bs ih =>
    rw [Machine.run_cons, Option.bind_eq_some_iff] at h
    obtain ⟨u, hu, h⟩ := h
    have hu : Serial.step J P T ctx c s a = some u := hu
    have hrest := ih h
    cases a with
    | handle i now peer msg =>
      rw [Serial.step] at hu
      split at hu
      · cases hu
        exact hrest
      · cases hu
    | reload csv ptm =>
      rw [Serial.step] at hu
      split at hu
      · rename_i m hreload
        cases hu
        show reloads c ((csv, ptm) :: bs.filterMap Action.files) s.labelMap = _
        rw [reloads, List.foldlM_cons, hreload]
        exact hrest
      · cases hu

/-- What a worker has handed over comes from one message, with the map that the reloads before
it have left. -/
theorem handed_of_run (hkafka : ctx.delivery = .kafka) {bs : List (Action ι)}
    (h : (serial J P T ctx c ι).run bs s = some t) {i : ι} {x : Handed}
    (hx : x ∈ (t.workers i).handed) :
    x ∈ (s.workers i).handed ∨ ∃ before now peer msg after m seq r,
      bs = before ++ .handle i now peer msg :: after ∧
      reloads c (before.filterMap Action.files) s.labelMap = .running m ∧
      r ∈ messageEnvelopes J P { ctx with labelMap := m } now peer msg seq ∧
      x = .kafka (parsePeer peer).ip (J.writeString r.toValue) := by
  induction bs generalizing s with
  | nil =>
    simp only [Machine.run_nil, Option.some.injEq] at h
    exact .inl (h ▸ hx)
  | cons a bs ih =>
    rw [Machine.run_cons, Option.bind_eq_some_iff] at h
    obtain ⟨u, hu, h⟩ := h
    have hfirst : reloads c ([a].filterMap Action.files) s.labelMap = .running u.labelMap := by
      have hrun : (serial J P T ctx c ι).run [a] s = some u :=
        (serial J P T ctx c ι).run_cons_of_step hu []
      exact labelMap_of_run hrun
    rcases ih h with hu' | ⟨before, now, peer, msg, after, m, seq, r, rfl, hm, hr, rfl⟩
    · have hu : Serial.step J P T ctx c s a = some u := hu
      cases a with
      | reload csv ptm =>
        rw [Serial.step] at hu
        split at hu
        · cases hu
          exact .inl hu'
        · cases hu
      | handle j now peer msg =>
        rw [Serial.step] at hu
        split at hu
        · rename_i w hw
          cases hu
          by_cases hij : i = j
          · subst hij
            have hkafka' : ({ ctx with labelMap := s.labelMap } : Context).delivery = .kafka := hkafka
            have hhanded : (handleMessage J P T { ctx with labelMap := s.labelMap } now peer msg
                (s.workers i)).2.handed = _ :=
              handleMessage_handed P T hkafka' peer msg (s.workers i)
            simp only [hw] at hhanded
            simp only [Function.update_self, hhanded, List.mem_append, List.mem_flatMap] at hu'
            rcases hu' with hold | ⟨r, hr, hsent⟩
            · exact .inl hold
            · refine .inr ⟨[], now, peer, msg, bs, s.labelMap, _, r, rfl, rfl, hr, ?_⟩
              exact mem_asyncKafkaProducer hsent
          · simp only [Function.update_of_ne hij] at hu'
            exact .inl hu'
        · cases hu
    · refine .inr ⟨a :: before, now, peer, msg, after, m, seq, r, rfl, ?_, hr, rfl⟩
      rw [← List.singleton_append, List.filterMap_append, reloads, List.foldlM_append]
      rw [reloads] at hfirst
      rw [hfirst]
      exact hm

end Serial

/-- What a worker has handed over is what it has one call at a time, and the first envelopes of
the call that is under way. -/
theorem Locked.Stands.handed {ι : Type} [DecidableEq ι] {J : JsonCpp} {P : Protobuf}
    {T : Transport} {ctx : Context} {s : Locked ι} {t : Serial ι} (h : Stands J P T ctx s t)
    (hkafka : ctx.delivery = .kafka) {i : ι} {x : Handed} (hx : x ∈ (s.workers i).handed) :
    x ∈ (t.workers i).handed ∨ ∃ now peer msg left seq r,
      s.handling i = some ⟨now, peer, msg, left⟩ ∧
      r ∈ messageEnvelopes J P { ctx with labelMap := t.labelMap } now peer msg seq ∧
      x = .kafka (parsePeer peer).ip (J.writeString r.toValue) := by
  cases hi : s.handling i with
  | none =>
    rw [h.idle i hi] at hx
    exact .inl hx
  | some call =>
    obtain ⟨now, peer, msg, left⟩ := call
    obtain ⟨hown, done, hbodies, hdone⟩ := h.busy i _ hi
    have hmap := h.labelMap_eq fun hmutex => SharedMutex.not_sharedBy_exclusive (hmutex ▸ hown)
    have hkafka' : ({ ctx with labelMap := s.labelMap } : Context).delivery = .kafka := hkafka
    have hhanded := (congrArg Worker.handed (congrArg Prod.snd hdone)).symm.trans
      (deliverAll_handed T hkafka' (parsePeer peer) done (t.workers i))
    rw [hhanded, List.mem_append, List.mem_flatMap] at hx
    rcases hx with hold | ⟨r, hr, hsent⟩
    · exact .inl hold
    · refine .inr ⟨now, peer, msg, left, (t.workers i).sequenceNumber, r, rfl, ?_,
        mem_asyncKafkaProducer hsent⟩
      rw [messageEnvelopes, ← hmap, bodies_labelMap, hbodies]
      exact (prefix_bodyEnvelopes (parsePeer peer) done left _).subset hr

/-- A record carries the labels that its peer has in the map left by the reloads of the calls
that came before its own, whether that is over or still under way: never those of a map that
is half loaded. -/
theorem labels_of_one_table {ι : Type} [DecidableEq ι] {J : JsonCpp} {P : Protobuf} {T : Transport}
    {ctx : Context} {c : LabelSettings} (hkafka : ctx.delivery = .kafka)
    (hencode : ctx.labelEncode = true) {as : List (Locked.Action ι)} {s : Locked ι}
    (h : (locked J P T ctx c ι).run as (locked J P T ctx c ι).start = some s) {i : ι}
    {key value : Bytes} (hx : Handed.kafka key value ∈ (s.workers i).handed) :
    ∃ before now peer msg m seq, ∃ r : Record,
      (before ++ [.handle i now peer msg] <+:
          (inTurn J P T ctx c ι).images as (locked J P T ctx c ι).start ∨
        before = (inTurn J P T ctx c ι).images as (locked J P T ctx c ι).start ∧
          ∃ left, s.handling i = some ⟨now, peer, msg, left⟩) ∧
      reloads c (before.filterMap Serial.Action.files) ctx.labelMap = .running m ∧
      r ∈ messageEnvelopes J P { ctx with labelMap := m } now peer msg seq ∧
      key = (parsePeer peer).ip ∧ value = J.writeString r.toValue ∧
      r.toValue.get? (lit "label") = some (labelsOf m key).toValue := by
  obtain ⟨t, ht, hstands⟩ := (inTurn J P T ctx c ι).run (inTurn J P T ctx c ι).start h
  have hstands : Locked.Stands J P T ctx s t := hstands
  rcases hstands.handed hkafka hx with hx | ⟨now, peer, msg, left, seq, r, hi, hr, hrecord⟩
  · rcases Serial.handed_of_run hkafka ht hx with hnone |
      ⟨before, now, peer, msg, after, m, seq, r, himages, hm, hr, hrecord⟩
    · cases hnone
    · cases hrecord
      refine ⟨before, now, peer, msg, m, seq, r, .inl ⟨after, ?_⟩, hm, hr, rfl, rfl,
        label_of_mem_messageEnvelopes hencode hr⟩
      rw [List.append_assoc]
      exact himages.symm
  · cases hrecord
    exact ⟨_, now, peer, msg, t.labelMap, seq, r, .inr ⟨rfl, left, hi⟩, Serial.labelMap_of_run ht,
      hr, rfl, rfl, label_of_mem_messageEnvelopes hencode hr⟩

/-- One message of a peer that the map has. -/
def labelledRun : List (Locked.Action Unit) :=
  [.lockShared () 0 (lit "ipv4:1.1.1.1:57400") (.huawei (.dataJson (lit "{}"))), .deliver (),
    .unlockShared ()]

theorem labelledRun_hands_over : ∃ s value,
    (locked Reference.jsonCpp Reference.protobuf acceptAll (labelContext readmeMap)
        ⟨true, false, by decide⟩ Unit).run labelledRun { labelMap := readmeMap } = some s ∧
      Handed.kafka (lit "1.1.1.1") value ∈ (s.workers ()).handed := by
  have hbodies : bodies Reference.jsonCpp Reference.protobuf (labelContext readmeMap)
      (.huawei (.dataJson (lit "{}"))) = .ok [lit "{}"] := rfl
  have hpeer : parsePeer (lit "ipv4:1.1.1.1:57400") = ⟨lit "1.1.1.1", lit "57400"⟩ := by decide
  have hport : stoi (parsePeer (lit "ipv4:1.1.1.1:57400")).port = .ok 57400 := by
    rw [hpeer]
    exact (by decide : stoi (lit "57400") = .ok 57400)
  have hfit : Fits Reference.jsonCpp (lit "{}") := by decide
  obtain ⟨w, value, hdeliver, hhanded⟩ : ∃ w value, deliverPayload Reference.jsonCpp acceptAll
      (labelContext readmeMap) 0 (lit "{}") (parsePeer (lit "ipv4:1.1.1.1:57400")).ip
      (parsePeer (lit "ipv4:1.1.1.1:57400")).port {} = (.ok (), w) ∧
      w.handed = [] ++ [.kafka (parsePeer (lit "ipv4:1.1.1.1:57400")).ip value] :=
    deliverPayload_kafka 0 (lit "{}") _ {} Reference.jsonCpp_lawful rfl hport hfit
  have hcontext : { labelContext readmeMap with labelMap := readmeMap } = labelContext readmeMap := rfl
  simp only [labelledRun, Machine.run, locked, Locked.step, SharedMutex.lockShared, hbodies,
    List.not_mem_nil, if_false, Option.bind_some, Function.update_self, hcontext, hdeliver,
    SharedMutex.unlockShared, List.mem_singleton, if_true]
  refine ⟨_, value, rfl, ?_⟩
  simp only [Function.update_self, hhanded, hpeer, List.nil_append, List.mem_singleton]

theorem calls_in_turn_labelledRun : ∃ (s : Locked Unit) (t : Serial Unit),
    (serial Reference.jsonCpp Reference.protobuf acceptAll (labelContext readmeMap)
        ⟨true, false, by decide⟩ Unit).run
      ((inTurn Reference.jsonCpp Reference.protobuf acceptAll (labelContext readmeMap)
          ⟨true, false, by decide⟩ Unit).images labelledRun { labelMap := readmeMap })
      { labelMap := readmeMap } = some t ∧
    (∀ i, s.handling i = none → s.workers i = t.workers i) ∧
    (s.writes = none → s.labelMap = t.labelMap) := by
  obtain ⟨s, -, hrun, -⟩ := labelledRun_hands_over
  exact ⟨s, calls_in_turn Reference.jsonCpp Reference.protobuf acceptAll (labelContext readmeMap)
    ⟨true, false, by decide⟩ labelledRun hrun⟩

theorem labels_of_one_table_readme : ∃ (s : Locked Unit) (key value : Bytes),
    (locked Reference.jsonCpp Reference.protobuf acceptAll (labelContext readmeMap)
        ⟨true, false, by decide⟩ Unit).run labelledRun { labelMap := readmeMap } = some s ∧
    Handed.kafka key value ∈ (s.workers ()).handed ∧
    ∃ before now peer msg m seq, ∃ r : Record,
      (before ++ [.handle () now peer msg] <+:
          (inTurn Reference.jsonCpp Reference.protobuf acceptAll (labelContext readmeMap)
            ⟨true, false, by decide⟩ Unit).images labelledRun { labelMap := readmeMap } ∨
        before = (inTurn Reference.jsonCpp Reference.protobuf acceptAll (labelContext readmeMap)
            ⟨true, false, by decide⟩ Unit).images labelledRun { labelMap := readmeMap } ∧
          ∃ left, s.handling () = some ⟨now, peer, msg, left⟩) ∧
      reloads ⟨true, false, by decide⟩ (before.filterMap Serial.Action.files) readmeMap =
        .running m ∧
      r ∈ messageEnvelopes Reference.jsonCpp Reference.protobuf
        { labelContext readmeMap with labelMap := m } now peer msg seq ∧
      key = (parsePeer peer).ip ∧ value = Reference.jsonCpp.writeString r.toValue ∧
      r.toValue.get? (lit "label") = some (labelsOf m key).toValue := by
  obtain ⟨s, value, hrun, hhanded⟩ := labelledRun_hands_over
  exact ⟨s, _, value, hrun, hhanded, labels_of_one_table rfl rfl hrun hhanded⟩

end MdtDialoutCollector.Core

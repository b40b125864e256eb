import MdtDialoutCollector.Core.Delivery
import MdtDialoutCollector.Core.Stream

/-! Who frees a `grpc_payload`. Any number of workers run `ZmqPusher`, each making payloads
one at a time and passing their addresses to its socket; one thread runs `ZmqPoller`, which
prints a payload and frees it. The steps of all of them interleave. -/

namespace MdtDialoutCollector.Core

open Runs Text

/-! ### Payloads -/

inductive PayloadField where
  | eventType | serialization | writerId | telemetryNode | telemetryPort | telemetryData
  deriving DecidableEq

def GrpcPayload.field (p : GrpcPayload) : PayloadField → CString
  | .eventType => p.eventType
  | .serialization => p.serialization
  | .writerId => p.writerId
  | .telemetryNode => p.telemetryNode
  | .telemetryPort => p.telemetryPort
  | .telemetryData => p.telemetryData

/-- The fields `ZmqPoller` prints, in its order. -/
def printedFields : List PayloadField :=
  [.eventType, .serialization, .writerId, .telemetryNode, .telemetryPort, .telemetryData]

/-- A payload with its number in the order of creation, which tells it from a later one at
the same address. -/
structure Cell where
  serial : ℕ
  pload : GrpcPayload

/-- An address and the number of the payload it was taken of; the code has the address. -/
abbrev Pointer := Addr × ℕ

/-! ### The parties -/

/-- Where a worker is in `ZmqPusher`. -/
inductive Pusher where
  | idle
  | sending (p : Pointer)
  | releasing (p : Pointer)

/-- Where the other thread is in `ZmqPoller`; it ends when the ZMQ context has been shut
down. -/
inductive Puller where
  | receiving
  | printing (p : Pointer) (left : List PayloadField)
  | exited

def Pusher.pointer : Pusher → Option Pointer
  | .idle => none
  | .sending p | .releasing p => some p

def Puller.pointer : Puller → Option Pointer
  | .receiving | .exited => none
  | .printing p _ => some p

inductive Place (ι : Type) where
  | pusher (i : ι)
  | inFlight
  | puller
  | freed

/-- The workers are indexed by `ι`. A send that did not hand its payload over is recorded
in `refused`, and `freedBy` has the calls of `free_grpc_payload` on each payload. `fault`
says that a pointer was used when its payload was no longer there. -/
structure Zmq (ι : Type) where
  heap : Addr → Option Cell := fun _ => none
  pushers : ι → Pusher := fun _ => .idle
  inFlight : Multiset Pointer := 0
  puller : Puller := .receiving
  created : ℕ := 0
  refused : ℕ → Option ι := fun _ => none
  freedBy : ℕ → List (Place ι) := fun _ => []
  printed : List CString := []
  fault : Bool := false
  exited : Bool := false

namespace Zmq

variable {ι : Type} [DecidableEq ι]

def setPusher (s : Zmq ι) (i : ι) (p : Pusher) : Zmq ι :=
  { s with pushers := Function.update s.pushers i p }

/-- `InitGrpcPayload`; `malloc` may return any free address. -/
def initPayload (s : Zmq ι) (fresh : Addr) (pload : GrpcPayload) : Zmq ι :=
  { s with
    heap := Function.update s.heap fresh (some ⟨s.created, pload⟩)
    created := s.created + 1 }

omit [DecidableEq ι] in
def freePayload (s : Zmq ι) (caller : Place ι) (p : Pointer) : Zmq ι :=
  match s.heap p.1 with
  | none => { s with fault := true }
  | some c =>
    { s with
      heap := Function.update s.heap p.1 none
      freedBy := Function.update s.freedBy c.serial (s.freedBy c.serial ++ [caller])
      fault := s.fault || c.serial != p.2 }

def printField (s : Zmq ι) (p : Pointer) (f : PayloadField) : Zmq ι :=
  match s.heap p.1 with
  | none => { s with fault := true }
  | some c =>
    { s with printed := s.printed ++ [c.pload.field f], fault := s.fault || c.serial != p.2 }

inductive Action (ι : Type) where
  | create (i : ι) (fresh : Addr) (w : DataWrapper)
  | outOfMemory (i : ι)
  | send (i : ι) (result : SendResult)
  | release (i : ι)
  | receive (p : Pointer)
  | recvError (terminated : Bool)
  | print
  | free

/-- `InitGrpcPayload` frees what it has when memory runs out, and ends the process. A message
has the size of a pointer, so that `res.value() != 0`. -/
def step (s : Zmq ι) (a : Action ι) : Option (Zmq ι) :=
  if s.exited then none else
  match a with
  | .create i fresh w =>
    match s.pushers i, s.heap fresh with
    | .idle, none => some ((s.initPayload fresh (initGrpcPayload w.eventType w.serialization
        w.writerId w.telemetryNode w.telemetryPort w.telemetryData)).setPusher i
        (.sending (fresh, s.created)))
    | _, _ => none
  | .outOfMemory i =>
    match s.pushers i with
    | .idle => some { s with exited := true }
    | _ => none
  | .send i result =>
    match s.pushers i with
    | .sending p =>
      if result = .accepted then
        some { s.setPusher i .idle with inFlight := p ::ₘ s.inFlight }
      else
        some { s.setPusher i (.releasing p) with refused := Function.update s.refused p.2 (some i) }
    | _ => none
  | .release i =>
    match s.pushers i with
    | .releasing p => some ((s.setPusher i .idle).freePayload (.pusher i) p)
    | _ => none
  | .receive p =>
    match s.puller with
    | .receiving =>
      if p ∈ s.inFlight then
        some { s with puller := .printing p printedFields, inFlight := s.inFlight.erase p }
      else none
    | _ => none
  | .recvError terminated =>
    match s.puller with
    | .receiving => some { s with puller := if terminated then .exited else .receiving }
    | _ => none
  | .print =>
    match s.puller with
    | .printing p (f :: left) => some ({ s with puller := .printing p left }.printField p f)
    | _ => none
  | .free =>
    match s.puller with
    | .printing p [] => some ({ s with puller := .receiving }.freePayload .puller p)
    | _ => none

end Zmq

def zmq (ι : Type) [DecidableEq ι] : Machine (Zmq ι) (Zmq.Action ι) where
  start := {}
  step := Zmq.step

namespace Zmq

variable {ι : Type} [DecidableEq ι] {s t : Zmq ι}

/-- A party that has the address of a payload and may use it. -/
def Holds (s : Zmq ι) : Place ι → Pointer → Prop
  | .pusher i, p => (s.pushers i).pointer = some p
  | .inFlight, p => p ∈ s.inFlight
  | .puller, p => s.puller.pointer = some p
  | .freed, _ => False

/-- The payload created `n`-th is in the place. -/
def At (s : Zmq ι) (n : ℕ) : Place ι → Prop
  | .freed => s.freedBy n ≠ []
  | place => ∃ a, s.Holds place (a, n)

/-! ### What a step can do -/

/-- The steps, one constructor a branch of the source. -/
inductive Steps (s : Zmq ι) : Action ι → Zmq ι → Prop where
  | create {i fresh w} (pload : GrpcPayload) (hi : s.pushers i = .idle)
      (hf : s.heap fresh = none) : Steps s (.create i fresh w)
        ((s.initPayload fresh pload).setPusher i (.sending (fresh, s.created)))
  | outOfMemory {i} : Steps s (.outOfMemory i) { s with exited := true }
  | accepted {i p} (hi : s.pushers i = .sending p) : Steps s (.send i .accepted)
      { s.setPusher i .idle with inFlight := p ::ₘ s.inFlight }
  | refused {i p result} (hi : s.pushers i = .sending p) : Steps s (.send i result)
      { s.setPusher i (.releasing p) with refused := Function.update s.refused p.2 (some i) }
  | release {i p} (hi : s.pushers i = .releasing p) : Steps s (.release i)
      ((s.setPusher i .idle).freePayload (.pusher i) p)
  | receive {p} (hpull : s.puller = .receiving) (hp : p ∈ s.inFlight) : Steps s (.receive p)
      { s with puller := .printing p printedFields, inFlight := s.inFlight.erase p }
  | recvError {terminated} (hpull : s.puller = .receiving) : Steps s (.recvError terminated)
      { s with puller := if terminated then .exited else .receiving }
  | print {p f left} (hpull : s.puller = .printing p (f :: left)) : Steps s .print
      ({ s with puller := .printing p left }.printField p f)
  | free {p} (hpull : s.puller = .printing p []) : Steps s .free
      ({ s with puller := .receiving }.freePayload .puller p)

theorem steps_of_step {a : Action ι} (h : s.step a = some t) : Steps s a t := by
  unfold step at h
  split at h
  · cases h
  · cases a with
    | create i fresh w =>
      simp only at h
      split at h
      · rename_i hi hf
        cases h
        exact .create _ hi hf
      · cases h
    | outOfMemory i =>
      simp only at h
      split at h
      · cases h
        exact .outOfMemory
      · cases h
    | send i result =>
      simp only at h
      split at h
      · rename_i hi
        split at h
        · rename_i hresult
          cases h
          cases hresult
          exact .accepted hi
        · cases h
          exact .refused hi
      · cases h
    | release i =>
      simp only at h
      split at h
      · rename_i hi
        cases h
        exact .release hi
      · cases h
    | receive p =>
      simp only at h
      split at h
      · rename_i hpull
        rw [Option.ite_none_right_eq_some] at h
        obtain ⟨hp, h⟩ := h
        cases h
        exact .receive hpull hp
      · cases h
    | recvError terminated =>
      simp only at h
      split at h
      · rename_i hpull
        cases h
        exact .recvError hpull
      · cases h
    | print =>
      simp only at h
      split at h
      · rename_i hpull
        cases h
        exact .print hpull
      · cases h
    | free =>
      simp only at h
      split at h
      · rename_i hpull
        cases h
        exact .free hpull
      · cases h

/-! ### Ownership -/

/-- Every payload that has been created and not freed is held by one party, whose pointer
is good. -/
structure Owned (s : Zmq ι) : Prop where
  safe : s.fault = false
  live : ∀ place a n, s.Holds place (a, n) → ∃ c, s.heap a = some c ∧ c.serial = n
  unique : ∀ place place' a a' n, s.Holds place (a, n) → s.Holds place' (a', n) →
    place = place' ∧ a = a'
  held : ∀ n, (∃ place a, s.Holds place (a, n)) ↔ n < s.created ∧ s.freedBy n = []
  freed : ∀ n, (s.freedBy n).length ≤ 1 ∧ (s.freedBy n ≠ [] → n < s.created)
  nodup : s.inFlight.Nodup
  refused : ∀ n i, s.refused n = some i →
    (∃ a, s.pushers i = .releasing (a, n)) ∨ s.freedBy n = [.pusher i]

/-- From `s` to `t` one pointer has changed hands, to nobody for `none`. -/
def Moved (s t : Zmq ι) (p : Pointer) (target : Option (Place ι)) : Prop :=
  ∀ place q, t.Holds place q ↔ (q ≠ p ∧ s.Holds place q) ∨ (q = p ∧ target = some place)

omit [DecidableEq ι] in
/-- The part of `Owned` about pointers, once a pointer has changed hands. -/
theorem Owned.moved (h : Owned s) {p : Pointer} {source target : Place ι}
    (hp : s.Holds source p) (hmoved : Moved s t p (some target)) (hheap : t.heap = s.heap)
    (hcreated : t.created = s.created) (hfreedBy : t.freedBy = s.freedBy)
    (hfault : t.fault = s.fault) (hnodup : t.inFlight.Nodup)
    (hrefused : ∀ n i, t.refused n = some i →
      (∃ a, t.pushers i = .releasing (a, n)) ∨ t.freedBy n = [.pusher i]) : Owned t where
  safe := hfault ▸ h.safe
  live place a n hq := by
    rw [hheap]
    rcases (hmoved place (a, n)).mp hq with ⟨-, hq⟩ | ⟨rfl, -⟩
    · exact h.live place a n hq
    · exact h.live source a n hp
  unique place place' a a' n hq hq' := by
    rcases (hmoved place (a, n)).mp hq with ⟨hne, hq⟩ | ⟨rfl, hto⟩
    · rcases (hmoved place' (a', n)).mp hq' with ⟨-, hq'⟩ | ⟨rfl, -⟩
      · exact h.unique place place' a a' n hq hq'
      · exact absurd (by rw [(h.unique _ _ _ _ _ hq hp).2]) hne
    · rcases (hmoved place' (a', n)).mp hq' with ⟨hne, hq'⟩ | ⟨heq, hto'⟩
      · exact absurd (by rw [(h.unique _ _ _ _ _ hq' hp).2]) hne
      · rw [hto, Option.some.injEq] at hto'
        exact ⟨hto', (Prod.mk.inj heq).1.symm⟩
  held n := by
    rw [hcreated, hfreedBy, ← h.held n]
    constructor
    · rintro ⟨place, a, hq⟩
      rcases (hmoved place (a, n)).mp hq with ⟨-, hq⟩ | ⟨rfl, -⟩
      · exact ⟨place, a, hq⟩
      · exact ⟨source, a, hp⟩
    · rintro ⟨place, a, hq⟩
      by_cases heq : (a, n) = p
      · exact ⟨target, a, (hmoved target (a, n)).mpr (.inr ⟨heq, rfl⟩)⟩
      · exact ⟨place, a, (hmoved place (a, n)).mpr (.inl ⟨heq, hq⟩)⟩
  freed n := by
    rw [hcreated, hfreedBy]
    exact h.freed n
  nodup := hnodup
  refused := hrefused

omit [DecidableEq ι] in
theorem freePayload_eq {caller : Place ι} {p : Pointer} {c : Cell} (hc : s.heap p.1 = some c)
    (hserial : c.serial = p.2) : s.freePayload caller p =
      { s with
        heap := Function.update s.heap p.1 none
        freedBy := Function.update s.freedBy p.2 (s.freedBy p.2 ++ [caller]) } := by
  rw [freePayload, hc, ← hserial]
  simp

omit [DecidableEq ι] in
theorem printField_eq {p : Pointer} {f : PayloadField} {c : Cell} (hc : s.heap p.1 = some c)
    (hserial : c.serial = p.2) :
    s.printField p f = { s with printed := s.printed ++ [c.pload.field f] } := by
  rw [printField, hc]
  simp [hserial]

omit [DecidableEq ι] in
/-- Two pointers that are held share neither their address nor their payload. -/
theorem Owned.ne_and_ne (h : Owned s) {a b : Addr} {n m : ℕ} {source place : Place ι}
    (hp : s.Holds source (a, n)) (hq : s.Holds place (b, m)) (hne : (b, m) ≠ (a, n)) :
    b ≠ a ∧ m ≠ n := by
  constructor
  · rintro rfl
    obtain ⟨c, hc, hn⟩ := h.live source b n hp
    obtain ⟨c', hc', hm⟩ := h.live place b m hq
    rw [hc, Option.some.injEq] at hc'
    rw [← hc', hn] at hm
    exact hne (by rw [hm])
  · rintro rfl
    exact hne (by rw [(h.unique _ _ _ _ _ hq hp).2])

omit [DecidableEq ι] in
theorem Moved.holds_iff {p : Pointer} (h : Moved s t p none) {place : Place ι} {q : Pointer} :
    t.Holds place q ↔ q ≠ p ∧ s.Holds place q := by
  rw [h place q]
  simp

omit [DecidableEq ι] in
/-- A payload that a pusher has been refused is freed by that pusher. -/
theorem Owned.refused_of_release (h : Owned s) {a : Addr} {n : ℕ} {source : Place ι}
    (hp : s.Holds source (a, n)) {pushers : ι → Pusher}
    (hpushers : ∀ i, source ≠ .pusher i → pushers i = s.pushers i) {m : ℕ} {i : ι}
    (hm : s.refused m = some i) :
    (∃ b, pushers i = .releasing (b, m)) ∨ Function.update s.freedBy n [source] m = [.pusher i] := by
  have hnil := ((h.held n).mp ⟨source, a, hp⟩).2
  rcases h.refused m i hm with ⟨b, hi⟩ | hfreed
  · have hq : s.Holds (.pusher i) (b, m) := congrArg Pusher.pointer hi
    by_cases hmn : m = n
    · subst hmn
      right
      rw [Function.update_self, (h.unique _ _ _ _ _ hp hq).1]
    · left
      refine ⟨b, (hpushers i ?_).trans hi⟩
      rintro rfl
      have heq : some (a, n) = some (b, m) := hp.symm.trans hq
      exact hmn (Prod.mk.inj (Option.some.inj heq)).2.symm
  · right
    have hmn : m ≠ n := by
      rintro rfl
      rw [hnil] at hfreed
      cases hfreed
    exact (Function.update_of_ne hmn _ _).trans hfreed

omit [DecidableEq ι] in
/-- The party that holds a payload gives its pointer up and frees it. -/
theorem Owned.release (h : Owned s) {u : Zmq ι} {a : Addr} {n : ℕ} {source : Place ι}
    (hp : s.Holds source (a, n)) (hmoved : Moved s u (a, n) none) (hheap : u.heap = s.heap)
    (hcreated : u.created = s.created) (hfreedBy : u.freedBy = s.freedBy)
    (hfault : u.fault = s.fault) (hinFlight : u.inFlight = s.inFlight)
    (hrefused : u.refused = s.refused)
    (hpushers : ∀ i, source ≠ .pusher i → u.pushers i = s.pushers i) :
    Owned (u.freePayload source (a, n)) := by
  obtain ⟨c, hc, hserial⟩ := h.live source a n hp
  obtain ⟨hn, hnil⟩ := (h.held n).mp ⟨source, a, hp⟩
  rw [freePayload_eq (hheap ▸ hc) hserial, hheap, hfreedBy, hnil, List.nil_append]
  refine
    { safe := hfault ▸ h.safe
      live := ?live
      unique := ?unique
      held := ?held
      freed := ?freed
      nodup := hinFlight ▸ h.nodup
      refused := ?refused }
  case live =>
    intro place b m hq
    obtain ⟨hne, hq⟩ := hmoved.holds_iff.mp hq
    obtain ⟨c', hc', hm⟩ := h.live place b m hq
    exact ⟨c', (Function.update_of_ne (h.ne_and_ne hp hq hne).1 _ _).trans hc', hm⟩
  case unique =>
    intro place place' b b' m hq hq'
    exact h.unique place place' b b' m (hmoved.holds_iff.mp hq).2 (hmoved.holds_iff.mp hq').2
  case held =>
    intro m
    constructor
    · rintro ⟨place, b, hq⟩
      obtain ⟨hne, hq⟩ := hmoved.holds_iff.mp hq
      obtain ⟨hlt, hfreed⟩ := (h.held m).mp ⟨place, b, hq⟩
      refine ⟨hcreated ▸ hlt, ?_⟩
      exact (Function.update_of_ne (h.ne_and_ne hp hq hne).2 _ _).trans hfreed
    · rintro ⟨hlt, hfreed⟩
      have hne : m ≠ n := by
        rintro rfl
        simp at hfreed
      simp only [Function.update_of_ne hne] at hfreed
      obtain ⟨place, b, hq⟩ := (h.held m).mpr ⟨hcreated ▸ hlt, hfreed⟩
      exact ⟨place, b, hmoved.holds_iff.mpr ⟨fun heq => hne (Prod.mk.inj heq).2, hq⟩⟩
  case freed =>
    intro m
    by_cases hm : m = n
    · subst hm
      simp [hcreated, hn]
    · simp only [Function.update_of_ne hm, hcreated]
      exact h.freed m
  case refused =>
    intro m i hm
    rw [hrefused] at hm
    exact h.refused_of_release hp hpushers hm

/-! ### Steps -/

omit [DecidableEq ι] in
/-- No pointer changes hands. -/
theorem Owned.congr (h : Owned s) (hholds : ∀ place q, t.Holds place q ↔ s.Holds place q)
    (hheap : t.heap = s.heap) (hcreated : t.created = s.created) (hfreedBy : t.freedBy = s.freedBy)
    (hfault : t.fault = s.fault) (hinFlight : t.inFlight = s.inFlight)
    (hrefused : ∀ n i, t.refused n = some i →
      (∃ a, t.pushers i = .releasing (a, n)) ∨ s.freedBy n = [.pusher i]) : Owned t where
  safe := hfault ▸ h.safe
  live place a n hq := hheap ▸ h.live place a n ((hholds _ _).mp hq)
  unique place place' a a' n hq hq' :=
    h.unique place place' a a' n ((hholds _ _).mp hq) ((hholds _ _).mp hq')
  held n := by
    simp only [hholds, hcreated, hfreedBy]
    exact h.held n
  freed n := by
    rw [hfreedBy, hcreated]
    exact h.freed n
  nodup := hinFlight ▸ h.nodup
  refused := hfreedBy ▸ hrefused

omit [DecidableEq ι] in
theorem Owned.ne_of_holds (h : Owned s) {p q : Pointer} {source place : Place ι}
    (hp : s.Holds source p) (hq : s.Holds place q) (hne : place ≠ source) : q ≠ p := by
  rintro rfl
  exact hne (h.unique place source q.1 q.1 q.2 hq hp).1

theorem holds_setPusher_iff {i j : ι} {u : Pusher} {q : Pointer} :
    (s.setPusher i u).Holds (.pusher j) q ↔
      if j = i then u.pointer = some q else s.Holds (.pusher j) q := by
  show (Function.update s.pushers i u j).pointer = some q ↔ _
  by_cases hj : j = i
  · subst hj
    rw [Function.update_self, if_pos rfl]
  · rw [Function.update_of_ne hj, if_neg hj]
    rfl

omit [DecidableEq ι] in
/-- A party that had one pointer has none. -/
theorem Owned.moved_none (h : Owned s) {p : Pointer} {source : Place ι} (hp : s.Holds source p)
    (hone : ∀ q, s.Holds source q → q = p) (hsource : ∀ q, ¬ t.Holds source q)
    (hrest : ∀ place, place ≠ source → ∀ q, t.Holds place q ↔ s.Holds place q) :
    Moved s t p none := by
  intro place q
  simp only [reduceCtorEq, and_false, or_false]
  by_cases hplace : place = source
  · subst hplace
    exact ⟨fun hq => absurd hq (hsource q), fun hq => absurd (hone q hq.2) hq.1⟩
  · rw [hrest place hplace]
    exact ⟨fun hq => ⟨h.ne_of_holds hp hq hplace, hq⟩, fun hq => hq.2⟩

theorem holds_setPusher_of_ne {i : ι} {u : Pusher} {place : Place ι} (hplace : place ≠ .pusher i)
    (q : Pointer) : (s.setPusher i u).Holds place q ↔ s.Holds place q := by
  cases place with
  | pusher j =>
    rw [holds_setPusher_iff, if_neg fun hj => hplace (by rw [hj])]
  | inFlight => rfl
  | puller => rfl
  | freed => rfl

theorem Owned.moved_idle (h : Owned s) {i : ι} {p : Pointer} (hp : s.Holds (.pusher i) p) :
    Moved s (s.setPusher i .idle) p none := by
  refine h.moved_none hp (fun q hq => ?_) (fun q hq => ?_) fun place hplace q =>
    holds_setPusher_of_ne hplace q
  · exact Option.some.inj ((Eq.symm hq).trans hp)
  · rw [holds_setPusher_iff, if_pos rfl] at hq
    cases hq

omit [DecidableEq ι] in
theorem Owned.moved_receiving (h : Owned s) {p : Pointer} (hp : s.Holds .puller p) :
    Moved s { s with puller := .receiving } p none := by
  refine h.moved_none hp (fun q hq => ?_) (fun q hq => ?_) fun place hplace q => ?_
  · exact Option.some.inj ((Eq.symm hq).trans hp)
  · cases hq
  · cases place with
    | puller => exact absurd rfl hplace
    | pusher j => rfl
    | inFlight => rfl
    | freed => rfl

/-- What was refused before is not with a pusher that is not releasing. -/
theorem Owned.refused_update (h : Owned s) {i j : ι} {u : Pusher} {n : ℕ}
    (hi : ∀ p, s.pushers i ≠ .releasing p) (hn : s.refused n = some j) :
    (∃ a, Function.update s.pushers i u j = .releasing (a, n)) ∨ s.freedBy n = [.pusher j] := by
  rcases h.refused n j hn with ⟨a, hj⟩ | hfreed
  · have hji : j ≠ i := by
      rintro rfl
      exact hi _ hj
    exact .inl ⟨a, (Function.update_of_ne hji _ _).trans hj⟩
  · exact .inr hfreed

omit [DecidableEq ι] in
/-- The serial number that comes next is with no one, and nothing has freed it. -/
theorem Owned.not_holds_created (h : Owned s) (place : Place ι) (a : Addr) :
    ¬ s.Holds place (a, s.created) := fun hq =>
  absurd ((h.held s.created).mp ⟨place, a, hq⟩).1 (lt_irrefl _)

omit [DecidableEq ι] in
theorem Owned.freedBy_created (h : Owned s) : s.freedBy s.created = [] := by
  by_contra hne
  exact absurd ((h.freed s.created).2 hne) (lt_irrefl _)

/-- The new payload is with the pusher that made it, and nothing else has moved. -/
theorem holds_create_iff {i : ι} (fresh : Addr) (pload : GrpcPayload) (hi : s.pushers i = .idle)
    (place : Place ι) (q : Pointer) :
    ((s.initPayload fresh pload).setPusher i (.sending (fresh, s.created))).Holds place q ↔
      s.Holds place q ∨ (place = .pusher i ∧ q = (fresh, s.created)) := by
  cases place with
  | pusher j =>
    rw [holds_setPusher_iff]
    by_cases hj : j = i
    · subst hj
      have hidle : ¬ s.Holds (.pusher j) q := by
        intro hq
        rw [Holds, hi] at hq
        cases hq
      simp [Pusher.pointer, hidle, eq_comm]
    · rw [if_neg hj]
      simp only [Place.pusher.injEq, hj, false_and, or_false]
      rfl
  | inFlight => simp [Holds, initPayload, setPusher]
  | puller => simp [Holds, initPayload, setPusher]
  | freed => simp [Holds]

theorem Owned.create (h : Owned s) {i : ι} {fresh : Addr} (pload : GrpcPayload)
    (hi : s.pushers i = .idle) (hf : s.heap fresh = none) :
    Owned ((s.initPayload fresh pload).setPusher i (.sending (fresh, s.created))) := by
  have hholds := holds_create_iff fresh pload hi
  refine
    { safe := h.safe
      live := ?live
      unique := ?unique
      held := ?held
      freed := fun n => ⟨(h.freed n).1, fun hne => Nat.lt_succ_of_lt ((h.freed n).2 hne)⟩
      nodup := h.nodup
      refused := fun n j hn => h.refused_update (by simp [hi]) hn }
  case live =>
    intro place a n hq
    show ∃ c, Function.update s.heap fresh (some ⟨s.created, pload⟩) a = some c ∧ c.serial = n
    rcases (hholds place (a, n)).mp hq with hq | ⟨-, heq⟩
    · obtain ⟨c, hc, hn⟩ := h.live place a n hq
      have ha : a ≠ fresh := by
        rintro rfl
        rw [hf] at hc
        cases hc
      exact ⟨c, (Function.update_of_ne ha _ _).trans hc, hn⟩
    · obtain ⟨rfl, rfl⟩ := Prod.mk.inj heq
      exact ⟨_, Function.update_self _ _ _, rfl⟩
  case unique =>
    intro place place' a a' n hq hq'
    rcases (hholds place (a, n)).mp hq with hq | ⟨hplace, heq⟩
    · rcases (hholds place' (a', n)).mp hq' with hq' | ⟨-, heq'⟩
      · exact h.unique place place' a a' n hq hq'
      · obtain ⟨-, rfl⟩ := Prod.mk.inj heq'
        exact absurd hq (h.not_holds_created _ _)
    · rcases (hholds place' (a', n)).mp hq' with hq' | ⟨hplace', heq'⟩
      · obtain ⟨-, rfl⟩ := Prod.mk.inj heq
        exact absurd hq' (h.not_holds_created _ _)
      · exact ⟨hplace.trans hplace'.symm, (Prod.mk.inj heq).1.trans (Prod.mk.inj heq').1.symm⟩
  case held =>
    intro n
    have hheld := h.held n
    constructor
    · rintro ⟨place, a, hq⟩
      rcases (hholds place (a, n)).mp hq with hq | ⟨-, heq⟩
      · have hn := hheld.mp ⟨place, a, hq⟩
        exact ⟨Nat.lt_succ_of_lt hn.1, hn.2⟩
      · obtain ⟨-, rfl⟩ := Prod.mk.inj heq
        exact ⟨Nat.lt_succ_self _, h.freedBy_created⟩
    · rintro ⟨hn, hfreed⟩
      rcases Nat.lt_succ_iff_lt_or_eq.mp hn with hn | rfl
      · obtain ⟨place, a, hq⟩ := hheld.mpr ⟨hn, hfreed⟩
        exact ⟨place, a, (hholds _ _).mpr (.inl hq)⟩
      · exact ⟨.pusher i, fresh, (hholds _ _).mpr (.inr ⟨rfl, rfl⟩)⟩

/-- The message takes the pointer over from its sender. -/
theorem Owned.accepted (h : Owned s) {i : ι} {p : Pointer} (hi : s.pushers i = .sending p) :
    Owned { s.setPusher i .idle with inFlight := p ::ₘ s.inFlight } := by
  have hp : s.Holds (.pusher i) p := congrArg Pusher.pointer hi
  have hnot : p ∉ s.inFlight := fun hmem =>
    h.ne_of_holds hp (show s.Holds .inFlight p from hmem) (by simp) rfl
  have hmoved : Moved s { s.setPusher i .idle with inFlight := p ::ₘ s.inFlight } p
      (some .inFlight) := by
    intro place q
    have hidle := h.moved_idle hp place q
    simp only [reduceCtorEq, and_false, or_false] at hidle
    cases place with
    | inFlight =>
      show q ∈ p ::ₘ s.inFlight ↔ _
      rw [Multiset.mem_cons]
      by_cases hq : q = p <;> simp [hq, Holds]
    | pusher j =>
      simp only [Option.some.injEq, reduceCtorEq, and_false, or_false]
      exact hidle
    | puller =>
      simp only [Option.some.injEq, reduceCtorEq, and_false, or_false]
      exact hidle
    | freed =>
      simp only [Option.some.injEq, reduceCtorEq, and_false, or_false]
      exact hidle
  exact h.moved hp hmoved rfl rfl rfl rfl (Multiset.nodup_cons.mpr ⟨hnot, h.nodup⟩)
    fun n j hn => h.refused_update (by simp [hi]) hn

theorem Owned.refuse (h : Owned s) {i : ι} {p : Pointer} (hi : s.pushers i = .sending p) :
    Owned { s.setPusher i (.releasing p) with
      refused := Function.update s.refused p.2 (some i) } := by
  have hp : s.Holds (.pusher i) p := congrArg Pusher.pointer hi
  refine h.congr (fun place q => ?_) rfl rfl rfl rfl rfl fun n j hn => ?_
  · by_cases hplace : place = .pusher i
    · subst hplace
      refine (holds_setPusher_iff (s := s)).trans ?_
      rw [if_pos rfl, Holds, hi]
      rfl
    · exact holds_setPusher_of_ne hplace q
  · have hn' : Function.update s.refused p.2 (some i) n = some j := hn
    by_cases hnp : n = p.2
    · subst hnp
      rw [Function.update_self, Option.some.injEq] at hn'
      subst hn'
      exact .inl ⟨p.1, Function.update_self _ _ _⟩
    · rw [Function.update_of_ne hnp] at hn'
      exact h.refused_update (by simp [hi]) hn'

omit [DecidableEq ι] in
theorem Owned.receive (h : Owned s) {p : Pointer} (hpull : s.puller = .receiving)
    (hp : p ∈ s.inFlight) :
    Owned { s with puller := .printing p printedFields, inFlight := s.inFlight.erase p } := by
  have hsource : s.Holds .inFlight p := hp
  have hmoved : Moved s
      { s with puller := .printing p printedFields, inFlight := s.inFlight.erase p } p
      (some .puller) := by
    intro place q
    have hother : s.Holds place q → place ≠ .inFlight → q ≠ p := h.ne_of_holds hsource
    cases place with
    | inFlight =>
      show q ∈ s.inFlight.erase p ↔ _
      rw [h.nodup.mem_erase_iff]
      simp [Holds]
    | puller =>
      have hnone : ¬ s.Holds .puller q := by
        rw [Holds, hpull]
        simp [Puller.pointer]
      simp only [hnone, and_false, false_or, and_true]
      show some p = some q ↔ q = p
      rw [Option.some.injEq, eq_comm]
    | pusher j =>
      simp only [Option.some.injEq, reduceCtorEq, and_false, or_false]
      exact ⟨fun hq => ⟨hother hq (by simp), hq⟩, fun hq => hq.2⟩
    | freed => simp [Holds]
  exact h.moved hsource hmoved rfl rfl rfl rfl (h.nodup.erase p) h.refused

theorem Owned.step (h : Owned s) {a : Action ι} (hstep : s.step a = some t) : Owned t := by
  cases steps_of_step hstep with
  | create pload hi hf => exact h.create pload hi hf
  | outOfMemory => exact h.congr (fun _ _ => Iff.rfl) rfl rfl rfl rfl rfl h.refused
  | accepted hi => exact h.accepted hi
  | refused hi => exact h.refuse hi
  | release hi =>
    have hp := congrArg Pusher.pointer hi
    exact h.release hp (h.moved_idle hp) rfl rfl rfl rfl rfl rfl fun j hj =>
      Function.update_of_ne (fun heq => hj (by rw [heq])) _ _
  | receive hpull hp => exact h.receive hpull hp
  | @recvError terminated hpull =>
    refine h.congr (fun place q => ?_) rfl rfl rfl rfl rfl h.refused
    cases place with
    | puller => cases terminated <;> simp [Holds, hpull, Puller.pointer]
    | pusher j => rfl
    | inFlight => rfl
    | freed => rfl
  | @print p f left hpull =>
    obtain ⟨c, hc, hserial⟩ := h.live .puller p.1 p.2 (congrArg Puller.pointer hpull)
    rw [printField_eq (s := { s with puller := .printing p left }) hc hserial]
    refine h.congr (fun place q => ?_) rfl rfl rfl rfl rfl h.refused
    cases place with
    | puller => simp [Holds, hpull, Puller.pointer]
    | pusher j => rfl
    | inFlight => rfl
    | freed => rfl
  | free hpull =>
    have hp := congrArg Puller.pointer hpull
    exact h.release hp (h.moved_receiving hp) rfl rfl rfl rfl rfl rfl fun _ _ => rfl

omit [DecidableEq ι] in
theorem owned_start : Owned ({} : Zmq ι) where
  safe := rfl
  live place a n hq := by cases place <;> simp [Holds, Pusher.pointer, Puller.pointer] at hq
  unique place place' a a' n hq := by
    cases place <;> simp [Holds, Pusher.pointer, Puller.pointer] at hq
  held n := by
    simp only [Nat.not_lt_zero, false_and, iff_false, not_exists]
    intro place a hq
    cases place <;> simp [Holds, Pusher.pointer, Puller.pointer] at hq
  freed n := ⟨Nat.zero_le 1, fun hne => absurd rfl hne⟩
  nodup := Multiset.nodup_zero
  refused n i hn := by cases hn

theorem owned_of_reachable (h : (zmq ι).Reachable s) : Owned s :=
  (zmq ι).reachable_invariant owned_start (fun _ _ _ hs hstep => hs.step hstep) h

omit [DecidableEq ι] in
theorem at_iff {n : ℕ} {place : Place ι} :
    s.At n place ↔ (∃ a, s.Holds place (a, n)) ∨ (place = .freed ∧ s.freedBy n ≠ []) := by
  cases place <;> simp [At, Holds]

omit [DecidableEq ι] in
theorem Owned.existsUnique_at (h : Owned s) {n : ℕ} (hn : n < s.created) :
    ∃! place, s.At n place := by
  by_cases hfreed : s.freedBy n = []
  · obtain ⟨place, a, hp⟩ := (h.held n).mpr ⟨hn, hfreed⟩
    refine ⟨place, at_iff.mpr (.inl ⟨a, hp⟩), fun place' hat => ?_⟩
    rcases at_iff.mp hat with ⟨a', hp'⟩ | ⟨-, hne⟩
    · exact (h.unique place' place a' a n hp' hp).1
    · exact absurd hfreed hne
  · refine ⟨.freed, hfreed, fun place hat => ?_⟩
    rcases at_iff.mp hat with hp | ⟨hplace, -⟩
    · exact absurd ((h.held n).mp ⟨place, hp⟩).2 hfreed
    · exact hplace

/-- Every payload created is with one pusher, in flight, with the puller or freed, and in one
of these only. It is freed once at most, by its pusher if the send did not hand it over, and
no pointer is used when its payload has gone. -/
theorem each_payload_in_one_place (h : (zmq ι).Reachable s) :
    s.fault = false ∧
      (∀ n, n < s.created → ∃! place, s.At n place) ∧
      (∀ n, (s.freedBy n).length ≤ 1) ∧
      (∀ n i, s.refused n = some i →
        (∃ a, s.pushers i = .releasing (a, n)) ∨ s.freedBy n = [.pusher i]) ∧
      s.inFlight.Nodup ∧
      ∀ place a n, s.Holds place (a, n) → ∃ c, s.heap a = some c ∧ c.serial = n := by
  have howned := owned_of_reachable h
  exact ⟨howned.safe, fun n hn => howned.existsUnique_at hn, fun n => (howned.freed n).1,
    howned.refused, howned.nodup, howned.live⟩

/-- One payload is refused and freed by its worker; the next one, at the same address, is
accepted. -/
def refusedThenAccepted : List (Action (Fin 2)) :=
  [.create 0 7 {}, .send 0 .again, .release 0, .create 1 7 {}, .send 1 .accepted, .receive (7, 1)]

theorem each_payload_in_one_place_refused :
    ∃ s, (zmq (Fin 2)).run refusedThenAccepted {} = some s ∧ s.fault = false ∧
      (∀ n, n < s.created → ∃! place, s.At n place) ∧
      (∀ n, (s.freedBy n).length ≤ 1) ∧
      (∀ n i, s.refused n = some i →
        (∃ a, s.pushers i = .releasing (a, n)) ∨ s.freedBy n = [.pusher i]) ∧
      s.inFlight.Nodup ∧
      ∀ place a n, s.Holds place (a, n) → ∃ c, s.heap a = some c ∧ c.serial = n := by
  refine ⟨_, rfl, ?_⟩
  apply each_payload_in_one_place
  exact ⟨refusedThenAccepted, rfl⟩

end Zmq

end MdtDialoutCollector.Core

import MdtDialoutCollector.Runs.Machine
import MdtDialoutCollector.Data.Slots

/-! The stream objects of one vendor and the `RunFsm` loop that drives them. A stream
object's address is the tag of the operations it starts; gRPC completes an operation by
queueing its tag with an `ok` flag, and the loop calls `Proceed` on the stream the tag
denotes. `Proceed` is run one call at a time, so that the thread in `Srv::Shutdown` can
take its steps in between. -/

namespace MdtDialoutCollector.Core

open Data Runs

inductive Vendor where
  | cisco | juniper | nokia | huawei
  deriving DecidableEq

/-! ### Streams and `Proceed` -/

abbrev Addr := ℕ

inductive StreamState where
  | create | read | finishing | done
  deriving DecidableEq

/-- `replies` is the source's `int replies_`, left unbounded: a counter that has overflowed
is a value above `INT_MAX` here. -/
structure Stream where
  state : StreamState := .create
  replies : ℕ := 0
  deriving DecidableEq

inductive OpKind where
  | request | read | finish
  deriving DecidableEq

/-- A tag and the kind of the operation started with it. -/
abbrev Operation := Addr × OpKind

/-- What `Proceed` asks of gRPC, of its own message handler and of the allocator. -/
inductive Call where
  | spawn
  | read (self : Addr)
  | finish (self : Addr)
  | handleMessage (self : Addr)
  | deleteThis (self : Addr)
  deriving DecidableEq

/-- The new fields of the stream and the calls to make. Only the worker reads the fields,
and none of the calls does, so they are written before the calls. -/
def streamProceed (maxReplies : ℤ) (self : Addr) (ok : Bool) (s : Stream) : Stream × List Call :=
  match s.state with
  | .create =>
    if !ok then (s, [.deleteThis self])
    else ({ s with state := .read }, [.spawn, .read self])
  | .read =>
    if !ok then ({ s with state := .finishing }, [.finish self])
    else if 0 < maxReplies ∧ maxReplies ≤ (s.replies + 1 : ℕ) then
      ({ state := .finishing, replies := s.replies + 1 }, [.handleMessage self, .finish self])
    else ({ s with replies := s.replies + 1 }, [.handleMessage self, .read self])
  | .finishing | .done => (s, [.deleteThis self])

def CiscoStream.proceed := streamProceed

def JuniperStream.proceed := streamProceed

def NokiaStream.proceed := streamProceed

def HuaweiStream.proceed := streamProceed

def Vendor.proceed : Vendor → ℤ → Addr → Bool → Stream → Stream × List Call
  | .cisco => CiscoStream.proceed
  | .juniper => JuniperStream.proceed
  | .nokia => NokiaStream.proceed
  | .huawei => HuaweiStream.proceed

theorem Vendor.proceed_eq (v : Vendor) : v.proceed = streamProceed := by cases v <;> rfl

/-- The kind of operation a stream in this state waits for. -/
def StreamState.awaits : StreamState → Option OpKind
  | .create => some .request
  | .read => some .read
  | .finishing => some .finish
  | .done => none

/-! ### The loop -/

/-- `RunFsm` with its queue and its streams. An operation is `pending` until gRPC has
completed it and `queued` until `Next` has returned it. `startedLate` records that an
operation was started on a queue already shut down, `fault` that a stream was used after
its deletion. -/
structure Fsm where
  heap : Addr → Option Stream := fun _ => none
  pending : Multiset Operation := 0
  queued : Multiset (Operation × Bool) := 0
  todo : List Call := [.spawn]
  exited : Bool := false
  serverShutdown : Bool := false
  cqShutdown : Bool := false
  startedLate : Bool := false
  fault : Bool := false

namespace Fsm

/-- Every operation started and not yet returned by `Next`. -/
def outstanding (s : Fsm) : Multiset Operation := s.pending + s.queued.map Prod.fst

def startOp (s : Fsm) (op : Operation) : Fsm :=
  { s with pending := op ::ₘ s.pending, startedLate := s.startedLate || s.cqShutdown }

/-- `new` may return any free address, one that a deleted stream had included. The
constructor starts the request. -/
def spawn (s : Fsm) (fresh : Addr) : Option Fsm :=
  if s.heap fresh = none then
    some ({ s with heap := Function.update s.heap fresh (some {}) }.startOp (fresh, .request))
  else none

def deleteThis (s : Fsm) (self : Addr) : Fsm :=
  match s.heap self with
  | none => { s with fault := true }
  | some _ => { s with heap := Function.update s.heap self none }

def perform (s : Fsm) (fresh : Addr) : Call → Option Fsm
  | .spawn => s.spawn fresh
  | .read self => some (s.startOp (self, .read))
  | .finish self => some (s.startOp (self, .finish))
  | .handleMessage _ => some s
  | .deleteThis self => some (s.deleteThis self)

def proceed (v : Vendor) (maxReplies : ℤ) (s : Fsm) (self : Addr) (ok : Bool) : Fsm :=
  match s.heap self with
  | none => { s with fault := true }
  | some st =>
    { s with
      heap := Function.update s.heap self (some (v.proceed maxReplies self ok st).1)
      todo := (v.proceed maxReplies self ok st).2 }

/-- What the three parties do: gRPC completes an operation, the worker makes its next call
or returns from `Next`, the other thread takes the two steps of `Srv::Shutdown`. -/
inductive Action where
  | complete (op : Operation) (ok : Bool)
  | call (fresh : Addr)
  | next (op : Operation) (ok : Bool)
  | nextFalse
  | serverShutdown
  | cqShutdown

def step (v : Vendor) (maxReplies : ℤ) (s : Fsm) : Action → Option Fsm
  | .complete op ok =>
    if op ∈ s.pending then
      some { s with pending := s.pending.erase op, queued := (op, ok) ::ₘ s.queued }
    else none
  | .call fresh =>
    match s.todo with
    | [] => none
    | c :: cs => { s with todo := cs }.perform fresh c
  | .next op ok =>
    if s.todo = [] ∧ s.exited = false ∧ (op, ok) ∈ s.queued then
      some ({ s with queued := s.queued.erase (op, ok) }.proceed v maxReplies op.1 ok)
    else none
  | .nextFalse =>
    if s.todo = [] ∧ s.exited = false ∧ s.cqShutdown = true ∧ s.pending = 0 ∧ s.queued = 0 then
      some { s with exited := true }
    else none
  | .serverShutdown =>
    if s.serverShutdown then none else some { s with serverShutdown := true }
  | .cqShutdown =>
    if s.serverShutdown = true ∧ s.cqShutdown = false then some { s with cqShutdown := true }
    else none

end Fsm

/-- The loop starts by spawning the first stream. -/
def runFsm (v : Vendor) (maxReplies : ℤ) : Machine Fsm Fsm.Action where
  start := {}
  step := Fsm.step v maxReplies

end MdtDialoutCollector.Core

/-
  Kokage.Actor.Binding — an actor's mailbox binding and the watches on it
  (`actor/monitor.rs`: `MonitorHub`; `actor/binding.rs`: `BindingCore`).

  The binding is what every `ActorRef` of a membership looks at; it outlives the actor's
  runs. Each run takes a number from the hub (`MonitorRun`), and its mailbox is named by
  that number. A hub that was told the actor is gone stages `Removed` for every watch and
  forgets it; a run that was created when the binding was terminated may reopen it, under
  a new epoch with no watches.

  A `Watch` stays in the list after the hub has let go of it (`seat`), so that what was
  staged for it can still be told. The bounded buffer between the hub and the observer is
  left out: `staged` is everything pushed into it. So are the watches the actor itself
  holds on others. `Cell` is the binding as its runs share it, one atomic step of an
  operation at a time. Run ids, generations and epochs, which saturate at `u64::MAX`, are
  natural numbers.
-/

import Kokage.Supervisor.Types

namespace Kokage.Actor

open Kokage.Supervisor

/-! ## Watches -/

inductive MonitorEventKind where
  | started (generation : Nat)
  | exited (generation : Nat) (status : ExitStatus)
  | removed (generation : Option Nat)
  deriving DecidableEq, Repr

namespace MonitorEventKind

def isRemoved : MonitorEventKind → Bool
  | removed _ => true
  | _ => false

/-- The event is of an incarnation before `generation`. -/
def before (generation : Nat) : MonitorEventKind → Bool
  | started g => g < generation
  | exited g _ => g < generation
  | removed _ => false

end MonitorEventKind

/-- Which list of the hub holds the watch. -/
inductive Seat where
  | current
  | retiring (epoch : Nat)
  | gone
  deriving DecidableEq, Repr

structure Watch where
  minGeneration : Nat
  /-- The epoch it was registered in; nothing reads it. -/
  epoch : Nat
  /-- Neither cancelled nor closed by its observer. -/
  live : Bool
  seat : Seat
  staged : List MonitorEventKind
  deriving DecidableEq, Repr

namespace Watch

/-- `notify`, with the `retain` around it: a dead watch is let go of, and an incarnation
    from before the watch is not told. -/
def notify (event : MonitorEventKind) (w : Watch) : Watch :=
  if !w.live then { w with seat := .gone }
  else if event.before w.minGeneration then w
  else { w with staged := w.staged ++ [event] }

/-- The last event of a watch: it is staged for a live one and the hub lets go. -/
def finish (event : MonitorEventKind) (w : Watch) : Watch :=
  { w with seat := .gone, staged := if w.live then w.staged ++ [event] else w.staged }

end Watch

/-! ## The hub -/

inductive Lifecycle where
  | pending
  | running (runId generation : Nat)
  | exited
  | removed (generation : Option Nat)
  deriving DecidableEq, Repr

namespace Lifecycle

def isRemoved : Lifecycle → Bool
  | removed _ => true
  | _ => false

/-- After a run has exited; an older one leaves the latest running. -/
def leave (runId : Nat) : Lifecycle → Lifecycle
  | running current generation => if current = runId then exited else running current generation
  | lifecycle => lifecycle

end Lifecycle

structure ActiveRun where
  runId : Nat
  epoch : Nat
  generation : Nat
  deriving DecidableEq, Repr

structure MonitorHub where
  nextRunId : Nat
  nextGeneration : Nat
  currentEpoch : Nat
  currentLastGeneration : Option Nat
  lifecycle : Lifecycle
  activeRuns : List ActiveRun
  removalRequested : Bool
  watches : List Watch
  /-- The last generation of each epoch that is retiring. -/
  retiring : List (Nat × Option Nat)
  deriving DecidableEq, Repr

/-- A run's number, and the epoch it may reopen. -/
structure MonitorRun where
  runId : Nat
  reopensEpoch : Option Nat
  deriving DecidableEq, Repr

namespace MonitorHub

def new : MonitorHub := ⟨0, 0, 0, none, .pending, [], false, [], []⟩

/-- Edit the watches of one list. -/
def onSeat (h : MonitorHub) (seat : Seat) (f : Watch → Watch) : MonitorHub :=
  { h with watches := h.watches.map fun w => if w.seat = seat then f w else w }

def hasActive (h : MonitorHub) (epoch : Nat) : Bool := h.activeRuns.any (·.epoch = epoch)

/-- What `registerWatch` makes: a removed target stages the removal and is not joined. -/
def newWatch (h : MonitorHub) : Watch :=
  match h.lifecycle with
  | .removed generation => ⟨h.nextGeneration, h.currentEpoch, true, .gone, [.removed generation]⟩
  | .running _ generation => ⟨generation, h.currentEpoch, true, .current, [.started generation]⟩
  | .pending | .exited => ⟨h.nextGeneration, h.currentEpoch, true, .current, []⟩

def registerWatch (h : MonitorHub) : MonitorHub :=
  let h := h.onSeat .current fun w => if w.live then w else { w with seat := .gone }
  { h with watches := h.watches ++ [h.newWatch] }

def newRun (h : MonitorHub) (reopensTerminal : Bool) : MonitorHub × MonitorRun :=
  ({ h with nextRunId := h.nextRunId + 1 }, ⟨h.nextRunId, if reopensTerminal then some h.currentEpoch else none⟩)

/-- `started`, where an epoch begins: what becomes of the watches of the one before. -/
def retireEpoch (h : MonitorHub) : MonitorHub :=
  if h.lifecycle.isRemoved then h
  else if h.hasActive h.currentEpoch then
    { h.onSeat .current (fun w => { w with seat := .retiring h.currentEpoch }) with
      retiring := h.retiring ++ [(h.currentEpoch, h.currentLastGeneration)] }
  else h.onSeat .current (·.finish (.removed h.currentLastGeneration))

def beginEpoch (h : MonitorHub) : MonitorHub :=
  { h.retireEpoch with
    currentEpoch := h.currentEpoch + 1
    currentLastGeneration := none
    lifecycle := .pending
    removalRequested := false }

/-- `started`, its second half: the run takes the next generation. -/
def startRun (h : MonitorHub) (runId : Nat) : MonitorHub :=
  { h.onSeat .current (·.notify (.started h.nextGeneration)) with
    nextGeneration := h.nextGeneration + 1
    currentLastGeneration := some h.nextGeneration
    activeRuns := h.activeRuns.filter (·.runId ≠ runId) ++ [⟨runId, h.currentEpoch, h.nextGeneration⟩]
    lifecycle := .running runId h.nextGeneration }

/-- `started`, unless the epoch of the run is over. The flag says that it reopened the
    binding. -/
def started (h : MonitorHub) (run : MonitorRun) : Option (MonitorHub × Bool) :=
  let beginsEpoch := run.reopensEpoch = some h.currentEpoch
  let joinsReopenedEpoch := run.reopensEpoch.any fun epoch =>
    epoch + 1 = h.currentEpoch && !h.lifecycle.isRemoved && !h.removalRequested
  if run.reopensEpoch.isSome && !beginsEpoch && !joinsReopenedEpoch then none
  else if h.lifecycle.isRemoved && !beginsEpoch then none
  else
    let h := if beginsEpoch then h.beginEpoch else h
    some (h.startRun run.runId, beginsEpoch)

/-- The last exit of a membership that is over. -/
def lastExit (h : MonitorHub) (seat : Seat) (generation : Nat) (status : ExitStatus) (last : Option Nat) : MonitorHub :=
  h.onSeat seat fun w => (w.notify (.exited generation status)).finish (.removed last)

/-- `exited`, for a run of the current epoch. -/
def exitedCurrent (h : MonitorHub) (run : ActiveRun) (status : ExitStatus) : MonitorHub :=
  let h := { h with lifecycle := h.lifecycle.leave run.runId }
  if h.removalRequested && !h.hasActive run.epoch then
    { h.lastExit .current run.generation status h.currentLastGeneration with
      lifecycle := .removed h.currentLastGeneration }
  else h.onSeat .current (·.notify (.exited run.generation status))

/-- `exited`, for a run of an epoch that is retiring. -/
def exitedRetiring (h : MonitorHub) (run : ActiveRun) (status : ExitStatus) : MonitorHub :=
  match h.retiring.find? (·.1 = run.epoch) with
  | none => h
  | some (_, last) =>
    if h.hasActive run.epoch then h.onSeat (.retiring run.epoch) (·.notify (.exited run.generation status))
    else
      { h.lastExit (.retiring run.epoch) run.generation status last with
        retiring := h.retiring.eraseP (·.1 = run.epoch) }

def exited (h : MonitorHub) (runId : Nat) (status : ExitStatus) : MonitorHub :=
  match h.activeRuns.find? (·.runId = runId) with
  | none => h
  | some run =>
    let h := { h with activeRuns := h.activeRuns.filter (·.runId ≠ runId) }
    if run.epoch = h.currentEpoch then h.exitedCurrent run status else h.exitedRetiring run status

/-- While a run of the epoch has not exited, its removal waits. -/
def removed (h : MonitorHub) (epoch : Nat) : MonitorHub :=
  if epoch ≠ h.currentEpoch then h
  else if h.lifecycle.isRemoved then h
  else if h.hasActive h.currentEpoch then { h with removalRequested := true }
  else
    { h.onSeat .current (·.finish (.removed h.currentLastGeneration)) with
      lifecycle := .removed h.currentLastGeneration }

end MonitorHub

/-! ## The binding -/

inductive BindingState where
  | unbound
  | bound (mailbox : Nat)
  | terminated
  deriving DecidableEq, Repr

def BindingState.isBound : BindingState → Bool
  | bound _ => true
  | _ => false

structure BindingCore where
  current : BindingState
  latestBindRun : Option Nat
  monitors : MonitorHub
  deriving DecidableEq, Repr

namespace BindingCore

def new : BindingCore := ⟨.unbound, none, .new⟩

def monitorRun (c : BindingCore) : BindingCore × MonitorRun :=
  let (monitors, run) := c.monitors.newRun (c.current = .terminated)
  ({ c with monitors := monitors }, run)

/-- `bind` up to its first write: a run older than the latest one, or one that finds a
    terminated binding it may not reopen, is superseded. -/
def publish (c : BindingCore) (run : MonitorRun) (mailbox : Nat) : Option BindingCore :=
  if c.latestBindRun.any (run.runId < ·) then none
  else if c.current = .terminated && run.reopensEpoch.isNone then none
  else some { c with current := .bound mailbox }

/-- `bind`, where it tells the hub. The flag says whether the hub took the run. -/
def register (c : BindingCore) (run : MonitorRun) : BindingCore × Bool :=
  let c := { c with latestBindRun := some run.runId }
  match c.monitors.started run with
  | some (monitors, _) => ({ c with monitors := monitors }, true)
  | none => (c, false)

/-- `bind`, where the hub had been told of the end before the run could register. -/
def rollBack (c : BindingCore) (mailbox : Nat) : BindingCore :=
  if c.current = .bound mailbox then { c with current := .terminated } else c

/-- `bind`, with nothing else happening meanwhile. The flag says that it returned a lease. -/
def bind (c : BindingCore) (run : MonitorRun) (mailbox : Nat) : BindingCore × Bool :=
  match c.publish run mailbox with
  | none => (c, false)
  | some c =>
    match c.register run with
    | (c, true) => (c, true)
    | (c, false) => (c.rollBack mailbox, false)

/-- Only a bound mailbox can be unbound. -/
def unbind (c : BindingCore) : BindingCore :=
  match c.current with
  | .bound _ => { c with current := .unbound }
  | _ => c

def unbindMailbox (c : BindingCore) (mailbox : Nat) : BindingCore :=
  if c.current = .bound mailbox then { c with current := .unbound } else c

/-- `terminate`, its write to the binding. -/
def close (c : BindingCore) : BindingCore := { c with current := .terminated }

/-- `terminate_mailbox`, its write to the binding, where the mailbox is still the bound one. -/
def closeMailbox (c : BindingCore) (mailbox : Nat) : Option BindingCore :=
  if c.current = .bound mailbox then some { c with current := .terminated } else none

def tellRemoved (c : BindingCore) (epoch : Nat) : BindingCore := { c with monitors := c.monitors.removed epoch }

def terminateMailbox (c : BindingCore) (mailbox : Nat) : BindingCore :=
  match c.closeMailbox mailbox with
  | some closed => closed.tellRemoved c.monitors.currentEpoch
  | none => c

def terminate (c : BindingCore) : BindingCore := c.close.tellRemoved c.monitors.currentEpoch

end BindingCore

/-! ## The binding as runs share it -/

/-- What the holder of `latest_bind_run` has done so far. -/
inductive Holder where
  | free
  /-- `monitor_run`, which has looked at the binding -/
  | observed (reopensTerminal : Bool)
  /-- `bind`, whose mailbox is published -/
  | published (run : MonitorRun) (mailbox : Nat)
  /-- `bind`, whose run the hub refused -/
  | refused (run : MonitorRun) (mailbox : Nat)
  /-- `terminate`, or `terminate_mailbox` for one, with the epoch it has read -/
  | ending (mailbox : Option Nat) (epoch : Nat)
  /-- Either, after its write to the binding -/
  | closed (epoch : Nat)
  deriving DecidableEq, Repr

namespace Holder

/-- A `bind` is in progress. -/
def binds : Holder → Bool
  | published .. | refused .. => true
  | _ => false

end Holder

structure Cell where
  core : BindingCore
  holder : Holder
  /-- The runs that `monitor_run` has returned. -/
  minted : List MonitorRun
  nextMailbox : Nat
  /-- The mailboxes whose `BindingGuard` has not been dropped. -/
  guards : List Nat
  /-- The runs of the binds that returned a lease, in that order. -/
  bound : List Nat
  /-- The binding was terminated, and no bind has returned a lease since. -/
  ended : Bool
  deriving DecidableEq, Repr

/-- The atomic steps: one write to the binding or one call of the hub each. -/
inductive CellAction where
  | observe
  | mint
  | publish (run : MonitorRun)
  | register
  | rollBack
  | terminate
  /-- A guard of a membership that never restarts is dropped. -/
  | terminateMailbox (mailbox : Nat)
  | close
  | tellRemoved
  | unbind
  /-- Any other guard is dropped. -/
  | unbindMailbox (mailbox : Nat)
  | exited (runId : Nat) (status : ExitStatus)
  | registerWatch
  /-- An observer cancels the watch at a position. -/
  | cancelWatch (index : Nat)
  deriving DecidableEq, Repr

namespace Cell

def new : Cell := ⟨.new, .free, [], 0, [], [], false⟩

def onCore (s : Cell) (f : BindingCore → BindingCore) : Cell := { s with core := f s.core }

def onHub (s : Cell) (f : MonitorHub → MonitorHub) : Cell :=
  s.onCore fun c => { c with monitors := f c.monitors }

/-- `bind` after the hub's answer. -/
def registered (s : Cell) (run : MonitorRun) (mailbox : Nat) : Cell :=
  match s.core.register run with
  | (core, true) =>
    { s with
      core := core
      holder := .free
      guards := s.guards ++ [mailbox]
      bound := s.bound ++ [run.runId]
      ended := false }
  | (core, false) => { s with core := core, holder := .refused run mailbox }

/-- The write of `terminate_mailbox`: with another mailbox bound there is nothing to end. -/
def closedMailbox (s : Cell) (mailbox epoch : Nat) : Cell :=
  match s.core.closeMailbox mailbox with
  | some core => { s with core := core, holder := .closed epoch, ended := true }
  | none => { s with holder := .free }

def step (s : Cell) : CellAction → Option Cell
  | .observe =>
    match s.holder with
    | .free => some { s with holder := .observed (s.core.current = .terminated) }
    | _ => none
  | .mint =>
    match s.holder with
    | .observed reopens =>
      let (monitors, run) := s.core.monitors.newRun reopens
      some { s.onHub (fun _ => monitors) with holder := .free, minted := s.minted ++ [run] }
    | _ => none
  | .publish run =>
    match s.holder with
    | .free =>
      if run ∈ s.minted then
        (s.core.publish run s.nextMailbox).map fun core =>
          { s with core := core, holder := .published run s.nextMailbox, nextMailbox := s.nextMailbox + 1 }
      else none
    | _ => none
  | .register =>
    match s.holder with
    | .published run mailbox => some (s.registered run mailbox)
    | _ => none
  | .rollBack =>
    match s.holder with
    | .refused _ mailbox => some { s.onCore (·.rollBack mailbox) with holder := .free }
    | _ => none
  | .terminate =>
    match s.holder with
    | .free => some { s with holder := .ending none s.core.monitors.currentEpoch }
    | _ => none
  | .terminateMailbox mailbox =>
    match s.holder with
    | .free =>
      if mailbox ∈ s.guards then
        some { s with
          holder := .ending (some mailbox) s.core.monitors.currentEpoch
          guards := s.guards.erase mailbox }
      else none
    | _ => none
  | .close =>
    match s.holder with
    | .ending none epoch => some { s.onCore (·.close) with holder := .closed epoch, ended := true }
    | .ending (some mailbox) epoch => some (s.closedMailbox mailbox epoch)
    | _ => none
  | .tellRemoved =>
    match s.holder with
    | .closed epoch => some { s.onCore (·.tellRemoved epoch) with holder := .free }
    | _ => none
  | .unbind => some (s.onCore (·.unbind))
  | .unbindMailbox mailbox =>
    if mailbox ∈ s.guards then
      some { s.onCore (·.unbindMailbox mailbox) with guards := s.guards.erase mailbox }
    else none
  | .exited runId status => some (s.onHub (·.exited runId status))
  | .registerWatch => some (s.onHub (·.registerWatch))
  | .cancelWatch index =>
    some (s.onHub fun h => { h with watches := h.watches.modify index fun w => { w with live := false } })

end Cell

end Kokage.Actor

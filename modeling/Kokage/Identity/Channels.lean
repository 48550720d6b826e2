/-
  Kokage.Identity.Channels — the channels of one restart-stable supervisor identity and
  the incarnations that share them (`supervisor/handle.rs`: `StableSupervisorChannels`,
  `StableBindingGuard`; `supervisor/owner.rs`: `spawn`, `run_as_child`;
  `runtime/supervision.rs`: `SupervisorRuntime::new`, `reconcile_stable_identities`,
  `add_nested`, `publish_snapshot`).

  Four structures are shared: the binding, the snapshot, the attachment view and the map
  of nested identities, each behind a lock of its own. A step of the machine is one hold
  of one lock. `bind_prepared` keeps the binding lock over several others, so it is three
  kinds of step with the lock taken in between: `bind` reconciles the nested identities,
  `mint` takes one lineage, `commit` publishes the baseline and the binding.
  `SupervisorRuntime::new` runs on a task of its own, at any time after: it reads the
  lineages, reconciles again, and reads the restart total.

  What an incarnation's runtime does to its children is left open: it may show any rows
  under the ids and lineages it has. Attachments are left out of the view. The binding
  epoch and the view's revision wrap at the end of `u64`, lineages saturate there; here
  they are natural numbers.
-/

import Kokage.Lib.Steps
import Kokage.Supervisor.Runtime

namespace Kokage.Identity

open Kokage.Lib Kokage.Supervisor

/-! ## The binding -/

structure IncarnationBinding where
  bindingEpoch : Nat
  /-- Names the incarnation's completion channel. -/
  doneRx : Nat
  deriving DecidableEq, Repr

structure StableBindingState where
  current : Option IncarnationBinding
  lastDoneRx : Option Nat
  nextBindingEpoch : Nat
  boundOnce : Bool
  terminal : Bool
  deriving DecidableEq, Repr

namespace StableBindingState

def new : StableBindingState := ⟨none, none, 0, false, false⟩

/-- The current binding is the one of this epoch. -/
def names (b : StableBindingState) (epoch : Nat) : Bool := b.current.any (·.bindingEpoch = epoch)

/-- The check of `publish_snapshot` and `retire_nested_identity`. -/
def owned (b : StableBindingState) (epoch : Nat) : Bool := !b.terminal && b.names epoch

def allocate (b : StableBindingState) : StableBindingState := { b with nextBindingEpoch := b.nextBindingEpoch + 1 }

def commit (b : StableBindingState) (epoch doneRx : Nat) : StableBindingState :=
  { b with current := some ⟨epoch, doneRx⟩, boundOnce := true }

/-- `StableBindingGuard::drop`. -/
def release (b : StableBindingState) (epoch : Nat) : StableBindingState :=
  if b.names epoch then { b with current := none, lastDoneRx := b.current.map (·.doneRx) } else b

/-- What `StableSupervisorChannels::terminal` does under the binding lock. -/
def makeTerminal (b : StableBindingState) : StableBindingState :=
  { b with terminal := true, current := none, lastDoneRx := (b.current.map (·.doneRx)).or b.lastDoneRx }

end StableBindingState

/-! ## The attachment view -/

structure AttachedChild where
  id : String
  lineage : Nat
  generation : Nat
  supervisor : Option Nat
  deriving DecidableEq, Repr

structure AttachedChildrenView where
  generation : Option Nat
  bindingEpoch : Nat
  terminal : Bool
  children : List AttachedChild
  deriving DecidableEq, Repr

namespace AttachedChildrenView

/-- The check of `SupervisorRuntime::publish_snapshot`. -/
def accepts (v : AttachedChildrenView) (generation : Option Nat) (epoch : Nat) : Bool :=
  !v.terminal && v.generation = generation && v.bindingEpoch = epoch

def invalidate (v : AttachedChildrenView) : AttachedChildrenView :=
  if v.terminal then v else { v with generation := none, children := [] }

def makeTerminal (v : AttachedChildrenView) : AttachedChildrenView := { v with terminal := true, children := [] }

end AttachedChildrenView

/-- The lineage of the first attached child with the id. -/
def assignLineage (id : String) (lineage : Nat) : List AttachedChild → List AttachedChild
  | [] => []
  | c :: cs => if c.id = id then { c with lineage := lineage } :: cs else c :: assignLineage id lineage cs

/-! ## The nested identities -/

abbrev NestedChannels := List (String × StableChannels)

namespace NestedChannels

def get (m : NestedChannels) (id : String) : Option StableChannels := m.lookup id

def remove (m : NestedChannels) (id : String) : NestedChannels := m.filter (·.1 ≠ id)

def insert (m : NestedChannels) (id : String) (c : StableChannels) : NestedChannels := m.remove id ++ [(id, c)]

end NestedChannels

structure Reconciled where
  channels : NestedChannels
  identities : NestedChannels
  /-- The identities that `terminal` is called on once the map is unlocked. -/
  closed : List StableChannels
  deriving DecidableEq, Repr

/-- A static identity is reused; else the declaration's own displaces any occupant. -/
def reconcileChild (r : Reconciled) (child : ChildDefinition) : Reconciled :=
  match child.kind with
  | .task => r
  | .supervisor fresh =>
    match (r.channels.get child.id).filter (·.staticallyConfigured) with
    | some stable => { r with identities := r.identities.insert child.id stable }
    | none =>
      { channels := r.channels.insert child.id ⟨fresh, true⟩
        identities := r.identities.insert child.id ⟨fresh, true⟩
        closed := r.closed ++ (r.channels.get child.id).toList }

def reconcileStableIdentities (children : List ChildDefinition) (m : NestedChannels) : Reconciled :=
  let r := children.foldl reconcileChild ⟨m, [], []⟩
  { r with
    channels := r.channels.filter fun p => (r.identities.get p.1).isSome
    closed := (r.channels.filter fun p => (r.identities.get p.1).isNone).map (·.2) ++ r.closed }

/-- The identities a declaration's own static supervisors have. -/
def prepareNestedChannels (children : List ChildDefinition) : NestedChannels :=
  children.filterMap fun c => match c.kind with
    | .supervisor identity => some (c.id, ⟨identity, true⟩)
    | .task => none

/-! ## Declarations -/

/-- What every incarnation of the identity is instantiated from. The children of the
    `n`-th instantiation are clones: their supervisors own identities of their own. -/
structure Declaration where
  kind : ScopeKind
  strategy : Strategy
  root : Bool
  children : Nat → List ChildDefinition
  nodup : ∀ n, ((children n).map (·.id)).Nodup

def initialRow (lineage : Nat) (child : ChildDefinition) : ChildSnapshot where
  id := child.id
  lineage := lineage
  generation := 0
  state := .starting none
  membership := .active
  restartCount := 0
  restartPolicy := child.restart
  removeOnTerminalExit := child.removeOnTerminalExit
  nextRestartIn := none
  supervisor := none

def initialAttachedChildren (children : List ChildDefinition) (m : NestedChannels) : List AttachedChild :=
  children.mapIdx fun lineage c => ⟨c.id, lineage, 0, (m.get c.id).map (·.identity)⟩

def Declaration.snapshot (d : Declaration) (rows : List ChildSnapshot) (totalRestarts lifecycleSeq : Nat) :
    SupervisorSnapshot :=
  ⟨.running, d.kind, d.strategy, totalRestarts, lifecycleSeq, rows⟩

/-! ## The machine -/

structure Channels where
  binding : StableBindingState
  snapshot : SupervisorSnapshot
  /-- The slot still has its sender. -/
  snapshotsTx : Bool
  attached : AttachedChildrenView
  nested : NestedChannels
  seq : Nat
  nextLineage : Nat

/-- A child entry, as the shared structures show it. -/
structure Entry where
  row : ChildSnapshot
  nested : Option StableChannels

def Entry.attached (e : Entry) : AttachedChild :=
  ⟨e.row.id, e.row.lineage, e.row.generation, e.nested.map (·.identity)⟩

structure Runtime where
  entries : List Entry
  state : SupervisorStateView
  totalRestarts : Nat
  /-- A nested child with an entry that is not in the map yet. -/
  accepted : Option (String × StableChannels)
  /-- What `snapshot_view` returned, until it is published. -/
  view : Option SupervisorSnapshot

inductive Stage where
  /-- In `bind_prepared`, with the lineages minted so far. -/
  | binding (todo : List ChildDefinition) (rows : List ChildSnapshot) (prepared : List AttachedChild)
  | bound
  | reading (lineages : List (String × Nat))
  | reconciled (lineages : List (String × Nat)) (identities : NestedChannels)
  | running (rt : Runtime)
  | ended

/-- A membership of an incarnation, from the moment its entry exists. -/
structure Membership where
  id : String
  lineage : Nat
  static : Bool
  deriving DecidableEq, Repr

structure Incarnation where
  generation : Option Nat
  stage : Stage
  /-- The lineages its bind minted for the static children. -/
  minted : List (String × Nat)
  /-- Every membership its runtime has had. -/
  members : List Membership

structure World where
  channels : Channels
  /-- The incarnation at an index has that binding epoch. -/
  incarnations : List Incarnation
  /-- The incarnation inside `bind_prepared`. -/
  lock : Option Nat
  /-- The nested identities that `terminal` was called on. -/
  closed : List Nat
  /-- The `expect` of `snapshots_tx` has failed. -/
  noSender : Bool

inductive Action where
  | bind (generation : Nat)
  | mint (i : Nat)
  | commit (i : Nat)
  | readLineages (i : Nat)
  | reconcile (i : Nat)
  | create (i : Nat)
  /-- The runtime's own work on a child. -/
  | work (i k : Nat) (row : ChildSnapshot)
  | stop (i : Nat) (state : SupervisorStateView)
  | restart (i : Nat)
  | emit (i : Nat)
  | addChild (i : Nat) (child : ChildDefinition)
  | insertNested (i : Nat)
  | remove (i : Nat) (id : String)
  | publishView (i : Nat)
  | viewSnapshot (i : Nat)
  | publishSnapshot (i : Nat)
  /-- The runtime ends, fails or is aborted. -/
  | finish (i : Nat)
  | dropGuard (i : Nat)
  | terminalBinding
  | terminalView
  | terminalSnapshot
  | terminalCascade
  /-- A new incarnation of the parent hides this identity's view. -/
  | hide

/-- The incarnation whose code a step runs. -/
def Action.incarnation (s : World) : Action → Option Nat
  | .bind _ => some s.incarnations.length
  | .mint i | .commit i | .readLineages i | .reconcile i | .create i | .work i _ _ | .stop i _ | .restart i
  | .emit i | .addChild i _ | .insertNested i | .remove i _ | .publishView i | .viewSnapshot i
  | .publishSnapshot i | .finish i | .dropGuard i => some i
  | .terminalBinding | .terminalView | .terminalSnapshot | .terminalCascade | .hide => none

namespace World

def start (d : Declaration) : World where
  channels :=
    { binding := .new
      snapshot := d.snapshot ((d.children 0).mapIdx initialRow) 0 0
      snapshotsTx := true
      attached := ⟨if d.root then none else some 0, 0, false,
        initialAttachedChildren (d.children 0) (prepareNestedChannels (d.children 0))⟩
      nested := prepareNestedChannels (d.children 0)
      seq := 0
      nextLineage := 0 }
  incarnations := []
  lock := none
  closed := []
  noSender := false

def setStage (s : World) (i : Nat) (inc : Incarnation) (stage : Stage) : World :=
  { s with incarnations := s.incarnations.set i { inc with stage := stage } }

def setRuntime (s : World) (i : Nat) (inc : Incarnation) (rt : Runtime) : World := s.setStage i inc (.running rt)

/-- The incarnation at an index with its runtime, while that runs. -/
def runtime (s : World) (i : Nat) : Option (Incarnation × Runtime) :=
  match s.incarnations[i]? with
  | some inc => match inc.stage with
    | .running rt => some (inc, rt)
    | _ => none
  | none => none

/-- `bind_prepared` takes the binding lock, allocates the epoch and reconciles. -/
def bind (d : Declaration) (s : World) (generation : Nat) : World :=
  let children := d.children s.incarnations.length
  -- A root binds once, with the identities its declaration prepared.
  let r := if d.root then ⟨s.channels.nested, [], []⟩ else reconcileStableIdentities children s.channels.nested
  { s with
    channels := { s.channels with binding := s.channels.binding.allocate, nested := r.channels }
    incarnations := s.incarnations ++
      [⟨if d.root then none else some generation,
        .binding children [] (initialAttachedChildren children r.channels), [], []⟩]
    lock := some s.incarnations.length
    closed := s.closed ++ r.closed.map (·.identity) }

def mint (s : World) (i : Nat) (inc : Incarnation) (child : ChildDefinition) (todo : List ChildDefinition)
    (rows : List ChildSnapshot) (prepared : List AttachedChild) : World :=
  let lineage := s.channels.nextLineage
  { s with
    channels := { s.channels with nextLineage := lineage + 1 }
    incarnations := s.incarnations.set i
      { inc with
        stage := .binding todo (rows ++ [initialRow lineage child]) (assignLineage child.id lineage prepared)
        minted := inc.minted ++ [(child.id, lineage)] } }

/-- The rest of `bind_prepared`, up to the unlock. -/
def commit (d : Declaration) (s : World) (i : Nat) (inc : Incarnation) (rows : List ChildSnapshot)
    (prepared : List AttachedChild) : World :=
  if s.channels.snapshotsTx then
    { s with
      channels :=
        { s.channels with
          snapshot := d.snapshot rows s.channels.snapshot.totalRestarts s.channels.seq
          attached := ⟨inc.generation, i, false, prepared⟩
          binding := s.channels.binding.commit i i }
      incarnations := s.incarnations.set i { inc with stage := .bound }
      lock := none }
  else { s with noSender := true, lock := none, incarnations := s.incarnations.set i { inc with stage := .ended } }

def reconcile (d : Declaration) (s : World) (i : Nat) (inc : Incarnation) (lineages : List (String × Nat)) : World :=
  let r := reconcileStableIdentities (d.children i) s.channels.nested
  { s.setStage i inc (.reconciled lineages r.identities) with
    channels := { s.channels with nested := r.channels }
    closed := s.closed ++ r.closed.map (·.identity) }

/-- The entries of the static children; none when a lineage is missing. -/
def staticEntries (lineages : List (String × Nat)) (identities : NestedChannels) :
    List ChildDefinition → Option (List Entry)
  | [] => some []
  | c :: cs => do
    -- The map is collected from the rows, so the last row of an id counts.
    let lineage ← lineages.reverse.lookup c.id
    let entries ← staticEntries lineages identities cs
    pure (⟨initialRow lineage c, if c.kind.isSupervisor then identities.get c.id else none⟩ :: entries)

/-- The end of `SupervisorRuntime::new`. -/
def create (d : Declaration) (s : World) (i : Nat) (inc : Incarnation) (lineages : List (String × Nat))
    (identities : NestedChannels) : World :=
  match staticEntries lineages identities (d.children i) with
  | some entries =>
    { s with
      channels := { s.channels with
        nextLineage := entries.foldl (fun next e => max next (e.row.lineage + 1)) s.channels.nextLineage }
      incarnations := s.incarnations.set i
        { inc with
          stage := .running ⟨entries, .running, s.channels.snapshot.totalRestarts, none, none⟩
          members := entries.map fun e => ⟨e.row.id, e.row.lineage, true⟩ } }
  | none => s.setStage i inc .ended

/-- `add` and `add_nested` of an accepted child, up to the edit of the map. -/
def addChild (s : World) (i : Nat) (inc : Incarnation) (rt : Runtime) (child : ChildDefinition) : World :=
  let lineage := s.channels.nextLineage
  let nested := match child.kind with
    | .supervisor identity => some ⟨identity, false⟩
    | .task => none
  { s with
    channels := { s.channels with nextLineage := lineage + 1 }
    incarnations := s.incarnations.set i
      { inc with
        stage := .running { rt with
          entries := rt.entries ++ [⟨initialRow lineage child, nested⟩]
          accepted := nested.map fun c => (child.id, c) }
        members := inc.members ++ [⟨child.id, lineage, false⟩] } }

/-- `finalize_removal` of a child: the entry goes, then `retire_nested_identity`. -/
def remove (s : World) (i : Nat) (inc : Incarnation) (rt : Runtime) (id : String) (e : Entry) : World :=
  let s := s.setRuntime i inc { rt with entries := rt.entries.filter (·.row.id ≠ id) }
  match e.nested with
  | some child =>
    if s.channels.binding.owned i then
      { s with
        channels := { s.channels with
          nested := if s.channels.nested.get id = some child then s.channels.nested.remove id
            else s.channels.nested }
        closed := s.closed ++ [child.identity] }
    else s
  | none => s

def snapshotView (d : Declaration) (s : World) (rt : Runtime) : SupervisorSnapshot :=
  ⟨rt.state, d.kind, d.strategy, rt.totalRestarts, s.channels.seq, rt.entries.map (·.row)⟩

/-- `StableSupervisorChannels::publish_snapshot`. -/
def publishSnapshot (s : World) (i : Nat) (snapshot : SupervisorSnapshot) : World :=
  if s.channels.binding.owned i then
    if s.channels.snapshotsTx then { s with channels := { s.channels with snapshot := snapshot } }
    else { s with noSender := true }
  else s

/-- `StableBindingGuard::drop`. -/
def dropGuard (s : World) (i : Nat) : World :=
  if s.channels.binding.names i then
    { s with channels := { s.channels with
        binding := s.channels.binding.release i
        attached := s.channels.attached.invalidate } }
  else s

def step (d : Declaration) (s : World) : Action → Option World
  | .bind generation =>
    if s.lock.isSome ∨ (d.root ∧ s.incarnations ≠ []) then none
    -- A terminal identity refuses; `run_as_child` calls `terminal` again and returns.
    else if s.channels.binding.terminal then some s
    else some (s.bind d generation)
  | .mint i =>
    match s.incarnations[i]? with
    | some inc => match inc.stage with
      | .binding (child :: todo) rows prepared => some (s.mint i inc child todo rows prepared)
      | _ => none
    | none => none
  | .commit i =>
    match s.incarnations[i]? with
    | some inc => match inc.stage with
      | .binding [] rows prepared => some (s.commit d i inc rows prepared)
      | _ => none
    | none => none
  | .readLineages i =>
    match s.incarnations[i]? with
    | some inc => match inc.stage with
      | .bound => some (s.setStage i inc (.reading (s.channels.snapshot.children.map fun c => (c.id, c.lineage))))
      | _ => none
    | none => none
  | .reconcile i =>
    match s.incarnations[i]? with
    | some inc => match inc.stage with
      | .reading lineages => some (s.reconcile d i inc lineages)
      | _ => none
    | none => none
  | .create i =>
    match s.incarnations[i]? with
    | some inc => match inc.stage with
      | .reconciled lineages identities => some (s.create d i inc lineages identities)
      | _ => none
    | none => none
  | .work i k row =>
    match s.runtime i with
    | some (inc, rt) => match rt.entries[k]? with
      | some e =>
        if row.id = e.row.id ∧ row.lineage = e.row.lineage then
          some (s.setRuntime i inc { rt with entries := rt.entries.set k { e with row := row } })
        else none
      | none => none
    | none => none
  | .stop i state => (s.runtime i).map fun (inc, rt) => s.setRuntime i inc { rt with state := state }
  | .restart i =>
    (s.runtime i).map fun (inc, rt) => s.setRuntime i inc { rt with totalRestarts := rt.totalRestarts + 1 }
  | .emit i =>
    (s.runtime i).map fun _ => { s with channels := { s.channels with seq := s.channels.seq + 1 } }
  | .addChild i child =>
    match s.runtime i with
    | some (inc, rt) =>
      if d.kind = .dynamic ∧ child.id ≠ "" ∧ rt.entries.all (·.row.id ≠ child.id) then
        some (s.addChild i inc rt child)
      else none
    | none => none
  | .insertNested i =>
    match s.runtime i with
    | some (inc, rt) => match rt.accepted with
      | some (id, c) =>
        some { s.setRuntime i inc { rt with accepted := none } with
          channels := { s.channels with nested := s.channels.nested.insert id c } }
      | none => none
    | none => none
  | .remove i id =>
    match s.runtime i with
    | some (inc, rt) => match rt.entries.find? (·.row.id = id) with
      | some e => if s.lock.isSome ∧ e.nested.isSome then none else some (s.remove i inc rt id e)
      | none => none
    | none => none
  | .publishView i =>
    (s.runtime i).map fun (inc, rt) =>
      if s.channels.attached.accepts inc.generation i then
        { s with channels := { s.channels with
            attached := { s.channels.attached with children := rt.entries.map Entry.attached } } }
      else s
  | .viewSnapshot i =>
    (s.runtime i).map fun (inc, rt) => s.setRuntime i inc { rt with view := some (s.snapshotView d rt) }
  | .publishSnapshot i =>
    if s.lock.isSome then none else
    match s.runtime i with
    | some (inc, rt) => match rt.view with
      | some snapshot => some ((s.setRuntime i inc { rt with view := none }).publishSnapshot i snapshot)
      | none => none
    | none => none
  | .finish i =>
    match s.incarnations[i]? with
    | some inc => match inc.stage with
      | .binding .. => none
      | _ => some (s.setStage i inc .ended)
    | none => none
  | .dropGuard i =>
    if s.lock.isSome then none else
    match s.incarnations[i]? with
    | some inc => match d.root, inc.stage with
      -- A root's guard lives in the task of its runtime.
      | true, .ended => some (s.dropGuard i)
      | true, _ => none
      | false, _ => some (s.dropGuard i)
    | none => none
  | .terminalBinding =>
    if s.lock.isSome then none
    else some { s with channels := { s.channels with binding := s.channels.binding.makeTerminal } }
  | .terminalView =>
    if s.channels.binding.terminal then
      some { s with channels := { s.channels with attached := s.channels.attached.makeTerminal } }
    else none
  | .terminalSnapshot =>
    if s.channels.attached.terminal then some { s with channels := { s.channels with snapshotsTx := false } }
    else none
  | .terminalCascade =>
    if s.channels.snapshotsTx then none
    else some { s with closed := s.closed ++ s.channels.nested.map (·.2.identity) }
  | .hide =>
    if d.root then none
    else some { s with channels := { s.channels with attached := s.channels.attached.invalidate } }

/-! ## What a step can do -/

inductive Moves (d : Declaration) (s : World) : Action → World → Prop
  | refused (g : Nat) : s.lock = none → s.channels.binding.terminal = true → Moves d s (.bind g) s
  | bind (g : Nat) : s.lock = none → (d.root = true → s.incarnations = []) →
      s.channels.binding.terminal = false → Moves d s (.bind g) (s.bind d g)
  | mint {i : Nat} {inc : Incarnation} {child : ChildDefinition} {todo : List ChildDefinition}
      {rows : List ChildSnapshot} {prepared : List AttachedChild} :
      s.incarnations[i]? = some inc → inc.stage = .binding (child :: todo) rows prepared →
      Moves d s (.mint i) (s.mint i inc child todo rows prepared)
  | commit {i : Nat} {inc : Incarnation} {rows : List ChildSnapshot} {prepared : List AttachedChild} :
      s.incarnations[i]? = some inc → inc.stage = .binding [] rows prepared →
      Moves d s (.commit i) (s.commit d i inc rows prepared)
  | readLineages {i : Nat} {inc : Incarnation} : s.incarnations[i]? = some inc → inc.stage = .bound →
      Moves d s (.readLineages i)
        (s.setStage i inc (.reading (s.channels.snapshot.children.map fun c => (c.id, c.lineage))))
  | reconcile {i : Nat} {inc : Incarnation} {lineages : List (String × Nat)} :
      s.incarnations[i]? = some inc → inc.stage = .reading lineages →
      Moves d s (.reconcile i) (s.reconcile d i inc lineages)
  | create {i : Nat} {inc : Incarnation} {lineages : List (String × Nat)} {identities : NestedChannels} :
      s.incarnations[i]? = some inc → inc.stage = .reconciled lineages identities →
      Moves d s (.create i) (s.create d i inc lineages identities)
  | work {i k : Nat} {inc : Incarnation} {rt : Runtime} {e : Entry} {row : ChildSnapshot} :
      s.incarnations[i]? = some inc → inc.stage = .running rt → rt.entries[k]? = some e → row.id = e.row.id →
      row.lineage = e.row.lineage →
      Moves d s (.work i k row) (s.setRuntime i inc { rt with entries := rt.entries.set k { e with row := row } })
  | stop {i : Nat} {inc : Incarnation} {rt : Runtime} (state : SupervisorStateView) :
      s.incarnations[i]? = some inc → inc.stage = .running rt →
      Moves d s (.stop i state) (s.setRuntime i inc { rt with state := state })
  | restart {i : Nat} {inc : Incarnation} {rt : Runtime} :
      s.incarnations[i]? = some inc → inc.stage = .running rt →
      Moves d s (.restart i) (s.setRuntime i inc { rt with totalRestarts := rt.totalRestarts + 1 })
  | emit {i : Nat} {inc : Incarnation} {rt : Runtime} :
      s.incarnations[i]? = some inc → inc.stage = .running rt →
      Moves d s (.emit i) { s with channels := { s.channels with seq := s.channels.seq + 1 } }
  | addChild {i : Nat} {inc : Incarnation} {rt : Runtime} {child : ChildDefinition} :
      s.incarnations[i]? = some inc → inc.stage = .running rt →
      Moves d s (.addChild i child) (s.addChild i inc rt child)
  | insertNested {i : Nat} {inc : Incarnation} {rt : Runtime} {id : String} {c : StableChannels} :
      s.incarnations[i]? = some inc → inc.stage = .running rt → rt.accepted = some (id, c) →
      Moves d s (.insertNested i)
        { s.setRuntime i inc { rt with accepted := none } with
          channels := { s.channels with nested := s.channels.nested.insert id c } }
  | remove {i : Nat} {inc : Incarnation} {rt : Runtime} {id : String} {e : Entry} :
      s.incarnations[i]? = some inc → inc.stage = .running rt → rt.entries.find? (·.row.id = id) = some e →
      Moves d s (.remove i id) (s.remove i inc rt id e)
  | publishView {i : Nat} {inc : Incarnation} {rt : Runtime} :
      s.incarnations[i]? = some inc → inc.stage = .running rt →
      s.channels.attached.accepts inc.generation i = true →
      Moves d s (.publishView i) { s with channels := { s.channels with
        attached := { s.channels.attached with children := rt.entries.map Entry.attached } } }
  | publishNoView (i : Nat) : Moves d s (.publishView i) s
  | viewSnapshot {i : Nat} {inc : Incarnation} {rt : Runtime} :
      s.incarnations[i]? = some inc → inc.stage = .running rt →
      Moves d s (.viewSnapshot i) (s.setRuntime i inc { rt with view := some (s.snapshotView d rt) })
  | publishSnapshot {i : Nat} {inc : Incarnation} {rt : Runtime} {v : SupervisorSnapshot} : s.lock = none →
      s.incarnations[i]? = some inc → inc.stage = .running rt → rt.view = some v →
      Moves d s (.publishSnapshot i) ((s.setRuntime i inc { rt with view := none }).publishSnapshot i v)
  | finish {i : Nat} {inc : Incarnation} : s.incarnations[i]? = some inc →
      (∀ todo rows prepared, inc.stage ≠ .binding todo rows prepared) →
      Moves d s (.finish i) (s.setStage i inc .ended)
  | dropGuard {i : Nat} {inc : Incarnation} : s.lock = none → s.incarnations[i]? = some inc →
      (d.root = true → inc.stage = .ended) → Moves d s (.dropGuard i) (s.dropGuard i)
  | terminalBinding : s.lock = none → Moves d s .terminalBinding
      { s with channels := { s.channels with binding := s.channels.binding.makeTerminal } }
  | terminalView : s.channels.binding.terminal = true → Moves d s .terminalView
      { s with channels := { s.channels with attached := s.channels.attached.makeTerminal } }
  | terminalSnapshot : s.channels.attached.terminal = true → Moves d s .terminalSnapshot
      { s with channels := { s.channels with snapshotsTx := false } }
  | terminalCascade : Moves d s .terminalCascade
      { s with closed := s.closed ++ s.channels.nested.map (·.2.identity) }
  | hide : d.root = false → Moves d s .hide
      { s with channels := { s.channels with attached := s.channels.attached.invalidate } }

variable {d : Declaration} {s s' : World} {a : Action} {i j : Nat} {inc inc' x : Incarnation} {rt : Runtime}

theorem runtime_eq_some : s.runtime i = some (inc, rt) ↔ s.incarnations[i]? = some inc ∧ inc.stage = .running rt := by
  unfold runtime
  constructor
  · intro h
    split at h
    · split at h
      · cases h
        exact ⟨‹_›, ‹_›⟩
      · cases h
    · cases h
  · intro ⟨h, hr⟩
    simp [h, hr]

theorem step_moves (h : step d s a = some s') : Moves d s a s' := by
  cases a <;> simp only [step] at h
  case bind g =>
    split at h
    · cases h
    case isFalse hg =>
    simp only [not_or, not_and, Decidable.not_not, Option.not_isSome_iff_eq_none] at hg
    split at h
    case isTrue ht =>
      cases h
      exact .refused g hg.1 ht
    case isFalse ht =>
      cases h
      exact .bind g hg.1 hg.2 (by simpa using ht)
  case mint i =>
    split at h
    case h_2 => cases h
    case h_1 inc hinc =>
    split at h
    case h_2 => cases h
    case h_1 hst =>
    cases h
    exact .mint hinc hst
  case commit i =>
    split at h
    case h_2 => cases h
    case h_1 inc hinc =>
    split at h
    case h_2 => cases h
    case h_1 hst =>
    cases h
    exact .commit hinc hst
  case readLineages i =>
    split at h
    case h_2 => cases h
    case h_1 inc hinc =>
    split at h
    case h_2 => cases h
    case h_1 hst =>
    cases h
    exact .readLineages hinc hst
  case reconcile i =>
    split at h
    case h_2 => cases h
    case h_1 inc hinc =>
    split at h
    case h_2 => cases h
    case h_1 hst =>
    cases h
    exact .reconcile hinc hst
  case create i =>
    split at h
    case h_2 => cases h
    case h_1 inc hinc =>
    split at h
    case h_2 => cases h
    case h_1 hst =>
    cases h
    exact .create hinc hst
  case work i k row =>
    split at h
    case h_2 => cases h
    case h_1 inc rt hr =>
    obtain ⟨hinc, hst⟩ := runtime_eq_some.mp hr
    split at h
    case h_2 => cases h
    case h_1 e he =>
    split at h
    case isFalse => cases h
    case isTrue hrow =>
    cases h
    exact .work hinc hst he hrow.1 hrow.2
  case stop i state =>
    obtain ⟨⟨inc, rt⟩, hr, rfl⟩ := Option.map_eq_some_iff.mp h
    obtain ⟨hinc, hst⟩ := runtime_eq_some.mp hr
    exact .stop state hinc hst
  case restart i =>
    obtain ⟨⟨inc, rt⟩, hr, rfl⟩ := Option.map_eq_some_iff.mp h
    obtain ⟨hinc, hst⟩ := runtime_eq_some.mp hr
    exact .restart hinc hst
  case emit i =>
    obtain ⟨⟨inc, rt⟩, hr, rfl⟩ := Option.map_eq_some_iff.mp h
    obtain ⟨hinc, hst⟩ := runtime_eq_some.mp hr
    exact .emit hinc hst
  case addChild i child =>
    split at h
    case h_2 => cases h
    case h_1 inc rt hr =>
    obtain ⟨hinc, hst⟩ := runtime_eq_some.mp hr
    split at h
    case isFalse => cases h
    case isTrue =>
    cases h
    exact .addChild hinc hst
  case insertNested i =>
    split at h
    case h_2 => cases h
    case h_1 inc rt hr =>
    obtain ⟨hinc, hst⟩ := runtime_eq_some.mp hr
    split at h
    case h_2 => cases h
    case h_1 hacc =>
    cases h
    exact .insertNested hinc hst hacc
  case remove i id =>
    split at h
    case h_2 => cases h
    case h_1 inc rt hr =>
    obtain ⟨hinc, hst⟩ := runtime_eq_some.mp hr
    split at h
    case h_2 => cases h
    case h_1 e he =>
    split at h
    case isTrue => cases h
    case isFalse =>
    cases h
    exact .remove hinc hst he
  case publishView i =>
    obtain ⟨⟨inc, rt⟩, hr, rfl⟩ := Option.map_eq_some_iff.mp h
    obtain ⟨hinc, hst⟩ := runtime_eq_some.mp hr
    by_cases ha : s.channels.attached.accepts inc.generation i = true
    · simp only [ha, if_true]
      exact .publishView hinc hst ha
    · simp only [ha]
      exact .publishNoView i
  case viewSnapshot i =>
    obtain ⟨⟨inc, rt⟩, hr, rfl⟩ := Option.map_eq_some_iff.mp h
    obtain ⟨hinc, hst⟩ := runtime_eq_some.mp hr
    exact .viewSnapshot hinc hst
  case publishSnapshot i =>
    split at h
    case isTrue => cases h
    case isFalse hl =>
    split at h
    case h_2 => cases h
    case h_1 inc rt hr =>
    obtain ⟨hinc, hst⟩ := runtime_eq_some.mp hr
    split at h
    case h_2 => cases h
    case h_1 v hv =>
    cases h
    exact .publishSnapshot (by simpa using hl) hinc hst hv
  case finish i =>
    split at h
    case h_2 => cases h
    case h_1 inc hinc =>
    split at h
    case h_1 => cases h
    case h_2 hst =>
    cases h
    exact .finish hinc hst
  case dropGuard i =>
    split at h
    case isTrue => cases h
    case isFalse hl =>
    split at h
    case h_2 => cases h
    case h_1 inc hinc =>
    split at h
    case h_2 => cases h
    case h_1 hroot hst =>
      cases h
      exact .dropGuard (by simpa using hl) hinc fun _ => hst
    case h_3 hroot =>
      cases h
      exact .dropGuard (by simpa using hl) hinc (by simp [hroot])
  case terminalBinding =>
    split at h
    case isTrue => cases h
    case isFalse hl =>
    cases h
    exact .terminalBinding (by simpa using hl)
  case terminalView =>
    split at h
    case isFalse => cases h
    case isTrue ht =>
    cases h
    exact .terminalView ht
  case terminalSnapshot =>
    split at h
    case isFalse => cases h
    case isTrue ht =>
    cases h
    exact .terminalSnapshot ht
  case terminalCascade =>
    split at h
    case isTrue => cases h
    case isFalse =>
    cases h
    exact .terminalCascade
  case hide =>
    split at h
    case isTrue => cases h
    case isFalse hr =>
    cases h
    exact .hide (by simpa using hr)

end World

end Kokage.Identity

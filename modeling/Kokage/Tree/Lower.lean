/-
  Kokage.Tree.Lower — declaration trees and their lowering (`supervision.rs`: `ScopeNode`,
  `SupervisionChild`, `IdentityTree::into_parts`; `supervisor/builder.rs`:
  `OrderedSupervisorBuilder`, `DynamicSupervisorBuilder`; `supervisor/owner.rs`:
  `Supervisor`, `prepare_nested_channels`; `supervisor/handle.rs`:
  `StableSupervisorChannels::terminal`).

  Every scope of a tree reserves its stable identity when it is declared, so handles to it
  exist before the tree is lowered. Here an identity is a number. Who makes it terminal
  when lowering fails moves around: the reservation holds a builder whose drop does it;
  lowering a scope takes the builder out; a child declaration that was pushed into its
  parent's builder is claimed (`stable_channels` clears `terminalize_on_drop`), and from
  then on only the cascade through the parent's `nested_channels` reaches it. That map is
  keyed by child id.

  `Lowering` is what the recursion threads: the reservations not yet taken and, as a log,
  the identities made terminal so far. A drop is written out where the source's scope ends.

  Left out: what a child runs (its task factory, the actor's mailbox settings other than
  the capacity that is checked), attachments and snapshots.
-/

import Mathlib.Data.List.Nodup
import Kokage.Lib.Act
import Kokage.Supervisor.Types

namespace Kokage.Tree

open Kokage.Lib Kokage.Supervisor

/-! ## Declarations -/

/-- An actor declaration: already built, or deferred with the mailbox capacity it asks for. -/
structure ActorNode where
  label : String
  deferred : Bool
  mailboxCapacity : Option Nat
  restart : Option RestartPolicy
  shutdown : Option Shutdown
  removeOnTerminalExit : Bool
  deriving DecidableEq, Repr

def zeroMailboxCapacity : BuildError := .invalidConfig "actor mailbox capacity must be non-zero"

def ActorNode.validate (a : ActorNode) : Except BuildError Unit :=
  if a.deferred && a.mailboxCapacity.getD 1 = 0 then .error zeroMailboxCapacity else .ok ()

/-- A scope's settings and the reservation `IdentityTree::new` made for it. -/
structure ScopeConfig where
  strategy : Strategy
  defaultChildRestart : RestartPolicy
  defaultChildShutdown : Shutdown
  defaultActorMailboxCapacity : Nat
  reservation : Nat
  deriving DecidableEq, Repr

mutual

inductive ScopeNode where
  | ordered (config : ScopeConfig) (children : List SupervisionChild)
  | dynamic (config : ScopeConfig)

inductive SupervisionChild where
  | actor (node : ActorNode)
  | task (definition : ChildDefinition)
  | scope (id : String) (node : ScopeNode) (restart : Option RestartPolicy) (shutdown : Option Shutdown)

end

def ScopeNode.config : ScopeNode → ScopeConfig
  | .ordered config _ => config
  | .dynamic config => config

/-! ## Built supervisors -/

/-- A stable identity and the nested identities its cascade reaches, by child id. -/
inductive Channels where
  | mk (identity : Nat) (nested : List (String × Channels))

mutual

/-- `StableSupervisorChannels::terminal`: what becomes terminal, in order. -/
def Channels.terminal : Channels → List Nat
  | .mk identity nested => identity :: terminalAll nested

def terminalAll : List (String × Channels) → List Nat
  | [] => []
  | (_, channels) :: rest => channels.terminal ++ terminalAll rest

end

mutual

inductive BuiltSupervisor where
  | mk (children : List ChildSpec) (channels : Channels) (terminalizeOnDrop : Bool)

inductive ChildSpec where
  | task (definition : ChildDefinition)
  | supervisor (definition : ChildDefinition) (supervisor : BuiltSupervisor)

end

def BuiltSupervisor.channels : BuiltSupervisor → Channels
  | .mk _ channels _ => channels

def BuiltSupervisor.children : BuiltSupervisor → List ChildSpec
  | .mk children _ _ => children

def Channels.identity : Channels → Nat
  | .mk identity _ => identity

/-- `stable_channels`: the parent edge takes over. -/
def BuiltSupervisor.claim : BuiltSupervisor → BuiltSupervisor
  | .mk children channels _ => .mk children channels false

namespace ChildSpec

def definition : ChildSpec → ChildDefinition
  | task definition => definition
  | supervisor definition _ => definition

def mapDefinition (f : ChildDefinition → ChildDefinition) : ChildSpec → ChildSpec
  | task definition => task (f definition)
  | supervisor definition s => supervisor (f definition) s

def claim : ChildSpec → ChildSpec
  | task definition => task definition
  | supervisor definition s => supervisor definition s.claim

end ChildSpec

mutual

/-- What dropping a declaration makes terminal. -/
def BuiltSupervisor.drop : BuiltSupervisor → List Nat
  | .mk children channels terminalizeOnDrop => (if terminalizeOnDrop then channels.terminal else []) ++ dropAll children

def ChildSpec.drop : ChildSpec → List Nat
  | .task _ => []
  | .supervisor _ s => s.drop

def dropAll : List ChildSpec → List Nat
  | [] => []
  | c :: rest => c.drop ++ dropAll rest

end

/-! ## Builders -/

/-- `HashMap::insert`: an earlier entry under the same key is replaced. -/
def insertNested (map : List (String × Channels)) (id : String) (channels : Channels) : List (String × Channels) :=
  map.filter (fun entry => entry.1 ≠ id) ++ [(id, channels)]

/-- One round of `prepare_nested_channels`. -/
def prepareChild (map : List (String × Channels)) : ChildSpec → List (String × Channels)
  | .task _ => map
  | .supervisor definition s => insertNested map definition.id s.channels

def prepareNestedChannels (children : List ChildSpec) : List (String × Channels) := children.foldl prepareChild []

structure OrderedSupervisorBuilder where
  strategy : Strategy
  defaultChildRestart : RestartPolicy
  defaultChildShutdown : Shutdown
  children : List ChildSpec
  identity : Nat
  nested : List (String × Channels)

namespace OrderedSupervisorBuilder

/-- The builder a reservation holds, under the settings `lower` applies. -/
def reserved (config : ScopeConfig) (identity : Nat) : OrderedSupervisorBuilder :=
  ⟨config.strategy, config.defaultChildRestart, config.defaultChildShutdown, [], identity, []⟩

/-- `child_spec`: the child is pushed and the declared view refreshed, which claims every
    nested declaration and rebuilds the map. -/
def childSpec (b : OrderedSupervisorBuilder) (child : ChildSpec) : OrderedSupervisorBuilder :=
  let children := b.children ++ [child]
  { b with children := children.map ChildSpec.claim, nested := prepareNestedChannels children }

/-- `Drop`: the reserved identity ends, with what its map reaches; then the fields drop. -/
def drop (b : OrderedSupervisorBuilder) : List Nat := (Channels.mk b.identity b.nested).terminal ++ dropAll b.children

/-- The loop of `build`. -/
def validateChildren (seen : List String) : List ChildDefinition → Except BuildError Unit
  | [] => .ok ()
  | d :: rest => do
    if d.id = "" then throw (.invalidConfig "child id must not be empty")
    d.restart.validate
    if d.id ∈ seen then throw (.duplicateChildId d.id)
    validateChildren (d.id :: seen) rest

def validate (b : OrderedSupervisorBuilder) : Except BuildError Unit := do
  b.defaultChildRestart.validate
  validateChildren [] (b.children.map (·.definition))

/-- The supervisor a valid builder becomes. -/
def built (b : OrderedSupervisorBuilder) : BuiltSupervisor :=
  let children := b.children.map (·.mapDefinition (·.applyDefaults b.defaultChildRestart b.defaultChildShutdown))
  .mk (children.map ChildSpec.claim) (.mk b.identity (prepareNestedChannels children)) true

end OrderedSupervisorBuilder

/-! ## Lowering -/

structure Lowering where
  reservations : List Nat
  /-- An identity nobody reserved, for a scope whose reservation is not there. -/
  fresh : Nat
  /-- Every identity made terminal. -/
  terminated : List Nat
  deriving DecidableEq, Repr

def Lowering.terminate (s : Lowering) (ids : List Nat) : Lowering := { s with terminated := s.terminated ++ ids }

abbrev LowerM := Act Lowering BuildError

/-- Run `m`; when it fails, `dropped` goes out of scope. -/
def dropping {α : Type} (dropped : List Nat) (m : LowerM α) : LowerM α := fun s =>
  match m s with
  | (.ok a, s') => (.ok a, s')
  | (.error e, s') => (.error e, s'.terminate dropped)

def lift {α : Type} : Except BuildError α → LowerM α
  | .ok a => pure a
  | .error e => Act.fail e

/-- The reservation of the scope, taken out of those left. -/
def takeReservation (config : ScopeConfig) : LowerM Nat := fun s =>
  if config.reservation ∈ s.reservations then
    (.ok config.reservation, { s with reservations := s.reservations.erase config.reservation })
  else (.ok s.fresh, { s with fresh := s.fresh + 1 })

def OrderedSupervisorBuilder.build (b : OrderedSupervisorBuilder) : LowerM BuiltSupervisor := do
  dropping b.drop (lift b.validate)
  pure b.built

/-- `DynamicSupervisorBuilder::build`: no children to check. -/
def buildDynamic (config : ScopeConfig) (identity : Nat) : LowerM BuiltSupervisor := do
  dropping [identity] (lift config.defaultChildRestart.validate)
  pure (.mk [] (.mk identity []) true)

def checkCapacity (config : ScopeConfig) : Except BuildError Unit :=
  if config.defaultActorMailboxCapacity = 0 then .error zeroMailboxCapacity else .ok ()

/-- `actor_child_spec`, as far as its declaration goes. -/
def actorDefinition (config : ScopeConfig) (a : ActorNode) : ChildDefinition where
  id := a.label
  restart := a.restart.getD config.defaultChildRestart
  restartIsDefault := false
  shutdownPolicy := a.shutdown.getD config.defaultChildShutdown
  shutdownIsDefault := false
  removeOnTerminalExit := a.removeOnTerminalExit
  readiness := .automatic

/-- `ChildSpec::supervisor` with the policies the subtree was added with. -/
def scopeDefinition (id : String) (identity : Nat) (restart : Option RestartPolicy) (shutdown : Option Shutdown) :
    ChildDefinition where
  id := id
  restart := restart.getD .default
  restartIsDefault := restart.isNone
  shutdownPolicy := shutdown.getD .default
  shutdownIsDefault := shutdown.isNone
  readiness := .automatic
  kind := .supervisor identity

mutual

def ScopeNode.lower : ScopeNode → LowerM BuiltSupervisor
  | .dynamic config => do
    lift (checkCapacity config)
    let identity ← takeReservation config
    buildDynamic config identity
  | .ordered config children => do
    lift (checkCapacity config)
    let identity ← takeReservation config
    let builder ← lowerChildren config (.reserved config identity) children
    builder.build

def lowerChildren (config : ScopeConfig) (builder : OrderedSupervisorBuilder) :
    List SupervisionChild → LowerM OrderedSupervisorBuilder
  | [] => pure builder
  | child :: rest => do
    let builder ← child.lower config builder
    lowerChildren config builder rest

/-- The builder is moved in: a child that fails drops it. -/
def SupervisionChild.lower (config : ScopeConfig) (builder : OrderedSupervisorBuilder) :
    SupervisionChild → LowerM OrderedSupervisorBuilder
  | .actor node => do
    dropping builder.drop (lift node.validate)
    pure (builder.childSpec (.task (actorDefinition config node)))
  | .task definition => pure (builder.childSpec (.task definition))
  | .scope id node restart shutdown => do
    let nested ← dropping builder.drop node.lower
    pure (builder.childSpec (.supervisor (scopeDefinition id nested.channels.identity restart shutdown) nested))

end

/-! ## Identity trees -/

mutual

/-- The reservations of all scopes of a tree. -/
def ScopeNode.identities : ScopeNode → List Nat
  | .dynamic config => [config.reservation]
  | .ordered config children => config.reservation :: identitiesOf children

def identitiesOf : List SupervisionChild → List Nat
  | [] => []
  | child :: rest => child.identities ++ identitiesOf rest

def SupervisionChild.identities : SupervisionChild → List Nat
  | .actor _ => []
  | .task _ => []
  | .scope _ node _ _ => node.identities

end

/-- A declaration with the identities it owns: one for every scope, all different
    (`NEXT_RESERVATION_ID` never repeats). -/
structure IdentityTree where
  node : ScopeNode
  reservations : List Nat
  reserved : reservations.Perm node.identities
  nodup : reservations.Nodup

theorem identitiesOf_append : ∀ (children : List SupervisionChild) (child : SupervisionChild),
    identitiesOf (children ++ [child]) = identitiesOf children ++ child.identities
  | [], child => by simp [identitiesOf]
  | c :: rest, child => by
    rw [List.cons_append, identitiesOf, identitiesOf, identitiesOf_append rest child, List.append_assoc]

namespace IdentityTree

/-- `IdentityTree::new` for an empty ordered scope, and for a dynamic one. -/
def ordered (config : ScopeConfig) : IdentityTree where
  node := .ordered config []
  reservations := [config.reservation]
  reserved := by simp [ScopeNode.identities, identitiesOf]
  nodup := List.nodup_singleton _

def dynamic (config : ScopeConfig) : IdentityTree where
  node := .dynamic config
  reservations := [config.reservation]
  reserved := by simp [ScopeNode.identities]
  nodup := List.nodup_singleton _

/-- `add_actor`, `add_task` and `add_subtree`: an ordered scope takes in a child with the
    reservations `own` that come with it. -/
def addChild (t : IdentityTree) (config : ScopeConfig) (children : List SupervisionChild)
    (ht : t.node = .ordered config children) (child : SupervisionChild) (own : List Nat)
    (hown : own.Perm child.identities) (hnodup : own.Nodup) (hnew : t.reservations.Disjoint own) : IdentityTree where
  node := .ordered config (children ++ [child])
  reservations := t.reservations ++ own
  reserved := by
    have hold := t.reserved
    rw [ht, ScopeNode.identities] at hold
    rw [ScopeNode.identities, identitiesOf_append]
    exact hold.append hown
  nodup := t.nodup.append hnodup hnew

/-- `into_parts`. On an error the reservations that are left drop, each with its builder. -/
def intoParts (t : IdentityTree) : Except BuildError BuiltSupervisor × Lowering :=
  match t.node.lower ⟨t.reservations, t.reservations.foldr max 0 + 1, []⟩ with
  | (.ok s, l) => (.ok s, l)
  | (.error e, l) => (.error e, { l.terminate l.reservations with reservations := [] })

end IdentityTree

end Kokage.Tree

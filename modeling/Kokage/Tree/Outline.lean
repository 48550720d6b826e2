/-
  Kokage.Tree.Outline — what a declaration tree says about itself before it runs
  (`supervision.rs`: `ScopeNode::outline`, `SupervisionChild::outline`, `refresh_root`,
  `map_tree`, `add_actor`, `add_task`, `add_subtree`; `supervisor/handle.rs`:
  `project_declared_children`).

  The outline and the declared view are read off the declaration; the configuration comes
  out of the builders that lowering fills. Each resolves the inherited policies by itself.
  `lowering_agrees`: they list the same children with the same policies in every scope,
  every reservation is used up, and the lineages shown before the tree runs are those the
  first bind of the scope mints.

  Left out: mailbox settings in the outline.
-/

import Mathlib.Data.List.Forall2
import Kokage.Identity.Lineages
import Kokage.Tree.Terminality

namespace Kokage.Tree

open Kokage.Lib Kokage.Supervisor

/-! ## Outlines -/

mutual

inductive SupervisionOutline where
  | mk (kind : ScopeKind) (strategy : Strategy) (defaultChildRestart : RestartPolicy) (defaultChildShutdown : Shutdown)
    (children : List ChildOutline)

inductive ChildOutline where
  | actor (id : String) (restart : RestartPolicy) (shutdown : Shutdown) (removeOnTerminalExit : Bool)
  | task (id : String) (restart : RestartPolicy) (shutdown : Shutdown) (removeOnTerminalExit : Bool)
  | scope (id : String) (restart : RestartPolicy) (shutdown : Shutdown) (outline : SupervisionOutline)

end

def SupervisionOutline.children : SupervisionOutline → List ChildOutline
  | .mk _ _ _ _ children => children

/-- `ChildSpec::resolved_policies`. -/
def resolvedPolicies (d : ChildDefinition) (defaultChildRestart : RestartPolicy) (defaultChildShutdown : Shutdown) :
    RestartPolicy × Shutdown :=
  (if d.restartIsDefault then defaultChildRestart else d.restart,
    if d.shutdownIsDefault then defaultChildShutdown else d.shutdownPolicy)

mutual

def ScopeNode.outline : ScopeNode → SupervisionOutline
  | .ordered config children =>
    .mk .ordered config.strategy config.defaultChildRestart config.defaultChildShutdown (outlineAll config children)
  | .dynamic config => .mk .dynamic config.strategy config.defaultChildRestart config.defaultChildShutdown []

def outlineAll (config : ScopeConfig) : List SupervisionChild → List ChildOutline
  | [] => []
  | child :: rest => child.outline config :: outlineAll config rest

def SupervisionChild.outline (config : ScopeConfig) : SupervisionChild → ChildOutline
  | .actor node =>
    .actor node.label (node.restart.getD config.defaultChildRestart) (node.shutdown.getD config.defaultChildShutdown)
      node.removeOnTerminalExit
  | .task definition =>
    let (restart, shutdown) := resolvedPolicies definition config.defaultChildRestart config.defaultChildShutdown
    .task definition.id restart shutdown definition.removeOnTerminalExit
  | .scope id node restart shutdown =>
    .scope id (restart.getD config.defaultChildRestart) (shutdown.getD config.defaultChildShutdown) node.outline

end

/-! ## The declared view -/

/-- The children a reserved identity shows, by identity. -/
abbrev Views := Nat → List ChildSnapshot

/-- Id, restart policy and removal flag, as `refresh_root` reads them. -/
def SupervisionChild.projected (config : ScopeConfig) : SupervisionChild → String × RestartPolicy × Bool
  | .actor node => (node.label, node.restart.getD config.defaultChildRestart, node.removeOnTerminalExit)
  | .task definition =>
    (definition.id, (resolvedPolicies definition config.defaultChildRestart config.defaultChildShutdown).1,
      definition.removeOnTerminalExit)
  | .scope id _ restart _ => (id, restart.getD config.defaultChildRestart, false)

def ScopeNode.projected : ScopeNode → List (String × RestartPolicy × Bool)
  | .ordered config children => children.map (·.projected config)
  | .dynamic _ => []

def projectDeclaredChildren (children : List (String × RestartPolicy × Bool)) : List ChildSnapshot :=
  children.mapIdx fun lineage (id, restart, removeOnTerminalExit) =>
    { id := id
      lineage := lineage
      generation := 0
      state := .starting none
      membership := .active
      restartCount := 0
      restartPolicy := restart
      removeOnTerminalExit := removeOnTerminalExit
      nextRestartIn := none
      supervisor := none }

/-- Only an ordered scope has a view to project; a dynamic one stays empty. -/
def refreshRoot (node : ScopeNode) (views : Views) : Views :=
  match node with
  | .ordered config _ => Function.update views config.reservation (projectDeclaredChildren node.projected)
  | .dynamic _ => views

/-- The setters of a scope. -/
inductive Setting where
  | strategy (strategy : Strategy)
  | defaultChildRestart (restart : RestartPolicy)
  | defaultChildShutdown (shutdown : Shutdown)
  | defaultActorMailboxCapacity (capacity : Nat)
  deriving DecidableEq, Repr

def Setting.apply (config : ScopeConfig) : Setting → ScopeConfig
  | .strategy s => { config with strategy := s }
  | .defaultChildRestart restart => { config with defaultChildRestart := restart }
  | .defaultChildShutdown shutdown => { config with defaultChildShutdown := shutdown }
  | .defaultActorMailboxCapacity capacity => { config with defaultActorMailboxCapacity := capacity }

@[simp] theorem Setting.apply_reservation (config : ScopeConfig) (setting : Setting) :
    (setting.apply config).reservation = config.reservation := by
  cases setting <;> rfl

def ScopeNode.set (setting : Setting) : ScopeNode → ScopeNode
  | .ordered config children => .ordered (setting.apply config) children
  | .dynamic config => .dynamic (setting.apply config)

theorem ScopeNode.set_identities (setting : Setting) (n : ScopeNode) : (n.set setting).identities = n.identities := by
  cases n <;> simp [ScopeNode.set, ScopeNode.identities]

namespace IdentityTree

def set (t : IdentityTree) (setting : Setting) : IdentityTree where
  node := t.node.set setting
  reservations := t.reservations
  reserved := by
    rw [ScopeNode.set_identities]
    exact t.reserved
  nodup := t.nodup

/-- `add_actor` and `add_task`. -/
def addLeaf (t : IdentityTree) (config : ScopeConfig) (children : List SupervisionChild)
    (ht : t.node = .ordered config children) (child : SupervisionChild) (hleaf : child.identities = []) : IdentityTree :=
  t.addChild config children ht child [] (by rw [hleaf]) List.nodup_nil (List.disjoint_nil_right _)

def addSubtree (t : IdentityTree) (config : ScopeConfig) (children : List SupervisionChild)
    (ht : t.node = .ordered config children) (id : String) (sub : IdentityTree) (restart : Option RestartPolicy)
    (shutdown : Option Shutdown) (hnew : t.reservations.Disjoint sub.reservations) : IdentityTree :=
  t.addChild config children ht (.scope id sub.node restart shutdown) sub.reservations
    (by rw [SupervisionChild.identities]; exact sub.reserved) sub.nodup hnew

end IdentityTree

/-- The trees that can be declared, with the views their identities show. Each tree is
    changed by its owner; what others do shows up under identities it does not have. -/
inductive Declared : IdentityTree → Views → Prop
  | ordered (config : ScopeConfig) (views : Views) :
      Declared (.ordered config) (refreshRoot (.ordered config []) views)
  | dynamic (config : ScopeConfig) (views : Views) (hnew : views config.reservation = []) :
      Declared (.dynamic config) (refreshRoot (.dynamic config) views)
  | set {t : IdentityTree} {views : Views} (h : Declared t views) (setting : Setting) :
      Declared (t.set setting) (refreshRoot (t.set setting).node views)
  | addLeaf {t : IdentityTree} {views : Views} (h : Declared t views) {config : ScopeConfig}
      {children : List SupervisionChild} (ht : t.node = .ordered config children) (child : SupervisionChild)
      (hleaf : child.identities = []) :
      Declared (t.addLeaf config children ht child hleaf)
        (refreshRoot (t.addLeaf config children ht child hleaf).node views)
  | addSubtree {t sub : IdentityTree} {views : Views} (h : Declared t views) (hsub : Declared sub views)
      {config : ScopeConfig} {children : List SupervisionChild} (ht : t.node = .ordered config children) (id : String)
      (restart : Option RestartPolicy) (shutdown : Option Shutdown) (hnew : t.reservations.Disjoint sub.reservations) :
      Declared (t.addSubtree config children ht id sub restart shutdown hnew)
        (refreshRoot (t.addSubtree config children ht id sub restart shutdown hnew).node views)
  | others {t : IdentityTree} {views views' : Views} (h : Declared t views)
      (heq : ∀ i ∈ t.reservations, views' i = views i) : Declared t views'

/-! ## Scopes, outermost first -/

mutual

def ScopeNode.scopes : ScopeNode → List ScopeNode
  | .ordered config children => .ordered config children :: scopesOf children
  | .dynamic config => [.dynamic config]

def scopesOf : List SupervisionChild → List ScopeNode
  | [] => []
  | child :: rest => child.scopes ++ scopesOf rest

def SupervisionChild.scopes : SupervisionChild → List ScopeNode
  | .actor _ => []
  | .task _ => []
  | .scope _ node _ _ => node.scopes

end

mutual

def SupervisionOutline.scopes : SupervisionOutline → List SupervisionOutline
  | .mk kind strategy restart shutdown children => .mk kind strategy restart shutdown children :: outlinesOf children

def outlinesOf : List ChildOutline → List SupervisionOutline
  | [] => []
  | child :: rest => child.scopes ++ outlinesOf rest

def ChildOutline.scopes : ChildOutline → List SupervisionOutline
  | .actor .. => []
  | .task .. => []
  | .scope _ _ _ outline => outline.scopes

end

mutual

def BuiltSupervisor.scopes : BuiltSupervisor → List BuiltSupervisor
  | .mk children channels terminalizeOnDrop => .mk children channels terminalizeOnDrop :: builtOf children

def builtOf : List ChildSpec → List BuiltSupervisor
  | [] => []
  | child :: rest => child.scopes ++ builtOf rest

def ChildSpec.scopes : ChildSpec → List BuiltSupervisor
  | .task _ => []
  | .supervisor _ s => s.scopes

end

/-- The children of a `SupervisorConfig`. -/
def BuiltSupervisor.definitions (s : BuiltSupervisor) : List ChildDefinition := s.children.map (·.definition)

mutual

theorem reservations_scopes : ∀ n : ScopeNode, n.scopes.map (·.config.reservation) = n.identities
  | .ordered config children => by
    rw [ScopeNode.scopes, ScopeNode.identities, List.map_cons, reservations_scopesOf children]
    rfl
  | .dynamic config => by
    rw [ScopeNode.scopes, ScopeNode.identities]
    rfl

theorem reservations_scopesOf : ∀ children : List SupervisionChild,
    (scopesOf children).map (·.config.reservation) = identitiesOf children
  | [] => by rw [scopesOf, identitiesOf, List.map_nil]
  | .actor a :: rest => by
    rw [scopesOf, identitiesOf, SupervisionChild.scopes, SupervisionChild.identities, List.nil_append, List.nil_append]
    exact reservations_scopesOf rest
  | .task d :: rest => by
    rw [scopesOf, identitiesOf, SupervisionChild.scopes, SupervisionChild.identities, List.nil_append, List.nil_append]
    exact reservations_scopesOf rest
  | .scope id node restart shutdown :: rest => by
    rw [scopesOf, identitiesOf, SupervisionChild.scopes, SupervisionChild.identities, List.map_append,
      reservations_scopes node, reservations_scopesOf rest]

end

mutual

theorem scopes_outline : ∀ n : ScopeNode, n.outline.scopes = n.scopes.map ScopeNode.outline
  | .ordered config children => by
    rw [ScopeNode.scopes, List.map_cons, ← outlinesOf_outlineAll config children, ScopeNode.outline,
      SupervisionOutline.scopes]
  | .dynamic config => by
    rw [ScopeNode.scopes, List.map_cons, List.map_nil, ScopeNode.outline, SupervisionOutline.scopes, outlinesOf]

theorem outlinesOf_outlineAll (config : ScopeConfig) : ∀ children : List SupervisionChild,
    outlinesOf (outlineAll config children) = (scopesOf children).map ScopeNode.outline
  | [] => by rw [outlineAll, outlinesOf, scopesOf, List.map_nil]
  | .actor a :: rest => by
    rw [outlineAll, outlinesOf, SupervisionChild.outline, ChildOutline.scopes, scopesOf, SupervisionChild.scopes,
      outlinesOf_outlineAll config rest, List.nil_append, List.nil_append]
  | .task d :: rest => by
    rw [outlineAll, outlinesOf, SupervisionChild.outline, ChildOutline.scopes, scopesOf, SupervisionChild.scopes,
      outlinesOf_outlineAll config rest, List.nil_append, List.nil_append]
  | .scope id node restart shutdown :: rest => by
    rw [outlineAll, outlinesOf, SupervisionChild.outline, ChildOutline.scopes, scopesOf, SupervisionChild.scopes,
      outlinesOf_outlineAll config rest, scopes_outline node, List.map_append]

end

/-! ## The declared view is up to date -/

/-- Every identity of the tree shows the children its scope has now. -/
def Shows (n : ScopeNode) (views : Views) : Prop :=
  ∀ m ∈ n.scopes, views m.config.reservation = projectDeclaredChildren m.projected

theorem mem_identities_of_scopes {n m : ScopeNode} (h : m ∈ n.scopes) : m.config.reservation ∈ n.identities := by
  rw [← reservations_scopes]
  exact List.mem_map_of_mem h

theorem scopesOf_append (children : List SupervisionChild) (child : SupervisionChild) :
    scopesOf (children ++ [child]) = scopesOf children ++ child.scopes := by
  induction children with
  | nil => simp [scopesOf]
  | cons c rest ih => rw [List.cons_append, scopesOf, scopesOf, ih, List.append_assoc]

/-- Refreshing an ordered scope touches its own view only. -/
theorem shows_refreshRoot {config : ScopeConfig} {children : List SupervisionChild} {views : Views}
    (hnodup : (ScopeNode.ordered config children).identities.Nodup)
    (hbelow : ∀ m ∈ scopesOf children, views m.config.reservation = projectDeclaredChildren m.projected) :
    Shows (.ordered config children) (refreshRoot (.ordered config children) views) := by
  intro m hm
  rw [ScopeNode.identities, List.nodup_cons] at hnodup
  rw [ScopeNode.scopes] at hm
  rcases List.mem_cons.mp hm with rfl | hm
  · simp [refreshRoot, ScopeNode.config]
  · have hne : m.config.reservation ≠ config.reservation := by
      intro he
      rw [← he, ← reservations_scopesOf] at hnodup
      exact hnodup.1 (List.mem_map_of_mem hm)
    rw [refreshRoot, Function.update_of_ne hne]
    exact hbelow m hm

theorem IdentityTree.identities_nodup (t : IdentityTree) : t.node.identities.Nodup := t.reserved.nodup_iff.mp t.nodup

/-- A child with its scopes is added to a scope. -/
theorem Shows.addChild {t : IdentityTree} {config : ScopeConfig} {children : List SupervisionChild}
    {ht : t.node = .ordered config children} {child : SupervisionChild} {own : List Nat}
    {hown : own.Perm child.identities} {hnodup : own.Nodup} {hnew : t.reservations.Disjoint own} {views : Views}
    (h : Shows t.node views)
    (hchild : ∀ m ∈ child.scopes, views m.config.reservation = projectDeclaredChildren m.projected) :
    Shows (t.addChild config children ht child own hown hnodup hnew).node
      (refreshRoot (t.addChild config children ht child own hown hnodup hnew).node views) := by
  refine shows_refreshRoot (t.addChild config children ht child own hown hnodup hnew).identities_nodup ?_
  intro m hm
  rw [scopesOf_append] at hm
  rcases List.mem_append.mp hm with hm | hm
  · refine h m ?_
    rw [ht, ScopeNode.scopes]
    exact List.mem_cons_of_mem _ hm
  · exact hchild m hm

theorem Declared.shows {t : IdentityTree} {views : Views} (h : Declared t views) : Shows t.node views := by
  induction h with
  | ordered config views =>
    exact shows_refreshRoot (IdentityTree.ordered config).identities_nodup (by simp [scopesOf])
  | dynamic config views hnew =>
    intro m hm
    obtain rfl : m = .dynamic config := by simpa [IdentityTree.dynamic, ScopeNode.scopes] using hm
    exact hnew
  | @set t views _ setting ih =>
    cases hn : t.node with
    | ordered config children =>
      have hset : (t.set setting).node = .ordered (setting.apply config) children := congrArg (·.set setting) hn
      have hnodup := (t.set setting).identities_nodup
      rw [hset] at hnodup ⊢
      refine shows_refreshRoot hnodup fun m hm => ih m ?_
      rw [hn, ScopeNode.scopes]
      exact List.mem_cons_of_mem _ hm
    | dynamic config =>
      have hset : (t.set setting).node = .dynamic (setting.apply config) := congrArg (·.set setting) hn
      rw [hset]
      intro m hm
      obtain rfl : m = .dynamic (setting.apply config) := by simpa [ScopeNode.scopes] using hm
      have hold := ih (.dynamic config) (by rw [hn, ScopeNode.scopes]; exact List.mem_singleton_self _)
      simpa [refreshRoot, ScopeNode.config, ScopeNode.projected] using hold
  | addLeaf _ ht child hleaf ih =>
    refine Shows.addChild ih fun m hm => ?_
    cases child with
    | actor a => simp [SupervisionChild.scopes] at hm
    | task d => simp [SupervisionChild.scopes] at hm
    | scope id node restart shutdown =>
      have hin := mem_identities_of_scopes (by simpa [SupervisionChild.scopes] using hm)
      rw [SupervisionChild.identities] at hleaf
      rw [hleaf] at hin
      cases hin
  | addSubtree _ _ ht id restart shutdown hnew ih ihsub =>
    refine Shows.addChild ih fun m hm => ihsub m ?_
    simpa [SupervisionChild.scopes] using hm
  | @others t views views' _ heq ih =>
    intro m hm
    rw [heq _ (t.reserved.mem_iff.mpr (mem_identities_of_scopes hm))]
    exact ih m hm

/-! ## What lowering makes of a scope -/

/-- The definitions of a scope's children in its configuration. -/
def ScopeNode.lowered : ScopeNode → List ChildDefinition
  | .ordered config children =>
    children.map fun c => (c.declared config).applyDefaults config.defaultChildRestart config.defaultChildShutdown
  | .dynamic _ => []

structure Matches (n : ScopeNode) (s : BuiltSupervisor) : Prop where
  identity : s.channels.identity = n.config.reservation
  definitions : s.definitions = n.lowered

structure MatchesChild (config : ScopeConfig) (child : SupervisionChild) (spec : ChildSpec) : Prop where
  definition : spec.definition = child.declared config
  scopes : List.Forall₂ Matches child.scopes spec.scopes

theorem forall₂_claim {ns : List ScopeNode} {c : ChildSpec} (h : List.Forall₂ Matches ns c.scopes) :
    List.Forall₂ Matches ns c.claim.scopes := by
  cases c with
  | task d => exact h
  | supervisor d s =>
    obtain ⟨children, channels, flag⟩ := s
    simp only [ChildSpec.claim, BuiltSupervisor.claim, ChildSpec.scopes, BuiltSupervisor.scopes] at h ⊢
    cases h with
    | cons hroot hrest => exact .cons ⟨hroot.identity, hroot.definitions⟩ hrest

theorem MatchesChild.claim {config : ScopeConfig} {child : SupervisionChild} {spec : ChildSpec}
    (h : MatchesChild config child spec) : MatchesChild config child spec.claim where
  definition := (claim_definition spec).trans h.definition
  scopes := forall₂_claim h.scopes

/-- A child is pushed; the ones before it are claimed again. -/
theorem MatchesChild.childSpec {config : ScopeConfig} {done : List SupervisionChild} {b : OrderedSupervisorBuilder}
    (child : SupervisionChild) (spec : ChildSpec) (hdone : List.Forall₂ (MatchesChild config) done b.children)
    (h : MatchesChild config child spec) :
    List.Forall₂ (MatchesChild config) (done ++ [child]) (b.childSpec spec).children := by
  have hall : List.Forall₂ (MatchesChild config) (done ++ [child]) (b.children ++ [spec]) :=
    List.rel_append hdone (.cons h .nil)
  exact List.forall₂_map_right_iff.mpr (hall.imp fun _ _ hc => hc.claim)

theorem forall₂_builtOf {config : ScopeConfig} {children : List SupervisionChild} {specs : List ChildSpec}
    (h : List.Forall₂ (MatchesChild config) children specs) :
    List.Forall₂ Matches (scopesOf children) (builtOf specs) := by
  induction h with
  | nil => simp [scopesOf, builtOf]
  | cons hc _ ih =>
    rw [scopesOf, builtOf]
    exact List.rel_append hc.scopes ih

theorem definitions_of_matches {config : ScopeConfig} {children : List SupervisionChild} {specs : List ChildSpec}
    (h : List.Forall₂ (MatchesChild config) children specs) :
    specs.map (·.definition) = children.map (·.declared config) := by
  induction h with
  | nil => rfl
  | cons hc _ ih => rw [List.map_cons, List.map_cons, hc.definition, ih]

theorem definitions_built {config : ScopeConfig} {children : List SupervisionChild} {b : OrderedSupervisorBuilder}
    (hall : List.Forall₂ (MatchesChild config) children b.children)
    (hrestart : b.defaultChildRestart = config.defaultChildRestart)
    (hshutdown : b.defaultChildShutdown = config.defaultChildShutdown) :
    b.built.definitions = (ScopeNode.ordered config children).lowered := by
  have hdefs := definitions_of_matches hall
  have hmap : ∀ c : ChildSpec, ((c.mapDefinition (·.applyDefaults b.defaultChildRestart b.defaultChildShutdown)).claim).definition =
      c.definition.applyDefaults config.defaultChildRestart config.defaultChildShutdown := by
    intro c
    rw [claim_definition, hrestart, hshutdown]
    cases c <;> rfl
  calc b.built.definitions
      = b.children.map fun c => c.definition.applyDefaults config.defaultChildRestart config.defaultChildShutdown := by
        simp only [BuiltSupervisor.definitions, OrderedSupervisorBuilder.built, BuiltSupervisor.children, List.map_map]
        exact List.map_congr_left fun c _ => hmap c
    _ = (b.children.map (·.definition)).map (·.applyDefaults config.defaultChildRestart config.defaultChildShutdown) := by
        rw [List.map_map]
        rfl
    _ = (ScopeNode.ordered config children).lowered := by
        rw [hdefs, List.map_map]
        rfl

theorem forall₂_built {config : ScopeConfig} {children : List SupervisionChild} {b : OrderedSupervisorBuilder}
    (hall : List.Forall₂ (MatchesChild config) children b.children) (hid : b.identity = config.reservation)
    (hrestart : b.defaultChildRestart = config.defaultChildRestart)
    (hshutdown : b.defaultChildShutdown = config.defaultChildShutdown) :
    List.Forall₂ Matches (ScopeNode.ordered config children).scopes b.built.scopes := by
  have hdefs := definitions_built hall hrestart hshutdown
  rw [ScopeNode.scopes, OrderedSupervisorBuilder.built, BuiltSupervisor.scopes]
  refine .cons ⟨hid, hdefs⟩ ?_
  -- resolving the defaults leaves the supervisors in the definitions alone
  have hscopes : ∀ specs : List ChildSpec, List.Forall₂ Matches (scopesOf children) (builtOf specs) →
      List.Forall₂ Matches (scopesOf children)
        (builtOf (specs.map (·.mapDefinition (·.applyDefaults b.defaultChildRestart b.defaultChildShutdown)))) := by
    intro specs h
    have he : builtOf (specs.map (·.mapDefinition (·.applyDefaults b.defaultChildRestart b.defaultChildShutdown))) =
        builtOf specs := by
      clear h
      induction specs with
      | nil => rfl
      | cons c specs ih =>
        rw [List.map_cons, builtOf, builtOf, ih]
        cases c <;> rfl
    rw [he]
    exact h
  have hclaim : List.Forall₂ Matches (scopesOf children) (builtOf (b.children.map ChildSpec.claim)) := by
    have hclaimed : List.Forall₂ (MatchesChild config) children (b.children.map ChildSpec.claim) :=
      List.forall₂_map_right_iff.mpr (hall.imp fun _ _ hc => hc.claim)
    exact forall₂_builtOf hclaimed
  have hcomm : ∀ c : ChildSpec, (c.mapDefinition (·.applyDefaults b.defaultChildRestart b.defaultChildShutdown)).claim =
      c.claim.mapDefinition (·.applyDefaults b.defaultChildRestart b.defaultChildShutdown) := by
    intro c
    cases c <;> rfl
  rw [List.map_map]
  have hswap : b.children.map (ChildSpec.claim ∘ (·.mapDefinition (·.applyDefaults b.defaultChildRestart b.defaultChildShutdown))) =
      (b.children.map ChildSpec.claim).map (·.mapDefinition (·.applyDefaults b.defaultChildRestart b.defaultChildShutdown)) := by
    rw [List.map_map]
    exact List.map_congr_left fun c _ => hcomm c
  rw [hswap]
  exact hscopes _ hclaim

theorem build_ok {b : OrderedSupervisorBuilder} {sup : BuiltSupervisor} {s s' : Lowering}
    (h : b.build s = (.ok sup, s')) : sup = b.built ∧ s' = s := by
  unfold OrderedSupervisorBuilder.build at h
  rw [Act.run_bind, dropping] at h
  cases hv : b.validate with
  | error e =>
    rw [hv, lift_error rfl] at h
    cases h
  | ok u =>
    rw [hv, lift_ok rfl] at h
    cases h
    exact ⟨rfl, rfl⟩

mutual

theorem lower_matches : ∀ (n : ScopeNode) (s s' : Lowering) (sup : BuiltSupervisor), s.reservations.Nodup →
    n.identities.Nodup → (∀ x ∈ n.identities, x ∈ s.reservations) → n.lower s = (.ok sup, s') →
    List.Forall₂ Matches n.scopes sup.scopes
  | .dynamic config, s, s', sup, hs, _, hin, h => by
    obtain ⟨s₁, htake, -⟩ := takeReservation_lowered hs (hin config.reservation (by simp [ScopeNode.identities]))
    rw [ScopeNode.lower, Act.run_bind] at h
    cases hc : checkCapacity config with
    | error e =>
      rw [hc, lift_error rfl] at h
      cases h
    | ok u =>
      rw [hc, lift_ok rfl] at h
      simp only [Act.run_bind, htake, buildDynamic, dropping] at h
      cases hv : config.defaultChildRestart.validate with
      | error e =>
        rw [hv, lift_error rfl] at h
        cases h
      | ok u =>
        rw [hv, lift_ok rfl] at h
        cases h
        simp only [ScopeNode.scopes, BuiltSupervisor.scopes, builtOf]
        exact .cons ⟨rfl, rfl⟩ .nil
  | .ordered config children, s, s', sup, hs, hn, hin, h => by
    rw [ScopeNode.identities] at hn hin
    obtain ⟨hfresh, hn⟩ := List.nodup_cons.mp hn
    obtain ⟨s₁, htake, hlow⟩ := takeReservation_lowered hs (hin config.reservation List.mem_cons_self)
    cases hc : checkCapacity config with
    | error e =>
      rw [ScopeNode.lower, Act.run_bind, hc, lift_error rfl] at h
      cases h
    | ok u =>
      rw [run_lower_ordered hc htake] at h
      cases hr : lowerChildren config (.reserved config config.reservation) children s₁ with
      | mk r s₂ =>
        rw [hr] at h
        cases r with
        | error e => cases h
        | ok b =>
          obtain ⟨rfl, rfl⟩ := build_ok h
          have hin₁ : ∀ x ∈ identitiesOf children, x ∈ s₁.reservations := by
            intro x hx
            refine (hlow.reservations_iff x).mpr ⟨hin x (List.mem_cons_of_mem _ hx), ?_⟩
            intro heq
            rw [List.mem_singleton.mp heq] at hx
            exact hfresh hx
          obtain ⟨hall, hid, hrestart, hshutdown⟩ := lowerChildren_matches config children [] _ b s₁ _ hlow.nodup hn hin₁
            .nil hr
          exact forall₂_built hall hid hrestart hshutdown

theorem lowerChildren_matches (config : ScopeConfig) : ∀ (children done : List SupervisionChild)
    (b b' : OrderedSupervisorBuilder) (s s' : Lowering), s.reservations.Nodup → (identitiesOf children).Nodup →
    (∀ x ∈ identitiesOf children, x ∈ s.reservations) → List.Forall₂ (MatchesChild config) done b.children →
    lowerChildren config b children s = (.ok b', s') →
    List.Forall₂ (MatchesChild config) (done ++ children) b'.children ∧ b'.identity = b.identity ∧
      b'.defaultChildRestart = b.defaultChildRestart ∧ b'.defaultChildShutdown = b.defaultChildShutdown
  | [], done, b, b', s, s', _, _, _, hdone, h => by
    rw [lowerChildren] at h
    cases h
    rw [List.append_nil]
    exact ⟨hdone, rfl, rfl, rfl⟩
  | .task d :: rest, done, b, b', s, s', hs, hn, hin, hdone, h => by
    rw [identitiesOf, SupervisionChild.identities, List.nil_append] at hn hin
    rw [run_lowerChildren_cons, SupervisionChild.lower] at h
    have hpush := MatchesChild.childSpec (.task d) (.task d) hdone
      ⟨rfl, by simp [SupervisionChild.scopes, ChildSpec.scopes]⟩
    have hrest := lowerChildren_matches config rest _ _ b' s s' hs hn hin hpush h
    rw [List.append_assoc] at hrest
    exact hrest
  | .actor a :: rest, done, b, b', s, s', hs, hn, hin, hdone, h => by
    rw [identitiesOf, SupervisionChild.identities, List.nil_append] at hn hin
    rw [run_lowerChildren_cons, SupervisionChild.lower, Act.run_bind, dropping] at h
    cases hv : a.validate with
    | error e =>
      rw [hv, lift_error rfl] at h
      cases h
    | ok u =>
      rw [hv, lift_ok rfl] at h
      have hpush := MatchesChild.childSpec (.actor a) (.task (actorDefinition config a)) hdone
        ⟨rfl, by simp [SupervisionChild.scopes, ChildSpec.scopes]⟩
      have hrest := lowerChildren_matches config rest _ _ b' s s' hs hn hin hpush h
      rw [List.append_assoc] at hrest
      exact hrest
  | .scope id node restart shutdown :: rest, done, b, b', s, s', hs, hn, hin, hdone, h => by
    rw [identitiesOf, SupervisionChild.identities] at hn hin
    obtain ⟨hnode, hnrest, hsep⟩ := List.nodup_append'.mp hn
    have hspec := node_spec node s hs hnode fun x hx => hin x (List.mem_append_left _ hx)
    rw [run_lowerChildren_cons, SupervisionChild.lower, Act.run_bind, dropping] at h
    cases hr : node.lower s with
    | mk r s₁ =>
      rw [hr] at h hspec
      cases r with
      | error e => cases h
      | ok sup =>
        obtain ⟨-, hident, -, -, -, hlow⟩ := hspec
        have hsup := lower_matches node s s₁ sup hs hnode (fun x hx => hin x (List.mem_append_left _ hx)) hr
        have hpush := MatchesChild.childSpec (.scope id node restart shutdown)
          (.supervisor (scopeDefinition id sup.channels.identity restart shutdown) sup) hdone
          ⟨by rw [hident]; rfl, by simpa [SupervisionChild.scopes, ChildSpec.scopes] using hsup⟩
        have hrest := lowerChildren_matches config rest _ _ b' s₁ s' hlow.nodup hnrest
          (fun x hx => (hlow.reservations_iff x).mpr ⟨hin x (List.mem_append_right _ hx), fun hx' => hsep hx' hx⟩)
          hpush h
        rw [List.append_assoc] at hrest
        exact hrest

end

/-! ## The projections agree -/

/-- The outline of a child says of its definition what it carries. -/
def ChildOutline.Describes (d : ChildDefinition) : ChildOutline → Prop
  | .actor id restart shutdown removeOnTerminalExit | .task id restart shutdown removeOnTerminalExit =>
    d.id = id ∧ d.restart = restart ∧ d.shutdownPolicy = shutdown ∧ d.removeOnTerminalExit = removeOnTerminalExit
  | .scope id restart shutdown _ => d.id = id ∧ d.restart = restart ∧ d.shutdownPolicy = shutdown

theorem outline_describes (config : ScopeConfig) (child : SupervisionChild) :
    (child.outline config).Describes
      ((child.declared config).applyDefaults config.defaultChildRestart config.defaultChildShutdown) := by
  cases child with
  | actor a =>
    simp [SupervisionChild.outline, ChildOutline.Describes, SupervisionChild.declared, actorDefinition,
      ChildDefinition.applyDefaults]
  | task d =>
    rw [SupervisionChild.outline]
    exact ⟨rfl, rfl, rfl, rfl⟩
  | scope id node restart shutdown =>
    cases restart <;> cases shutdown <;>
      simp [SupervisionChild.outline, ChildOutline.Describes, SupervisionChild.declared, scopeDefinition,
        ChildDefinition.applyDefaults]

theorem outlineAll_describes (config : ScopeConfig) (children : List SupervisionChild) :
    List.Forall₂ (fun o d => o.Describes d) (outlineAll config children) (ScopeNode.ordered config children).lowered := by
  induction children with
  | nil =>
    rw [outlineAll]
    exact .nil
  | cons child rest ih =>
    rw [outlineAll]
    exact .cons (outline_describes config child) ih

theorem ScopeNode.outline_describes (n : ScopeNode) :
    List.Forall₂ (fun o d => o.Describes d) n.outline.children n.lowered := by
  cases n with
  | ordered config children =>
    rw [ScopeNode.outline]
    exact outlineAll_describes config children
  | dynamic config =>
    rw [ScopeNode.outline]
    exact .nil

/-- The projected row of a child is the first row its definition has. -/
theorem projected_initialRow (config : ScopeConfig) (child : SupervisionChild) :
    child.projected config =
      (((child.declared config).applyDefaults config.defaultChildRestart config.defaultChildShutdown).id,
        ((child.declared config).applyDefaults config.defaultChildRestart config.defaultChildShutdown).restart,
        ((child.declared config).applyDefaults config.defaultChildRestart config.defaultChildShutdown).removeOnTerminalExit) := by
  cases child with
  | actor a => rfl
  | task d => rfl
  | scope id node restart shutdown => cases restart <;> rfl

theorem ScopeNode.projected_rows (n : ScopeNode) :
    projectDeclaredChildren n.projected = n.lowered.mapIdx Identity.initialRow := by
  have hp : n.projected = n.lowered.map fun d => (d.id, d.restart, d.removeOnTerminalExit) := by
    cases n with
    | dynamic config => rfl
    | ordered config children =>
      simp only [ScopeNode.projected, ScopeNode.lowered, List.map_map]
      exact List.map_congr_left fun child _ => projected_initialRow config child
  rw [hp, projectDeclaredChildren, List.mapIdx_eq_zipIdx_map, List.mapIdx_eq_zipIdx_map, List.zipIdx_map, List.map_map]
  rfl

theorem identities_of_matches {ns : List ScopeNode} {ss : List BuiltSupervisor} (h : List.Forall₂ Matches ns ss) :
    ss.map (·.channels.identity) = ns.map (·.config.reservation) := by
  induction h with
  | nil => rfl
  | cons hn _ ih => rw [List.map_cons, List.map_cons, hn.identity, ih]

theorem exists_matches {ns : List ScopeNode} {ss : List BuiltSupervisor} (h : List.Forall₂ Matches ns ss)
    {b : BuiltSupervisor} (hb : b ∈ ss) : ∃ n ∈ ns, Matches n b := by
  induction h with
  | nil => cases hb
  | cons hn _ ih =>
    rcases List.mem_cons.mp hb with rfl | hb
    · exact ⟨_, List.mem_cons_self, hn⟩
    · obtain ⟨n, hmem, hnb⟩ := ih hb
      exact ⟨n, List.mem_cons_of_mem _ hmem, hnb⟩

/-- A tree that lowers is the tree its outline describes: scope by scope the definitions
    are the declared children with their defaults, the projected views show them, every
    reservation becomes one scope's identity, and the first incarnation of a scope takes
    the lineages its view has shown since the declaration. -/
theorem lowering_agrees {t : IdentityTree} {views : Views} (hd : Declared t views) {s : BuiltSupervisor} {l : Lowering}
    (hok : t.intoParts = (.ok s, l)) :
    List.Forall₂ (fun o b => List.Forall₂ (fun c d => c.Describes d) o.children b.definitions)
      t.node.outline.scopes s.scopes ∧
    (∀ b ∈ s.scopes, views b.channels.identity = b.definitions.mapIdx Identity.initialRow) ∧
    (l.reservations = [] ∧ (s.scopes.map (·.channels.identity)).Perm t.reservations ∧ t.reservations.Nodup) ∧
    ∀ b ∈ s.scopes, ∀ d : Identity.Declaration, d.children 0 = b.definitions →
      ∀ w inc, Reach (Identity.World.step d) (.start d) w → w.incarnations[0]? = some inc → inc.stage.isBinding = false →
        inc.minted = (views b.channels.identity).map fun c => (c.id, c.lineage) := by
  have hids := t.identities_nodup
  have hin : ∀ x ∈ t.node.identities, x ∈ t.reservations := fun x hx => t.reserved.mem_iff.mpr hx
  unfold IdentityTree.intoParts at hok
  cases hr : t.node.lower ⟨t.reservations, t.reservations.foldr max 0 + 1, []⟩ with
  | mk r l' =>
    have hspec := node_spec t.node ⟨t.reservations, t.reservations.foldr max 0 + 1, []⟩ t.nodup hids hin
    rw [hr] at hok hspec
    cases r with
    | error e => cases hok
    | ok sup =>
      cases hok
      obtain ⟨-, -, -, -, -, hlow⟩ := hspec
      have hmatch := lower_matches t.node _ _ _ t.nodup hids hin hr
      have hviews : ∀ b ∈ s.scopes, views b.channels.identity = b.definitions.mapIdx Identity.initialRow := by
        intro b hb
        obtain ⟨n, hn, hnb⟩ := exists_matches hmatch hb
        rw [hnb.identity, hd.shows n hn, hnb.definitions, ScopeNode.projected_rows]
      refine ⟨?_, hviews, ⟨?_, ?_, t.nodup⟩, ?_⟩
      · rw [scopes_outline, List.forall₂_map_left_iff]
        refine hmatch.imp fun n b hnb => ?_
        rw [hnb.definitions]
        exact n.outline_describes
      · rw [List.eq_nil_iff_forall_not_mem]
        intro x hx
        obtain ⟨hres, hout⟩ := (hlow.reservations_iff x).mp hx
        exact hout (t.reserved.mem_iff.mp hres)
      · rw [identities_of_matches hmatch, reservations_scopes]
        exact t.reserved.symm
      · intro b hb d hchildren w inc hw hinc hst
        rw [Identity.World.first_bind_positions hw hinc hst, hviews b hb, Identity.World.positions, hchildren]
        rw [List.mapIdx_eq_zipIdx_map, List.map_map, List.zipIdx_map]
        rfl

/-- A scope with one task that keeps its own policy. -/
def workers : IdentityTree :=
  (IdentityTree.ordered (plainConfig 1)).addLeaf (plainConfig 1) [] rfl
    (.task { id := "worker", restart := .never, restartIsDefault := false }) (by rw [SupervisionChild.identities])

theorem workers_disjoint : (IdentityTree.ordered (plainConfig 0)).reservations.Disjoint workers.reservations := by
  simp [workers, IdentityTree.addLeaf, IdentityTree.addChild, IdentityTree.ordered, plainConfig]

/-- The same scope below a root. -/
def supervisedWorkers : IdentityTree :=
  (IdentityTree.ordered (plainConfig 0)).addSubtree (plainConfig 0) [] rfl "workers" workers none none workers_disjoint

/-- The inner scope as it is instantiated. -/
def workersScope : Identity.Declaration where
  kind := .ordered
  strategy := .oneForOne
  root := false
  children _ := [{ id := "worker", restart := .never, restartIsDefault := false }]
  nodup _ := by simp

theorem lowering_agrees_workers : ∃ views s l, Declared supervisedWorkers views ∧
    supervisedWorkers.intoParts = (.ok s, l) ∧ s.scopes.length = 2 ∧ l.reservations = [] ∧
    (s.scopes.map (·.channels.identity)).Perm supervisedWorkers.reservations ∧
    (∀ b ∈ s.scopes, views b.channels.identity = b.definitions.mapIdx Identity.initialRow) ∧
    ∃ b ∈ s.scopes, (views b.channels.identity).map (fun c => (c.id, c.lineage)) = [("worker", 0)] := by
  have hworkers := (Declared.ordered (plainConfig 1) fun _ => []).addLeaf rfl
    (.task { id := "worker", restart := .never, restartIsDefault := false }) (by rw [SupervisionChild.identities])
  have hroot := Declared.ordered (plainConfig 0) (refreshRoot workers.node (refreshRoot (.ordered (plainConfig 1) []) fun _ => []))
  have hd := hroot.addSubtree (hworkers.others fun i hi => by
    obtain rfl : i = 1 := by simpa [IdentityTree.addLeaf, IdentityTree.addChild, IdentityTree.ordered, plainConfig] using hi
    rfl) rfl "workers" none none workers_disjoint
  obtain ⟨-, hviews, ⟨hused, hperm, -⟩, hfirst⟩ := lowering_agrees hd rfl
  have hrun : ∃ w inc, replay (Identity.World.step workersScope) (.start workersScope) [.bind 0, .mint 0, .commit 0] = some w ∧
      w.incarnations[0]? = some inc ∧ inc.stage.isBinding = false ∧ inc.minted = [("worker", 0)] :=
    ⟨_, _, rfl, rfl, rfl, rfl⟩
  obtain ⟨w, inc, hrun, hinc, hst, hminted⟩ := hrun
  refine ⟨_, _, _, hd, rfl, rfl, hused, hperm, hviews, _, List.mem_cons_of_mem _ List.mem_cons_self, ?_⟩
  exact (hfirst _ (List.mem_cons_of_mem _ List.mem_cons_self) workersScope rfl w inc (.of_replay hrun) hinc hst).symm.trans hminted

end Kokage.Tree

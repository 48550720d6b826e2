/-
  Kokage.Tree.Incarnations — the incarnations of nested scopes and the runs of the actors
  below them (`supervisor/owner.rs`: `run_as_child`, `NestedTaskOnDrop`;
  `actor/graph.rs`: `ActiveActorRun`).

  A supervisor incarnation owns the tasks of its children. When it ends, the tasks that
  are left are aborted, which takes effect at their next poll. A nested incarnation is a
  task of its own: its parent joins a wrapper around it, and a wrapper that is aborted
  only asks the nested incarnation to stop. So the parent, or the parent's own
  replacement, may start the scope again while tasks of the old incarnation still run.
  Both incarnations spawn the same actor declaration, and its `running` flag is asserted
  to be free.

  - `running_flag_free`: as long as every run of an actor starts when no run of it from
    another incarnation is going on, the assertion does not fire, and the first start that
    breaks this makes it fire. No replacement of a scope that starts while nothing of that
    scope is live leads to such a start.
  - `running_flag_taken`: a restart of a failed scope can make it fire.
-/

import Kokage.Lib.Steps

namespace Kokage.Tree

open Kokage.Lib

abbrev Path := List String

inductive DeclKind where
  | scope
  | actor
  deriving DecidableEq, Repr

/-- A path leads to a scope or into it. -/
def below (scope path : Path) : Bool := path.take scope.length = scope

/-- What is declared at each path; the root is the scope at `[]`. -/
abbrev Decls := Path → Option DeclKind

structure Incarnation where
  scope : Path
  parent : Option Nat
  /-- It was asked to stop and spawns nothing more. -/
  stopping : Bool
  ended : Bool
  /-- Its wrapper is gone from the parent's tasks. -/
  joined : Bool
  deriving DecidableEq, Repr

inductive RunStage where
  | spawned
  /-- It holds the `running` flag. -/
  | running
  | ended
  deriving DecidableEq, Repr

/-- A child task around one run of an actor. -/
structure ActorRun where
  scope : Path
  id : String
  owner : Nat
  stage : RunStage
  aborting : Bool
  deriving DecidableEq, Repr

def ActorRun.path (t : ActorRun) : Path := t.scope ++ [t.id]

structure Forest where
  incarnations : List Incarnation
  runs : List ActorRun
  /-- The declarations whose `running` flag is set. -/
  running : List Path
  /-- The assertion of `ActiveActorRun::start` has fired. -/
  fired : Bool
  deriving DecidableEq, Repr

inductive ForestAction where
  | spawnScope (r : Nat) (id : String)
  | spawnActor (r : Nat) (id : String)
  | poll (t : Nat)
  | finish (t : Nat)
  /-- An abort is requested; `drop` is where it takes effect. -/
  | abort (t : Nat)
  | drop (t : Nat)
  /-- An incarnation fails, completes its shutdown, or is itself aborted. -/
  | finishScope (r : Nat)
  /-- The wrapper returns, or it is aborted and dropped. -/
  | release (r : Nat)
  deriving DecidableEq, Repr

namespace Forest

def new : Forest := ⟨[⟨[], none, false, false, false⟩], [], [], false⟩

/-- The incarnation at an index, while it spawns children. -/
def spawner (s : Forest) (r : Nat) : Option Incarnation := s.incarnations[r]?.filter fun i => !i.ended && !i.stopping

def start (s : Forest) (t : Nat) (run : ActorRun) : Forest :=
  if run.path ∈ s.running then { s with fired := true, runs := s.runs.set t { run with stage := .ended } }
  else { s with running := s.running ++ [run.path], runs := s.runs.set t { run with stage := .running } }

/-- The run is gone, and its flag with it. -/
def stop (s : Forest) (t : Nat) (run : ActorRun) : Forest :=
  { s with
    runs := s.runs.set t { run with stage := .ended }
    running := if run.stage = .running then s.running.erase run.path else s.running }

/-- The end of an incarnation drops its `JoinSet`. -/
def finishScope (s : Forest) (r : Nat) (i : Incarnation) : Forest :=
  { s with
    incarnations := s.incarnations.set r { i with ended := true }
    runs := s.runs.map fun t => if t.owner = r then { t with aborting := true } else t }

def step (decls : Decls) (s : Forest) : ForestAction → Option Forest
  | .spawnScope r id =>
    match s.spawner r with
    | some i =>
      if decls (i.scope ++ [id]) = some .scope ∧
          s.incarnations.all (fun j => j.parent ≠ some r || j.scope ≠ i.scope ++ [id] || j.joined) then
        some { s with incarnations := s.incarnations ++ [⟨i.scope ++ [id], some r, false, false, false⟩] }
      else none
    | none => none
  | .spawnActor r id =>
    match s.spawner r with
    | some i =>
      if decls (i.scope ++ [id]) = some .actor ∧
          s.runs.all (fun t => t.owner ≠ r || t.id ≠ id || t.stage = .ended) then
        some { s with runs := s.runs ++ [⟨i.scope, id, r, .spawned, false⟩] }
      else none
    | none => none
  | .poll t =>
    match s.runs[t]? with
    | some run => if run.stage = .spawned ∧ run.aborting = false then some (s.start t run) else none
    | none => none
  | .finish t =>
    match s.runs[t]? with
    | some run => if run.stage = .running then some (s.stop t run) else none
    | none => none
  | .abort t => some { s with runs := s.runs.modify t fun run => { run with aborting := true } }
  | .drop t =>
    match s.runs[t]? with
    | some run => if run.aborting = true ∧ run.stage ≠ .ended then some (s.stop t run) else none
    | none => none
  | .finishScope r =>
    match s.incarnations[r]? with
    | some i => if i.ended then none else some (s.finishScope r i)
    | none => none
  | .release r =>
    some { s with incarnations := s.incarnations.modify r fun i => { i with joined := true, stopping := true } }

/-- Nothing of a scope, or below it, is live. -/
def clearBelow (s : Forest) (scope : Path) : Bool :=
  s.incarnations.all (fun i => i.ended || !below scope i.scope) &&
    s.runs.all (fun t => t.stage = .ended || !below scope t.path)

/-- The condition on a step: a run of an actor starts when no run of it from another
    incarnation is going on. -/
def Alone (s : Forest) : ForestAction → Prop
  | .poll t => ∀ run, s.runs[t]? = some run → ∀ other ∈ s.runs, other.path = run.path → other.owner ≠ run.owner →
      other.stage ≠ .running
  | _ => True

instance (s : Forest) (a : ForestAction) : Decidable (s.Alone a) := by
  unfold Alone
  split
  · infer_instance
  · infer_instance

/-- A condition on the starts of scopes: a scope is started only when nothing of an
    earlier incarnation is live. -/
def Clear (s : Forest) : ForestAction → Prop
  | .spawnScope r id => ∀ i, s.spawner r = some i → s.clearBelow (i.scope ++ [id]) = true
  | _ => True

instance (s : Forest) (a : ForestAction) : Decidable (s.Clear a) := by
  unfold Clear
  split
  · infer_instance
  · infer_instance

/-! ## The flags and their holders -/

structure Held (s : Forest) : Prop where
  /-- An incarnation has one live run of an actor. -/
  own : ∀ (t u : Nat) (a b : ActorRun), s.runs[t]? = some a → s.runs[u]? = some b → a.stage ≠ .ended → b.stage ≠ .ended →
    a.path = b.path → a.owner = b.owner → t = u
  one : ∀ (t u : Nat) (a b : ActorRun), s.runs[t]? = some a → s.runs[u]? = some b → a.stage = .running → b.stage = .running →
    a.path = b.path → t = u
  /-- The flags that are set are those of the runs that go on. -/
  flags : ∀ path, path ∈ s.running ↔ ∃ (t : Nat) (run : ActorRun), s.runs[t]? = some run ∧ run.stage = .running ∧ run.path = path
  nodup : s.running.Nodup
  quiet : s.fired = false

theorem Held.new : Held Forest.new :=
  ⟨by simp [Forest.new], by simp [Forest.new], by simp [Forest.new], List.nodup_nil, rfl⟩

theorem getElem?_snoc {α : Type} {l : List α} {x a : α} {n : Nat} (h : (l ++ [x])[n]? = some a) :
    l[n]? = some a ∨ n = l.length ∧ a = x := by
  rw [List.getElem?_append] at h
  split at h
  · exact .inl h
  · have hlt := (List.getElem?_eq_some_iff.mp h).1
    simp only [List.length_singleton] at hlt
    have hzero : n - l.length = 0 := by omega
    rw [hzero] at h
    cases h
    exact .inr ⟨by omega, rfl⟩

theorem path_inj {t u : ActorRun} (h : t.path = u.path) : t.scope = u.scope ∧ t.id = u.id := by
  have := List.append_inj' h rfl
  exact ⟨this.1, by simpa using this.2⟩

theorem Held.onIncarnations {s : Forest} (h : s.Held) (incarnations : List Incarnation) :
    Held { s with incarnations := incarnations } := ⟨h.own, h.one, h.flags, h.nodup, h.quiet⟩

/-- One run is replaced by itself at a later stage, with the flags as they then are. -/
theorem Held.set {s : Forest} {t : Nat} {run : ActorRun} {running : List Path} (h : s.Held) (run' : ActorRun) (ht : s.runs[t]? = some run)
    (hpath : run'.path = run.path) (howner : run'.owner = run.owner) (hlive : run'.stage ≠ .ended → run.stage ≠ .ended)
    (hone : run'.stage = .running → ∀ (u : Nat) (a : ActorRun), t ≠ u → s.runs[u]? = some a → a.stage = .running → a.path ≠ run.path)
    (hflags : ∀ path, path ∈ running ↔ (path = run.path ∧ run'.stage = .running) ∨
      ∃ (u : Nat) (a : ActorRun), t ≠ u ∧ s.runs[u]? = some a ∧ a.stage = .running ∧ a.path = path)
    (hnodup : running.Nodup) : Held { s with runs := s.runs.set t run', running := running } := by
  have hlt := (List.getElem?_eq_some_iff.mp ht).1
  have hget : ∀ {u a}, (s.runs.set t run')[u]? = some a → (u = t ∧ a = run') ∨ (t ≠ u ∧ s.runs[u]? = some a) := by
    intro u a hu
    rw [List.getElem?_set] at hu
    split at hu
    · rename_i htu
      cases hu
      exact .inl ⟨htu.symm, rfl⟩
    · rename_i htu
      exact .inr ⟨htu, hu⟩
  refine ⟨?_, ?_, ?_, hnodup, h.quiet⟩
  · intro u v a b hu hv ha hb heq hown
    rcases hget hu with ⟨hut, hrun⟩ | ⟨hne, hu'⟩ <;> rcases hget hv with ⟨hvt, hrun'⟩ | ⟨hne', hv'⟩
    · exact hut.trans hvt.symm
    · subst hrun
      exact absurd (h.own _ v run b ht hv' (hlive ha) hb (hpath.symm.trans heq) (howner.symm.trans hown)) hne'
    · subst hrun'
      exact absurd (h.own u _ a run hu' ht ha (hlive hb) (heq.trans hpath) (hown.trans howner)).symm hne
    · exact h.own u v a b hu' hv' ha hb heq hown
  · intro u v a b hu hv ha hb heq
    rcases hget hu with ⟨hut, hrun⟩ | ⟨hne, hu'⟩ <;> rcases hget hv with ⟨hvt, hrun'⟩ | ⟨hne', hv'⟩
    · exact hut.trans hvt.symm
    · subst hrun
      exact absurd (heq.symm.trans hpath) (hone ha v b hne' hv' hb)
    · subst hrun'
      exact absurd (heq.trans hpath) (hone hb u a hne hu' ha)
    · exact h.one u v a b hu' hv' ha hb heq
  · intro path
    rw [hflags]
    constructor
    · rintro (⟨rfl, hrunning⟩ | ⟨u, a, hne, hu, ha, hp⟩)
      · exact ⟨t, run', by rw [List.getElem?_set_self hlt], hrunning, hpath⟩
      · exact ⟨u, a, by rw [List.getElem?_set_ne hne]; exact hu, ha, hp⟩
    · rintro ⟨u, a, hu, ha, hp⟩
      rcases hget hu with ⟨rfl, rfl⟩ | ⟨hne, hu⟩
      · exact .inl ⟨hp.symm.trans hpath, ha⟩
      · exact .inr ⟨u, a, hne, hu, ha, hp⟩

/-- The flag of an actor is free exactly if no run of it from another incarnation goes on. -/
theorem Held.free_iff {s : Forest} (h : s.Held) {t : Nat} {run : ActorRun} (ht : s.runs[t]? = some run)
    (hstage : run.stage = .spawned) : run.path ∉ s.running ↔ s.Alone (.poll t) := by
  constructor
  · intro hfree run' ht' other hother hpath _ hrunning
    rw [ht] at ht'
    cases ht'
    obtain ⟨u, hu⟩ := List.mem_iff_getElem?.mp hother
    exact hfree ((h.flags _).mpr ⟨u, other, hu, hrunning, hpath⟩)
  · intro halone hm
    obtain ⟨u, other, hu, hrunning, hpath⟩ := (h.flags _).mp hm
    by_cases howner : other.owner = run.owner
    · have hsame := h.own u t other run hu ht (by simp [hrunning]) (by simp [hstage]) hpath howner
      subst hsame
      rw [hu] at ht
      cases ht
      rw [hrunning] at hstage
      cases hstage
    · exact halone run ht other (List.mem_of_getElem? hu) hpath howner hrunning

theorem Held.start {s : Forest} (h : s.Held) {t : Nat} {run : ActorRun} (ht : s.runs[t]? = some run)
    (hstage : run.stage = .spawned) (hfree : run.path ∉ s.running) : (s.start t run).Held := by
  have hothers : ∀ path, path ∈ s.running ↔
      ∃ (u : Nat) (a : ActorRun), t ≠ u ∧ s.runs[u]? = some a ∧ a.stage = .running ∧ a.path = path := by
    intro path
    rw [h.flags]
    refine exists_congr fun u => exists_congr fun a => ⟨fun ⟨hu, ha, hp⟩ => ⟨?_, hu, ha, hp⟩, And.right⟩
    rintro rfl
    rw [hu] at ht
    cases ht
    rw [ha] at hstage
    cases hstage
  unfold Forest.start
  rw [if_neg hfree]
  refine h.set { run with stage := .running } ht rfl rfl (by simp [hstage]) ?_ ?_ ?_
  · intro _ u a hne hu ha hp
    exact hfree ((hothers _).mpr ⟨u, a, hne, hu, ha, hp⟩)
  · intro path
    rw [List.mem_append, List.mem_singleton, hothers, or_comm]
    simp
  · rw [List.nodup_append]
    refine ⟨h.nodup, List.pairwise_singleton _ _, ?_⟩
    intro a ha b hb heq
    rw [List.mem_singleton.mp hb] at heq
    exact hfree (heq ▸ ha)

theorem Held.stop {s : Forest} (h : s.Held) {t : Nat} {run : ActorRun} (ht : s.runs[t]? = some run) : (s.stop t run).Held := by
  refine h.set { run with stage := .ended } ht rfl rfl (by simp) nofun ?_ ?_
  · intro path
    have hsame : ∀ {u a}, t ≠ u ∨ run.stage ≠ .running → s.runs[u]? = some a → a.stage = .running → t ≠ u := by
      rintro u a (hne | hrun) hu ha
      · exact hne
      · rintro rfl
        rw [hu] at ht
        cases ht
        exact hrun ha
    simp only [reduceCtorEq, and_false, false_or]
    by_cases hrunning : run.stage = .running
    · rw [if_pos hrunning, h.nodup.mem_erase_iff, h.flags]
      constructor
      · rintro ⟨hne, u, a, hu, ha, hp⟩
        refine ⟨u, a, ?_, hu, ha, hp⟩
        rintro rfl
        rw [hu] at ht
        cases ht
        exact hne hp.symm
      · rintro ⟨u, a, hne, hu, ha, rfl⟩
        exact ⟨fun heq => hne (h.one t u run a ht hu hrunning ha heq.symm), u, a, hu, ha, rfl⟩
    · rw [if_neg hrunning, h.flags]
      exact exists_congr fun u => exists_congr fun a =>
        ⟨fun ⟨hu, ha, hp⟩ => ⟨hsame (.inr hrunning) hu ha, hu, ha, hp⟩, And.right⟩
  · split
    · exact h.nodup.erase _
    · exact h.nodup

theorem Held.spawnActor {s : Forest} (h : s.Held) {r : Nat} {i : Incarnation} {id : String}
    (hgone : ∀ t ∈ s.runs, t.owner = r → t.id = id → t.stage = .ended) :
    Held { s with runs := s.runs ++ [⟨i.scope, id, r, .spawned, false⟩] } := by
  have hget : ∀ (t : Nat) (a : ActorRun), (s.runs ++ [⟨i.scope, id, r, .spawned, false⟩])[t]? = some a →
      s.runs[t]? = some a ∨ t = s.runs.length ∧ a = ⟨i.scope, id, r, .spawned, false⟩ := fun t a => getElem?_snoc
  have hfresh : ∀ (t : Nat) (a : ActorRun), s.runs[t]? = some a → a.stage ≠ .ended → a.path = i.scope ++ [id] → a.owner ≠ r := by
    intro t a ht ha heq howner
    obtain ⟨-, hid⟩ := path_inj (u := ⟨i.scope, id, r, .spawned, false⟩) heq
    exact ha (hgone a (List.mem_of_getElem? ht) howner hid)
  refine ⟨?_, ?_, ?_, h.nodup, h.quiet⟩
  · intro t u a b ht hu ha hb heq hown
    rcases hget t a ht with ht | ⟨ht, rfl⟩ <;> rcases hget u b hu with hu | ⟨hu, rfl⟩
    · exact h.own t u a b ht hu ha hb heq hown
    · exact absurd hown (hfresh t a ht ha heq)
    · exact absurd hown.symm (hfresh u b hu hb heq.symm)
    · omega
  · intro t u a b ht hu ha hb heq
    rcases hget t a ht with ht | ⟨ht, rfl⟩ <;> rcases hget u b hu with hu | ⟨hu, rfl⟩
    · exact h.one t u a b ht hu ha hb heq
    · cases hb
    · cases ha
    · omega
  · intro path
    rw [h.flags]
    constructor
    · rintro ⟨t, run, ht, hrest⟩
      exact ⟨t, run, by rw [List.getElem?_append_left (List.getElem?_eq_some_iff.mp ht).1]; exact ht, hrest⟩
    · rintro ⟨t, run, ht, hrunning, hpath⟩
      rcases hget t run ht with ht | ⟨-, rfl⟩
      · exact ⟨t, run, ht, hrunning, hpath⟩
      · cases hrunning

/-- Edits that change neither the stage of a run nor what it is a run of. -/
theorem Held.onAborting {s : Forest} (h : s.Held) {f : Nat → ActorRun → ActorRun}
    (hf : ∀ t run, (f t run).stage = run.stage ∧ (f t run).path = run.path ∧ (f t run).owner = run.owner)
    {runs : List ActorRun} (hruns : ∀ t : Nat, runs[t]? = s.runs[t]?.map (f t)) : Held { s with runs := runs } := by
  have hold : ∀ {t : Nat} {a : ActorRun}, runs[t]? = some a →
      ∃ b : ActorRun, s.runs[t]? = some b ∧ a.stage = b.stage ∧ a.path = b.path ∧ a.owner = b.owner := by
    intro t a ht
    rw [hruns] at ht
    obtain ⟨b, hb, rfl⟩ := Option.map_eq_some_iff.mp ht
    exact ⟨b, hb, hf t b⟩
  refine ⟨?_, ?_, ?_, h.nodup, h.quiet⟩
  · intro t u a b ht hu ha hb heq hown
    obtain ⟨a', ht', hsa, hpa, hoa⟩ := hold ht
    obtain ⟨b', hu', hsb, hpb, hob⟩ := hold hu
    exact h.own t u a' b' ht' hu' (hsa ▸ ha) (hsb ▸ hb) (hpa.symm.trans (heq.trans hpb)) (hoa.symm.trans (hown.trans hob))
  · intro t u a b ht hu ha hb heq
    obtain ⟨a', ht', hsa, hpa, -⟩ := hold ht
    obtain ⟨b', hu', hsb, hpb, -⟩ := hold hu
    exact h.one t u a' b' ht' hu' (hsa ▸ ha) (hsb ▸ hb) (hpa.symm.trans (heq.trans hpb))
  · intro path
    rw [h.flags]
    constructor
    · rintro ⟨t, run, ht, hrunning, hpath⟩
      obtain ⟨hstage, hp, -⟩ := hf t run
      exact ⟨t, f t run, by rw [hruns, ht]; rfl, hstage.trans hrunning, hp.trans hpath⟩
    · rintro ⟨t, run, ht, hrunning, hpath⟩
      obtain ⟨b, hb, hstage, hp, -⟩ := hold ht
      exact ⟨t, b, hb, hstage ▸ hrunning, hp ▸ hpath⟩

/-! ## One live incarnation, one live run -/

/-- What holds besides while scopes are started clear of their earlier incarnations. -/
structure Single (s : Forest) : Prop where
  scopes : ∀ (i j : Nat) (a b : Incarnation), s.incarnations[i]? = some a → s.incarnations[j]? = some b → a.ended = false → b.ended = false →
    a.scope = b.scope → i = j
  /-- A live run belongs to the live incarnation of its scope, if there is one. -/
  owners : ∀ (t : Nat) (run : ActorRun) (i : Nat) (a : Incarnation), s.runs[t]? = some run → s.incarnations[i]? = some a →
    run.stage ≠ .ended → a.ended = false → a.scope = run.scope → i = run.owner
  runs : ∀ (t u : Nat) (a b : ActorRun), s.runs[t]? = some a → s.runs[u]? = some b → a.stage ≠ .ended → b.stage ≠ .ended →
    a.path = b.path → t = u

theorem Single.new : Single Forest.new := by
  refine ⟨?_, by simp [Forest.new], by simp [Forest.new]⟩
  intro i j a b hi hj _ _ _
  have hi := (List.getElem?_eq_some_iff.mp hi).1
  have hj := (List.getElem?_eq_some_iff.mp hj).1
  simp only [Forest.new, List.length_singleton] at hi hj
  omega

/-- A run that starts is then the only one of its actor. -/
theorem Single.alone {s : Forest} (h : s.Single) {t : Nat} (hstage : ∀ run, s.runs[t]? = some run → run.stage = .spawned) :
    s.Alone (.poll t) := by
  intro run ht other hother hpath howner hrunning
  obtain ⟨u, hu⟩ := List.mem_iff_getElem?.mp hother
  have hsame := h.runs u t other run hu ht (by simp [hrunning]) (by simp [hstage run ht]) hpath
  subst hsame
  rw [hu] at ht
  cases ht
  exact howner rfl

/-- Edits of the incarnations that revive none. -/
theorem Single.onIncarnations {s : Forest} (h : s.Single) {incarnations : List Incarnation}
    (hold : ∀ (i : Nat) (a : Incarnation), incarnations[i]? = some a → a.ended = false →
      ∃ b : Incarnation, s.incarnations[i]? = some b ∧ b.ended = false ∧ b.scope = a.scope) :
    Single { s with incarnations := incarnations } := by
  refine ⟨?_, ?_, h.runs⟩
  · intro i j a b hi hj ha hb heq
    obtain ⟨a', hi', ha', hsa⟩ := hold i a hi ha
    obtain ⟨b', hj', hb', hsb⟩ := hold j b hj hb
    exact h.scopes i j a' b' hi' hj' ha' hb' (by rw [hsa, hsb, heq])
  · intro t run i a ht hi hr ha heq
    obtain ⟨a', hi', ha', hsa⟩ := hold i a hi ha
    exact h.owners t run i a' ht hi' hr ha' (hsa.trans heq)

/-- Edits of the runs that revive none. -/
theorem Single.onRuns {s : Forest} (h : s.Single) {runs : List ActorRun} (running : List Path) (fired : Bool)
    (hold : ∀ (t : Nat) (a : ActorRun), runs[t]? = some a → a.stage ≠ .ended →
      ∃ b : ActorRun, s.runs[t]? = some b ∧ b.stage ≠ .ended ∧ b.path = a.path ∧ b.owner = a.owner) :
    Single { s with runs := runs, running := running, fired := fired } := by
  refine ⟨h.scopes, ?_, ?_⟩
  · intro t run i a ht hi hr ha heq
    obtain ⟨run', ht', hr', hpath, howner⟩ := hold t run ht hr
    rw [← howner]
    exact h.owners t run' i a ht' hi hr' ha (heq.trans (path_inj hpath).1.symm)
  · intro t u a b ht hu ha hb heq
    obtain ⟨a', ht', ha', hpa, _⟩ := hold t a ht ha
    obtain ⟨b', hu', hb', hpb, _⟩ := hold u b hu hb
    exact h.runs t u a' b' ht' hu' ha' hb' (by rw [hpa, hpb, heq])

theorem spawner_eq_some {s : Forest} {r : Nat} {i : Incarnation} (h : s.spawner r = some i) :
    s.incarnations[r]? = some i ∧ i.ended = false := by
  obtain ⟨hi, hlive⟩ := Option.filter_eq_some_iff.mp h
  simp only [Bool.and_eq_true, Bool.not_eq_eq_eq_not, Bool.not_true] at hlive
  exact ⟨hi, hlive.1⟩

theorem Single.spawnScope {s : Forest} (h : s.Single) {scope : Path} (r : Nat) (hclear : s.clearBelow scope = true) :
    Single { s with incarnations := s.incarnations ++ [⟨scope, some r, false, false, false⟩] } := by
  simp only [clearBelow, Bool.and_eq_true, List.all_eq_true, Bool.or_eq_true, Bool.not_eq_eq_eq_not, Bool.not_true,
    decide_eq_true_eq] at hclear
  obtain ⟨hscopes, hruns⟩ := hclear
  have hget : ∀ (i : Nat) (a : Incarnation), (s.incarnations ++ [⟨scope, some r, false, false, false⟩])[i]? = some a →
      s.incarnations[i]? = some a ∨ i = s.incarnations.length ∧ a.scope = scope :=
    fun i a hi => (getElem?_snoc hi).imp_right fun ⟨hi, ha⟩ => ⟨hi, by rw [ha]⟩
  have hfresh : ∀ (i : Nat) (a : Incarnation), s.incarnations[i]? = some a → a.ended = false → a.scope ≠ scope := by
    intro i a hi ha heq
    rcases hscopes a (List.mem_of_getElem? hi) with hover | hbelow
    · simp [ha] at hover
    · simp [heq, below] at hbelow
  refine ⟨?_, ?_, h.runs⟩
  · intro i j a b hi hj ha hb heq
    rcases hget i a hi with hi' | ⟨hi', hsa⟩ <;> rcases hget j b hj with hj' | ⟨hj', hsb⟩
    · exact h.scopes i j a b hi' hj' ha hb heq
    · exact absurd (heq.trans hsb) (hfresh i a hi' ha)
    · exact absurd (heq.symm.trans hsa) (hfresh j b hj' hb)
    · omega
  · intro t run i a ht hi hr ha heq
    rcases hget i a hi with hi' | ⟨_, hsa⟩
    · exact h.owners t run i a ht hi' hr ha heq
    · rcases hruns run (List.mem_of_getElem? ht) with hover | hbelow
      · exact absurd hover hr
      · rw [ActorRun.path, ← heq, hsa] at hbelow
        simp [below] at hbelow

theorem Single.spawnActor {s : Forest} (h : s.Single) {r : Nat} {i : Incarnation} {id : String}
    (hr : s.incarnations[r]? = some i) (hlive : i.ended = false)
    (hgone : ∀ t ∈ s.runs, t.owner = r → t.id = id → t.stage = .ended) :
    Single { s with runs := s.runs ++ [⟨i.scope, id, r, .spawned, false⟩] } := by
  have hget : ∀ (t : Nat) (a : ActorRun), (s.runs ++ [⟨i.scope, id, r, .spawned, false⟩])[t]? = some a →
      s.runs[t]? = some a ∨ t = s.runs.length ∧ a = ⟨i.scope, id, r, .spawned, false⟩ := fun t a => getElem?_snoc
  -- another live run of this actor would be of this very incarnation
  have hfresh : ∀ (t : Nat) (a : ActorRun), s.runs[t]? = some a → a.stage ≠ .ended → a.path ≠ i.scope ++ [id] := by
    intro t a ht ha heq
    obtain ⟨hscope, hid⟩ := path_inj (u := ⟨i.scope, id, r, .spawned, false⟩) heq
    have howner := h.owners t a r i ht hr ha hlive hscope.symm
    exact ha (hgone a (List.mem_of_getElem? ht) howner.symm hid)
  refine ⟨h.scopes, ?_, ?_⟩
  · intro t run j a ht hj hrun ha heq
    rcases hget t run ht with ht | ⟨_, rfl⟩
    · exact h.owners t run j a ht hj hrun ha heq
    · exact h.scopes j r a i hj hr ha hlive heq
  · intro t u a b ht hu ha hb heq
    rcases hget t a ht with ht | ⟨ht, rfl⟩ <;> rcases hget u b hu with hu | ⟨hu, rfl⟩
    · exact h.runs t u a b ht hu ha hb heq
    · exact absurd heq (hfresh t a ht ha)
    · exact absurd heq.symm (hfresh u b hu hb)
    · omega

/-- A run is replaced by itself at a later stage. -/
theorem set_old {runs : List ActorRun} {t : Nat} {run : ActorRun} (run' : ActorRun) (ht : runs[t]? = some run)
    (hpath : run.path = run'.path) (howner : run.owner = run'.owner) (hlive : run'.stage ≠ .ended → run.stage ≠ .ended) :
    ∀ (u : Nat) (a : ActorRun), (runs.set t run')[u]? = some a → a.stage ≠ .ended →
      ∃ b : ActorRun, runs[u]? = some b ∧ b.stage ≠ .ended ∧ b.path = a.path ∧ b.owner = a.owner := by
  intro u a hu ha
  rw [List.getElem?_set] at hu
  split at hu
  · rename_i htu
    subst htu
    split at hu
    · cases hu
      exact ⟨run, ht, hlive ha, hpath, howner⟩
    · cases hu
  · exact ⟨a, hu, ha, rfl, rfl⟩

theorem Single.start {s : Forest} (h : s.Single) {t : Nat} {run : ActorRun} (ht : s.runs[t]? = some run)
    (hstage : run.stage = .spawned) : (s.start t run).Single := by
  unfold Forest.start
  split
  · exact h.onRuns s.running true (set_old { run with stage := .ended } ht rfl rfl (by simp))
  · exact h.onRuns _ s.fired (set_old { run with stage := .running } ht rfl rfl (by simp [hstage]))

theorem Single.stop {s : Forest} (h : s.Single) {t : Nat} {run : ActorRun} (ht : s.runs[t]? = some run) : (s.stop t run).Single :=
  h.onRuns _ s.fired (set_old { run with stage := .ended } ht rfl rfl (by simp))

/-- Edits that change neither the stage of a run nor what it is a run of. -/
theorem Single.onAborting {s : Forest} (h : s.Single) {f : Nat → ActorRun → ActorRun}
    (hf : ∀ t run, (f t run).stage = run.stage ∧ (f t run).path = run.path ∧ (f t run).owner = run.owner)
    {runs : List ActorRun} (hruns : ∀ t : Nat, runs[t]? = s.runs[t]?.map (f t)) : Single { s with runs := runs } := by
  refine h.onRuns s.running s.fired ?_
  intro t a ht ha
  rw [hruns] at ht
  obtain ⟨b, hb, rfl⟩ := Option.map_eq_some_iff.mp ht
  obtain ⟨hstage, hpath, howner⟩ := hf t b
  exact ⟨b, hb, hstage ▸ ha, hpath.symm, howner.symm⟩

/-! ## Steps -/

/-- What a step does to the incarnations and the runs. -/
inductive Moves (decls : Decls) (s : Forest) : ForestAction → Forest → Prop
  | spawnScope {r id i} : s.spawner r = some i →
      Moves decls s (.spawnScope r id) { s with incarnations := s.incarnations ++ [⟨i.scope ++ [id], some r, false, false, false⟩] }
  | spawnActor {r id i} : s.incarnations[r]? = some i → i.ended = false →
      (∀ t ∈ s.runs, t.owner = r → t.id = id → t.stage = .ended) →
      Moves decls s (.spawnActor r id) { s with runs := s.runs ++ [⟨i.scope, id, r, .spawned, false⟩] }
  | poll {t run} : s.runs[t]? = some run → run.stage = .spawned → Moves decls s (.poll t) (s.start t run)
  | stop {t a run} : s.runs[t]? = some run → a = .finish t ∨ a = .drop t → Moves decls s a (s.stop t run)
  | abort {t} : Moves decls s (.abort t) { s with runs := s.runs.modify t fun run => { run with aborting := true } }
  | finishScope {r i} : s.incarnations[r]? = some i → Moves decls s (.finishScope r) (s.finishScope r i)
  | release {r} : Moves decls s (.release r)
      { s with incarnations := s.incarnations.modify r fun i => { i with joined := true, stopping := true } }

theorem step_moves {decls : Decls} {s s' : Forest} {a : ForestAction} (hs : s.step decls a = some s') : Moves decls s a s' := by
  cases a with
  | spawnScope r id =>
    simp only [Forest.step] at hs
    split at hs
    · rename_i i hi
      split at hs
      · cases hs
        exact .spawnScope hi
      · cases hs
    · cases hs
  | spawnActor r id =>
    simp only [Forest.step] at hs
    split at hs
    · rename_i i hi
      split at hs
      · rename_i hcond
        cases hs
        obtain ⟨hr, hlive⟩ := spawner_eq_some hi
        refine .spawnActor hr hlive fun t ht howner hid => ?_
        have := List.all_eq_true.mp hcond.2 t ht
        simpa [howner, hid] using this
      · cases hs
    · cases hs
  | poll t =>
    simp only [Forest.step] at hs
    split at hs
    · rename_i run ht
      split at hs
      · rename_i hcond
        cases hs
        exact .poll ht hcond.1
      · cases hs
    · cases hs
  | finish t =>
    simp only [Forest.step] at hs
    split at hs
    · rename_i run ht
      split at hs
      · cases hs
        exact .stop ht (.inl rfl)
      · cases hs
    · cases hs
  | abort t =>
    cases hs
    exact .abort
  | drop t =>
    simp only [Forest.step] at hs
    split at hs
    · rename_i run ht
      split at hs
      · cases hs
        exact .stop ht (.inr rfl)
      · cases hs
    · cases hs
  | finishScope r =>
    simp only [Forest.step] at hs
    split at hs
    · rename_i i hi
      split at hs
      · cases hs
      · cases hs
        exact .finishScope hi
    · cases hs
  | release r =>
    cases hs
    exact .release

theorem abort_frame (t u : Nat) (run : ActorRun) :
    (if t = u then { run with aborting := true } else run).stage = run.stage ∧
      (if t = u then { run with aborting := true } else run).path = run.path ∧
        (if t = u then { run with aborting := true } else run).owner = run.owner := by
  split <;> exact ⟨rfl, rfl, rfl⟩

theorem owned_frame (r : Nat) (run : ActorRun) :
    (if run.owner = r then { run with aborting := true } else run).stage = run.stage ∧
      (if run.owner = r then { run with aborting := true } else run).path = run.path ∧
        (if run.owner = r then { run with aborting := true } else run).owner = run.owner := by
  split <;> exact ⟨rfl, rfl, rfl⟩

theorem Held.step {decls : Decls} {s s' : Forest} {a : ForestAction} (h : s.Held) (halone : s.Alone a)
    (hs : s.step decls a = some s') : s'.Held := by
  cases step_moves hs with
  | spawnScope => exact h.onIncarnations _
  | spawnActor _ _ hgone => exact h.spawnActor hgone
  | poll ht hstage => exact h.start ht hstage ((h.free_iff ht hstage).mpr halone)
  | stop ht => exact h.stop ht
  | abort => exact h.onAborting (fun u run => abort_frame _ u run) fun u => List.getElem?_modify ..
  | finishScope =>
    exact (h.onIncarnations _).onAborting (fun _ run => owned_frame _ run) fun u => List.getElem?_map ..
  | release => exact h.onIncarnations _

/-- The first start that is not alone makes the assertion fire. -/
theorem Held.fired_iff {decls : Decls} {s s' : Forest} {a : ForestAction} (h : s.Held) (hs : s.step decls a = some s') :
    s'.fired = true ↔ ¬ s.Alone a := by
  constructor
  · intro hfired halone
    rw [(h.step halone hs).quiet] at hfired
    cases hfired
  · intro hnot
    cases step_moves hs with
    | poll ht hstage =>
      have htaken := not_not.mp (mt (h.free_iff ht hstage).mp hnot)
      unfold Forest.start
      rw [if_pos htaken]
    | stop _ ha => rcases ha with rfl | rfl <;> exact absurd trivial hnot
    | _ => exact absurd trivial hnot

theorem Single.step {decls : Decls} {s s' : Forest} {a : ForestAction} (h : s.Single) (hclear : s.Clear a)
    (hs : s.step decls a = some s') : s'.Single := by
  cases step_moves hs with
  | spawnScope hi => exact h.spawnScope _ (hclear _ hi)
  | spawnActor hr hlive hgone => exact h.spawnActor hr hlive hgone
  | poll ht hstage => exact h.start ht hstage
  | stop ht => exact h.stop ht
  | abort => exact h.onAborting (fun u run => abort_frame _ u run) fun u => List.getElem?_modify ..
  | @finishScope r i hi =>
    have hended : Single { s with incarnations := s.incarnations.set r { i with ended := true } } := by
      refine h.onIncarnations ?_
      intro j a hj ha
      rw [List.getElem?_set] at hj
      split at hj
      · split at hj <;> cases hj
        cases ha
      · exact ⟨a, hj, ha, rfl⟩
    exact hended.onAborting (fun _ run => owned_frame _ run) fun u => List.getElem?_map ..
  | release =>
    refine h.onIncarnations ?_
    intro j a hj ha
    rw [List.getElem?_modify] at hj
    obtain ⟨b, hb, rfl⟩ := Option.map_eq_some_iff.mp hj
    refine ⟨b, hb, ?_, ?_⟩
    · split at ha <;> exact ha
    · split <;> rfl

/-- Clear of its earlier incarnations, a scope starts its actors alone. -/
theorem Single.starts_alone {decls : Decls} {s s' : Forest} {a : ForestAction} (h : s.Single) (hs : s.step decls a = some s') :
    s.Alone a := by
  cases step_moves hs with
  | @poll t run ht hstage =>
    refine h.alone fun run' ht' => ?_
    rw [ht] at ht'
    cases ht'
    exact hstage
  | stop _ ha => rcases ha with rfl | rfl <;> exact trivial
  | _ => exact trivial

end Forest

/-! ## The flag is free -/

/-- In every run of a tree in which each run of an actor starts while no run of it from
    another incarnation is going on, the assertion never fires, and a start that breaks
    this makes it fire. It holds of every run in which a scope is started only when nothing
    of its earlier incarnations is live. -/
theorem running_flag_free (decls : Decls) :
    (∀ s, Reach (within Forest.Alone (Forest.step decls)) Forest.new s → s.fired = false ∧
      ∀ a s', s.step decls a = some s' → (s'.fired = true ↔ ¬ s.Alone a)) ∧
    ∀ s, Reach (within Forest.Clear (Forest.step decls)) Forest.new s → s.fired = false := by
  constructor
  · intro s hreach
    have hheld : s.Held := by
      refine hreach.invariant (I := Forest.Held) .new ?_
      intro s a s' hheld hs
      obtain ⟨halone, hs⟩ := within_eq_some.mp hs
      exact hheld.step halone hs
    exact ⟨hheld.quiet, fun a s' hs => hheld.fired_iff hs⟩
  · intro s hreach
    have hboth : s.Single ∧ s.Held := by
      refine hreach.invariant (I := fun s => s.Single ∧ s.Held) ⟨.new, .new⟩ ?_
      intro s a s' h hs
      obtain ⟨hclear, hs⟩ := within_eq_some.mp hs
      exact ⟨h.1.step hclear hs, h.2.step (h.1.starts_alone hs) hs⟩
    exact hboth.2.quiet

/-- A nested scope with one actor. -/
def nestedActor : Decls
  | ["nested"] => some .scope
  | ["nested", "actor"] => some .actor
  | _ => none

/-- The scope fails and is replaced; the abort of its actor takes effect before the
    replacement's run of it starts. -/
theorem running_flag_free_restarted :
    ∃ s, Reach (within Forest.Alone (Forest.step nestedActor)) Forest.new s ∧ s.fired = false ∧
      s.running = [["nested", "actor"]] ∧ s.runs.map (·.stage) = [.ended, .running] := by
  have hrun : ∃ s, replay (within Forest.Alone (Forest.step nestedActor)) Forest.new
      [.spawnScope 0 "nested", .spawnActor 1 "actor", .poll 0, .finishScope 1, .release 1, .spawnScope 0 "nested",
        .spawnActor 2 "actor", .drop 0, .poll 1] = some s ∧
      s.running = [["nested", "actor"]] ∧ s.runs.map (·.stage) = [.ended, .running] := by
    refine ⟨_, rfl, ?_⟩
    decide
  obtain ⟨s, hrun, hrest⟩ := hrun
  have hreach := Reach.of_replay hrun
  exact ⟨s, hreach, ((running_flag_free nestedActor).1 s hreach).1, hrest⟩

/-- The scope fails and is restarted before the abort of its actor takes effect. -/
theorem running_flag_taken :
    ∃ s, Reach (Forest.step nestedActor) Forest.new s ∧ s.fired = true := by
  have hrun : ∃ s, replay (Forest.step nestedActor) Forest.new
      [.spawnScope 0 "nested", .spawnActor 1 "actor", .poll 0, .finishScope 1, .release 1,
        .spawnScope 0 "nested", .spawnActor 2 "actor", .poll 1] = some s ∧ s.fired = true := by
    refine ⟨_, rfl, ?_⟩
    decide
  obtain ⟨s, hrun, hfired⟩ := hrun
  exact ⟨s, .of_replay hrun, hfired⟩

end Kokage.Tree

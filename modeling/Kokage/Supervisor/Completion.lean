/-
  Kokage.Supervisor.Completion — waiting until a scope's finite work is done
  (`supervisor/completion.rs`).

  A waiter knows the children it awaits by their ids. It aligns itself from a snapshot, then
  pops a watch on the direct children and applies the events that the snapshot does not show
  yet. It aligns itself again after a marker, after `Added` and `Exited`, and once more
  before it reports completion. Reading and popping are separate steps, and the scope goes
  on between them (`Feed`).

  Proved of what is known of one id:
    `realign_entry`       — a snapshot is read into every awaited id, each on its own.
    `applies_unsatisfied` — without a new membership and without an exit, only a start undoes
                            what was satisfied.
    `applies_removed`     — a removal satisfies, whatever else came in before.
-/

import Kokage.Supervisor.Succession
import Kokage.Supervisor.Tracking

namespace Kokage.Supervisor

open Kokage.Lib Kokage.Lifecycle Ledger SupervisorRuntime

/-! ## The reduction -/

inductive CompletionError where
  | notDynamic
  | unknownChild (childId : String)
  | scopeClosed
  deriving DecidableEq, Repr

def SupervisorSnapshot.child (s : SupervisorSnapshot) (id : String) : Option ChildSnapshot :=
  s.children.find? fun child => child.id = id

def RestartPolicy.isAlways : RestartPolicy → Bool
  | .always .. => true
  | .onFailure .. | .never => false

/-- `is_completed` and not `cancelled`. -/
def ExitStatus.isClean (exit : ExitStatus) : Bool := decide (exit.kind = .completed) && !exit.cancelled

def isCompleted (child : ChildSnapshot) : Bool :=
  if child.membership = .removing then true
  else
    !child.restartPolicy.isAlways && child.nextRestartIn.isNone &&
      match child.state with
      | .stopped _ (some exit) => exit.isClean
      | .startupAborted exit => exit.isClean
      | _ => false

inductive CompletionTransition where
  | running
  | exited (exit : ExitStatus)
  | removed

def CompletionTransition.of : ChildEventKind → Option CompletionTransition
  | .added | .started _ => some .running
  | .exited _ exit => some (.exited exit)
  | .removed => some .removed
  | .restartScheduled _ _ => none

/-- What `satisfied`, `seen`, `latest_lineages` and `restart_policies` hold of one id. -/
structure Awaited where
  satisfied : Bool := false
  seen : Bool := false
  latestLineage : Option Nat := none
  restartPolicy : Option RestartPolicy := none

namespace Awaited

/-- A row of a membership older than one already observed is passed over. -/
def realign (a : Awaited) : Option ChildSnapshot → Awaited
  | some child =>
    if a.latestLineage.any (child.lineage < ·) then a
    else
      { satisfied := isCompleted child
        seen := true
        latestLineage := some child.lineage
        restartPolicy := some child.restartPolicy }
  | none => { a with satisfied := a.seen }

def apply (a : Awaited) (lineage : Nat) (transition : CompletionTransition) : Awaited :=
  let latest := a.latestLineage.getD lineage
  if lineage < latest then a
  else
    let policy := if latest < lineage then none else a.restartPolicy
    { satisfied :=
        match transition with
        | .running => false
        | .exited exit => exit.isClean && !policy.any RestartPolicy.isAlways
        | .removed => true
      seen := true
      latestLineage := some lineage
      restartPolicy := policy }

end Awaited

structure CompletionSet where
  awaited : List String
  entry : String → Awaited := fun _ => {}

namespace CompletionSet

def isComplete (set : CompletionSet) : Bool := set.awaited.all fun id => (set.entry id).satisfied

def put (set : CompletionSet) (id : String) (a : Awaited) : CompletionSet :=
  { set with entry := Function.update set.entry id a }

/-- The body of the loop in `realign`. -/
def realignChild (snapshot : SupervisorSnapshot) (set : CompletionSet) (id : String) : CompletionSet :=
  set.put id ((set.entry id).realign (snapshot.child id))

def realign (set : CompletionSet) (snapshot : SupervisorSnapshot) : CompletionSet :=
  set.awaited.foldl (realignChild snapshot) set

def apply (set : CompletionSet) (event : ChildEvent) : CompletionSet :=
  match CompletionTransition.of event.kind with
  | none => set
  | some transition =>
    if event.childId ∈ set.awaited then
      set.put event.childId ((set.entry event.childId).apply event.lineage transition)
    else set

end CompletionSet

/-! ## The operation -/

inductive CompletionPhase where
  | initial
  | popping
  /-- Nothing was queued: the terminal flag is read next. -/
  | checking
  | realigning
  /-- Every awaited child is satisfied: state is read once more. -/
  | confirming
  | done (result : Except CompletionError Unit)
  deriving DecidableEq

structure CompletionOperation where
  allowFutureMembers : Bool
  set : CompletionSet
  baseline : Nat := 0
  phase : CompletionPhase := .initial

namespace CompletionOperation

/-- The top of the loop in `wait`. -/
def loop (op : CompletionOperation) : CompletionOperation :=
  { op with phase := if op.set.isComplete then .confirming else .popping }

def realign (op : CompletionOperation) (snapshot : SupervisorSnapshot) : CompletionOperation :=
  { op with set := op.set.realign snapshot, baseline := snapshot.lifecycleSeq }

def initializeFrom (op : CompletionOperation) (snapshot : SupervisorSnapshot) : CompletionOperation :=
  match if op.allowFutureMembers then none else op.set.awaited.find? fun id => (snapshot.child id).isNone with
  | some childId => { op with phase := .done (.error (.unknownChild childId)) }
  | none => (op.realign snapshot).loop

/-- What is made of a snapshot, when one is read. -/
def read (op : CompletionOperation) (snapshot : SupervisorSnapshot) : CompletionOperation :=
  match op.phase with
  | .initial => op.initializeFrom snapshot
  | .realigning => (op.realign snapshot).loop
  | .confirming =>
    let op := op.realign snapshot
    { op with phase := if op.set.isComplete then .done (.ok ()) else .popping }
  | .popping | .checking | .done _ => op

def needsRealign : ChildEventKind → Bool
  | .added | .exited _ _ => true
  | .started _ | .restartScheduled _ _ | .removed => false

def take (op : CompletionOperation) : Item LifecycleEvent → CompletionOperation
  | .lagged _ => { op with phase := .realigning }
  | .event ⟨[], .child event⟩ =>
    if op.baseline < event.seq then
      let op := { op with set := op.set.apply event }
      if needsRealign event.kind then { op with phase := .realigning } else op.loop
    else op.loop
  | .event _ => op.loop

end CompletionOperation

structure CompletionWait where
  feed : Feed
  op : CompletionOperation

inductive WaitAction where
  | feed (a : FeedAction)
  | turn
  deriving DecidableEq, Repr

namespace CompletionWait

/-- The next atomic step of `CompletionOperation::new` and `wait`. -/
def turn (H : History) (s : CompletionWait) : CompletionWait :=
  match s.op.phase with
  | .initial | .realigning | .confirming =>
    match s.feed.latest H with
    | some snapshot => { s with op := s.op.read snapshot }
    | none => s
  | .popping =>
    match s.feed.watch.queue with
    | i :: _ => { feed := { s.feed with watch := s.feed.watch.next }, op := s.op.take i }
    | [] => { s with op := { s.op with phase := .checking } }
  | .checking =>
    { s with op := { s.op with phase := if s.feed.terminal then .done (.error .scopeClosed) else .popping } }
  | .done _ => s

def step (H : History) (s : CompletionWait) : WaitAction → CompletionWait
  | .feed a => { s with feed := s.feed.step H a }
  | .turn => s.turn H

def run (H : History) (s : CompletionWait) (actions : List WaitAction) : CompletionWait := actions.foldl (step H) s

/-- An operation on a scope of `kind`, subscribed when `shown` snapshots were published and `staged` events forwarded. -/
def new (kind : ScopeKind) (ids : List String) (allowFutureMembers : Bool) (shown staged : Nat) : CompletionWait where
  feed := .subscribed shown staged
  op :=
    { allowFutureMembers := allowFutureMembers
      set := { awaited := ids }
      phase := if allowFutureMembers ∧ kind ≠ .dynamic then .done (.error .notDynamic) else .initial }

end CompletionWait

/-! ## What one id goes through -/

theorem SupervisorSnapshot.child_some {s : SupervisorSnapshot} {id : String} {c : ChildSnapshot} (h : s.child id = some c) :
    c ∈ s.children ∧ c.id = id := by
  unfold child at h
  have hid := List.find?_some h
  exact ⟨List.mem_of_find?_eq_some h, of_decide_eq_true hid⟩

theorem SupervisorSnapshot.child_none {s : SupervisorSnapshot} {id : String} (h : s.child id = none) : ∀ c ∈ s.children, c.id ≠ id := by
  intro c hc hid
  exact List.find?_eq_none.mp h c hc (decide_eq_true hid)

namespace Awaited

theorem realign_twice (a : Awaited) (c : Option ChildSnapshot) : (a.realign c).realign c = a.realign c := by
  cases c with
  | none => rfl
  | some c =>
    unfold realign
    simp only
    split
    · rfl
    · simp

/-- A row that is not older is taken over. -/
theorem realign_some {a : Awaited} {c : ChildSnapshot} (h : ∀ l, a.latestLineage = some l → l ≤ c.lineage) :
    a.realign (some c) = ⟨isCompleted c, true, some c.lineage, some c.restartPolicy⟩ := by
  have hold : a.latestLineage.any (c.lineage < ·) = false := by
    cases hl : a.latestLineage with
    | none => rfl
    | some l =>
      have := h l hl
      simp only [Option.any_some, decide_eq_false_iff_not]
      omega
  unfold realign
  simp only [hold, Bool.false_eq_true, if_false]

theorem apply_latest {a : Awaited} {n : Nat} (h : a.latestLineage = some n) (t : CompletionTransition) :
    (a.apply n t).latestLineage = some n := by
  unfold apply
  simp [h]

end Awaited

namespace CompletionSet

variable {set : CompletionSet} {id : String}

theorem put_entry (a : Awaited) (id' : String) : (set.put id a).entry id' = if id' = id then a else set.entry id' := by
  unfold put
  exact Function.update_apply ..

theorem realign_loop (r : SupervisorSnapshot) (ids : List String) (set : CompletionSet) :
    (ids.foldl (realignChild r) set).awaited = set.awaited ∧
      ∀ id, (ids.foldl (realignChild r) set).entry id =
        if id ∈ ids then (set.entry id).realign (r.child id) else set.entry id := by
  induction ids generalizing set with
  | nil => exact ⟨rfl, fun id => by simp⟩
  | cons i ids ih =>
    obtain ⟨hawaited, hentry⟩ := ih (realignChild r set i)
    refine ⟨hawaited, fun id => ?_⟩
    rw [List.foldl_cons, hentry, realignChild, put_entry]
    by_cases hid : id = i
    · subst hid
      simp [Awaited.realign_twice]
    · simp [hid]

@[simp] theorem realign_awaited (r : SupervisorSnapshot) : (set.realign r).awaited = set.awaited := (realign_loop r _ set).1

theorem realign_entry (r : SupervisorSnapshot) (h : id ∈ set.awaited) :
    (set.realign r).entry id = (set.entry id).realign (r.child id) := by
  unfold realign
  rw [(realign_loop r _ set).2, if_pos h]

theorem realign_entry_cases (r : SupervisorSnapshot) (id : String) :
    (set.realign r).entry id = set.entry id ∨ (set.realign r).entry id = (set.entry id).realign (r.child id) := by
  by_cases h : id ∈ set.awaited
  · exact .inr (realign_entry r h)
  · refine .inl ?_
    unfold realign
    rw [(realign_loop r _ set).2, if_neg h]

@[simp] theorem apply_awaited (e : ChildEvent) : (set.apply e).awaited = set.awaited := by
  unfold apply
  split
  · rfl
  · split
    · rfl
    · rfl

/-- An event changes what is known of its own id at most. -/
theorem apply_entry (e : ChildEvent) (id : String) :
    (set.apply e).entry id = set.entry id ∨
      e.childId = id ∧ ∃ t, CompletionTransition.of e.kind = some t ∧ (set.apply e).entry id = (set.entry id).apply e.lineage t := by
  unfold apply
  split
  · exact .inl rfl
  · rename_i t ht
    split
    · rw [put_entry]
      by_cases hid : id = e.childId
      · subst hid
        rw [if_pos rfl]
        exact .inr ⟨rfl, t, ht, rfl⟩
      · rw [if_neg hid]
        exact .inl rfl
    · exact .inl rfl

theorem apply_other {e : ChildEvent} (h : e.childId ≠ id) : (set.apply e).entry id = set.entry id := by
  rcases set.apply_entry e id with hsame | ⟨hid, -⟩
  · exact hsame
  · exact absurd hid h

theorem applies_awaited (events : List ChildEvent) : (events.foldl apply set).awaited = set.awaited := by
  induction events generalizing set with
  | nil => rfl
  | cons e events ih => exact ih.trans (apply_awaited e)

theorem applies_other {events : List ChildEvent} (h : ∀ e ∈ events, e.childId ≠ id) :
    (events.foldl apply set).entry id = set.entry id := by
  induction events generalizing set with
  | nil => rfl
  | cons e events ih =>
    rw [List.foldl_cons, ih fun e' he' => h e' (List.mem_cons_of_mem _ he'), apply_other (h e (List.mem_cons_self ..))]

/-- A membership that is the newest one stays the newest while its events come in. -/
theorem apply_latest {n : Nat} {e : ChildEvent} (hl : (set.entry id).latestLineage = some n)
    (hsame : e.childId = id → e.lineage = n) : ((set.apply e).entry id).latestLineage = some n := by
  rcases set.apply_entry e id with h | ⟨hid, t, -, h⟩
  · rw [h]
    exact hl
  · rw [h, hsame hid]
    exact Awaited.apply_latest hl t

theorem apply_removed {n : Nat} {e : ChildEvent} (hin : id ∈ set.awaited) (hl : (set.entry id).latestLineage = some n)
    (hlin : e.lineage = n) (hid : e.childId = id) (hk : e.kind = .removed) : ((set.apply e).entry id).satisfied = true := by
  have hnow : (set.apply e).entry id = (set.entry id).apply n .removed := by
    unfold apply
    simp [hk, CompletionTransition.of, hid, hin, hlin, put_entry]
  rw [hnow]
  simp [Awaited.apply, hl]

/-- Without a new membership and without an exit, only a start undoes what was satisfied. -/
theorem apply_unsatisfied {n : Nat} {e : ChildEvent} (hin : id ∈ set.awaited) (hl : (set.entry id).latestLineage = some n)
    (hsame : e.childId = id → e.lineage = n) (hcalm : CompletionOperation.needsRealign e.kind = false)
    (h : ((set.apply e).entry id).satisfied = false) :
    (set.entry id).satisfied = false ∨ e.childId = id ∧ ∃ g, e.kind = .started g := by
  by_cases hid : e.childId = id
  · cases hk : e.kind with
    | started g => exact .inr ⟨hid, g, rfl⟩
    | added => simp [hk, CompletionOperation.needsRealign] at hcalm
    | exited g x => simp [hk, CompletionOperation.needsRealign] at hcalm
    | restartScheduled g d =>
      have hskip : set.apply e = set := by
        unfold apply
        simp [hk, CompletionTransition.of]
      rw [hskip] at h
      exact .inl h
    | removed =>
      rw [apply_removed hin hl (hsame hid) hid hk] at h
      cases h
  · rw [apply_other hid] at h
    exact .inl h

theorem applies_unsatisfied {n : Nat} {events : List ChildEvent} (hin : id ∈ set.awaited)
    (hl : (set.entry id).latestLineage = some n) (hsame : ∀ e ∈ events, e.childId = id → e.lineage = n)
    (hcalm : ∀ e ∈ events, CompletionOperation.needsRealign e.kind = false)
    (h : ((events.foldl apply set).entry id).satisfied = false) :
    (set.entry id).satisfied = false ∨ ∃ e ∈ events, e.childId = id ∧ ∃ g, e.kind = .started g := by
  induction events generalizing set with
  | nil => exact .inl h
  | cons e events ih =>
    have hin' : id ∈ (set.apply e).awaited := by
      rw [apply_awaited]
      exact hin
    have hfirst := hsame e (List.mem_cons_self ..)
    rcases ih hin' (apply_latest hl hfirst) (fun e' he' => hsame e' (List.mem_cons_of_mem _ he'))
        (fun e' he' => hcalm e' (List.mem_cons_of_mem _ he')) h with h | ⟨e', he', hstart⟩
    · rcases apply_unsatisfied hin hl hfirst (hcalm e (List.mem_cons_self ..)) h with h | hstart
      · exact .inl h
      · exact .inr ⟨e, List.mem_cons_self .., hstart⟩
    · exact .inr ⟨e', List.mem_cons_of_mem _ he', hstart⟩

theorem applies_latest {n : Nat} {events : List ChildEvent} (hl : (set.entry id).latestLineage = some n)
    (hsame : ∀ e ∈ events, e.childId = id → e.lineage = n) : ((events.foldl apply set).entry id).latestLineage = some n := by
  induction events generalizing set with
  | nil => exact hl
  | cons e events ih =>
    exact ih (apply_latest hl (hsame e (List.mem_cons_self ..))) fun e' he' => hsame e' (List.mem_cons_of_mem _ he')

theorem applies_removed {n : Nat} {before later : List ChildEvent} {e : ChildEvent} (hin : id ∈ set.awaited)
    (hl : (set.entry id).latestLineage = some n) (hsame : ∀ e' ∈ before ++ e :: later, e'.childId = id → e'.lineage = n)
    (hid : e.childId = id) (hk : e.kind = .removed) (hnone : ∀ e' ∈ later, e'.childId ≠ id) :
    (((before ++ e :: later).foldl apply set).entry id).satisfied = true := by
  rw [List.foldl_append, List.foldl_cons, applies_other hnone]
  have hin' : id ∈ (before.foldl apply set).awaited := by
    rw [applies_awaited]
    exact hin
  have hl' := applies_latest hl fun e' he' => hsame e' (List.mem_append_left _ he')
  exact apply_removed hin' hl' (hsame e (List.mem_append_right _ (List.mem_cons_self ..)) hid) hid hk

end CompletionSet

end Kokage.Supervisor

/-
  Kokage.Actor.Pump — forwarding a child observation to an actor (`runtime.rs`:
  `spawn_child_observation_to`).

  The pump reads updates and sends them through the actor's binding, one at a time; its
  sends are calls among the others of `Kokage.Actor.Delivery`, so the target may be
  replaced before, during and after each of them. It remembers the mailbox it last saw and
  sends a reset when it sees another one, on its own or as the mailbox that took an update.

  What the observation hands out is assumed to be without gaps: a transition is the next
  sequence of the reader, a reset is no older than what it has read (`follows`), as
  `Kokage.Lifecycle.Observation` shows for one incarnation.

  Mailboxes are bound in order, so each takes a stretch of what was sent. Hence
  (`pump_recovers`) in every mailbox but the first one seen, the first update is a reset or
  the second, if there is one; after a reset the transitions are consecutive; and nothing
  is taken twice. There need not be a second update: the reset that follows a transition
  may find the mailbox replaced once more (`pump_passes_by`).
-/

import Mathlib.Data.List.Nodup
import Kokage.Actor.Delivery
import Kokage.Lifecycle.Observation

namespace Kokage.Actor

open Kokage.Supervisor Kokage.Lifecycle

/-! ## The pump -/

def Update.isReset : ChildObservationUpdate → Bool
  | .reset _ _ => true
  | .transition _ => false

/-- What a reader at `s` may be handed next. -/
def follows (s : Nat) : ChildObservationUpdate → Bool
  | .transition event => event.seq = s + 1
  | .reset snapshot _ => s ≤ snapshot.lifecycleSeq

theorem follows_iff {s : Nat} {u : ChildObservationUpdate} : follows s u = true ↔ GapFree s [u] := by
  cases u with
  | transition event => simp [follows, GapFree]
  | reset snapshot d => simp [follows, GapFree]

inductive PumpPhase where
  /-- The select between a new incarnation of the target and the next update -/
  | selecting
  /-- A send; `recovery` is set for the resets the pump sends on its own -/
  | sending (call : Nat) (update : ChildObservationUpdate) (recovery : Bool)
  | stopped

structure Pump (M : Type) where
  traffic : Traffic M
  targetIncarnation : Option Nat
  phase : PumpPhase
  /-- Where the reader of the observation is. -/
  position : Nat
  /-- History: the updates sent, by call. -/
  sent : List (Nat × ChildObservationUpdate)
  /-- History: the first incarnation the pump saw. -/
  firstSeen : Option Nat

inductive PumpAction (M : Type) where
  /-- Anything else in the system, and the steps of the pump's sends. -/
  | traffic (a : TrafficAction M)
  /-- `wait_for_incarnation_after` returned; `latest` is the snapshot a reset would take. -/
  | observe (latest : SupervisorSnapshot)
  | next (update : ChildObservationUpdate)
  /-- The observation ended. -/
  | ended
  /-- The send returned. -/
  | resume (latest : SupervisorSnapshot)
  /-- The guard was cancelled, or the target terminated. -/
  | stop

namespace CallPhase

variable {M : Type}

/-- The call is at an await. -/
def awaits : CallPhase M → Bool
  | resolving _ | reserving _ _ | yielding _ _ | rebinding _ _ => true
  | _ => false

/-- The mailbox the call has to do with. -/
def mailbox : CallPhase M → Option Nat
  | checking b _ | reserving b _ | reserved b _ | cleared b _ | yielding b _ | rebinding b _ | accepted b _ => some b
  | returned (.ok b) => some b
  | _ => none

/-- The message of the call was taken. -/
def isTaken : CallPhase M → Bool
  | accepted _ _ | returned (.ok _) => true
  | _ => false

/-- A send at this phase makes no further step. -/
def isOver : CallPhase M → Bool
  | returned _ | cancelled => true
  | _ => false

end CallPhase

namespace Pump

variable {M : Type}

def new (initial : Nat) : Pump M := ⟨.new, none, .selecting, initial, [], none⟩

def see (s : Pump M) (mailbox : Nat) : Pump M :=
  { s with targetIncarnation := some mailbox, firstSeen := s.firstSeen.or (some mailbox) }

def send (map : ChildObservationUpdate → M) (s : Pump M) (u : ChildObservationUpdate) (recovery : Bool) : Pump M :=
  { s with
    traffic := s.traffic.step (.begin .send (map u) 0)
    phase := .sending s.traffic.calls.length u recovery
    position := Lifecycle.position s.position [u]
    sent := s.sent ++ [(s.traffic.calls.length, u)] }

def observe (map : ChildObservationUpdate → M) (s : Pump M) (latest : SupervisorSnapshot) : Pump M :=
  match s.traffic.binding with
  | .terminated => { s with phase := .stopped }
  | .unbound => if s.traffic.bindingClosed then { s with phase := .stopped } else s
  | .bound mailbox =>
    if s.targetIncarnation = some mailbox then
      if s.traffic.bindingClosed then { s with phase := .stopped } else s
    else if s.targetIncarnation.isSome then (s.see mailbox).send map (.reset latest 0) true
    else s.see mailbox

def resume (map : ChildObservationUpdate → M) (s : Pump M) (latest : SupervisorSnapshot) (u : ChildObservationUpdate)
    (recovery : Bool) : Except (M × SendErrorKind) Nat → Pump M
  | .error _ => { s with phase := .stopped }
  | .ok mailbox =>
    let targetRestarted := s.targetIncarnation.any (· ≠ mailbox)
    if !recovery && targetRestarted && !Update.isReset u then (s.see mailbox).send map (.reset latest 0) true
    else { s.see mailbox with phase := .selecting }

/-- The call of the send in progress. -/
def current (s : Pump M) : Option Nat :=
  match s.phase with
  | .sending call _ _ => some call
  | .selecting | .stopped => none

/-- Nobody else drops the pump's future. -/
def mayAct (s : Pump M) : TrafficAction M → Bool
  | .cancel call => s.current ≠ some call
  | _ => true

def step (map : ChildObservationUpdate → M) (s : Pump M) : PumpAction M → Pump M
  | .traffic a => if s.mayAct a then { s with traffic := s.traffic.step a } else s
  | .observe latest =>
    match s.phase with
    | .selecting => if follows s.position (.reset latest 0) then s.observe map latest else s
    | _ => s
  | .next u =>
    match s.phase with
    | .selecting => if follows s.position u then s.send map u false else s
    | _ => s
  | .ended =>
    match s.phase with
    | .selecting => { s with phase := .stopped }
    | _ => s
  | .resume latest =>
    match s.phase with
    | .sending call u recovery =>
      match (s.traffic.calls[call]?).map Call.phase with
      | some (.returned result) =>
        if follows s.position (.reset latest 0) then s.resume map latest u recovery result else s
      | _ => s
    | _ => s
  | .stop =>
    match s.phase with
    | .selecting => { s with phase := .stopped }
    | .sending call _ _ =>
      if ((s.traffic.calls[call]?).map Call.phase).any CallPhase.awaits then
        { s with traffic := s.traffic.step (.cancel call), phase := .stopped }
      else s
    | .stopped => s

def run (map : ChildObservationUpdate → M) (initial : Nat) (actions : List (PumpAction M)) : Pump M :=
  actions.foldl (step map) (new initial)

/-- What mailboxes have taken from the pump, in order. -/
def delivered (s : Pump M) : List (Nat × ChildObservationUpdate) :=
  s.traffic.taken.filterMap fun t => (s.sent.lookup t.1).map fun u => (t.2.1, u)

/-- What one mailbox has taken from it. -/
def acceptedBy (s : Pump M) (mailbox : Nat) : List ChildObservationUpdate :=
  (s.delivered.filter fun x => x.1 = mailbox).map (·.2)

end Pump

/-! ## What a step of the traffic does -/

namespace Traffic

variable {M : Type} {w w' : Traffic M} {i : Nat} {c : Call M}

/-- A call moves on without its message being taken. -/
def Shifts (w : Traffic M) (i : Nat) (c : Call M) (w' : Traffic M) : Prop :=
  w'.taken = w.taken ∧ ∃ phase, w'.calls = w.calls.modify i (fun c => { c with phase := phase }) ∧
    (c.operation = .send → phase.isTaken = c.phase.isTaken) ∧ (phase.isTaken = true → phase.mailbox = c.phase.mailbox) ∧
    ∀ b, phase.mailbox = some b → c.phase.mailbox = some b ∨ w.binding = .bound b

/-- The mailbox of the call takes its message. -/
def Takes (w : Traffic M) (i : Nat) (c : Call M) (w' : Traffic M) : Prop :=
  ∃ b m n, c.phase.mailbox = some b ∧ c.phase.isTaken = false ∧ w'.taken = w.taken ++ [(i, b, m)] ∧
    w'.calls = w.calls.modify i fun c => { c with phase := .accepted b n }

/-- Everything a step of one call can do. -/
structure Moves (w : Traffic M) (i : Nat) (c : Call M) (w' : Traffic M) : Prop where
  binding_eq : w'.binding = w.binding
  length_eq : w'.mailboxes.length = w.mailboxes.length
  effect : w' = w ∨ Shifts w i c w' ∨ Takes w i c w'

theorem Moves.refl : Moves w i c w := ⟨rfl, rfl, .inl rfl⟩

section Carrying

variable {b : Nat} {m : M} {phase : CallPhase M} (hc : c.phase.isTaken = false)

include hc

theorem Moves.onMailbox (f : Mailbox M → Mailbox M) (hp : phase.isTaken = false)
    (hm : ∀ b, phase.mailbox = some b → c.phase.mailbox = some b ∨ w.binding = .bound b) :
    Moves w i c ((w.onMailbox b f).setPhase i phase) := by
  refine ⟨rfl, List.length_modify .., .inr (.inl ⟨rfl, phase, rfl, fun _ => hp.trans hc.symm, fun ht => ?_, hm⟩)⟩
  rw [hp] at ht
  cases ht

theorem Moves.setPhase (hp : phase.isTaken = false)
    (hm : ∀ b, phase.mailbox = some b → c.phase.mailbox = some b ∨ w.binding = .bound b) :
    Moves w i c (w.setPhase i phase) := by
  refine ⟨rfl, rfl, .inr (.inl ⟨rfl, phase, rfl, fun _ => hp.trans hc.symm, fun ht => ?_, hm⟩)⟩
  rw [hp] at ht
  cases ht

theorem Moves.refuse {kind : SendErrorKind} : Moves w i c (w.setPhase i (.refused m kind)) :=
  .setPhase hc rfl nofun

theorem Moves.keep (hb : c.phase.mailbox = some b) (hp : phase.isTaken = false) (hm : phase.mailbox = some b) :
    Moves w i c (w.setPhase i phase) :=
  .setPhase hc hp fun _ hb' => .inl (hb.trans (hm.symm.trans hb'))

theorem Moves.closed (hb : c.phase.mailbox = some b) : Moves w i c (w.setPhase i (c.closed b m)) := by
  unfold Call.closed
  split
  · exact .refuse hc
  · exact .keep hc hb rfl rfl

theorem Moves.take (mb : Mailbox M) (hb : c.phase.mailbox = some b) : Moves w i c (w.take i b mb m) :=
  ⟨rfl, List.length_modify .., .inr (.inr ⟨b, m, _, hb, hc, rfl, rfl⟩)⟩

theorem Moves.unresolved : Moves w i c (w.unresolved i c m) := by
  unfold Traffic.unresolved
  split
  · exact .refuse hc
  · split
    · exact .refuse hc
    · exact .refl

theorem Moves.conflate (mb : Mailbox M) (hb : c.phase.mailbox = some b) : Moves w i c (w.conflate i c b mb m) := by
  unfold Traffic.conflate
  split
  · exact .closed hc hb
  · split
    · exact .refuse hc
    · exact .take hc mb hb

theorem Moves.reserve (mb : Mailbox M) (hb : c.phase.mailbox = some b) : Moves w i c (w.reserve i c b mb m) := by
  unfold Traffic.reserve
  split
  · exact .closed hc hb
  · split
    · exact .onMailbox hc _ rfl fun b' hb' => .inl (hb.trans hb')
    · split
      · exact .refuse hc
      · exact .refl

end Carrying

theorem go_moves (w : Traffic M) (i : Nat) (c : Call M) : Moves w i c (w.go i c) := by
  unfold Traffic.go
  cases hp : c.phase with
  | resolving m =>
    have hc : c.phase.isTaken = false := by rw [hp]; rfl
    simp only
    split
    · rename_i b hb
      refine .setPhase hc rfl fun b' hb' => .inr ?_
      cases hb'
      exact hb
    · exact .unresolved hc
    · exact .refuse hc
  | checking b m =>
    have hb : c.phase.mailbox = some b := by rw [hp]; rfl
    have hc : c.phase.isTaken = false := by rw [hp]; rfl
    simp only
    split
    · exact .refl
    · split
      · split
        · exact .keep hc hb rfl rfl
        · exact .closed hc hb
      · split
        · exact .conflate hc _ hb
        · exact .keep hc hb rfl rfl
  | reserving b m =>
    have hb : c.phase.mailbox = some b := by rw [hp]; rfl
    have hc : c.phase.isTaken = false := by rw [hp]; rfl
    simp only
    split
    · exact .refl
    · exact .reserve hc _ hb
  | reserved b m =>
    have hb : c.phase.mailbox = some b := by rw [hp]; rfl
    have hc : c.phase.isTaken = false := by rw [hp]; rfl
    simp only
    split
    · exact .refl
    · split
      · exact .keep hc hb rfl rfl
      · unfold Call.closed
        split
        · exact .onMailbox hc _ rfl nofun
        · exact .onMailbox hc _ rfl fun b' hb' => .inl (hb.trans hb')
  | cleared b m =>
    have hb : c.phase.mailbox = some b := by rw [hp]; rfl
    have hc : c.phase.isTaken = false := by rw [hp]; rfl
    simp only
    split
    · exact .refl
    · split
      · exact .onMailbox hc _ rfl nofun
      · exact .take hc _ hb
  | yielding b m =>
    have hb : c.phase.mailbox = some b := by rw [hp]; rfl
    have hc : c.phase.isTaken = false := by rw [hp]; rfl
    simp only
    split
    · exact .refl
    · exact .conflate hc _ hb
  | rebinding b m =>
    have hc : c.phase.isTaken = false := by rw [hp]; rfl
    simp only
    split
    · split
      · exact .setPhase hc rfl nofun
      · split
        · exact .refuse hc
        · exact .refl
    · exact .unresolved hc
    · exact .refuse hc
  | accepted b n =>
    refine ⟨rfl, rfl, .inr (.inl ⟨rfl, .returned (.ok b), rfl, fun _ => ?_, fun _ => ?_, fun b' hb' => .inl ?_⟩)⟩
    · rw [hp]
      rfl
    · rw [hp]
      rfl
    · rw [hp]
      exact hb'
  | refused m kind =>
    refine ⟨rfl, rfl, .inr (.inl ⟨rfl, .returned (.error (m, kind)), rfl, fun _ => ?_, nofun, nofun⟩)⟩
    rw [hp]
    rfl
  | returned r =>
    simp only
    split
    · rename_i ho
      have hsend : c.operation = .send → False := by
        rw [ho]
        nofun
      have hplain : (afterSend r : CallPhase M).isTaken = false ∧ (afterSend r : CallPhase M).mailbox = none := by
        unfold afterSend
        split <;> exact ⟨rfl, rfl⟩
      refine ⟨rfl, rfl, .inr (.inl ⟨rfl, afterSend r, rfl, fun h => (hsend h).elim, fun ht => ?_, fun b hb => ?_⟩)⟩
      · rw [hplain.1] at ht
        cases ht
      · rw [hplain.2] at hb
        cases hb
    · exact .refl
  | awaitingReply => exact .refl
  | answered r => exact .refl
  | unreachable => exact .refl
  | cancelled => exact .refl

theorem timer_moves (w : Traffic M) (i : Nat) (c : Call M) : Moves w i c (w.timer i c) := by
  unfold Traffic.timer
  split
  · cases hp : c.phase with
    | resolving m => exact .refuse (by rw [hp]; rfl)
    | reserving b m => exact .refuse (by rw [hp]; rfl)
    | yielding b m => exact .refuse (by rw [hp]; rfl)
    | rebinding b m => exact .refuse (by rw [hp]; rfl)
    | awaitingReply => exact .setPhase (by rw [hp]; rfl) rfl nofun
    | _ => exact .refl
  · exact .refl

theorem cancel_moves (w : Traffic M) (i : Nat) (c : Call M) : Moves w i c (w.cancel i c) := by
  unfold Traffic.cancel
  split
  · exact .refl
  · cases hp : c.phase with
    | resolving m => exact .setPhase (by rw [hp]; rfl) rfl nofun
    | reserving b m => exact .setPhase (by rw [hp]; rfl) rfl nofun
    | yielding b m => exact .setPhase (by rw [hp]; rfl) rfl nofun
    | rebinding b m => exact .setPhase (by rw [hp]; rfl) rfl nofun
    | awaitingReply => exact .setPhase (by rw [hp]; rfl) rfl nofun
    | _ => exact .refl

theorem answer_moves (w : Traffic M) (i : Nat) (c : Call M) (answer : Bool) : Moves w i c (w.answer i c answer) := by
  unfold Traffic.answer
  cases hp : c.phase with
  | awaitingReply => exact .setPhase (by rw [hp]; rfl) rfl nofun
  | _ => exact .refl

theorem over_still (ho : c.operation = .send) (hd : c.deadline = none) (hp : c.phase.isOver = true) (answer : Bool) :
    w.go i c = w ∧ w.timer i c = w ∧ w.cancel i c = w ∧ w.answer i c answer = w := by
  have hne : ¬ c.operation = .call := by rw [ho]; simp
  have hno : c.expired w.now = false := by
    unfold Call.expired
    rw [hd]
    rfl
  cases hph : c.phase with
  | returned r =>
    refine ⟨?_, ?_, ?_, ?_⟩
    · unfold Traffic.go
      simp [hph, hne]
    · unfold Traffic.timer
      simp [hno]
    · unfold Traffic.cancel
      simp [hph]
    · unfold Traffic.answer
      simp [hph]
  | cancelled =>
    refine ⟨?_, ?_, ?_, ?_⟩
    · unfold Traffic.go
      simp [hph]
    · unfold Traffic.timer
      simp [hno]
    · unfold Traffic.cancel
      simp [hph]
    · unfold Traffic.answer
      simp [hph]
  | _ =>
    rw [hph] at hp
    cases hp

/-- The bound mailbox is the latest. -/
def Latest (w : Traffic M) : Prop := ∀ b, w.binding = .bound b → b + 1 = w.mailboxes.length

/-- Nothing happens to a call. -/
structure Quiet (w w' : Traffic M) : Prop where
  calls_eq : w'.calls = w.calls
  taken_eq : w'.taken = w.taken
  length_le : w.mailboxes.length ≤ w'.mailboxes.length
  latest : w.Latest → w'.Latest

theorem Quiet.onMailbox (b : Nat) (f : Mailbox M → Mailbox M) : Quiet w (w.onMailbox b f) := by
  have hlen : (w.onMailbox b f).mailboxes.length = w.mailboxes.length := List.length_modify ..
  refine ⟨rfl, rfl, Nat.le_of_eq hlen.symm, fun h b hb => ?_⟩
  rw [hlen]
  exact h b hb

/-- One call makes a step; a send that is over makes none. -/
def Acts (w w' : Traffic M) : Prop :=
  ∃ i c, w.calls[i]? = some c ∧ Moves w i c w' ∧
    (c.operation = .send → c.deadline = none → c.phase.isOver = true → w' = w)

theorem onCall_acts {f : Traffic M → Nat → Call M → Traffic M} (hf : ∀ c, Moves w i c (f w i c))
    (ho : ∀ c, c.operation = .send → c.deadline = none → c.phase.isOver = true → f w i c = w) :
    Quiet w (w.onCall i f) ∨ Acts w (w.onCall i f) := by
  cases hc : w.calls[i]? with
  | none =>
    have heq : w.onCall i f = w := by
      unfold Traffic.onCall
      rw [hc]
    rw [heq]
    exact .inl ⟨rfl, rfl, Nat.le_refl _, id⟩
  | some c =>
    have heq : w.onCall i f = f w i c := by
      unfold Traffic.onCall
      rw [hc]
    refine .inr ⟨i, c, hc, ?_, ?_⟩
    · rw [heq]
      exact hf c
    · rw [heq]
      exact ho c

/-- Everything a step can do: nothing to a call, a new call, a step of one. -/
theorem step_cases (w : Traffic M) (a : TrafficAction M) :
    Quiet w (w.step a) ∨ Acts w (w.step a) ∨
    ∃ o m d, (w.step a).calls = w.calls ++ [⟨o, m, d, .resolving m⟩] ∧ (w.step a).taken = w.taken ∧
      (w.step a).binding = w.binding ∧ (w.step a).mailboxes = w.mailboxes := by
  have hcall : ∀ {w' : Traffic M} {P : Prop}, Quiet w w' ∨ Acts w w' → Quiet w w' ∨ Acts w w' ∨ P :=
    fun h => h.imp_right .inl
  cases a with
  | begin o m bound => exact .inr (.inr ⟨o, m, _, rfl, rfl, rfl, rfl⟩)
  | go i => exact hcall (onCall_acts (go_moves w i) fun c h₁ h₂ h₃ => (over_still h₁ h₂ h₃ true).1)
  | timer i => exact hcall (onCall_acts (timer_moves w i) fun c h₁ h₂ h₃ => (over_still h₁ h₂ h₃ true).2.1)
  | cancel i => exact hcall (onCall_acts (cancel_moves w i) fun c h₁ h₂ h₃ => (over_still h₁ h₂ h₃ true).2.2.1)
  | reply i answer =>
    exact hcall (onCall_acts (f := fun w i c => w.answer i c answer) (fun c => answer_moves w i c answer)
      fun c h₁ h₂ h₃ => (over_still h₁ h₂ h₃ answer).2.2.2)
  | closeExternal b => exact .inl (.onMailbox b _)
  | closeReceiver b => exact .inl (.onMailbox b _)
  | receive b => exact .inl (.onMailbox b _)
  | bind kind capacity =>
    refine .inl ⟨rfl, rfl, ?_, fun _ b hb => ?_⟩
    · simp [step]
    · have hb : BindingState.bound w.mailboxes.length = .bound b := hb
      cases hb
      simp [step]
  | unbind =>
    refine .inl ⟨rfl, rfl, Nat.le_refl _, fun h b hb => ?_⟩
    simp only [step] at hb ⊢
    split at hb
    · cases hb
    · exact h b hb
  | terminate =>
    refine .inl ⟨rfl, rfl, Nat.le_refl _, fun _ b hb => ?_⟩
    cases hb
  | dropBinding => exact .inl ⟨rfl, rfl, Nat.le_refl _, id⟩
  | tick d => exact .inl ⟨rfl, rfl, Nat.le_refl _, id⟩

theorem step_latest (h : w.Latest) (a : TrafficAction M) : (w.step a).Latest := by
  rcases step_cases w a with hq | ⟨i, c, -, hmv, -⟩ | ⟨o, m, d, -, -, hb, hm⟩
  · exact hq.latest h
  · intro b hbound
    rw [hmv.length_eq]
    exact h b (hmv.binding_eq ▸ hbound)
  · intro b hbound
    rw [hm]
    exact h b (hb ▸ hbound)

end Traffic

/-! ## What each mailbox takes -/

section Shape

variable {first : Option Nat} {D : List (Nat × ChildObservationUpdate)} {x y : Nat × ChildObservationUpdate}

/-- `x` is a transition, and the first thing its mailbox takes; the mailbox is not the
    first one seen. -/
def Opens (first : Option Nat) (pre : List (Nat × ChildObservationUpdate)) (x : Nat × ChildObservationUpdate) : Prop :=
  (∀ y ∈ pre, y.1 ≠ x.1) ∧ first ≠ some x.1 ∧ Update.isReset x.2 = false

/-- After such a one comes a reset. -/
def Recovers (first : Option Nat) (D : List (Nat × ChildObservationUpdate)) : Prop :=
  ∀ pre x post, D = pre ++ x :: post → Opens first pre x → ∀ y, post.head? = some y → Update.isReset y.2 = true

/-- The reset is yet to come. -/
def Unsettled (first : Option Nat) (D : List (Nat × ChildObservationUpdate)) : Prop :=
  ∃ pre x, D = pre ++ [x] ∧ Opens first pre x

theorem Recovers.snoc (h : Recovers first D) (hy : Unsettled first D → Update.isReset y.2 = true) : Recovers first (D ++ [y]) := by
  intro pre x post heq hop z hz
  cases hpost : post.reverse with
  | nil =>
    rw [List.reverse_eq_nil_iff.mp hpost] at hz
    cases hz
  | cons last front =>
    have hsplit : post = front.reverse ++ [last] := by
      rw [← List.reverse_reverse post, hpost, List.reverse_cons]
    rw [hsplit, ← List.cons_append, ← List.append_assoc] at heq
    obtain ⟨hD, hlast⟩ := List.append_inj' heq rfl
    cases hlast
    cases hfront : front.reverse with
    | nil =>
      rw [hsplit, hfront] at hz
      cases hz
      rw [hfront] at hD
      exact hy ⟨pre, x, hD, hop⟩
    | cons a rest =>
      rw [hsplit, hfront] at hz
      rw [hfront] at hD
      exact h pre x (a :: rest) hD hop z hz

theorem not_unsettled_of_reset (hy : Update.isReset y.2 = true) : ¬ Unsettled first (D ++ [y]) := by
  intro ⟨pre, x, heq, hop⟩
  obtain ⟨-, hx⟩ := List.append_inj' heq rfl
  cases hx
  rw [hop.2.2] at hy
  cases hy

/-- What a mailbox takes is a stretch of what is delivered. -/
theorem stretch (b : Nat) : ∀ {D : List (Nat × ChildObservationUpdate)}, D.Pairwise (fun x y => x.1 ≤ y.1) →
    ∃ X Y, D = X ++ D.filter (fun x => x.1 = b) ++ Y ∧ ∀ y ∈ X, y.1 < b
  | [], _ => ⟨[], [], rfl, nofun⟩
  | x :: D, h => by
    obtain ⟨hx, hD⟩ := List.pairwise_cons.mp h
    obtain ⟨X, Y, heq, hlt⟩ := stretch b hD
    by_cases hxb : x.1 = b
    · have hX : X = [] := by
        cases X with
        | nil => rfl
        | cons z X =>
          have hz : z ∈ D := by
            rw [heq]
            simp
          have := hx z hz
          have := hlt z (List.mem_cons_self ..)
          omega
      subst hX
      refine ⟨[], Y, ?_, nofun⟩
      rw [List.filter_cons_of_pos (by simpa using hxb), List.nil_append, List.cons_append]
      exact congrArg (x :: ·) heq
    · rw [List.filter_cons_of_neg (by simpa using hxb)]
      by_cases hle : x.1 < b
      · refine ⟨x :: X, Y, ?_, ?_⟩
        · exact congrArg (x :: ·) heq
        · intro y hy
          rcases List.mem_cons.mp hy with rfl | hy
          · exact hle
          · exact hlt y hy
      · -- past the mailbox
        refine ⟨[], x :: D, ?_, nofun⟩
        have hnone : D.filter (fun x => x.1 = b) = [] := by
          refine List.filter_eq_nil_iff.mpr fun y hy => ?_
          have := hx y hy
          simp only [decide_eq_true_eq]
          omega
        rw [hnone]
        rfl

theorem gapFree_append {s : Nat} {u v : List ChildObservationUpdate} (h : GapFree s (u ++ v)) : GapFree s u := by
  induction u generalizing s with
  | nil => trivial
  | cons x u ih =>
    cases x with
    | transition event => exact ⟨h.1, ih h.2⟩
    | reset snapshot d => exact ⟨h.1, ih h.2⟩

theorem gapFree_after {s : Nat} {snapshot : SupervisorSnapshot} {d : Nat} {u v : List ChildObservationUpdate}
    (h : GapFree s (u ++ .reset snapshot d :: v)) : GapFree snapshot.lifecycleSeq v := by
  induction u generalizing s with
  | nil => exact h.2
  | cons x u ih =>
    cases x with
    | transition event => exact ih h.2
    | reset snapshot d => exact ih h.2

end Shape

/-! ## The pump's books -/

namespace Pump

variable {M : Type} {s s' : Pump M} {initial : Nat} {map : ChildObservationUpdate → M}

/-- Between two sends, `D` being delivered: the incarnation remembered is the first, or the
    last that took something, and no reset is owed. -/
structure Rests (s : Pump M) (D : List (Nat × ChildObservationUpdate)) : Prop where
  unseen : s.targetIncarnation = none → D = [] ∧ s.firstSeen = none
  seen : ∀ t, s.targetIncarnation = some t → s.firstSeen.isSome = true ∧
    (s.firstSeen = some t ∨ ∃ x, D.getLast? = some x ∧ x.1 = t)
  settled : ¬ Unsettled s.firstSeen D

/-- A send in progress: `B` was delivered before it, and all that was sent before it. -/
structure Sending (s : Pump M) (call : Nat) (u : ChildObservationUpdate) (recovery : Bool) (c : Call M)
    (B before : List (Nat × ChildObservationUpdate)) : Prop where
  call_eq : s.traffic.calls[call]? = some c
  sent_eq : s.sent = before ++ [(call, u)]
  before_eq : B.map (·.2) = before.map (·.2)
  delivered : c.phase.isTaken = false ∧ s.delivered = B ∨
    ∃ b, c.phase.isTaken = true ∧ c.phase.mailbox = some b ∧ s.delivered = B ++ [(b, u)]
  mailbox : ∀ b, c.phase.mailbox = some b → b < s.traffic.mailboxes.length ∧ ∀ x ∈ B, x.1 ≤ b
  duty : if recovery then Update.isReset u = true ∧ s.firstSeen.isSome = true else s.Rests B

def PhaseInv (s : Pump M) : Prop :=
  match s.phase with
  | .selecting => s.delivered.map (·.2) = s.sent.map (·.2) ∧ s.Rests s.delivered
  | .sending call u recovery => ∃ c B before, s.Sending call u recovery c B before
  | .stopped => s.delivered.map (·.2) <+: s.sent.map (·.2)

structure Inv (initial : Nat) (s : Pump M) : Prop where
  traffic : s.traffic.Inv
  latest : s.traffic.Latest
  calls : ∀ x ∈ s.sent, ∃ c, s.traffic.calls[x.1]? = some c ∧ c.operation = .send ∧
    (s.current ≠ some x.1 → c.phase.isOver = true)
  nodup : (s.sent.map (·.1)).Nodup
  gapFree : GapFree initial (s.sent.map (·.2))
  position_eq : s.position = Lifecycle.position initial (s.sent.map (·.2))
  sorted : s.delivered.Pairwise fun x y => x.1 ≤ y.1
  bounded : ∀ x ∈ s.delivered, x.1 < s.traffic.mailboxes.length
  recovers : Recovers s.firstSeen s.delivered
  phase : s.PhaseInv

theorem lookup_snoc_ne {sent : List (Nat × ChildObservationUpdate)} {n k : Nat} {u : ChildObservationUpdate} (h : k ≠ n) :
    (sent ++ [(n, u)]).lookup k = sent.lookup k := by
  have hne : (k == n) = false := by simpa using h
  rw [List.lookup_append]
  simp [List.lookup_cons, hne]

theorem lookup_snoc_self {sent : List (Nat × ChildObservationUpdate)} {n : Nat} {u : ChildObservationUpdate}
    (h : n ∉ sent.map (·.1)) : (sent ++ [(n, u)]).lookup n = some u := by
  have hnone : sent.lookup n = none := by
    refine List.lookup_eq_none_iff.mpr fun x hx => ?_
    have : n ≠ x.1 := fun he => h (List.mem_map.mpr ⟨x, hx, he.symm⟩)
    simpa using this
  rw [List.lookup_append, hnone]
  simp

theorem Inv.lt_calls (h : s.Inv initial) {x : Nat × ChildObservationUpdate} (hx : x ∈ s.sent) :
    x.1 < s.traffic.calls.length := by
  obtain ⟨c, hc, -⟩ := h.calls x hx
  exact (List.getElem?_eq_some_iff.mp hc).1

/-! ## Sending -/

theorem delivered_send (h : s.Inv initial) (u : ChildObservationUpdate) (recovery : Bool) :
    (s.send map u recovery).delivered = s.delivered := by
  show s.traffic.taken.filterMap (fun t => ((s.sent ++ [(s.traffic.calls.length, u)]).lookup t.1).map fun u => (t.2.1, u)) = _
  unfold delivered
  refine List.filterMap_congr fun t ht => ?_
  have hlt := h.traffic.taken_lt t ht
  rw [lookup_snoc_ne (by omega)]

theorem Inv.send {u : ChildObservationUpdate} {recovery : Bool} (h : s.Inv initial)
    (hall : s.delivered.map (·.2) = s.sent.map (·.2)) (hcur : ∀ x ∈ s.sent, ∃ c, s.traffic.calls[x.1]? = some c ∧ c.phase.isOver = true)
    (hu : follows s.position u = true) (hf : Recovers s'.firstSeen s.delivered) (hs : s' = s.send map u recovery ∨
      ∃ b, s' = (s.see b).send map u recovery)
    (hduty : if recovery then Update.isReset u = true ∧ s'.firstSeen.isSome = true else s'.Rests s.delivered) : s'.Inv initial := by
  have hdel : s'.delivered = s.delivered := by
    rcases hs with rfl | ⟨b, rfl⟩
    · exact delivered_send h u recovery
    · exact delivered_send h u recovery
  have htraffic : s'.traffic = s.traffic.step (.begin .send (map u) 0) := by
    rcases hs with rfl | ⟨b, rfl⟩ <;> rfl
  have hsent : s'.sent = s.sent ++ [(s.traffic.calls.length, u)] := by
    rcases hs with rfl | ⟨b, rfl⟩ <;> rfl
  have hphase : s'.phase = .sending s.traffic.calls.length u recovery := by
    rcases hs with rfl | ⟨b, rfl⟩ <;> rfl
  have hposition : s'.position = Lifecycle.position s.position [u] := by
    rcases hs with rfl | ⟨b, rfl⟩ <;> rfl
  have hnew : s'.traffic.calls[s.traffic.calls.length]? = some ⟨.send, map u, none, .resolving (map u)⟩ := by
    rw [htraffic]
    show (s.traffic.calls ++ [_])[s.traffic.calls.length]? = _
    rw [List.getElem?_append_right (Nat.le_refl _), Nat.sub_self]
    rfl
  have hold : ∀ j, j < s.traffic.calls.length → s'.traffic.calls[j]? = s.traffic.calls[j]? := by
    intro j hj
    rw [htraffic]
    exact List.getElem?_append_left hj
  constructor
  case traffic =>
    rw [htraffic]
    exact Traffic.step_inv h.traffic _
  case latest =>
    rw [htraffic]
    exact Traffic.step_latest h.latest _
  case calls =>
    intro x hx
    rw [hsent] at hx
    rcases List.mem_append.mp hx with hx | hx
    · obtain ⟨c, hc, hop, -⟩ := h.calls x hx
      obtain ⟨c', hc', hover⟩ := hcur x hx
      rw [hc] at hc'
      cases hc'
      exact ⟨c, (hold _ (h.lt_calls hx)).trans hc, hop, fun _ => hover⟩
    · rw [List.mem_singleton.mp hx]
      refine ⟨_, hnew, rfl, fun hne => ?_⟩
      unfold current at hne
      rw [hphase] at hne
      exact absurd rfl hne
  case nodup =>
    rw [hsent, List.map_append]
    refine List.nodup_append.mpr ⟨h.nodup, List.nodup_singleton _, ?_⟩
    intro a ha b hb heq
    obtain ⟨x, hx, rfl⟩ := List.mem_map.mp ha
    have hb : b = s.traffic.calls.length := List.mem_singleton.mp hb
    have := h.lt_calls hx
    omega
  case gapFree =>
    rw [hsent, List.map_append]
    refine (gapFree_snoc u initial _).mpr ⟨h.gapFree, ?_⟩
    rw [← h.position_eq]
    exact follows_iff.mp hu
  case position_eq =>
    rw [hsent, List.map_append, hposition, h.position_eq]
    exact (position_snoc u initial _).symm
  case sorted =>
    rw [hdel]
    exact h.sorted
  case bounded =>
    rw [hdel, htraffic]
    exact h.bounded
  case recovers =>
    rw [hdel]
    exact hf
  case phase =>
    unfold PhaseInv
    rw [hphase]
    exact ⟨_, s.delivered, s.sent, hnew, hsent, hall, .inl ⟨rfl, hdel⟩, nofun, hduty⟩

/-! ## Steps of the traffic -/

/-- What a step of the traffic that takes nothing from the pump does to its calls. -/
structure Keeps (s : Pump M) (w' : Traffic M) : Prop where
  taken_eq : w'.taken.filterMap (fun t => (s.sent.lookup t.1).map fun u => (t.2.1, u)) = s.delivered
  length_le : s.traffic.mailboxes.length ≤ w'.mailboxes.length
  others : ∀ x ∈ s.sent, s.current ≠ some x.1 → w'.calls[x.1]? = s.traffic.calls[x.1]?
  current : ∀ call c, s.current = some call → s.traffic.calls[call]? = some c → c.operation = .send →
    ∃ phase, w'.calls[call]? = some { c with phase := phase } ∧ phase.isTaken = c.phase.isTaken ∧
      (phase.isTaken = true → phase.mailbox = c.phase.mailbox) ∧
      ∀ b, phase.mailbox = some b → c.phase.mailbox = some b ∨ s.traffic.binding = .bound b

theorem Inv.keeps {w' : Traffic M} (h : s.Inv initial) (hk : s.Keeps w') (hw : w'.Inv) (hlatest : w'.Latest) :
    Inv initial { s with traffic := w' } := by
  have hdel : ({ s with traffic := w' } : Pump M).delivered = s.delivered := hk.taken_eq
  constructor
  case traffic => exact hw
  case latest => exact hlatest
  case calls =>
    intro x hx
    obtain ⟨c, hc, hop, hover⟩ := h.calls x hx
    by_cases hcur : s.current = some x.1
    · obtain ⟨phase, hphase, -⟩ := hk.current x.1 c hcur hc hop
      exact ⟨_, hphase, hop, fun hne => absurd hcur hne⟩
    · exact ⟨c, (hk.others x hx hcur).trans hc, hop, hover⟩
  case nodup => exact h.nodup
  case gapFree => exact h.gapFree
  case position_eq => exact h.position_eq
  case sorted =>
    rw [hdel]
    exact h.sorted
  case bounded =>
    rw [hdel]
    exact fun x hx => Nat.lt_of_lt_of_le (h.bounded x hx) hk.length_le
  case recovers =>
    rw [hdel]
    exact h.recovers
  case phase =>
    have hp := h.phase
    have hlt := h.bounded
    have hbound := h.latest
    have hops := h.calls
    obtain ⟨w, target, phase, position, sent, first⟩ := s
    cases phase with
    | selecting =>
      refine ⟨?_, ?_, ?_, ?_⟩
      · exact (congrArg (List.map (·.2)) hdel).trans hp.1
      · exact fun ht => ⟨hdel.trans (hp.2.unseen ht).1, (hp.2.unseen ht).2⟩
      · intro t ht
        obtain ⟨hf, hor⟩ := hp.2.seen t ht
        refine ⟨hf, ?_⟩
        rw [hdel]
        exact hor
      · rw [hdel]
        exact hp.2.settled
    | stopped =>
      show List.map _ _ <+: _
      rw [hdel]
      exact hp
    | sending call u recovery =>
      obtain ⟨c, B, before, hS⟩ := hp
      have hop : c.operation = .send := by
        have hmem : (call, u) ∈ sent := by
          rw [show sent = before ++ [(call, u)] from hS.sent_eq]
          simp
        obtain ⟨d, hd, hop, -⟩ := hops (call, u) hmem
        rw [show w.calls[call]? = some c from hS.call_eq] at hd
        cases hd
        exact hop
      obtain ⟨phase, hphase, htaken, hsame, hmailbox⟩ := hk.current call c rfl hS.call_eq hop
      refine ⟨_, B, before, hphase, hS.sent_eq, hS.before_eq, ?_, fun b hb => ?_, ?_⟩
      · rw [hdel]
        rcases hS.delivered with ⟨ht, hD⟩ | ⟨b, ht, hb, hD⟩
        · exact .inl ⟨htaken.trans ht, hD⟩
        · exact .inr ⟨b, htaken.trans ht, (hsame (htaken.trans ht)).trans hb, hD⟩
      · rcases hmailbox b hb with hold | hnew
        · exact ⟨Nat.lt_of_lt_of_le (hS.mailbox b hold).1 hk.length_le, (hS.mailbox b hold).2⟩
        · -- the bound mailbox is the latest
          have hlast := hbound b hnew
          have hle := hk.length_le
          refine ⟨?_, fun x hx => ?_⟩
          · show b < w'.mailboxes.length
            simp only at hlast hle
            omega
          · have hxin : x ∈ delivered ⟨w, target, .sending call u recovery, position, sent, first⟩ := by
              rcases hS.delivered with ⟨-, hD⟩ | ⟨b', -, -, hD⟩
              · rw [hD]
                exact hx
              · rw [hD]
                exact List.mem_append_left _ hx
            have := hlt x hxin
            simp only at this hlast
            omega
      · cases recovery with
        | true => exact hS.duty
        | false => exact ⟨hS.duty.unseen, hS.duty.seen, hS.duty.settled⟩

/-- The send in progress, with the books it is in. -/
theorem Inv.sending {call : Nat} {u : ChildObservationUpdate} {recovery : Bool} (h : s.Inv initial)
    (hph : s.phase = .sending call u recovery) :
    ∃ c B before, s.Sending call u recovery c B before ∧ c.operation = .send ∧ (call, u) ∈ s.sent ∧ call ∉ before.map (·.1) := by
  have hp := h.phase
  unfold PhaseInv at hp
  rw [hph] at hp
  obtain ⟨c, B, before, hS⟩ := hp
  have hmem : (call, u) ∈ s.sent := by
    rw [hS.sent_eq]
    simp
  obtain ⟨d, hd, hop, -⟩ := h.calls _ hmem
  rw [hS.call_eq] at hd
  cases hd
  refine ⟨c, B, before, hS, hop, hmem, fun hin => ?_⟩
  have hn := h.nodup
  rw [hS.sent_eq, List.map_append] at hn
  exact (List.nodup_append.mp hn).2.2 call hin call (List.mem_singleton.mpr rfl) rfl

theorem Inv.takes {w' : Traffic M} {call : Nat} {u : ChildObservationUpdate} {recovery : Bool} {c : Call M} (h : s.Inv initial)
    (hph : s.phase = .sending call u recovery) (hc : s.traffic.calls[call]? = some c) (hm : Traffic.Moves s.traffic call c w')
    (ht : Traffic.Takes s.traffic call c w') (hw : w'.Inv) (hlatest : w'.Latest) : Inv initial { s with traffic := w' } := by
  obtain ⟨d, B, before, hS, hop, -, hnot⟩ := h.sending hph
  have hd := hS.call_eq
  rw [hc] at hd
  cases hd
  obtain ⟨b, m, n, hb, hfree, htaken, hcalls⟩ := ht
  obtain ⟨hlt, hle⟩ := hS.mailbox b hb
  have hB : s.delivered = B := by
    rcases hS.delivered with ⟨-, hD⟩ | ⟨_, hyes, -⟩
    · exact hD
    · rw [hfree] at hyes
      cases hyes
  have hdel : ({ s with traffic := w' } : Pump M).delivered = B ++ [(b, u)] := by
    show w'.taken.filterMap _ = _
    rw [htaken, List.filterMap_append, ← hB]
    congr 1
    have hlook : s.sent.lookup call = some u := by
      rw [hS.sent_eq]
      exact lookup_snoc_self hnot
    simp [hlook]
  have hself : w'.calls[call]? = some { c with phase := .accepted b n } := by
    rw [hcalls, List.getElem?_modify, hc]
    simp
  have hother : ∀ j, j ≠ call → w'.calls[j]? = s.traffic.calls[j]? := by
    intro j hj
    rw [hcalls, List.getElem?_modify]
    simp [Ne.symm hj]
  have hreset : Unsettled s.firstSeen B → Update.isReset u = true := by
    intro hun
    cases recovery with
    | true => exact hS.duty.1
    | false => exact absurd hun hS.duty.settled
  constructor
  case traffic => exact hw
  case latest => exact hlatest
  case calls =>
    intro x hx
    obtain ⟨d, hd, hopx, hover⟩ := h.calls x hx
    by_cases hxc : x.1 = call
    · refine ⟨{ c with phase := .accepted b n }, by rw [hxc]; exact hself, hop, fun hne => absurd ?_ hne⟩
      show s.current = some x.1
      unfold current
      rw [hph, hxc]
    · exact ⟨d, (hother _ hxc).trans hd, hopx, hover⟩
  case nodup => exact h.nodup
  case gapFree => exact h.gapFree
  case position_eq => exact h.position_eq
  case sorted =>
    rw [hdel]
    refine List.pairwise_append.mpr ⟨hB ▸ h.sorted, List.pairwise_singleton _ _, fun x hx y hy => ?_⟩
    rw [List.mem_singleton.mp hy]
    exact hle x hx
  case bounded =>
    rw [hdel]
    intro x hx
    show x.1 < w'.mailboxes.length
    rw [hm.length_eq]
    rcases List.mem_append.mp hx with hx | hx
    · exact h.bounded x (hB ▸ hx)
    · rw [List.mem_singleton.mp hx]
      exact hlt
  case recovers =>
    rw [hdel]
    exact (hB ▸ h.recovers : Recovers s.firstSeen B).snoc hreset
  case phase =>
    unfold PhaseInv
    rw [show ({ s with traffic := w' } : Pump M).phase = .sending call u recovery from hph]
    refine ⟨{ c with phase := .accepted b n }, B, before, hself, hS.sent_eq, hS.before_eq, .inr ⟨b, rfl, rfl, hdel⟩,
      fun b' hb' => ?_, ?_⟩
    · cases hb'
      show b < w'.mailboxes.length ∧ _
      rw [hm.length_eq]
      exact ⟨hlt, hle⟩
    · cases recovery with
      | true => exact hS.duty
      | false => exact ⟨hS.duty.unseen, hS.duty.seen, hS.duty.settled⟩

theorem current_eq_some {call : Nat} (h : s.current = some call) : ∃ u recovery, s.phase = .sending call u recovery := by
  unfold current at h
  cases hph : s.phase with
  | sending call' u recovery =>
    rw [hph] at h
    cases h
    exact ⟨u, recovery, rfl⟩
  | selecting =>
    rw [hph] at h
    cases h
  | stopped =>
    rw [hph] at h
    cases h

theorem Inv.trafficStep (h : s.Inv initial) (a : TrafficAction M) : Inv initial { s with traffic := s.traffic.step a } := by
  have hw := Traffic.step_inv h.traffic a
  have hlatest := Traffic.step_latest h.latest a
  rcases Traffic.step_cases s.traffic a with hq | ⟨i, c, hc, hm, hover⟩ | ⟨o, m, d, hcalls, htaken, -, hmail⟩
  · refine h.keeps ⟨?_, hq.length_le, fun x _ _ => by rw [hq.calls_eq], fun call c _ hcall _ => ?_⟩ hw hlatest
    · rw [hq.taken_eq]
      rfl
    · exact ⟨c.phase, by rw [hq.calls_eq]; exact hcall, rfl, fun _ => rfl, fun _ => .inl⟩
  · -- a step of one call: the one in progress, one that is over, or somebody else's
    by_cases hcur : s.current = some i
    · obtain ⟨u, recovery, hph⟩ := current_eq_some hcur
      obtain ⟨d, _, _, hS, hop, -⟩ := h.sending hph
      have hd := hS.call_eq
      rw [hc] at hd
      cases hd
      rcases hm.effect with heq | ⟨htaken, phase, hcalls, hsame, hmail, hnew⟩ | ht
      · rw [heq]
        exact h
      · refine h.keeps ⟨?_, Nat.le_of_eq hm.length_eq.symm, fun x _ hx => ?_, fun call c' hcall hc' _ => ?_⟩ hw hlatest
        · rw [htaken]
          rfl
        · have hne : x.1 ≠ i := fun he => hx (hcur.trans (congrArg some he.symm))
          rw [hcalls, List.getElem?_modify]
          simp [Ne.symm hne]
        · rw [hcur] at hcall
          cases hcall
          rw [hc] at hc'
          cases hc'
          refine ⟨phase, ?_, hsame hop, hmail, hnew⟩
          rw [hcalls, List.getElem?_modify, hc]
          simp
      · exact h.takes hph hc hm ht hw hlatest
    · by_cases hsent : i ∈ s.sent.map (·.1)
      · obtain ⟨x, hx, rfl⟩ := List.mem_map.mp hsent
        obtain ⟨d, hd, hop, hov⟩ := h.calls x hx
        rw [hc] at hd
        cases hd
        have hdead : c.deadline = none := (h.traffic.calls _ c hc).timed (by rw [hop]; rfl)
        rw [hover hop hdead (hov hcur)]
        exact h
      · have hne : ∀ x ∈ s.sent, x.1 ≠ i := fun x hx he => hsent (List.mem_map.mpr ⟨x, hx, he⟩)
        have hlook : s.sent.lookup i = none := List.lookup_eq_none_iff.mpr fun x hx => by simpa using Ne.symm (hne x hx)
        have hcalls : ∀ j, j ≠ i → (s.traffic.step a).calls[j]? = s.traffic.calls[j]? := by
          intro j hj
          rcases hm.effect with heq | ⟨-, phase, hcalls, -⟩ | ⟨b, m, n, -, -, -, hcalls⟩
          · rw [heq]
          · rw [hcalls, List.getElem?_modify]
            simp [Ne.symm hj]
          · rw [hcalls, List.getElem?_modify]
            simp [Ne.symm hj]
        refine h.keeps ⟨?_, Nat.le_of_eq hm.length_eq.symm, fun x hx _ => hcalls _ (hne x hx), fun call c' hcall hc' _ => ?_⟩ hw hlatest
        · rcases hm.effect with heq | ⟨htaken, -⟩ | ⟨b, m, n, -, -, htaken, -⟩
          · rw [heq]
            rfl
          · rw [htaken]
            rfl
          · rw [htaken, List.filterMap_append]
            simp [hlook, delivered]
        · refine ⟨c'.phase, (hcalls call fun he => hcur (he ▸ hcall)).trans hc', rfl, fun _ => rfl, fun _ => .inl⟩
  · refine h.keeps ⟨?_, Nat.le_of_eq (by rw [hmail]), fun x hx _ => ?_, fun call c hcall hc _ => ?_⟩ hw hlatest
    · rw [htaken]
      rfl
    · rw [hcalls]
      exact List.getElem?_append_left (h.lt_calls hx)
    · refine ⟨c.phase, ?_, rfl, fun _ => rfl, fun _ => .inl⟩
      rw [hcalls, List.getElem?_append_left (List.getElem?_eq_some_iff.mp hc).1]
      exact hc

/-! ## Steps of the pump -/

theorem Inv.ended (h : s.Inv initial) (hcur : s.current = none) :
    ∀ x ∈ s.sent, ∃ c, s.traffic.calls[x.1]? = some c ∧ c.phase.isOver = true := by
  intro x hx
  obtain ⟨c, hc, -, hover⟩ := h.calls x hx
  exact ⟨c, hc, hover (by rw [hcur]; nofun)⟩

theorem Inv.stopped (h : s.Inv initial) (hover : ∀ x ∈ s.sent, ∃ c, s.traffic.calls[x.1]? = some c ∧ c.phase.isOver = true)
    (hpre : s.delivered.map (·.2) <+: s.sent.map (·.2)) : Inv initial { s with phase := .stopped } where
  traffic := h.traffic
  latest := h.latest
  calls x hx := by
    obtain ⟨c, hc, hop, -⟩ := h.calls x hx
    obtain ⟨d, hd, ho⟩ := hover x hx
    rw [hc] at hd
    cases hd
    exact ⟨c, hc, hop, fun _ => ho⟩
  nodup := h.nodup
  gapFree := h.gapFree
  position_eq := h.position_eq
  sorted := h.sorted
  bounded := h.bounded
  recovers := h.recovers
  phase := hpre

theorem Inv.selects {b : Nat} (h : s.Inv initial)
    (hover : ∀ x ∈ s.sent, ∃ c, s.traffic.calls[x.1]? = some c ∧ c.phase.isOver = true)
    (hall : s.delivered.map (·.2) = s.sent.map (·.2)) (hrec : Recovers (s.firstSeen.or (some b)) s.delivered)
    (hrests : Rests (s.see b) s.delivered) : Inv initial { s.see b with phase := .selecting } where
  traffic := h.traffic
  latest := h.latest
  calls x hx := by
    obtain ⟨c, hc, hop, -⟩ := h.calls x hx
    obtain ⟨d, hd, ho⟩ := hover x hx
    rw [hc] at hd
    cases hd
    exact ⟨c, hc, hop, fun _ => ho⟩
  nodup := h.nodup
  gapFree := h.gapFree
  position_eq := h.position_eq
  sorted := h.sorted
  bounded := h.bounded
  recovers := hrec
  phase := ⟨hall, ⟨hrests.unseen, hrests.seen, hrests.settled⟩⟩

theorem Inv.selecting (h : s.Inv initial) (hph : s.phase = .selecting) :
    s.current = none ∧ s.delivered.map (·.2) = s.sent.map (·.2) ∧ s.Rests s.delivered := by
  have hp := h.phase
  unfold PhaseInv at hp
  rw [hph] at hp
  refine ⟨?_, hp⟩
  unfold current
  rw [hph]

theorem not_unsettled_nil {first : Option Nat} : ¬ Unsettled first [] := by
  intro ⟨pre, x, heq, _⟩
  have := congrArg List.length heq
  simp at this

theorem Inv.observe {latest : SupervisorSnapshot} (h : s.Inv initial) (hph : s.phase = .selecting)
    (hf : follows s.position (.reset latest 0) = true) : (s.observe map latest).Inv initial := by
  obtain ⟨hcur, hall, hrests⟩ := h.selecting hph
  have hstop := h.stopped (h.ended hcur) (hall ▸ List.prefix_refl _)
  unfold Pump.observe
  cases hb : s.traffic.binding with
  | terminated => exact hstop
  | unbound =>
    simp only
    split
    · exact hstop
    · exact h
  | bound b =>
    simp only
    by_cases htarget : s.targetIncarnation = some b
    · rw [if_pos htarget]
      split
      · exact hstop
      · exact h
    · rw [if_neg htarget]
      cases ht : s.targetIncarnation with
      | none =>
        obtain ⟨hnil, hnone⟩ := hrests.unseen ht
        have hsel : ({ s.see b with phase := .selecting } : Pump M) = s.see b := by
          unfold see
          rw [← hph]
        rw [if_neg (by simp), ← hsel]
        refine h.selects (h.ended hcur) hall ?_ ⟨nofun, fun t heq => ?_, ?_⟩
        · rw [hnil]
          intro pre x post heq
          cases pre <;> cases heq
        · cases heq
          refine ⟨?_, .inl ?_⟩
          · simp [see]
          · simp [see, hnone]
        · rw [hnil]
          exact not_unsettled_nil
      | some t =>
        obtain ⟨hsome, -⟩ := hrests.seen t ht
        have hsame : s.firstSeen.or (some b) = s.firstSeen := by
          cases hfirst : s.firstSeen with
          | none =>
            rw [hfirst] at hsome
            cases hsome
          | some f => rfl
        rw [if_pos (by simp)]
        have hrec : Recovers (s.firstSeen.or (some b)) s.delivered := by
          rw [hsame]
          exact h.recovers
        refine h.send hall (h.ended hcur) hf hrec (.inr ⟨b, rfl⟩) ?_
        rw [if_pos rfl]
        refine ⟨rfl, ?_⟩
        show (s.firstSeen.or (some b)).isSome = true
        rw [hsame]
        exact hsome

/-- Every send but the one in progress is over; so is that one when its phase says so. -/
theorem Inv.over_sending {call : Nat} {u : ChildObservationUpdate} {recovery : Bool} {c : Call M} (h : s.Inv initial)
    (hph : s.phase = .sending call u recovery) (hc : s.traffic.calls[call]? = some c) (hr : c.phase.isOver = true) :
    ∀ x ∈ s.sent, ∃ c, s.traffic.calls[x.1]? = some c ∧ c.phase.isOver = true := by
  intro x hx
  obtain ⟨d, hd, -, hov⟩ := h.calls x hx
  by_cases hx' : x.1 = call
  · exact ⟨c, by rw [hx']; exact hc, hr⟩
  · refine ⟨d, hd, hov fun he => hx' ?_⟩
    unfold current at he
    rw [hph] at he
    exact (Option.some.inj he).symm

/-- A send that nobody took leaves what was delivered at what was sent before it. -/
theorem Inv.stopped_untaken {call : Nat} {u : ChildObservationUpdate} {recovery : Bool} {c : Call M} (h : s.Inv initial)
    (hph : s.phase = .sending call u recovery) (hc : s.traffic.calls[call]? = some c) (hr : c.phase.isOver = true)
    (hno : c.phase.isTaken = false) : Inv initial { s with phase := .stopped } := by
  obtain ⟨d, B, before, hS, -⟩ := h.sending hph
  have hd := hS.call_eq
  rw [hc] at hd
  cases hd
  refine h.stopped (h.over_sending hph hc hr) ?_
  have hB : s.delivered = B := by
    rcases hS.delivered with ⟨-, hD⟩ | ⟨_, hyes, -⟩
    · exact hD
    · rw [hno] at hyes
      cases hyes
  rw [hB, hS.before_eq, hS.sent_eq, List.map_append]
  exact List.prefix_append ..

theorem Inv.resume {latest : SupervisorSnapshot} {call : Nat} {u : ChildObservationUpdate} {recovery : Bool} {c : Call M}
    {result : Except (M × SendErrorKind) Nat} (h : s.Inv initial) (hph : s.phase = .sending call u recovery)
    (hc : s.traffic.calls[call]? = some c) (hr : c.phase = .returned result) (hf : follows s.position (.reset latest 0) = true) :
    (s.resume map latest u recovery result).Inv initial := by
  obtain ⟨d, B, before, hS, -⟩ := h.sending hph
  have hd := hS.call_eq
  rw [hc] at hd
  cases hd
  have hover := h.over_sending hph hc (by rw [hr]; rfl)
  cases result with
  | error e => exact h.stopped_untaken hph hc (by rw [hr]; rfl) (by rw [hr]; rfl)
  | ok b =>
    have hD : s.delivered = B ++ [(b, u)] := by
      rcases hS.delivered with ⟨hno, -⟩ | ⟨b', -, hb', hD⟩
      · rw [hr] at hno
        cases hno
      · rw [hr] at hb'
        cases hb'
        exact hD
    have hall : s.delivered.map (·.2) = s.sent.map (·.2) := by
      rw [hD, hS.sent_eq, List.map_append, List.map_append, hS.before_eq]
      rfl
    have hlast : s.delivered.getLast? = some (b, u) := by
      rw [hD]
      simp
    -- once something was seen, the first stays
    have hkeep : s.firstSeen.isSome = true → s.firstSeen.or (some b) = s.firstSeen := by
      intro hsome
      cases hfirst : s.firstSeen with
      | none =>
        rw [hfirst] at hsome
        cases hsome
      | some f => rfl
    have hselect : Recovers (s.firstSeen.or (some b)) s.delivered → ¬ Unsettled (s.firstSeen.or (some b)) s.delivered →
        Inv initial { s.see b with phase := .selecting } := by
      intro hrec hset
      refine h.selects hover hall hrec ⟨nofun, fun t heq => ?_, hset⟩
      cases heq
      exact ⟨by simp [see], .inr ⟨(b, u), hlast, rfl⟩⟩
    unfold Pump.resume
    simp only
    cases recovery with
    | true =>
      rw [if_neg (by simp)]
      refine hselect ?_ ?_
      · rw [hkeep hS.duty.2]
        exact h.recovers
      · rw [hD]
        exact not_unsettled_of_reset hS.duty.1
    | false =>
      have hduty : s.Rests B := hS.duty
      cases ht : s.targetIncarnation with
      | none =>
        -- the first mailbox the pump sees
        rw [if_neg (by simp)]
        obtain ⟨hB, hnone⟩ := hduty.unseen ht
        have hone : s.delivered = [(b, u)] := by rw [hD, hB]; rfl
        refine hselect ?_ ?_
        · rw [hone]
          intro pre x post heq hop y hy
          cases pre with
          | nil =>
            cases heq
            cases hy
          | cons z pre =>
            have := congrArg List.length heq
            simp at this
        · rw [hone, hnone]
          intro ⟨pre, x, heq, hop⟩
          cases pre with
          | nil =>
            cases heq
            exact hop.2.1 rfl
          | cons z pre =>
            have := congrArg List.length heq
            simp at this
      | some t =>
        obtain ⟨hsome, hwhere⟩ := hduty.seen t ht
        by_cases hreset : Update.isReset u = true
        · rw [if_neg (by simp [hreset])]
          refine hselect ?_ ?_
          · rw [hkeep hsome]
            exact h.recovers
          · rw [hD]
            exact not_unsettled_of_reset hreset
        · by_cases htb : t = b
          · subst htb
            rw [if_neg (by simp)]
            refine hselect ?_ ?_
            · rw [hkeep hsome]
              exact h.recovers
            · -- not the first thing this mailbox takes, or the first mailbox
              rw [hkeep hsome, hD]
              intro ⟨pre, x, heq, hop⟩
              obtain ⟨hpre, hx⟩ := List.append_inj' heq rfl
              cases hx
              rcases hwhere with hfirst | ⟨y, hy, hyt⟩
              · exact hop.2.1 hfirst
              · exact hop.1 y (hpre ▸ List.mem_of_getLast? hy) hyt
          · rw [if_pos (by simp [htb, hreset])]
            refine h.send hall hover hf ?_ (.inr ⟨b, rfl⟩) ?_
            · show Recovers (s.firstSeen.or (some b)) s.delivered
              rw [hkeep hsome]
              exact h.recovers
            · rw [if_pos rfl]
              refine ⟨rfl, ?_⟩
              show (s.firstSeen.or (some b)).isSome = true
              rw [hkeep hsome]
              exact hsome

theorem Inv.cancel {call : Nat} {u : ChildObservationUpdate} {recovery : Bool} {c : Call M} (h : s.Inv initial)
    (hph : s.phase = .sending call u recovery) (hc : s.traffic.calls[call]? = some c) (hw : c.phase.awaits = true) :
    Inv initial { s with traffic := s.traffic.step (.cancel call), phase := .stopped } := by
  obtain ⟨d, B, before, hS, hop, -⟩ := h.sending hph
  have hd := hS.call_eq
  rw [hc] at hd
  cases hd
  have hstep : s.traffic.step (.cancel call) = s.traffic.setPhase call .cancelled := by
    show s.traffic.onCall call Traffic.cancel = _
    unfold Traffic.onCall Traffic.cancel
    simp only [hc]
    rw [if_neg (by rw [hop]; nofun)]
    cases hp : c.phase with
    | resolving m => rfl
    | reserving b m => rfl
    | yielding b m => rfl
    | rebinding b m => rfl
    | awaitingReply => rfl
    | _ =>
      rw [hp] at hw
      cases hw
  have hself : (s.traffic.step (.cancel call)).calls[call]? = some { c with phase := .cancelled } := by
    rw [hstep]
    show (s.traffic.calls.modify call _)[call]? = _
    rw [List.getElem?_modify, hc]
    simp
  exact (h.trafficStep (.cancel call)).stopped_untaken hph hself rfl rfl

theorem step_inv (h : s.Inv initial) (a : PumpAction M) : (s.step map a).Inv initial := by
  cases a with
  | traffic a =>
    show Inv initial (if _ then _ else _)
    split
    · exact h.trafficStep a
    · exact h
  | observe latest =>
    simp only [Pump.step]
    split
    · split
      · exact h.observe ‹_› ‹_›
      · exact h
    · exact h
  | next u =>
    simp only [Pump.step]
    split
    · rename_i hph
      split
      · obtain ⟨hcur, hall, hrests⟩ := h.selecting hph
        exact h.send hall (h.ended hcur) ‹_› h.recovers (.inl rfl) ⟨hrests.unseen, hrests.seen, hrests.settled⟩
      · exact h
    · exact h
  | ended =>
    simp only [Pump.step]
    split
    · rename_i hph
      obtain ⟨hcur, hall, -⟩ := h.selecting hph
      exact h.stopped (h.ended hcur) (hall ▸ List.prefix_refl _)
    · exact h
  | resume latest =>
    simp only [Pump.step]
    split
    · rename_i call u recovery hph
      split
      · rename_i result hres
        obtain ⟨c, hc, hr⟩ := Option.map_eq_some_iff.mp hres
        split
        · exact h.resume hph hc hr ‹_›
        · exact h
      · exact h
    · exact h
  | stop =>
    simp only [Pump.step]
    split
    · rename_i hph
      obtain ⟨hcur, hall, -⟩ := h.selecting hph
      exact h.stopped (h.ended hcur) (hall ▸ List.prefix_refl _)
    · rename_i call u recovery hph
      split
      · rename_i hw
        cases hc : s.traffic.calls[call]? with
        | none =>
          rw [hc] at hw
          cases hw
        | some c =>
          rw [hc] at hw
          exact h.cancel hph hc hw
      · exact h
    · exact h

theorem new_inv (initial : Nat) : (new initial : Pump M).Inv initial where
  traffic := Traffic.run_inv []
  latest := nofun
  calls := nofun
  nodup := List.nodup_nil
  gapFree := trivial
  position_eq := rfl
  sorted := List.Pairwise.nil
  bounded := nofun
  recovers := by
    intro pre x post heq
    have := congrArg List.length heq
    simp [delivered, new, Traffic.new] at this
  phase := ⟨rfl, ⟨fun _ => ⟨rfl, rfl⟩, nofun, not_unsettled_nil⟩⟩

theorem run_inv (map : ChildObservationUpdate → M) (initial : Nat) (actions : List (PumpAction M)) :
    (run map initial actions).Inv initial := by
  unfold run
  generalize hs : (new initial : Pump M) = s
  have h : s.Inv initial := hs ▸ new_inv initial
  clear hs
  induction actions generalizing s with
  | nil => exact h
  | cons a actions ih => exact ih _ (step_inv h a)

/-! ## What the target receives -/

theorem Inv.delivered_prefix (h : s.Inv initial) : s.delivered.map (·.2) <+: s.sent.map (·.2) := by
  cases hph : s.phase with
  | selecting =>
    have hrest := (h.selecting hph).2.1
    exact hrest ▸ List.prefix_refl _
  | sending call u recovery =>
    obtain ⟨c, B, before, hS, -⟩ := h.sending hph
    rw [hS.sent_eq, List.map_append, ← hS.before_eq]
    rcases hS.delivered with ⟨-, hD⟩ | ⟨b, -, -, hD⟩
    · rw [hD]
      exact List.prefix_append ..
    · rw [hD, List.map_append]
      exact List.prefix_refl _
  | stopped =>
    have hp := h.phase
    unfold PhaseInv at hp
    rw [hph] at hp
    exact hp

theorem Inv.delivered_gapFree (h : s.Inv initial) : GapFree initial (s.delivered.map (·.2)) := by
  obtain ⟨rest, hrest⟩ := h.delivered_prefix
  refine gapFree_append (v := rest) ?_
  rw [hrest]
  exact h.gapFree

/-- The message of a send is taken at most once. -/
theorem Inv.takes_le (h : s.Inv initial) {x : Nat × ChildObservationUpdate} (hx : x ∈ s.sent) :
    (s.traffic.takes x.1).length ≤ 1 := by
  obtain ⟨c, hc, hop, -⟩ := h.calls x hx
  exact (h.traffic.calls x.1 c hc).account.takes_le

/-- Whatever the target and the source do: a mailbox that is not the first seen takes a
    reset first, or next; after a reset it takes consecutive transitions; no send is taken
    twice, and nothing is skipped between two of them. -/
theorem pump_recovers (map : ChildObservationUpdate → M) (initial : Nat) (actions : List (PumpAction M)) :
    let s := run map initial actions
    (∀ b, s.firstSeen ≠ some b → ∀ u, (s.acceptedBy b)[0]? = some u →
      Update.isReset u = true ∨ ∀ v, (s.acceptedBy b)[1]? = some v → Update.isReset v = true) ∧
    (∀ b pre snapshot dropped rest, s.acceptedBy b = pre ++ .reset snapshot dropped :: rest →
      GapFree snapshot.lifecycleSeq rest) ∧
    (s.sent.map (·.1)).Nodup ∧ (∀ x ∈ s.sent, (s.traffic.takes x.1).length ≤ 1) ∧
    s.delivered.map (·.2) <+: s.sent.map (·.2) := by
  intro s
  have h : s.Inv initial := run_inv map initial actions
  refine ⟨?_, ?_, h.nodup, fun x hx => h.takes_le hx, h.delivered_prefix⟩
  · intro b hfirst u hu
    obtain ⟨X, Y, hsplit, hX⟩ := stretch b h.sorted
    cases hreset : Update.isReset u with
    | true => exact .inl rfl
    | false =>
      refine .inr fun v hv => ?_
      unfold acceptedBy at hu hv
      cases htook : s.delivered.filter (fun x => x.1 = b) with
      | nil =>
        rw [htook] at hu
        cases hu
      | cons x tail =>
        have hxb : x.1 = b := by
          have hx : x ∈ s.delivered.filter (fun x => x.1 = b) := by
            rw [htook]
            exact List.mem_cons_self ..
          simpa using (List.mem_filter.mp hx).2
        rw [htook] at hu hv hsplit
        cases hu
        cases tail with
        | nil => cases hv
        | cons y rest =>
          cases hv
          have hop : Opens s.firstSeen X x := by
            refine ⟨fun z hz => ?_, ?_, hreset⟩
            · have := hX z hz
              omega
            · rw [hxb]
              exact hfirst
          refine h.recovers X x (y :: rest ++ Y) ?_ hop y rfl
          rw [hsplit, List.append_assoc]
          rfl
  · intro b pre snapshot dropped rest htook
    obtain ⟨X, Y, hsplit, -⟩ := stretch b h.sorted
    have hgap := h.delivered_gapFree
    rw [hsplit, List.map_append, List.map_append, show (s.delivered.filter fun x => x.1 = b).map (·.2) = _ from htook] at hgap
    refine gapFree_append (v := Y.map (·.2)) (gapFree_after (s := initial) (u := X.map (·.2) ++ pre) (d := dropped) ?_)
    simpa [List.append_assoc] using hgap

/-- The steps of a send into an open mailbox, from the binding to the return. -/
def sendSteps (call : Nat) : List (PumpAction ChildObservationUpdate) :=
  List.replicate 6 (.traffic (.go call))

/-- The target is replaced after the pump has seen it, and a transition finds the new mailbox. -/
def replacedTarget : List (PumpAction ChildObservationUpdate) :=
  [.traffic (.bind .queue 4), .observe bare, .traffic .unbind, .traffic (.bind .queue 4),
    .next (.transition (childEvent addedDraft 1))] ++ sendSteps 0 ++ [.resume { bare with lifecycleSeq := 1 }]

/-- The reset follows, and the next transition after it. -/
def recoveredTarget : List (PumpAction ChildObservationUpdate) :=
  replacedTarget ++ sendSteps 1 ++
    [.resume { bare with lifecycleSeq := 1 }, .next (.transition (childEvent addedDraft 2))] ++ sendSteps 2

theorem pump_recovers_replaced :
    let s := run id 0 recoveredTarget
    s.firstSeen = some 0 ∧
    s.acceptedBy 1 = [.transition (childEvent addedDraft 1), .reset { bare with lifecycleSeq := 1 } 0,
      .transition (childEvent addedDraft 2)] ∧
    (∀ v, (s.acceptedBy 1)[1]? = some v → Update.isReset v = true) ∧
    GapFree 1 [.transition (childEvent addedDraft 2)] ∧
    (s.sent.map (·.1)).Nodup ∧ (s.traffic.takes 1).length ≤ 1 ∧ s.delivered.map (·.2) <+: s.sent.map (·.2) := by
  intro s
  obtain ⟨hopens, hgap, hnodup, htakes, hprefix⟩ := pump_recovers id 0 recoveredTarget
  have hfirst : s.firstSeen = some 0 := rfl
  have htook : s.acceptedBy 1 = [.transition (childEvent addedDraft 1)] ++
      .reset { bare with lifecycleSeq := 1 } 0 :: [.transition (childEvent addedDraft 2)] := rfl
  have hsent : s.sent = [(0, .transition (childEvent addedDraft 1)), (1, .reset { bare with lifecycleSeq := 1 } 0),
      (2, .transition (childEvent addedDraft 2))] := rfl
  have hsecond : ∀ v, (s.acceptedBy 1)[1]? = some v → Update.isReset v = true := by
    refine (hopens 1 ?_ (.transition (childEvent addedDraft 1)) rfl).resolve_left Bool.false_ne_true
    show s.firstSeen ≠ some 1
    rw [hfirst]
    simp
  refine ⟨hfirst, htook, hsecond, hgap 1 _ _ _ _ htook, hnodup, ?_, hprefix⟩
  refine htakes (1, .reset { bare with lifecycleSeq := 1 } 0) ?_
  show _ ∈ s.sent
  rw [hsent]
  simp

/-- The mailbox closes before the reset is sent: it keeps the one transition it took, and
    the reset goes to its successor. -/
def passedBy : List (PumpAction ChildObservationUpdate) :=
  replacedTarget ++ [.traffic (.closeExternal 1), .traffic .unbind, .traffic (.bind .queue 4)] ++ sendSteps 1 ++
    [.resume { bare with lifecycleSeq := 1 }]

theorem pump_passes_by :
    let s := run id 0 passedBy
    s.firstSeen = some 0 ∧ s.acceptedBy 1 = [.transition (childEvent addedDraft 1)] ∧
    s.acceptedBy 2 = [.reset { bare with lifecycleSeq := 1 } 0] ∧
    ¬ ∀ b, s.firstSeen ≠ some b → s.acceptedBy b ≠ [] →
      (∃ u, (s.acceptedBy b)[0]? = some u ∧ Update.isReset u = true) ∨
      (∃ u, (s.acceptedBy b)[1]? = some u ∧ Update.isReset u = true) := by
  intro s
  have hfirst : s.firstSeen = some 0 := rfl
  have htook : s.acceptedBy 1 = [.transition (childEvent addedDraft 1)] := rfl
  refine ⟨hfirst, htook, rfl, fun h => ?_⟩
  rcases h 1 (by rw [hfirst]; simp) (by rw [htook]; simp) with ⟨u, hu, hreset⟩ | ⟨u, hu, -⟩
  · rw [htook] at hu
    cases hu
    cases hreset
  · rw [htook] at hu
    cases hu

end Pump

end Kokage.Actor

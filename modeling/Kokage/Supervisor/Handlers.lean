/-
  Kokage.Supervisor.Handlers — what each handler does to the lane.

  A handler that cannot fail on a lane without refusals is described by an equation
  (`spawnStartItem_lane`, `popQueue_lane`); one that can by `Act.Ends`, with the lane it
  leaves on either way out. Nothing here assumes anything of the start sequence: the
  invariants are `Kokage.Supervisor.Staging` and `Kokage.Supervisor.Finality`.
-/

import Kokage.Supervisor.Lane

namespace Kokage.Supervisor

open Kokage.Lib

namespace Lane

/-- No child refuses to be spawned. -/
def Willing (L : Lane) : Prop := ∀ k p, L.posts k = some p → p.refuses = false

variable {L : Lane} {key : ChildKey} {p : Post}

/-! ## The fields the operations leave alone -/

theorem openGate_of_open (h : L.gate = none) : L.openGate = L := by
  unfold openGate
  rw [← h]

theorem advance_of_open (h : L.gate = none) : L.advance = pop L.queue L := by
  unfold advance
  rw [h]

@[simp] theorem put_get (k : ChildKey) : (L.put key p).posts k = if k = key then some p else L.posts k := by
  simp [put, Function.update_apply]

@[simp] theorem tell_posts (news : List News) : (L.tell news).posts = L.posts := rfl

@[simp] theorem tell_queue (news : List News) : (L.tell news).queue = L.queue := rfl

@[simp] theorem tell_gate (news : List News) : (L.tell news).gate = L.gate := rfl

@[simp] theorem openGate_posts : L.openGate.posts = L.posts := rfl

@[simp] theorem detach_posts (lineage : Nat) : (L.detach key lineage).posts = L.posts := rfl

theorem memberReady_cases (L : Lane) (key : ChildKey) (lineage : Nat) :
    ∃ startup told, L.memberReady key lineage = { L with startup := startup, told := told } := by
  unfold memberReady
  split
  · exact ⟨_, _, rfl⟩
  · split
    · exact ⟨_, _, rfl⟩
    · exact ⟨_, _, rfl⟩

@[simp] theorem memberReady_posts (lineage : Nat) : (L.memberReady key lineage).posts = L.posts := by
  obtain ⟨s, t, h⟩ := L.memberReady_cases key lineage
  rw [h]

@[simp] theorem memberReady_queue (lineage : Nat) : (L.memberReady key lineage).queue = L.queue := by
  obtain ⟨s, t, h⟩ := L.memberReady_cases key lineage
  rw [h]

@[simp] theorem memberReady_gate (lineage : Nat) : (L.memberReady key lineage).gate = L.gate := by
  obtain ⟨s, t, h⟩ := L.memberReady_cases key lineage
  rw [h]

@[simp] theorem spawn_get (k : ChildKey) :
    (L.spawn key p).posts k = if k = key then some p.spawn else L.posts k := by
  unfold spawn
  simp only
  split <;> simp

@[simp] theorem spawn_gate : (L.spawn key p).gate = L.gate := by
  unfold spawn
  simp only
  split <;> rfl

@[simp] theorem spawn_queue : (L.spawn key p).queue = L.queue := by
  unfold spawn
  simp only
  split <;> rfl

@[simp] theorem drop_get (k : ChildKey) : (L.drop key).posts k = if k = key then none else L.posts k := by
  unfold drop
  split
  · rename_i h
    split
    · rename_i hk
      rw [hk, h]
    · rfl
  · rw [tell_posts]
    exact Function.update_apply ..

@[simp] theorem drop_gate : (L.drop key).gate = L.gate := by
  unfold drop
  split <;> rfl

@[simp] theorem drop_queue : (L.drop key).queue = L.queue := by
  unfold drop
  split <;> rfl

/-- An item is skipped, or its child is spawned. -/
theorem startItem_cases (L : Lane) (item : StartItem) :
    L.startItem item = L ∨ ∃ p, L.posts item.key = some p ∧ p.lineage = item.lineage ∧ p.membership = .active ∧
      p.state.isIdle = true ∧ ∃ gate startup told, L.startItem item =
        { L.spawn item.key p with gate := gate, startup := startup, told := told } := by
  unfold startItem
  split
  · exact .inl rfl
  · rename_i p hp
    split
    · exact .inl rfl
    · rename_i hc
      simp only [Bool.or_eq_true, decide_eq_true_eq, not_or, ne_eq, not_not, Bool.not_eq_true', Bool.not_eq_false] at hc
      refine .inr ⟨p, hp, hc.1.1, hc.1.2, hc.2, ?_⟩
      simp only
      split
      · exact ⟨_, _, _, rfl⟩
      · split
        · obtain ⟨s, t, h⟩ := (L.spawn item.key p).memberReady_cases item.key item.lineage
          exact ⟨_, s, t, h⟩
        · exact ⟨_, _, _, rfl⟩

theorem startItem_queue (item : StartItem) : (L.startItem item).queue = L.queue := by
  obtain h | ⟨p, -, -, -, -, _, _, _, h⟩ := L.startItem_cases item
  · rw [h]
  · rw [h]
    exact spawn_queue

theorem Willing.put (h : L.Willing) (hp : p.refuses = false) : (L.put key p).Willing := by
  intro k q hq
  rw [put_get] at hq
  split at hq
  · cases hq
    exact hp
  · exact h k q hq

theorem Willing.edit {f : Post → Post} (h : L.Willing) (hf : ∀ p, (f p).refuses = p.refuses) : (L.edit key f).Willing := by
  unfold Lane.edit
  split
  · exact h
  · rename_i p hp
    exact h.put ((hf p).trans (h key p hp))

theorem Willing.startItem (h : L.Willing) (item : StartItem) : (L.startItem item).Willing := by
  obtain hL | ⟨p, hp, -, -, -, _, _, _, hL⟩ := L.startItem_cases item
  · rw [hL]
    exact h
  · rw [hL]
    intro k q hq
    simp only [spawn_get] at hq
    split at hq
    · cases hq
      exact h item.key p hp
    · exact h k q hq

theorem Willing.pop : ∀ (queue : List StartItem) {L : Lane}, L.Willing → (pop queue L).Willing
  | [], _, h => h
  | item :: rest, L, h => by
    have h' : ({ L with queue := rest }.startItem item).Willing :=
      Willing.startItem (L := { L with queue := rest }) h item
    unfold Lane.pop
    simp only
    split
    · exact h'
    · exact Willing.pop rest h'

theorem Willing.advance (h : L.Willing) : L.advance.Willing := by
  unfold Lane.advance
  split
  · exact Willing.pop _ h
  · split
    · exact h
    · refine Willing.pop _ ?_
      split
      · intro k q hq
        exact h k q (by simpa using hq)
      · exact h

end Lane

namespace SupervisorRuntime

variable {rt : SupervisorRuntime} {key : ChildKey} {e : ChildEntry}

theorem willing_of_books (hb : rt.ledger.Books) : rt.lane.Willing := by
  intro k p hp
  obtain ⟨e, he, rfl⟩ := get_of_lane hp
  have := hb.accepted k e.member (ledger_get he)
  unfold Member.Refuses at this
  cases hs : e.runtime.definition.kind.isSupervisor with
  | false => simp [ChildEntry.post, hs]
  | true =>
    cases hc : e.nestedChannels with
    | none => exact absurd ⟨hs, hc⟩ this
    | some c => simp [ChildEntry.post, hc]

theorem spawnChild_lane (h : rt.children.get key = some e) (hr : e.post.refuses = false) :
    ∃ old, spawnChild key rt = (.ok (old, e.post.spawn.generation), rt.afterSpawn key e) := by
  refine spawnChild_eq h ?_
  rintro ⟨hs, hc⟩
  have hs' : e.runtime.definition.kind.isSupervisor = true := hs
  have hc' : e.nestedChannels = none := hc
  simp [ChildEntry.post, hs', hc'] at hr

/-! ## The start sequence -/

theorem startupMemberAborted_lane (key : ChildKey) (lineage : Nat) :
    Act.Ends (startupMemberAborted key lineage) rt (fun _ rt' => rt' = rt) (fun rt' => rt'.lane = rt.lane) := by
  unfold startupMemberAborted Act.Ends
  rw [Act.run_get_bind]
  split
  · rename_i h
    split at h
    · cases h
    · cases h
      rfl
  · rename_i h
    split at h
    · cases h
      exact lane_notify rfl
    · cases h

theorem spawnStartItem_lane (item : StartItem) (hw : rt.lane.Willing) :
    ∃ rt', spawnStartItem item rt = (.ok (), rt') ∧ rt'.lane = rt.lane.startItem item := by
  unfold spawnStartItem Lane.startItem
  rw [Act.run_get_bind]
  cases h : rt.children.get item.key with
  | none =>
    rw [lane_get_none h]
    exact ⟨rt, rfl, rfl⟩
  | some e =>
    rw [lane_get h]
    simp only
    have hc : (e.post.lineage ≠ item.lineage || e.post.membership ≠ .active || !e.post.state.isIdle) =
        (e.lineage ≠ item.lineage || e.membership ≠ .active || !e.runtime.state.isIdle) := rfl
    rw [hc]
    split
    · exact ⟨rt, rfl, rfl⟩
    · obtain ⟨old, hs⟩ := spawnChild_lane h (hw _ _ (lane_get h))
      rw [Act.run_bind, hs]
      have hl := @lane_afterSpawn rt item.key e
      have hk : (rt.lane.spawn item.key e.post).kind = rt.cfg.kind := by
        unfold Lane.spawn
        simp only
        split <;> rfl
      have hcond : (decide ((rt.lane.spawn item.key e.post).kind = .ordered) && e.post.isGated) =
          (decide (rt.cfg.kind = .ordered) && e.runtime.definition.readiness.isGated) := by
        rw [hk]
        rfl
      have hg : e.post.isGated = e.runtime.definition.readiness.isGated := rfl
      rw [hcond, hg]
      simp only
      split
      · exact ⟨_, rfl, by rw [lane_closeGate, hl]⟩
      · split
        · exact ⟨_, rfl, by rw [lane_startupMemberReady, hl]⟩
        · exact ⟨_, rfl, hl⟩

theorem popQueue_lane : ∀ (queue : List StartItem) {rt : SupervisorRuntime}, rt.startQueue = queue → rt.lane.Willing →
    ∃ rt', popQueue queue rt = (.ok (), rt') ∧ rt'.lane = Lane.pop queue rt.lane
  | [], rt, _, _ => ⟨_, rfl, rfl⟩
  | item :: rest, rt, hq, hw => by
    let rt1 : SupervisorRuntime := { rt with startSequence := rt.startSequence.map fun s => { s with queue := rest } }
    have h1 : rt1.lane = { rt.lane with queue := rest } := by
      unfold lane rt1 startQueue startGate
      cases hs : rt.startSequence with
      | none => simp [startQueue, hs] at hq
      | some s => rfl
    have hw1 : rt1.lane.Willing := by
      rw [h1]
      exact hw
    obtain ⟨rt2, he2, h2⟩ := spawnStartItem_lane item hw1
    have hrun : popQueue (item :: rest) rt = if rt2.startGate.isSome then (.ok (), rt2) else popQueue rest rt2 := by
      conv_lhs => unfold popQueue
      rw [Act.run_modify_bind]
      show (spawnStartItem item >>= _) rt1 = _
      rw [Act.run_bind, he2]
      simp only [Act.run_get_bind]
      split
      · rfl
      · rfl
    have hl2 : rt2.lane = { rt.lane with queue := rest }.startItem item := by rw [h2, h1]
    have hgate : rt2.startGate = ({ rt.lane with queue := rest }.startItem item).gate := by
      rw [← hl2]
      rfl
    rw [hrun]
    unfold Lane.pop
    simp only
    rw [← hgate, ← hl2]
    split
    · exact ⟨rt2, rfl, rfl⟩
    · refine popQueue_lane rest ?_ ?_
      · have : rt2.lane.queue = rest := by
          rw [hl2, Lane.startItem_queue]
        exact this
      · rw [h2]
        exact hw1.startItem item

/-- What the gate's child is found to be. -/
theorem gateState_lane (g : StartGate) :
    (rt.gateState g = none ∧ rt.lane.holds g = false ∧ rt.lane.passes g = false) ∨
      ∃ st deadline, rt.gateState g = some (st, deadline) ∧ rt.lane.passes g = decide (st = .running) ∧
        rt.lane.holds g = match st with
          | .starting | .stopping => true
          | .stopped => deadline.isSome
          | .running | .startQueued => false := by
  unfold gateState Lane.holds Lane.passes
  cases h : rt.children.get g.key with
  | none =>
    rw [lane_get_none h]
    exact .inl ⟨rfl, rfl, rfl⟩
  | some e =>
    rw [lane_get h]
    by_cases hc : e.lineage = g.lineage ∧ e.membership = .active
    · refine .inr ⟨e.runtime.state, e.runtime.nextRestartDeadline, ?_, ?_, ?_⟩
      · simp [hc]
      · simp [ChildEntry.post, hc]
      · cases hst : e.runtime.state <;> simp [ChildEntry.post, hc, hst]
    · have hno : (decide (e.post.lineage = g.lineage) && decide (e.post.membership = .active)) = false := by
        rw [← Bool.decide_and]
        exact decide_eq_false hc
      refine .inl ⟨?_, ?_, ?_⟩
      · simp [hc]
      · rw [Option.any_some, hno, Bool.false_and]
      · rw [Option.any_some, hno, Bool.false_and]

theorem passGate_lane (g : StartGate) :
    Act.Ends (passGate g) rt
      (fun go rt' => go = false ∧ rt' = rt ∧ rt.lane.holds g = true ∨ go = true ∧ rt.lane.holds g = false ∧
        rt'.lane = if rt.lane.passes g then rt.lane.openGate.memberReady g.key g.lineage else rt.lane.openGate)
      (fun rt' => rt'.lane = rt.lane.openGate) := by
  unfold passGate
  refine Act.ends_get ?_
  obtain ⟨hs, hh, hp⟩ | ⟨st, deadline, hs, hp, hh⟩ := @gateState_lane rt g
  · rw [hs]
    exact Act.ends_ok rfl (.inr ⟨rfl, hh, by rw [hp]; exact lane_setGate⟩)
  · rw [hs]
    cases st with
    | starting => exact Act.ends_ok rfl (.inl ⟨rfl, rfl, hh⟩)
    | stopping => exact Act.ends_ok rfl (.inl ⟨rfl, rfl, hh⟩)
    | startQueued => exact Act.ends_ok rfl (.inr ⟨rfl, hh, by rw [hp]; exact lane_setGate⟩)
    | running =>
      refine Act.ends_ok rfl (.inr ⟨rfl, hh, ?_⟩)
      rw [hp, lane_startupMemberReady, lane_setGate]
      rfl
    | stopped =>
      cases deadline with
      | some d => exact Act.ends_ok rfl (.inl ⟨rfl, rfl, hh⟩)
      | none =>
        refine Act.ends_modify_bind ?_
        refine Act.ends_bind ((startupMemberAborted_lane g.key g.lineage).weaken (fun _ _ h => h) ?_) ?_
        · rintro rt' hl
          rw [hl]
          exact lane_setGate
        · rintro _ _ rfl
          exact Act.ends_ok rfl (.inr ⟨rfl, hh, by rw [hp]; exact lane_setGate⟩)

theorem advanceStartSequence_lane (hw : rt.lane.Willing) :
    Act.Ends advanceStartSequence rt (fun _ rt' => rt'.lane = rt.lane.advance)
      (fun rt' => rt'.lane = rt.lane.openGate) := by
  unfold advanceStartSequence Lane.advance
  refine Act.ends_get ?_
  have hg : rt.lane.gate = rt.startGate := rfl
  rw [hg]
  cases rt.startGate with
  | none =>
    obtain ⟨rt', hrun, hl⟩ := popQueue_lane rt.startQueue rfl hw
    exact Act.ends_ok hrun hl
  | some g =>
    refine Act.ends_bind (passGate_lane g) ?_
    rintro go rt' (⟨rfl, rfl, hh⟩ | ⟨rfl, hh, hl⟩)
    · exact Act.ends_ok rfl (by simp [hh])
    · have hq : rt'.startQueue = rt.startQueue := by
        have : rt'.lane.queue = rt.lane.queue := by
          rw [hl]
          split <;> simp [Lane.openGate]
        exact this
      have hw' : rt'.lane.Willing := by
        rw [hl]
        split
        · intro k q hq
          exact hw k q (by simpa using hq)
        · exact hw
      obtain ⟨rt2, hrun, hl2⟩ := popQueue_lane rt.startQueue hq hw'
      refine Act.ends_ok hrun ?_
      simp only [hh, Bool.false_eq_true, if_false, ← hl]
      rw [hl2]
      congr 1
      exact hq.symm

theorem terminalStartMember_lane (key : ChildKey) (lineage : Nat) (hw : rt.lane.Willing) :
    Act.Ends (terminalStartMember key lineage) rt (fun _ rt' => rt'.lane = rt.lane.release key lineage)
      (fun rt' => rt'.lane = rt.lane.detach key lineage) := by
  obtain ⟨hl, hg⟩ := @lane_removeStartSequenceMember rt key lineage
  unfold terminalStartMember Lane.release
  refine Act.ends_get ?_
  generalize rt.removeStartSequenceMember key lineage = r at hl hg
  obtain ⟨cleared, rt1⟩ := r
  simp only at hl hg
  refine Act.ends_modify_bind ?_
  refine Act.ends_bind ((startupMemberAborted_lane key lineage).weaken (fun _ _ h => h) fun _ h => h.trans hl) ?_
  intro _ rt2 h2
  rw [h2, ← hg]
  cases cleared with
  | false => exact Act.ends_ok rfl hl
  | true =>
    have hopen : (rt.lane.detach key lineage).gate = none := by simp [Lane.detach, ← hg]
    have hw' : rt1.lane.Willing := by
      rw [hl]
      exact hw
    refine (advanceStartSequence_lane hw').weaken ?_ ?_
    · intro _ rt' h
      rw [h, hl, Lane.advance_of_open hopen]
      rfl
    · intro rt' h
      rw [h, hl, Lane.openGate_of_open hopen]

/-- With the gate open the sequence cannot fail. -/
theorem advanceStartSequence_open (hg : rt.startGate = none) (hw : rt.lane.Willing) :
    ∃ rt', advanceStartSequence rt = (.ok (), rt') ∧ rt'.lane = Lane.pop rt.lane.queue rt.lane := by
  obtain ⟨rt', hrun, hl⟩ := popQueue_lane rt.startQueue rfl hw
  refine ⟨rt', ?_, hl⟩
  rw [← hrun]
  unfold advanceStartSequence
  rw [Act.run_get_bind, hg]
  rfl

/-! ## Exits -/

theorem removeTerminal_lane (key : ChildKey) (lineage : Nat) (startupAborted : Bool) (hw : rt.lane.Willing) :
    Act.Ends (removeTerminal key lineage startupAborted) rt
      (fun _ rt' => rt'.lane = (if startupAborted then rt.lane.release key lineage else rt.lane).drop key)
      (fun rt' => startupAborted = true ∧ rt'.lane = (rt.lane.detach key lineage).drop key) := by
  unfold removeTerminal
  cases startupAborted with
  | false => exact Act.ends_ok rfl (lane_finalizeRemovedChild ..)
  | true =>
    obtain ⟨_, rt', hrun, hl⟩ | ⟨err, rt', hrun, hl⟩ := (terminalStartMember_lane key lineage hw).cases
    · refine Act.ends_ok (by simp [hrun] : _ = (Except.ok (), rt'.finalizeRemovedChild key false)) ?_
      rw [lane_finalizeRemovedChild, hl]
      rfl
    · refine Act.ends_error (by simp [hrun] : _ = (Except.error err, rt'.finalizeRemovedChild key false)) ⟨rfl, ?_⟩
      rw [lane_finalizeRemovedChild, hl]

theorem keepTerminal_lane (key : ChildKey) (startupAborted : Bool) (hw : rt.lane.Willing) :
    Act.Ends (keepTerminal key e startupAborted) rt
      (fun _ rt' => rt'.lane = if startupAborted then rt.lane.release key e.lineage else rt.lane)
      (fun rt' => startupAborted = true ∧ rt'.lane = rt.lane.detach key e.lineage) := by
  have hstart : ∀ rt1 : SupervisorRuntime, rt1.lane = rt.lane →
      Act.Ends (if startupAborted then terminalStartMember key e.lineage else pure ()) rt1
        (fun _ rt' => rt'.lane = if startupAborted then rt.lane.release key e.lineage else rt.lane)
        (fun rt' => startupAborted = true ∧ rt'.lane = rt.lane.detach key e.lineage) := by
    intro rt1 h1
    cases startupAborted with
    | false => exact Act.ends_ok rfl h1
    | true =>
      rw [← h1]
      refine (terminalStartMember_lane key e.lineage ?_).weaken (fun _ _ h => h) fun _ h => ⟨rfl, h⟩
      rw [h1]
      exact hw
  unfold keepTerminal
  refine Act.ends_get ?_
  simp only
  by_cases hf : rt.stopIsFinal key e.runtime.definition.restart = true
  · rw [if_pos hf]
    exact Act.ends_modify_bind (k := fun _ => if startupAborted then terminalStartMember key e.lineage else pure ())
      (hstart _ (lane_markChildTerminal key))
  · rw [if_neg hf]
    exact hstart _ rfl

theorem terminalExit_lane (key : ChildKey) (e : ChildEntry) (hw : rt.lane.Willing) :
    Act.Ends (terminalExit key e) rt (fun _ rt' => rt'.lane = rt.lane.terminal key e.post)
      (fun rt' => e.post.hasReportedReady = false ∧ rt'.lane = rt.lane.fallen key e.post) := by
  have hgo : ∀ rt1 : SupervisorRuntime, rt1.lane = rt.lane →
      Act.Ends (if e.runtime.definition.removeOnTerminalExit then removeTerminal key e.lineage !e.runtime.hasReportedReady
          else keepTerminal key e !e.runtime.hasReportedReady) rt1
        (fun _ rt' => rt'.lane = rt.lane.terminal key e.post)
        (fun rt' => e.post.hasReportedReady = false ∧ rt'.lane = rt.lane.fallen key e.post) := by
    intro rt1 h1
    have hready : e.post.hasReportedReady = e.runtime.hasReportedReady := rfl
    have hrem : e.post.definition.removeOnTerminalExit = e.runtime.definition.removeOnTerminalExit := rfl
    have hlin : e.post.lineage = e.lineage := rfl
    unfold Lane.terminal Lane.fallen
    rw [hready, hrem, hlin, ← h1]
    rw [← h1] at hw
    cases e.runtime.definition.removeOnTerminalExit with
    | true =>
      refine (removeTerminal_lane key e.lineage _ hw).weaken ?_ ?_
      · intro _ rt' h
        rw [h]
        cases e.runtime.hasReportedReady <;> rfl
      · rintro rt' ⟨hs, h⟩
        exact ⟨by simpa using hs, h⟩
    | false =>
      refine (keepTerminal_lane key _ hw).weaken ?_ ?_
      · intro _ rt' h
        rw [h]
        cases e.runtime.hasReportedReady <;> rfl
      · rintro rt' ⟨hs, h⟩
        exact ⟨by simpa using hs, h⟩
  unfold terminalExit
  cases hr : e.runtime.hasReportedReady with
  | true =>
    have := hgo rt rfl
    rw [hr] at this
    exact this
  | false =>
    have hl : ((rt.editRuntime key fun r => { r with startupAborted := true }).publishSnapshot).lane = rt.lane :=
      (lane_publishSnapshot).trans (lane_edit_quiet fun _ _ => rfl)
    have := hgo _ hl
    rw [hr] at this
    exact Act.ends_modify_bind this

theorem scheduleRestart_lane (key : ChildKey) :
    Act.Ends (scheduleRestart key) rt (fun _ rt' => rt'.lane = rt.lane.edit key (Post.setDue true))
      (fun rt' => rt'.lane = rt.lane) := by
  let rt1 : SupervisorRuntime := { rt with totalRestarts := rt.totalRestarts + 1 }
  have h2 : (rt.restartRecorded key).lane = rt.lane :=
    (lane_edit_quiet fun _ _ => rfl : (rt.restartRecorded key).lane = rt1.lane)
  unfold Act.Ends
  rw [scheduleRestart_run]
  cases h : (rt.restartRecorded key).children.get key with
  | none =>
    have hn : rt.lane.posts key = none := by
      rw [← h2]
      exact lane_get_none h
    show (rt.restartRecorded key).lane = _
    unfold Lane.edit
    rw [hn, h2]
  | some e =>
    simp only
    by_cases hx : e.runtime.restartTracker.exceeded = true
    · rw [if_pos hx]
      exact (lane_sendSupervisorEvent _).trans h2
    · rw [if_neg hx, ← h2]
      exact lane_editWith fun _ => rfl

theorem applyExitPolicy_lane (c : ClassifiedExit) (hw : rt.lane.Willing) :
    Act.Ends (applyExitPolicy c) rt (fun _ rt' => rt'.lane = rt.lane.applyExit c.key c.status.isFailure)
      (fun rt' => rt'.lane = rt.lane ∨ ∃ p, rt.lane.posts c.key = some p ∧ p.hasReportedReady = false ∧
        rt'.lane = rt.lane.fallen c.key p) := by
  have hrun : rt.lane.running = decide (rt.state = .running) := rfl
  unfold applyExitPolicy applyExitPolicyInner Lane.applyExit
  refine Act.ends_get ?_
  rw [hrun]
  split
  · rename_i hs
    refine Act.ends_ok rfl ?_
    cases rt.lane.posts c.key with
    | none => rfl
    | some p => simp [hs]
  · rename_i hs
    rw [ne_eq, not_not] at hs
    cases h : rt.children.get c.key with
    | none =>
      rw [lane_get_none h]
      exact Act.ends_ok rfl (by simp)
    | some e =>
      rw [lane_get h]
      simp only [hs, decide_true, Bool.not_true, Bool.false_eq_true, if_false, Bool.true_and, if_true]
      have hm : e.post.membership = e.membership := rfl
      have hd : e.post.definition = e.runtime.definition := rfl
      rw [hm, hd]
      split
      · exact Act.ends_ok rfl (lane_finalizeRemovedChild ..)
      · split
        · refine Act.ends_bind ((scheduleRestart_lane c.key).weaken (fun _ _ h => h) fun _ h => .inl h) ?_
          intro delay rt' hl
          refine Act.ends_ok rfl ?_
          rw [lane_sendLifecycle_quiet fun _ _ => rfl, hl]
          unfold Lane.edit
          rw [lane_get h]
        · refine (terminalExit_lane c.key e hw).weaken (fun _ _ h => h) ?_
          rintro rt' ⟨hr, hl⟩
          exact .inr ⟨e.post, rfl, hr, hl⟩

/-- A join: nothing, or the exit of a child that was active and its policy. -/
theorem handleJoinedChild_lane (task : TaskId) (c : Conclusion) (hb : rt.ledger.Books) :
    Act.Ends (handleJoinedChild task c) rt
      (fun _ rt' => rt'.lane = rt.lane ∨ ∃ key p status, rt.lane.posts key = some p ∧ p.state.isActive = true ∧
        rt'.lane = (rt.lane.exit key (RuntimeExitStatus.view status)).applyExit key status.isFailure)
      (fun rt' => rt'.lane = rt.lane ∨ ∃ key p kind, rt.lane.posts key = some p ∧ p.state.isActive = true ∧
        (rt'.lane = rt.lane.exit key kind ∨
          p.hasReportedReady = false ∧ rt'.lane = (rt.lane.exit key kind).fallen key (p.exit kind))) := by
  have hc := @consumeJoinedChild_cases rt task c
  unfold handleJoinedChild Act.Ends
  rw [Act.run_bind]
  generalize consumeJoinedChild task c rt = r at hc
  obtain ⟨r, rt1⟩ := r
  cases hc with
  | lost _ => exact .inl rfl
  | stale _ _ => exact .inl rfl
  | @current t e status ht he hl hg =>
    let rt1 : SupervisorRuntime := { rt.unlinked task with liveTasks := rt.liveTasks - 1 }
    have he1 : rt1.children.get t.key = some e := he
    have hx : (rt1.recordExit t.key t.generation status).lane = rt.lane.exit t.key status.view :=
      lane_recordExit t.generation status he1
    have hact : e.post.state.isActive = true := by
      have := (hb.record_task task t t.key e.member ht (ledger_get he) hl).2.2
      have ha := hb.active_iff t.key e.member (ledger_get he)
      rw [this] at ha
      exact ha
    have hw : (rt1.recordExit t.key t.generation status).lane.Willing := by
      rw [hx]
      unfold Lane.exit
      rw [lane_get he]
      exact Lane.Willing.put (willing_of_books hb) (willing_of_books hb t.key e.post (lane_get he))
    have hend := applyExitPolicy_lane ⟨t.key, t.lineage, t.generation, status⟩ hw
    rw [hx] at hend
    refine (hend.weaken ?_ ?_ : Act.Ends _ _ _ _)
    · intro _ rt' h
      exact .inr ⟨t.key, e.post, status, lane_get he, hact, h⟩
    · rintro rt' (h | ⟨p, hp, hr, h⟩)
      · exact .inr ⟨t.key, e.post, _, lane_get he, hact, .inl h⟩
      · have hpe : p = e.post.exit status.view := by
          unfold Lane.exit at hp
          rw [lane_get he] at hp
          simpa using hp.symm
        subst hpe
        exact .inr ⟨t.key, e.post, _, lane_get he, hact, .inr ⟨hr, h⟩⟩

/-! ## Readiness -/

theorem handleChildReady_lane (r : ChildReady) (hw : rt.lane.Willing) :
    ∃ rt', handleChildReady r rt = (.ok (), rt') ∧ rt'.lane = rt.lane.readyAt r := by
  unfold handleChildReady Lane.readyAt
  rw [Act.run_get_bind]
  cases h : rt.children.get r.key with
  | none =>
    rw [lane_get_none h]
    exact ⟨rt, rfl, rfl⟩
  | some e =>
    rw [lane_get h]
    have hc : (e.post.lineage ≠ r.lineage || e.post.generation ≠ r.generation || e.post.membership ≠ .active ||
        e.post.state ≠ .starting) = (e.lineage ≠ r.lineage || e.runtime.generation ≠ r.generation ||
          e.membership ≠ .active || e.runtime.state ≠ .starting) := rfl
    simp only [hc]
    split
    · exact ⟨rt, rfl, rfl⟩
    · let rt1 := ((((rt.editRuntime r.key fun r => { r with state := .running, hasReportedReady := true }).sendLifecycle
        r.key (.started r.generation)).sendChildEvent).startupMemberReady r.key r.lineage)
      have h1 : rt1.lane = ((rt.lane.put r.key e.post.report).tell [.started e.post.id e.post.lineage]).memberReady
          r.key r.lineage := by
        show (startupMemberReady _ r.key r.lineage).lane = _
        rw [lane_startupMemberReady, lane_sendChildEvent]
        congr 1
        unfold editRuntime
        rw [lane_sendLifecycle _ (get_edit h), lane_edit h]
        rfl
      have hgate : rt1.startGate = rt.startGate := by
        have : rt1.lane.gate = rt.lane.gate := by
          rw [h1]
          simp [Lane.put]
        exact this
      simp only [Act.run_modify_bind, Act.run_get_bind]
      show ∃ rt', (if rt1.startGate.any _ then _ else _ : RuntimeM Unit) rt1 = _ ∧ _
      rw [hgate]
      have hg : rt.lane.gate = rt.startGate := rfl
      rw [hg]
      split
      · have hset : (rt1.setGate none).lane = rt1.lane.openGate := lane_setGate
        have hw' : (rt1.setGate none).lane.Willing := by
          rw [hset, h1]
          intro k q hq
          simp only [Lane.openGate_posts, Lane.memberReady_posts, Lane.tell_posts] at hq
          exact Lane.Willing.put (p := e.post.report) hw (hw r.key e.post (lane_get h)) k q hq
        obtain ⟨rt2, hrun, hl⟩ := advanceStartSequence_open startGate_setGate_none hw'
        refine ⟨rt2, hrun, ?_⟩
        rw [hl, hset, h1]
        rfl
      · exact ⟨rt1, rfl, h1⟩

/-! ## Restarts -/

theorem lane_mapGate (f : StartGate → StartGate) :
    ({ rt with startSequence := rt.startSequence.map fun s => { s with gate := s.gate.map f } } :
      SupervisorRuntime).lane = { rt.lane with gate := rt.lane.gate.map f } := by
  unfold lane startQueue startGate
  cases rt.startSequence <;> rfl

theorem any_state_lane (key : ChildKey) (st : RuntimeChildState) :
    (rt.children.get key).any (fun e => decide (e.runtime.state = st)) =
      (rt.lane.posts key).any fun p => decide (p.state = st) := by
  cases h : rt.children.get key with
  | none => rw [lane_get_none h]; rfl
  | some e => rw [lane_get h]; rfl

theorem restartOne_lane (key : ChildKey) (hw : rt.lane.Willing) :
    Act.Ends (restartOne key) rt (fun _ rt' => rt'.lane = rt.lane.restartOne key)
      (fun rt' => ∃ p, rt.lane.posts key = some p ∧ p.membership = .active ∧ p.state = .stopped ∧ p.due = true ∧
        p.isGated = false ∧ rt'.lane = (rt.lane.spawn key p).openGate) := by
  unfold restartOne Lane.restartOne
  refine Act.ends_get ?_
  cases h : rt.children.get key with
  | none =>
    rw [lane_get_none h]
    exact Act.ends_ok rfl rfl
  | some e =>
    rw [lane_get h]
    have hc : (e.post.membership ≠ .active || e.post.state ≠ .stopped || !e.post.due) =
        (e.membership ≠ .active || e.runtime.state ≠ .stopped || e.runtime.nextRestartDeadline.isNone) := by
      rw [← Option.not_isSome]
      rfl
    simp only [hc]
    split
    · exact Act.ends_ok rfl rfl
    · rename_i hn
      rw [← hc] at hn
      simp only [Bool.or_eq_true, decide_eq_true_eq, not_or, ne_eq, not_not, Bool.not_eq_true', Bool.not_eq_false] at hn
      refine Act.ends_modify_bind ?_
      let rt1 := rt.editRuntime key fun r => { r with nextRestartDeadline := none }
      let e1 : ChildEntry := { e with runtime := { e.runtime with nextRestartDeadline := none } }
      have he1 : rt1.children.get key = some e1 := get_edit h
      have hp1 : e1.post.spawn = e.post.spawn := rfl
      have hr1 : e1.post.refuses = false := hw key e.post (lane_get h)
      obtain ⟨old, hs⟩ := spawnChild_lane he1 hr1
      have hl1 : (rt1.afterSpawn key e1).lane = rt.lane.spawn key e.post := by
        rw [lane_afterSpawn]
        show (SupervisorRuntime.lane (rt.edit key _)).spawn key e1.post = _
        rw [lane_edit h]
        unfold Lane.spawn Lane.put
        simp only [Function.update_idem]
        rfl
      refine Act.ends_bind (Act.ends_ok hs ⟨rfl, rfl⟩ : Act.Ends _ _
        (fun r s => r = (old, e1.post.spawn.generation) ∧ s = rt1.afterSpawn key e1) _) ?_
      rintro ⟨_, _⟩ _ ⟨hpair, rfl⟩
      obtain ⟨rfl, rfl⟩ := Prod.mk.injEq .. ▸ hpair
      refine Act.ends_modify_bind (Act.ends_get ?_)
      have hgate : (rt1.afterSpawn key e1).lane.gate.map (fun g => if g.key = key && g.lineage = e.lineage then
          { g with generation := e1.post.spawn.generation } else g) = Lane.regate rt.lane.gate key e.post.spawn := by
        rw [hl1, Lane.spawn_gate]
        rfl
      have hl2 := @lane_mapGate (rt1.afterSpawn key e1) (fun g => if g.key = key && g.lineage = e.lineage then
          { g with generation := e1.post.spawn.generation } else g)
      rw [hgate, hl1] at hl2
      generalize ({ rt1.afterSpawn key e1 with startSequence := _ } : SupervisorRuntime) = rt2 at hl2 ⊢
      have hstate : (rt2.children.get key).any (fun e => decide (e.runtime.state = .running)) = !e.post.isGated := by
        rw [any_state_lane, hl2]
        simp [Post.spawn]
      rw [hstate]
      cases hgated : e.post.isGated with
      | true => exact Act.ends_ok rfl (by simpa using hl2)
      | false =>
        have hw2 : rt2.lane.Willing := by
          rw [hl2]
          intro k q hq
          simp only [Lane.spawn_get] at hq
          split at hq
          · cases hq
            exact hw key e.post (lane_get h)
          · exact hw k q hq
        refine (advanceStartSequence_lane hw2).weaken ?_ ?_
        · intro _ rt3 h3
          rw [h3, hl2]
          rfl
        · intro rt3 h3
          exact ⟨e.post, rfl, hn.1.1, hn.1.2, hn.2, hgated, by rw [h3, hl2]; rfl⟩

/-! ## Scheduling -/

theorem finalizeSkippedGroupRespawn_lane (key : ChildKey) (startupAborted : Bool) :
    Act.Ends (finalizeSkippedGroupRespawn key startupAborted) rt (fun _ rt' => rt'.lane = rt.lane.skip key)
      (fun rt' => rt'.lane = rt.lane) := by
  have hgo : ∀ rt1 : SupervisorRuntime, rt1.lane = rt.lane →
      Act.Ends (do
        let rt ← Act.get
        if (rt.children.get key).any (·.runtime.definition.removeOnTerminalExit) then
          Act.modify (·.finalizeRemovedChild key false)
        else Act.modify (·.markChildTerminal key) : RuntimeM Unit) rt1
        (fun _ rt' => rt'.lane = rt.lane.skip key) (fun rt' => rt'.lane = rt.lane) := by
    intro rt1 h1
    refine Act.ends_get ?_
    have hc : (rt1.children.get key).any (·.runtime.definition.removeOnTerminalExit) =
        (rt.lane.posts key).any (·.definition.removeOnTerminalExit) := by
      rw [← h1]
      cases h : rt1.children.get key with
      | none => rw [lane_get_none h]; rfl
      | some e => rw [lane_get h]; rfl
    unfold Lane.skip
    rw [hc]
    split
    · exact Act.ends_ok rfl ((lane_finalizeRemovedChild ..).trans (by rw [h1]))
    · exact Act.ends_ok rfl ((lane_markChildTerminal key).trans h1)
  unfold finalizeSkippedGroupRespawn
  refine Act.ends_get ?_
  cases startupAborted with
  | false => exact hgo rt rfl
  | true =>
    have hl : ((rt.editRuntime key fun r => { r with startupAborted := true }).publishSnapshot).lane = rt.lane :=
      (lane_publishSnapshot).trans (lane_edit_quiet fun _ _ => rfl)
    refine Act.ends_modify_bind ?_
    refine Act.ends_bind ((startupMemberAborted_lane key _).weaken (fun _ _ h => h) fun _ h => h.trans hl) ?_
    intro _ rt2 h2
    rw [h2]
    exact hgo _ hl

theorem scheduleStart_lane (key : ChildKey) (emitRestartEvents : Bool) (hw : rt.lane.Willing) :
    ∃ rt', scheduleStart key emitRestartEvents rt = (.ok (), rt') ∧ rt'.lane = rt.lane.scheduleStart key emitRestartEvents := by
  unfold scheduleStart Lane.scheduleStart
  rw [Act.run_get_bind]
  cases h : rt.children.get key with
  | none =>
    rw [lane_get_none h]
    exact ⟨rt, rfl, rfl⟩
  | some e =>
    rw [lane_get h]
    have hc : (e.post.membership ≠ .active || !e.post.state.isIdle) =
        (e.membership ≠ .active || !e.runtime.state.isIdle) := rfl
    have hk : rt.lane.kind = rt.cfg.kind := rfl
    simp only [hc, hk]
    split
    · exact ⟨rt, rfl, rfl⟩
    · split
      · exact spawnStartItem_lane _ hw
      · refine ⟨_, rfl, ?_⟩
        let rt1 := rt.editRuntime key fun r => { r with state := .startQueued, hasReportedReady := false, nextRestartDeadline := none }
        have h1 : rt1.lane = rt.lane.put key e.post.enqueue := lane_edit h
        show ({ rt1.lane with queue := rt1.lane.queue ++ [_] } : Lane) = _
        rw [h1]
        rfl

/-- One round of the loop in `schedule_start_sequence`. -/
theorem scheduleOne_lane (key : ChildKey) (emitRestartEvents : Bool) (hw : rt.lane.Willing) :
    Act.Ends (match (if emitRestartEvents then rt.groupRespawnDisposition key else .respawn) with
        | .respawn => scheduleStart key emitRestartEvents
        | .skip => pure ()
        | .finalize startupAborted => finalizeSkippedGroupRespawn key startupAborted) rt
      (fun _ rt' => rt'.lane = rt.lane.schedule key emitRestartEvents) (fun rt' => rt'.lane = rt.lane) := by
  obtain ⟨rt', hrun, hl⟩ := scheduleStart_lane key emitRestartEvents hw
  unfold Lane.schedule
  cases emitRestartEvents with
  | false => exact Act.ends_ok hrun hl
  | true =>
    simp only [if_true]
    unfold groupRespawnDisposition
    cases h : rt.children.get key with
    | none =>
      rw [lane_get_none h]
      exact Act.ends_ok rfl rfl
    | some e =>
      rw [lane_get h]
      have hm : e.post.membership = e.membership := rfl
      have hn : (e.post.hasStarted && e.post.definition.restart.isNever) =
          (e.runtime.hasStarted && e.runtime.definition.restart.isNever) := rfl
      simp only [hm, hn]
      by_cases hact : e.membership ≠ .active
      · simp only [if_pos hact]
        exact Act.ends_ok rfl rfl
      · simp only [if_neg hact]
        by_cases hnever : (e.runtime.hasStarted && e.runtime.definition.restart.isNever) = true
        · simp only [if_pos hnever]
          exact finalizeSkippedGroupRespawn_lane key _
        · simp only [if_neg hnever]
          exact Act.ends_ok hrun hl

end SupervisorRuntime

end Kokage.Supervisor

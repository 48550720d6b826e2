/-
  Kokage.Supervisor.Writes — what the supervisor writes to a child's entry.

  `Write` lists the writes the runtime makes to one entry, with the condition under which
  it makes them; `Works` says of a stretch of synchronous code that every entry it leaves
  is an entry it found, or one it inserted, after some of these writes. The clock and the
  configuration are not touched, notices are only added, and a nested supervisor whose
  command is taken from the queue is inserted or made terminal.

  Writes are plain, or belong to a removal that begins, to one that is parked, or to a
  restart that a policy schedules: only commands make the second kind, only deadlines and
  the end of the run the third, only `schedule_restart` the fourth. So what a membership's
  restart budget holds, and which deadlines are set, can be followed through code that is
  not allowed these tags. The last tag stands for a command answered with an error, which
  only commands and the end of the run do.
-/

import Kokage.Supervisor.Accounts

namespace Kokage.Supervisor

open Kokage.Lib SupervisorRuntime

/-! ## Writes -/

inductive WriteTag where
  | plain
  | removal
  | parking
  | restart
  | refusal
  deriving DecidableEq, Repr

inductive Write : WriteTag → ChildEntry → ChildEntry → Prop
  /-- The spawn of a nested supervisor without its identity stops here. -/
  | prepare {e : ChildEntry} (rt : SupervisorRuntime) (key : ChildKey) :
      e.membership = .active → e.runtime.state.isIdle = true → Write .plain e (rt.prepareSpawn key e)
  | spawn {e : ChildEntry} (rt : SupervisorRuntime) (key : ChildKey) (task : TaskId) :
      e.membership = .active → e.runtime.state.isIdle = true → Write .plain e (finishSpawn task (rt.prepareSpawn key e))
  | queue {e : ChildEntry} : e.membership = .active → e.runtime.state.isIdle = true →
      Write .plain e { e with runtime := { e.runtime with
        state := .startQueued, hasReportedReady := false, nextRestartDeadline := none } }
  | report {e : ChildEntry} : e.runtime.state = .starting →
      Write .plain e { e with runtime := { e.runtime with state := .running, hasReportedReady := true } }
  /-- A request to stop, by token, abort handle or flag. -/
  | request {e : ChildEntry} {r : ChildRuntime} : Wound e.runtime r → Write .plain e { e with runtime := r }
  | exit {e : ChildEntry} (now : Instant) (status : RuntimeExitStatus) : Write .plain e (recordExitEntry now status e)
  | abortStartup {e : ChildEntry} : Write .plain e { e with runtime := { e.runtime with startupAborted := true } }
  | unschedule {e : ChildEntry} : Write .plain e { e with runtime := { e.runtime with nextRestartDeadline := none } }
  | nested {e : ChildEntry} (s : Option SupervisorSnapshot) : Write .plain e { e with nestedSnapshot := s }
  | leave {e : ChildEntry} (p : PendingRemoval) : e.membership ≠ .removing →
      Write .removal e { e with
        membership := .removing
        runtime := { e.runtime with state := if e.runtime.state.isActive then .stopping else e.runtime.state }
        pendingRemoval := some p }
  | park {e : ChildEntry} (p : Option PendingRemoval) : Write .parking e { e with pendingRemoval := p }
  | record {e : ChildEntry} (now : Instant) :
      Write .restart e { e with runtime := { e.runtime with restartTracker := e.runtime.restartTracker.recordRestart now } }
  | schedule {e : ChildEntry} (at_ : Instant) : e.runtime.state = .stopped → e.runtime.definition.restart.isNever = false →
      Write .restart e { e with runtime := { e.runtime with
        restartTracker := e.runtime.restartTracker.backoff.2, nextRestartDeadline := some at_ } }

/-- Some writes, plain or with tags in `A`. -/
def Evolves (A : WriteTag → Prop) : ChildEntry → ChildEntry → Prop :=
  Relation.ReflTransGen fun e e' => ∃ t, (t = .plain ∨ A t) ∧ Write t e e'

namespace Evolves

variable {A B : WriteTag → Prop} {e e' e'' : ChildEntry}

theorem refl : Evolves A e e := Relation.ReflTransGen.refl

theorem trans (h : Evolves A e e') (h' : Evolves A e' e'') : Evolves A e e'' := Relation.ReflTransGen.trans h h'

theorem plain (h : Write .plain e e') : Evolves A e e' := Relation.ReflTransGen.single ⟨_, .inl rfl, h⟩

theorem single {t : WriteTag} (h : Write t e e') (ht : A t) : Evolves A e e' :=
  Relation.ReflTransGen.single ⟨t, .inr ht, h⟩

theorem mono (hAB : ∀ t, A t → B t) (h : Evolves A e e') : Evolves B e e' := by
  refine Relation.ReflTransGen.mono ?_ _ _ h
  rintro _ _ ⟨t, ht, hw⟩
  exact ⟨t, ht.imp_right (hAB t), hw⟩

/-- What every allowed write keeps, the writes keep. -/
theorem keeps {I : ChildEntry → Prop} (hI : ∀ {t e e'}, (t = .plain ∨ A t) → Write t e e' → I e → I e')
    (h : Evolves A e e') (he : I e) : I e' := by
  induction h with
  | refl => exact he
  | tail _ hw ih =>
    obtain ⟨t, ht, hw⟩ := hw
    exact hI ht hw ih

theorem lineage (h : Evolves A e e') : e'.lineage = e.lineage := by
  refine h.keeps (I := fun x => x.lineage = e.lineage) ?_ rfl
  rintro t x x' - hw hx
  cases hw <;> exact hx

end Evolves

/-! ## Stretches of code -/

/-- The part of the runtime that `Works` speaks about. -/
structure Board where
  cfg : RuntimeMeta
  children : Slab ChildEntry
  nextLineage : Nat
  now : Instant
  commandRx : List SupervisorCommand
  notices : List Notice

def SupervisorRuntime.board (rt : SupervisorRuntime) : Board :=
  ⟨rt.cfg, rt.children, rt.nextLineage, rt.now, rt.commandRx, rt.notices⟩

/-- The entry of a membership inserted meanwhile. -/
def Inserted (A : WriteTag → Prop) (first bound : Nat) (e : ChildEntry) : Prop :=
  ∃ (d : ChildDefinition) (nested : Option StableChannels) (lineage : Nat) (seed : UInt64),
    first ≤ lineage ∧ lineage < bound ∧ Evolves A (.new d.id d nested lineage seed) e

/-- What became of a nested supervisor whose command was handled. -/
def SupervisorCommand.Handled (notices : List Notice) : SupervisorCommand → Prop
  | .addNested child _ _ => ∀ identity, child.kind = .supervisor identity →
      .insertNested child.id identity ∈ notices ∨ .terminal identity ∈ notices
  | .addChild _ _ _ | .removeChild _ _ _ => True

theorem SupervisorCommand.Handled.mono {c : SupervisorCommand} {ns ns' : List Notice} (h : c.Handled ns)
    (hn : ns <+: ns') : c.Handled ns' := by
  cases c with
  | addNested child _ _ => exact fun identity hk => (h identity hk).imp (hn.subset ·) (hn.subset ·)
  | addChild _ _ _ => trivial
  | removeChild _ _ _ => trivial

/-- An error in reply to a command. A removal that outlived its grace is complete, and is
    not counted. -/
def Notice.Errs : Notice → Prop
  | .addReply _ (.error _) => True
  | .removeReply _ (.error (.failed (.shutdownTimedOut _))) _ => False
  | .removeReply _ (.error _) _ => True
  | _ => False

structure Works (A : WriteTag → Prop) (rt rt' : SupervisorRuntime) : Prop where
  cfg : rt'.cfg = rt.cfg
  now : rt'.now = rt.now
  queue : ∀ c ∈ rt.commandRx, c ∈ rt'.commandRx ∨ c.Handled rt'.notices
  lineage_le : rt.nextLineage ≤ rt'.nextLineage
  entries : ∀ k e', rt'.children.get k = some e' →
    (∃ e, rt.children.get k = some e ∧ Evolves A e e') ∨ Inserted A rt.nextLineage rt'.nextLineage e'
  notices : ∃ new, rt'.notices = rt.notices ++ new ∧ ∀ n ∈ new, n.Errs → A .refusal

/-- The same, with no command taken. -/
structure Writes (A : WriteTag → Prop) (rt rt' : SupervisorRuntime) : Prop extends Works A rt rt' where
  commandRx : rt'.commandRx = rt.commandRx

section Preorder

variable {A B : WriteTag → Prop} {rt rt' rt'' : SupervisorRuntime}

theorem Works.notices_le (h : Works A rt rt') : rt.notices <+: rt'.notices := by
  obtain ⟨new, hn, -⟩ := h.notices
  exact ⟨new, hn.symm⟩

theorem Works.trans (h : Works A rt rt') (h' : Works A rt' rt'') : Works A rt rt'' where
  cfg := h'.cfg.trans h.cfg
  now := h'.now.trans h.now
  queue c hc := by
    rcases h.queue c hc with hc | hc
    · exact h'.queue c hc
    · exact .inr (hc.mono h'.notices_le)
  lineage_le := Nat.le_trans h.lineage_le h'.lineage_le
  entries k e'' he'' := by
    rcases h'.entries k e'' he'' with ⟨e', he', hev'⟩ | ⟨d, nested, l, seed, hl, hl', hev'⟩
    · rcases h.entries k e' he' with ⟨e, he, hev⟩ | ⟨d, nested, l, seed, hl, hl', hev⟩
      · exact .inl ⟨e, he, hev.trans hev'⟩
      · exact .inr ⟨d, nested, l, seed, hl, Nat.lt_of_lt_of_le hl' h'.lineage_le, hev.trans hev'⟩
    · exact .inr ⟨d, nested, l, seed, Nat.le_trans h.lineage_le hl, hl', hev'⟩
  notices := by
    obtain ⟨new, hn, hne⟩ := h.notices
    obtain ⟨new', hn', hne'⟩ := h'.notices
    refine ⟨new ++ new', by rw [hn', hn, List.append_assoc], fun n hm => ?_⟩
    rcases List.mem_append.mp hm with hm | hm
    · exact hne n hm
    · exact hne' n hm

theorem Works.mono (hAB : ∀ t, A t → B t) (h : Works A rt rt') : Works B rt rt' where
  cfg := h.cfg
  now := h.now
  queue := h.queue
  lineage_le := h.lineage_le
  entries k e' he' := by
    rcases h.entries k e' he' with ⟨e, he, hev⟩ | ⟨d, nested, l, seed, hl, hl', hev⟩
    · exact .inl ⟨e, he, hev.mono hAB⟩
    · exact .inr ⟨d, nested, l, seed, hl, hl', hev.mono hAB⟩
  notices := by
    obtain ⟨new, hn, hne⟩ := h.notices
    exact ⟨new, hn, fun n hm he => hAB _ (hne n hm he)⟩

theorem Writes.trans (h : Writes A rt rt') (h' : Writes A rt' rt'') : Writes A rt rt'' :=
  ⟨h.toWorks.trans h'.toWorks, h'.commandRx.trans h.commandRx⟩

theorem Writes.mono (hAB : ∀ t, A t → B t) (h : Writes A rt rt') : Writes B rt rt' := ⟨h.toWorks.mono hAB, h.commandRx⟩

/-- Only the entries changed, each by some writes. -/
theorem Writes.of_children (hcfg : rt'.cfg = rt.cfg) (hnow : rt'.now = rt.now) (hcmd : rt'.commandRx = rt.commandRx)
    (hl : rt'.nextLineage = rt.nextLineage) (hn : rt'.notices = rt.notices)
    (he : ∀ k e', rt'.children.get k = some e' → ∃ e, rt.children.get k = some e ∧ Evolves A e e') : Writes A rt rt' where
  cfg := hcfg
  now := hnow
  queue c hc := .inl (hcmd ▸ hc)
  commandRx := hcmd
  lineage_le := Nat.le_of_eq hl.symm
  entries k e' h := .inl (he k e' h)
  notices := ⟨[], by rw [hn, List.append_nil], nofun⟩

theorem Writes.of_board (h : rt'.board = rt.board) : Writes A rt rt' := by
  have hc : rt'.children = rt.children := congrArg Board.children h
  refine .of_children (congrArg Board.cfg h) (congrArg Board.now h) (congrArg Board.commandRx h)
    (congrArg Board.nextLineage h) (congrArg Board.notices h) fun k e' he' => ?_
  exact ⟨e', hc ▸ he', .refl⟩

theorem Writes.refl (rt : SupervisorRuntime) : Writes A rt rt := .of_board rfl

/-- The rest of the runtime is set first. -/
theorem Writes.after (rt₁ : SupervisorRuntime) (hb : rt₁.board = rt.board) (h : Writes A rt₁ rt') : Writes A rt rt' :=
  (Writes.of_board hb).trans h

instance : Std.Refl (Writes A) := ⟨.refl⟩

instance : IsTrans SupervisorRuntime (Writes A) := ⟨fun _ _ _ => .trans⟩

instance : Std.Refl (Works A) := ⟨fun rt => (Writes.refl rt).toWorks⟩

instance : IsTrans SupervisorRuntime (Works A) := ⟨fun _ _ _ => .trans⟩

theorem Writes.foldl {α : Type} {f : SupervisorRuntime → α → SupervisorRuntime} (hf : ∀ rt a, Writes A rt (f rt a)) :
    ∀ (as : List α) (rt : SupervisorRuntime), Writes A rt (as.foldl f rt)
  | [], rt => .refl rt
  | a :: as, rt => (hf rt a).trans (foldl hf as (f rt a))

end Preorder

namespace SupervisorRuntime

variable {A : WriteTag → Prop} {rt : SupervisorRuntime} {key : ChildKey} {e : ChildEntry}

theorem writes_edit {f : ChildEntry → ChildEntry} (hf : ∀ e, rt.children.get key = some e → Evolves A e (f e)) :
    Writes A rt (rt.edit key f) := by
  refine .of_children rfl rfl rfl rfl rfl fun k e' he' => ?_
  change (rt.children.modify key f).get k = some e' at he'
  rw [Slab.get_modify] at he'
  split at he'
  · rename_i hk
    subst hk
    obtain ⟨e, he, rfl⟩ := Option.map_eq_some_iff.mp he'
    exact ⟨e, he, hf e he⟩
  · exact ⟨e', he', .refl⟩

theorem writes_map {f : Nat → ChildEntry → ChildEntry} (hf : ∀ k e, rt.children.get k = some e → Evolves A e (f k e)) :
    Writes A rt { rt with children := rt.children.map f } := by
  refine .of_children rfl rfl rfl rfl rfl fun k e' he' => ?_
  change (rt.children.map f).get k = some e' at he'
  rw [Slab.get_map] at he'
  obtain ⟨e, he, rfl⟩ := Option.map_eq_some_iff.mp he'
  exact ⟨e, he, hf k e he⟩

theorem writes_put (he : rt.children.get key = some e) {e' : ChildEntry} (hev : Evolves A e e') :
    Writes A rt { rt with children := rt.children.insertAt key e' } := by
  refine .of_children rfl rfl rfl rfl rfl fun k x hx => ?_
  change (rt.children.insertAt key e').get k = some x at hx
  rw [Slab.get_insertAt] at hx
  split at hx
  · rename_i hk
    subst hk
    cases hx
    exact ⟨e, he, hev⟩
  · exact ⟨x, hx, .refl⟩

theorem writes_drop (key : ChildKey) (e : ChildEntry) : Writes A rt (rt.dropEntry key e) := by
  refine .of_children rfl rfl rfl rfl rfl fun k x hx => ?_
  change (rt.children.remove key).get k = some x at hx
  rw [Slab.get_remove] at hx
  split at hx
  · cases hx
  · exact ⟨x, hx, .refl⟩

theorem writes_notify {n : Notice} (hn : n.Errs → A .refusal) : Writes A rt (rt.notify n) where
  cfg := rfl
  now := rfl
  queue _ hc := .inl hc
  commandRx := rfl
  lineage_le := Nat.le_refl _
  entries _ e' he' := .inl ⟨e', he', .refl⟩
  notices := by
    refine ⟨[n], rfl, fun n' hm => ?_⟩
    rw [List.mem_singleton.mp hm]
    exact hn

/-! ## Publication -/

theorem writes_publish : Writes A rt rt.publishSnapshot := .of_board rfl

theorem writes_sendLifecycleDraft (d : LifecycleEventDraft) : Writes A rt (rt.sendLifecycleDraft d) := by
  unfold sendLifecycleDraft
  simp only
  split
  · exact .of_board rfl
  · exact .of_board rfl

theorem writes_sendLifecycle (key : ChildKey) (kind : ChildEventKind) : Writes A rt (rt.sendLifecycle key kind) := by
  unfold sendLifecycle
  split
  · exact writes_sendLifecycleDraft _
  · exact .refl rt

theorem writes_sendSupervisorEvent (kind : SupervisorEventKind) : Writes A rt (rt.sendSupervisorEvent kind) := by
  unfold sendSupervisorEvent
  simp only
  split
  · exact writes_publish
  · exact writes_publish.trans (writes_notify nofun)

/-! ## Gates -/

theorem writes_completeEmptyStartupGate : Writes A rt rt.completeEmptyStartupGate := by
  unfold completeEmptyStartupGate
  split
  · exact Writes.after { rt with startupGate := none } rfl (writes_notify nofun)
  · exact .refl rt

theorem writes_startupMemberReady (key : ChildKey) (lineage : Nat) : Writes A rt (rt.startupMemberReady key lineage) := by
  unfold startupMemberReady
  split
  · exact .refl rt
  · rename_i pending _
    exact Writes.after { rt with startupGate := some (pending.filter fun p => p.1 ≠ key || p.2 ≠ lineage) } rfl
      writes_completeEmptyStartupGate

theorem startupMemberAborted_writes (key : ChildKey) (lineage : Nat) :
    Act.Runs (Writes A) (startupMemberAborted key lineage) rt fun _ _ => True := by
  unfold startupMemberAborted
  refine Act.runs_get ?_
  split
  · exact Act.runs_modify_bind (writes_notify nofun) Act.runs_fail
  · exact Act.runs_pure trivial

theorem writes_removeStartSequenceMember (key : ChildKey) (lineage : Nat) :
    Writes A rt (rt.removeStartSequenceMember key lineage).2 := by
  unfold removeStartSequenceMember
  split
  · exact .refl rt
  · exact .of_board rfl

/-! ## Requests to stop -/

theorem writes_request {f : ChildRuntime → ChildRuntime} (hf : ∀ r, Wound r (f r)) : Writes A rt (rt.editRuntime key f) :=
  writes_edit fun _ _ => .plain (.request (hf _))

theorem writes_cancelChild (key : ChildKey) : Writes A rt (rt.cancelChild key) := writes_request fun _ => ⟨rfl, .inl rfl⟩

theorem writes_escalateChild (key : ChildKey) : Writes A rt (rt.escalateChild key) := writes_request fun _ => ⟨rfl, .inl rfl⟩

theorem writes_abortChild (key : ChildKey) : Writes A rt (rt.abortChild key) := by
  unfold abortChild
  have hmark : Writes A rt (rt.editRuntime key fun r =>
      { r with completion := r.completion.markCancelled, nestedAbortCascades := true }) :=
    writes_request fun _ => ⟨rfl, .inl rfl⟩
  simp only
  split
  · exact hmark.trans (.of_board rfl)
  · exact hmark

/-! ## Starting -/

theorem writes_afterSpawn (h : rt.children.get key = some e) (hm : e.membership = .active)
    (hi : e.runtime.state.isIdle = true) : Writes A rt (rt.afterSpawn key e) := by
  have h₁ : Writes A rt
      ({ rt with spawnedFrom := rt.spawnedFrom ++ [e.runtime.state] }.installTask key (rt.prepareSpawn key e)) :=
    (writes_put h (.plain (.spawn rt key _ hm hi))).trans (.of_board rfl)
  unfold afterSpawn
  simp only
  split
  · exact h₁.trans ((writes_sendLifecycle key _).trans writes_publish)
  · exact h₁.trans writes_publish

theorem spawnChild_writes (h : rt.children.get key = some e) (hm : e.membership = .active)
    (hi : e.runtime.state.isIdle = true) : Act.Runs (Writes A) (spawnChild key) rt fun _ _ => True := by
  by_cases hr : e.member.Refuses
  · obtain ⟨err, heq⟩ := spawnChild_refused h hr
    unfold Act.Runs
    rw [heq]
    exact ⟨(writes_put h (.plain (.prepare rt key hm hi))).trans (.of_board rfl), fun _ _ _ => trivial⟩
  · obtain ⟨old, heq⟩ := spawnChild_eq h hr
    unfold Act.Runs
    rw [heq]
    exact ⟨writes_afterSpawn h hm hi, fun _ _ _ => trivial⟩

theorem spawnStartItem_writes (item : StartItem) : Act.Runs (Writes A) (spawnStartItem item) rt fun _ _ => True := by
  unfold spawnStartItem
  refine Act.runs_get ?_
  split
  · exact Act.runs_pure trivial
  · rename_i entry he
    split
    · exact Act.runs_pure trivial
    · rename_i hg
      simp only [Bool.or_eq_true, decide_eq_true_eq, Bool.not_eq_true', not_or, not_not, Bool.not_eq_false] at hg
      simp only
      refine Act.runs_bind (spawnChild_writes he hg.1.2 hg.2) ?_
      rintro ⟨old, new⟩ rt' - -
      simp only
      split
      · exact Act.runs_modify (.of_board rfl) trivial
      · split
        · exact Act.runs_modify (writes_startupMemberReady _ _) trivial
        · exact Act.runs_pure trivial

theorem passGate_writes (gate : StartGate) : Act.Runs (Writes A) (passGate gate) rt fun _ _ => True := by
  have hopen : ∀ rt : SupervisorRuntime, Writes A rt (rt.setGate none) := fun _ => .of_board rfl
  unfold passGate
  refine Act.runs_get ?_
  split
  · exact Act.runs_pure trivial
  · exact Act.runs_pure trivial
  · exact Act.runs_pure trivial
  · refine Act.runs_modify_bind (hopen rt) ?_
    exact Act.runs_modify_bind (writes_startupMemberReady _ _) (Act.runs_pure trivial)
  · refine Act.runs_modify_bind (hopen rt) ?_
    exact Act.runs_bind (startupMemberAborted_writes _ _) fun _ _ _ _ => Act.runs_pure trivial
  · exact Act.runs_modify_bind (hopen rt) (Act.runs_pure trivial)
  · exact Act.runs_modify_bind (hopen rt) (Act.runs_pure trivial)

theorem popQueue_writes : ∀ (queue : List StartItem) {rt : SupervisorRuntime},
    Act.Runs (Writes A) (popQueue queue) rt fun _ _ => True
  | [], _ => Act.runs_modify (.of_board rfl) trivial
  | item :: rest, rt => by
    unfold popQueue
    refine Act.runs_modify_bind (.of_board rfl) (Act.runs_bind (spawnStartItem_writes item) ?_)
    intro _ rt' _ _
    refine Act.runs_get ?_
    split
    · exact Act.runs_pure trivial
    · exact popQueue_writes rest

theorem advanceStartSequence_writes : Act.Runs (Writes A) advanceStartSequence rt fun _ _ => True := by
  unfold advanceStartSequence
  refine Act.runs_get ?_
  have hgo : ∀ (go : Bool) (rt' : SupervisorRuntime),
      Act.Runs (Writes A) (if go then popQueue rt.startQueue else pure () : RuntimeM Unit) rt' fun _ _ => True := by
    intro go rt'
    cases go with
    | true => exact popQueue_writes _
    | false => exact Act.runs_pure trivial
  cases rt.startGate with
  | none => exact hgo true rt
  | some gate => exact Act.runs_bind (passGate_writes gate) fun go rt' _ _ => hgo go rt'

theorem detachStartMember_writes (key : ChildKey) (lineage : Nat) :
    Act.Runs (Writes A) (detachStartMember key lineage) rt fun _ _ => True := by
  unfold detachStartMember
  refine Act.runs_get ?_
  simp only
  refine Act.runs_modify_bind ((writes_removeStartSequenceMember key lineage).trans (writes_startupMemberReady _ _)) ?_
  split
  · exact advanceStartSequence_writes
  · exact Act.runs_pure trivial

theorem terminalStartMember_writes (key : ChildKey) (lineage : Nat) :
    Act.Runs (Writes A) (terminalStartMember key lineage) rt fun _ _ => True := by
  unfold terminalStartMember
  refine Act.runs_get ?_
  simp only
  refine Act.runs_modify_bind (writes_removeStartSequenceMember key lineage) ?_
  refine Act.runs_bind (startupMemberAborted_writes _ _) fun _ _ _ _ => ?_
  split
  · exact advanceStartSequence_writes
  · exact Act.runs_pure trivial

theorem handleChildReady_writes (ready : ChildReady) : Act.Runs (Writes A) (handleChildReady ready) rt fun _ _ => True := by
  unfold handleChildReady
  refine Act.runs_get ?_
  split
  · exact Act.runs_pure trivial
  · rename_i entry he
    split
    · exact Act.runs_pure trivial
    · rename_i hg
      have hs : entry.runtime.state = .starting := by
        by_contra hs
        exact hg (by simp [hs])
      have h₁ : Writes A rt (rt.editRuntime ready.key fun r => { r with state := .running, hasReportedReady := true }) := by
        refine writes_edit fun e' he' => ?_
        rw [he] at he'
        cases he'
        exact .plain (.report hs)
      refine Act.runs_modify_bind (h₁.trans (writes_sendLifecycle _ _)) ?_
      refine Act.runs_modify_bind writes_publish (Act.runs_modify_bind (writes_startupMemberReady _ _) (Act.runs_get ?_))
      split
      · exact Act.runs_modify_bind (.of_board rfl) advanceStartSequence_writes
      · exact Act.runs_pure trivial

/-! ## Removal -/

theorem writes_markChildTerminal (key : ChildKey) : Writes A rt (rt.markChildTerminal key) := by
  unfold markChildTerminal
  split
  · exact .refl rt
  · split
    · exact .refl rt
    · exact writes_notify nofun

theorem writes_clearCell (e : ChildEntry) : Writes A rt (rt.clearCell e) := by
  unfold clearCell
  split
  · exact .of_board rfl
  · exact .refl rt

theorem writes_retireNested (e : ChildEntry) : Writes A rt (rt.retireNested e) := by
  unfold retireNested
  split
  · exact writes_notify nofun
  · exact .refl rt

theorem removalReply_quiet (id : String) (p : PendingRemoval) (checkElapsedGrace : Bool) (seen : Option Seen) :
    ¬ (Notice.removeReply p.reply (rt.pendingRemovalResult id p checkElapsedGrace none) seen).Errs := by
  unfold pendingRemovalResult
  simp only [Option.isSome_none, Bool.false_eq_true, if_false]
  by_cases hg : (p.graceExpired || (checkElapsedGrace && !p.policy.isAbort && decide (p.graceDeadline ≤ rt.now))) = true
  · rw [if_pos hg]
    exact fun h => h
  · rw [if_neg hg]
    exact fun h => h

theorem writes_finalizeRemovedChild (key : ChildKey) (checkElapsedGrace : Bool) :
    Writes A rt (rt.finalizeRemovedChild key checkElapsedGrace) := by
  unfold finalizeRemovedChild
  split
  · exact .refl rt
  · rename_i entry he
    have hdrop : Writes A rt (((rt.dropEntry key entry).clearCell entry).retireNested entry) :=
      (writes_drop key entry).trans ((writes_clearCell entry).trans (writes_retireNested entry))
    simp only
    cases rt.lifecycleDraft key .removed with
    | none =>
      have hevent := hdrop.trans writes_publish
      simp only
      split
      · exact hevent.trans (writes_notify fun h => absurd h (removalReply_quiet _ _ _ _))
      · exact hevent
    | some d =>
      have hevent := (hdrop.trans (writes_sendLifecycleDraft d)).trans writes_publish
      simp only
      split
      · exact hevent.trans (writes_notify fun h => absurd h (removalReply_quiet _ _ _ _))
      · exact hevent

theorem finalizeSkippedGroupRespawn_writes (key : ChildKey) (startupAborted : Bool) :
    Act.Runs (Writes A) (finalizeSkippedGroupRespawn key startupAborted) rt fun _ _ => True := by
  have hend : ∀ rt' : SupervisorRuntime, Act.Runs (Writes A) (do
      let rt ← Act.get
      if (rt.children.get key).any (·.runtime.definition.removeOnTerminalExit) then
        Act.modify (·.finalizeRemovedChild key false)
      else
        Act.modify (·.markChildTerminal key) : RuntimeM Unit) rt' fun _ _ => True := by
    intro rt'
    refine Act.runs_get ?_
    split
    · exact Act.runs_modify (writes_finalizeRemovedChild key false) trivial
    · exact Act.runs_modify (writes_markChildTerminal key) trivial
  unfold finalizeSkippedGroupRespawn
  refine Act.runs_get ?_
  simp only
  cases startupAborted with
  | false => exact hend rt
  | true =>
    refine Act.runs_modify_bind ((writes_edit fun _ _ => .plain .abortStartup).trans writes_publish) ?_
    exact Act.runs_bind (startupMemberAborted_writes _ _) fun _ rt' _ _ => hend rt'

theorem scheduleStart_writes (key : ChildKey) (emitRestartEvents : Bool) :
    Act.Runs (Writes A) (scheduleStart key emitRestartEvents) rt fun _ _ => True := by
  unfold scheduleStart
  refine Act.runs_get ?_
  split
  · exact Act.runs_pure trivial
  · rename_i e he
    split
    · exact Act.runs_pure trivial
    · rename_i hg
      simp only [Bool.or_eq_true, decide_eq_true_eq, not_or, ne_eq, Decidable.not_not] at hg
      simp only
      split
      · exact spawnStartItem_writes _
      · refine Act.runs_modify (Writes.trans (writes_edit fun e' he' => ?_) (.of_board rfl)) trivial
        rw [he] at he'
        cases he'
        exact .plain (.queue hg.1 (by simpa using hg.2))

theorem scheduleStartSequence_writes (keys : List ChildKey) (emitRestartEvents : Bool) :
    Act.Runs (Writes A) (scheduleStartSequence keys emitRestartEvents) rt fun _ _ => True := by
  unfold scheduleStartSequence
  refine Act.runs_bind (Q := fun _ _ => True) ?_ fun _ rt' _ _ => ?_
  · refine Act.runs_forEach (R := Writes A) (I := fun _ _ => True) ?_ keys rt trivial
    intro key rest rt _
    refine Act.runs_get ?_
    split
    · exact scheduleStart_writes key emitRestartEvents
    · exact Act.runs_pure trivial
    · exact finalizeSkippedGroupRespawn_writes key _
  · refine Act.runs_get ?_
    split
    · exact Act.runs_modify_bind writes_publish advanceStartSequence_writes
    · exact Act.runs_pure trivial

/-! ## Commands -/

theorem writes_insertEntry (d : ChildDefinition) (nested : Option StableChannels) : Writes A rt (rt.insertEntry d nested) where
  cfg := rfl
  now := rfl
  queue _ hc := .inl hc
  commandRx := rfl
  lineage_le := Nat.le_succ _
  entries k e' he' := by
    change (rt.children.insertAt _ _).get k = some e' at he'
    rw [Slab.get_insertAt] at he'
    split at he'
    · cases he'
      exact .inr ⟨d, nested, rt.nextLineage, _, Nat.le_refl _, Nat.lt_succ_self _, .refl⟩
    · exact .inl ⟨e', he', .refl⟩
  notices := ⟨[], (List.append_nil _).symm, nofun⟩

theorem installChild_writes (d : ChildDefinition) (nested : Option StableChannels) :
    Act.Runs (Writes A) (installChild d nested) rt fun _ _ => True := by
  unfold installChild
  refine Act.runs_get ?_
  simp only
  refine Act.runs_modify_bind (Writes.trans ?_ (writes_sendLifecycle _ _)) ?_
  · split
    · exact (writes_insertEntry d _).trans (writes_notify nofun)
    · exact writes_insertEntry d _
  · refine Act.runs_bind (Act.runs_mapError (scheduleStartSequence_writes _ _)) fun _ _ _ _ => ?_
    exact Act.runs_pure trivial

theorem completeCommand_writes (hB : A .refusal) (reply : Nat) {m : CommandM Nat} (h : Act.Runs (Writes A) m rt fun _ _ => True) :
    Act.Runs (Writes A) (completeCommand reply m) rt fun _ _ => True := by
  refine ⟨?_, fun _ _ _ => trivial⟩
  have hm := h.1
  unfold completeCommand
  generalize m rt = out at hm
  obtain ⟨r, rt'⟩ := out
  cases r with
  | ok lineage => exact hm.trans (writes_notify fun _ => hB)
  | error e =>
    obtain ⟨error, exit⟩ := e
    cases exit with
    | none => exact hm.trans (writes_notify fun _ => hB)
    | some e => exact hm.trans (writes_notify fun _ => hB)

theorem addChild_writes (child : ChildDefinition) : Act.Runs (Writes A) (addChild child) rt fun _ _ => True := by
  unfold addChild
  refine Act.runs_get ?_
  simp only
  split
  · exact Act.runs_fail
  · exact installChild_writes _ _

theorem addNested_writes (child : ChildDefinition) : Act.Runs (Writes A) (addNested child) rt fun _ _ => True := by
  unfold addNested
  refine Act.runs_get ?_
  simp only
  split
  · exact Act.runs_modify_bind (writes_notify nofun) Act.runs_fail
  · exact Act.runs_fail
  · exact installChild_writes _ _
  · exact Act.runs_fail

theorem stopRemoved_writes (key : ChildKey) (lineage : Nat) (active abort : Bool) :
    Act.Runs (Writes A) (stopRemoved key lineage active abort) rt fun _ _ => True := by
  have hend : ∀ (active : Bool) (rt' : SupervisorRuntime), Act.Runs (Writes A) (do
      detachStartMember key lineage
      if active then pure () else Act.modify (·.finalizeRemovedChild key false) : RuntimeM Unit)
      rt' fun _ _ => True := by
    intro active rt'
    refine Act.runs_bind (detachStartMember_writes _ _) fun _ rt'' _ _ => ?_
    split
    · exact Act.runs_pure trivial
    · exact Act.runs_modify (writes_finalizeRemovedChild _ _) trivial
  unfold stopRemoved
  split
  · split
    · exact Act.runs_modify_bind (writes_abortChild key) (hend true _)
    · exact Act.runs_modify_bind (writes_cancelChild key) (hend true _)
  · exact hend false _

theorem writes_beginRemoval (hA : A .removal) (reply : Nat) (he : rt.children.get key = some e)
    (hm : e.membership ≠ .removing) : Writes A rt (rt.beginRemoval key reply).publishSnapshot := by
  refine Writes.trans (writes_edit fun e' he' => ?_) writes_publish
  rw [he] at he'
  cases he'
  exact .single (.leave _ hm) hA

theorem removeChild_writes (hA : A .removal) (hB : A .refusal) (id : String) (expectedLineage : Option Nat) (reply : Nat) :
    Act.Runs (Writes A) (removeChild id expectedLineage reply) rt fun _ _ => True := by
  refine ⟨?_, fun _ _ _ => trivial⟩
  have hr := @removeChild_removal rt rt id expectedLineage reply rfl rfl
  generalize removeChild id expectedLineage reply rt = out at hr
  cases hr with
  | refused => exact writes_notify fun _ => hB
  | begun he _ _ hm => exact (writes_beginRemoval hA reply he hm).trans (stopRemoved_writes _ _ _ _).1

theorem handleCommand_writes (hA : A .removal) (hB : A .refusal) (command : SupervisorCommand) :
    Act.Runs (Writes A) (handleCommand command) rt fun _ _ => True := by
  cases command with
  | addChild child _ reply => exact completeCommand_writes hB reply (addChild_writes child)
  | removeChild id expectedLineage reply => exact removeChild_writes hA hB id expectedLineage reply
  | addNested child _ reply => exact completeCommand_writes hB reply (addNested_writes child)

theorem installChild_inserts (d : ChildDefinition) (channels : StableChannels) :
    .insertNested d.id channels.identity ∈ (installChild d (some channels) rt).2.notices := by
  let rt₁ := (rt.insertEntry d (some channels)).notify (.insertNested d.id channels.identity)
  have h₁ : .insertNested d.id channels.identity ∈ rt₁.notices := List.mem_append_right _ (List.mem_singleton_self _)
  have hsend : Writes (fun _ => False) rt₁ (rt₁.sendLifecycle (rt.cfg.host.slabKey rt.children.keys) .added) :=
    writes_sendLifecycle _ _
  have hrest : Writes (fun _ => False) (rt₁.sendLifecycle (rt.cfg.host.slabKey rt.children.keys) .added)
      (installChild d (some channels) rt).2 :=
    (Act.runs_bind (S := fun _ _ => True) (k := fun _ => (pure rt.nextLineage : CommandM Nat))
      (Act.runs_mapError (scheduleStartSequence_writes [rt.cfg.host.slabKey rt.children.keys] false))
      fun _ _ _ _ => Act.runs_pure trivial).1
  exact (hsend.trans hrest).notices_le.subset h₁

/-- `add_nested` of a nested supervisor: its guard is dropped, or it is accepted. -/
theorem addNested_eq {child : ChildDefinition} {identity : Nat} (hk : child.kind = .supervisor identity) :
    addNested child rt =
      match rt.checkAddition (child.applyDefaults rt.cfg.defaultChildRestart rt.cfg.defaultChildShutdown) with
      | .error e => (.error ⟨e, none⟩, rt.notify (.terminal identity))
      | .ok () => installChild (child.applyDefaults rt.cfg.defaultChildRestart rt.cfg.defaultChildShutdown)
          (some ⟨identity, false⟩) rt := by
  have hd : (child.applyDefaults rt.cfg.defaultChildRestart rt.cfg.defaultChildShutdown).kind = .supervisor identity := hk
  unfold addNested
  rw [Act.run_get_bind]
  simp only [hd]
  cases rt.checkAddition (child.applyDefaults rt.cfg.defaultChildRestart rt.cfg.defaultChildShutdown) with
  | error e => rfl
  | ok _ => rfl

theorem addNested_handled {child : ChildDefinition} {identity : Nat} (hk : child.kind = .supervisor identity) :
    .insertNested child.id identity ∈ (addNested child rt).2.notices ∨ .terminal identity ∈ (addNested child rt).2.notices := by
  rw [addNested_eq hk]
  split
  · exact .inr (List.mem_append_right _ (List.mem_singleton_self _))
  · exact .inl (installChild_inserts (child.applyDefaults _ _) ⟨identity, false⟩)

theorem handleCommand_handled (command : SupervisorCommand) : command.Handled (handleCommand command rt).2.notices := by
  cases command with
  | addChild _ _ _ => trivial
  | removeChild _ _ _ => trivial
  | addNested child _ reply =>
    intro identity hk
    have hadd := @addNested_handled rt child identity hk
    have hmem : ∀ (rt' : SupervisorRuntime) (n : Notice), rt'.notices ⊆ (rt'.notify n).notices := fun _ _ =>
      List.subset_append_left _ _
    unfold handleCommand completeCommand
    simp only
    generalize addNested child rt = out at hadd
    obtain ⟨r, rt'⟩ := out
    cases r with
    | ok lineage => exact hadd.imp (hmem rt' _ ·) (hmem rt' _ ·)
    | error e =>
      obtain ⟨error, exit⟩ := e
      cases exit with
      | none => exact hadd.imp (hmem rt' _ ·) (hmem rt' _ ·)
      | some e => exact hadd.imp (hmem rt' _ ·) (hmem rt' _ ·)

/-- The command is taken from the queue and handled. -/
theorem takeCommand_works (hA : A .removal) (hB : A .refusal) {command : SupervisorCommand} {rest : List SupervisorCommand}
    (hc : rt.commandRx = command :: rest) : Works A rt (handleCommand command { rt with commandRx := rest }).2 := by
  have hw := (@handleCommand_writes A { rt with commandRx := rest } hA hB command).1
  have hdone : command.Handled (handleCommand command { rt with commandRx := rest }).2.notices :=
    handleCommand_handled command
  exact
    { cfg := hw.cfg
      now := hw.now
      lineage_le := hw.lineage_le
      entries := hw.entries
      notices := hw.notices
      queue := fun c hcm => by
        rw [hc] at hcm
        rcases List.mem_cons.mp hcm with rfl | hcm
        · exact .inr hdone
        · exact hw.queue c hcm }

/-! ## Exits -/

theorem writes_handleNestedSnapshot (n : NestedSnapshotNotification) : Writes A rt (rt.handleNestedSnapshot n) := by
  unfold handleNestedSnapshot
  split
  · exact .refl rt
  · split
    · exact .refl rt
    · split
      · exact .refl rt
      · have hedit : ∀ s, Writes A rt (rt.edit n.key fun e => { e with nestedSnapshot := s }) :=
          fun s => writes_edit fun _ _ => .plain (.nested s)
        exact (hedit _).trans (.of_board rfl)

theorem writes_recordExit (key : ChildKey) (generation : Nat) (status : RuntimeExitStatus) :
    Writes A rt (rt.recordExit key generation status) :=
  ((writes_edit fun _ _ => .plain (.exit _ _)).trans (writes_sendLifecycle _ _)).trans writes_publish

theorem consumeJoinedChild_writes (task : TaskId) (c : Conclusion) :
    Act.Runs (Writes A) (consumeJoinedChild task c) rt fun _ _ => True := by
  unfold consumeJoinedChild
  refine Act.runs_bind (Q := fun _ _ => True) ?_ fun classified rt' _ _ => ?_
  · unfold classifyJoin
    refine Act.runs_modify_bind (.of_board rfl) (Act.runs_get ?_)
    split
    · exact Act.runs_fail
    · exact Act.runs_modify_bind (.of_board rfl) (Act.runs_get (Act.runs_pure trivial))
  · refine Act.runs_get ?_
    split
    · exact Act.runs_modify_bind (.of_board rfl) (Act.runs_pure trivial)
    · exact Act.runs_pure trivial

/-- The child at `key`, if there is one, has exited. -/
def StoppedAt (rt : SupervisorRuntime) (key : ChildKey) : Prop :=
  ∀ e, rt.children.get key = some e → e.runtime.state = .stopped

theorem scheduleRestart_writes (hA : A .restart) (hs : rt.StoppedAt key) (he : rt.children.get key = some e)
    (hn : e.runtime.definition.restart.isNever = false) :
    Act.Runs (Writes A) (scheduleRestart key) rt fun _ _ => True := by
  unfold scheduleRestart
  refine Act.runs_modify_bind (.of_board rfl) ?_
  refine Act.runs_modify_bind (writes_edit fun _ _ => .single (.record _) hA) (Act.runs_get ?_)
  split
  · exact Act.runs_pure trivial
  · rename_i e₁ he₁
    split
    · exact Act.runs_modify_bind (writes_sendSupervisorEvent _) Act.runs_fail
    · simp only
      refine Act.runs_modify_bind (writes_edit fun e' he' => ?_) (Act.runs_pure trivial)
      rw [he₁] at he'
      cases he'
      change (rt.children.modify key _).get key = some e₁ at he₁
      rw [Slab.get_modify_self, he] at he₁
      cases he₁
      exact .single (.schedule _ (hs e he) hn) hA

theorem removeTerminal_writes (key : ChildKey) (lineage : Nat) (startupAborted : Bool) :
    Act.Runs (Writes A) (removeTerminal key lineage startupAborted) rt fun _ _ => True := by
  refine ⟨?_, fun _ _ _ => trivial⟩
  unfold removeTerminal
  cases startupAborted with
  | false => exact writes_finalizeRemovedChild key false
  | true => exact (terminalStartMember_writes key lineage).1.trans (writes_finalizeRemovedChild key false)

theorem keepTerminal_writes (key : ChildKey) (entry : ChildEntry) (startupAborted : Bool) :
    Act.Runs (Writes A) (keepTerminal key entry startupAborted) rt fun _ _ => True := by
  have hend : ∀ rt' : SupervisorRuntime, Act.Runs (Writes A)
      (if startupAborted then terminalStartMember key entry.lineage else pure () : RuntimeM Unit) rt' fun _ _ => True := by
    intro rt'
    split
    · exact terminalStartMember_writes _ _
    · exact Act.runs_pure trivial
  unfold keepTerminal
  refine Act.runs_get ?_
  simp only
  split
  · exact Act.runs_modify_bind (writes_markChildTerminal key) (hend _)
  · exact hend rt

theorem terminalExit_writes (key : ChildKey) (entry : ChildEntry) :
    Act.Runs (Writes A) (terminalExit key entry) rt fun _ _ => True := by
  have hend : ∀ (rt' : SupervisorRuntime) (startupAborted : Bool), Act.Runs (Writes A)
      (if entry.runtime.definition.removeOnTerminalExit then removeTerminal key entry.lineage startupAborted
        else keepTerminal key entry startupAborted) rt' fun _ _ => True := by
    intro rt' startupAborted
    split
    · exact removeTerminal_writes _ _ _
    · exact keepTerminal_writes _ _ _
  unfold terminalExit
  simp only
  split
  · exact Act.runs_modify_bind ((writes_edit fun _ _ => .plain .abortStartup).trans writes_publish) (hend _ _)
  · exact hend rt _

theorem applyExitPolicyInner_writes (c : ClassifiedExit) (allowRestart : Bool)
    (hA : allowRestart = true → A .restart ∧ rt.StoppedAt c.key) :
    Act.Runs (Writes A) (applyExitPolicyInner c allowRestart) rt fun _ _ => True := by
  unfold applyExitPolicyInner
  refine Act.runs_get ?_
  split
  · exact Act.runs_pure trivial
  · split
    · exact Act.runs_pure trivial
    · rename_i e he
      split
      · exact Act.runs_modify (writes_finalizeRemovedChild _ _) trivial
      · split
        · rename_i ha
          obtain ⟨ha, hshould⟩ := Bool.and_eq_true_iff.mp ha
          obtain ⟨hA, hs⟩ := hA ha
          refine Act.runs_bind (scheduleRestart_writes hA hs he (RestartPolicy.not_never hshould)) fun _ _ _ _ => ?_
          exact Act.runs_modify (writes_sendLifecycle _ _) trivial
        · split
          · exact terminalExit_writes _ _
          · exact Act.runs_pure trivial

theorem recordExit_children (key : ChildKey) (generation : Nat) (status : RuntimeExitStatus) :
    (rt.recordExit key generation status).children = rt.children.modify key (recordExitEntry rt.now status) := by
  unfold recordExit sendChildEvent publishSnapshot sendLifecycle
  simp only
  split
  · exact sendLifecycleDraft_children _
  · rfl

theorem recordExit_stopped (key : ChildKey) (generation : Nat) (status : RuntimeExitStatus) :
    (rt.recordExit key generation status).StoppedAt key := by
  intro e he
  rw [recordExit_children, Slab.get_modify_self] at he
  obtain ⟨e₀, -, rfl⟩ := Option.map_eq_some_iff.mp he
  rfl

theorem handleJoinedChild_writes (hA : A .restart) (task : TaskId) (c : Conclusion) :
    Act.Runs (Writes A) (handleJoinedChild task c) rt fun _ _ => True := by
  unfold handleJoinedChild
  refine Act.runs_bind (consumeJoinedChild_writes task c) fun classified rt' _ _ => ?_
  split
  · exact Act.runs_pure trivial
  · rename_i classified
    refine Act.runs_modify_bind (writes_recordExit _ _ _) ?_
    exact applyExitPolicyInner_writes _ true fun _ => ⟨hA, recordExit_stopped _ _ _⟩

/-! ## Restarts -/

theorem restartOne_writes (key : ChildKey) : Act.Runs (Writes A) (restartOne key) rt fun _ _ => True := by
  unfold restartOne
  refine Act.runs_get ?_
  split
  · exact Act.runs_pure trivial
  · rename_i entry he
    split
    · exact Act.runs_pure trivial
    · rename_i hg
      simp only [Bool.or_eq_true, decide_eq_true_eq, not_or, ne_eq, Decidable.not_not] at hg
      obtain ⟨⟨hm, hs⟩, -⟩ := hg
      refine Act.runs_modify_bind (writes_edit fun _ _ => .plain .unschedule) ?_
      refine Act.runs_bind (spawnChild_writes (get_edit he) hm ?_) ?_
      · show entry.runtime.state.isIdle = true
        rw [hs]
        rfl
      · rintro ⟨old, new⟩ rt' - -
        refine Act.runs_modify_bind (.of_board rfl) (Act.runs_get ?_)
        split
        · exact advanceStartSequence_writes
        · exact Act.runs_pure trivial

theorem writes_expireRemoval (hA : A .parking) (key : ChildKey) (grace : Duration) :
    Writes A rt (rt.expireRemoval key grace) :=
  (writes_edit fun _ _ => .single (.park _) hA).trans (writes_escalateChild key)

theorem writes_hardAbortRemoval (hA : A .parking) (key : ChildKey) : Writes A rt (rt.hardAbortRemoval key) :=
  (writes_edit fun _ _ => .single (.park _) hA).trans (writes_abortChild key)

theorem handleDeadlines_writes (hA : A .parking) : Act.Runs (Writes A) handleDeadlines rt fun _ _ => True := by
  unfold handleDeadlines
  refine Act.runs_get ?_
  split
  · exact Act.runs_fail
  · refine Act.runs_modify_bind (Writes.foldl (fun rt (x : ChildKey × Duration) => writes_expireRemoval hA x.1 x.2) _ rt) ?_
    refine Act.runs_modify_bind (Writes.foldl (fun rt key => writes_hardAbortRemoval hA key) _ _) (Act.runs_get ?_)
    split
    · refine Act.runs_bind (Q := fun _ _ => True) ?_ fun _ _ _ _ => Act.runs_pure trivial
      exact Act.runs_forEach (I := fun _ _ => True) (fun key _ rt _ => restartOne_writes key) _ _ trivial
    · exact Act.runs_pure trivial
    · refine Act.runs_modify_bind (writes_edit fun _ _ => .plain .unschedule) ?_
      exact Act.runs_get (Act.runs_pure trivial)

theorem respawnGroup_writes (keys : List ChildKey) (freshGroupToken : Bool) (completed : List ClassifiedExit) :
    Act.Runs (Writes A) (respawnGroup keys freshGroupToken completed) rt fun _ _ => True := by
  have hrest : ∀ (rt' : SupervisorRuntime) (deferred : List ClassifiedExit), Act.Runs (Writes A) (do
      Act.modify fun rt => { rt with startSequence := rt.startSequence.map fun s =>
        { queue := s.queue.filter fun item => !keys.contains item.key
          gate := s.gate.filter fun g => !keys.contains g.key } }
      scheduleStartSequence keys true
      pure deferred : RuntimeM (List ClassifiedExit)) rt' fun _ _ => True := by
    intro rt' deferred
    refine Act.runs_modify_bind (.of_board rfl) ?_
    exact Act.runs_bind (scheduleStartSequence_writes keys true) fun _ _ _ _ => Act.runs_pure trivial
  unfold respawnGroup
  simp only
  refine Act.runs_bind (Q := fun _ _ => True) ?_ fun _ rt' _ _ => ?_
  · refine Act.runs_forEach (I := fun _ _ => True) ?_ _ rt trivial
    intro c rest rt _
    refine Act.runs_get ?_
    split
    · exact applyExitPolicyInner_writes c false nofun
    · exact Act.runs_pure trivial
  · cases freshGroupToken with
    | true => exact Act.runs_modify_bind (.of_board rfl) (hrest _ _)
    | false => exact hrest rt' _

/-- A deferred exit is applied only while its child is stopped. -/
theorem applyDeferred_writes {exits : List ClassifiedExit} (hA : A .restart) (ho : rt.ledger.Open) (hb : rt.ledger.Books)
    (hd : Deferred rt.ledger exits) : Act.Runs (Writes A) (applyDeferred exits) rt fun _ _ => True := by
  let I : List ClassifiedExit → SupervisorRuntime → Prop := fun rest rt =>
    rt.ledger.Open ∧ rt.ledger.Books ∧ Deferred rt.ledger rest
  refine (Act.runs_forEach (I := I) ?_ exits rt ⟨ho, hb, hd⟩).weaken fun _ _ _ => trivial
  intro c rest rt ⟨ho, hb, hd⟩
  have hwrites : Act.Runs (Writes A) (do
      let rt ← Act.get
      if rt.currentChildMatches c.key c.lineage c.generation then applyExitPolicy c else pure () : RuntimeM Unit) rt
        fun _ _ => True := by
    refine Act.runs_get ?_
    split
    · rename_i hm
      refine applyExitPolicyInner_writes c true fun _ => ⟨hA, fun e he => ?_⟩
      exact (exited_of_pending (hd.1 c (List.mem_cons_self ..)) hm e he).2.2.1
    · exact Act.runs_pure trivial
  exact ⟨hwrites.1, (deferredExit_runs ho hb hd).2⟩

theorem finishRestart_writes {keys : List ChildKey} (freshGroupToken : Bool) {completed : List ClassifiedExit}
    (hA : A .restart) (hb : rt.ledger.Books) (ho : rt.ledger.Open) (hn : keys.Nodup)
    (hi : ∀ k ∈ keys, Inactive rt.ledger k) (hd : Deferred rt.ledger completed) :
    Act.Runs (Writes A) (finishRestart keys freshGroupToken completed) rt fun _ _ => True := by
  unfold finishRestart
  have hrespawn := @respawnGroup_writes A rt keys freshGroupToken completed
  refine Act.runs_bind ⟨hrespawn.1, (respawnGroup_defers freshGroupToken hb ho hn hi hd).2⟩ ?_
  intro deferred rt₁ _ ⟨ho₁, hb₁, hd₁⟩
  cases freshGroupToken with
  | true => exact Act.runs_pure trivial
  | false => exact applyDeferred_writes hA ho₁ hb₁ hd₁

/-! ## Drains -/

theorem handleJoinForScope_writes (task : TaskId) (c : Conclusion) (scope : DrainScope) (cursor : Option ChildKey) :
    Act.Runs (Writes A) (handleJoinForScope task c scope cursor) rt fun _ _ => True := by
  unfold handleJoinForScope
  refine Act.runs_bind (consumeJoinedChild_writes task c) fun classified rt' _ _ => ?_
  split
  · exact Act.runs_pure trivial
  · refine Act.runs_modify_bind (writes_recordExit _ _ _) (Act.runs_get ?_)
    split
    · exact Act.runs_pure trivial
    · split
      · exact Act.runs_modify_bind (writes_finalizeRemovedChild _ _) (Act.runs_pure trivial)
      · simp only
        split
        · exact Act.runs_pure trivial
        · exact Act.runs_pure trivial

end SupervisorRuntime

section Machine

variable {A : WriteTag → Prop} {rt rt₁ : SupervisorRuntime}

/-- Between two joins a drain only asks children to stop. -/
theorem Winds.writes {scope : DrainScope} {rt' : SupervisorRuntime} (h : Winds scope rt rt') : Writes A rt rt' := by
  have hboard : rt'.still.board = rt.still.board := congrArg board h.rest
  refine .of_children (by exact congrArg Board.cfg hboard) (by exact congrArg Board.now hboard)
    (by exact congrArg Board.commandRx hboard) (by exact congrArg Board.nextLineage hboard)
    (by exact congrArg Board.notices hboard) fun k e' he' => ?_
  cases he : rt.children.get k with
  | none =>
    rw [h.vacant k he] at he'
    cases he'
  | some e =>
    obtain ⟨r, hr, hw⟩ := h.entries k e he
    rw [hr] at he'
    cases he'
    exact ⟨e, rfl, .plain (.request hw)⟩

theorem drainJoined_writes (p : DrainPhase) (task : TaskId) (c : Conclusion) : Writes A rt (drainJoined p task c rt).2 := by
  obtain ⟨cursor, hok, herr⟩ := @drainJoined_cases rt p task c
  have hw := (@handleJoinForScope_writes A rt task c p.scope cursor).1
  cases hr : (handleJoinForScope task c p.scope cursor rt).1 with
  | ok exits =>
    rw [hok exits hr]
    exact hw.trans (rejoined_wends _ (deferring p exits).within_all).1.writes
  | error err =>
    rw [(herr err hr).1]
    exact hw

theorem writes_finish : Writes A rt rt.finish :=
  Writes.after { rt with state := .stopped } rfl (writes_sendSupervisorEvent _)

theorem writes_finalizeStableChannels : Writes A rt rt.finalizeStableChannels :=
  Writes.foldl (fun _ key => writes_markChildTerminal key) _ rt

theorem writes_resolvePendingRemovals (hA : A .parking) (hB : A .refusal) (failure : Option SupervisorError) :
    Writes A rt (rt.resolvePendingRemovals failure) := by
  unfold resolvePendingRemovals
  refine Writes.trans (writes_map fun _ _ _ => .single (.park none) hA) ?_
  exact Writes.foldl (fun _ _ => writes_notify fun _ => hB) _ _

theorem endShutdown_writes (hA : A .parking) (hB : A .refusal) (after : ExitReason) (result : Except SupervisorError Unit) :
    Writes A rt (endShutdown after result rt).rt := by
  cases after with
  | shutdown => exact (writes_resolvePendingRemovals hA hB none).trans writes_finalizeStableChannels
  | failure e => exact (writes_resolvePendingRemovals hA hB (some e)).trans writes_finalizeStableChannels

theorem resumeShutdown_writes (hA : A .parking) (hB : A .refusal) (after : ExitReason) (out : DrainOut × SupervisorRuntime) :
    Writes A out.2 (resumeShutdown after out).rt := by
  obtain ⟨out, rt⟩ := out
  cases out with
  | await p => exact .refl rt
  | done result =>
    cases result with
    | ok _ => exact writes_finish.trans (endShutdown_writes hA hB after (.ok ()))
    | error e => exact endShutdown_writes hA hB after (.error e)

theorem shutdownAll_writes (hA : A .parking) (hB : A .refusal) (after : ExitReason) : Writes A rt (shutdownAll after rt).rt := by
  let rt₁ : SupervisorRuntime := ({ rt with state := .stopping, stoppingToken := true }).sendSupervisorEvent .supervisorStopping
  have h₁ : Writes A rt rt₁ :=
    Writes.after { rt with state := .stopping, stoppingToken := true } rfl (writes_sendSupervisorEvent _)
  have hdrain : Writes A rt₁ (rt₁.startDrain .shutdown .all).2 := (startDrain_wends .shutdown .all).1.writes
  exact h₁.trans (hdrain.trans (resumeShutdown_writes hA hB after _))

theorem exitWith_writes (hA : A .parking) (hB : A .refusal) (reason : ExitReason) : Writes A rt (exitWith reason rt).rt := by
  have hfail : ∀ e, Writes A rt
      (((if rt.cfg.revivable then rt.detachNestedChildrenForRevivableFailure else rt).resolvePendingRemovals
        (some e)).finalizeStableChannels) := by
    intro e
    refine Writes.trans ?_ ((writes_resolvePendingRemovals hA hB (some e)).trans writes_finalizeStableChannels)
    split
    · refine writes_map fun _ x _ => ?_
      split
      · exact .plain (.request ⟨rfl, .inl rfl⟩)
      · exact .refl
    · exact .refl rt
  cases reason with
  | shutdown => exact shutdownAll_writes hA hB .shutdown
  | failure e =>
    cases e with
    | startupAborted m => exact shutdownAll_writes hA hB _
    | _ => exact hfail _

/-! ## Wakes -/

/-- The run is over, or on its way out. -/
def Phase.leaving : Phase → Bool
  | .exited _ | .drain _ (.shutdown _) => true
  | .main | .deadlineYield | .drain _ (.restart _ _) => false

/-- The code from one await to the next; it works within `A` unless the run is left. -/
structure Turns (A : WriteTag → Prop) (rt : SupervisorRuntime) (m : Machine) : Prop where
  works : Works (fun _ => True) rt m.rt
  stays : m.phase.leaving = false → Works A rt m.rt

theorem Works.turns {m : Machine} (h : Works A rt m.rt) : Turns A rt m := ⟨h.mono fun _ _ => trivial, fun _ => h⟩

theorem Works.then {m : Machine} (h : Works A rt rt₁) (h' : Turns A rt₁ m) : Turns A rt m :=
  ⟨(h.mono fun _ _ => trivial).trans h'.works, fun hl => h.trans (h'.stays hl)⟩

theorem resumeShutdown_leaving (after : ExitReason) (out : DrainOut × SupervisorRuntime) :
    (resumeShutdown after out).phase.leaving = true := by
  obtain ⟨out, rt⟩ := out
  cases out with
  | await p => rfl
  | done result => cases result <;> cases after <;> rfl

theorem exitWith_leaving (reason : ExitReason) : (exitWith reason rt).phase.leaving = true := by
  cases reason with
  | shutdown => exact resumeShutdown_leaving _ _
  | failure e =>
    cases e with
    | startupAborted m => exact resumeShutdown_leaving _ _
    | _ => rfl

theorem exitWith_turns (reason : ExitReason) : Turns A rt (exitWith reason rt) := by
  refine ⟨(exitWith_writes trivial trivial reason).toWorks, fun hl => ?_⟩
  rw [exitWith_leaving] at hl
  cases hl

theorem continueMain_turns {m : RuntimeM Unit} (h : Works A rt (m rt₁).2) : Turns A rt (continueMain m rt₁) := by
  unfold continueMain
  generalize m rt₁ = q at h
  obtain ⟨r, rt₂⟩ := q
  cases r with
  | ok _ => exact h.turns
  | error reason => exact h.then (exitWith_turns reason)

theorem turns_refl {phase : Phase} : Turns A rt ⟨rt, phase⟩ := (Writes.refl rt).toWorks.turns

theorem resumeRestart_turns {keys : List ChildKey} {scope : DrainScope} (freshGroupToken : Bool) {out : DrainOut}
    (hA : A .restart) (hb : rt.ledger.Books) (ho : rt.ledger.Open) (hout : out.Inv scope rt.ledger) (hn : keys.Nodup)
    (hk : ∀ k ∈ keys, scope.contains k = true) : Turns A rt (resumeRestart keys freshGroupToken (out, rt)) := by
  cases out with
  | await p => exact turns_refl
  | done result =>
    cases result with
    | error e => exact exitWith_turns _
    | ok completed =>
      obtain ⟨exits, ⟨rfl, hi⟩, hdef, -⟩ := hout
      have hi' : ∀ k ∈ keys, Inactive rt.ledger k := fun k h => hi k (hk k h)
      exact continueMain_turns (finishRestart_writes freshGroupToken hA hb ho hn hi' hdef).1.toWorks

/-- The commands of a batch, each with the runtime its handler finds. -/
def batchHandled : List SupervisorCommand → SupervisorRuntime → List (SupervisorCommand × SupervisorRuntime)
  | [], _ => []
  | command :: rest, rt =>
    if rt.shutdownRequested then []
    else
      let rt := { rt with commandRx := rest }
      (command, rt) :: match handleCommand command rt with
        | (.ok (), rt) => batchHandled rest rt
        | (.error _, _) => []

/-- The commands a wake handles. -/
def commandsHandled (m : Machine) (w : Wake) : List (SupervisorCommand × SupervisorRuntime) :=
  match m.phase, w with
  | .main, .command =>
    match m.rt.commandsOpen, m.rt.commandRx with
    | true, command :: rest => [(command, { m.rt with commandRx := rest })]
    | _, _ => []
  | .deadlineYield, .resumed => batchHandled m.rt.commandRx m.rt
  | _, _ => []

theorem wakeMain_turns (hA : A .removal) (w : Wake) (hB : commandsHandled ⟨rt, .main⟩ w ≠ [] → A .refusal)
    (hC : ∀ task, w = .joined task → A .restart) : Turns A rt (wakeMain rt w) := by
  cases w with
  | shutdown =>
    unfold wakeMain
    simp only
    split
    · exact exitWith_turns _
    · exact turns_refl
  | command =>
    unfold wakeMain
    unfold commandsHandled at hB
    simp only at hB ⊢
    split
    · rename_i command rest hopen hc
      rw [hopen, hc] at hB
      exact continueMain_turns (takeCommand_works hA (hB (List.cons_ne_nil _ _)) hc)
    · refine Works.turns ?_
      simp only
      split
      · exact Writes.toWorks (.of_board rfl)
      · exact (Writes.refl rt).toWorks
    · exact turns_refl
  | ready =>
    unfold wakeMain
    simp only
    split
    · rename_i ready rest hrx
      have h₀ : Writes A rt { rt with readyRx := rest } := .of_board rfl
      exact continueMain_turns (h₀.trans (handleChildReady_writes ready).1).toWorks
    · exact turns_refl
  | nestedSnapshot =>
    unfold wakeMain
    simp only
    split
    · rename_i n rest _
      have h₀ : Writes A rt { rt with nestedRx := rest } := .of_board rfl
      exact Works.turns (h₀.trans (writes_handleNestedSnapshot n)).toWorks
    · exact turns_refl
  | deadline => exact turns_refl
  | joined task =>
    unfold wakeMain
    simp only
    split
    · rename_i c _
      exact continueMain_turns (handleJoinedChild_writes (hC task rfl) task c).1.toWorks
    · exact turns_refl
  | timer => exact turns_refl
  | resumed => exact turns_refl
  | noJoin => exact turns_refl

theorem drainDeadlineCommandBatch_works (hA : A .removal) : ∀ (commands : List SupervisorCommand) {rt : SupervisorRuntime},
    rt.commandRx = commands → (batchHandled commands rt ≠ [] → A .refusal) →
      Works A rt (drainDeadlineCommandBatch commands rt).2
  | [], rt, _, _ => by
    unfold drainDeadlineCommandBatch
    rw [Act.run_get_bind]
    split
    · exact (Writes.refl rt).toWorks
    · show Works A rt (if rt.commandsClosed = true then { rt with commandsOpen := false } else rt)
      split
      · exact Writes.toWorks (.of_board rfl)
      · exact (Writes.refl rt).toWorks
  | command :: rest, rt, hc, hB => by
    unfold drainDeadlineCommandBatch
    rw [Act.run_get_bind]
    split
    · exact (Writes.refl rt).toWorks
    · rename_i hdown
      have hB : A .refusal := hB (by simp [batchHandled, hdown])
      have htake := takeCommand_works hA hB hc
      have hq := (@handleCommand_writes A { rt with commandRx := rest } hA hB command).1.commandRx
      simp only [Act.run_modify_bind]
      change Works A rt ((handleCommand command >>= fun _ => drainDeadlineCommandBatch rest) { rt with commandRx := rest }).2
      rw [Act.run_bind]
      generalize handleCommand command { rt with commandRx := rest } = q at htake hq
      obtain ⟨r, rt'⟩ := q
      cases r with
      | ok _ => exact htake.trans (drainDeadlineCommandBatch_works hA rest hq fun _ => hB)
      | error _ => exact htake

/-- The rest of a deadline batch once its commands are handled. -/
theorem deadlines_turns (hA : ∀ t, t ≠ .refusal → A t) (hb : rt.ledger.Books) (ho : rt.ledger.Open)
    (hs : rt.ledger.Settled) : Turns A (drainDeadlineCommandBatch rt.commandRx rt).2 (deadlineBatch rt) := by
  obtain ⟨hlead, hkeys⟩ := deadlineBatch_runs ho
  have hworks : Works A (drainDeadlineCommandBatch rt.commandRx rt).2
      ((drainDeadlineCommandBatch rt.commandRx >>= fun _ => handleDeadlines) rt).2 := by
    rw [Act.run_bind]
    generalize drainDeadlineCommandBatch rt.commandRx rt = q
    obtain ⟨r, rt₂⟩ := q
    cases r with
    | error reason => exact (Writes.refl rt₂).toWorks
    | ok _ => exact (handleDeadlines_writes (hA _ nofun)).1.toWorks
  unfold deadlineBatch
  simp only
  generalize (drainDeadlineCommandBatch rt.commandRx >>= fun _ => handleDeadlines) rt = q at hlead hkeys hworks
  obtain ⟨r, rt₁⟩ := q
  obtain ⟨hb₁, ho₁, hs₁⟩ := path_main (fun _ k hl => Commands.quiet hl k) hlead hb ho hs
  refine hworks.then ?_
  have hgroup : ∀ keys reason scope fresh, keys.Nodup → (∀ k ∈ keys, scope.contains k = true) → reason ≠ .shutdown →
      Turns A rt₁ (resumeRestart keys fresh (rt₁.startDrain reason scope)) := by
    intro keys reason scope fresh hn hk hr
    obtain ⟨hbd, hod, hout⟩ := startDrain_restart scope hb₁ ho₁ hs₁ hr
    have hw : Writes A rt₁ (rt₁.startDrain reason scope).2 := (startDrain_wends reason scope).1.writes
    exact hw.toWorks.then (resumeRestart_turns fresh (hA _ nofun) hbd hod hout hn hk)
  cases r with
  | error reason => exact exitWith_turns reason
  | ok keys =>
    cases keys with
    | none => exact turns_refl
    | some keys =>
      have hn : keys.Nodup := (hkeys _ _ rfl keys rfl).nodup hb₁.order_nodup
      simp only
      split
      · exact hgroup keys .groupRestart .all true hn (fun _ _ => rfl) (by decide)
      · exact hgroup keys .restForOneRestart (.subset keys) false hn (fun _ => subset_contains) (by decide)

theorem deadlineBatch_turns (hA : ∀ t, t ≠ .refusal → A t) (hB : batchHandled rt.commandRx rt ≠ [] → A .refusal)
    (hb : rt.ledger.Books) (ho : rt.ledger.Open) (hs : rt.ledger.Settled) : Turns A rt (deadlineBatch rt) :=
  (drainDeadlineCommandBatch_works (hA _ nofun) rt.commandRx rfl hB).then (deadlines_turns hA hb ho hs)

/-- What a restart finds when an await of its drain resolves. -/
theorem drainWake_restart {p : DrainPhase} {keys : List ChildKey} {freshGroupToken : Bool} (w : Wake) (hb : rt.ledger.Books)
    (hinv : (Continuation.restart keys freshGroupToken).Inv p rt.ledger) :
    Writes A rt (drainWake p rt w).2 ∧ (drainWake p rt w).2.ledger.Books ∧ (drainWake p rt w).2.ledger.Open ∧
      (drainWake p rt w).1.Inv p.scope (drainWake p rt w).2.ledger := by
  have hprog := hinv.2.1.progress
  have hstay : Writes A rt rt ∧ rt.ledger.Books ∧ rt.ledger.Open ∧ (DrainOut.await p).Inv p.scope rt.ledger :=
    ⟨.refl rt, hb, hinv.1, p.deferred, ⟨rfl, rfl, hprog⟩, hinv.2.1.deferred, hinv.2.1.settled⟩
  have hout : ∀ {out : DrainOut × SupervisorRuntime}, Wends p.tag .all rt out → Leads (Stops p.scope) rt out.2 →
      out.1.Good p.scope p.deferred out.2.ledger → Writes A rt out.2 ∧ out.2.ledger.Books ∧ out.2.ledger.Open ∧
        out.1.Inv p.scope out.2.ledger :=
    fun hw hlead hgood => ⟨hw.1.writes, restartDrain_out hb hinv hlead hgood⟩
  cases w with
  | joined task =>
    unfold drainWake
    simp only
    split
    · rename_i hc
      exact ⟨drainJoined_writes p task _, restartDrain_joined hb hinv (mem_of_joinable hc)⟩
    · exact hstay
  | timer => exact hout (drainTimer_wends p.within_all) (drainTimer_leads hprog.stopping) (drainTimer_good hb hprog)
  | resumed => exact hout (drainResumed_wends p.within_all) (drainResumed_leads hprog.stopping) (drainResumed_good hb hprog)
  | noJoin => exact hout (drainNoJoin_wends p.within_all) (drainNoJoin_leads hprog.stopping) (drainNoJoin_good hb hprog)
  | _ => exact hstay

theorem restartDrain_turns {p : DrainPhase} {keys : List ChildKey} {freshGroupToken : Bool} (hA : A .restart) (w : Wake)
    (hb : rt.ledger.Books) (hinv : (Continuation.restart keys freshGroupToken).Inv p rt.ledger) :
    Turns A rt (wakeDrain rt p (.restart keys freshGroupToken) w) := by
  obtain ⟨hw, hb₁, ho₁, hout⟩ := @drainWake_restart A rt p keys freshGroupToken w hb hinv
  rw [wakeDrain_eq]
  exact hw.toWorks.then (resumeRestart_turns freshGroupToken hA hb₁ ho₁ hout hinv.2.2.1 hinv.2.2.2)

theorem shutdownDrain_turns {p : DrainPhase} (after : ExitReason) (w : Wake) :
    Turns A rt (wakeDrain rt p (.shutdown after) w) := by
  have hresume : ∀ {out : DrainOut × SupervisorRuntime}, Writes (fun _ => True) rt out.2 →
      Turns A rt (resumeShutdown after out) := by
    intro out hw
    refine ⟨(hw.trans (resumeShutdown_writes trivial trivial after out)).toWorks, fun hl => ?_⟩
    rw [resumeShutdown_leaving] at hl
    cases hl
  cases w with
  | joined task =>
    unfold wakeDrain
    simp only
    split
    · exact turns_refl
    · exact turns_refl
    · exact turns_refl
    · exact hresume (drainJoined_writes _ task _)
    · exact turns_refl
  | timer => exact hresume (drainTimer_wends p.within_all).1.writes
  | resumed => exact hresume (drainResumed_wends p.within_all).1.writes
  | noJoin => exact hresume (drainNoJoin_wends p.within_all).1.writes
  | _ => exact turns_refl

theorem wake_turns {m : Machine} (hA : ∀ t, t ≠ .refusal → A t) (w : Wake) (hB : commandsHandled m w ≠ [] → A .refusal)
    (hinv : m.Inv) : Turns A m.rt (wake m w) := by
  obtain ⟨rt, phase⟩ := m
  cases phase with
  | main => exact wakeMain_turns (hA _ nofun) w hB fun _ _ => hA _ nofun
  | deadlineYield =>
    unfold wake
    simp only
    split
    · rename_i hw
      subst hw
      exact deadlineBatch_turns hA hB hinv.books hinv.phase.1 hinv.phase.2
    · exact turns_refl
  | drain p k =>
    cases k with
    | restart keys freshGroupToken => exact restartDrain_turns (hA _ nofun) w hinv.books hinv.phase
    | shutdown after => exact shutdownDrain_turns after w
  | exited r => exact turns_refl

theorem wake_works {m : Machine} (w : Wake) (hinv : m.Inv) : Works (fun _ => True) m.rt (wake m w).rt :=
  (wake_turns (A := fun _ => True) (fun _ _ => trivial) w (fun _ => trivial) hinv).works

/-! ## The environment -/

/-- But for the clock, the environment adds to the queue and marks clean returns. -/
theorem env_works (i : EnvStep) : Works A { rt with now := (rt.env i).now } (rt.env i) := by
  have hclean : ∀ task, Writes A rt (rt.markClean task) := by
    intro task
    unfold markClean
    split
    · split
      · exact writes_edit fun _ _ => .plain (.request ⟨rfl, .inl rfl⟩)
      · exact .refl rt
    · exact .refl rt
  cases i with
  | submit command =>
    unfold SupervisorRuntime.env
    simp only
    split
    · exact
        { cfg := rfl
          now := rfl
          queue := fun c hc => .inl (List.mem_append_left _ hc)
          lineage_le := Nat.le_refl _
          entries := fun k e he => .inl ⟨e, he, .refl⟩
          notices := ⟨[], (List.append_nil _).symm, nofun⟩ }
    · exact (Writes.refl rt).toWorks
  | markReady ready =>
    unfold SupervisorRuntime.env
    simp only
    split
    · exact Writes.toWorks (.of_board rfl)
    · exact (Writes.refl rt).toWorks
  | forward spawn snapshot =>
    unfold SupervisorRuntime.env forwardSnapshot
    simp only
    split
    · exact (Writes.refl rt).toWorks
    · exact Writes.toWorks (.of_board rfl)
  | conclude task c =>
    have hset : ∀ rt₁ : SupervisorRuntime, Writes A rt rt₁ → Works A { rt with now := rt₁.now } (rt₁.setStatus task (.concluded c)) := by
      intro rt₁ h
      have heq : { rt with now := rt₁.now } = rt := by
        rw [h.now]
      have hs : Writes A rt₁ (rt₁.setStatus task (.concluded c)) := .of_board rfl
      rw [heq]
      exact (h.trans hs).toWorks
    unfold SupervisorRuntime.env
    simp only
    split
    · exact (Writes.refl rt).toWorks
    · split
      · exact (Writes.refl rt).toWorks
      · split
        · exact hset _ (hclean task)
        · exact hset rt (.refl rt)
  | settle task =>
    unfold SupervisorRuntime.env
    simp only
    split
    · exact Writes.toWorks (.of_board rfl)
    · exact (Writes.refl rt).toWorks
  | requestShutdown => exact Writes.toWorks (.of_board rfl)
  | closeCommands => exact Writes.toWorks (.of_board rfl)
  | tick d => exact Writes.toWorks (.of_board rfl)
  | terminalHub => exact Writes.toWorks (.of_board rfl)

theorem now_le_env (i : EnvStep) : rt.now ≤ (rt.env i).now := by
  have hclean : ∀ task, (rt.markClean task).now = rt.now := by
    intro task
    unfold markClean
    split
    · split <;> rfl
    · rfl
  cases i with
  | conclude task c =>
    unfold SupervisorRuntime.env
    simp only
    split
    · exact Nat.le_refl _
    · split
      · exact Nat.le_refl _
      · split
        · exact Nat.le_of_eq (hclean task).symm
        · exact Nat.le_refl _
  | tick d => exact Nat.le_add_right _ _
  | submit command =>
    unfold SupervisorRuntime.env
    simp only
    split <;> exact Nat.le_refl _
  | markReady ready =>
    unfold SupervisorRuntime.env
    simp only
    split <;> exact Nat.le_refl _
  | forward spawn snapshot =>
    unfold SupervisorRuntime.env forwardSnapshot
    simp only
    split <;> exact Nat.le_refl _
  | settle task =>
    unfold SupervisorRuntime.env
    simp only
    split <;> exact Nat.le_refl _
  | _ => exact Nat.le_refl _

/-! ## The start -/

theorem startup_writes (hasParent : Bool) : Act.Runs (Writes A) (startup hasParent) rt fun _ _ => True := by
  unfold startup
  refine Act.runs_modify_bind (writes_sendSupervisorEvent _) (Act.runs_get ?_)
  simp only
  refine Act.runs_bind (Q := fun _ _ => True) ?_ fun _ rt₁ _ _ => ?_
  · refine Act.runs_forEach (I := fun _ _ => True) ?_ _ _ trivial
    intro key _ rt _
    exact Act.runs_modify (writes_sendLifecycle key _) trivial
  · have hend : ∀ (keys : List ChildKey) (rt : SupervisorRuntime), Act.Runs (Writes A) (do
        scheduleStartSequence keys false
        Act.modify completeEmptyStartupGate : RuntimeM Unit) rt fun _ _ => True := fun keys rt =>
      Act.runs_bind (scheduleStartSequence_writes keys false) fun _ _ _ _ =>
        Act.runs_modify writes_completeEmptyStartupGate trivial
    cases hasParent with
    | true => exact Act.runs_modify_bind (.of_board rfl) (hend _ _)
    | false => exact hend _ rt₁

theorem start_turns (c : SupervisorConfig) (b : Binding) : Turns A (.new c b) (start c b) :=
  continueMain_turns (startup_writes b.hasParent).1.toWorks

/-- A new runtime holds its configured children as they were inserted. -/
theorem new_entries (c : SupervisorConfig) (b : Binding) {k : ChildKey} {e : ChildEntry}
    (h : (SupervisorRuntime.new c b).children.get k = some e) :
    ∃ (d : ChildDefinition) (nested : Option StableChannels) (lineage : Nat) (seed : UInt64),
      e = .new d.id d nested lineage seed := by
  have hfold : ∀ (ds : List ChildDefinition) (rt : SupervisorRuntime),
      (∀ k e, rt.children.get k = some e → ∃ d nested lineage seed, e = ChildEntry.new d.id d nested lineage seed) →
      ∀ k e, (ds.foldl (fun rt d => rt.insertEntry d (staticChannels d)) rt).children.get k = some e →
        ∃ d nested lineage seed, e = ChildEntry.new d.id d nested lineage seed := by
    intro ds
    induction ds with
    | nil => exact fun _ h => h
    | cons d ds ih =>
      refine fun rt h => ih _ fun k e he => ?_
      change (rt.children.insertAt _ _).get k = some e at he
      rw [Slab.get_insertAt] at he
      split at he
      · cases he
        exact ⟨_, _, _, _, rfl⟩
      · exact h k e he
  refine hfold c.children _ (fun k e he => ?_) k e h
  cases he

end Machine

end Kokage.Supervisor

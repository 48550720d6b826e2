/-
  Kokage.Supervisor.Finality — once a child has stopped for good it is never started again.

  The runtime judges a stop final where it applies the exit policy (`stop_is_final`) and
  where a group restart skips a member; a task reference judges it from a snapshot. Either
  judgement is acted on (the child's stable identity is closed, a waiter is answered), so
  nothing may start the child afterwards. `Machine.Sealed S₀` says that the memberships
  sealed in `S₀`, and those a published snapshot gives away, are finished and keep their
  generation and exit. Every handler keeps it, also when exits are handed back by the
  drain of a group restart and applied later.

  Proved of every run of any scope:
    `never_once`        — a child that is never restarted has one generation.
    `terminal_forever`  — a child that stopped for good stays so, with the exit it had.
    `verdict_repeats`   — what one snapshot says of a task's end, all later ones say.
-/

import Kokage.Supervisor.Shutdown
import Kokage.Supervisor.Judging

namespace Kokage.Supervisor

open Kokage.Lib Ledger SupervisorRuntime Lane

variable {S₀ : Nat → Turn → Prop} {D : List ClassifiedExit} {rt : SupervisorRuntime} {keys : List ChildKey}

/-! ## Machines -/

def Phase.Sealed (S₀ : Nat → Turn → Prop) : Phase → SupervisorRuntime → Prop
  | .drain p (.restart keys freshGroupToken), rt =>
    p.scope = (if freshGroupToken then .all else .subset keys) ∧ Judged S₀ p.deferred rt ∧ rt.lane.Group keys freshGroupToken
  | .main, rt | .deadlineYield, rt | .drain _ (.shutdown _), rt | .exited _, rt => Judged S₀ [] rt

/-- The memberships sealed, and those shown, exist or have existed. -/
structure Below (S₀ : Nat → Turn → Prop) (L : Ledger) : Prop where
  sealed : ∀ l t, S₀ l t → l < L.nextLineage
  shown : ∀ s ∈ L.published, ∀ c ∈ s.children, c.lineage < L.nextLineage

structure Machine.Sealed (S₀ : Nat → Turn → Prop) (m : Machine) : Prop where
  below : Below S₀ m.rt.ledger
  phase : m.phase.Sealed S₀ m.rt

theorem step_below {l : Label} {L L' : Ledger} (hs : Step l L L') (hb : L.Books) (h : Below S₀ L) : Below S₀ L' := by
  cases hs with
  | added _ _ _ _ =>
    exact ⟨fun l t hS => Nat.lt_succ_of_lt (h.sealed l t hS), fun s hp c hc => Nat.lt_succ_of_lt (h.shown s hp c hc)⟩
  | publish s _ hrows =>
    refine ⟨h.sealed, fun s' hp c hc => ?_⟩
    rcases List.mem_append.mp hp with hp | hp
    · exact h.shown s' hp c hc
    · rw [List.mem_singleton.mp hp] at hc
      have hrow : (c.id, c.lineage, c.generation, c.state) ∈ L.rows := hrows ▸ List.mem_map.mpr ⟨c, hc, rfl⟩
      obtain ⟨k, -, hk⟩ := List.mem_filterMap.mp hrow
      obtain ⟨m, hm, hc⟩ := Option.map_eq_some_iff.mp hk
      have hl : m.lineage = c.lineage := congrArg (fun row => row.2.1) hc
      exact hl ▸ hb.lineage_lt k m hm
  | _ => exact ⟨h.sealed, h.shown⟩

theorem Below.leads {A : Label → Prop} {rt' : SupervisorRuntime} (h : Below S₀ rt.ledger) (hb : rt.ledger.Books)
    (hl : Leads A rt rt') : Below S₀ rt'.ledger :=
  (hl.keeps (I := fun L => L.Books ∧ Below S₀ L) (fun _ hs hL => ⟨step_books hs hL.1, step_below hs hL.1 hL.2⟩) ⟨hb, h⟩).2

/-- A membership that does not exist yet is not sealed. -/
theorem Below.fresh (h : Below S₀ rt.ledger) (t : Turn) : ¬ rt.Given S₀ rt.nextLineage t := by
  rintro (hS | ⟨s, hs, c, hc, -, -, hl, -⟩)
  · exact Nat.lt_irrefl _ (h.sealed _ t hS)
  · exact Nat.lt_irrefl _ (hl ▸ h.shown s hs c hc)

/-! ## Restarts -/

theorem drop_running (L : Lane) (key : ChildKey) : (L.drop key).running = L.running := by
  unfold Lane.drop
  split <;> rfl

/-- Completions inside the scope only let children go that are being removed. -/
theorem applyDrainedCompletionPolicy_cases (c : ClassifiedExit) :
    applyDrainedCompletionPolicy c rt = (.ok (), rt) ∨ ∃ p, rt.lane.posts c.key = some p ∧ p.membership = .removing ∧
      applyDrainedCompletionPolicy c rt = (.ok (), rt.finalizeRemovedChild c.key false) := by
  unfold applyDrainedCompletionPolicy applyExitPolicyInner
  rw [Act.run_get_bind]
  split
  · exact .inl rfl
  · cases h : rt.children.get c.key with
    | none => exact .inl rfl
    | some e =>
      simp only
      split
      · rename_i hm
        exact .inr ⟨e.post, lane_get h, hm, rfl⟩
      · exact .inl (by simp)

theorem respawnGroup_judged {ds : List ClassifiedExit} {freshGroupToken : Bool} (hn : keys.Nodup) (ho : rt.lane.order.Nodup)
    (hrun : rt.lane.running = true) (h : Judged S₀ ds rt) (hg : rt.lane.Group keys freshGroupToken) :
    Act.Ends (respawnGroup keys freshGroupToken ds) rt (fun es rt' => Judged S₀ es rt') (fun rt' => Judged S₀ [] rt') := by
  unfold respawnGroup
  simp only [List.partition_eq_filter_filter]
  let J : SupervisorRuntime → Prop := fun rt' =>
    Judged S₀ ds rt' ∧ rt'.lane.Group keys freshGroupToken ∧ rt'.lane.running = true ∧ rt'.lane.order.Nodup
  refine Act.ends_bind (Q := fun _ => J) (Act.ends_forEach (I := fun _ => J) ?_ _ rt ⟨h, hg, hrun, ho⟩) ?_
  · rintro c rest rt₁ ⟨h₁, hg₁, hrun₁, ho₁⟩
    refine Act.ends_get ?_
    split
    · obtain hrun | ⟨p, hp, hm, hrun⟩ := @applyDrainedCompletionPolicy_cases rt₁ c
      · exact Act.ends_ok hrun ⟨h₁, hg₁, hrun₁, ho₁⟩
      · refine Act.ends_ok hrun ⟨h₁.finalizeRemovedChild c.key false, ?_⟩
        rw [lane_finalizeRemovedChild]
        refine ⟨hg₁.drop hp (by rw [hm]; decide), (drop_running _ _).trans hrun₁, ?_⟩
        unfold Lane.drop
        rw [hp]
        exact ho₁.filter _
    · exact Act.ends_ok rfl ⟨h₁, hg₁, hrun₁, ho₁⟩
  rintro _ rt₁ ⟨h₁, hg₁, hrun₁, ho₁⟩
  -- whatever the group token, the members leave the start sequence and are scheduled
  have hgo : ∀ rt₂ : SupervisorRuntime, rt₂.lane = rt₁.lane → rt₂.published = rt₁.published →
      Act.Ends (do
        Act.modify fun rt => { rt with startSequence := rt.startSequence.map fun s =>
          { queue := s.queue.filter fun item => !keys.contains item.key
            gate := s.gate.filter fun g => !keys.contains g.key } }
        scheduleStartSequence keys true
        pure (ds.filter (not ∘ fun c => keys.contains c.key)) : RuntimeM (List ClassifiedExit)) rt₂
        (fun es rt' => Judged S₀ es rt') (fun rt' => Judged S₀ [] rt') := by
    intro rt₂ h₂ hp₂
    refine Act.ends_modify_bind ?_
    let rt₃ : SupervisorRuntime := { rt₂ with startSequence := rt₂.startSequence.map fun s =>
      { queue := s.queue.filter fun item => !keys.contains item.key
        gate := s.gate.filter fun g => !keys.contains g.key } }
    let es := ds.filter (not ∘ fun c => keys.contains c.key)
    have hl : rt₃.lane = { rt₁.lane with
        queue := rt₁.lane.queue.filter fun item => !keys.contains item.key
        gate := rt₃.startGate } := by
      rw [← h₂]
      unfold lane rt₃ startQueue startGate
      cases rt₂.startSequence <;> rfl
    have hes : Judged S₀ es rt₁ := h₁.mono fun c hc => (List.mem_filter.mp hc).1
    have h₃ : Judged S₀ es rt₃ := by
      refine hes.move hp₂ ?_
      rw [hl]
      exact hes.frame rfl rfl rfl rfl rfl List.filter_sublist id
    have hs : Schedulable es true keys rt₃.lane := by
      refine ⟨hn, fun k hk item hi he => ?_, fun k hk c hc he => ?_, ?_, fun _ => ?_⟩
      · rw [hl] at hi
        have hno := (List.mem_filter.mp hi).2
        simp [he, hk] at hno
      · have hno := (List.mem_filter.mp hc).2
        simp [he, hk] at hno
      · intro hf
        cases hf
      · rw [hl]
        exact ⟨hrun₁, (hg₁.covered ho₁).frame rfl rfl rfl⟩
    refine Act.ends_bind ((scheduleStartSequence_judged h₃ hs).ends (Q := fun _ => Judged S₀ es) (fun _ _ _ h' => h')
      |>.weaken (fun _ _ h' => h') fun _ h' => h'.nil) fun _ rt' h' => Act.ends_ok rfl h'
  cases freshGroupToken with
  | false => exact hgo rt₁ rfl rfl
  | true => exact Act.ends_modify_bind (hgo { rt₁ with groupToken := false } rfl rfl)

/-- The exits handed back are applied to the children they are the latest exits of. -/
theorem applyDeferred_judged {es : List ClassifiedExit} (h : Judged S₀ es rt) :
    Act.Keeps (applyDeferred es) rt (Judged S₀ []) := by
  refine (Act.ends_forEach (I := fun rest rt' => Judged S₀ rest rt') ?_ es rt h).keeps (fun _ _ h' => h') fun _ h' => h'
  intro c rest rt₁ h₁
  have hrest : Judged S₀ rest rt₁ := h₁.mono fun c' hc => List.mem_cons_of_mem _ hc
  refine Act.ends_get ?_
  split
  · rename_i hm
    obtain ⟨e, he, hl, hgen⟩ := (currentChildMatches_iff (t := c.record)).mp hm
    refine ((applyExitPolicy_judged c hrest ?_).ends (Q := fun _ => Judged S₀ rest) fun _ _ _ h' => h').weaken
      (fun _ _ h' => h') fun _ h' => h'.nil
    intro p hp
    have hp' : rt₁.lane.posts c.key = some e.post := lane_get he
    rw [hp'] at hp
    cases hp
    exact ((h₁.latest c (List.mem_cons_self ..) e.post hp' hl).current hgen).2.2
  · exact Act.ends_ok rfl hrest

theorem finishRestart_judged {ds : List ClassifiedExit} {freshGroupToken : Bool} (hn : keys.Nodup) (ho : rt.lane.order.Nodup)
    (hrun : rt.lane.running = true) (h : Judged S₀ ds rt) (hg : rt.lane.Group keys freshGroupToken) :
    Act.Keeps (finishRestart keys freshGroupToken ds) rt (Judged S₀ []) := by
  unfold finishRestart
  refine (Act.ends_bind (respawnGroup_judged hn ho hrun h hg) fun es rt' h' => ?_).keeps
    (Q := fun _ => Judged S₀ []) (fun _ _ h' => h') fun _ h' => h'
  cases freshGroupToken with
  | true => exact Act.ends_ok rfl h'.nil
  | false => exact (applyDeferred_judged h').ends fun _ _ _ h' => h'

/-! ## Commands -/

theorem Lane.Sound.recommand {S : Nat → Turn → Prop} {L : Lane} {commands : List SupervisorCommand} (h : L.Sound S D)
    (hc : L.kind = .ordered → commands = []) : ({ L with commands := commands } : Lane).Sound S D :=
  { h with
    commands := hc
    fixed := fun k p hp t ht => ⟨(h.fixed k p hp t ht).1, (h.fixed k p hp t ht).2.frame id rfl id⟩ }

/-- A new membership is scheduled at once. -/
theorem installChild_judged {d : ChildDefinition} {nested : Option StableChannels} (hk : rt.cfg.kind = .dynamic)
    (hc : ¬ (d.kind.isSupervisor = true ∧ nested = none)) (hbooks : rt.ledger.Books) (hb : Below S₀ rt.ledger) (h : Judged S₀ [] rt) :
    Act.Keeps (installChild d nested) rt (Judged S₀ []) := by
  let key := rt.cfg.host.slabKey rt.children.keys
  let p := (ChildEntry.new d.id d nested rt.nextLineage (rt.cfg.host.seed rt.nextLineage)).post
  have hl : (rt.insertEntry d nested).lane = { rt.lane.put key p with order := rt.lane.order ++ [key] } :=
    lane_insertEntry d nested
  have hr : p.refuses = false := by
    show (d.kind.isSupervisor && nested.isNone) = false
    cases hs : d.kind.isSupervisor with
    | false => rfl
    | true =>
      cases hn : nested with
      | none => exact absurd ⟨hs, hn⟩ hc
      | some channels => rfl
  have hfresh : ∀ k q, rt.lane.posts k = some q → q.lineage ≠ p.lineage := by
    intro k q hq he
    obtain ⟨e, hget, rfl⟩ := get_of_lane hq
    have hlt : e.post.lineage < rt.nextLineage := hbooks.lineage_lt k e.member (ledger_get hget)
    rw [he] at hlt
    exact Nat.lt_irrefl _ hlt
  have hgo : ∀ rt₁ : SupervisorRuntime, rt₁.lane = (rt.insertEntry d nested).lane → rt₁.published = rt.published →
      Act.Keeps (do
        Act.mapError CommandFailure.ofExit (scheduleStartSequence [key] false)
        pure rt.nextLineage : CommandM Nat) (rt₁.sendLifecycle key .added) (Judged S₀ []) := by
    intro rt₁ h₁ hp₁
    have hj : Judged S₀ [] rt₁ := by
      refine h.move hp₁ ?_
      rw [h₁, hl]
      exact h.insert rfl rfl hk rfl rfl rfl hr rfl hfresh hb.fresh fun c hc => by cases hc
    have h₂ : (rt₁.sendLifecycle key .added).lane = { rt.lane.put key p with order := rt.lane.order ++ [key] } :=
      ((lane_sendLifecycle_quiet fun _ _ => rfl).trans h₁).trans hl
    have hs := hj.sendLifecycle key .added
    have hsched : Schedulable [] false [key] (rt₁.sendLifecycle key .added).lane := by
      refine ⟨List.nodup_singleton key, fun k _ item hi => ?_, fun k _ c hc => ?_, fun _ k hm q hq => ?_, ?_⟩
      · rw [hs.queue (congrArg Lane.kind h₂ |>.trans hk)] at hi
        cases hi
      · cases hc
      · rw [List.mem_singleton.mp hm, h₂] at hq
        have hq : (rt.lane.put key p).posts key = some q := hq
        rw [put_get, if_pos rfl] at hq
        cases hq
        rfl
      · intro he
        cases he
    have hend := Act.keeps_mapError (f := CommandFailure.ofExit) (scheduleStartSequence_judged hs hsched)
    exact Act.keeps_bind hend fun _ rt' hrun => Act.keeps_pure (hend.ok hrun)
  unfold installChild
  refine Act.keeps_get (Act.keeps_modify_bind ?_)
  cases nested with
  | none => exact hgo (rt.insertEntry d none) rfl rfl
  | some channels => exact hgo _ (lane_notify rfl) rfl

theorem completeCommand_judged {reply : Nat} {m : CommandM Nat} (h : Act.Keeps m rt (Judged S₀ D)) :
    Act.Keeps (completeCommand reply m) rt (Judged S₀ D) := by
  unfold Act.Keeps completeCommand
  unfold Act.Keeps at h
  generalize m rt = out at h
  obtain ⟨out, rt'⟩ := out
  cases out with
  | ok lineage => exact Judged.notify h rfl
  | error failure =>
    obtain ⟨error, exit⟩ := failure
    cases exit with
    | none => exact Judged.notify h rfl
    | some reason => exact Judged.notify h rfl

theorem removeChild_judged {id : String} {expectedLineage : Option Nat} {reply : Nat} (h : Judged S₀ D rt) :
    Act.Keeps (removeChild id expectedLineage reply) rt (Judged S₀ D) := by
  unfold removeChild
  refine Act.keeps_get ?_
  split
  · exact Act.keeps_modify (h.notify rfl)
  · rename_i key entry hk
    have hget : rt.children.get key = some entry := by
      obtain ⟨k, -, hk⟩ := Option.bind_eq_some_iff.mp hk
      obtain ⟨e, he, hp⟩ := Option.map_eq_some_iff.mp hk
      cases hp
      exact he
    split
    · exact Act.keeps_modify (h.notify rfl)
    · split
      · exact Act.keeps_modify (h.notify rfl)
      · have hbegin : Judged S₀ D (rt.beginRemoval key reply).publishSnapshot := by
          have hl : (rt.beginRemoval key reply).lane = rt.lane.put key entry.post.leave := lane_edit hget
          have hmoved : Judged S₀ D (rt.beginRemoval key reply) := by
            refine h.move rfl ?_
            rw [hl]
            exact h.toSound.removing (lane_get hget)
          exact hmoved.publish
        -- the member leaves the start sequence, and its scope at once if it had no task
        have hrest : ∀ (rt₁ : SupervisorRuntime) (last : RuntimeM Unit), Judged S₀ D rt₁ →
            (∀ rt₂ : SupervisorRuntime, Judged S₀ D rt₂ → Act.Keeps last rt₂ (Judged S₀ D)) →
            Act.Keeps (detachStartMember key entry.lineage >>= fun _ => last) rt₁ (Judged S₀ D) :=
          fun rt₁ last h₁ hlast =>
            Act.keeps_bind (detachStartMember_judged entry.lineage h₁) fun _ rt₂ hrun =>
              hlast rt₂ ((detachStartMember_judged entry.lineage h₁).ok hrun)
        refine Act.keeps_modify_bind ?_
        split
        · split
          · exact Act.keeps_modify_bind (hrest _ _ (hbegin.quiet (ledger_abortChild key) (lane_abortChild key)) fun _ h₂ => Act.keeps_pure h₂)
          · exact Act.keeps_modify_bind (hrest _ _ (hbegin.quiet (ledger_cancelChild key) (lane_cancelChild key)) fun _ h₂ => Act.keeps_pure h₂)
        · exact hrest _ _ hbegin fun rt₂ h₂ => Act.keeps_modify (h₂.finalizeRemovedChild key false)

theorem handleCommand_judged (command : SupervisorCommand) (hk : rt.cfg.kind = .dynamic) (hbooks : rt.ledger.Books)
    (hb : Below S₀ rt.ledger) (h : Judged S₀ [] rt) : Act.Keeps (handleCommand command) rt (Judged S₀ []) := by
  cases command with
  | addChild child isTask reply =>
    refine completeCommand_judged ?_
    unfold addChild
    refine Act.keeps_get ?_
    simp only
    split
    · exact Act.keeps_fail h
    · refine installChild_judged hk (fun hc => ?_) hbooks hb h
      rw [show (child.applyDefaults _ _).kind.isSupervisor = child.kind.isSupervisor from rfl, isTask] at hc
      cases hc.1
  | removeChild id expectedLineage reply => exact removeChild_judged h
  | addNested child isNested reply =>
    refine completeCommand_judged ?_
    unfold addNested
    refine Act.keeps_get ?_
    simp only
    split
    · exact Act.keeps_modify_bind (Act.keeps_fail (h.notify rfl))
    · exact Act.keeps_fail h
    · refine installChild_judged hk (fun hc => ?_) hbooks hb h
      cases hc.2
    · exact Act.keeps_fail h

/-! ## Deadlines -/

theorem step_kind {l : Label} {L L' : Ledger} (hs : Step l L L') : L'.kind = L.kind := by
  cases hs <;> rfl

theorem drainDeadlineCommandBatch_judged (commands : List SupervisorCommand) (hk : commands ≠ [] → rt.cfg.kind = .dynamic)
    (ho : rt.ledger.Open) (hbooks : rt.ledger.Books) (hb : Below S₀ rt.ledger) (h : Judged S₀ [] rt) :
    Act.Keeps (drainDeadlineCommandBatch commands) rt (Judged S₀ []) := by
  induction commands generalizing rt with
  | nil =>
    unfold drainDeadlineCommandBatch
    refine Act.keeps_get ?_
    split
    · exact Act.keeps_fail h
    · refine Act.keeps_modify ?_
      split
      · exact h.still rfl rfl
      · exact h
  | cons command rest ih =>
    unfold drainDeadlineCommandBatch
    refine Act.keeps_get ?_
    split
    · exact Act.keeps_fail h
    · refine Act.keeps_modify_bind ?_
      let rt₁ : SupervisorRuntime := { rt with commandRx := rest }
      have hk₁ : rt₁.cfg.kind = .dynamic := hk (List.cons_ne_nil _ _)
      have h₁ : Judged S₀ [] rt₁ := h.move rfl (h.recommand fun ho => by
        rw [show rt.lane.kind = .dynamic from hk₁] at ho
        cases ho)
      have hcommand := handleCommand_judged command hk₁ hbooks hb h₁
      have hlead := @handleCommand_leads rt₁ command ho
      refine Act.keeps_bind hcommand fun _ rt' hrun => ?_
      rw [hrun] at hlead
      refine ih (fun _ => ?_) (leads_open (fun _ => Commands.not_shutdown) hlead ho) (path_books hlead hbooks)
        (hb.leads hbooks hlead) (hcommand.ok hrun)
      exact Path.keeps (I := fun L => L.kind = .dynamic) (fun _ hs hL => (step_kind hs).trans hL) hlead hk₁

theorem dropWhile_ne_cons {key : ChildKey} {order : List ChildKey} (h : key ∈ order) :
    ∃ rest, order.dropWhile (· ≠ key) = key :: rest := by
  induction order with
  | nil => cases h
  | cons k order ih =>
    by_cases hk : k = key
    · exact ⟨order, by rw [List.dropWhile_cons_of_neg (by simpa using hk), hk]⟩
    · obtain ⟨rest, hr⟩ := ih ((List.mem_cons.mp h).resolve_left (Ne.symm hk))
      exact ⟨rest, by rw [List.dropWhile_cons_of_pos (by simpa using hk), hr]⟩

/-- The group of a child that is due: all of them, or those declared from it on. -/
theorem restartScope_group {key : ChildKey} {e : ChildEntry} (hn : rt.childOrder.Nodup) (hget : rt.children.get key = some e)
    (hmem : key ∈ rt.childOrder) (hm : e.membership = .active) (hst : e.runtime.state = .stopped)
    (hwants : e.post.wantsRestart = true) (hs : rt.cfg.strategy ≠ .oneForOne) :
    ∃ keys, rt.restartScope key (rt.cfg.strategy = .oneForAll) = some keys ∧
      rt.lane.Group keys (rt.cfg.strategy = .oneForAll) := by
  unfold restartScope
  rw [hget]
  by_cases hall : rt.cfg.strategy = .oneForAll
  · exact ⟨rt.childOrder, by simp [hm, hall], by simpa [hall] using Group.all hall⟩
  · have hrest : rt.cfg.strategy = .restForOne := by
      cases hstr : rt.cfg.strategy with
      | oneForOne => exact absurd hstr hs
      | oneForAll => exact absurd hstr hall
      | restForOne => rfl
    obtain ⟨rest, hdrop⟩ := dropWhile_ne_cons hmem
    have hsplit : rt.childOrder = rt.childOrder.takeWhile (· ≠ key) ++ key :: rest := by
      rw [← hdrop]
      exact (List.takeWhile_append_dropWhile ..).symm
    refine ⟨key :: rest, by simp [hm, hall, hmem, ← hdrop], ?_⟩
    rw [decide_eq_false hall]
    refine .rest hrest hsplit (fun k hk => ?_) (lane_get hget) hm hst hwants
    rw [hsplit] at hn
    obtain ⟨-, hn', hdis⟩ := List.nodup_append.mp hn
    exact ⟨fun hp => hdis k hp k (List.mem_cons_of_mem _ hk) rfl, fun he => (List.nodup_cons.mp hn').1 (he ▸ hk)⟩

theorem restartAll_judged (due : List ChildKey) (h : Judged S₀ D rt) :
    Act.Keeps (Act.forEach due SupervisorRuntime.restartOne) rt (Judged S₀ D) :=
  (Act.ends_forEach (I := fun _ => Judged S₀ D) (fun _ _ _ h₁ => (restartOne_judged h₁).ends fun _ _ _ h₂ => h₂) due rt h).keeps
    (fun _ _ h' => h') fun _ h' => h'

theorem handleDeadlines_judged (hb : rt.ledger.Books) (h : Judged S₀ [] rt) :
    Act.Ends handleDeadlines rt
      (fun group rt' => Judged S₀ [] rt' ∧ ∀ keys, group = some keys → rt'.lane.Group keys (rt'.cfg.strategy = .oneForAll))
      (fun rt' => Judged S₀ [] rt') := by
  let rt₂ := rt.serveRemovals
  have hl : rt₂.lane = rt.lane :=
    (lane_foldl (fun _ k => lane_hardAbortRemoval k) _).trans (lane_foldl (fun _ (x : ChildKey × Duration) => lane_expireRemoval x.1 x.2) _)
  have hled : rt₂.ledger = rt.ledger :=
    (ledger_foldl (fun _ k => ledger_hardAbortRemoval k) _ _).trans
      (ledger_foldl (fun _ (x : ChildKey × Duration) => ledger_expireRemoval x.1 x.2) _ _)
  have h₂ : Judged S₀ [] rt₂ := h.quiet hled hl
  have hn : rt₂.childOrder.Nodup := by
    have hn' : rt₂.ledger.order.Nodup := hled.symm ▸ hb.order_nodup
    exact hn'
  unfold Act.Ends
  rw [handleDeadlines_eq]
  by_cases hdown : rt.shutdownRequested = true
  · rw [if_pos hdown]
    exact h
  rw [if_neg hdown]
  show Act.Ends (serveRestarts rt₂) rt₂ (fun group rt' => Judged S₀ [] rt' ∧ ∀ keys, group = some keys →
    rt'.lane.Group keys (rt'.cfg.strategy = .oneForAll)) (fun rt' => Judged S₀ [] rt')
  unfold serveRestarts
  split
  · refine Act.ends_bind ((restartAll_judged _ h₂).ends (Q := fun _ => Judged S₀ []) fun _ _ _ h' => h') fun _ rt' h' => ?_
    exact Act.ends_ok rfl ⟨h', fun keys hk => by cases hk⟩
  · exact Act.ends_ok rfl ⟨h₂, fun keys hk => by cases hk⟩
  · rename_i key rest hdue hne
    have hm : key ∈ rt₂.dueRestarts := by
      rw [hdue]
      exact List.mem_cons_self ..
    obtain ⟨hmem, hc⟩ := List.mem_filter.mp hm
    obtain ⟨e, he, hc⟩ := (Option.any_eq_true _ _).mp hc
    simp only [Bool.and_eq_true, decide_eq_true_eq] at hc
    obtain ⟨⟨hact, hst⟩, hd⟩ := hc
    have hdue' : e.post.due = true := by
      obtain ⟨d, hd, -⟩ := (Option.any_eq_true _ _).mp hd
      simp [ChildEntry.post, hd]
    let rt₃ := rt₂.editRuntime key fun r => { r with nextRestartDeadline := none }
    have he₃ : rt₃.children.get key = some { e with runtime := { e.runtime with nextRestartDeadline := none } } := get_edit he
    obtain ⟨keys, hscope, hgroup⟩ := @restartScope_group rt₃ key _ hn he₃ hmem hact hst (h₂.wants key e.post (lane_get he) hdue') hne
    refine Act.ends_ok (?_ : _ = (Except.ok (some keys), rt₃)) ⟨h₂.edit he (h₂.unschedule (lane_get he)), ?_⟩
    · exact congrArg (fun r => (Except.ok r, rt₃)) hscope
    · intro keys' hk
      cases hk
      exact hgroup

/-! ## Leaving the loop -/

theorem endShutdown_judged (after : ExitReason) (result : Except SupervisorError Unit) (h : Judged S₀ [] rt) :
    (endShutdown after result rt).phase.Sealed S₀ (endShutdown after result rt).rt := by
  have hend : ∀ failure, Judged S₀ [] (rt.resolvePendingRemovals failure).finalizeStableChannels := fun failure =>
    h.quiet (ledger_finalizeStableChannels.trans (ledger_resolvePendingRemovals failure))
      (lane_finalizeStableChannels.trans (lane_resolvePendingRemovals failure))
  unfold endShutdown
  split
  · exact hend none
  · exact hend _

/-- The scope stops. -/
theorem Judged.stop (h : Judged S₀ D rt) {state : SupervisorState} (hs : state ≠ .running) (token : Bool) :
    Judged S₀ D { rt with state := state, stoppingToken := token } := by
  refine h.move rfl ?_
  refine h.toSound.frame rfl rfl rfl rfl rfl (List.Sublist.refl _) fun hr => ?_
  exact absurd (of_decide_eq_true hr) hs

theorem resumeShutdown_judged (after : ExitReason) (out : DrainOut) (h : Judged S₀ [] rt) :
    (resumeShutdown after (out, rt)).phase.Sealed S₀ (resumeShutdown after (out, rt)).rt := by
  cases out with
  | await p => exact h
  | done result =>
    cases result with
    | error e => exact endShutdown_judged after _ h
    | ok ds => exact endShutdown_judged after _ ((h.stop (by decide) rt.stoppingToken).sendSupervisorEvent _)

theorem exitWith_judged (reason : ExitReason) (h : Judged S₀ [] rt) :
    (exitWith reason rt).phase.Sealed S₀ (exitWith reason rt).rt := by
  have hshut : ∀ after, (shutdownAll after rt).phase.Sealed S₀ (shutdownAll after rt).rt := by
    intro after
    unfold shutdownAll
    refine resumeShutdown_judged after _ (Judged.halts ?_ (published_startDrain .shutdown .all) (startDrain_halts .shutdown .all))
    exact (h.stop (by decide) true).sendSupervisorEvent _
  have hend : ∀ (rt' : SupervisorRuntime) failure, Judged S₀ [] rt' →
      Judged S₀ [] (rt'.resolvePendingRemovals failure).finalizeStableChannels := fun rt' failure h' =>
    h'.quiet (ledger_finalizeStableChannels.trans (ledger_resolvePendingRemovals failure))
      (lane_finalizeStableChannels.trans (lane_resolvePendingRemovals failure))
  unfold exitWith
  split
  · exact hshut _
  · exact hshut _
  · refine hend _ _ ?_
    split
    · exact h.quiet ledger_detachNested lane_detachNested
    · exact h

theorem continueMain_judged {m : RuntimeM Unit} (h : Act.Keeps m rt (Judged S₀ [])) :
    (continueMain m rt).phase.Sealed S₀ (continueMain m rt).rt := by
  unfold continueMain
  unfold Act.Keeps at h
  generalize m rt = out at h
  obtain ⟨out, rt'⟩ := out
  cases out with
  | ok _ => exact h
  | error e => exact exitWith_judged e h

/-! ## Group restarts -/

/-- What a drain answers to a restart. -/
theorem resumeRestart_judged {scope : DrainScope} {ds : List ClassifiedExit} {freshGroupToken : Bool} {out : DrainOut}
    (hn : keys.Nodup) (ho : rt.lane.order.Nodup) (hrun : rt.lane.running = true)
    (hscope : scope = if freshGroupToken then .all else .subset keys) (hgood : out.Good scope ds rt.ledger)
    (h : Judged S₀ ds rt) (hg : rt.lane.Group keys freshGroupToken) :
    (resumeRestart keys freshGroupToken (out, rt)).phase.Sealed S₀ (resumeRestart keys freshGroupToken (out, rt)).rt := by
  cases out with
  | await p =>
    obtain ⟨hs, hd, -⟩ := hgood
    refine ⟨hs.trans hscope, ?_, hg⟩
    rw [hd]
    exact h
  | done result =>
    cases result with
    | error e => exact exitWith_judged _ h.nil
    | ok completed =>
      obtain ⟨rfl, -⟩ := hgood
      exact continueMain_judged (finishRestart_judged hn ho hrun h hg)

theorem deadlineBatch_judged (hb : rt.ledger.Books) (ho : rt.ledger.Open) (hbelow : Below S₀ rt.ledger) (h : Judged S₀ [] rt) :
    (deadlineBatch rt).phase.Sealed S₀ (deadlineBatch rt).rt := by
  obtain ⟨hlead, hkeys⟩ := deadlineBatch_runs ho
  have hcommands : rt.commandRx ≠ [] → rt.cfg.kind = .dynamic := by
    intro hne
    cases hk : rt.cfg.kind with
    | ordered => exact absurd (h.commands hk) hne
    | dynamic => rfl
  have hleads := drainDeadlineCommandBatch_leads rt.commandRx ho
  have hbatch := drainDeadlineCommandBatch_judged rt.commandRx hcommands ho hb hbelow h
  have hends := Act.ends_bind (hbatch.ends (Q := fun _ rt' => Judged S₀ [] rt' ∧ rt'.ledger.Books) fun _ rt' hrun h' => by
    rw [hrun] at hleads
    exact ⟨h', path_books hleads hb⟩) fun _ rt' h' => handleDeadlines_judged h'.2 h'.1
  unfold deadlineBatch
  simp only
  obtain ⟨r, rt₁, hrun, h₁, hr⟩ | ⟨e, rt₁, hrun, h₁⟩ := hends.cases
  · rw [hrun] at hlead hkeys ⊢
    have hb₁ : rt₁.ledger.Books := path_books hlead hb
    have ho₁ : rt₁.ledger.Open := leads_open (fun _ => Commands.not_shutdown) hlead ho
    cases r with
    | none => exact h₁
    | some keys =>
      have hg := hr keys rfl
      have hn : keys.Nodup := (hkeys _ _ rfl keys rfl).nodup hb₁.order_nodup
      simp only
      split
      · rename_i hall
        have hhalt := @startDrain_halts rt₁ .groupRestart .all
        rw [decide_eq_true hall] at hg
        exact resumeRestart_judged hn (hhalt.order ▸ hb₁.order_nodup) (hhalt.running ▸ ho₁.running) rfl (startDrain_good hb₁ (by decide))
          (h₁.halts (published_startDrain _ _) hhalt) (hg.halts hhalt)
      · rename_i hall
        have hhalt := @startDrain_halts rt₁ .restForOneRestart (.subset keys)
        rw [decide_eq_false hall] at hg
        exact resumeRestart_judged hn (hhalt.order ▸ hb₁.order_nodup) (hhalt.running ▸ ho₁.running) rfl (startDrain_good hb₁ (by decide))
          (h₁.halts (published_startDrain _ _) hhalt) (hg.halts hhalt)
  · rw [hrun]
    exact exitWith_judged e h₁

/-! ## Wakes -/

theorem wakeMain_judged (w : Wake) (hb : rt.ledger.Books) (hbelow : Below S₀ rt.ledger) (h : Judged S₀ [] rt) :
    (wakeMain rt w).phase.Sealed S₀ (wakeMain rt w).rt := by
  cases w with
  | shutdown =>
    unfold wakeMain
    simp only
    split
    · exact exitWith_judged .shutdown h
    · exact h
  | command =>
    unfold wakeMain
    simp only
    split
    · rename_i command rest _ hc
      have hk : rt.cfg.kind = .dynamic := by
        cases hk : rt.cfg.kind with
        | ordered =>
          have hnil := h.commands hk
          rw [show rt.lane.commands = rt.commandRx from rfl, hc] at hnil
          cases hnil
        | dynamic => rfl
      let rt₁ : SupervisorRuntime := { rt with commandRx := rest }
      have h₁ : Judged S₀ [] rt₁ := h.move rfl (h.recommand fun ho => by
        rw [show rt.lane.kind = .dynamic from hk] at ho
        cases ho)
      exact continueMain_judged (@handleCommand_judged S₀ rt₁ command hk hb hbelow h₁)
    · show Judged S₀ [] _
      split
      · exact h.still rfl rfl
      · exact h
    · exact h
  | ready =>
    unfold wakeMain
    simp only
    split
    · rename_i ready rest _
      have h' : Judged S₀ [] { rt with readyRx := rest } := h.still rfl rfl
      exact continueMain_judged (handleChildReady_judged ready h')
    · exact h
  | nestedSnapshot =>
    unfold wakeMain
    simp only
    split
    · rename_i n rest _
      have h' : Judged S₀ [] { rt with nestedRx := rest } := h.still rfl rfl
      exact h'.handleNestedSnapshot n
    · exact h
  | deadline =>
    unfold wakeMain
    simp only
    split
    · exact h
    · exact h
  | joined task =>
    unfold wakeMain
    simp only
    split
    · rename_i c _
      exact continueMain_judged (handleJoinedChild_judged task c hb h)
    · exact h
  | timer => exact h
  | resumed => exact h
  | noJoin => exact h

/-- The exit of a child that was active is its latest. -/
theorem Lane.Sound.exit_latest {S : Nat → Turn → Prop} {L : Lane} {key : ChildKey} {p : Post} (h : L.Sound S D) (hget : L.posts key = some p)
    (hact : p.state.isActive = true) (status : RuntimeExitStatus) :
    (L.exit key status.view).Latest ⟨key, p.lineage, p.generation, status⟩ := by
  intro q hq _
  rw [exit_get hget, if_pos rfl] at hq
  cases hq
  exact ⟨Nat.le_refl _, fun _ => ⟨rfl, h.begun key p hget hact, rfl⟩⟩

theorem handleJoinForScope_still_judged {task : TaskId} (c : Conclusion) (scope : DrainScope) (cursor : Option ChildKey)
    (hb : rt.ledger.Books) (h : Judged S₀ D rt) : Act.Keeps (handleJoinForScope task c scope cursor) rt (Judged S₀ D) := by
  have hc := @consumeJoinedChild_cases rt task c
  unfold handleJoinForScope Act.Keeps
  rw [Act.run_bind]
  generalize consumeJoinedChild task c rt = r at hc
  obtain ⟨r, rt₁⟩ := r
  cases hc with
  | lost _ => exact h.still rfl rfl
  | stale _ _ => exact h.still rfl rfl
  | @current t e status ht he hl hg =>
    let rt₁ : SupervisorRuntime := { rt.unlinked task with liveTasks := rt.liveTasks - 1 }
    have he₁ : rt₁.children.get t.key = some e := he
    have h₁ : Judged S₀ D rt₁ := h.still rfl rfl
    have h₂ := h₁.recordExit he₁ (active_of_books hb ht he hl) t.generation status
    refine Act.keeps_modify_bind (Act.keeps_get ?_)
    split
    · exact Act.keeps_pure h₂
    · split
      · exact Act.keeps_modify_bind (Act.keeps_pure (h₂.finalizeRemovedChild t.key true))
      · simp only
        split
        · exact Act.keeps_pure h₂
        · exact Act.keeps_pure h₂

/-- A join in a drain: the exit may be handed back, and is then its child's latest. -/
theorem handleJoinForScope_judged {task : TaskId} (c : Conclusion) (scope : DrainScope) (cursor : Option ChildKey)
    (hb : rt.ledger.Books) (h : Judged S₀ D rt) :
    (∀ exits, (handleJoinForScope task c scope cursor rt).1 = .ok exits →
        Judged S₀ (D ++ exits) (handleJoinForScope task c scope cursor rt).2) ∧
      ∀ {freshGroupToken}, rt.lane.Group keys freshGroupToken →
        (handleJoinForScope task c scope cursor rt).2.lane.Group keys freshGroupToken := by
  have h' : Judged S₀ D (handleJoinForScope task c scope cursor rt).2 := handleJoinForScope_still_judged c scope cursor hb h
  rcases handleJoinForScope_lane task c scope cursor hb with
    ⟨hl, hout⟩ | ⟨key, p, status, hget, hact, ⟨hm, hout, hl⟩ | ⟨-, hl, hout⟩⟩
  · refine ⟨fun exits hr => ?_, fun hg => hl ▸ hg⟩
    rcases hout with hout | ⟨err, hout⟩
    · rw [hr] at hout
      cases hout
      rwa [List.append_nil]
    · rw [hr] at hout
      cases hout
  · have hget' : (rt.lane.exit key status.view).posts key = some (p.exit status.view) := by
      rw [exit_get hget, if_pos rfl]
    refine ⟨fun exits hr => ?_, fun hg => hl ▸ (hg.exit hget hact _).drop hget' ?_⟩
    · rw [hr] at hout
      cases hout
      rwa [List.append_nil]
    · show p.membership ≠ .active
      rw [hm]
      decide
  · refine ⟨fun exits hr => ?_, fun hg => hl ▸ hg.exit hget hact _⟩
    rcases hout with ⟨hout, -⟩ | hout
    · rw [hr] at hout
      cases hout
      rwa [List.append_nil]
    · rw [hr] at hout
      cases hout
      refine { h' with latest := fun c hc => ?_ }
      rcases List.mem_append.mp hc with hc | hc
      · exact h'.latest c hc
      · rw [List.mem_singleton.mp hc, hl]
        exact h.toSound.exit_latest hget hact status

theorem drainJoined_shutdown_judged {p : DrainPhase} {task : TaskId} (c : Conclusion) (hb : rt.ledger.Books)
    (h : Judged S₀ [] rt) : Judged S₀ [] (drainJoined p task c rt).2 := by
  obtain ⟨cursor, hok, herr⟩ := @drainJoined_cases rt p task c
  have h' : Judged S₀ [] (handleJoinForScope task c p.scope cursor rt).2 := handleJoinForScope_still_judged c p.scope cursor hb h
  cases hr : (handleJoinForScope task c p.scope cursor rt).1 with
  | ok exits =>
    rw [hok exits hr]
    exact h'.halts (published_rejoined _) (rejoined_halts (deferring_stopping p.stopping_all) _)
  | error err =>
    rw [(herr err hr).1]
    exact h'

theorem wakeDrain_shutdown_judged {p : DrainPhase} {after : ExitReason} (w : Wake) (hb : rt.ledger.Books) (h : Judged S₀ [] rt) :
    (wakeDrain rt p (.shutdown after) w).phase.Sealed S₀ (wakeDrain rt p (.shutdown after) w).rt := by
  cases w with
  | joined task =>
    unfold wakeDrain
    simp only
    split
    · exact h
    · exact h
    · exact h
    · exact resumeShutdown_judged after _ (drainJoined_shutdown_judged _ hb h)
    · exact h
  | timer => exact resumeShutdown_judged after _ (h.halts (published_drainTimer p) (drainTimer_halts p.stopping_all))
  | resumed => exact resumeShutdown_judged after _ (h.halts (published_drainResumed p) (drainResumed_halts p.stopping_all))
  | noJoin => exact resumeShutdown_judged after _ (h.halts (published_drainNoJoin p) (drainNoJoin_halts p.stopping_all))
  | _ => exact h

section Restart

variable {p : DrainPhase} {freshGroupToken : Bool} (hb : rt.ledger.Books) (hinv : (Continuation.restart keys freshGroupToken).Inv p rt.ledger)
  (hscope : p.scope = if freshGroupToken then .all else .subset keys) (h : Judged S₀ p.deferred rt)
  (hg : rt.lane.Group keys freshGroupToken)

include hb hinv hscope h hg

theorem drainJoined_restart_judged {task : TaskId} (c : Conclusion) (hj : task ∈ rt.joinSet.map (·.id)) :
    (resumeRestart keys freshGroupToken (drainJoined p task c rt)).phase.Sealed S₀
      (resumeRestart keys freshGroupToken (drainJoined p task c rt)).rt := by
  obtain ⟨cursor, hok, herr⟩ := @drainJoined_cases rt p task c
  have hpath := handleJoinForScope_path c p.scope cursor hj hb
  have h₁ : Judged S₀ p.deferred (handleJoinForScope task c p.scope cursor rt).2 := handleJoinForScope_still_judged c p.scope cursor hb h
  obtain ⟨h₂, hg'⟩ := @handleJoinForScope_judged S₀ p.deferred rt keys task c p.scope cursor hb h
  have hg₁ := hg' hg
  have hb₁ := path_books hpath hb
  have ho₁ : (handleJoinForScope task c p.scope cursor rt).2.ledger.Open := by
    refine hpath.keeps_open ?_ hinv.1
    rintro l (rfl | ⟨t, failed, rfl⟩) he
    · cases he
    · cases he
  cases hr : (handleJoinForScope task c p.scope cursor rt).1 with
  | ok exits =>
    have hprog : (deferring p exits).Progress (handleJoinForScope task c p.scope cursor rt).2.ledger := by
      refine progress_path exits ?_ hpath hinv.2.1.progress
      rintro l k (rfl | ⟨t, failed, rfl⟩) hl
      · cases hl
      · cases hl
    have hgood := rejoined_good hb₁ hprog
    have hhalt := rejoined_halts hprog.stopping (handleJoinForScope task c p.scope cursor rt).2
    rw [deferring_scope, deferring_deferred] at hgood
    rw [hok exits hr]
    exact resumeRestart_judged hinv.2.2.1 (hhalt.order ▸ hb₁.order_nodup) (hhalt.running ▸ ho₁.running) hscope hgood
      ((h₂ exits hr).halts (published_rejoined _) hhalt) (hg₁.halts hhalt)
  | error err =>
    obtain ⟨hrt, hout⟩ := herr err hr
    generalize drainJoined p task c rt = out at hrt hout
    obtain ⟨out, rt₂⟩ := out
    have hrt : rt₂ = (handleJoinForScope task c p.scope cursor rt).2 := hrt
    rw [← hrt] at h₁ hg₁
    rcases hout with ⟨e, hout⟩ | hout
    · have hout : out = .done (.error e) := hout
      rw [hout]
      exact exitWith_judged _ h₁.nil
    · have hout : out = .await p := hout
      rw [hout]
      exact ⟨hscope, h₁, hg₁⟩

theorem wakeDrain_restart_judged (w : Wake) :
    (wakeDrain rt p (.restart keys freshGroupToken) w).phase.Sealed S₀ (wakeDrain rt p (.restart keys freshGroupToken) w).rt := by
  have hprog := hinv.2.1.progress
  have hstay : (⟨rt, .drain p (.restart keys freshGroupToken)⟩ : Machine).phase.Sealed S₀ rt := ⟨hscope, h, hg⟩
  have hout : ∀ {out : DrainOut × SupervisorRuntime}, out.1.Good p.scope p.deferred out.2.ledger →
      out.2.published = rt.published → Halts p.scope rt.lane out.2.lane →
      (resumeRestart keys freshGroupToken out).phase.Sealed S₀ (resumeRestart keys freshGroupToken out).rt :=
    fun hgood hp hhalt => resumeRestart_judged hinv.2.2.1 (hhalt.order ▸ hb.order_nodup) (hhalt.running ▸ hinv.1.running) hscope hgood
      (h.halts hp hhalt) (hg.halts hhalt)
  cases w with
  | joined task =>
    unfold wakeDrain
    simp only
    split
    · exact hstay
    · exact hstay
    · exact hstay
    · rename_i hc
      exact drainJoined_restart_judged hb hinv hscope h hg _ (mem_of_joinable hc)
    · exact hstay
  | timer => exact hout (drainTimer_good hb hprog) (published_drainTimer p) (drainTimer_halts hprog.stopping)
  | resumed => exact hout (drainResumed_good hb hprog) (published_drainResumed p) (drainResumed_halts hprog.stopping)
  | noJoin => exact hout (drainNoJoin_good hb hprog) (published_drainNoJoin p) (drainNoJoin_halts hprog.stopping)
  | _ => exact hstay

end Restart

/-! ## Runs -/

/-- The environment changes the commands only. -/
theorem env_commands (e : EnvStep) : (rt.env e).lane = { rt.lane with commands := (rt.env e).commandRx } := by
  cases e with
  | submit command =>
    unfold env
    simp only
    split <;> rfl
  | markReady r =>
    unfold env
    simp only
    split <;> rfl
  | forward spawn snapshot =>
    unfold env forwardSnapshot
    simp only
    split <;> rfl
  | conclude task c =>
    unfold env
    simp only
    split
    · rfl
    · split
      · rfl
      · split
        · have hc : (rt.markClean task).commandRx = rt.commandRx := congrArg Lane.commands (lane_markClean task)
          show (rt.markClean task).lane = { rt.lane with commands := (rt.markClean task).commandRx }
          rw [lane_markClean, hc]
          rfl
        · rfl
  | settle task =>
    unfold env
    simp only
    split <;> rfl
  | _ => rfl

theorem published_env (e : EnvStep) : (rt.env e).published = rt.published := by
  cases e with
  | submit command =>
    unfold env
    simp only
    split <;> rfl
  | markReady r =>
    unfold env
    simp only
    split <;> rfl
  | forward spawn snapshot =>
    unfold env forwardSnapshot
    simp only
    split <;> rfl
  | conclude task c =>
    unfold env
    simp only
    split
    · rfl
    · split
      · rfl
      · split
        · exact congrArg Ledger.published (ledger_markClean task)
        · rfl
  | settle task =>
    unfold env
    simp only
    split <;> rfl
  | _ => rfl

theorem env_judged {m : Machine} (e : EnvStep) (h : m.phase.Sealed S₀ m.rt) : m.phase.Sealed S₀ (m.rt.env e) := by
  have hl := @env_commands m.rt e
  have hre : ∀ {D}, Judged S₀ D m.rt → Judged S₀ D (m.rt.env e) := fun h => h.move (published_env e) (by
    by_cases hk : m.rt.cfg.kind = .ordered
    · rw [env_lane e hk]
      exact h.toSound
    · rw [hl]
      exact h.toSound.recommand fun ho => absurd ho hk)
  cases hp : m.phase with
  | drain p k =>
    rw [hp] at h
    cases k with
    | restart keys freshGroupToken =>
      obtain ⟨hscope, h, hg⟩ := h
      refine ⟨hscope, hre h, ?_⟩
      rw [hl]
      exact hg.frame rfl (fun _ => false) (by simp) fun k p hget _ _ => ⟨rfl, hget⟩
    | shutdown after => exact hre h
  | main =>
    rw [hp] at h
    exact hre h
  | deadlineYield =>
    rw [hp] at h
    exact hre h
  | exited result =>
    rw [hp] at h
    exact hre h

theorem step_sealed {m : Machine} (i : Input) (hinv : m.Inv) (h : m.Sealed S₀) : (step m i).Sealed S₀ where
  below := (step_inv i hinv).2.keeps hinv.books (fun _ hs hb h => step_below hs hb h) h.below
  phase := by
    obtain ⟨rt, phase⟩ := m
    obtain ⟨hb, hp⟩ := hinv
    obtain ⟨hbelow, h⟩ := h
    cases i with
    | env e => exact env_judged (m := ⟨rt, phase⟩) e h
    | wake w =>
      cases phase with
      | main => exact wakeMain_judged w hb hbelow h
      | deadlineYield =>
        unfold step wake
        simp only
        split
        · exact deadlineBatch_judged hb hp.1 hbelow h
        · exact h
      | drain p k =>
        cases k with
        | restart keys freshGroupToken =>
          obtain ⟨hscope, h, hg⟩ := h
          exact wakeDrain_restart_judged hb hp hscope h hg w
        | shutdown after => exact wakeDrain_shutdown_judged w hb h
      | exited result => exact h

theorem run_sealed {m : Machine} (inputs : List Input) (hinv : m.Inv) (h : m.Sealed S₀) : (run m inputs).Sealed S₀ := by
  induction inputs generalizing m with
  | nil => exact h
  | cons i inputs ih => exact ih (step_inv i hinv).1 (step_sealed i hinv h)

/-- Nobody is sealed when the scope starts. -/
def nobody (_ : Nat) (_ : Turn) : Prop := False

theorem new_judged (c : SupervisorConfig) (b : Binding) : Judged nobody [] (.new c b) := by
  obtain ⟨hblank, -⟩ := new_blank c b
  obtain ⟨posts, order, hl⟩ := new_lane c b
  have hunused := fun k p hp => ((new_seated c b).seated k p hp).2
  have hbooks := hblank.books
  have hnone : (SupervisorRuntime.new c b).published = [] := hblank.published_eq
  have hproper : (SupervisorRuntime.new c b).lane.Proper := by
    constructor
    case willing => exact willing_of_books hbooks
    case present =>
      intro k p hp
      rw [(hunused k p hp).membership_eq]
      decide
    case commands =>
      intro _
      rw [hl]
    case queue =>
      intro _
      rw [hl]
    case nodup =>
      rw [hl]
      exact List.nodup_nil
    case known =>
      intro k hk
      obtain ⟨m, hm⟩ := (hbooks.order_mem k).mp hk
      cases he : (SupervisorRuntime.new c b).children.get k with
      | none =>
        rw [ledger_get_none he] at hm
        cases hm
      | some e =>
        rw [lane_get he]
        rfl
    case inj =>
      intro k p k' p' hp hp' he
      obtain ⟨e, hget, rfl⟩ := get_of_lane hp
      obtain ⟨e', hget', rfl⟩ := get_of_lane hp'
      exact hbooks.lineage_inj k e.member k' e'.member (ledger_get hget) (ledger_get hget') he
    case begun =>
      intro k p hp ha
      rw [(hunused k p hp).state_eq] at ha
      cases ha
    case left =>
      intro k p hp hx
      rw [(hunused k p hp).lastExit_eq] at hx
      cases hx
  constructor
  case toSound =>
    refine ⟨hproper, fun item hi => ?_, fun k p hp hd => ?_, fun k p hp _ => ?_, ?_, fun c hc => ?_⟩
    · rw [hl] at hi
      cases hi
    · rw [(hunused k p hp).due_eq] at hd
      cases hd
    · obtain ⟨e, he, rfl⟩ := get_of_lane hp
      refine ⟨(hblank.fresh k e.member (ledger_get he)).generation_eq, fun hs => ?_⟩
      rw [(hunused k e.post hp).hasStarted_eq] at hs
      cases hs
    · rintro k p - t (ht | ⟨s, hs, -⟩)
      · exact absurd ht id
      · rw [hnone] at hs
        cases hs
    · cases hc
  case shown =>
    rw [hnone]
    intro s hs
    cases hs
  case repeats =>
    rw [hnone]
    exact List.Pairwise.nil

theorem Judged.foldl {α : Type} {f : SupervisorRuntime → α → SupervisorRuntime} (hf : ∀ rt a, Judged S₀ D rt → Judged S₀ D (f rt a))
    (as : List α) (h : Judged S₀ D rt) : Judged S₀ D (as.foldl f rt) := by
  induction as generalizing rt with
  | nil => exact h
  | cons a as ih => exact ih (hf rt a h)

theorem start_sealed (c : SupervisorConfig) (b : Binding) : (start c b).Sealed nobody where
  below := by
    refine run_keeps_all c b (I := Below nobody) (fun hblank => ⟨fun l t hS => absurd hS id, fun s hs => ?_⟩) step_below []
    rw [hblank.published_eq] at hs
    cases hs
  phase := by
    have hseat := new_seated c b
    obtain ⟨hblank, -⟩ := new_blank c b
    let rt₀ := SupervisorRuntime.new c b
    let rt₁ := rt₀.sendSupervisorEvent .supervisorStarted
    let rt₂ := rt₁.childOrder.foldl (fun rt key => rt.sendLifecycle key .added) rt₁
    have h₁ : rt₁.lane = rt₀.lane := lane_sendSupervisorEvent _
    have h₂ : rt₂.lane = rt₀.lane := (lane_foldl (fun _ _ => lane_sendLifecycle_quiet fun _ _ => rfl) _).trans h₁
    have hj₂ : Judged nobody [] rt₂ :=
      ((new_judged c b).sendSupervisorEvent _).foldl (fun _ key h => h.sendLifecycle key .added) _
    have hn : rt₁.childOrder.Nodup := by
      have horder : rt₁.childOrder = rt₀.childOrder := congrArg Lane.order h₁
      rw [horder]
      exact hblank.books.order_nodup
    -- whether or not the parent waits, every child is scheduled for the first time
    have hgo : ∀ rt : SupervisorRuntime, Judged nobody [] rt → rt.lane.posts = rt₀.lane.posts → rt.lane.queue = rt₀.lane.queue →
        Act.Keeps (do
          scheduleStartSequence rt₁.childOrder false
          Act.modify completeEmptyStartupGate : RuntimeM Unit) rt (Judged nobody []) := by
      intro rt h hp hq
      have hs : Schedulable [] false rt₁.childOrder rt.lane := by
        refine ⟨hn, fun k _ item hi => ?_, fun k _ c hc => ?_, fun _ k _ p hget => ?_, fun he => ?_⟩
        · obtain ⟨posts, order, hnew⟩ := new_lane c b
          rw [hq, show rt₀.lane = _ from hnew] at hi
          cases hi
        · cases hc
        · rw [hp] at hget
          exact (hseat.seated k p hget).2.hasStarted_eq
        · cases he
      have hend := scheduleStartSequence_judged h hs
      exact Act.keeps_bind hend fun _ rt' hrun => Act.keeps_modify (hend.ok hrun).completeEmptyStartupGate
    have hsplit : SupervisorRuntime.startup b.hasParent rt₀ = (do
        if b.hasParent then
          Act.modify fun rt => { rt with startupGate := some (rt₁.childOrder.filterMap fun key =>
            (rt.children.get key).map fun e => (key, e.lineage)) }
        scheduleStartSequence rt₁.childOrder false
        Act.modify completeEmptyStartupGate : RuntimeM Unit) rt₂ := by
      unfold SupervisorRuntime.startup
      rw [Act.run_modify_bind, Act.run_get_bind, Act.run_bind, Act.run_forEach_modify]
    refine continueMain_judged ?_
    unfold Act.Keeps
    rw [show SupervisorRuntime.startup b.hasParent (.new c b) = _ from hsplit]
    have hp₂ : rt₂.lane.posts = rt₀.lane.posts := congrArg Lane.posts h₂
    have hq₂ : rt₂.lane.queue = rt₀.lane.queue := congrArg Lane.queue h₂
    cases b.hasParent with
    | false => exact hgo rt₂ hj₂ hp₂ hq₂
    | true =>
      let pending := rt₁.childOrder.filterMap fun key => (rt₂.children.get key).map fun e => (key, e.lineage)
      refine Act.keeps_modify_bind (hgo { rt₂ with startupGate := some pending } ?_ hp₂ hq₂)
      exact hj₂.move rfl (hj₂.toSound.frame rfl rfl rfl rfl rfl (List.Sublist.refl _) id)

theorem run_start_sealed (c : SupervisorConfig) (b : Binding) (inputs : List Input) : (run (start c b) inputs).Sealed nobody :=
  run_sealed inputs (run_inv c b []) (start_sealed c b)

theorem Phase.Sealed.judged {phase : Phase} (h : phase.Sealed S₀ rt) : ∃ D, Judged S₀ D rt := by
  cases phase with
  | drain p k =>
    cases k with
    | restart keys freshGroupToken => exact ⟨p.deferred, h.2.1⟩
    | shutdown after => exact ⟨[], h⟩
  | main => exact ⟨[], h⟩
  | deadlineYield => exact ⟨[], h⟩
  | exited result => exact ⟨[], h⟩

/-- A child that is never restarted has one generation, whatever its strategy restarts
    around it, and no snapshot says otherwise. -/
theorem never_once (c : SupervisorConfig) (b : Binding) (inputs : List Input) :
    let rt := (run (start c b) inputs).rt
    (∀ key e, rt.children.get key = some e → e.runtime.definition.restart.isNever = true → e.runtime.generation = 0) ∧
      ∀ s ∈ rt.published, ∀ child ∈ s.children, child.restartPolicy.isNever = true → child.generation = 0 := by
  intro rt
  obtain ⟨D, h⟩ := (run_start_sealed c b inputs).phase.judged
  exact ⟨fun key e he hn => (h.once key e.post (lane_get he) hn).1, h.shown⟩

/-! ## Stops that are final -/

/-- The child has stopped, its policy does not restart it, and neither does its strategy
    with a sibling. -/
structure SupervisorRuntime.HasRetired (rt : SupervisorRuntime) (key : ChildKey) (e : ChildEntry) : Prop where
  stopped : e.runtime.state = .stopped
  hasStarted : e.runtime.hasStarted = true
  unscheduled : e.runtime.nextRestartDeadline = none
  /-- Nobody starts a child of a scope that stops, or one that is being removed. -/
  final : rt.state = .running → e.membership ≠ .removing →
    (∀ x, e.lastExit = some x → e.runtime.definition.restart.shouldRestart x.isFailure = false) ∧
      rt.stopIsFinal key e.runtime.definition.restart = true

theorem finished_iff {key : ChildKey} {e : ChildEntry} : rt.lane.Finished key e.post ↔ rt.HasRetired key e := by
  have hwants : e.post.wantsRestart = false ↔
      ∀ x, e.lastExit = some x → e.runtime.definition.restart.shouldRestart x.isFailure = false := by
    show Option.any _ e.lastExit = false ↔ _
    cases e.lastExit with
    | none => simp
    | some x => simp [ChildEntry.post]
  constructor
  · intro h
    refine ⟨h.stopped, h.hasStarted, ?_, fun hr hm => ?_⟩
    · have hd : e.runtime.nextRestartDeadline.isSome = false := h.due
      simpa using hd
    · obtain ⟨hw, hf⟩ := h.final (decide_eq_true hr) hm
      exact ⟨hwants.mp hw, hf⟩
  · intro h
    refine ⟨h.stopped, h.hasStarted, ?_, fun hr hm => ?_⟩
    · show e.runtime.nextRestartDeadline.isSome = false
      rw [h.unscheduled]
      rfl
    · obtain ⟨hw, hf⟩ := h.final (of_decide_eq_true hr) hm
      exact ⟨hwants.mpr hw, hf⟩

/-- The seal is put on, in the middle of a group restart, too. -/
theorem Judged.seal {l : Nat} {t : Turn} (h : Judged nobody D rt)
    (hfin : ∀ k p, rt.lane.posts k = some p → p.lineage = l → p.turn = t ∧ rt.lane.Finished k p) :
    Judged (fun l' t' => l' = l ∧ t' = t) D rt :=
  { h with
    fixed := by
      rintro k p hp t' (⟨hl, rfl⟩ | hshown)
      · exact hfin k p hp hl
      · exact h.fixed k p hp t' (.inr hshown) }

theorem Machine.Sealed.seal {m : Machine} {l : Nat} {t : Turn} (h : m.Sealed nobody) (hl : l < m.rt.nextLineage)
    (hfin : ∀ k p, m.rt.lane.posts k = some p → p.lineage = l → p.turn = t ∧ m.rt.lane.Finished k p) :
    m.Sealed (fun l' t' => l' = l ∧ t' = t) where
  below := by
    refine ⟨?_, h.below.shown⟩
    rintro l' t' ⟨rfl, -⟩
    exact hl
  phase := by
    obtain ⟨rt, phase⟩ := m
    have h := h.phase
    cases phase with
    | drain p k =>
      cases k with
      | restart keys freshGroupToken => exact ⟨h.1, h.2.1.seal hfin, h.2.2⟩
      | shutdown after => exact Judged.seal h hfin
    | main => exact Judged.seal h hfin
    | deadlineYield => exact Judged.seal h hfin
    | exited result => exact Judged.seal h hfin

namespace Ledger

variable {L L' : Ledger} {l : Label}

/-- The generation is over, and its exit was `x`. -/
def Ended (L : Ledger) (lineage generation : Nat) (x : ExitStatus) : Prop :=
  L.Spent lineage generation ∧
    ∀ k m, L.members.get k = some m → m.lineage = lineage → m.generation = generation → m.lastExit = some x

theorem step_ended {lineage generation : Nat} {x : ExitStatus} (hs : Step l L L') (hb : L.Books) (h : L.Ended lineage generation x) :
    L'.Ended lineage generation x := by
  refine ⟨step_spent hs hb h.1, fun k m' hm' hl hg => ?_⟩
  rcases step_change hs hb hm' with ⟨m, hm, hc⟩ | hf
  · have hml : m.lineage = lineage := hc.lineage.symm.trans hl
    obtain ⟨hst, hgen⟩ := h.1.2 k m hm hml
    have hold := h.2 k m hm hml
    cases hc with
    | @spawned task _ _ =>
      -- another generation
      have hnext : (m.spawn task).generation = m.generation + 1 := by
        unfold Member.spawn Member.prepare
        simp [hst]
      omega
    | exited _ hact =>
      rcases hgen with hgen | ⟨-, hidle⟩
      · exact absurd hg (Nat.ne_of_gt hgen)
      · rw [hidle] at hact
        cases hact
    | _ => exact hold hg
  · have hlt := h.1.1
    rw [← hl, hf.lineage_eq] at hlt
    exact absurd hlt (Nat.lt_irrefl _)

/-- A child that has stopped has an exit. -/
def Departed (L : Ledger) : Prop :=
  ∀ k m, L.members.get k = some m → m.state = .stopped → m.hasStarted = true → m.lastExit.isSome = true

theorem step_departed (hs : Step l L L') (hb : L.Books) (h : L.Departed) : L'.Departed := by
  intro k m' hm' hst hstarted
  rcases step_change hs hb hm' with ⟨m, hm, hc⟩ | hf
  · have hold := h k m hm
    cases hc with
    | spawned =>
      rename_i task _ _
      have hst : (if m.definition.readiness = .immediate then RuntimeChildState.running else .starting) = .stopped := hst
      split at hst <;> cases hst
    | ready => cases hst
    | exited => rfl
    | stopped => cases hst
    | removing =>
      have hst : (if m.state.isActive = true then RuntimeChildState.stopping else m.state) = .stopped := hst
      split at hst
      · cases hst
      · exact hold hst hstarted
    | queued => cases hst
    | _ => exact hold hst hstarted
  · rw [hf.hasStarted_eq] at hstarted
    cases hstarted

end Ledger

/-- The exit a child shows, with how its cancellation went. -/
theorem member_lastExit {e : ChildEntry} {x : ExitStatus} (h : e.member.lastExit = some x) :
    e.lastExit = some x.kind ∧ e.lastExitCancelled = x.cancelled := by
  obtain ⟨k, hk, rfl⟩ := Option.map_eq_some_iff.mp h
  exact ⟨hk, rfl⟩

/-- A stop the runtime judges final is final: however the run goes on, while the
    membership exists it is stopped in the same generation, with the same exit. -/
theorem terminal_forever (c : SupervisorConfig) (b : Binding) (inputs more : List Input) {key : ChildKey} {e : ChildEntry}
    (he : (run (start c b) inputs).rt.children.get key = some e) (h : (run (start c b) inputs).rt.HasRetired key e) :
    let rt' := (run (start c b) (inputs ++ more)).rt
    ∀ key' e', rt'.children.get key' = some e' → e'.lineage = e.lineage →
      e'.runtime.generation = e.runtime.generation ∧ e'.lastExit = e.lastExit ∧
        e'.lastExitCancelled = e.lastExitCancelled ∧ rt'.HasRetired key' e' := by
  let m := run (start c b) inputs
  have hinv : m.Inv := run_inv c b inputs
  have hsealed : m.Sealed (fun l t => l = e.lineage ∧ t = e.post.turn) := by
    refine (run_start_sealed c b inputs).seal (hinv.books.lineage_lt key e.member (ledger_get he)) fun k p hp hl => ?_
    obtain ⟨e', he', rfl⟩ := get_of_lane hp
    have hk : k = key := hinv.books.lineage_inj k e'.member key e.member (ledger_get he') (ledger_get he) hl
    subst hk
    rw [he] at he'
    cases he'
    exact ⟨rfl, finished_iff.mpr h⟩
  intro rt' key' e' he' hl
  have hrun : rt' = (run m more).rt := congrArg Machine.rt (run_append _ _ _)
  obtain ⟨D, hs⟩ := (run_sealed more hinv hsealed).phase.judged
  rw [← hrun] at hs
  obtain ⟨hturn, hfin⟩ := hs.fixed key' e'.post (lane_get he') e.post.turn (.inl ⟨hl, rfl⟩)
  have hgen : e'.runtime.generation = e.runtime.generation := congrArg Prod.fst hturn
  obtain ⟨x, hx⟩ : ∃ x, e.member.lastExit = some x := by
    have hdeparted : m.rt.ledger.Departed :=
      run_keeps_all c b (fun hblank k p hp _ hst => by rw [(hblank.fresh k p hp).hasStarted_eq] at hst; cases hst)
        step_departed inputs
    exact Option.isSome_iff_exists.mp (hdeparted key e.member (ledger_get he) h.stopped h.hasStarted)
  have hended : m.rt.ledger.Ended e.lineage e.runtime.generation x := by
    have hone : ∀ k p, m.rt.ledger.members.get k = some p → p.lineage = e.lineage → p = e.member := by
      intro k p hp hl
      have hk := hinv.books.lineage_inj k p key e.member hp (ledger_get he) hl
      subst hk
      exact Option.some.inj (hp.symm.trans (ledger_get he))
    have hidle : e.member.isActive = false := by
      show e.runtime.state.isActive = false
      rw [h.stopped]
      rfl
    refine ⟨⟨hinv.books.lineage_lt key e.member (ledger_get he), fun k p hp hl => ?_⟩, fun k p hp hl _ => ?_⟩
    · rw [hone k p hp hl]
      exact ⟨h.hasStarted, .inr ⟨rfl, hidle⟩⟩
    · rw [hone k p hp hl]
      exact hx
  have hended := run_keeps_from step_ended more hinv hended
  rw [← hrun] at hended
  have hsame := member_lastExit (hended.2 key' e'.member (ledger_get he') hl hgen)
  have hwas := member_lastExit hx
  exact ⟨hgen, hsame.1.trans hwas.1.symm, hsame.2.trans hwas.2.symm, finished_iff.mp hfin⟩

/-- A child that is never restarted beside one that always is. -/
def oneShotPair : SupervisorConfig where
  host := pair.host
  strategy := .oneForAll
  kind := .ordered
  defaultChildRestart := .default
  defaultChildShutdown := .default
  children := [{ id := "a", restart := .never }, { id := "b", restart := .always 5 (secs 30) .none }]
  ids_nodup := by decide
  ids_nonempty := by decide

def firstStops : List Input := [.env (.conclude 1 (.returned .ok)), .env (.settle 1), .wake (.joined 1)]

/-- The second child fails, and its group is restarted. -/
def secondRestarts : List Input :=
  [.env (.conclude 2 .panicked), .env (.settle 2), .wake (.joined 2), .wake .deadline, .wake .resumed]

theorem terminal_forever_skipped : ∃ e, (run (start oneShotPair rootBinding) firstStops).rt.children.get 1 = some e ∧
    let rt' := (run (start oneShotPair rootBinding) (firstStops ++ secondRestarts)).rt
    (∀ e', rt'.children.get 1 = some e' → e'.lineage = e.lineage →
      e'.runtime.generation = e.runtime.generation ∧ e'.lastExit = e.lastExit ∧
        e'.lastExitCancelled = e.lastExitCancelled ∧ rt'.HasRetired 1 e') ∧
    (rt'.children.get 1).map (fun e => (e.lineage, e.runtime.generation, e.lastExit)) = some (0, 0, some .completed) ∧
    (rt'.children.get 2).map (fun e => (e.lineage, e.runtime.generation, e.lastExit)) = some (1, 1, some .panicked) := by
  have hdata : ((run (start oneShotPair rootBinding) firstStops).rt.children.get 1).map (fun e => (e.runtime.state, e.runtime.hasStarted,
      e.runtime.nextRestartDeadline, e.runtime.definition.restart.isNever)) = some (.stopped, true, none, true) := by decide +kernel
  obtain ⟨e, he, h⟩ := Option.map_eq_some_iff.mp hdata
  simp only [Prod.mk.injEq] at h
  obtain ⟨hstopped, hstarted, hdue, hnever⟩ := h
  have hretired : (run (start oneShotPair rootBinding) firstStops).rt.HasRetired 1 e := by
    refine ⟨hstopped, hstarted, hdue, fun _ _ => ⟨fun x _ => ?_, hnever⟩⟩
    cases hr : e.runtime.definition.restart with
    | never => rfl
    | always _ _ _ => rw [hr] at hnever; cases hnever
    | onFailure _ _ _ => rw [hr] at hnever; cases hnever
  exact ⟨e, he, fun e' => terminal_forever oneShotPair rootBinding firstStops secondRestarts he hretired 1 e',
    by decide +kernel, by decide +kernel⟩

/-! ## What snapshots say of an end -/

namespace Ledger

variable {L L' : Ledger} {l : Label}

/-- The exit a snapshot shows of a stopped child is that of the generation it shows. -/
structure Decided (L : Ledger) : Prop where
  left : ∀ k m, L.members.get k = some m → m.lastExit.isSome = true → m.hasStarted = true
  shown : ∀ s ∈ L.published, ∀ c ∈ s.children, c.state.isTerminal = true → ∀ x, c.state.lastExit = some x →
    L.Ended c.lineage c.generation x
  repeats : L.published.Pairwise fun s s' => ∀ c ∈ s.children, c.state.isTerminal = true → ∀ x, c.state.lastExit = some x →
    ∀ c' ∈ s'.children, c'.lineage = c.lineage → c'.generation = c.generation → c'.state.lastExit = some x

theorem stopped_of_view {m : Member} (h : m.view.isTerminal = true) : m.state = .stopped := by
  unfold Member.view at h
  cases hs : m.state with
  | stopped => rfl
  | _ =>
    rw [hs] at h
    cases h

/-- A child shown is a member as it is shown. -/
theorem member_of_shown {s : SupervisorSnapshot} {c : ChildSnapshot} (hrows : s.rows = L.rows) (hc : c ∈ s.children) :
    ∃ k m, L.members.get k = some m ∧ m.lineage = c.lineage ∧ m.generation = c.generation ∧ m.view = c.state := by
  have hrow : (c.id, c.lineage, c.generation, c.state) ∈ L.rows := hrows ▸ List.mem_map.mpr ⟨c, hc, rfl⟩
  obtain ⟨k, -, hk⟩ := List.mem_filterMap.mp hrow
  obtain ⟨m, hm, he⟩ := Option.map_eq_some_iff.mp hk
  simp only [Prod.mk.injEq] at he
  exact ⟨k, m, hm, he.2.1, he.2.2.1, he.2.2.2⟩

theorem step_left (hs : Step l L L') (hb : L.Books) (h : ∀ k m, L.members.get k = some m → m.lastExit.isSome = true → m.hasStarted = true)
    (k : ChildKey) (m' : Member) (hm' : L'.members.get k = some m') (hx : m'.lastExit.isSome = true) : m'.hasStarted = true := by
  rcases step_change hs hb hm' with ⟨m, hm, hc⟩ | hf
  · have hstarted := hb.started k m hm
    have hold := h k m hm
    cases hc with
    | spawned _ _ => rfl
    | exited _ hact => exact hstarted hact
    | _ => exact hold hx
  · rw [hf.lastExit_eq] at hx
    cases hx

theorem step_decided (hs : Step l L L') (hb : L.Books) (h : L.Decided) : L'.Decided := by
  have hkeep : ∀ s ∈ L.published, ∀ c ∈ s.children, c.state.isTerminal = true → ∀ x, c.state.lastExit = some x →
      L'.Ended c.lineage c.generation x := fun s hp c hc ht x hx => step_ended hs hb (h.shown s hp c hc ht x hx)
  have hleft := step_left hs hb h.left
  rcases step_log hs with ⟨-, -, hpub⟩ | ⟨s, -, hrows, rfl⟩ | ⟨e, -, -, -, hpub⟩
  · refine ⟨hleft, ?_, ?_⟩
    · rw [hpub]
      exact hkeep
    · rw [hpub]
      exact h.repeats
  · refine ⟨hleft, fun s' hs' c hc ht x hx => ?_, ?_⟩
    · rcases List.mem_append.mp hs' with hs' | hs'
      · exact hkeep s' hs' c hc ht x hx
      · rw [List.mem_singleton.mp hs'] at hc
        obtain ⟨k, m, hm, hl, hg, hv⟩ := member_of_shown hrows hc
        rw [← hv, view_lastExit] at hx
        rw [← hv] at ht
        have hidle : m.isActive = false := Member.isActive_eq (stopped_of_view ht)
        have hone : ∀ k' m', L.members.get k' = some m' → m'.lineage = c.lineage → m' = m := by
          intro k' m' hm' hl'
          have hk := hb.lineage_inj k' m' k m hm' hm (hl'.trans hl.symm)
          subst hk
          rw [hm] at hm'
          cases hm'
          rfl
        refine ⟨⟨hl ▸ hb.lineage_lt k m hm, fun k' m' hm' hl' => ?_⟩, fun k' m' hm' hl' _ => ?_⟩
        · rw [hone k' m' hm' hl']
          exact ⟨h.left k m hm (by rw [hx]; rfl), .inr ⟨hg.symm, hidle⟩⟩
        · rw [hone k' m' hm' hl']
          exact hx
    · refine List.pairwise_append.mpr ⟨h.repeats, List.pairwise_singleton .., fun s₁ hs₁ s₂ hs₂ => ?_⟩
      rw [List.mem_singleton.mp hs₂]
      intro c hc ht x hx c' hc' hl hg
      obtain ⟨k, m, hm, hml, hmg, hv⟩ := member_of_shown hrows hc'
      rw [← hv, view_lastExit]
      exact (h.shown s₁ hs₁ c hc ht x hx).2 k m hm (hml.trans hl) (hmg.trans hg)
  · refine ⟨hleft, ?_, ?_⟩
    · rw [hpub]
      exact hkeep
    · rw [hpub]
      exact h.repeats

end Ledger

theorem run_decided (c : SupervisorConfig) (b : Binding) (inputs : List Input) : (run (start c b) inputs).rt.ledger.Decided := by
  refine run_keeps_all c b (fun hblank => ⟨fun k m hm hx => ?_, ?_, ?_⟩) step_decided inputs
  · rw [(hblank.fresh k m hm).lastExit_eq] at hx
    cases hx
  · rw [hblank.published_eq]
    intro s hs
    cases hs
  · rw [hblank.published_eq]
    exact List.Pairwise.nil

theorem shown_of_verdict {s : SupervisorSnapshot} {c : ChildSnapshot} {x : ExitStatus} (h : taskVerdict s c = some x) :
    c.state.lastExit = some x ∧ c.state.isTerminal = true := by
  obtain ⟨y, hy, hif⟩ := Option.bind_eq_some_iff.mp h
  simp only at hif
  split at hif
  · rename_i hc
    cases hif
    simp only [Bool.and_eq_true] at hc
    exact ⟨hy, hc.1.1⟩
  · cases hif

theorem verdict_of_outcome {s : SupervisorSnapshot} {id : String} {lineage : Nat} {st : TaskTrackingState} {x : ExitStatus}
    (h : taskStateFromSnapshot s id lineage = some st) (hx : st.outcome = some (.ok x)) :
    ∃ c ∈ s.children, c.id = id ∧ c.lineage = lineage ∧ taskVerdict s c = some x := by
  obtain ⟨c, hc, rfl⟩ := Option.map_eq_some_iff.mp h
  obtain ⟨y, hy, he⟩ := Option.map_eq_some_iff.mp hx
  cases he
  have hp := List.find?_some hc
  simp only [Bool.and_eq_true, decide_eq_true_eq] at hp
  exact ⟨c, List.mem_of_find?_eq_some hc, hp.1, hp.2, hy⟩

/-- A child that a published snapshot shows stopped for good has retired, with that exit. -/
theorem retired_of_verdict (c : SupervisorConfig) (b : Binding) (inputs : List Input) {s : SupervisorSnapshot} {child : ChildSnapshot}
    {x : ExitStatus} {key : ChildKey} {e : ChildEntry} (hs : s ∈ (run (start c b) inputs).rt.published) (hc : child ∈ s.children)
    (hv : taskVerdict s child = some x) (he : (run (start c b) inputs).rt.children.get key = some e) (hl : e.lineage = child.lineage) :
    (run (start c b) inputs).rt.HasRetired key e ∧ e.lastExit = some x.kind ∧ e.lastExitCancelled = x.cancelled := by
  obtain ⟨D, h⟩ := (run_start_sealed c b inputs).phase.judged
  obtain ⟨hturn, hfin⟩ := h.fixed key e.post (lane_get he) (child.generation, some x.kind)
    (.inr ⟨s, hs, child, hc, x, hv, hl.symm, rfl⟩)
  obtain ⟨hexit, hterm⟩ := shown_of_verdict hv
  have hended := (run_decided c b inputs).shown s hs child hc hterm x hexit
  exact ⟨finished_iff.mp hfin,
    member_lastExit (hended.2 key e.member (ledger_get he) hl (congrArg Prod.fst hturn))⟩

/-- Every later snapshot that shows the child says the same of it. -/
theorem verdicts_kept (c : SupervisorConfig) (b : Binding) (inputs : List Input) :
    (run (start c b) inputs).rt.published.Pairwise fun s s' => ∀ child ∈ s.children, ∀ x, taskVerdict s child = some x →
      ∀ child' ∈ s'.children, child'.lineage = child.lineage → taskVerdict s' child' = some x := by
  obtain ⟨D, h⟩ := (run_start_sealed c b inputs).phase.judged
  refine (h.repeats.and (run_decided c b inputs).repeats).imp ?_
  rintro s s' ⟨hrep, hsame⟩ child hc x hv child' hc' hl
  obtain ⟨hexit, hterm⟩ := shown_of_verdict hv
  obtain ⟨hg, y, hv', -⟩ := hrep child hc x hv child' hc' hl
  have hy := (shown_of_verdict hv').1
  rw [hsame child hc hterm x hexit child' hc' hl hg] at hy
  cases hy
  exact hv'

/-- What one snapshot says of a task's end is so: its membership has retired with that exit
    and stays so, and every later snapshot that still shows it says the same. -/
theorem verdict_repeats (c : SupervisorConfig) (b : Binding) (inputs : List Input) :
    let rt := (run (start c b) inputs).rt
    (∀ s ∈ rt.published, ∀ id lineage st x, taskStateFromSnapshot s id lineage = some st → st.outcome = some (.ok x) →
        ∀ key e, rt.children.get key = some e → e.lineage = lineage →
          rt.HasRetired key e ∧ e.lastExit = some x.kind ∧ e.lastExitCancelled = x.cancelled) ∧
      rt.published.Pairwise fun s s' => ∀ id lineage st st' x, taskStateFromSnapshot s id lineage = some st →
        st.outcome = some (.ok x) → taskStateFromSnapshot s' id lineage = some st' → st'.outcome = some (.ok x) := by
  intro rt
  refine ⟨fun s hs id lineage st x hst hx key e he hl => ?_, ?_⟩
  · obtain ⟨child, hc, -, hcl, hv⟩ := verdict_of_outcome hst hx
    exact retired_of_verdict c b inputs hs hc hv he (hl.trans hcl.symm)
  · refine (verdicts_kept c b inputs).imp ?_
    intro s s' hkept id lineage st st' x hst hx hst'
    obtain ⟨child, hc, hid, hcl, hv⟩ := verdict_of_outcome hst hx
    obtain ⟨child', hfind, rfl⟩ := Option.map_eq_some_iff.mp hst'
    have hp := List.find?_some hfind
    simp only [Bool.and_eq_true, decide_eq_true_eq] at hp
    have hv' := hkept child hc x hv child' (List.mem_of_find?_eq_some hfind) (hp.2.trans hcl.symm)
    simp only [hv', Option.map_some]

end Kokage.Supervisor

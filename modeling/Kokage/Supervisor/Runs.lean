/-
  Kokage.Supervisor.Runs — every run of a supervisor is a run of its ledger.

  `Inv` is what every reachable machine satisfies: its books agree, and its phase keeps
  what the handlers of the next wake rely on. `step_inv` carries it through every input
  and says what the input did to the ledger (`Moves`): a path of steps, after one exit
  when the input was a join. The rules at the end turn a property of ledgers that every
  such step keeps into a property of every run.
-/

import Mathlib.Data.List.Induction
import Kokage.Supervisor.Drains

namespace Kokage.Supervisor

open Kokage.Lib Ledger SupervisorRuntime

/-- The labels of a running scope: exits and the initial announcements apart. -/
def Serves : Label → Prop
  | .exited _ _ | .announced => False
  | _ => True

theorem Starts.serves {l : Label} (h : Starts l) : Serves l := by
  cases l <;> trivial

theorem Commands.serves {l : Label} (h : Commands l) : Serves l := by
  cases l <;> trivial

theorem Resumes.serves {l : Label} (h : Resumes l) : Serves l := by
  cases l <;> trivial

theorem Applies.serves {t : TaskMeta} {l : Label} (h : Applies t l) : Serves l := by
  cases l <;> trivial

theorem Stops.serves {scope : DrainScope} {l : Label} (h : Stops scope l) : Serves l := by
  cases l <;> trivial

theorem other_serves {l : Label} (h : l = .other) : Serves l := by
  subst h
  trivial

/-! ## The invariant -/

def Continuation.Inv : Continuation → DrainPhase → Ledger → Prop
  | .restart keys _, p, L => L.Open ∧ p.Inv L ∧ keys.Nodup ∧ ∀ k ∈ keys, p.scope.contains k = true
  | .shutdown _, _, L => L.running = false

def Phase.Inv : Phase → Ledger → Prop
  | .main, L | .deadlineYield, L => L.Open ∧ L.Settled
  | .drain p k, L => k.Inv p L
  | .exited _, _ => True

structure Machine.Inv (m : Machine) : Prop where
  books : m.rt.ledger.Books
  phase : m.phase.Inv m.rt.ledger

theorem path_settled {A : Label → Prop} {L L' : Ledger} (hA : ∀ l k, A l → l ≠ .stop k) (hp : Ledger.Path A L L')
    (h : L.Settled) : L'.Settled :=
  fun k => path_settledAt (fun l hl => hA l k hl) hp (h k)

/-! ## Leaving the main loop -/

section Exit

variable {rt rt' : SupervisorRuntime}

theorem endShutdown_ledger (after : ExitReason) (result : Except SupervisorError Unit) :
    (endShutdown after result rt).rt.ledger = rt.ledger := by
  cases after with
  | shutdown => exact ledger_finalizeStableChannels.trans (ledger_resolvePendingRemovals none)
  | failure e => exact ledger_finalizeStableChannels.trans (ledger_resolvePendingRemovals (some e))

theorem endShutdown_phase (after : ExitReason) (result : Except SupervisorError Unit) (L : Ledger) :
    (endShutdown after result rt).phase.Inv L := by
  cases after <;> trivial

theorem finish_leads {A : Label → Prop} (hA : A .other) (hr : rt.ledger.running = false) : Leads A rt rt.finish := by
  have h1 : ({ rt with state := .stopped } : SupervisorRuntime).ledger = rt.ledger := by
    have hr' : decide (rt.state = .running) = false := hr
    unfold ledger
    rw [hr']
    rfl
  unfold Leads finish
  rw [ledger_sendSupervisorEvent, ← h1]
  exact publishes hA

/-- Whatever a shutdown drain says, the scope stays shut. -/
theorem resumeShutdown_inv (after : ExitReason) (out : DrainOut) (hb : rt.ledger.Books) (hr : rt.ledger.running = false) :
    (resumeShutdown after (out, rt)).Inv ∧ Leads Serves rt (resumeShutdown after (out, rt)).rt := by
  have hend : ∀ rt1 result, Leads Serves rt rt1 → rt1.ledger.Books →
      (endShutdown after result rt1).Inv ∧ Leads Serves rt (endShutdown after result rt1).rt := by
    intro rt1 result h1 hb1
    refine ⟨⟨?_, endShutdown_phase after result _⟩, h1.trans (leads_of_ledger_eq (endShutdown_ledger after result))⟩
    rw [endShutdown_ledger]
    exact hb1
  cases out with
  | await p => exact ⟨⟨hb, hr⟩, Ledger.Path.refl⟩
  | done result =>
    cases result with
    | ok exits =>
      have h1 := finish_leads (A := Serves) trivial hr
      exact hend _ _ h1 (path_books h1 hb)
    | error e => exact hend rt _ Ledger.Path.refl hb

theorem running_path {scope : DrainScope} {L L' : Ledger} (hp : Ledger.Path (Stops scope) L L') (h : L.running = false) :
    L'.running = false := by
  refine hp.keeps (I := fun L => L.running = false) ?_ h
  intro l L L' hl hs h
  cases hs with
  | shutdown => rfl
  | _ => exact h

theorem shutdownAll_inv (after : ExitReason) (hb : rt.ledger.Books) :
    (shutdownAll after rt).Inv ∧ Leads Serves rt (shutdownAll after rt).rt := by
  let rt1 : SupervisorRuntime := { rt with state := .stopping, stoppingToken := true }
  let rt2 := rt1.sendSupervisorEvent .supervisorStopping
  have h1 : Leads Serves rt rt1 := .trans (.single .shutdown trivial) (.of_eq rfl)
  have h2 : Leads Serves rt1 rt2 := by
    unfold Leads
    rw [ledger_sendSupervisorEvent]
    exact publishes trivial
  have hr2 : rt2.ledger.running = false := by
    show (rt1.sendSupervisorEvent .supervisorStopping).ledger.running = false
    rw [ledger_sendSupervisorEvent]
    rfl
  have hd : Leads (Stops .all) rt2 (rt2.startDrain .shutdown .all).2 := startDrain_leads .shutdown .all
  have hlead : Leads Serves rt (rt2.startDrain .shutdown .all).2 :=
    (h1.trans h2).trans (leads_mono (fun _ => Stops.serves) hd)
  obtain ⟨hinv, hres⟩ := resumeShutdown_inv after (rt2.startDrain .shutdown .all).1
    (path_books hlead hb) (running_path hd hr2)
  exact ⟨hinv, hlead.trans hres⟩

theorem exitWith_inv (reason : ExitReason) (hb : rt.ledger.Books) :
    (exitWith reason rt).Inv ∧ Leads Serves rt (exitWith reason rt).rt := by
  unfold exitWith
  split
  · exact shutdownAll_inv _ hb
  · exact shutdownAll_inv _ hb
  · simp only
    have h1 : (if rt.cfg.revivable = true then rt.detachNestedChildrenForRevivableFailure else rt).ledger = rt.ledger := by
      split
      · exact ledger_detachNested
      · rfl
    generalize (if rt.cfg.revivable = true then rt.detachNestedChildrenForRevivableFailure else rt) = rt1 at h1
    rename_i e _
    have h2 : (rt1.resolvePendingRemovals (some e)).finalizeStableChannels.ledger = rt.ledger :=
      (ledger_finalizeStableChannels.trans (ledger_resolvePendingRemovals (some e))).trans h1
    exact ⟨⟨h2 ▸ hb, trivial⟩, leads_of_ledger_eq h2⟩

/-- Back to the main loop after a handler that stops nobody, or out of it. -/
theorem continueMain_inv {m : RuntimeM Unit} {L : Ledger} {A : Label → Prop} (hA : ∀ l, A l → Serves l)
    (hA' : ∀ l k, A l → l ≠ .stop k ∧ l ≠ .shutdown) (hb : L.Books) (ho : L.Open) (hs : L.Settled)
    (hm : Ledger.Path A L (m rt).2.ledger) :
    (continueMain m rt).Inv ∧ Ledger.Path Serves L (continueMain m rt).rt.ledger := by
  unfold continueMain
  generalize m rt = q at hm
  obtain ⟨r, rt1⟩ := q
  have h1 : Ledger.Path Serves L rt1.ledger := hm.mono hA
  cases r with
  | ok _ =>
    refine ⟨⟨path_books hm hb, ?_, path_settled (fun l k hl => (hA' l k hl).1) hm hs⟩, h1⟩
    exact hm.keeps_open (fun l hl => (hA' l 0 hl).2) ho
  | error reason =>
    obtain ⟨hinv, hres⟩ := exitWith_inv reason (path_books hm hb)
    exact ⟨hinv, h1.trans hres⟩

end Exit

/-! ## Coming back from a drain -/

section Drain

variable {rt : SupervisorRuntime}

theorem Resumes.quiet {l : Label} (h : Resumes l) (k : ChildKey) : l ≠ .stop k ∧ l ≠ .shutdown := by
  constructor
  · rintro rfl
    exact h
  · rintro rfl
    exact h

/-- The exits left over by a respawn are still pending. -/
theorem respawnGroup_defers {keys : List ChildKey} (freshGroupToken : Bool) {completed : List ClassifiedExit}
    (hb : rt.ledger.Books) (ho : rt.ledger.Open) (hn : keys.Nodup) (hi : ∀ k ∈ keys, Inactive rt.ledger k)
    (hd : Deferred rt.ledger completed) :
    Act.Runs (Leads Resumes) (respawnGroup keys freshGroupToken completed) rt fun deferred rt1 =>
      rt1.ledger.Open ∧ rt1.ledger.Books ∧ Deferred rt1.ledger deferred := by
  have hrespawn := @respawnGroup_runs rt keys freshGroupToken completed ho hn hi
  refine ⟨leads_mono (fun _ => Schedules.resumes) hrespawn.1, fun deferred rt1 h1 => ?_⟩
  have hlead : Leads (Schedules keys) rt rt1 := by
    have := hrespawn.1
    rw [h1] at this
    exact this
  refine ⟨leads_open (fun _ => Schedules.not_shutdown) hlead ho, path_books hlead hb, ?_⟩
  rw [hrespawn.2 deferred rt1 h1]
  -- the respawn queues and spawns only the restarted keys
  refine ⟨fun c hc => ?_, hd.2.filter _⟩
  obtain ⟨hc, hk⟩ := List.mem_filter.mp hc
  refine path_pending (fun l hl => ⟨?_, ?_, ?_⟩) hlead hb (hd.1 c hc)
  · rintro rfl
    exact hl
  · rintro rfl
    have hl : c.key ∈ keys := hl
    simp [hl] at hk
  · rintro rfl
    exact hl

theorem finishRestart_leads {keys : List ChildKey} {freshGroupToken : Bool} {completed : List ClassifiedExit}
    (hb : rt.ledger.Books) (ho : rt.ledger.Open) (hn : keys.Nodup) (hi : ∀ k ∈ keys, Inactive rt.ledger k)
    (hd : Deferred rt.ledger completed) : Leads Resumes rt (finishRestart keys freshGroupToken completed rt).2 := by
  have hrun : Act.Runs (Leads Resumes) (finishRestart keys freshGroupToken completed) rt fun _ _ => True := by
    refine Act.runs_bind (respawnGroup_defers freshGroupToken hb ho hn hi hd) ?_
    intro deferred rt1 _ ⟨ho1, hb1, hd1⟩
    cases freshGroupToken with
    | true => exact Act.runs_pure trivial
    | false => exact applyDeferred_runs ho1 hb1 hd1
  exact hrun.1

/-- What a restart needs of its drain's answer. -/
theorem resumeRestart_inv {keys : List ChildKey} {scope : DrainScope} (freshGroupToken : Bool) {out : DrainOut}
    (hb : rt.ledger.Books) (ho : rt.ledger.Open) (hout : out.Inv scope rt.ledger) (hn : keys.Nodup)
    (hk : ∀ k ∈ keys, scope.contains k = true) :
    (resumeRestart keys freshGroupToken (out, rt)).Inv ∧
      Leads Serves rt (resumeRestart keys freshGroupToken (out, rt)).rt := by
  cases out with
  | await p =>
    obtain ⟨hp, hscope⟩ := hout.await
    exact ⟨⟨hb, ho, hp, hn, fun k h => hscope ▸ hk k h⟩, Ledger.Path.refl⟩
  | done result =>
    cases result with
    | error e => exact exitWith_inv _ hb
    | ok completed =>
      obtain ⟨exits, ⟨rfl, hi⟩, hd, hs⟩ := hout
      have hsettled : rt.ledger.Settled := by
        intro k m hm hst
        by_cases hin : scope.contains k = true
        · have := hi k hin m hm
          rw [Member.isActive_eq hst] at this
          cases this
        · exact hs k (by simpa using hin) m hm hst
      exact continueMain_inv (fun _ => Resumes.serves) (fun _ k hl => Resumes.quiet hl k) hb ho hsettled
        (finishRestart_leads hb ho hn (fun k h => hi k (hk k h)) hd)

/-- What the answer of a restart drain finds, when a step of it led along stops. -/
theorem restartDrain_out {p : DrainPhase} {keys : List ChildKey} {freshGroupToken : Bool} {out : DrainOut × SupervisorRuntime}
    (hb : rt.ledger.Books) (hinv : (Continuation.restart keys freshGroupToken).Inv p rt.ledger)
    (hlead : Leads (Stops p.scope) rt out.2) (hgood : out.1.Good p.scope p.deferred out.2.ledger) :
    out.2.ledger.Books ∧ out.2.ledger.Open ∧ out.1.Inv p.scope out.2.ledger := by
  obtain ⟨ho, hp, -, -⟩ := hinv
  refine ⟨path_books hlead hb, leads_open (fun l hl => ?_) hlead ho,
    DrainOut.inv_of_leads hb hp.deferred hp.settled hlead hgood⟩
  rintro rfl
  exact hl

/-- An await of a drain resolved: `out` is where its code led. -/
theorem resumeDrain_inv {p : DrainPhase} {k : Continuation} {out : DrainOut × SupervisorRuntime}
    (hb : rt.ledger.Books) (hinv : k.Inv p rt.ledger)
    (hlead : ∀ A : Label → Prop, A .other → p.Stopping A → Leads A rt out.2)
    (hgood : p.Progress rt.ledger → out.1.Good p.scope p.deferred out.2.ledger) :
    (resumeDrain k out).Inv ∧ Leads Serves rt (resumeDrain k out).rt := by
  obtain ⟨out, rt1⟩ := out
  cases k with
  | shutdown after =>
    have h1 : Leads (Stops .all) rt rt1 := hlead _ trivial p.stopping_all
    obtain ⟨h, hl⟩ := resumeShutdown_inv after out (path_books h1 hb) (running_path h1 hinv)
    exact ⟨h, (leads_mono (fun _ => Stops.serves) h1).trans hl⟩
  | restart keys freshGroupToken =>
    have hprog := hinv.2.1.progress
    have h1 : Leads (Stops p.scope) rt rt1 := hlead _ trivial hprog.stopping
    obtain ⟨hb1, ho1, hout⟩ := restartDrain_out hb hinv h1 (hgood hprog)
    obtain ⟨h, hl⟩ := resumeRestart_inv freshGroupToken hb1 ho1 hout hinv.2.2.1 hinv.2.2.2
    exact ⟨h, (leads_mono (fun _ => Stops.serves) h1).trans hl⟩

/-- A restart drain begins with its books in order. -/
theorem startDrain_restart {reason : DrainReason} (scope : DrainScope) (hb : rt.ledger.Books) (ho : rt.ledger.Open)
    (hs : rt.ledger.Settled) (hr : reason ≠ .shutdown) :
    (rt.startDrain reason scope).2.ledger.Books ∧ (rt.startDrain reason scope).2.ledger.Open ∧
      (rt.startDrain reason scope).1.Inv scope (rt.startDrain reason scope).2.ledger := by
  have hd : Leads (Stops scope) rt (rt.startDrain reason scope).2 := startDrain_leads reason scope
  refine ⟨path_books hd hb, leads_open (fun l hl => ?_) hd ho, startDrain_inv hb hr hs⟩
  rintro rfl
  exact hl

end Drain

/-! ## Wakes -/

section Wake

variable {rt : SupervisorRuntime}

/-- A wake that records no exit leads along steps; a join may record one first. -/
def Moves (rt : SupervisorRuntime) (L' : Ledger) (w : Wake) : Prop :=
  Ledger.Path Serves rt.ledger L' ∨ ∃ task t c L, w = .joined task ∧ rt.taskMap task = some t ∧ joinable rt task = some c ∧
    Step (.exited t (rt.exitFails t c)) rt.ledger L ∧ Ledger.Path Serves L L'

theorem Commands.quiet {l : Label} (h : Commands l) (k : ChildKey) : l ≠ .stop k ∧ l ≠ .shutdown :=
  Resumes.quiet (by cases l <;> trivial) k

theorem Starts.quiet {l : Label} (h : Starts l) (k : ChildKey) : l ≠ .stop k ∧ l ≠ .shutdown :=
  Commands.quiet (Starts.commands h) k

theorem Applies.quiet {t : TaskMeta} {l : Label} (h : Applies t l) (k : ChildKey) : l ≠ .stop k ∧ l ≠ .shutdown :=
  Resumes.quiet (Applies.resumes h) k

theorem path_main {A : Label → Prop} {L L' : Ledger} (hA : ∀ l k, A l → l ≠ .stop k ∧ l ≠ .shutdown) (hp : Ledger.Path A L L')
    (hb : L.Books) (ho : L.Open) (hs : L.Settled) : L'.Books ∧ L'.Open ∧ L'.Settled :=
  ⟨path_books hp hb, hp.keeps_open (fun l hl => (hA l 0 hl).2) ho, path_settled (fun l k hl => (hA l k hl).1) hp hs⟩

/-- The commands and deadlines served after the yield: a group restart covers keys in order. -/
theorem deadlineBatch_runs (ho : rt.ledger.Open) :
    Act.Runs (Leads Commands) (drainDeadlineCommandBatch rt.commandRx >>= fun _ => handleDeadlines) rt
      fun r rt' => ∀ keys, r = some keys → keys.Sublist rt'.childOrder := by
  refine Act.runs_bind (Q := fun _ rt1 => rt1.ledger.Open) ?_ ?_
  · have h1 := drainDeadlineCommandBatch_leads rt.commandRx ho
    refine ⟨h1, fun _ rt1 h => ?_⟩
    rw [h] at h1
    exact leads_open (fun _ => Commands.not_shutdown) h1 ho
  · intro _ rt1 _ ho1
    exact (handleDeadlines_runs ho1).mono fun _ => leads_mono fun _ => Starts.commands

theorem subset_contains {keys : List ChildKey} {k : ChildKey} (hk : k ∈ keys) : (DrainScope.subset keys).contains k = true := by
  simpa [DrainScope.contains] using hk

theorem deadlineBatch_inv (hb : rt.ledger.Books) (ho : rt.ledger.Open) (hs : rt.ledger.Settled) :
    (deadlineBatch rt).Inv ∧ Leads Serves rt (deadlineBatch rt).rt := by
  obtain ⟨hlead, hkeys⟩ := deadlineBatch_runs ho
  unfold deadlineBatch
  simp only
  generalize (drainDeadlineCommandBatch rt.commandRx >>= fun _ => handleDeadlines) rt = q at hlead hkeys
  obtain ⟨r, rt1⟩ := q
  have hserves : Leads Serves rt rt1 := leads_mono (fun _ => Commands.serves) hlead
  obtain ⟨hb1, ho1, hs1⟩ := path_main (fun _ k hl => Commands.quiet hl k) hlead hb ho hs
  -- a group restart: the drain, then whatever it answers
  have hgroup : ∀ keys reason scope fresh, keys.Nodup → (∀ k ∈ keys, scope.contains k = true) → reason ≠ .shutdown →
      (resumeRestart keys fresh (rt1.startDrain reason scope)).Inv ∧
        Leads Serves rt (resumeRestart keys fresh (rt1.startDrain reason scope)).rt := by
    intro keys reason scope fresh hn hk hr
    obtain ⟨hbd, hod, hout⟩ := startDrain_restart scope hb1 ho1 hs1 hr
    obtain ⟨h, hl⟩ := resumeRestart_inv fresh hbd hod hout hn hk
    exact ⟨h, (hserves.trans (leads_mono (fun _ => Stops.serves) (startDrain_leads reason scope))).trans hl⟩
  cases r with
  | error reason =>
    obtain ⟨h, hl⟩ := exitWith_inv reason hb1
    exact ⟨h, hserves.trans hl⟩
  | ok keys =>
    cases keys with
    | none => exact ⟨⟨hb1, ho1, hs1⟩, hserves⟩
    | some keys =>
      have hn : keys.Nodup := (hkeys _ _ rfl keys rfl).nodup hb1.order_nodup
      simp only
      split
      · exact hgroup keys .groupRestart .all true hn (fun _ _ => rfl) (by decide)
      · exact hgroup keys .restForOneRestart (.subset keys) false hn (fun _ => subset_contains) (by decide)

theorem mem_of_joinable {task : TaskId} {c : Conclusion} (h : joinable rt task = some c) :
    task ∈ rt.joinSet.map (·.id) := by
  obtain ⟨t, ht, -⟩ := Option.bind_eq_some_iff.mp h
  have hid := List.find?_some ht
  exact List.mem_map.mpr ⟨t, List.mem_of_find?_eq_some ht, by simpa using hid⟩

theorem wakeMain_inv (w : Wake) (hb : rt.ledger.Books) (ho : rt.ledger.Open) (hs : rt.ledger.Settled) :
    (wakeMain rt w).Inv ∧ Moves rt (wakeMain rt w).rt.ledger w := by
  have hstay : ∀ rt1 : SupervisorRuntime, rt1.ledger = rt.ledger →
      (⟨rt1, .main⟩ : Machine).Inv ∧ Moves rt rt1.ledger w := by
    intro rt1 h1
    refine ⟨⟨?_, ?_, ?_⟩, .inl (.of_eq h1.symm)⟩
    · exact h1 ▸ hb
    · exact h1 ▸ ho
    · exact h1 ▸ hs
  have hgo : ∀ {A : Label → Prop} {rt1 : SupervisorRuntime} {m : RuntimeM Unit}, (∀ l, A l → Serves l) →
      (∀ l k, A l → l ≠ .stop k ∧ l ≠ .shutdown) → Leads A rt (m rt1).2 →
      (continueMain m rt1).Inv ∧ Moves rt (continueMain m rt1).rt.ledger w := by
    intro A rt1 m hA hA' hm
    obtain ⟨h, hl⟩ := continueMain_inv hA hA' hb ho hs hm
    exact ⟨h, .inl hl⟩
  cases w with
  | shutdown =>
    unfold wakeMain
    simp only
    split
    · obtain ⟨h, hl⟩ := exitWith_inv .shutdown hb
      exact ⟨h, .inl hl⟩
    · exact hstay rt rfl
  | command =>
    unfold wakeMain
    simp only
    split
    · rename_i command rest _ _
      have ho' : ({ rt with commandRx := rest } : SupervisorRuntime).ledger.Open := ho
      exact hgo (fun _ => Commands.serves) (fun _ k hl => Commands.quiet hl k) (handleCommand_leads command ho')
    · refine hstay _ ?_
      split <;> rfl
    · exact hstay rt rfl
  | ready =>
    unfold wakeMain
    simp only
    split
    · rename_i ready rest hrx
      exact hgo (fun _ => Starts.serves) (fun _ k hl => Starts.quiet hl k) (handleChildReady_leads ho hs hrx)
    · exact hstay rt rfl
  | nestedSnapshot =>
    unfold wakeMain
    simp only
    split
    · rename_i n rest _
      have hlead : Leads (· = .other) rt (({ rt with nestedRx := rest } : SupervisorRuntime).handleNestedSnapshot n) :=
        @handleNestedSnapshot_leads { rt with nestedRx := rest } (· = .other) rfl n
      obtain ⟨hb1, ho1, hs1⟩ := path_main (by rintro _ k rfl; exact ⟨nofun, nofun⟩) hlead hb ho hs
      exact ⟨⟨hb1, ho1, hs1⟩, .inl (leads_mono (fun _ => other_serves) hlead)⟩
    · exact hstay rt rfl
  | deadline =>
    unfold wakeMain
    simp only
    split
    · exact ⟨⟨hb, ho, hs⟩, .inl Ledger.Path.refl⟩
    · exact hstay rt rfl
  | joined task =>
    unfold wakeMain
    simp only
    split
    · rename_i c hc
      rcases handleJoinedChild_leads (c := c) hb ho (mem_of_joinable hc) with hlead | ⟨t, ht, L, hstep, hlead⟩
      · exact hgo (fun _ => other_serves) (by rintro _ k rfl; exact ⟨nofun, nofun⟩) hlead
      · have hexit : Ledger.Path (· = .exited t (rt.exitFails t c)) rt.ledger L := .single hstep rfl
        obtain ⟨hb1, ho1, hs1⟩ := path_main (by rintro _ k rfl; exact ⟨nofun, nofun⟩) hexit hb ho hs
        obtain ⟨h, hl⟩ := continueMain_inv (fun _ => Applies.serves) (fun _ k hl => Applies.quiet hl k) hb1 ho1 hs1 hlead
        exact ⟨h, .inr ⟨task, t, c, L, rfl, ht, hc, hstep, hl⟩⟩
    · exact hstay rt rfl
  | timer => exact hstay rt rfl
  | resumed => exact hstay rt rfl
  | noJoin => exact hstay rt rfl

/-- A join inside a drain leads along stops, after an exit if it records one. -/
theorem drainJoined_moves {p : DrainPhase} {task : TaskId} {c : Conclusion} {scope : DrainScope} (hb : rt.ledger.Books)
    (hj : task ∈ rt.joinSet.map (·.id)) (hw : p.Stopping (Stops scope)) :
    ∃ L, Ledger.Path (Stops scope) L (drainJoined p task c rt).2.ledger ∧
      (L = rt.ledger ∨ ∃ t, rt.taskMap task = some t ∧ Step (.exited t (rt.exitFails t c)) rt.ledger L) := by
  rcases @drainJoined_leads rt p (Stops scope) task c hj hb trivial hw with hlead | ⟨t, ht, L, hstep, hpath⟩
  · exact ⟨_, hlead, .inl rfl⟩
  · exact ⟨L, hpath, .inr ⟨t, ht, hstep⟩⟩

/-- What the answer of a restart drain finds after a join. -/
theorem restartDrain_joined {p : DrainPhase} {keys : List ChildKey} {freshGroupToken : Bool} {task : TaskId} {c : Conclusion}
    (hb : rt.ledger.Books) (hinv : (Continuation.restart keys freshGroupToken).Inv p rt.ledger)
    (hj : task ∈ rt.joinSet.map (·.id)) :
    (drainJoined p task c rt).2.ledger.Books ∧ (drainJoined p task c rt).2.ledger.Open ∧
      (drainJoined p task c rt).1.Inv p.scope (drainJoined p task c rt).2.ledger := by
  obtain ⟨ho, hp, -, -⟩ := hinv
  obtain ⟨L, hpath, hL⟩ := @drainJoined_moves rt p task c p.scope hb hj hp.progress.stopping
  have hbL : L.Books ∧ L.Open := by
    rcases hL with rfl | ⟨t, -, hstep⟩
    · exact ⟨hb, ho⟩
    · exact ⟨step_books hstep hb, hstep.keeps_open (by nofun) ho⟩
  refine ⟨path_books hpath hbL.1, hpath.keeps_open (fun l hl => ?_) hbL.2, drainJoined_inv hj hb hp⟩
  rintro rfl
  exact hl

/-- A join inside a drain. -/
theorem drainJoin_inv {p : DrainPhase} {k : Continuation} {task : TaskId} {c : Conclusion} (hb : rt.ledger.Books)
    (hinv : k.Inv p rt.ledger) (hc : joinable rt task = some c) :
    (resumeDrain k (drainJoined p task c rt)).Inv ∧
      Moves rt (resumeDrain k (drainJoined p task c rt)).rt.ledger (.joined task) := by
  have hj := mem_of_joinable hc
  have hend : ∀ {scope L L'}, Ledger.Path (Stops scope) L (drainJoined p task c rt).2.ledger →
      (L = rt.ledger ∨ ∃ t, rt.taskMap task = some t ∧ Step (.exited t (rt.exitFails t c)) rt.ledger L) →
      Ledger.Path Serves (drainJoined p task c rt).2.ledger L' → Moves rt L' (.joined task) := by
    intro scope L L' hpath hL hrest
    have hpath := (hpath.mono fun _ => Stops.serves).trans hrest
    rcases hL with rfl | ⟨t, ht, hstep⟩
    · exact .inl hpath
    · exact .inr ⟨task, t, c, L, rfl, ht, hc, hstep, hpath⟩
  cases k with
  | shutdown after =>
    obtain ⟨L, hpath, hL⟩ := @drainJoined_moves rt p task c .all hb hj p.stopping_all
    have hbL : L.Books ∧ L.running = false := by
      rcases hL with rfl | ⟨t, -, hstep⟩
      · exact ⟨hb, hinv⟩
      · refine ⟨step_books hstep hb, ?_⟩
        generalize rt.exitFails t c = failed at hstep
        cases hstep
        exact hinv
    obtain ⟨h, hl⟩ := resumeShutdown_inv after (drainJoined p task c rt).1 (path_books hpath hbL.1) (running_path hpath hbL.2)
    exact ⟨h, hend hpath hL hl⟩
  | restart keys freshGroupToken =>
    obtain ⟨L, hpath, hL⟩ := @drainJoined_moves rt p task c p.scope hb hj hinv.2.1.progress.stopping
    obtain ⟨hb1, ho1, hout⟩ := restartDrain_joined (c := c) hb hinv hj
    obtain ⟨h, hl⟩ := resumeRestart_inv freshGroupToken hb1 ho1 hout hinv.2.2.1 hinv.2.2.2
    exact ⟨h, hend hpath hL hl⟩

theorem wakeDrain_inv {p : DrainPhase} {k : Continuation} (w : Wake) (hb : rt.ledger.Books) (hinv : k.Inv p rt.ledger) :
    (wakeDrain rt p k w).Inv ∧ Moves rt (wakeDrain rt p k w).rt.ledger w := by
  have hstay : (⟨rt, .drain p k⟩ : Machine).Inv ∧ Moves rt rt.ledger w := ⟨⟨hb, hinv⟩, .inl Ledger.Path.refl⟩
  cases w with
  | joined task =>
    unfold wakeDrain
    simp only
    split
    · exact hstay
    · exact hstay
    · exact hstay
    · rename_i c hc
      exact drainJoin_inv hb hinv hc
    · exact hstay
  | timer =>
    obtain ⟨h, hl⟩ := resumeDrain_inv hb hinv (fun A _ hw => drainTimer_leads hw) (drainTimer_good hb)
    exact ⟨h, .inl hl⟩
  | resumed =>
    obtain ⟨h, hl⟩ := resumeDrain_inv hb hinv (fun A _ hw => drainResumed_leads hw) (drainResumed_good hb)
    exact ⟨h, .inl hl⟩
  | noJoin =>
    obtain ⟨h, hl⟩ := resumeDrain_inv hb hinv (fun A _ hw => drainNoJoin_leads hw) (drainNoJoin_good hb)
    exact ⟨h, .inl hl⟩
  | _ => exact hstay

theorem wake_inv {m : Machine} (w : Wake) (h : m.Inv) : (wake m w).Inv ∧ Moves m.rt (wake m w).rt.ledger w := by
  obtain ⟨rt, phase⟩ := m
  obtain ⟨hb, hp⟩ := h
  cases phase with
  | main => exact wakeMain_inv w hb hp.1 hp.2
  | deadlineYield =>
    unfold wake
    simp only
    split
    · obtain ⟨h, hl⟩ := deadlineBatch_inv hb hp.1 hp.2
      exact ⟨h, .inl hl⟩
    · exact ⟨⟨hb, hp⟩, .inl Ledger.Path.refl⟩
  | drain p k => exact wakeDrain_inv w hb hp
  | exited result => exact ⟨⟨hb, hp⟩, .inl Ledger.Path.refl⟩

end Wake

/-! ## The environment -/

section Env

variable {rt : SupervisorRuntime}

theorem ledger_setStatus (task : TaskId) (status : TaskStatus) : (rt.setStatus task status).ledger = rt.ledger := by
  unfold ledger
  congr 1
  simp only [setStatus, List.map_map]
  apply List.map_congr_left
  intro t _
  simp only [Function.comp_apply]
  split <;> rfl

theorem ledger_markClean (task : TaskId) : (rt.markClean task).ledger = rt.ledger := by
  unfold markClean
  split
  · split
    · exact ledger_edit_quiet fun _ _ => rfl
    · rfl
  · rfl

theorem ledger_forwardSnapshot (spawn : TaskMeta) (snapshot : SupervisorSnapshot) :
    (rt.forwardSnapshot spawn snapshot).ledger = rt.ledger := by
  unfold forwardSnapshot
  simp only
  split <;> rfl

theorem isTimely_current {r : ChildReady} (h : rt.isTimely r = true) :
    ∃ m, rt.ledger.Current r m ∧ m.state = .starting := by
  unfold isTimely at h
  cases he : rt.children.get r.key with
  | none =>
    rw [he] at h
    cases h
  | some e =>
    rw [he, Option.any_some] at h
    simp only [Bool.and_eq_true, decide_eq_true_eq] at h
    obtain ⟨⟨⟨hl, hg⟩, hst⟩, -⟩ := h
    exact ⟨e.member, ⟨ledger_get he, hl, hg⟩, hst⟩

/-- The environment only ever sends readiness; all else is not in the ledger. -/
theorem env_ledger (e : EnvStep) : (rt.env e).ledger = rt.ledger ∨ Step .sent rt.ledger (rt.env e).ledger := by
  cases e with
  | submit command =>
    unfold env
    simp only
    split
    · exact .inl rfl
    · exact .inl rfl
  | markReady r =>
    unfold env
    simp only
    split
    · rename_i hr
      exact .inr (.sent r (rt.isTimely r) (List.contains_iff_mem.mp hr) isTimely_current)
    · exact .inl rfl
  | forward spawn snapshot => exact .inl (ledger_forwardSnapshot spawn snapshot)
  | conclude task c =>
    unfold env
    simp only
    split
    · exact .inl rfl
    · split
      · exact .inl rfl
      · refine .inl ((ledger_setStatus _ _).trans ?_)
        split
        · exact ledger_markClean task
        · rfl
  | settle task =>
    unfold env
    simp only
    split
    · exact .inl (ledger_setStatus _ _)
    · exact .inl rfl
  | _ => exact .inl rfl

/-- A phase stands through a readiness message. -/
theorem sent_phase {L L' : Ledger} {phase : Phase} (hs : Step .sent L L') (hb : L.Books) (h : phase.Inv L) :
    phase.Inv L' := by
  have hp : Ledger.Path (· = .sent) L L' := .single hs rfl
  have hmain : L.Open → L.Settled → L'.Open ∧ L'.Settled := fun ho hset =>
    (path_main (by rintro _ k rfl; exact ⟨nofun, nofun⟩) hp hb ho hset).2
  cases phase with
  | main => exact hmain h.1 h.2
  | deadlineYield => exact hmain h.1 h.2
  | exited result => trivial
  | drain p k =>
    cases k with
    | shutdown after =>
      cases hs
      exact h
    | restart keys freshGroupToken =>
      obtain ⟨ho, ⟨hprog, hset, hdef⟩, hn, hk⟩ := h
      have hprog' := progress_path [] (by rintro _ k rfl; exact nofun) hp hprog
      rw [deferring_nil] at hprog'
      refine ⟨hs.keeps_open (by nofun) ho, ⟨hprog', fun k hk => ?_, fun c hc => ?_, hdef.2⟩, hn, hk⟩
      · exact step_settledAt (by nofun) hs (hset k hk)
      · exact step_pending (by exact ⟨nofun, nofun, nofun⟩) hs hb (hdef.1 c hc)

end Env

/-! ## Steps of the machine -/

/-- What an input does to the ledger. -/
def Advances (rt : SupervisorRuntime) (L' : Ledger) : Input → Prop
  | .env _ => Ledger.Path Serves rt.ledger L'
  | .wake w => Moves rt L' w

theorem step_inv {m : Machine} (i : Input) (h : m.Inv) : (step m i).Inv ∧ Advances m.rt (step m i).rt.ledger i := by
  cases i with
  | wake w => exact wake_inv w h
  | env e =>
    obtain ⟨hb, hp⟩ := h
    rcases @env_ledger m.rt e with heq | hs
    · refine ⟨⟨?_, ?_⟩, .of_eq heq.symm⟩
      · show (m.rt.env e).ledger.Books
        exact heq ▸ hb
      · show m.phase.Inv (m.rt.env e).ledger
        exact heq ▸ hp
    · exact ⟨⟨step_books hs hb, sent_phase hs hb hp⟩, .single hs trivial⟩

/-! ## The start -/

namespace Ledger

/-- The ledger has the membership. -/
def Has (L : Ledger) (id : String) (lineage : Nat) : Prop :=
  ∃ k m, L.members.get k = some m ∧ m.id = id ∧ m.lineage = lineage

/-- Nobody has started, and the children at `rest` are still to be announced. -/
structure Announcing (rest : List ChildKey) (L : Ledger) : Prop where
  books : L.Books
  opened : L.Open
  fresh : ∀ k m, L.members.get k = some m → m.Fresh m.lineage
  told : ∀ k m, L.members.get k = some m → word L.log m.id m.lineage = if k ∈ rest then [] else [.added]
  only : ∀ id lineage, word L.log id lineage ≠ [] → L.Has id lineage

theorem Announcing.settled {rest : List ChildKey} {L : Ledger} (h : L.Announcing rest) : L.Settled := by
  intro k m hm hst
  rw [(h.fresh k m hm).state_eq] at hst
  cases hst

/-- The announcement of the next child. -/
theorem Announcing.next {key : ChildKey} {rest : List ChildKey} {L : Ledger} {m : Member} {d : LifecycleEventDraft}
    (h : L.Announcing (key :: rest)) (hk : key ∉ rest) (hm : L.members.get key = some m) (hd : d.For m .added) :
    (L.emit d).Announcing rest := by
  refine ⟨h.books.emit d, ⟨h.opened.running, h.opened.gate⟩, h.fresh, fun k x hx => ?_, fun id lineage hw => ?_⟩
  · by_cases hkey : k = key
    · subst hkey
      have hx : L.members.get k = some x := hx
      rw [hm] at hx
      cases hx
      have htold := h.told k m hm
      rw [if_pos (List.mem_cons_self ..)] at htold
      rw [word_emit_same hd, htold, if_neg hk]
      rfl
    · have hne : d.lineage ≠ x.lineage := by
        intro he
        exact hkey (h.books.lineage_inj k x key m hx hm (he.symm.trans hd.lineage_eq))
      rw [word_emit_other hne, h.told k x hx]
      simp only [List.mem_cons, hkey, false_or]
  · by_cases hsame : d.childId = id ∧ d.lineage = lineage
    · exact ⟨key, m, hm, hd.childId_eq.symm.trans hsame.1, hd.lineage_eq.symm.trans hsame.2⟩
    · have hlog : word (L.log ++ [d.at (L.seq + 1)]) id lineage ≠ [] := hw
      have hother : ¬ ((d.at (L.seq + 1)).childId = id ∧ (d.at (L.seq + 1)).lineage = lineage) := hsame
      rw [word_append, if_neg hother, List.append_nil] at hlog
      exact h.only id lineage hlog

/-- A publication announces nobody. -/
theorem Announcing.other {rest : List ChildKey} {L L' : Ledger} {s : SupervisorSnapshot} (h : L.Announcing rest)
    (hL : L' = { L with published := L.published ++ [s] }) : L'.Announcing rest := by
  subst hL
  exact ⟨h.books.congr rfl rfl rfl rfl rfl rfl rfl rfl, ⟨h.opened.running, h.opened.gate⟩, h.fresh, h.told, h.only⟩

end Ledger

section Start

/-- The memberships a configuration declares, with the lineages their bind mints. -/
def SupervisorConfig.static (c : SupervisorConfig) (b : Binding) : List (String × Nat) :=
  (c.children.zipIdx b.firstLineage).map fun d => (d.1.id, d.2)

/-- What the static children find. -/
structure Blank (L : Ledger) : Prop where
  books : L.Books
  opened : L.Open
  fresh : ∀ k m, L.members.get k = some m → m.Fresh m.lineage
  log_eq : L.log = []
  published_eq : L.published = []
  gate_eq : L.gate = none
  timelyReady_eq : L.timelyReady = []
  verdicts_eq : L.verdicts = []

theorem Blank.insert {L : Ledger} {key : ChildKey} {m : Member} (h : Blank L) (hget : L.members.get key = none)
    (hid : L.byId m.id = none) (hf : m.Fresh L.nextLineage) : Blank (L.insert key m) := by
  refine ⟨h.books.insert hget hid hf, ⟨h.opened.running, h.opened.gate⟩, fun k x hx => ?_, h.log_eq, h.published_eq,
    h.gate_eq, h.timelyReady_eq, h.verdicts_eq⟩
  have hx : (L.members.insertAt key m).get k = some x := hx
  rw [Slab.get_insertAt] at hx
  split at hx
  · cases hx
    exact hf.lineage_eq.symm ▸ hf
  · exact h.fresh k x hx

theorem has_insert {L : Ledger} {key : ChildKey} {m : Member} (hget : L.members.get key = none) (id : String) (lineage : Nat) :
    (L.insert key m).Has id lineage ↔ L.Has id lineage ∨ (id = m.id ∧ lineage = m.lineage) := by
  constructor
  · rintro ⟨k, x, hx, rfl, rfl⟩
    have hx : (L.members.insertAt key m).get k = some x := hx
    rw [Slab.get_insertAt] at hx
    split at hx
    · cases hx
      exact .inr ⟨rfl, rfl⟩
    · exact .inl ⟨k, x, hx, rfl, rfl⟩
  · rintro (⟨k, x, hx, hid, hl⟩ | ⟨rfl, rfl⟩)
    · have hk : k ≠ key := by
        rintro rfl
        rw [hget] at hx
        cases hx
      exact ⟨k, x, (Slab.get_insertAt_ne _ _ hk).trans hx, hid, hl⟩
    · exact ⟨key, m, Slab.get_insertAt_self .., rfl, rfl⟩

/-- The static children enter the books one after the other. -/
theorem insertAll : ∀ (ds : List ChildDefinition) (rt : SupervisorRuntime), Blank rt.ledger → (ds.map (·.id)).Nodup →
    (∀ d ∈ ds, d.id ≠ "") → (∀ d ∈ ds, rt.childrenById d.id = none) →
    let rt' := ds.foldl (fun rt d => rt.insertEntry d (staticChannels d)) rt
    Blank rt'.ledger ∧ ∀ id lineage, rt'.ledger.Has id lineage ↔
      rt.ledger.Has id lineage ∨ (id, lineage) ∈ (ds.zipIdx rt.nextLineage).map fun d => (d.1.id, d.2)
  | [], rt, h, _, _, _ => ⟨h, fun id lineage => by simp⟩
  | d :: ds, rt, h, hn, hne, hid => by
    obtain ⟨hnot, hn⟩ := List.nodup_cons.mp hn
    have hkey := ledger_get_none (slabKey_fresh rt)
    have hd := hne d (List.mem_cons_self ..)
    have hc : ¬ (d.kind.isSupervisor = true ∧ staticChannels d = none) := by
      rintro ⟨hk, hch⟩
      unfold staticChannels at hch
      cases hkind : d.kind with
      | task =>
        rw [hkind] at hk
        cases hk
      | supervisor channels =>
        rw [hkind] at hch
        cases hch
    have hnew := @member_new d (staticChannels d) rt.nextLineage (rt.cfg.host.seed rt.nextLineage) hd hc
    have hblank : Blank (rt.insertEntry d (staticChannels d)).ledger := by
      rw [ledger_insertEntry]
      exact h.insert hkey (hid d (List.mem_cons_self ..)) hnew
    have hids : ∀ d' ∈ ds, (rt.insertEntry d (staticChannels d)).childrenById d'.id = none := by
      intro d' hd'
      have hne' : d'.id ≠ d.id := fun he => hnot (List.mem_map.mpr ⟨d', hd', he⟩)
      show Function.update rt.childrenById d.id _ d'.id = none
      rw [Function.update_of_ne hne']
      exact hid d' (List.mem_cons_of_mem _ hd')
    obtain ⟨hb, hhas⟩ := insertAll ds (rt.insertEntry d (staticChannels d)) hblank hn
      (fun d' hd' => hne d' (List.mem_cons_of_mem _ hd')) hids
    refine ⟨hb, fun id lineage => (hhas id lineage).trans ?_⟩
    rw [ledger_insertEntry, has_insert hkey, List.zipIdx_cons, List.map_cons, List.mem_cons, or_assoc]
    refine or_congr_right (or_congr ?_ Iff.rfl)
    show id = d.id ∧ lineage = rt.nextLineage ↔ _
    rw [Prod.mk.injEq]

theorem new_blank (c : SupervisorConfig) (b : Binding) :
    Blank (SupervisorRuntime.new c b).ledger ∧
      ∀ id lineage, (SupervisorRuntime.new c b).ledger.Has id lineage ↔ (id, lineage) ∈ c.static b := by
  let cfg : RuntimeMeta := ⟨c.host, c.strategy, c.kind, c.defaultChildRestart, c.defaultChildShutdown, b.revivable⟩
  have hnone : ∀ k m, (SupervisorRuntime.blank cfg b).ledger.members.get k = some m → False := by
    intro k m hm
    obtain ⟨e, he, -⟩ := get_of_ledger hm
    cases he
  have hempty : Blank (SupervisorRuntime.blank cfg b).ledger := by
    refine ⟨?_, ⟨rfl, fun _ => rfl⟩, fun k m hm => (hnone k m hm).elim, rfl, rfl, rfl, rfl, rfl⟩
    refine
      { order_nodup := List.nodup_nil
        order_mem := fun k => ⟨(nomatch ·), fun ⟨m, hm⟩ => (hnone k m hm).elim⟩
        byId_iff := fun id k => ⟨(nomatch ·), fun ⟨m, hm, _⟩ => (hnone k m hm).elim⟩
        id_nonempty := fun k m hm => (hnone k m hm).elim
        lineage_lt := fun k m hm => (hnone k m hm).elim
        lineage_inj := fun k m _ _ hm => (hnone k m hm).elim
        active_iff := fun k m hm => (hnone k m hm).elim
        started := fun k m hm => (hnone k m hm).elim
        accepted := fun k m hm => (hnone k m hm).elim
        present := fun k m hm => (hnone k m hm).elim
        task_record := fun k m _ hm => (hnone k m hm).elim
        record_task := fun _ _ _ _ h => by cases h
        record_lt := fun _ _ h => by cases h
        record_inj := fun _ _ _ _ h => by cases h
        record_iff := fun t => ⟨(nomatch ·), fun ⟨r, h⟩ => nomatch h⟩
        live_eq := rfl
        spawned_idle := fun s hs => by cases hs }
  obtain ⟨hb, hhas⟩ := insertAll c.children (SupervisorRuntime.blank cfg b) hempty c.ids_nodup c.ids_nonempty
    fun _ _ => rfl
  refine ⟨hb, fun id lineage => (hhas id lineage).trans ⟨?_, .inr⟩⟩
  rintro (⟨k, m, hm, -⟩ | h)
  · exact (hnone k m hm).elim
  · exact h

/-- The labels of the announcements. -/
def Announces (l : Label) : Prop := l = .other ∨ l = .announced

theorem announce_one {rt : SupervisorRuntime} {key : ChildKey} {rest : List ChildKey} (hk : key ∉ rest)
    (h : rt.ledger.Announcing (key :: rest)) :
    (rt.sendLifecycle key .added).ledger.Announcing rest ∧
      Ledger.Path Announces rt.ledger (rt.sendLifecycle key .added).ledger := by
  refine ⟨?_, announces (.inr rfl) (.inl rfl)⟩
  cases hget : rt.children.get key with
  | none =>
    have heq : rt.sendLifecycle key .added = rt := by simp [sendLifecycle, lifecycleDraft, hget]
    rw [heq]
    refine ⟨h.books, h.opened, h.fresh, fun k m hm => ?_, h.only⟩
    have hne : k ≠ key := by
      rintro rfl
      rw [ledger_get_none hget] at hm
      cases hm
    rw [h.told k m hm]
    simp only [List.mem_cons, hne, false_or]
  | some e =>
    obtain ⟨d, hd, heq⟩ := sendLifecycle_eq .added hget
    have hnext := h.next hk (ledger_get hget) hd
    rw [heq]
    unfold sendLifecycleDraft
    simp only
    split
    · exact hnext
    · exact hnext.other rfl

theorem announce_all : ∀ (rest : List ChildKey) (rt : SupervisorRuntime), rest.Nodup → rt.ledger.Announcing rest →
    (rest.foldl (fun rt key => rt.sendLifecycle key .added) rt).ledger.Announcing [] ∧
      Ledger.Path Announces rt.ledger (rest.foldl (fun rt key => rt.sendLifecycle key .added) rt).ledger
  | [], _, _, h => ⟨h, Ledger.Path.refl⟩
  | key :: rest, rt, hn, h => by
    obtain ⟨hk, hn⟩ := List.nodup_cons.mp hn
    obtain ⟨h1, hp1⟩ := announce_one hk h
    obtain ⟨h2, hp2⟩ := announce_all rest (rt.sendLifecycle key .added) hn h1
    exact ⟨h2, hp1.trans hp2⟩

/-- Once everyone is announced the static children are scheduled. -/
theorem startup_schedules {rt : SupervisorRuntime} (keys : List ChildKey) (hasParent : Bool) (hn : keys.Nodup)
    (h : rt.ledger.Announcing []) :
    Act.Runs (Leads Commands) (do
      if hasParent then
        Act.modify fun rt => { rt with startupGate := some (keys.filterMap fun key =>
          (rt.children.get key).map fun e => (key, e.lineage)) }
      scheduleStartSequence keys false
      Act.modify completeEmptyStartupGate : RuntimeM Unit) rt fun _ _ => True := by
  have hrest : ∀ rt1 : SupervisorRuntime, rt1.ledger = rt.ledger → Act.Runs (Leads Commands) (do
      scheduleStartSequence keys false
      Act.modify completeEmptyStartupGate : RuntimeM Unit) rt1 fun _ _ => True := by
    intro rt1 h1
    rw [← h1] at h
    refine Act.runs_bind ((scheduleStartSequence_runs keys false h.opened hn ?_).mono fun _ =>
      leads_mono fun _ => Schedules.commands) fun _ rt2 _ _ => ?_
    · intro k _ m hm
      exact (h.fresh k m hm).hasStarted_eq
    · exact Act.runs_modify (leads_of_ledger_eq ledger_completeEmptyStartupGate) trivial
  cases hasParent with
  | true => exact Act.runs_modify_bind Ledger.Path.refl (hrest _ rfl)
  | false => exact hrest rt rfl

/-- The startup announces the static children, then schedules them. -/
theorem startup_leads (c : SupervisorConfig) (b : Binding) :
    ∃ L, Ledger.Path Announces (SupervisorRuntime.new c b).ledger L ∧ L.Announcing [] ∧
      Ledger.Path Commands L (startup b.hasParent (.new c b)).2.ledger := by
  let rt0 := SupervisorRuntime.new c b
  let rt1 := rt0.sendSupervisorEvent .supervisorStarted
  let rt2 := rt1.childOrder.foldl (fun rt key => rt.sendLifecycle key .added) rt1
  obtain ⟨hblank, -⟩ := new_blank c b
  have h1 : rt1.ledger = rt0.publishSnapshot.ledger := ledger_sendSupervisorEvent _
  have hall : ∀ k m, rt0.ledger.members.get k = some m → k ∈ rt0.childOrder :=
    fun k m hm => (hblank.books.order_mem k).mpr ⟨m, hm⟩
  have horder : rt1.childOrder = rt0.childOrder := by
    show rt1.ledger.order = _
    rw [h1]
    rfl
  have hann : rt1.ledger.Announcing rt1.childOrder := by
    have h0 : rt0.ledger.Announcing rt1.childOrder := by
      refine ⟨hblank.books, hblank.opened, hblank.fresh, fun k m hm => ?_, fun id lineage hw => ?_⟩
      · rw [hblank.log_eq, horder, if_pos (hall k m hm)]
        rfl
      · rw [hblank.log_eq] at hw
        exact absurd rfl hw
    exact h0.other h1
  obtain ⟨h2, hp2⟩ := announce_all rt1.childOrder rt1 (horder ▸ hblank.books.order_nodup) hann
  have hp1 : Ledger.Path Announces rt0.ledger rt1.ledger := by
    rw [h1]
    exact publishes (.inl rfl)
  have hrun := startup_schedules rt1.childOrder b.hasParent (horder ▸ hblank.books.order_nodup) h2
  have hsplit : startup b.hasParent rt0 = (do
      if b.hasParent then
        Act.modify fun rt => { rt with startupGate := some (rt1.childOrder.filterMap fun key =>
          (rt.children.get key).map fun e => (key, e.lineage)) }
      scheduleStartSequence rt1.childOrder false
      Act.modify completeEmptyStartupGate : RuntimeM Unit) rt2 := by
    unfold startup
    rw [Act.run_modify_bind, Act.run_get_bind, Act.run_bind, Act.run_forEach_modify]
  exact ⟨rt2.ledger, hp1.trans hp2, h2, hsplit ▸ hrun.1⟩

/-- A machine starts by announcing its static children; all else is steps from there. -/
theorem start_inv (c : SupervisorConfig) (b : Binding) :
    ∃ L, Ledger.Path Announces (SupervisorRuntime.new c b).ledger L ∧ L.Announcing [] ∧ (start c b).Inv ∧
      Ledger.Path Serves L (start c b).rt.ledger := by
  obtain ⟨L, hp, hann, hlead⟩ := startup_leads c b
  obtain ⟨hinv, hserves⟩ := continueMain_inv (m := startup b.hasParent) (fun _ => Commands.serves)
    (fun _ k hl => Commands.quiet hl k) hann.books hann.opened hann.settled hlead
  exact ⟨L, hp, hann, hinv, hserves⟩

end Start

/-! ## Runs -/

theorem run_append (m : Machine) (is js : List Input) : run m (is ++ js) = run (run m is) js :=
  List.foldl_append

theorem run_inv (c : SupervisorConfig) (b : Binding) (inputs : List Input) : (run (start c b) inputs).Inv := by
  induction inputs using List.reverseRecOn with
  | nil =>
    obtain ⟨-, -, -, h, -⟩ := start_inv c b
    exact h
  | append_singleton is i ih =>
    rw [run_append]
    exact (step_inv i ih).1

/-- What every step but an announcement keeps, the handlers keep. -/
theorem serves_keeps {I : Ledger → Prop} {L L' : Ledger} (hp : Ledger.Path Serves L L') (hb : L.Books)
    (hI : ∀ {l L L'}, l ≠ .announced → Step l L L' → L.Books → I L → I L') (hL : I L) : I L' := by
  refine (hp.keeps (I := fun L => L.Books ∧ I L) (fun hl hs hL => ⟨step_books hs hL.1, hI ?_ hs hL.1 hL.2⟩) ⟨hb, hL⟩).2
  rintro rfl
  exact hl

theorem Advances.keeps {I : Ledger → Prop} {rt : SupervisorRuntime} {L' : Ledger} {i : Input} (h : Advances rt L' i)
    (hb : rt.ledger.Books) (hI : ∀ {l L L'}, l ≠ .announced → Step l L L' → L.Books → I L → I L') (hL : I rt.ledger) :
    I L' := by
  cases i with
  | env e => exact serves_keeps h hb hI hL
  | wake w =>
    rcases h with h | ⟨task, t, c, L, -, -, -, hs, h⟩
    · exact serves_keeps h hb hI hL
    · exact serves_keeps h (step_books hs hb) hI (hI (by nofun) hs hb hL)

/-- The rule for a property that the announced start has. -/
theorem run_keeps {I : Ledger → Prop} (h0 : ∀ L : Ledger, L.Announcing [] → I L)
    (hI : ∀ {l L L'}, l ≠ .announced → Step l L L' → L.Books → I L → I L') (c : SupervisorConfig) (b : Binding)
    (inputs : List Input) : I (run (start c b) inputs).rt.ledger := by
  induction inputs using List.reverseRecOn with
  | nil =>
    obtain ⟨L, -, hann, -, hp⟩ := start_inv c b
    exact serves_keeps hp hann.books hI (h0 L hann)
  | append_singleton is i ih =>
    rw [run_append]
    exact (step_inv i (run_inv c b is)).2.keeps (run_inv c b is).books hI ih

/-- The same from any state of the machine on, for a property that every step keeps. -/
theorem run_keeps_from {I : Ledger → Prop} (hI : ∀ {l L L'}, Step l L L' → L.Books → I L → I L') :
    ∀ (inputs : List Input) {m : Machine}, m.Inv → I m.rt.ledger → I (run m inputs).rt.ledger
  | [], _, _, h => h
  | i :: is, _, hinv, h => run_keeps_from hI is (step_inv i hinv).1 ((step_inv i hinv).2.keeps hinv.books (fun _ => hI) h)

/-- The rule for a property that every step keeps, the announcements too. -/
theorem run_keeps_all {I : Ledger → Prop} (c : SupervisorConfig) (b : Binding)
    (h0 : Blank (SupervisorRuntime.new c b).ledger → I (SupervisorRuntime.new c b).ledger)
    (hI : ∀ {l L L'}, Step l L L' → L.Books → I L → I L') (inputs : List Input) :
    I (run (start c b) inputs).rt.ledger := by
  refine run_keeps_from hI inputs (run_inv c b []) ?_
  obtain ⟨L, hp0, hann, -, hp⟩ := start_inv c b
  obtain ⟨hblank, -⟩ := new_blank c b
  have hL : L.Books ∧ I L := hp0.keeps (I := fun L => L.Books ∧ I L)
    (fun _ hs hL => ⟨step_books hs hL.1, hI hs hL.1 hL.2⟩) ⟨hblank.books, h0 hblank⟩
  exact serves_keeps hp hann.books (fun _ => hI) hL.2

end Kokage.Supervisor

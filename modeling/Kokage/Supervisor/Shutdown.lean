/-
  Kokage.Supervisor.Shutdown — what a successful shutdown says about the children.

  A shutdown reports every child that overran its grace. A child it aborts at once is
  promised no grace, so it is never reported: the ordered drain moves its cursor on when
  the window after the abort elapses, the concurrent drain stops looking after its last
  sweep of ready joins. An abort lands at the task's next poll, so either can come first.

  - `shutdown_joined`: if whoever the cursor leaves behind is joined before the drain ends,
    and every abort has landed when the last sweep ends (or some child has timed out), a
    shutdown that succeeds has joined every child task.
  - `shutdown_leaves_running`: a child that is slow to poll outlives a shutdown that
    returned `Ok`.
-/

import Kokage.Supervisor.Readiness
import Kokage.Supervisor.Winding

namespace Kokage.Supervisor

open Kokage.Lib Ledger SupervisorRuntime

/-! ## Where the loop is left -/

/-- The supervisor is in its loop, or in the drain of a restart. -/
def Phase.Serving : Phase → Prop
  | .main | .deadlineYield | .drain _ (.restart _ _) => True
  | .drain _ (.shutdown _) | .exited _ => False

/-- Where a step of a serving supervisor leads: on, or out of the loop with its books in
    order. -/
inductive Served : Machine → Prop
  | serving {m : Machine} : m.phase.Serving → Served m
  | left {rt : SupervisorRuntime} (reason : ExitReason) : rt.ledger.Books → rt.ledger.Open → Served (exitWith reason rt)

section Served

variable {rt : SupervisorRuntime}

theorem continueMain_served {m : RuntimeM Unit} (hb : (m rt).2.ledger.Books) (ho : (m rt).2.ledger.Open) :
    Served (continueMain m rt) := by
  unfold continueMain
  generalize m rt = q at hb ho
  obtain ⟨r, rt1⟩ := q
  cases r with
  | ok _ => exact .serving trivial
  | error reason => exact .left reason hb ho

theorem wakeMain_served (w : Wake) (hb : rt.ledger.Books) (ho : rt.ledger.Open) (hs : rt.ledger.Settled) :
    Served (wakeMain rt w) := by
  cases w with
  | shutdown =>
    unfold wakeMain
    simp only
    split
    · exact .left .shutdown hb ho
    · exact .serving trivial
  | command =>
    unfold wakeMain
    simp only
    split
    · rename_i command rest _ _
      have ho' : ({ rt with commandRx := rest } : SupervisorRuntime).ledger.Open := ho
      have hlead := handleCommand_leads command ho'
      exact continueMain_served (path_books hlead hb) (leads_open (fun _ => Commands.not_shutdown) hlead ho')
    · exact .serving trivial
    · exact .serving trivial
  | ready =>
    unfold wakeMain
    simp only
    split
    · rename_i ready rest hrx
      have hlead := handleChildReady_leads ho hs hrx
      exact continueMain_served (path_books hlead hb) (leads_open (fun _ => Starts.not_shutdown) hlead ho)
    · exact .serving trivial
  | nestedSnapshot =>
    unfold wakeMain
    simp only
    split
    · exact .serving trivial
    · exact .serving trivial
  | deadline =>
    unfold wakeMain
    simp only
    split
    · exact .serving trivial
    · exact .serving trivial
  | joined task =>
    unfold wakeMain
    simp only
    split
    · rename_i c hc
      rcases handleJoinedChild_leads (c := c) hb ho (mem_of_joinable hc) with hlead | ⟨t, ht, L, hstep, hlead⟩
      · exact continueMain_served (path_books hlead hb) (leads_open (fun _ hl => by rw [hl]; exact nofun) hlead ho)
      · exact continueMain_served (path_books hlead (step_books hstep hb))
          (hlead.keeps_open (fun _ => Applies.not_shutdown) (hstep.keeps_open (by exact nofun) ho))
    · exact .serving trivial
  | timer => exact .serving trivial
  | resumed => exact .serving trivial
  | noJoin => exact .serving trivial

theorem resumeRestart_served {keys : List ChildKey} {scope : DrainScope} (freshGroupToken : Bool) {out : DrainOut}
    (hb : rt.ledger.Books) (ho : rt.ledger.Open) (hout : out.Inv scope rt.ledger) (hn : keys.Nodup)
    (hk : ∀ k ∈ keys, scope.contains k = true) : Served (resumeRestart keys freshGroupToken (out, rt)) := by
  cases out with
  | await p => exact .serving trivial
  | done result =>
    cases result with
    | error e => exact .left _ hb ho
    | ok completed =>
      obtain ⟨exits, ⟨rfl, hi⟩, hd, -⟩ := hout
      have hlead := @finishRestart_leads rt keys freshGroupToken _ hb ho hn (fun k h => hi k (hk k h)) hd
      exact continueMain_served (path_books hlead hb) (leads_open (fun _ => Resumes.not_shutdown) hlead ho)

theorem deadlineBatch_served (hb : rt.ledger.Books) (ho : rt.ledger.Open) (hs : rt.ledger.Settled) :
    Served (deadlineBatch rt) := by
  obtain ⟨hlead, hkeys⟩ := deadlineBatch_runs ho
  unfold deadlineBatch
  simp only
  generalize (drainDeadlineCommandBatch rt.commandRx >>= fun _ => handleDeadlines) rt = q at hlead hkeys
  obtain ⟨r, rt1⟩ := q
  obtain ⟨hb1, ho1, hs1⟩ := path_main (fun _ k hl => Commands.quiet hl k) hlead hb ho hs
  have hgroup : ∀ keys reason scope fresh, keys.Nodup → (∀ k ∈ keys, scope.contains k = true) → reason ≠ .shutdown →
      Served (resumeRestart keys fresh (rt1.startDrain reason scope)) := by
    intro keys reason scope fresh hn hk hr
    obtain ⟨hbd, hod, hout⟩ := startDrain_restart scope hb1 ho1 hs1 hr
    exact resumeRestart_served fresh hbd hod hout hn hk
  cases r with
  | error reason => exact .left reason hb1 ho1
  | ok keys =>
    cases keys with
    | none => exact .serving trivial
    | some keys =>
      have hn : keys.Nodup := (hkeys _ _ rfl keys rfl).nodup hb1.order_nodup
      simp only
      split
      · exact hgroup keys .groupRestart .all true hn (fun _ _ => rfl) (by decide)
      · exact hgroup keys .restForOneRestart (.subset keys) false hn (fun _ => subset_contains) (by decide)

theorem restartDrain_served {p : DrainPhase} {keys : List ChildKey} {freshGroupToken : Bool} (w : Wake)
    (hb : rt.ledger.Books) (hinv : (Continuation.restart keys freshGroupToken).Inv p rt.ledger) :
    Served (wakeDrain rt p (.restart keys freshGroupToken) w) := by
  have hprog := hinv.2.1.progress
  have hstay : Served ⟨rt, .drain p (.restart keys freshGroupToken)⟩ := .serving trivial
  have hout : ∀ {out : DrainOut × SupervisorRuntime}, Leads (Stops p.scope) rt out.2 →
      out.1.Good p.scope p.deferred out.2.ledger → Served (resumeRestart keys freshGroupToken out) := by
    intro out hlead hgood
    obtain ⟨hb1, ho1, hout⟩ := restartDrain_out hb hinv hlead hgood
    exact resumeRestart_served freshGroupToken hb1 ho1 hout hinv.2.2.1 hinv.2.2.2
  cases w with
  | joined task =>
    unfold wakeDrain
    simp only
    split
    · exact hstay
    · exact hstay
    · exact hstay
    · rename_i hc
      obtain ⟨hb1, ho1, hout⟩ := restartDrain_joined hb hinv (mem_of_joinable hc)
      exact resumeRestart_served freshGroupToken hb1 ho1 hout hinv.2.2.1 hinv.2.2.2
    · exact hstay
  | timer => exact hout (drainTimer_leads hprog.stopping) (drainTimer_good hb hprog)
  | resumed => exact hout (drainResumed_leads hprog.stopping) (drainResumed_good hb hprog)
  | noJoin => exact hout (drainNoJoin_leads hprog.stopping) (drainNoJoin_good hb hprog)
  | _ => exact hstay

/-- A wake of a serving supervisor. -/
theorem wake_served {m : Machine} (w : Wake) (hinv : m.Inv) (h : m.phase.Serving) : Served (wake m w) := by
  obtain ⟨rt, phase⟩ := m
  obtain ⟨hb, hp⟩ := hinv
  cases phase with
  | main => exact wakeMain_served w hb hp.1 hp.2
  | deadlineYield =>
    unfold wake
    simp only
    split
    · exact deadlineBatch_served hb hp.1 hp.2
    · exact .serving trivial
  | drain p k =>
    cases k with
    | restart keys freshGroupToken => exact restartDrain_served w hb hp
    | shutdown after => cases h
  | exited result => cases h

end Served

/-! ## The drain of a shutdown -/

/-- Where a shutdown drain stands: who is still active is yet to come, is waited for, or
    was left behind. Of those left behind `P` holds unless some child has timed out. -/
def DrainPhase.Winding (P : ChildKey → Prop) : DrainPhase → Ledger → Prop
  | .ordered d w, L => d.scope = .all ∧ d.reason = .shutdown ∧ w.key.isSome = true ∧
      (d.timedOut = [] → ∀ k ∈ d.remaining, P k) ∧ Covered L .all fun k => k ∈ d.rest ∨ k ∈ d.remaining ∨ w.key = some k
  | .concurrent d _, _ => d.scope = .all ∧ d.reason = .shutdown

/-- The outcome of a step of a shutdown drain: who is active at its end was left behind. -/
def DrainOut.Winds (P : ChildKey → Prop) : DrainOut → Ledger → Prop
  | .await p, L => p.Winding P L
  | .done (.ok _), L => ∀ k, ¬ P k → Inactive L k
  | .done (.error _), _ => True

/-- Some child has overrun its grace. -/
def DrainPhase.overran : DrainPhase → Bool
  | .ordered d _ => !d.timedOut.isEmpty
  | .concurrent d _ => !d.timedOut.isEmpty

def Task.isSettled (t : Task) : Bool :=
  match t.status with
  | .finished _ => true
  | _ => false

/-- Every task still in the set has come to its end. -/
def SupervisorRuntime.allSettled (rt : SupervisorRuntime) : Bool := rt.joinSet.all (·.isSettled)

/-- No task that has come to its end is still in the set. -/
def SupervisorRuntime.allTaken (rt : SupervisorRuntime) : Bool := rt.joinSet.all fun t => !t.isSettled

namespace SupervisorRuntime

variable {rt : SupervisorRuntime} {d : OrderedDrain} {w : OrderedWait} {c : ConcurrentDrain}
  {P : ChildKey → Prop}

theorem orderedEnd_winds (hr : d.reason = .shutdown) (ht : d.timedOut = [] → ∀ k ∈ d.remaining, P k)
    (hc : Covered rt.ledger .all fun k => k ∈ d.remaining) : (rt.orderedEnd d).Winds P rt.ledger := by
  unfold orderedEnd
  rw [if_neg fun h => h.2.2 hr]
  unfold orderedResult
  by_cases h : d.timedOut = []
  · rw [if_neg (by simpa using h), if_neg (by simp)]
    intro k hnot
    exact hc k rfl fun hm => hnot (ht h k hm)
  · rw [if_pos h]
    trivial

theorem orderedWalk_winds (ha : d.scope = .all) (hr : d.reason = .shutdown) (ht : d.timedOut = [] → ∀ k ∈ d.remaining, P k)
    (keys : List ChildKey) (hb : rt.ledger.Books) (hc : Covered rt.ledger .all fun k => k ∈ keys ∨ k ∈ d.remaining) :
    (orderedWalk d keys rt).1.Winds P (orderedWalk d keys rt).2.ledger := by
  have hall : ∀ k ∈ keys, d.scope.contains k = true := by
    intro k _
    rw [ha]
    rfl
  rcases orderedWalk_cases keys hb hall (ha ▸ hc) with ⟨hend, hcov⟩ | ⟨rest, w, hw, hkey, -, hcov⟩
  · rw [hend]
    exact orderedEnd_winds (d := { d with rest := [] }) hr ht (ha ▸ hcov)
  · rw [hw]
    exact ⟨ha, hr, hkey, ht, ha ▸ hcov⟩

theorem orderedStopped_winds (hb : rt.ledger.Books) (hp : (DrainPhase.ordered d w).Winding P rt.ledger)
    (hi : ∀ k, w.key = some k → Inactive rt.ledger k) :
    (orderedStopped d w rt).1.Winds P (orderedStopped d w rt).2.ledger := by
  obtain ⟨ha, hr, hkey, ht, hc⟩ := hp
  have hleave := covered_leave (d := d) (ha ▸ hc) hi
  rw [ha] at hleave
  cases w with
  | grace key deadline grace => exact orderedWalk_winds ha hr ht d.rest hb hleave
  | tidy key deadline => exact ⟨ha, hr, rfl, ht, hc⟩
  | yielded key => exact ⟨ha, hr, rfl, ht, hc⟩
  | window key deadline => exact orderedWalk_winds ha hr ht d.rest hb hleave
  | stragglers deadline => cases hkey

theorem orderedExpired_winds (hb : rt.ledger.Books) (hp : (DrainPhase.ordered d w).Winding P rt.ledger)
    (hl : ∀ key deadline, w = .window key deadline → d.timedOut = [] → P key) :
    (orderedExpired d w rt).1.Winds P (orderedExpired d w rt).2.ledger := by
  obtain ⟨ha, hr, hkey, ht, hc⟩ := hp
  cases w with
  | grace key deadline grace =>
    unfold orderedExpired
    simp only [if_pos hr]
    rw [ledger_escalateChild]
    exact ⟨ha, hr, rfl, fun h => absurd h (by simp), hc⟩
  | tidy key deadline =>
    unfold orderedExpired
    simp only
    rw [ledger_abortChild]
    exact ⟨ha, hr, rfl, ht, hc⟩
  | yielded key => exact ⟨ha, hr, rfl, ht, hc⟩
  | window key deadline =>
    -- one more child is left behind
    refine orderedWalk_winds (d := { d with remaining := d.remaining ++ [key] }) ha hr (fun h k hk => ?_) d.rest hb ?_
    · rcases List.mem_append.mp hk with hk | hk
      · exact ht h k hk
      · rw [List.mem_singleton.mp hk]
        exact hl key deadline rfl h
    intro k hk hP
    refine hc k hk ?_
    rintro (h | h | h)
    · exact hP (.inl h)
    · exact hP (.inr (List.mem_append_left _ h))
    · cases h
      exact hP (.inr (List.mem_append_right _ (List.mem_singleton_self _)))
  | stragglers deadline => cases hkey

theorem orderedRecheck_winds (hb : rt.ledger.Books) (hp : (DrainPhase.ordered d w).Winding P rt.ledger) :
    (orderedRecheck d w rt).1.Winds P (orderedRecheck d w rt).2.ledger := by
  have hone : ∀ key, w.key = some key →
      (if rt.isChildActive key then ((.await (.ordered d w), rt) : DrainOut × SupervisorRuntime)
        else orderedStopped d w rt).1.Winds P
        (if rt.isChildActive key then ((.await (.ordered d w), rt) : DrainOut × SupervisorRuntime)
        else orderedStopped d w rt).2.ledger := by
    intro key hw
    by_cases ha : rt.isChildActive key = true
    · simp only [if_pos ha]
      exact hp
    · simp only [if_neg ha]
      refine orderedStopped_winds hb hp fun k hk => ?_
      rw [hw] at hk
      cases hk
      exact inactive_of_isChildActive hb (by simpa using ha)
  cases w with
  | grace key deadline grace => exact hone key rfl
  | tidy key deadline => exact hone key rfl
  | window key deadline => exact hone key rfl
  | yielded key => exact hp
  | stragglers deadline => cases hp.2.2.1

theorem orderedYielded_winds {key : ChildKey} (hb : rt.ledger.Books)
    (hp : (DrainPhase.ordered d (.yielded key)).Winding P rt.ledger) :
    (orderedYielded d key rt).1.Winds P (orderedYielded d key rt).2.ledger := by
  obtain ⟨ha, hr, hkey, ht, hc⟩ := hp
  unfold orderedYielded
  by_cases hact : rt.isChildActive key = true
  · rw [if_pos hact]
    exact ⟨ha, hr, rfl, ht, hc⟩
  · rw [if_neg hact]
    have hleave := covered_leave (d := d) (w := .yielded key) (ha ▸ hc) fun k hk => by
      cases hk
      exact inactive_of_isChildActive hb (by simpa using hact)
    exact orderedWalk_winds ha hr ht d.rest hb (ha ▸ hleave)

theorem concurrentEnd_winds (hr : c.reason = .shutdown)
    (h : c.timedOut = [] → ∀ k, Inactive rt.ledger k) : (rt.concurrentEnd c).Winds P rt.ledger := by
  unfold concurrentEnd
  simp only
  by_cases ht : c.timedOut = []
  · rw [if_neg (by simpa using ht), if_neg fun h => h.2 hr]
    exact fun k _ => h ht k
  · rw [if_pos ht]
    trivial

theorem concurrentLeave_winds (hb : rt.ledger.Books) (ha : c.scope = .all) (hr : c.reason = .shutdown) :
    (rt.concurrentLeave c).1.Winds P (rt.concurrentLeave c).2.ledger := by
  unfold concurrentLeave
  split
  · exact ⟨ha, hr⟩
  · rename_i hn
    have hnone : rt.activeTaskNames c.scope = "" := by simpa using hn
    refine concurrentEnd_winds hr fun _ k => inactive_of_childNames hb hnone ?_
    rw [ha]
    rfl

theorem concurrentLoop_winds (hb : rt.ledger.Books) (ha : c.scope = .all) (hr : c.reason = .shutdown) :
    (rt.concurrentLoop c).1.Winds P (rt.concurrentLoop c).2.ledger := by
  unfold concurrentLoop
  split
  · exact concurrentLeave_winds hb ha hr
  · simp only
    split
    · exact concurrentLeave_winds (c := { c with deadlines := _ }) hb ha hr
    · exact ⟨ha, hr⟩

theorem concurrentTimer_winds (hb : rt.ledger.Books) (ha : c.scope = .all) (hr : c.reason = .shutdown) :
    (concurrentTimer c rt).1.Winds P (concurrentTimer c rt).2.ledger := by
  rw [concurrentTimer_eq]
  obtain ⟨h1, h2, h3, -, -⟩ := expireGrace_fold (expiredGraces c rt.now) (c, rt)
  generalize (expiredGraces c rt.now).foldl (fun x p => expireGrace x p.1 p.2) (c, rt) = y at h1 h2 h3 ⊢
  obtain ⟨c', rt'⟩ := y
  simp only [concurrentDue] at h1 h2 h3 ⊢
  refine concurrentLoop_winds (c := { c' with deadlines := _ }) ?_ (h2.trans ha) (h3.trans hr)
  rw [ledger_foldl (fun rt k => ledger_abortChild k), h1]
  exact hb

/-! ### Any step of it -/

variable {p : DrainPhase}

theorem drainTimer_winds (hb : rt.ledger.Books) (hp : p.Winding P rt.ledger)
    (hl : ∀ d key deadline, p = .ordered d (.window key deadline) → deadline ≤ rt.now → d.timedOut = [] → P key) :
    (drainTimer p rt).1.Winds P (drainTimer p rt).2.ledger := by
  cases p with
  | ordered d w =>
    unfold drainTimer
    simp only
    split
    · rename_i hdue
      refine orderedExpired_winds hb hp ?_
      rintro key deadline rfl
      exact hl d key deadline rfl (by simpa [orderedDeadline] using hdue)
    · exact hp
  | concurrent d w =>
    unfold drainTimer
    simp only
    split
    · exact concurrentTimer_winds hb hp.1 hp.2
    · exact hp

theorem drainResumed_winds (hb : rt.ledger.Books) (hp : p.Winding P rt.ledger) :
    (drainResumed p rt).1.Winds P (drainResumed p rt).2.ledger := by
  unfold drainResumed
  split
  · exact orderedYielded_winds hb hp
  · exact hp
  · exact hp
  · exact hp

theorem concurrentSwept_winds {v : ConcurrentWait} (hb : rt.ledger.Books) (hp : (DrainPhase.concurrent c v).Winding P rt.ledger)
    (hl : v = .lastSweep → c.timedOut = [] → rt.joinSet = []) :
    (concurrentSwept c v rt).1.Winds P (concurrentSwept c v rt).2.ledger := by
  cases v with
  | sweep =>
    unfold concurrentSwept
    by_cases hd : rt.isDrained c.scope = true
    · simp only [if_pos hd]
      intro k _
      refine inactive_of_isDrained hb hd ?_
      rw [hp.1]
      rfl
    · simp only [if_neg hd]
      exact concurrentLoop_winds hb hp.1 hp.2
  | lastSweep => exact concurrentEnd_winds hp.2 fun ht _ => inactive_of_no_task hb (hl rfl ht)
  | yield => exact hp
  | select => exact hp
  | lastYield => exact hp

theorem drainNoJoin_winds (hb : rt.ledger.Books) (hp : p.Winding P rt.ledger)
    (hl : ∀ c, p = .concurrent c .lastSweep → c.timedOut = [] → rt.joinSet = []) :
    (drainNoJoin p rt).1.Winds P (drainNoJoin p rt).2.ledger := by
  unfold drainNoJoin
  split
  · split
    · rename_i he
      exact orderedStopped_winds hb hp fun _ _ => inactive_of_no_task hb (by simpa using he)
    · exact hp
  · split
    · exact concurrentLeave_winds hb hp.1 hp.2
    · exact hp
  · exact concurrentSwept_winds hb hp fun hv ht => hl _ (by rw [hv]) ht

theorem winding_path {A : Label → Prop} {L L' : Ledger} (exits : List ClassifiedExit)
    (hA : ∀ l k, A l → l ≠ .spawned k) (hpath : Ledger.Path A L L') (h : p.Winding P L) : (deferring p exits).Winding P L' := by
  cases p with
  | ordered d w =>
    obtain ⟨ha, hr, hkey, ht, hc⟩ := h
    exact ⟨ha, hr, hkey, ht, hc.path hA hpath⟩
  | concurrent d w => exact h

theorem rejoined_winds (hb : rt.ledger.Books) (hp : p.Winding P rt.ledger) :
    (rejoined p rt).1.Winds P (rejoined p rt).2.ledger := by
  cases p with
  | ordered d w => exact orderedRecheck_winds hb hp
  | concurrent d w =>
    unfold rejoined
    simp only
    split
    · exact concurrentLoop_winds hb hp.1 hp.2
    · exact hp

theorem drainJoined_winds {task : TaskId} {cl : Conclusion} (hj : task ∈ rt.joinSet.map (·.id)) (hb : rt.ledger.Books)
    (hp : p.Winding P rt.ledger) : (drainJoined p task cl rt).1.Winds P (drainJoined p task cl rt).2.ledger ∧
      ∀ k, Inactive rt.ledger k → Inactive (drainJoined p task cl rt).2.ledger k := by
  obtain ⟨cursor, hok, herr⟩ := @drainJoined_cases rt p task cl
  have hkeeps : ∀ {A : Label → Prop} {L L' : Ledger}, (∀ l k, A l → l ≠ .spawned k) → Ledger.Path A L L' →
      ∀ k, Inactive L k → Inactive L' k :=
    fun hA hpath k hk => hpath.keeps (I := fun L => Inactive L k) (fun hl => step_inactive (hA _ k hl)) hk
  have hrejoined : ∀ exits (rt' : SupervisorRuntime) k, Inactive rt'.ledger k →
      Inactive (rejoined (deferring p exits) rt').2.ledger k := by
    intro exits rt'
    exact hkeeps (by rintro l k hl rfl; exact hl) (rejoined_leads rt' (@deferring_stopping p _ exits p.stopping_all))
  rcases handleJoinForScope_leads cl p.scope cursor hj hb with
    ⟨hlead, h | ⟨err, h⟩⟩ | ⟨t, ht, ⟨L, hstep, hpath⟩, exits, h, -⟩
  · have hstill := hkeeps (by rintro _ k rfl; exact nofun) hlead
    rw [hok _ h]
    exact ⟨rejoined_winds (path_books hlead hb) (winding_path [] (by rintro _ k rfl; exact nofun) hlead hp),
      fun k hk => hrejoined _ _ k (hstill k hk)⟩
  · obtain ⟨h2, h1⟩ := herr err h
    rw [h2]
    refine ⟨?_, hkeeps (by rintro _ k rfl; exact nofun) hlead⟩
    rcases h1 with ⟨e, h1⟩ | h1
    · rw [h1]
      trivial
    · rw [h1]
      have := winding_path [] (by rintro _ k rfl; exact nofun) hlead hp
      rwa [deferring_nil] at this
  · have hfull : Ledger.Path (fun l => l = .exited t (rt.exitFails t cl) ∨ l = .other) rt.ledger (handleJoinForScope task cl p.scope cursor rt).2.ledger :=
      .trans (.single hstep (.inl rfl)) (hpath.mono fun _ => .inr)
    have hstill := hkeeps (by rintro _ k (rfl | rfl) <;> exact nofun) hfull
    rw [hok _ h]
    exact ⟨rejoined_winds (path_books hfull hb) (winding_path exits (by rintro _ k (rfl | rfl) <;> exact nofun) hfull hp),
      fun k hk => hrejoined _ _ k (hstill k hk)⟩

/-- A shutdown drain begins with everybody active to come. -/
theorem startDrain_winds (hb : rt.ledger.Books) :
    (rt.startDrain .shutdown .all).1.Winds P (rt.startDrain .shutdown .all).2.ledger := by
  unfold startDrain
  split
  · unfold startOrderedDrain
    simp only
    have hclose : (rt.closeCommandsFor .shutdown).ledger = rt.ledger := ledger_closeCommandsFor .shutdown
    refine orderedWalk_winds (d := { reason := .shutdown, scope := .all, rest := _, backstop := _ }) rfl rfl (fun _ => nofun) _
      (hclose ▸ hb) fun k hk hP m hm => ?_
    refine absurd (Or.inl (List.mem_filter.mpr ⟨?_, rfl⟩)) hP
    rw [List.mem_reverse]
    rw [hclose] at hm
    exact (hb.order_mem k).mpr ⟨m, hm⟩
  · exact ⟨rfl, rfl⟩

end SupervisorRuntime

/-! ## Runs -/

/-- Every child task of the scope has been joined. -/
structure SupervisorRuntime.AllJoined (rt : SupervisorRuntime) : Prop where
  live_eq : rt.liveTasks = 0
  inactive : ∀ key e, rt.children.get key = some e → e.runtime.state.isActive = false

/-- The drain of a shutdown goes on. -/
def Machine.shutsDown (m : Machine) : Bool :=
  match m.phase with
  | .drain _ (.shutdown _) => true
  | _ => false

/-- While it goes on the child has been joined, or some child has overrun its grace. -/
def Machine.caughtUp (m : Machine) (key : ChildKey) : Bool :=
  match m.phase with
  | .drain p (.shutdown _) => p.overran || !m.rt.isChildActive key
  | _ => false

/-- The drain does not end before it has caught up with the child. -/
def joinedLater (key : ChildKey) : Machine → List Input → Bool
  | m, [] => m.shutsDown
  | m, i :: is => m.caughtUp key || m.shutsDown && joinedLater key (step m i) is

/-- A child whose cursor window elapses is joined later in the drain. When the last sweep
    ends the abort of every child has landed, and its join was taken. Neither matters once
    some child has timed out. -/
def lands (m : Machine) (i : Input) (is : List Input) : Bool :=
  match m.phase, i with
  | .drain (.ordered d (.window key deadline)) (.shutdown _), .wake .timer =>
    decide (m.rt.now < deadline) || !d.timedOut.isEmpty || joinedLater key (step m i) is
  | .drain (.concurrent d .lastSweep) (.shutdown _), .wake .noJoin =>
    !d.timedOut.isEmpty || m.rt.allSettled && m.rt.allTaken
  | _, _ => true

def landsInTime : Machine → List Input → Bool
  | _, [] => true
  | m, i :: is => lands m i is && landsInTime (step m i) is

/-- What the inputs still to come promise. -/
def Machine.Winds (m : Machine) (is : List Input) : Prop :=
  match m.phase with
  | .drain p (.shutdown _) => m.rt.state = .stopping ∧ p.Winding (fun k => joinedLater k m is = true) m.rt.ledger
  | .exited result => result = .ok () ∨ m.rt.state = .stopped → ∀ k, Inactive m.rt.ledger k
  | _ => True

section Runs

variable {rt : SupervisorRuntime} {m : Machine} {is : List Input} {key : ChildKey}

theorem joinedLater_caughtUp (h : m.caughtUp key = true) : joinedLater key m is = true := by
  cases is with
  | nil =>
    unfold joinedLater Machine.shutsDown
    unfold Machine.caughtUp at h
    split at h
    · rfl
    · cases h
  | cons i is =>
    unfold joinedLater
    rw [h]
    rfl

/-- Once the drain is over it is too late. -/
theorem not_joinedLater (h : m.shutsDown = false) : joinedLater key m is = false := by
  have hc : m.caughtUp key = false := by
    cases hc : m.caughtUp key with
    | false => rfl
    | true =>
      have hd : joinedLater key m [] = true := joinedLater_caughtUp hc
      unfold joinedLater at hd
      rw [h] at hd
      cases hd
  cases is with
  | nil => exact h
  | cons i is =>
    unfold joinedLater
    rw [h, hc]
    rfl

theorem isChildActive_of_inactive (h : Inactive rt.ledger key) : rt.isChildActive key = false := by
  unfold isChildActive
  cases he : rt.children.get key with
  | none => rfl
  | some e => simp [show e.runtime.state.isActive = false from h e.member (ledger_get he)]

theorem joinedLater_next {p : DrainPhase} {after : ExitReason} {i : Input} (hb : rt.ledger.Books) (hover : p.overran = false)
    (h : joinedLater key ⟨rt, .drain p (.shutdown after)⟩ (i :: is) = true) :
    Inactive rt.ledger key ∨ joinedLater key (step ⟨rt, .drain p (.shutdown after)⟩ i) is = true := by
  unfold joinedLater Machine.caughtUp at h
  simp only [hover, Bool.false_or, Bool.or_eq_true, Bool.and_eq_true, Bool.not_eq_true'] at h
  exact h.imp (inactive_of_isChildActive hb) And.right

theorem DrainPhase.Winding.mono {p : DrainPhase} {P Q : ChildKey → Prop} {L : Ledger} (h : p.Winding P L)
    (hPQ : p.overran = false → ∀ k, P k → Q k) : p.Winding Q L := by
  cases p with
  | ordered d w =>
    obtain ⟨ha, hr, hkey, ht, hc⟩ := h
    refine ⟨ha, hr, hkey, fun h k hk => hPQ ?_ k (ht h k hk), hc⟩
    simp [DrainPhase.overran, h]
  | concurrent d w => exact h

/-! ### Leaving the loop -/

theorem foldl_state {α : Type} {f : SupervisorRuntime → α → SupervisorRuntime} (hf : ∀ rt a, (f rt a).state = rt.state)
    (as : List α) : (as.foldl f rt).state = rt.state := by
  induction as generalizing rt with
  | nil => rfl
  | cons a as ih => exact ih.trans (hf rt a)

theorem resolvePendingRemovals_state (failure : Option SupervisorError) :
    (rt.resolvePendingRemovals failure).state = rt.state := by
  unfold resolvePendingRemovals
  refine (foldl_state (fun rt a => ?_) _).trans rfl
  rfl

theorem finalizeStableChannels_state : rt.finalizeStableChannels.state = rt.state := by
  refine foldl_state (fun rt key => ?_) _
  unfold markChildTerminal
  split
  · rfl
  · split <;> rfl

theorem sendSupervisorEvent_state (kind : SupervisorEventKind) : (rt.sendSupervisorEvent kind).state = rt.state := by
  unfold sendSupervisorEvent
  simp only
  split <;> rfl

theorem endShutdown_state (after : ExitReason) (result : Except SupervisorError Unit) :
    (endShutdown after result rt).rt.state = rt.state := by
  cases after with
  | shutdown => exact finalizeStableChannels_state.trans (resolvePendingRemovals_state _)
  | failure e => exact finalizeStableChannels_state.trans (resolvePendingRemovals_state _)

/-- A step of the drain leads to `m'`; `L₀` is the ledger before it. -/
theorem resumeShutdown_winds {m' : Machine} {L₀ : Ledger} (after : ExitReason) (out : DrainOut × SupervisorRuntime)
    (hm : m' = resumeShutdown after out) (hs : out.2.state = .stopping)
    (hL : ∀ k, Inactive L₀ k → Inactive out.2.ledger k)
    (h : out.1.Winds (fun k => Inactive L₀ k ∨ joinedLater k m' is = true) out.2.ledger) : m'.Winds is := by
  obtain ⟨out, rt'⟩ := out
  cases out with
  | await p =>
    subst hm
    refine ⟨hs, DrainPhase.Winding.mono h fun _ k hk => ?_⟩
    rcases hk with hk | hk
    · refine joinedLater_caughtUp ?_
      show (p.overran || !rt'.isChildActive k) = true
      rw [isChildActive_of_inactive (hL k hk)]
      simp
    · exact hk
  | done result =>
    cases result with
    | error e =>
      have hst : m'.rt.state = .stopping := by
        rw [hm]
        exact (endShutdown_state after _).trans hs
      have hph : ∃ e', m'.phase = .exited (.error e') := by
        rw [hm]
        cases after with
        | shutdown => exact ⟨e, rfl⟩
        | failure e' => exact ⟨e', rfl⟩
      obtain ⟨e', hph⟩ := hph
      unfold Machine.Winds
      rw [hph]
      rintro (hok | hok)
      · cases hok
      · rw [hst] at hok
        cases hok
    | ok exits =>
      have hover : m'.shutsDown = false ∧ ∃ result, m'.phase = .exited result := by
        rw [hm]
        cases after with
        | shutdown => exact ⟨rfl, _, rfl⟩
        | failure e => exact ⟨rfl, _, rfl⟩
      have hmembers : m'.rt.ledger.members = rt'.ledger.members := by
        rw [hm]
        show (endShutdown after (.ok ()) rt'.finish).rt.ledger.members = _
        rw [endShutdown_ledger]
        unfold finish
        rw [ledger_sendSupervisorEvent]
        rfl
      obtain ⟨hno, result, hph⟩ := hover
      unfold Machine.Winds
      rw [hph]
      intro _ k x hx
      rw [hmembers] at hx
      refine (?_ : Inactive rt'.ledger k) x hx
      by_cases hk : Inactive L₀ k
      · exact hL k hk
      · refine h k (not_or.mpr ⟨hk, ?_⟩)
        rw [not_joinedLater hno]
        exact Bool.false_ne_true

theorem exitWith_winds (reason : ExitReason) (hb : rt.ledger.Books) (ho : rt.ledger.Open) : (exitWith reason rt).Winds is := by
  have hall : ∀ after, (shutdownAll after rt).Winds is := by
    intro after
    let rt1 : SupervisorRuntime := { rt with state := .stopping, stoppingToken := true }
    have h1 : Leads Serves rt rt1 := .trans (.single .shutdown trivial) (.of_eq rfl)
    have h2 : Leads Serves rt1 (rt1.sendSupervisorEvent .supervisorStopping) := by
      unfold Leads
      rw [ledger_sendSupervisorEvent]
      exact publishes trivial
    refine resumeShutdown_winds after _ rfl ?_ (fun _ => id) (startDrain_winds (path_books (h1.trans h2) hb))
    exact (startDrain_wends .shutdown .all).1.state.trans (sendSupervisorEvent_state _)
  unfold exitWith
  split
  · exact hall _
  · exact hall _
  · rename_i e _
    have hrun : rt.state = .running := of_decide_eq_true ho.running
    rintro (hok | hok)
    · cases hok
    · have hst : ∀ rt₁ : SupervisorRuntime, rt₁.state = .running →
          (rt₁.resolvePendingRemovals (some e)).finalizeStableChannels.state = .running :=
        fun rt₁ h => (finalizeStableChannels_state.trans (resolvePendingRemovals_state _)).trans h
      rw [hst] at hok
      · cases hok
      · split
        · exact hrun
        · exact hrun

theorem Served.winds (h : Served m) : m.Winds is := by
  cases h with
  | serving h =>
    obtain ⟨rt, phase⟩ := m
    cases phase with
    | drain p k =>
      cases k with
      | restart keys freshGroupToken => trivial
      | shutdown after => cases h
    | exited result => cases h
    | _ => trivial
  | left reason hb ho => exact exitWith_winds reason hb ho

/-! ### Steps -/

/-- What has settled was taken: nothing is left. -/
theorem joinSet_empty (hs : rt.allSettled = true) (ht : rt.allTaken = true) : rt.joinSet = [] := by
  refine List.eq_nil_iff_forall_not_mem.mpr fun t hm => ?_
  have h₁ := List.all_eq_true.mp hs t hm
  have h₂ := List.all_eq_true.mp ht t hm
  rw [h₁] at h₂
  cases h₂

/-- A join is delivered, or nothing happens. -/
theorem wakeDrain_joined (p : DrainPhase) (k : Continuation) (task : TaskId) :
    wakeDrain rt p k (.joined task) = ⟨rt, .drain p k⟩ ∨
      ∃ c, joinable rt task = some c ∧ wakeDrain rt p k (.joined task) = resumeDrain k (drainJoined p task c rt) := by
  unfold wakeDrain
  simp only
  split
  · exact .inl rfl
  · exact .inl rfl
  · exact .inl rfl
  · rename_i hc
    exact .inr ⟨_, hc, rfl⟩
  · exact .inl rfl

theorem drainJoined_state {p : DrainPhase} (task : TaskId) (c : Conclusion) : (drainJoined p task c rt).2.state = rt.state := by
  obtain ⟨cursor, hok, herr⟩ := @drainJoined_cases rt p task c
  have hs : (handleJoinForScope task c p.scope cursor rt).2.state = rt.state := (handleJoinForScope_sameState ..).1
  cases hr : (handleJoinForScope task c p.scope cursor rt).1 with
  | ok exits =>
    rw [hok exits hr]
    exact (rejoined_wends _ (deferring_within exits p.within_all)).1.state.trans hs
  | error err =>
    rw [(herr err hr).1]
    exact hs

theorem wakeDrain_winds {p : DrainPhase} {after : ExitReason} (w : Wake) (hb : rt.ledger.Books)
    (h : Machine.Winds ⟨rt, .drain p (.shutdown after)⟩ (.wake w :: is))
    (hl : lands ⟨rt, .drain p (.shutdown after)⟩ (.wake w) is = true) :
    (wakeDrain rt p (.shutdown after) w).Winds is := by
  obtain ⟨hs, hp⟩ := h
  -- whoever was left behind has been joined, or will be
  have hp : p.Winding (fun k => Inactive rt.ledger k ∨ joinedLater k (wakeDrain rt p (.shutdown after) w) is = true) rt.ledger :=
    hp.mono fun hover k hk => joinedLater_next hb hover hk
  have hstay : ∀ {m' : Machine}, m' = ⟨rt, .drain p (.shutdown after)⟩ →
      p.Winding (fun k => Inactive rt.ledger k ∨ joinedLater k m' is = true) rt.ledger → m'.Winds is :=
    fun hm hp => resumeShutdown_winds after (.await p, rt) hm hs (fun _ => id) hp
  have hmono : ∀ {A : Label → Prop} {L' : Ledger}, (∀ l k, A l → l ≠ .spawned k) → Ledger.Path A rt.ledger L' →
      ∀ k, Inactive rt.ledger k → Inactive L' k := by
    intro A L' hA hpath k hk
    exact hpath.keeps (I := fun L => Inactive L k) (fun hl => step_inactive (hA _ k hl)) hk
  have hstops : ∀ l k, Stops .all l → l ≠ .spawned k := by
    rintro l k hl rfl
    exact hl
  cases w with
  | joined task =>
    rcases @wakeDrain_joined rt p (.shutdown after) task with hw | ⟨c, hc, hw⟩
    · exact hstay hw hp
    · obtain ⟨hwinds, hinactive⟩ := @drainJoined_winds _ _ _ task c (mem_of_joinable hc) hb hp
      exact resumeShutdown_winds after (drainJoined p task c rt) hw ((drainJoined_state task c).trans hs) hinactive hwinds
  | timer =>
    refine resumeShutdown_winds after (drainTimer p rt) rfl ((drainTimer_wends p.within_all).1.state.trans hs)
      (hmono hstops (drainTimer_leads p.stopping_all)) (drainTimer_winds hb hp ?_)
    rintro d key deadline rfl hdue ht
    unfold lands at hl
    simp only [ht, Nat.not_lt.mpr hdue, List.isEmpty_nil, decide_false, Bool.not_true, Bool.false_or] at hl
    exact .inr hl
  | resumed =>
    exact resumeShutdown_winds after (drainResumed p rt) rfl ((drainResumed_wends p.within_all).1.state.trans hs)
      (hmono hstops (drainResumed_leads p.stopping_all)) (drainResumed_winds hb hp)
  | noJoin =>
    refine resumeShutdown_winds after (drainNoJoin p rt) rfl ((drainNoJoin_wends p.within_all).1.state.trans hs)
      (hmono hstops (drainNoJoin_leads p.stopping_all)) (drainNoJoin_winds hb hp ?_)
    rintro c rfl ht
    have hset : rt.allSettled = true ∧ rt.allTaken = true := by simpa [lands, ht] using hl
    exact joinSet_empty hset.1 hset.2
  | _ => exact hstay rfl hp

theorem env_state (e : EnvStep) : (rt.env e).state = rt.state := by
  cases e with
  | submit command => unfold env; simp only; split <;> rfl
  | markReady ready => unfold env; simp only; split <;> rfl
  | forward spawn snapshot => unfold env forwardSnapshot; simp only; split <;> rfl
  | conclude task c =>
    unfold env
    simp only
    split
    · rfl
    · split
      · rfl
      · split
        · unfold markClean
          split
          · split <;> rfl
          · rfl
        · rfl
  | settle task => unfold env; simp only; split <;> rfl
  | _ => rfl

/-- A message sent in between changes nobody's state. -/
theorem env_winds {phase : Phase} (e : EnvStep) (hb : rt.ledger.Books) (h : Machine.Winds ⟨rt, phase⟩ (.env e :: is)) :
    Machine.Winds ⟨rt.env e, phase⟩ is := by
  have hpath : Ledger.Path (· = .sent) rt.ledger (rt.env e).ledger := by
    rcases @env_ledger rt e with heq | hs
    · exact .of_eq heq.symm
    · exact .single hs rfl
  have hinactive : ∀ k, Inactive rt.ledger k → Inactive (rt.env e).ledger k := by
    intro k hk
    refine hpath.keeps (I := fun L => Inactive L k) (fun hl => step_inactive ?_) hk
    rw [hl]
    nofun
  cases phase with
  | drain p k =>
    cases k with
    | restart keys freshGroupToken => trivial
    | shutdown after =>
      obtain ⟨hs, hp⟩ := h
      have hp' : p.Winding (fun k => Inactive rt.ledger k ∨
          joinedLater k ⟨rt.env e, .drain p (.shutdown after)⟩ is = true) rt.ledger := by
        exact hp.mono fun hover k hk => joinedLater_next hb hover hk
      have := winding_path [] (by rintro _ k rfl; exact nofun) hpath hp'
      rw [deferring_nil] at this
      exact resumeShutdown_winds after (.await p, rt.env e) rfl ((env_state e).trans hs) hinactive this
  | exited result =>
    intro hok k
    exact hinactive k (h (hok.imp_right (env_state e).symm.trans) k)
  | _ => trivial

theorem step_winds {i : Input} (hinv : m.Inv) (h : m.Winds (i :: is)) (hl : lands m i is = true) : (step m i).Winds is := by
  cases i with
  | env e => exact env_winds e hinv.books h
  | wake w =>
    obtain ⟨rt, phase⟩ := m
    by_cases hs : phase.Serving
    · exact (wake_served w hinv hs).winds
    · cases phase with
      | drain p k =>
        cases k with
        | restart keys freshGroupToken => exact absurd trivial hs
        | shutdown after => exact wakeDrain_winds w hinv.books h hl
      | exited result => exact h
      | _ => exact absurd trivial hs

theorem run_winds : ∀ (inputs : List Input) {m : Machine}, m.Inv → m.Winds inputs → landsInTime m inputs = true →
    (run m inputs).Winds []
  | [], _, _, h, _ => h
  | i :: is, _, hinv, h, hl => by
    obtain ⟨hi, hrest⟩ := Bool.and_eq_true_iff.mp hl
    exact run_winds is (step_inv i hinv).1 (step_winds hinv h hi) hrest

theorem start_winds (c : SupervisorConfig) (b : Binding) : (start c b).Winds is := by
  obtain ⟨L, -, hann, hlead⟩ := startup_leads c b
  exact (continueMain_served (path_books hlead hann.books)
    (hlead.keeps_open (fun _ => Commands.not_shutdown) hann.opened)).winds

/-- Only `finish`, after a drain that succeeded, says that the supervisor has stopped. -/
theorem Machine.Winds.ended (hinv : m.Inv) (h : m.Winds []) (hok : m.phase = .exited (.ok ()) ∨ m.rt.state = .stopped) :
    ∀ k, Inactive m.rt.ledger k := by
  have hopen : m.rt.ledger.Open → m.rt.state ≠ .stopped := by
    intro ho hst
    have hrun : m.rt.state = .running := of_decide_eq_true ho.running
    rw [hst] at hrun
    cases hrun
  have hphase := hinv.phase
  unfold Machine.Winds at h
  cases hp : m.phase with
  | exited result =>
    rw [hp] at h hok
    exact h (hok.imp_left Phase.exited.inj)
  | drain p k =>
    rw [hp] at h hok hphase
    have hst : m.rt.state = .stopped := hok.resolve_left nofun
    cases k with
    | restart keys freshGroupToken => exact absurd hst (hopen hphase.1)
    | shutdown after =>
      rw [hst] at h
      cases h.1
  | main =>
    rw [hp] at hok hphase
    exact absurd (hok.resolve_left nofun) (hopen hphase.1)
  | deadlineYield =>
    rw [hp] at hok hphase
    exact absurd (hok.resolve_left nofun) (hopen hphase.1)

end Runs

/-- In every run in which the aborts of the shutdown land in time, a scope that returned
    `Ok`, or whose `shutdown_all` did after a failed startup, has joined every child task. -/
theorem shutdown_joined (c : SupervisorConfig) (b : Binding) (inputs : List Input)
    (h : landsInTime (start c b) inputs = true)
    (hok : (run (start c b) inputs).phase = .exited (.ok ()) ∨ (run (start c b) inputs).rt.state = .stopped) :
    (run (start c b) inputs).rt.AllJoined := by
  have hinv : (start c b).Inv := run_inv c b []
  have hall := (run_winds inputs hinv (start_winds c b) h).ended (run_inv c b inputs) hok
  have hinactive : ∀ key e, (run (start c b) inputs).rt.children.get key = some e → e.runtime.state.isActive = false :=
    fun key e he => hall key e.member (ledger_get he)
  refine ⟨?_, hinactive⟩
  rw [live_count (run_inv c b inputs).books]
  refine List.countP_eq_zero.mpr fun key _ => ?_
  cases he : (run (start c b) inputs).rt.children.get key with
  | none => simp
  | some e => simp [hinactive key e he]

/-! ## A child that outlives the shutdown -/

/-- A child that is aborted at once. -/
def abortedChild : ChildDefinition := { id := "a", shutdownPolicy := .abort, shutdownIsDefault := false }

theorem abortedChild_isTask : abortedChild.kind.isSupervisor = false := rfl

/-- An ordered scope declares the child, a dynamic scope starts empty. -/
def oneChild (kind : ScopeKind) : SupervisorConfig where
  host := pair.host
  strategy := .oneForOne
  kind := kind
  defaultChildRestart := .default
  defaultChildShutdown := .default
  children := if kind = .ordered then [abortedChild] else []
  ids_nodup := by cases kind <;> decide
  ids_nonempty := by cases kind <;> decide

def rootBinding : Binding := ⟨0, 0, 0, false, false, 0⟩

/-- The abort is issued and takes effect before the drain moves on. -/
def quickToPoll : ScopeKind → List Input
  | .ordered => [.env .requestShutdown, .wake .shutdown, .wake .resumed, .env (.conclude 1 .aborted), .env (.settle 1), .wake (.joined 1)]
  | .dynamic => [.env (.submit (.addChild abortedChild abortedChild_isTask 0)), .wake .command, .env .requestShutdown, .wake .shutdown,
      .wake .resumed, .wake .noJoin, .wake .resumed, .env (.conclude 1 .aborted), .env (.settle 1), .wake (.joined 1), .wake .noJoin]

/-- A second child that is aborted at once, or one whose startup can fail. -/
def twoChildren (second : ChildDefinition) (h : second.id = "b") : SupervisorConfig where
  host := pair.host
  strategy := .oneForOne
  kind := .ordered
  defaultChildRestart := .default
  defaultChildShutdown := .default
  children := [abortedChild, second]
  ids_nodup := by simp [h, abortedChild]
  ids_nonempty := by simp [h, abortedChild]

/-- The cursor leaves the second child behind, and its join comes while the first is waited for. -/
def joinedBehind : List Input :=
  [.env .requestShutdown, .wake .shutdown, .wake .resumed, .env (.tick (millis 1)), .wake .timer, .wake .resumed,
    .env (.conclude 2 .aborted), .env (.settle 2), .wake (.joined 2), .env (.conclude 1 .aborted), .env (.settle 1), .wake (.joined 1)]

/-- The second child ends before it is ready, and the first is shut down after it. -/
def failedStartup : List Input :=
  [.env (.conclude 2 (.returned .ok)), .env (.settle 2), .wake (.joined 2), .wake .resumed,
    .env (.conclude 1 .aborted), .env (.settle 1), .wake (.joined 1)]

def neverReady : ChildDefinition := { id := "b", readiness := .manual (secs 5), restart := .never }

theorem shutdown_joined_quick :
    (∀ kind, (run (start (oneChild kind) rootBinding) (quickToPoll kind)).phase = .exited (.ok ()) ∧
      (run (start (oneChild kind) rootBinding) (quickToPoll kind)).rt.AllJoined) ∧
    ((run (start (twoChildren { abortedChild with id := "b" } rfl) rootBinding) joinedBehind).phase = .exited (.ok ()) ∧
      (run (start (twoChildren { abortedChild with id := "b" } rfl) rootBinding) joinedBehind).rt.AllJoined) ∧
    ((run (start (twoChildren neverReady rfl) nestedBinding) failedStartup).rt.state = .stopped ∧
      (run (start (twoChildren neverReady rfl) nestedBinding) failedStartup).rt.AllJoined) := by
  refine ⟨fun kind => ?_, ⟨by rfl, shutdown_joined _ _ _ (by decide +kernel) (.inl (by rfl))⟩,
    ⟨by rfl, shutdown_joined _ _ _ (by decide +kernel) (.inr (by rfl))⟩⟩
  cases kind with
  | ordered => exact ⟨by rfl, shutdown_joined _ _ _ (by decide +kernel) (.inl (by rfl))⟩
  | dynamic => exact ⟨by rfl, shutdown_joined _ _ _ (by decide +kernel) (.inl (by rfl))⟩

/-- The abort is issued, and the task does not come to its next poll. -/
def slowToPoll : ScopeKind → List Input
  | .ordered => [.env .requestShutdown, .wake .shutdown, .wake .resumed, .env (.tick (millis 1)), .wake .timer]
  | .dynamic => [.env (.submit (.addChild abortedChild abortedChild_isTask 0)), .wake .command, .env .requestShutdown, .wake .shutdown,
      .wake .resumed, .wake .noJoin, .wake .resumed, .wake .noJoin]

theorem shutdown_leaves_running :
    ((run (start (oneChild .ordered) rootBinding) (slowToPoll .ordered)).phase = .exited (.ok ()) ∧
      ¬ (run (start (oneChild .ordered) rootBinding) (slowToPoll .ordered)).rt.AllJoined) ∧
    ((run (start (oneChild .dynamic) rootBinding) (slowToPoll .dynamic)).phase = .exited (.ok ()) ∧
      ¬ (run (start (oneChild .dynamic) rootBinding) (slowToPoll .dynamic)).rt.AllJoined) := by
  refine ⟨⟨by rfl, fun h => ?_⟩, ⟨by rfl, fun h => ?_⟩⟩
  · exact absurd h.live_eq (by decide +kernel)
  · exact absurd h.live_eq (by decide +kernel)

end Kokage.Supervisor

/-
  Kokage.Supervisor.Restarts — a group restart from its first deadline to its last policy.

  `RestartBegins` is the moment `handle_deadlines` turns to its drain; a drain followed
  from there (`Drained`) is a stretch of a run (`drained_run`). In an ordered scope nobody
  is being removed, so every exit handed back by the drain of a suffix is its child's
  current one until its own policy is applied: none is skipped. The policies are applied
  in order, each once, up to one that fails the scope (`restart_drain`).
-/

import Kokage.Supervisor.Accounts

namespace Kokage.Supervisor

open Kokage.Lib Ledger SupervisorRuntime Lane

/-! ## Where a restart begins -/

/-- The commands and deadlines served at `m` come to the restart of `keys`. -/
def RestartBegins (m : Machine) (keys : List ChildKey) (rt₀ : SupervisorRuntime) : Prop :=
  m.phase = .deadlineYield ∧
    (drainDeadlineCommandBatch m.rt.commandRx >>= fun _ => handleDeadlines) m.rt = (.ok (some keys), rt₀)

def Strategy.restartReason : Strategy → DrainReason
  | .oneForAll => .groupRestart
  | .oneForOne | .restForOne => .restForOneRestart

def Strategy.restartScope (keys : List ChildKey) : Strategy → DrainScope
  | .oneForAll => .all
  | .oneForOne | .restForOne => .subset keys

/-- The exits whose policy `handle_deadlines` applies, of those handed back. -/
def policiesApplied : List ClassifiedExit → SupervisorRuntime → List ClassifiedExit
  | [], _ => []
  | c :: rest, rt =>
    if rt.currentChildMatches c.key c.lineage c.generation then
      match applyExitPolicy c rt with
      | (.ok _, rt') => c :: policiesApplied rest rt'
      | (.error _, _) => [c]
    else policiesApplied rest rt

section Runs

variable {m : Machine} {keys : List ChildKey} {rt₀ rt : SupervisorRuntime} {joins : List ConsumedJoin} {out : DrainOut}
  {reason : DrainReason} {scope : DrainScope}

/-- The drain of a restart is a stretch of the run. -/
theorem drained_run (hbegin : RestartBegins m keys rt₀)
    (h : Drained rt₀.cfg.strategy.restartReason (rt₀.cfg.strategy.restartScope keys) rt₀ joins out rt) :
    ∃ inputs, run m inputs = resumeRestart keys (rt₀.cfg.strategy = .oneForAll) (out, rt) := by
  obtain ⟨hphase, hbatch⟩ := hbegin
  induction h with
  | start =>
    refine ⟨[.wake .resumed], ?_⟩
    show wake m .resumed = _
    unfold wake
    rw [hphase]
    simp only [if_true]
    unfold deadlineBatch
    simp only
    rw [hbatch]
    simp only
    cases hs : rt₀.cfg.strategy with
    | oneForAll => simp [Strategy.restartReason, Strategy.restartScope]
    | oneForOne => simp [Strategy.restartReason, Strategy.restartScope]
    | restForOne => simp [Strategy.restartReason, Strategy.restartScope]
  | env e _ ih =>
    obtain ⟨inputs, hrun⟩ := ih
    refine ⟨inputs ++ [.env e], ?_⟩
    rw [run_append, hrun]
    rfl
  | wake w _ ih =>
    obtain ⟨inputs, hrun⟩ := ih
    refine ⟨inputs ++ [.wake w], ?_⟩
    rw [run_append, hrun]
    exact wakeDrain_eq ..

/-- A restart begins in good order. -/
theorem RestartBegins.main (hm : m.Inv) (hbegin : RestartBegins m keys rt₀) :
    rt₀.ledger.Books ∧ rt₀.ledger.Open ∧ rt₀.ledger.Settled ∧ keys.Nodup := by
  obtain ⟨hphase, hbatch⟩ := hbegin
  obtain ⟨hb, hp⟩ := hm
  rw [hphase] at hp
  obtain ⟨ho, hs⟩ := hp
  obtain ⟨hlead, hkeys⟩ := deadlineBatch_runs ho
  rw [hbatch] at hlead hkeys
  obtain ⟨hb₀, ho₀, hs₀⟩ := path_main (fun _ k hl => Commands.quiet hl k) hlead hb ho hs
  exact ⟨hb₀, ho₀, hs₀, (hkeys _ _ rfl keys rfl).nodup hb₀.order_nodup⟩

/-- In an ordered scope, with the children to restart held. -/
theorem RestartBegins.held {roster : List Seat} (hm : m.Orderly roster) (hbegin : RestartBegins m keys rt₀) :
    Kept roster rt₀.lane ∧ ∃ pre, Held roster pre keys [] rt₀.lane ∧ (rt₀.cfg.strategy = .oneForAll → pre = []) := by
  obtain ⟨hphase, hbatch⟩ := hbegin
  obtain ⟨hk, hp⟩ := hm
  rw [hphase] at hp
  have hends := deadlineCommands_ends ⟨hk, hp⟩
  unfold Act.Ends at hends
  rw [hbatch] at hends
  exact hends

/-- An induction over a drain of a restart, one case for each kind of step. -/
theorem Drained.follow {P : List ConsumedJoin → DrainOut → SupervisorRuntime → Prop} (hb : rt₀.ledger.Books)
    (ho : rt₀.ledger.Open) (hs : rt₀.ledger.Settled) (hr : reason ≠ .shutdown)
    (hstart : P [] (rt₀.startDrain reason scope).1 (rt₀.startDrain reason scope).2)
    (henv : ∀ joins p rt e, P joins (.await p) rt → P joins (.await p) (rt.env e))
    (hwork : ∀ joins p rt (out : DrainOut × SupervisorRuntime), Following reason scope rt₀ joins (.await p) rt →
      P joins (.await p) rt → Winds scope rt out.2 → Halts p.scope rt.lane out.2.lane →
      out.1.Good p.scope p.deferred out.2.ledger → P joins out.1 out.2)
    (hjoin : ∀ joins p rt task c, Following reason scope rt₀ joins (.await p) rt → P joins (.await p) rt → p.polls = true →
      joinable rt task = some c →
      P (joins ++ consumedJoin p rt (.joined task)) (drainJoined p task c rt).1 (drainJoined p task c rt).2)
    (h : Drained reason scope rt₀ joins out rt) : P joins out rt := by
  induction h with
  | start => exact hstart
  | env e _ ih => exact henv _ _ _ e ih
  | @wake joins p rt w hd ih =>
    have hf := drained_following hb ho hs hr hd
    have hprog := hf.continuation.1.2.1.progress
    have hstay : P (joins ++ []) (.await p) rt := by
      rw [List.append_nil]
      exact ih
    cases w with
    | joined task =>
      by_cases hpoll : p.polls = true
      · cases hc : joinable rt task with
        | some c =>
          have heq : drainWake p rt (.joined task) = drainJoined p task c rt := by
            simp [drainWake, hpoll, hc]
          rw [heq]
          exact hjoin _ _ _ task c hf ih hpoll hc
        | none =>
          have heq : drainWake p rt (.joined task) = (.await p, rt) := by
            simp [drainWake, hc]
          have hnone : consumedJoin p rt (.joined task) = [] := by
            simp [consumedJoin, hc]
          rw [heq, hnone]
          exact hstay
      · rw [Bool.not_eq_true] at hpoll
        have heq : drainWake p rt (.joined task) = (.await p, rt) := by
          simp [drainWake, hpoll]
        have hnone : consumedJoin p rt (.joined task) = [] := by
          simp [consumedJoin, hpoll]
        rw [heq, hnone]
        exact hstay
    | timer =>
      show P (joins ++ []) (drainTimer p rt).1 (drainTimer p rt).2
      rw [List.append_nil]
      exact hwork _ _ _ _ hf ih (drainTimer_wends hf.within).1 (drainTimer_halts hprog.stopping) (drainTimer_good hf.books hprog)
    | resumed =>
      show P (joins ++ []) (drainResumed p rt).1 (drainResumed p rt).2
      rw [List.append_nil]
      exact hwork _ _ _ _ hf ih (drainResumed_wends hf.within).1 (drainResumed_halts hprog.stopping)
        (drainResumed_good hf.books hprog)
    | noJoin =>
      show P (joins ++ []) (drainNoJoin p rt).1 (drainNoJoin p rt).2
      rw [List.append_nil]
      exact hwork _ _ _ _ hf ih (drainNoJoin_wends hf.within).1 (drainNoJoin_halts hprog.stopping)
        (drainNoJoin_good hf.books hprog)
    | _ => exact hstay

end Runs

/-! ## The exits handed back are current -/

/-- The exit is of the child's current generation. -/
def Lane.Awaited (L : Lane) (c : ClassifiedExit) : Prop :=
  ∃ p, L.posts c.key = some p ∧ p.lineage = c.lineage ∧ p.generation = c.generation

section Current

variable {roster : List Seat} {keys pre : List ChildKey} {rt₀ rt : SupervisorRuntime} {joins : List ConsumedJoin}
  {out : DrainOut} {reason : DrainReason} {scope : DrainScope} {L L' : Lane} {c : ClassifiedExit}

theorem Lane.Awaited.matches (h : rt.lane.Awaited c) : rt.currentChildMatches c.key c.lineage c.generation = true := by
  obtain ⟨p, hp, hl, hg⟩ := h
  obtain ⟨e, he, rfl⟩ := get_of_lane hp
  exact (currentChildMatches_iff (t := c.record)).mpr ⟨e, he, hl, hg⟩

theorem Lane.Awaited.halts (h : L.Awaited c) (hh : Halts scope L L') : L'.Awaited c := by
  obtain ⟨p, hp, hl, hg⟩ := h
  obtain ⟨posts, rfl, hposts⟩ := hh
  rcases hposts c.key with heq | ⟨q, -, hq, -, heq⟩
  · exact ⟨p, heq.trans hp, hl, hg⟩
  · rw [hp] at hq
    cases hq
    exact ⟨p.halt, heq, hl, hg⟩

theorem Lane.Awaited.exit {key : ChildKey} {q : Post} (h : L.Awaited c) (hget : L.posts key = some q) (kind : ExitKind) :
    (L.exit key kind).Awaited c := by
  obtain ⟨p, hp, hl, hg⟩ := h
  by_cases hk : c.key = key
  · rw [hk, hget] at hp
    cases hp
    exact ⟨q.exit kind, (exit_get hget kind c.key).trans (if_pos hk), hl, hg⟩
  · exact ⟨p, ((exit_get hget kind c.key).trans (if_neg hk)).trans hp, hl, hg⟩

/-- A join adds a current exit and leaves the others current. -/
theorem handleJoinForScope_awaited {task : TaskId} {ds exits : List ClassifiedExit} (c : Conclusion) (cursor : Option ChildKey)
    (hb : rt.ledger.Books) (hk : Kept roster rt.lane) (h : ∀ x ∈ ds, rt.lane.Awaited x)
    (hr : (handleJoinForScope task c scope cursor rt).1 = .ok exits) :
    ∀ x ∈ ds ++ exits, (handleJoinForScope task c scope cursor rt).2.lane.Awaited x := by
  rcases handleJoinForScope_lane task c scope cursor hb with
    ⟨hl, hout⟩ | ⟨key, q, status, hget, -, ⟨hm, -, -⟩ | ⟨-, hl, hout⟩⟩
  · rw [hr] at hout
    rcases hout with hout | ⟨err, hout⟩
    · cases hout
      rw [hl, List.append_nil]
      exact h
    · cases hout
  · rw [hk.active key q hget] at hm
    cases hm
  · rw [hr] at hout
    rw [hl]
    intro x hx
    rcases List.mem_append.mp hx with hx | hx
    · exact (h x hx).exit hget _
    · rcases hout with ⟨hout, -⟩ | hout
      · cases hout
        cases hx
      · cases hout
        rw [List.mem_singleton.mp hx]
        exact ⟨q.exit status.view, (exit_get hget _ key).trans (if_pos rfl), rfl, rfl⟩

/-- Nobody being removed, a drain removes nobody. -/
theorem kept_removing {p : DrainPhase} {task : TaskId} (hk : Kept roster rt.lane) :
    ∀ j ∈ consumedJoin p rt (.joined task), j.removing = false := by
  intro j hj
  unfold consumedJoin at hj
  simp only at hj
  split at hj
  · obtain ⟨t, -, rfl⟩ := List.mem_map.mp hj
    cases he : rt.children.get t.key with
    | none => rfl
    | some e =>
      have hm : e.membership = .active := hk.active _ _ (lane_get he)
      simp [hm]
  · cases hj

theorem drained_kept (hb : rt₀.ledger.Books) (ho : rt₀.ledger.Open) (hs : rt₀.ledger.Settled) (hr : reason ≠ .shutdown)
    (hk : Kept roster rt₀.lane) (h : Drained reason scope rt₀ joins out rt) :
    Kept roster rt.lane ∧ ∀ j ∈ joins, j.removing = false := by
  refine Drained.follow (P := fun joins _ rt => Kept roster rt.lane ∧ ∀ j ∈ joins, j.removing = false) hb ho hs hr ?_ ?_ ?_ ?_ h
  · exact ⟨hk.halts (startDrain_halts reason scope), nofun⟩
  · intro joins p rt e ⟨hk, hj⟩
    rw [env_lane e hk.kind_eq]
    exact ⟨hk, hj⟩
  · intro joins p rt out _ ⟨hk, hj⟩ _ hhalt _
    exact ⟨hk.halts hhalt, hj⟩
  · intro joins p rt task c hf ⟨hk, hj⟩ _ _
    refine ⟨drainJoined_kept c hf.books hk, fun j hm => ?_⟩
    rcases List.mem_append.mp hm with hm | hm
    · exact hj j hm
    · exact kept_removing hk j hm

/-- While the drain of a restart goes on, its children are held and what it hands back is
    current. -/
theorem drained_held (freshGroupToken : Bool) (hb : rt₀.ledger.Books) (ho : rt₀.ledger.Open) (hs : rt₀.ledger.Settled)
    (hr : reason ≠ .shutdown) (hk : Kept roster rt₀.lane) (hheld : Held roster pre keys [] rt₀.lane)
    (hscope : scope = if freshGroupToken then .all else .subset keys) (hfresh : freshGroupToken = true → pre = [])
    (h : Drained reason scope rt₀ joins out rt) :
    Kept roster rt.lane ∧ ∀ exits, out.deferred = some exits → Held roster pre keys exits rt.lane ∧ ∀ x ∈ exits, rt.lane.Awaited x := by
  refine Drained.follow (P := fun _ out rt => Kept roster rt.lane ∧ ∀ exits, out.deferred = some exits →
    Held roster pre keys exits rt.lane ∧ ∀ x ∈ exits, rt.lane.Awaited x) hb ho hs hr ?_ ?_ ?_ ?_ h
  · have hhalt := @startDrain_halts rt₀ reason scope
    refine ⟨hk.halts hhalt, fun exits hd => ?_⟩
    rw [(startDrain_good hb hr).deferred_eq hd]
    exact ⟨hheld.halts hhalt, nofun⟩
  · intro joins p rt e ⟨hk, hd⟩
    rw [env_lane e hk.kind_eq]
    exact ⟨hk, hd⟩
  · intro joins p rt out _ ⟨hk, hd⟩ _ hhalt hgood
    refine ⟨hk.halts hhalt, fun exits heq => ?_⟩
    rw [hgood.deferred_eq heq]
    obtain ⟨hh, ha⟩ := hd p.deferred rfl
    exact ⟨hh.halts hhalt, fun x hx => (ha x hx).halts hhalt⟩
  · intro joins p rt task c hf ⟨hk, hd⟩ _ hc
    obtain ⟨hcont, hps⟩ := hf.continuation
    obtain ⟨hh, ha⟩ := hd p.deferred rfl
    refine ⟨drainJoined_kept c hf.books hk, fun ds heq => ?_⟩
    obtain ⟨cursor, exits, hok, -, -, hprog, hrej, hgood⟩ :=
      drainJoined_joins c hf.books (mem_of_joinable hc) hcont.2.1.progress
    have hhalt := rejoined_halts hprog.stopping (handleJoinForScope task c p.scope cursor rt).2
    rw [hgood.deferred_eq heq, hrej]
    refine ⟨(handleJoinForScope_held c cursor hf.books hk (hps.trans hscope) hfresh hh hok).halts hhalt, fun x hx => ?_⟩
    exact (handleJoinForScope_awaited c cursor hf.books hk ha hok x hx).halts hhalt

/-! ## Their policies -/

/-- None is skipped: applying the policy of one leaves the others current. -/
theorem policiesApplied_all : ∀ {es : List ClassifiedExit} {rt : SupervisorRuntime}, rt.lane.running = true →
    Kept roster rt.lane → Staged roster (Awaiting es) rt.lane → Regrouped keys es rt.lane → (∀ x ∈ es, rt.lane.Awaited x) →
    es.Pairwise (fun x y => x.lineage ≠ y.lineage ∨ x.generation ≠ y.generation) →
    policiesApplied es rt <+: es ∧ ((applyDeferred es rt).1 = .ok () → policiesApplied es rt = es)
  | [], _, _, _, _, _, _, _ => ⟨List.prefix_refl _, fun _ => rfl⟩
  | c :: es, rt, hrun, hk, hs, hr, ha, hpair => by
    obtain ⟨hfirst, hpair'⟩ := List.pairwise_cons.mp hpair
    have hm := (ha c (List.mem_cons_self ..)).matches
    obtain ⟨p, hp, hl, hg⟩ := ha c (List.mem_cons_self ..)
    have hnq : p.state ≠ .startQueued := by
      rw [(hr.fits c (List.mem_cons_self ..) p hp hl hg).1]
      simp
    obtain ⟨hk₁, hs₁, hr₁, hrun₁⟩ := hr.apply hrun hk hs hp hl hg
    -- the others are other children
    have ha₁ : ∀ x ∈ es, (rt.lane.applyExit c.key c.status.isFailure).Awaited x := by
      intro x hx
      obtain ⟨q, hq, hql, hqg⟩ := ha x (List.mem_cons_of_mem _ hx)
      have hne : x.key ≠ c.key := by
        intro heq
        rw [heq, hp] at hq
        cases hq
        rcases hfirst x hx with h | h
        · exact h (hl.symm.trans hql)
        · exact h (hg.symm.trans hqg)
      exact ⟨q, (hr.apply_frame hs hp hnq hne _).trans hq, hql, hqg⟩
    have hloop : applyDeferred (c :: es) rt = (applyExitPolicy c >>= fun _ => applyDeferred es) rt := by
      have hone : (do
          let rt ← Act.get
          if rt.currentChildMatches c.key c.lineage c.generation then applyExitPolicy c else pure () : RuntimeM Unit) rt =
          applyExitPolicy c rt := by
        rw [Act.run_get_bind, if_pos hm]
      calc applyDeferred (c :: es) rt
        _ = ((do
            let rt ← Act.get
            if rt.currentChildMatches c.key c.lineage c.generation then applyExitPolicy c else pure () : RuntimeM Unit) >>=
              fun _ => applyDeferred es) rt := rfl
        _ = (applyExitPolicy c >>= fun _ => applyDeferred es) rt := by rw [Act.run_bind, hone, ← Act.run_bind]
    obtain ⟨_, rt₁, hok, hlane⟩ | ⟨e, rt₁, herr, -⟩ := (applyExitPolicy_lane c hk.willing).cases
    · have hrec : policiesApplied (c :: es) rt = c :: policiesApplied es rt₁ := by
        simp [policiesApplied, hm, hok]
      rw [← hlane] at hk₁ hs₁ hr₁ hrun₁ ha₁
      obtain ⟨hpre, hall⟩ := policiesApplied_all hrun₁ hk₁ hs₁ hr₁ ha₁ hpair'
      rw [hrec]
      refine ⟨List.cons_prefix_cons.mpr ⟨rfl, hpre⟩, fun hdone => ?_⟩
      rw [hloop, Act.run_bind, hok] at hdone
      rw [hall hdone]
    · have hrec : policiesApplied (c :: es) rt = [c] := by
        simp [policiesApplied, hm, herr]
      rw [hrec]
      refine ⟨List.prefix_append [c] es, fun hdone => ?_⟩
      rw [hloop, Act.run_bind, herr] at hdone
      cases hdone

/-- The exits the drain of a suffix handed back, after the suffix was started again. -/
theorem respawned_policies {exits es : List ClassifiedExit} {rt' : SupervisorRuntime} (ho : rt.ledger.Open)
    (hn : keys.Nodup) (hi : ∀ k ∈ keys, Inactive rt.ledger k) (hd : Deferred rt.ledger exits) (hk : Kept roster rt.lane)
    (hheld : Held roster pre keys exits rt.lane) (ha : ∀ x ∈ exits, rt.lane.Awaited x)
    (hrun : respawnGroup keys false exits rt = (.ok es, rt')) :
    es = exits.filter (fun x => !keys.contains x.key) ∧ policiesApplied es rt' <+: es ∧
      ((applyDeferred es rt').1 = .ok () → policiesApplied es rt' = es) := by
  have hidle : ∀ k ∈ keys, ∀ p, rt.lane.posts k = some p → p.state.isActive = false := by
    intro k hm p hp
    obtain ⟨e, he, rfl⟩ := get_of_lane hp
    exact hi k hm e.member (ledger_get he)
  have hopen : rt'.lane.running = true := by
    have hlead := (@respawnGroup_runs rt keys false exits ho hn hi).1
    rw [hrun] at hlead
    exact (leads_open (fun _ => Schedules.not_shutdown) hlead ho).running
  have hends := respawnGroup_ends false hk hheld hidle
  unfold Act.Ends at hends
  rw [hrun] at hends
  obtain ⟨rfl, hk', hs', hframe, A, hA, hAin, hgate⟩ := hends
  have hout : ∀ x ∈ exits.filter (fun x => !keys.contains x.key), x ∈ exits ∧ x.key ∉ keys := by
    intro x hx
    exact ⟨(List.mem_filter.mp hx).1, by simpa using (List.mem_filter.mp hx).2⟩
  refine ⟨rfl, policiesApplied_all hopen hk' (hs'.settle ?_) ⟨⟨pre, A, hA, hAin, hgate⟩, fun x hx => (hout x hx).2, ?_⟩ ?_
    (hd.2.filter _)⟩
  · intro k p _ ⟨hnot, x, hx, hxk, hrest⟩
    refine .inr ⟨x, List.mem_filter.mpr ⟨hx, ?_⟩, hxk, hrest⟩
    simp [hxk, hnot]
  · intro x hx p hp
    rw [hframe _ (hout x hx).2] at hp
    exact hheld.fits x (hout x hx).1 p hp
  · intro x hx
    obtain ⟨p, hp, hl, hg⟩ := ha x (hout x hx).1
    exact ⟨p, (hframe _ (hout x hx).2).trans hp, hl, hg⟩

end Current

/-- Every restart drain accounts for its joins, and the policies of the exits it hands back
    are applied in order up to one that fails the scope. -/
theorem restart_drain (c : SupervisorConfig) (b : Binding) (inputs : List Input) (keys : List ChildKey)
    (rt₀ rt : SupervisorRuntime) (reason : DrainReason) (scope : DrainScope) (joins : List ConsumedJoin) (out : DrainOut)
    (hbegin : RestartBegins (run (start c b) inputs) keys rt₀) (hreason : reason ≠ .shutdown)
    (h : Drained reason scope rt₀ joins out rt) :
    Accounted scope rt₀ joins out rt ∧
      (c.kind = .ordered → (∀ j ∈ joins, j.removing = false) ∧
        ∀ exits es rt', scope = .subset keys → out = .done (.ok exits) → respawnGroup keys false exits rt = (.ok es, rt') →
          es = exits.filter (fun x => !scope.contains x.key) ∧ policiesApplied es rt' <+: es ∧
            ((applyDeferred es rt').1 = .ok () → policiesApplied es rt' = es)) := by
  obtain ⟨hb, ho, hs, hn⟩ := hbegin.main (run_inv c b inputs)
  have hf := drained_following hb ho hs hreason h
  refine ⟨hf.accounted, fun hkind => ?_⟩
  obtain ⟨hk, pre, hheld, -⟩ := hbegin.held (run_orderly b hkind inputs)
  refine ⟨(drained_kept hb ho hs hreason hk h).2, fun exits es rt' hscope hdone hrun => ?_⟩
  subst hscope hdone
  obtain ⟨hk', hd⟩ := drained_held false hb ho hs hreason hk hheld rfl nofun h
  obtain ⟨hheld', ha⟩ := hd exits rfl
  obtain ⟨ds, ⟨rfl, hi⟩, hdef, -⟩ := hf.inv
  exact respawned_policies hf.opened hn (fun k hm => hi k (subset_contains hm)) hdef hk' hheld' ha hrun

/-! ## One restart in full -/

/-- A drain taken through inputs. -/
def drainInput (x : List ConsumedJoin × DrainOut × SupervisorRuntime) (i : Input) :
    List ConsumedJoin × DrainOut × SupervisorRuntime :=
  match x with
  | (joins, .await p, rt) =>
    match i with
    | .env e => (joins, .await p, rt.env e)
    | .wake w => (joins ++ consumedJoin p rt w, drainWake p rt w)
  | x => x

def drainInputs (reason : DrainReason) (scope : DrainScope) (rt₀ : SupervisorRuntime) (inputs : List Input) :
    List ConsumedJoin × DrainOut × SupervisorRuntime :=
  inputs.foldl drainInput ([], rt₀.startDrain reason scope)

theorem drainInputs_drained (reason : DrainReason) (scope : DrainScope) (rt₀ : SupervisorRuntime) (inputs : List Input) :
    Drained reason scope rt₀ (drainInputs reason scope rt₀ inputs).1 (drainInputs reason scope rt₀ inputs).2.1
      (drainInputs reason scope rt₀ inputs).2.2 := by
  induction inputs using List.reverseRecOn with
  | nil => exact .start
  | append_singleton is i ih =>
    have hsplit : drainInputs reason scope rt₀ (is ++ [i]) = drainInput (drainInputs reason scope rt₀ is) i := by
      simp [drainInputs, List.foldl_append]
    rw [hsplit]
    generalize drainInputs reason scope rt₀ is = x at ih
    obtain ⟨joins, out, rt⟩ := x
    cases out with
    | done r => exact ih
    | await p =>
      cases i with
      | env e => exact .env e ih
      | wake w => exact .wake w ih

deriving instance DecidableEq for OrderedDrain, OrderedWait, ConcurrentDrain, DrainPhase, DrainOut

/-- Four children, of which `a` may not be restarted even once. -/
def brittleFirst : SupervisorConfig where
  host := pair.host
  strategy := .restForOne
  kind := .ordered
  defaultChildRestart := .default
  defaultChildShutdown := .default
  children := [{ id := "a", restart := .onFailure 0 (secs 30) .none }, { id := "b" }, { id := "c" }, { id := "d" }]
  ids_nodup := by decide
  ids_nonempty := by decide

/-- `c` fails and its restart is due. -/
def thirdFails : List Input :=
  [.env (.conclude 3 .panicked), .env (.settle 3), .wake (.joined 3), .wake .deadline]

/-- The state in which its restart turns to the drain. -/
def thirdRestarts : SupervisorRuntime :=
  ((drainDeadlineCommandBatch [] >>= fun _ => handleDeadlines) (run (start brittleFirst rootBinding) thirdFails).rt).2

/-- `b` fails and `d` stops as it was asked. -/
def oneOutside : List Input :=
  [.env (.conclude 2 .panicked), .env (.settle 2), .wake (.joined 2), .env (.conclude 4 (.returned .ok)), .env (.settle 4),
    .wake (.joined 4)]

/-- `a` fails too, before `b`. -/
def twoOutside : List Input :=
  [.env (.conclude 1 .panicked), .env (.settle 1), .wake (.joined 1)] ++ oneOutside

theorem thirdRestarts_begins : RestartBegins (run (start brittleFirst rootBinding) thirdFails) [3, 4] thirdRestarts :=
  ⟨by rfl, by rfl⟩

/-- The policy of `b` is applied. -/
theorem restart_drain_one :
    let x := drainInputs .restForOneRestart (.subset [3, 4]) thirdRestarts oneOutside
    Accounted (.subset [3, 4]) thirdRestarts x.1 x.2.1 x.2.2 ∧ x.1.map (·.record.key) = [2, 4] ∧
      x.2.1 = .done (.ok [⟨2, 1, 0, .panicked⟩]) ∧
      policiesApplied [⟨2, 1, 0, .panicked⟩] (respawnGroup [3, 4] false [⟨2, 1, 0, .panicked⟩] x.2.2).2 =
        [⟨2, 1, 0, .panicked⟩] := by
  intro x
  have hdone : x.2.1 = .done (.ok [⟨2, 1, 0, .panicked⟩]) := by decide +kernel
  have hkeys : x.1.map (·.record.key) = [2, 4] := by decide +kernel
  have hrun : (respawnGroup [3, 4] false [⟨2, 1, 0, .panicked⟩] x.2.2).1 = .ok [⟨2, 1, 0, .panicked⟩] := by decide +kernel
  have hall : (applyDeferred [⟨2, 1, 0, .panicked⟩] (respawnGroup [3, 4] false [⟨2, 1, 0, .panicked⟩] x.2.2).2).1 = .ok () := by
    decide +kernel
  have hdrained : Drained .restForOneRestart (.subset [3, 4]) thirdRestarts x.1 x.2.1 x.2.2 := drainInputs_drained ..
  clear_value x
  have h := restart_drain brittleFirst rootBinding thirdFails [3, 4] thirdRestarts _ _ _ _ _ thirdRestarts_begins
    (by decide) hdrained
  refine ⟨h.1, hkeys, hdone, ?_⟩
  generalize hpair : respawnGroup [3, 4] false [⟨2, 1, 0, .panicked⟩] x.2.2 = y at hrun hall
  obtain ⟨r, rt'⟩ := y
  subst hrun
  exact ((h.2 rfl).2 _ _ _ rfl hdone hpair).2.2 hall

/-- The policy of `a` fails the scope, and that of `b` is not applied. -/
theorem restart_policies_cut :
    let x := drainInputs .restForOneRestart (.subset [3, 4]) thirdRestarts twoOutside
    RestartBegins (run (start brittleFirst rootBinding) thirdFails) [3, 4] thirdRestarts ∧
    Drained .restForOneRestart (.subset [3, 4]) thirdRestarts x.1 x.2.1 x.2.2 ∧
    ∃ exits, x.2.1 = .done (.ok exits) ∧ exits.map (·.key) = [1, 2] ∧
      (respawnGroup [3, 4] false exits x.2.2).1 = .ok exits ∧
      (policiesApplied exits (respawnGroup [3, 4] false exits x.2.2).2).map (·.key) = [1] :=
  ⟨thirdRestarts_begins, drainInputs_drained .., [⟨1, 0, 0, .panicked⟩, ⟨2, 1, 0, .panicked⟩], by decide +kernel⟩

end Kokage.Supervisor

/-
  Kokage.Supervisor.Removals — the replies to removals, over whole runs.

  Every token of an accepted `RemoveChild` is in exactly one place: in the queue, parked in
  an entry, or answered; nothing is parked once `run` has returned. A reply says what
  happened (`Truthful`): `Unavailable` exactly when the incarnation failed with the removal
  still parked, `Ok` only when the child is gone, and only after everything could be seen.

  The condition is on the last sweep of a shutdown: a removal that is still parked there
  must have outlived its grace (`overrun`). When it has not, the epilogue answers `Ok` for a
  child that nobody joined (`removal_untrue`).
-/

import Kokage.Supervisor.Replies
import Kokage.Supervisor.Shutdown

namespace Kokage.Supervisor

open Kokage.Lib Desk Ledger SupervisorRuntime

/-! ## What is said -/

/-- The step ended `run` because its loop failed. A shutdown that times out is no failure. -/
def Fails (m m' : Machine) : Prop :=
  (∃ e, m'.phase = .exited (.error e)) ∧ (∀ r, m.phase ≠ .exited r) ∧ ∀ p, m.phase ≠ .drain p (.shutdown .shutdown)

def Desk.Parks (D : Desk) (reply : Nat) : Prop :=
  ∃ key s p, D.slots.get key = some s ∧ s.pending = some p ∧ p.reply = reply

/-- What a step that sent `new` said. -/
structure Truthful (m m' : Machine) (new : List Reply) : Prop where
  unavailable : ∀ r seen, (r, .error .unavailable, seen) ∈ new → Fails m m'
  /-- `D` is the desk on which the failing step left its loop. -/
  failed : Fails m m' → ∃ D, Attends m.rt.desk D ∧
    (∀ k, m'.rt.desk.slots.get k = (D.slots.get k).map fun s => { s with pending := none }) ∧
    ∀ r, (∃ seen, (r, .error .unavailable, seen) ∈ new) ↔ D.Parks r
  /-- Everything could be seen before the reply was sent, and stays so. -/
  gone : ∀ r seen, (r, .ok (), seen) ∈ new → ∃ id lineage identity, m.rt.desk.Targets r id lineage ∧
    m.rt.desk.Names id lineage identity ∧ (∃ s, seen = some s ∧ s.Completes id lineage identity) ∧
    m'.rt.desk.Finalized id lineage identity

/-- The grace of a parked removal is over. -/
def overrun (rt : SupervisorRuntime) (p : PendingRemoval) : Bool :=
  p.graceExpired || (!p.policy.isAbort && decide (p.graceDeadline ≤ rt.now))

/-- When the last sweep of a shutdown comes to its end, the removals still parked have
    outlived their grace. -/
def overruns (m : Machine) : Input → Bool
  | .env _ => true
  | .wake w =>
    match m.phase with
    | .drain (.concurrent _ .lastSweep) (.shutdown .shutdown) =>
      decide (w ≠ .noJoin) || m.rt.parkedRemovals.all fun x => overrun m.rt x.2
    | _ => true

def overrunsThroughout : Machine → List Input → Bool
  | _, [] => true
  | m, i :: is => overruns m i && overrunsThroughout (step m i) is

/-- How often this removal was accepted into the queue. -/
def removalsAccepted (reply : Nat) : Machine → List Input → Nat
  | _, [] => 0
  | m, i :: is =>
    (match i with
      | .env (.submit command) => (m.rt.accepts && command.asks reply).toNat
      | _ => 0) + removalsAccepted reply (step m i) is

/-! ## The invariant of the machine -/

/-- Nobody has asked for anything. -/
structure Desk.Unasked (D : Desk) : Prop where
  commands_eq : D.commands = []
  silent : ∀ key s, D.slots.get key = some s → s.pending = none

theorem Desk.Unasked.not_targets {D : Desk} (h : D.Unasked) {r : Nat} {id : String} {lineage : Nat} :
    ¬ D.Targets r id lineage := by
  rintro (⟨key, s, p, hs, hp, -⟩ | ⟨expected, hc, -⟩)
  · rw [h.silent key s hs] at hp
    cases hp
  · rw [h.commands_eq] at hc
    cases hc

theorem Desk.Unasked.attends {D D' : Desk} (h : D.Unasked) (ha : Attends D D') : D'.Unasked := by
  constructor
  · refine List.eq_nil_iff_forall_not_mem.mpr fun c hc => ?_
    have := ha.mem_commands hc
    rw [h.commands_eq] at this
    cases this
  · intro key s hs
    cases hp : s.pending with
    | none => rfl
    | some p => exact absurd (ha.parked key s p hs hp) h.not_targets

/-- The desk is in order while `run` is on. -/
structure Machine.Staffed (m : Machine) : Prop where
  fit : (∀ r, m.phase ≠ .exited r) → m.rt.Fit
  busy : (∀ r, m.phase ≠ .exited r) → m.rt.Busy
  drain : ∀ p after, m.phase = .drain p (.shutdown after) → p.tag = (.shutdown, .all, m.rt.cfg.kind)
  static : m.rt.cfg.kind = .ordered → m.rt.desk.Unasked
  silent : ∀ r, m.phase = .exited r → ∀ key s, m.rt.desk.slots.get key = some s → s.pending = none

section Epilogue

variable {m : Machine} {late : Prop} {rt rt₁ : SupervisorRuntime}

theorem mem_parks {r : Nat} : rt.desk.Parks r ↔ ∃ x ∈ rt.parkedRemovals, x.2.reply = r := by
  constructor
  · rintro ⟨key, s, p, hs, hp, rfl⟩
    obtain ⟨e, he, rfl⟩ := get_of_desk hs
    exact ⟨(e.id, p), mem_parkedRemovals.mpr ⟨key, e, he, hp, rfl⟩, rfl⟩
  · rintro ⟨⟨id, p⟩, hx, rfl⟩
    obtain ⟨key, e, he, hp, rfl⟩ := mem_parkedRemovals.mp hx
    exact ⟨key, e.slot, p, desk_get he, hp, rfl⟩

theorem closed_finalized {failure : Option SupervisorError} {id : String} {lineage : Nat} {identity : Option Nat}
    (h : rt.desk.Finalized id lineage identity) : (rt.closed failure).desk.Finalized id lineage identity := by
  rw [closed_desk]
  refine { gone := fun hk => h.gone ?_, joined := h.joined, hidden := h.hidden, told := h.told, retired := h.retired }
  rcases hk with hk | ⟨key, s, hs, hl⟩
  · exact .inl hk
  · have hs : (rt.desk.slots.map fun _ s => { s with pending := none }).get key = some s := hs
    rw [Slab.get_map] at hs
    obtain ⟨s₀, hs₀, rfl⟩ := Option.map_eq_some_iff.mp hs
    exact .inr ⟨key, s₀, hs₀, hl⟩

theorem closed_silent {failure : Option SupervisorError} (key : ChildKey) (s : Slot)
    (h : (rt.closed failure).desk.slots.get key = some s) : s.pending = none := by
  rw [closed_slots] at h
  obtain ⟨s₀, -, rfl⟩ := Option.map_eq_some_iff.mp h
  rfl

theorem closed_kind (failure : Option SupervisorError) : (rt.closed failure).cfg.kind = rt.cfg.kind := by
  cases failure with
  | none => exact congrArg Ledger.kind (@endShutdown_ledger rt .shutdown (.ok ()))
  | some e => exact congrArg Ledger.kind (@endShutdown_ledger rt (.failure e) (.ok ()))

theorem closed_staffed {result : Except SupervisorError Unit} {failure : Option SupervisorError} (h : m.Staffed)
    (ha : Attends m.rt.desk rt₁.desk) (hk : rt₁.cfg.kind = m.rt.cfg.kind) :
    Machine.Staffed ⟨rt₁.closed failure, .exited result⟩ where
  fit hne := absurd rfl (hne result)
  busy hne := absurd rfl (hne result)
  drain _ _ hd := by cases hd
  static hord := by
    have hord : (rt₁.closed failure).cfg.kind = .ordered := hord
    rw [closed_kind, hk] at hord
    have hun := (h.static hord).attends ha
    refine ⟨?_, closed_silent⟩
    show (rt₁.closed failure).desk.commands = []
    rw [closed_desk]
    exact hun.commands_eq
  silent _ _ := closed_silent

/-- The epilogue of a shutdown tells the truth when whoever is still parked has outlived its
    grace. -/
theorem closed_truthful {result : Except SupervisorError Unit} (ha : Attends m.rt.desk rt₁.desk)
    (hresult : ∀ e, result = .error e → ∃ p, m.phase = .drain p (.shutdown .shutdown))
    (hover : ∀ x ∈ rt₁.parkedRemovals, overrun rt₁ x.2 = true) :
    ∃ new, (rt₁.closed none).desk.replies = m.rt.desk.replies ++ new ∧ Truthful m ⟨rt₁.closed none, .exited result⟩ new := by
  obtain ⟨new, hr, hnew⟩ := ha.replies
  have hlate : ∀ x ∈ rt₁.parkedRemovals.map (rt₁.epilogueReply none), ∃ id, x.2.1 = .error (.failed (.shutdownTimedOut id)) := by
    intro x hx
    obtain ⟨y, hy, rfl⟩ := List.mem_map.mp hx
    have hover := hover y hy
    unfold overrun at hover
    refine ⟨y.1, ?_⟩
    unfold epilogueReply pendingRemovalResult
    simp only [Bool.true_and, hover]
    rfl
  refine ⟨new ++ rt₁.parkedRemovals.map (rt₁.epilogueReply none), ?_, ?_, ?_, ?_⟩
  · rw [closed_replies, hr, List.append_assoc]
  · intro r seen hmem
    rcases List.mem_append.mp hmem with hmem | hmem
    · exact absurd rfl (hnew r _ _ hmem).1
    · obtain ⟨id, h⟩ := hlate _ hmem
      cases h
  · rintro ⟨⟨e, he⟩, -, hp⟩
    cases he
    obtain ⟨p, h⟩ := hresult e rfl
    exact absurd h (hp p)
  · intro r seen hmem
    rcases List.mem_append.mp hmem with hmem | hmem
    · obtain ⟨id, lineage, identity, ht, hn, hs, hf⟩ := (hnew r _ _ hmem).2 rfl
      exact ⟨id, lineage, identity, ht, hn, hs, closed_finalized hf⟩
    · obtain ⟨id, h⟩ := hlate _ hmem
      cases h

/-- A failing incarnation answers `Unavailable` to whoever is parked. -/
theorem failed_truthful {e : SupervisorError} (hne : ∀ r, m.phase ≠ .exited r)
    (hp : ¬ ∃ p, m.phase = .drain p (.shutdown .shutdown)) (ha : Attends m.rt.desk rt₁.desk) :
    ∃ new, (rt₁.closed (some e)).desk.replies = m.rt.desk.replies ++ new ∧
      Truthful m ⟨rt₁.closed (some e), .exited (.error e)⟩ new := by
  obtain ⟨new, hr, hnew⟩ := ha.replies
  have hfails : Fails m ⟨rt₁.closed (some e), .exited (.error e)⟩ := ⟨⟨e, rfl⟩, hne, fun p h => hp ⟨p, h⟩⟩
  refine ⟨new ++ rt₁.parkedRemovals.map (rt₁.epilogueReply (some e)), ?_, ?_, ?_, ?_⟩
  · rw [closed_replies, hr, List.append_assoc]
  · exact fun _ _ _ => hfails
  · refine fun _ => ⟨rt₁.desk, ha, closed_slots _, fun r => ?_⟩
    rw [mem_parks]
    constructor
    · rintro ⟨seen, h⟩
      rcases List.mem_append.mp h with h | h
      · exact absurd rfl (hnew r _ _ h).1
      · obtain ⟨x, hx, h⟩ := List.mem_map.mp h
        exact ⟨x, hx, congrArg Prod.fst h⟩
    · rintro ⟨x, hx, rfl⟩
      exact ⟨some rt₁.seen, List.mem_append_right _ (List.mem_map.mpr ⟨x, hx, rfl⟩)⟩
  · intro r seen hmem
    rcases List.mem_append.mp hmem with hmem | hmem
    · obtain ⟨id, lineage, identity, ht, hn, hs, hf⟩ := (hnew r _ _ hmem).2 rfl
      exact ⟨id, lineage, identity, ht, hn, hs, closed_finalized hf⟩
    · obtain ⟨x, -, h⟩ := List.mem_map.mp hmem
      cases congrArg (·.2.1) h

/-- A scope that nobody is active in has nobody parked. -/
theorem parked_nil (hv : rt.Vacated) (hf : rt.Fit) (hb : rt.Busy)
    (hs : rt.cfg.kind = .ordered → rt.desk.Unasked) : rt.parkedRemovals = [] := by
  refine List.eq_nil_iff_forall_not_mem.mpr fun ⟨id, p⟩ hx => ?_
  obtain ⟨key, e, he, hp, -⟩ := mem_parkedRemovals.mp hx
  rcases hv with hord | hidle
  · exact absurd (.of_slot (desk_get he) hp) (hs hord).not_targets
  · have hm : e.membership = .removing := by
      rw [hf.removing_iff he, hp]
      rfl
    have hact := hb key e he hm
    rw [hidle key e he] at hact
    cases hact

end Epilogue

/-! ## Wakes -/

section Wakes

variable {m m' : Machine} {late : Prop}

theorem Goes.of_iff {late' : Prop} {rt : SupervisorRuntime} (h : Goes late rt m) (hl : late ↔ late') : Goes late' rt m :=
  propext hl ▸ h

theorem Goes.tokens {rt : SupervisorRuntime} (h : Goes late rt m) (r : Nat) : m.rt.desk.tokens r = rt.desk.tokens r := by
  cases h with
  | awaits hk => exact hk.1.tokens_eq r
  | fails _ hk => exact (closed_tokens _ r).trans (hk.1.tokens_eq r)
  | returns _ hk => exact (closed_tokens _ r).trans (hk.1.tokens_eq r)

theorem Goes.staffed (h : Goes late m.rt m') (hs : m.Staffed) (hne : ∀ r, m.phase ≠ .exited r)
    (hkind : m'.rt.cfg.kind = m.rt.cfg.kind) : m'.Staffed := by
  cases h with
  | awaits hk hp htag =>
    exact
      { fit := fun _ => (hs.fit hne).attends hk.1
        busy := fun _ => hk.2 (hs.busy hne)
        drain := htag
        static := fun hord => (hs.static (hkind ▸ hord)).attends hk.1
        silent := fun r hr => absurd hr (hp r) }
  | fails _ hk => exact closed_staffed hs hk.1 ((closed_kind _).symm.trans hkind)
  | returns _ hk => exact closed_staffed hs hk.1 ((closed_kind _).symm.trans hkind)

theorem Goes.truthful (h : Goes (∃ p, m.phase = .drain p (.shutdown .shutdown)) m.rt m') (hs : m.Staffed)
    (hne : ∀ r, m.phase ≠ .exited r) (hkind : m'.rt.cfg.kind = m.rt.cfg.kind) :
    ∃ new, m'.rt.desk.replies = m.rt.desk.replies ++ new ∧ Truthful m m' new := by
  cases h with
  | awaits hk hp =>
    obtain ⟨new, hr, hnew⟩ := hk.1.replies
    refine ⟨new, hr, fun r _ hmem => absurd rfl (hnew r _ _ hmem).1, ?_, fun r _ hmem => (hnew r _ _ hmem).2 rfl⟩
    rintro ⟨⟨e, he⟩, -⟩
    exact absurd he (hp _)
  | fails hl hk => exact failed_truthful hne hl hk.1
  | @returns rt₁ result hl hk hv =>
    have hnil : rt₁.parkedRemovals = [] := by
      refine parked_nil hv ((hs.fit hne).attends hk.1) (hk.2 (hs.busy hne)) fun hord => ?_
      exact (hs.static (((closed_kind none).symm.trans hkind).symm.trans hord)).attends hk.1
    refine closed_truthful hk.1 hl fun x hx => ?_
    rw [hnil] at hx
    cases hx

/-- Commands wait only in a dynamic scope. -/
theorem Machine.Staffed.dynamic (hs : m.Staffed) (hc : m.rt.commandRx ≠ []) : m.rt.cfg.kind = .dynamic := by
  cases hk : m.rt.cfg.kind with
  | dynamic => rfl
  | ordered => exact absurd (hs.static hk).commands_eq hc

/-- A wake leads on, or is the end of a shutdown's last sweep. -/
theorem wake_goes (w : Wake) (hinv : m.Inv) (hs : m.Staffed) (hne : ∀ r, m.phase ≠ .exited r) :
    Goes (∃ p, m.phase = .drain p (.shutdown .shutdown)) m.rt (wake m w) ∨ sweptOut m (.wake w) ∧
      ∃ rt₁ result, wake m w = ⟨closed rt₁ none, .exited result⟩ ∧ Keeps m.rt rt₁ ∧
        rt₁.children = m.rt.children ∧ rt₁.now = m.rt.now := by
  have hf := hs.fit hne
  have hd := hs.dynamic
  obtain ⟨rt, phase⟩ := m
  cases phase with
  | main =>
    refine .inl ((wakeMain_goes w hinv.books hinv.phase.1 hinv.phase.2 hf hd).of_iff ⟨False.elim, ?_⟩)
    rintro ⟨p, hp⟩
    cases hp
  | deadlineYield =>
    left
    unfold wake
    simp only
    have hl : False ↔ ∃ p, Phase.deadlineYield = .drain p (.shutdown .shutdown) := by
      refine ⟨False.elim, ?_⟩
      rintro ⟨p, hp⟩
      cases hp
    split
    · exact (deadlineBatch_goes hinv.books hinv.phase.1 hinv.phase.2 hf hd).of_iff hl
    · exact .awaits .refl hne fun _ _ hd => by cases hd
  | drain p k =>
    cases k with
    | restart keys freshGroupToken =>
      refine .inl ((restartDrain_goes w hinv.books hf hinv.phase).of_iff ⟨False.elim, ?_⟩)
      rintro ⟨p, hp⟩
      cases hp
    | shutdown after =>
      rcases shutdownWake_goes after w hinv.books hf (hs.drain p after rfl) with h | h
      · refine .inl (h.of_iff ⟨?_, ?_⟩)
        · rintro rfl
          exact ⟨p, rfl⟩
        · rintro ⟨p', hp⟩
          cases hp
          rfl
      · exact .inr h
  | exited r => exact absurd rfl (hne r)

end Wakes

/-! ## The environment -/

section Env

variable {m : Machine} {rt : SupervisorRuntime}

/-- Only a submission reaches the desk from outside. -/
theorem env_tends (e : EnvStep) (he : ∀ c, e ≠ .submit c) : Tends rt (rt.env e) := by
  have hstatus : ∀ (rt : SupervisorRuntime) task status, Tends rt (rt.setStatus task status) := fun _ _ _ => Calm.of_eq rfl
  cases e with
  | submit c => exact absurd rfl (he c)
  | markReady r =>
    unfold env
    simp only
    split
    · exact Calm.of_eq rfl
    · exact .rfl
  | forward spawn snapshot =>
    unfold env forwardSnapshot
    simp only
    split
    · exact .rfl
    · exact Calm.of_eq rfl
  | conclude task c =>
    unfold env
    simp only
    split
    · exact .rfl
    · split
      · exact .rfl
      · refine Tends.trans ?_ (hstatus _ task _)
        split
        · unfold markClean
          split
          · split
            · exact tends_edit fun _ _ => rfl
            · exact .rfl
          · exact .rfl
        · exact .rfl
  | settle task =>
    unfold env
    simp only
    split
    · exact hstatus _ _ _
    · exact .rfl
  | _ => exact Calm.of_eq rfl

theorem env_kind (e : EnvStep) : (rt.env e).cfg.kind = rt.cfg.kind := by
  rcases @env_ledger rt e with h | h
  · exact congrArg Ledger.kind h
  · exact h.kind

theorem env_staffed (e : EnvStep) (hs : m.Staffed) : Machine.Staffed ⟨m.rt.env e, m.phase⟩ := by
  by_cases he : ∃ c, e = .submit c
  · obtain ⟨c, rfl⟩ := he
    unfold env
    simp only
    split
    · rename_i hacc
      have hdyn : m.rt.cfg.kind = .dynamic := (decide_eq_true_eq.mp (Bool.and_eq_true_iff.mp hacc).1)
      exact
        { fit := fun hne => ⟨⟨(hs.fit hne).sound.lineage_lt, (hs.fit hne).sound.lineage_inj⟩, (hs.fit hne).tidy⟩
          busy := hs.busy
          drain := hs.drain
          static := fun hord => by
            have hord : m.rt.cfg.kind = .ordered := hord
            rw [hdyn] at hord
            cases hord
          silent := hs.silent }
    · exact hs
  · have ht : Tends m.rt (m.rt.env e) := env_tends e fun c hc => he ⟨c, hc⟩
    have hlead : Leads (· = .sent) m.rt (m.rt.env e) := by
      rcases @env_ledger m.rt e with h | h
      · exact .of_eq h.symm
      · exact .single h rfl
    have hserves : ∀ l, l = .sent → Serves l := by
      rintro l rfl
      trivial
    exact
      { fit := fun hne => (hs.fit hne).tends ht
        busy := fun hne => (keeps_of_leads (hs.fit hne) ht hlead hserves).2 (hs.busy hne)
        drain := fun p after hp => (hs.drain p after hp).trans (by rw [env_kind])
        static := fun hord => (hs.static ((env_kind e).symm.trans hord)).attends ht.toAttends
        silent := fun r hr key s hget => by
          cases hp : s.pending with
          | none => rfl
          | some p =>
            obtain ⟨s₀, hs₀, -, hp₀⟩ := ht.pending key s hget (by rw [hp]; rfl)
            rw [hs.silent r hr key s₀ hs₀] at hp₀
            cases hp₀ }

theorem env_tokens (e : EnvStep) (r : Nat) :
    (m.rt.env e).desk.tokens r = m.rt.desk.tokens r + removalsAccepted r m [.env e] := by
  by_cases he : ∃ c, e = .submit c
  · obtain ⟨c, rfl⟩ := he
    unfold env removalsAccepted
    simp only
    cases hacc : m.rt.accepts with
    | false => simp [removalsAccepted]
    | true =>
      have hq : ∀ D : Desk, Desk.tokens { D with commands := D.commands ++ [c] } r = D.tokens r + (c.asks r).toNat := by
        intro D
        unfold Desk.tokens
        rw [List.countP_append, List.countP_singleton]
        cases c.asks r with
        | false => simp
        | true => simp; omega
      rw [if_pos rfl]
      refine (hq m.rt.desk).trans ?_
      simp [removalsAccepted]
  · have ht := (@env_tends m.rt e fun c hc => he ⟨c, hc⟩).tokens_eq r
    rw [ht]
    cases e with
    | submit c => exact absurd ⟨c, rfl⟩ he
    | _ => rfl

theorem env_truthful (e : EnvStep) : ∃ new, (m.rt.env e).desk.replies = m.rt.desk.replies ++ new ∧
    Truthful m ⟨m.rt.env e, m.phase⟩ new := by
  have hrun : ¬ Fails m ⟨m.rt.env e, m.phase⟩ := by
    rintro ⟨⟨x, hx⟩, hne, -⟩
    exact hne _ hx
  by_cases he : ∃ c, e = .submit c
  · obtain ⟨c, rfl⟩ := he
    refine ⟨[], ?_, nofun, fun h => absurd h hrun, nofun⟩
    unfold env
    simp only
    split
    · exact (List.append_nil _).symm
    · exact (List.append_nil _).symm
  · obtain ⟨new, hr, hnew⟩ := (@env_tends m.rt e fun c hc => he ⟨c, hc⟩).replies
    exact ⟨new, hr, fun r _ h => absurd rfl (hnew r _ _ h).1, fun h => absurd h hrun, fun r _ h => (hnew r _ _ h).2 rfl⟩

end Env

/-! ## Steps -/

section Steps

variable {m : Machine}

theorem wake_kind (w : Wake) (hinv : m.Inv) : (wake m w).rt.cfg.kind = m.rt.cfg.kind := by
  rcases (wake_inv w hinv).2 with h | ⟨task, t, c, L, -, -, -, hs, h⟩
  · exact Ledger.Path.kind h
  · exact (Ledger.Path.kind h).trans hs.kind

theorem step_staffed (i : Input) (hinv : m.Inv) (hs : m.Staffed) :
    (step m i).Staffed ∧ ∀ r, (step m i).rt.desk.tokens r = m.rt.desk.tokens r + removalsAccepted r m [i] := by
  cases i with
  | env e => exact ⟨env_staffed e hs, env_tokens e⟩
  | wake w =>
    by_cases hne : ∀ r, m.phase ≠ .exited r
    · rcases wake_goes w hinv hs hne with hg | ⟨-, rt₁, result, heq, hk, -⟩
      · exact ⟨hg.staffed hs hne (wake_kind w hinv), hg.tokens⟩
      · have hkind := wake_kind w hinv
        show (wake m w).Staffed ∧ ∀ r, (wake m w).rt.desk.tokens r = _
        rw [heq] at hkind ⊢
        refine ⟨closed_staffed hs hk.1 ((closed_kind none).symm.trans hkind), fun r => ?_⟩
        exact (closed_tokens none r).trans (hk.1.tokens_eq r)
    · obtain ⟨rt, phase⟩ := m
      cases phase with
      | exited result => exact ⟨hs, fun _ => rfl⟩
      | _ => exact absurd nofun hne

theorem step_truthful (i : Input) (hinv : m.Inv) (hs : m.Staffed) (ho : overruns m i = true) :
    ∃ new, (step m i).rt.desk.replies = m.rt.desk.replies ++ new ∧ Truthful m (step m i) new := by
  cases i with
  | env e => exact env_truthful e
  | wake w =>
    by_cases hne : ∀ r, m.phase ≠ .exited r
    · rcases wake_goes w hinv hs hne with hg | ⟨⟨d, hd, hw⟩, rt₁, result, heq, hk, hchildren, hnow⟩
      · exact hg.truthful hs hne (wake_kind w hinv)
      · cases hw
        show ∃ new, (wake m .noJoin).rt.desk.replies = _ ∧ Truthful m (wake m .noJoin) new
        rw [heq]
        refine closed_truthful hk.1 (fun _ _ => ⟨_, hd⟩) fun x hx => ?_
        -- the last sweep leaves the parked removals as they were
        have hover : ∀ y ∈ m.rt.parkedRemovals, overrun m.rt y.2 = true := by
          unfold overruns at ho
          simp only [hd] at ho
          exact List.all_eq_true.mp ho
        have hx : x ∈ m.rt.parkedRemovals := by
          unfold parkedRemovals at hx ⊢
          rwa [hchildren] at hx
        have := hover x hx
        unfold overrun at this ⊢
        rwa [hnow]
    · obtain ⟨rt, phase⟩ := m
      cases phase with
      | exited result =>
        refine ⟨[], (List.append_nil _).symm, nofun, ?_, nofun⟩
        rintro ⟨-, h, -⟩
        exact absurd rfl (h result)
      | _ => exact absurd nofun hne

end Steps

/-! ## The start -/

section Start

variable {rt : SupervisorRuntime}

theorem new_unasked (c : SupervisorConfig) (b : Binding) :
    (SupervisorRuntime.new c b).desk.Unasked ∧ (SupervisorRuntime.new c b).desk.replies = [] := by
  have hinsert : ∀ (rt : SupervisorRuntime) d, rt.desk.Unasked ∧ rt.desk.replies = [] →
      (rt.insertEntry d (staticChannels d)).desk.Unasked ∧ (rt.insertEntry d (staticChannels d)).desk.replies = [] := by
    rintro rt d ⟨h, hr⟩
    refine ⟨⟨h.commands_eq, fun key s hs => ?_⟩, hr⟩
    obtain ⟨e, he, rfl⟩ := get_of_desk hs
    have he : (rt.children.insertAt _ _).get key = some e := he
    rw [Slab.get_insertAt] at he
    split at he
    · cases he
      rfl
    · exact h.silent key e.slot (desk_get he)
  have hfold : ∀ (ds : List ChildDefinition) (rt : SupervisorRuntime), rt.desk.Unasked ∧ rt.desk.replies = [] →
      (ds.foldl (fun rt d => rt.insertEntry d (staticChannels d)) rt).desk.Unasked ∧
        (ds.foldl (fun rt d => rt.insertEntry d (staticChannels d)) rt).desk.replies = [] := by
    intro ds
    induction ds with
    | nil => exact fun _ h => h
    | cons d ds ih => exact fun rt h => ih _ (hinsert rt d h)
  refine hfold c.children _ ⟨⟨rfl, fun key s hs => ?_⟩, rfl⟩
  obtain ⟨e, he, -⟩ := get_of_desk hs
  cases he

theorem new_active (c : SupervisorConfig) (b : Binding) {key : ChildKey} {e : ChildEntry}
    (h : (SupervisorRuntime.new c b).children.get key = some e) : e.membership = .active :=
  ((new_blank c b).1.fresh key e.member (ledger_get h)).membership_eq

theorem new_fit (c : SupervisorConfig) (b : Binding) : (SupervisorRuntime.new c b).Fit := by
  have hbooks := (new_blank c b).1.books
  refine ⟨⟨fun key s hs => ?_, fun key s key' s' hs hs' hl => ?_⟩, fun key s hs => ?_⟩
  · obtain ⟨e, he, rfl⟩ := get_of_desk hs
    exact hbooks.lineage_lt key e.member (ledger_get he)
  · obtain ⟨e, he, rfl⟩ := get_of_desk hs
    obtain ⟨e', he', rfl⟩ := get_of_desk hs'
    exact hbooks.lineage_inj key e.member key' e'.member (ledger_get he) (ledger_get he') hl
  · obtain ⟨e, he, rfl⟩ := get_of_desk hs
    have hp : e.slot.pending = none := (new_unasked c b).1.silent key e.slot hs
    rw [hp]
    refine ⟨fun hm => ?_, nofun⟩
    have hm : e.membership = .removing := hm
    rw [new_active c b he] at hm
    cases hm

theorem startup_tends (hasParent : Bool) (hf : rt.Fit) : Act.Runs Tends (startup hasParent) rt fun _ _ => True := by
  unfold startup
  refine Act.runs_bind (hf.runs (Act.runs_modify (tends_sendSupervisorEvent _) trivial)) fun _ rt₁ _ hf₁ => Act.runs_get ?_
  simp only
  refine Act.runs_bind (hf₁.runs (Act.runs_forEach (I := fun _ _ => True) (fun key rest rt _ => ?_) _ rt₁ trivial)) fun _ rt₂ _ hf₂ => ?_
  · exact Act.runs_modify (tends_sendLifecycle key _) trivial
  have hrest : ∀ rt : SupervisorRuntime, rt.Fit → Act.Runs Tends (do
      scheduleStartSequence rt₁.childOrder false
      Act.modify completeEmptyStartupGate : RuntimeM Unit) rt fun _ _ => True := fun rt hf =>
    Act.runs_bind (scheduleStartSequence_tends _ false hf) fun _ _ _ _ =>
      Act.runs_modify tends_completeEmptyStartupGate trivial
  cases hasParent with
  | true => exact Act.runs_modify_bind (Calm.of_eq rfl) (hrest _ ⟨⟨hf₂.sound.lineage_lt, hf₂.sound.lineage_inj⟩, hf₂.tidy⟩)
  | false => exact hrest rt₂ hf₂

theorem start_goes (c : SupervisorConfig) (b : Binding) : Goes False (.new c b) (start c b) := by
  have hf := new_fit c b
  have ht : Tends (.new c b) (startup b.hasParent (.new c b)).2 := (startup_tends b.hasParent hf).1
  refine continueMain_goes ⟨ht.toAttends, fun _ key e he hm => ?_⟩
  obtain ⟨e₀, he₀, -, hm₀⟩ := ht.recalls hf key e he hm
  rw [new_active c b he₀] at hm₀
  cases hm₀

theorem start_staffed (c : SupervisorConfig) (b : Binding) :
    (start c b).Staffed ∧ ∀ r, (start c b).rt.desk.tokens r = 0 := by
  have hun := (new_unasked c b).1
  have hidle : ∀ key e, (SupervisorRuntime.new c b).children.get key = some e → e.membership ≠ .removing := by
    intro key e he hm
    rw [new_active c b he] at hm
    cases hm
  have hnew : Machine.Staffed ⟨.new c b, .main⟩ :=
    { fit := fun _ => new_fit c b
      busy := fun _ key e he hm => absurd hm (hidle key e he)
      drain := fun _ _ hd => by cases hd
      static := fun _ => hun
      silent := nofun }
  have hg := start_goes c b
  have hkind : (start c b).rt.cfg.kind = (SupervisorRuntime.new c b).cfg.kind := by
    obtain ⟨L, hp, -, -, hp'⟩ := start_inv c b
    exact (Ledger.Path.kind hp').trans (Ledger.Path.kind hp)
  refine ⟨@Goes.staffed ⟨.new c b, .main⟩ _ _ hg hnew nofun hkind, fun r => (hg.tokens r).trans ?_⟩
  have hcount : (SupervisorRuntime.new c b).desk.slots.count (Slot.holds r) = 0 := by
    refine List.countP_eq_zero.mpr fun key _ => ?_
    cases hs : (SupervisorRuntime.new c b).desk.slots.get key with
    | none => simp
    | some s => simp [Slot.holds, hun.silent key s hs]
  unfold Desk.tokens
  rw [hun.commands_eq, (new_unasked c b).2, hcount]
  rfl

end Start

/-! ## Runs -/

theorem run_staffed (inputs : List Input) : ∀ {m : Machine}, m.Inv → m.Staffed →
    (run m inputs).Staffed ∧ ∀ r, (run m inputs).rt.desk.tokens r = m.rt.desk.tokens r + removalsAccepted r m inputs := by
  induction inputs with
  | nil => exact fun _ hs => ⟨hs, fun _ => rfl⟩
  | cons i is ih =>
    intro m hinv hs
    obtain ⟨hs', htok⟩ := step_staffed i hinv hs
    obtain ⟨hrun, htoks⟩ := ih (step_inv i hinv).1 hs'
    refine ⟨hrun, fun r => ?_⟩
    have hsplit : removalsAccepted r m (i :: is) = removalsAccepted r m [i] + removalsAccepted r (step m i) is := rfl
    have := htok r
    have := htoks r
    show (run (step m i) is).rt.desk.tokens r = _
    omega

theorem overrunsThroughout_append {js : List Input} {i : Input} {ks : List Input} : ∀ {m : Machine},
    overrunsThroughout m (js ++ i :: ks) = true → overruns (run m js) i = true := by
  induction js with
  | nil => exact fun h => (Bool.and_eq_true_iff.mp h).1
  | cons j js ih => exact fun h => ih (Bool.and_eq_true_iff.mp h).2

/-- In every run in which a removal that outlives the last sweep of a shutdown has outlived
    its grace, each accepted removal is in the queue, parked, or answered once, none is
    parked at the end, and every step tells the truth. -/
theorem removal_replies (c : SupervisorConfig) (b : Binding) (inputs : List Input)
    (h : overrunsThroughout (start c b) inputs = true) :
    (∀ r, (run (start c b) inputs).rt.desk.tokens r = removalsAccepted r (start c b) inputs) ∧
    (∀ result, (run (start c b) inputs).phase = .exited result → ∀ r, ¬ (run (start c b) inputs).rt.desk.Parks r) ∧
    ∀ js i ks, inputs = js ++ i :: ks → ∃ new,
      (run (start c b) (js ++ [i])).rt.desk.replies = (run (start c b) js).rt.desk.replies ++ new ∧
        Truthful (run (start c b) js) (run (start c b) (js ++ [i])) new := by
  obtain ⟨hstart, hzero⟩ := start_staffed c b
  have hinv : (start c b).Inv := run_inv c b []
  obtain ⟨hrun, htok⟩ := run_staffed inputs hinv hstart
  refine ⟨fun r => ?_, fun result hr r => ?_, ?_⟩
  · rw [htok, hzero, Nat.zero_add]
  · rintro ⟨key, s, p, hs, hp, -⟩
    rw [hrun.silent result hr key s hs] at hp
    cases hp
  · rintro js i ks rfl
    rw [run_append]
    exact step_truthful i (run_inv c b js) (run_staffed js hinv hstart).1 (overrunsThroughout_append h)

/-- The child is added, its removal is asked for, and its abort lands. -/
def joinedRemoval : List Input :=
  [.env (.submit (.addChild abortedChild abortedChild_isTask 0)), .wake .command, .env (.submit (.removeChild "a" none 1)), .wake .command,
    .env (.conclude 1 .aborted), .env (.settle 1), .wake (.joined 1)]

theorem removal_replies_joined :
    (run (start (oneChild .dynamic) rootBinding) joinedRemoval).rt.desk.replies = [(1, .ok (), some ⟨[], [], [("a", 0)], []⟩)] ∧
    ∀ r, (run (start (oneChild .dynamic) rootBinding) joinedRemoval).rt.desk.tokens r =
      removalsAccepted r (start (oneChild .dynamic) rootBinding) joinedRemoval :=
  ⟨by rfl, (removal_replies _ _ _ (by decide +kernel)).1⟩

/-- Its removal is asked for, and the scope is shut down before the abort lands. -/
def unjoinedRemoval : List Input :=
  [.env (.submit (.addChild abortedChild abortedChild_isTask 0)), .wake .command, .env (.submit (.removeChild "a" none 1)), .wake .command,
    .env .requestShutdown, .wake .shutdown, .wake .resumed, .wake .noJoin, .wake .resumed]

/-- The removal is answered with `Ok` while the child is there, active, and untold. -/
theorem removal_untrue :
    (run (start (oneChild .dynamic) rootBinding) unjoinedRemoval).rt.desk.replies = [] ∧
    (run (start (oneChild .dynamic) rootBinding) (unjoinedRemoval ++ [.wake .noJoin])).rt.desk.replies =
      [(1, .ok (), some ⟨[0], [0], [], []⟩)] ∧
    (run (start (oneChild .dynamic) rootBinding) (unjoinedRemoval ++ [.wake .noJoin])).rt.liveTasks = 1 ∧
    ¬ Truthful (run (start (oneChild .dynamic) rootBinding) unjoinedRemoval)
      (run (start (oneChild .dynamic) rootBinding) (unjoinedRemoval ++ [.wake .noJoin]))
        [(1, .ok (), some ⟨[0], [0], [], []⟩)] := by
  refine ⟨by rfl, by rfl, by rfl, fun h => ?_⟩
  obtain ⟨id, lineage, identity, -, -, -, hf⟩ := h.gone 1 _ (.head _)
  have hlog : (run (start (oneChild .dynamic) rootBinding) (unjoinedRemoval ++ [.wake .noJoin])).rt.desk.removed = [] := by rfl
  have htold := hf.told
  rw [hlog] at htold
  cases htold

end Kokage.Supervisor

/-
  Kokage.Supervisor.Drains — drains are paths of ledger steps, and a restart drain that
  succeeds leaves no child of its scope active.

  No drain starts a child, and a drain asks only children of its scope to stop. The
  ordered drain accounts for every active child of its scope: the cursor has yet to
  reach it, waits for it, or left it among the stragglers (`Progress`). Both drains end
  by naming who is still active; a name is never empty, so no name means nobody.
-/

import Kokage.Supervisor.Exits

namespace Kokage.Supervisor

open Kokage.Lib Ledger SupervisorRuntime

/-! ## What a drain does to the ledger -/

/-- The labels of a drain, joins apart. -/
def Stops (scope : DrainScope) : Label → Prop
  | .other => True
  | .stop k => scope.contains k = true
  | _ => False

theorem Stops.not_spawned {scope : DrainScope} {l : Label} (h : Stops scope l) (k : ChildKey) : l ≠ .spawned k := by
  rintro rfl
  exact h

namespace SupervisorRuntime

variable {rt : SupervisorRuntime} {key : ChildKey} {e : ChildEntry} {A : Label → Prop}

theorem stop_leads {f : ChildRuntime → ChildRuntime} (hA : A (.stop key)) (h : rt.children.get key = some e)
    (hact : e.runtime.state.isActive = true)
    (hf : ({ e with runtime := f e.runtime } : ChildEntry).member = { e.member with state := .stopping }) :
    Leads A rt (rt.editRuntime key f) := by
  unfold Leads editRuntime
  rw [ledger_edit h, hf]
  exact .single (.stopped (ledger_get h) hact) hA

theorem orderedWalk_leads {d : OrderedDrain} : ∀ (keys : List ChildKey) {rt : SupervisorRuntime},
    (∀ k ∈ keys, A (.stop k)) → Leads A rt (orderedWalk d keys rt).2
  | [], _, _ => Ledger.Path.refl
  | key :: rest, rt, hk => by
    have hrest : ∀ k ∈ rest, A (.stop k) := fun k hk' => hk k (List.mem_cons_of_mem _ hk')
    have hkey : A (.stop key) := hk key (List.mem_cons_self ..)
    unfold orderedWalk
    cases h : rt.children.get key with
    | none => exact orderedWalk_leads rest hrest
    | some e =>
      simp only
      split
      · exact orderedWalk_leads rest hrest
      · rename_i hc
        simp only [Bool.or_eq_true, decide_eq_true_eq, Bool.not_eq_true', not_or, Bool.not_eq_false] at hc
        have h1 : Leads A rt (rt.editRuntime key fun r => { r with state := .stopping }) :=
          stop_leads hkey h hc.2 rfl
        split
        · exact h1.trans (leads_of_ledger_eq (ledger_abortChild key))
        · exact h1.trans (leads_of_ledger_eq (ledger_cancelChild key))

theorem orderedExpired_leads {d : OrderedDrain} {w : OrderedWait} (hd : ∀ k ∈ d.rest, A (.stop k)) :
    Leads A rt (orderedExpired d w rt).2 := by
  cases w with
  | grace key deadline grace => exact leads_of_ledger_eq (ledger_escalateChild key)
  | tidy key deadline => exact leads_of_ledger_eq (ledger_abortChild key)
  | yielded key => exact Ledger.Path.refl
  | window key deadline => exact orderedWalk_leads (d := { d with remaining := d.remaining ++ [key] }) d.rest hd
  | stragglers deadline => exact Ledger.Path.refl

theorem orderedStopped_leads {d : OrderedDrain} {w : OrderedWait} (hd : ∀ k ∈ d.rest, A (.stop k)) :
    Leads A rt (orderedStopped d w rt).2 := by
  cases w with
  | grace key deadline grace => exact orderedWalk_leads d.rest hd
  | tidy key deadline => exact Ledger.Path.refl
  | yielded key => exact Ledger.Path.refl
  | window key deadline => exact orderedWalk_leads d.rest hd
  | stragglers deadline => exact Ledger.Path.refl

theorem orderedRecheck_leads {d : OrderedDrain} {w : OrderedWait} (hd : ∀ k ∈ d.rest, A (.stop k)) :
    Leads A rt (orderedRecheck d w rt).2 := by
  unfold orderedRecheck
  split
  · split
    · exact Ledger.Path.refl
    · exact orderedStopped_leads hd
  · split
    · exact Ledger.Path.refl
    · exact orderedStopped_leads hd
  · split
    · exact Ledger.Path.refl
    · exact orderedStopped_leads hd
  · exact Ledger.Path.refl
  · exact Ledger.Path.refl

theorem orderedYielded_leads {d : OrderedDrain} (hd : ∀ k ∈ d.rest, A (.stop k)) (key : ChildKey) :
    Leads A rt (orderedYielded d key rt).2 := by
  unfold orderedYielded
  split
  · exact Ledger.Path.refl
  · exact orderedWalk_leads d.rest hd

theorem startOrderedDrain_leads (reason : DrainReason) (scope : DrainScope) :
    Leads (Stops scope) rt (rt.startOrderedDrain reason scope).2 := by
  have h1 : Leads (Stops scope) rt (rt.closeCommandsFor reason) := leads_of_ledger_eq (ledger_closeCommandsFor reason)
  refine h1.trans ?_
  refine orderedWalk_leads (d := { reason := reason, scope := scope, rest := _, backstop := _ }) _ fun k hk => ?_
  exact (List.mem_filter.mp hk).2

theorem concurrentLeave_leads {d : ConcurrentDrain} : Leads A rt (rt.concurrentLeave d).2 := by
  unfold concurrentLeave
  split
  · exact leads_of_ledger_eq (ledger_abortMatching _)
  · exact Ledger.Path.refl

theorem concurrentLoop_leads {d : ConcurrentDrain} : Leads A rt (rt.concurrentLoop d).2 := by
  unfold concurrentLoop
  split
  · exact concurrentLeave_leads
  · simp only
    split
    · exact concurrentLeave_leads
    · exact Ledger.Path.refl

/-- Every running or starting child in scope is asked to stop. -/
theorem cancelRunningChildren_leads (scope : DrainScope) : Leads (Stops scope) rt (rt.cancelRunningChildren scope) := by
  have hfold : ∀ (keys : List ChildKey) (rt : SupervisorRuntime), Leads (Stops scope) rt
      (keys.foldl (fun rt key =>
        if scope.contains key && (rt.children.get key).any (fun e =>
            e.runtime.state = .running || e.runtime.state = .starting) then
          rt.editRuntime key (stopForDrain scope)
        else rt) rt) := by
    intro keys
    induction keys with
    | nil => intro rt; exact Ledger.Path.refl
    | cons key rest ih =>
      intro rt
      rw [List.foldl_cons]
      refine Ledger.Path.trans ?_ (ih _)
      split
      · rename_i hc
        rw [Bool.and_eq_true] at hc
        cases h : rt.children.get key with
        | none => simp [h] at hc
        | some e =>
          simp only [h, Option.any_some, Bool.or_eq_true, decide_eq_true_eq] at hc
          refine stop_leads (A := Stops scope) (f := stopForDrain scope) hc.1 h ?_ rfl
          rcases hc.2 with hs | hs <;> rw [hs] <;> rfl
      · exact Ledger.Path.refl
  unfold cancelRunningChildren
  simp only
  cases scope with
  | all => exact (hfold _ rt).trans (leads_of_ledger_eq ledger_cancelGroupToken)
  | subset keys => exact hfold _ rt

theorem startConcurrentDrain_leads (reason : DrainReason) (scope : DrainScope) :
    Leads (Stops scope) rt (rt.startConcurrentDrain reason scope).2 := by
  have h1 : Leads (Stops scope) rt ((rt.cancelRunningChildren scope).closeCommandsFor reason) :=
    (cancelRunningChildren_leads scope).trans (leads_of_ledger_eq (ledger_closeCommandsFor reason))
  exact h1.trans (leads_of_ledger_eq (ledger_abortMatching _))

theorem startDrain_leads (reason : DrainReason) (scope : DrainScope) :
    Leads (Stops scope) rt (rt.startDrain reason scope).2 := by
  unfold startDrain
  split
  · exact startOrderedDrain_leads reason scope
  · exact startConcurrentDrain_leads reason scope

theorem expireGrace_fold : ∀ (expired : List (ChildKey × Duration)) (x : ConcurrentDrain × SupervisorRuntime),
    let y := expired.foldl (fun x p => expireGrace x p.1 p.2) x
    y.2.ledger = x.2.ledger ∧ y.1.scope = x.1.scope ∧ y.1.reason = x.1.reason ∧ y.1.deferred = x.1.deferred ∧
      (x.1.reason ≠ .shutdown → y.1.timedOut = x.1.timedOut)
  | [], x => ⟨rfl, rfl, rfl, rfl, fun _ => rfl⟩
  | p :: rest, x => by
    obtain ⟨h1, h2, h3, h4, h5⟩ := expireGrace_fold rest (expireGrace x p.1 p.2)
    obtain ⟨d, rt⟩ := x
    have hreason : (expireGrace (d, rt) p.1 p.2).1.reason = d.reason := by
      unfold expireGrace
      simp only
      split <;> rfl
    refine ⟨h1.trans (ledger_escalateChild _), h2.trans ?_, h3.trans hreason, h4.trans ?_, fun hr => ?_⟩
    · unfold expireGrace
      simp only
      split <;> rfl
    · unfold expireGrace
      simp only
      split <;> rfl
    · refine (h5 (by rw [hreason]; exact hr)).trans ?_
      unfold expireGrace
      simp only
      rw [if_neg hr]

/-- The graces that are over. -/
def expiredGraces (d : ConcurrentDrain) (now : Instant) : List (ChildKey × Duration) :=
  d.deadlines.filterMap fun x => match x.phase with
    | .grace grace => if x.at_ ≤ now then some (x.key, grace) else none
    | .hardAbort => none

/-- The hard aborts that are due, and the loop's head. -/
def concurrentDue (x : ConcurrentDrain × SupervisorRuntime) : DrainOut × SupervisorRuntime :=
  let due := x.1.deadlines.filter fun y => y.phase = .hardAbort && decide (y.at_ ≤ x.2.now)
  let rt := (due.map (·.key)).foldl abortChild x.2
  rt.concurrentLoop { x.1 with deadlines := x.1.deadlines.filter fun y => y.phase ≠ .hardAbort || decide (rt.now < y.at_) }

theorem concurrentTimer_eq (d : ConcurrentDrain) (rt : SupervisorRuntime) : concurrentTimer d rt =
    concurrentDue ((expiredGraces d rt.now).foldl (fun x p => expireGrace x p.1 p.2) (d, rt)) := rfl

theorem concurrentTimer_leads {d : ConcurrentDrain} : Leads A rt (concurrentTimer d rt).2 := by
  rw [concurrentTimer_eq]
  obtain ⟨h1, -⟩ := expireGrace_fold (expiredGraces d rt.now) (d, rt)
  unfold concurrentDue
  refine Ledger.Path.trans (.of_eq ?_) concurrentLoop_leads
  rw [ledger_foldl (fun rt k => ledger_abortChild k)]
  exact h1.symm

/-! ## Names of active children -/

theorem intercalate_eq_empty {as : List String} (h : ", ".intercalate as = "") : ∀ a ∈ as, a = "" := by
  intro a ha
  cases as with
  | nil => cases ha
  | cons b bs =>
    cases bs with
    | nil =>
      rw [List.mem_singleton.mp ha]
      simpa using h
    | cons c cs =>
      rw [String.intercalate_cons_cons] at h
      simp [String.append_eq_empty_iff] at h

/-- No name, nobody. -/
theorem childNames_empty (hb : rt.ledger.Books) {p : ChildKey → Bool} (h : rt.childNames p = "")
    (hget : rt.children.get key = some e) : p key = false := by
  by_contra hp
  have hmem : e.id ∈ (rt.children.iter.filter fun x => p x.1).map fun x => x.2.id := by
    refine List.mem_map.mpr ⟨(key, e), List.mem_filter.mpr ⟨Slab.mem_iter.mpr hget, ?_⟩, rfl⟩
    simpa using hp
  exact hb.id_nonempty key e.member (ledger_get hget) (intercalate_eq_empty h _ hmem)

theorem inactive_of_isChildActive (hb : rt.ledger.Books) (h : rt.isChildActive key = false) :
    Inactive rt.ledger key := by
  intro m hm
  obtain ⟨e, he, rfl⟩ := get_of_ledger hm
  have hp : e.membership ≠ .removed := hb.present key e.member hm
  simp only [isChildActive, he, Option.any_some, ne_eq, hp, not_false_eq_true, decide_true, Bool.true_and] at h
  exact h

theorem inactive_of_childNames (hb : rt.ledger.Books) {p : ChildKey → Bool}
    (h : rt.childNames (fun k => p k && rt.isChildActive k) = "") (hp : p key = true) : Inactive rt.ledger key := by
  intro m hm
  obtain ⟨e, he, rfl⟩ := get_of_ledger hm
  have := childNames_empty hb h he
  rw [hp, Bool.true_and] at this
  exact inactive_of_isChildActive hb this _ hm

/-- An empty join set leaves nobody active. -/
theorem inactive_of_no_task (hb : rt.ledger.Books) (h : rt.joinSet = []) : Inactive rt.ledger key := by
  intro m hm
  rw [hb.active_iff key m hm]
  cases ht : m.task with
  | none => rfl
  | some t =>
    have := (hb.record_iff t).mpr ⟨_, hb.task_record key m t hm ht⟩
    have hj : t ∈ rt.joinSet.map (·.id) := this
    rw [h] at hj
    cases hj

theorem inactive_of_isDrained (hb : rt.ledger.Books) {scope : DrainScope} (h : rt.isDrained scope = true)
    (hk : scope.contains key = true) : Inactive rt.ledger key := by
  cases scope with
  | all =>
    have h0 : rt.liveTasks = 0 := by simpa [isDrained] using h
    intro m hm
    have hcount : rt.liveTasks = _ := hb.live_eq
    rw [h0] at hcount
    by_contra hact
    have hpos := List.countP_eq_zero.mp hcount.symm key (List.mem_range.mpr (Slab.lt_bound hm))
    rw [hm] at hpos
    simp [hact] at hpos
  | subset keys =>
    refine inactive_of_isChildActive hb ?_
    have hk : keys.contains key = true := hk
    simp only [isDrained, Bool.not_eq_true'] at h
    by_contra hc
    rw [List.any_eq_false] at h
    exact h key (by simpa using hk) (by simpa using hc)

end SupervisorRuntime

/-! ## Progress of a restart drain -/

def OrderedWait.key : OrderedWait → Option ChildKey
  | .grace key _ _ | .tidy key _ | .yielded key | .window key _ => some key
  | .stragglers _ => none

namespace DrainPhase

def scope : DrainPhase → DrainScope
  | .ordered d _ => d.scope
  | .concurrent d _ => d.scope

def deferred : DrainPhase → List ClassifiedExit
  | .ordered d _ => d.deferred
  | .concurrent d _ => d.deferred

end DrainPhase

/-- Outside `P`, the children in scope are inactive. -/
def Covered (L : Ledger) (scope : DrainScope) (P : ChildKey → Prop) : Prop :=
  ∀ k, scope.contains k = true → ¬ P k → Inactive L k

theorem Covered.path {L L' : Ledger} {scope : DrainScope} {P : ChildKey → Prop} {A : Label → Prop}
    (hA : ∀ l k, A l → l ≠ .spawned k) (hp : Ledger.Path A L L') (h : Covered L scope P) : Covered L' scope P := by
  intro k hk hP
  exact hp.keeps (I := fun L => Inactive L k) (fun hl => step_inactive (hA _ k hl)) (h k hk hP)

/-- Where a restart drain stands. -/
def DrainPhase.Progress : DrainPhase → Ledger → Prop
  | .ordered d w, L => (∀ k ∈ d.rest, d.scope.contains k = true) ∧ d.reason ≠ .shutdown ∧ d.timedOut = [] ∧ (w.key = none → d.rest = []) ∧
      Covered L d.scope fun k => k ∈ d.rest ∨ k ∈ d.remaining ∨ w.key = some k
  | .concurrent d _, _ => d.reason ≠ .shutdown ∧ d.timedOut = []

/-- The outcome of a step of a restart drain with this scope and these deferred exits. -/
def DrainOut.Good (scope : DrainScope) (exits : List ClassifiedExit) : DrainOut → Ledger → Prop
  | .await p, L => p.scope = scope ∧ p.deferred = exits ∧ p.Progress L
  | .done (.ok ds), L => ds = exits ∧ ∀ k, scope.contains k = true → Inactive L k
  | .done (.error _), _ => True

namespace SupervisorRuntime

variable {rt : SupervisorRuntime} {d : OrderedDrain} {w : OrderedWait}

theorem orderedResult_good {stragglers : String} (ht : d.timedOut = [])
    (h : stragglers = "" → ∀ k, d.scope.contains k = true → Inactive rt.ledger k) :
    (orderedResult d stragglers).Good d.scope d.deferred rt.ledger := by
  unfold orderedResult
  rw [if_neg (by rw [ht]; exact fun h => h rfl)]
  by_cases hs : stragglers = ""
  · rw [if_neg (by simpa using hs)]
    exact ⟨rfl, h hs⟩
  · rw [if_pos hs]
    trivial

theorem stragglers_good (hb : rt.ledger.Books) (ht : d.timedOut = [])
    (hc : Covered rt.ledger d.scope fun k => k ∈ d.remaining) :
    (orderedResult d (rt.stragglerNames d)).Good d.scope d.deferred rt.ledger := by
  refine orderedResult_good ht fun hs k hk => ?_
  by_cases hr : k ∈ d.remaining
  · exact inactive_of_childNames hb hs (by simpa using hr)
  · exact hc k hk hr

theorem awaitStragglers_good (hb : rt.ledger.Books) (hr : d.reason ≠ .shutdown) (ht : d.timedOut = [])
    (hrest : d.rest = []) (hc : Covered rt.ledger d.scope fun k => k ∈ d.remaining) (deadline : Instant) :
    (rt.awaitStragglers d deadline).Good d.scope d.deferred rt.ledger := by
  unfold awaitStragglers
  split
  · refine ⟨rfl, rfl, ?_, hr, ht, fun _ => hrest, fun k hk hP => hc k hk fun hm => hP (.inr (.inl hm))⟩
    intro k hk
    rw [hrest] at hk
    cases hk
  · exact stragglers_good hb ht hc

theorem orderedEnd_good (hb : rt.ledger.Books) (hr : d.reason ≠ .shutdown) (ht : d.timedOut = [])
    (hrest : d.rest = []) (hc : Covered rt.ledger d.scope fun k => k ∈ d.remaining) :
    (rt.orderedEnd d).Good d.scope d.deferred rt.ledger := by
  unfold orderedEnd
  split
  · split
    · exact awaitStragglers_good hb hr ht hrest hc _
    · exact stragglers_good hb ht hc
  · rename_i hne
    have hrem : d.remaining = [] := by
      by_contra hrem
      exact hne ⟨ht, hrem, hr⟩
    refine orderedResult_good ht fun _ k hk => hc k hk ?_
    rw [hrem]
    exact nofun

/-- The walk ends with every key inactive, or it waits for a child with the keys after it
    to come. -/
theorem orderedWalk_cases : ∀ (keys : List ChildKey) {rt : SupervisorRuntime}, rt.ledger.Books →
    (∀ k ∈ keys, d.scope.contains k = true) → Covered rt.ledger d.scope (fun k => k ∈ keys ∨ k ∈ d.remaining) →
    (orderedWalk d keys rt = (rt.orderedEnd { d with rest := [] }, rt) ∧ Covered rt.ledger d.scope fun k => k ∈ d.remaining) ∨
      ∃ rest w, (orderedWalk d keys rt).1 = .await (.ordered { d with rest := rest } w) ∧ w.key.isSome = true ∧
        (∀ k ∈ rest, d.scope.contains k = true) ∧
        Covered (orderedWalk d keys rt).2.ledger d.scope fun k => k ∈ rest ∨ k ∈ d.remaining ∨ w.key = some k
  | [], rt, _, _, hc => by
    refine .inl ⟨rfl, fun k hk hP => hc k hk ?_⟩
    rintro (h | h)
    · cases h
    · exact hP h
  | key :: rest, rt, hb, hk, hc => by
    have hrest : ∀ k ∈ rest, d.scope.contains k = true := fun k hk' => hk k (List.mem_cons_of_mem _ hk')
    -- skipping a key that is not active
    have hskip : Inactive rt.ledger key → Covered rt.ledger d.scope fun k => k ∈ rest ∨ k ∈ d.remaining := by
      intro hi k hk' hP
      by_cases he : k = key
      · exact he ▸ hi
      · refine hc k hk' ?_
        rintro (h | h)
        · rcases List.mem_cons.mp h with h | h
          · exact he h
          · exact hP (.inl h)
        · exact hP (.inr h)
    have hlead := @orderedWalk_leads (Stops d.scope) d (key :: rest) rt hk
    unfold orderedWalk at hlead ⊢
    cases h : rt.children.get key with
    | none =>
      refine orderedWalk_cases rest hb hrest (hskip fun m hm => ?_)
      rw [ledger_get_none h] at hm
      cases hm
    | some e =>
      simp only [h] at hlead ⊢
      split
      · rename_i hcond
        refine orderedWalk_cases rest hb hrest (hskip (inactive_of_isChildActive hb ?_))
        rw [Bool.or_eq_true, decide_eq_true_eq] at hcond
        unfold isChildActive
        rw [h]
        rcases hcond with hm | hm
        · simp [hm]
        · simp only [Bool.not_eq_true'] at hm
          simp [hm]
      · rename_i hcond
        rw [if_neg hcond] at hlead
        have hcov := Covered.path (fun l k hl => Stops.not_spawned hl k) hlead hc
        have hsub : ∀ {L : Ledger}, Covered L d.scope (fun k => k ∈ key :: rest ∨ k ∈ d.remaining) →
            Covered L d.scope fun k => k ∈ rest ∨ k ∈ d.remaining ∨ some key = some k := by
          intro L h k hk' hP
          refine h k hk' ?_
          rintro (h' | h')
          · rcases List.mem_cons.mp h' with rfl | h'
            · exact hP (.inr (.inr rfl))
            · exact hP (.inl h')
          · exact hP (.inr (.inl h'))
        split
        · rename_i hg
          simp only [hg] at hcov
          exact .inr ⟨rest, _, rfl, rfl, hrest, hsub hcov⟩
        · rename_i grace hg
          simp only [hg] at hcov
          exact .inr ⟨rest, _, rfl, rfl, hrest, hsub hcov⟩

theorem orderedWalk_good (hr : d.reason ≠ .shutdown) (ht : d.timedOut = []) (keys : List ChildKey)
    (hb : rt.ledger.Books) (hk : ∀ k ∈ keys, d.scope.contains k = true)
    (hc : Covered rt.ledger d.scope fun k => k ∈ keys ∨ k ∈ d.remaining) :
    (orderedWalk d keys rt).1.Good d.scope d.deferred (orderedWalk d keys rt).2.ledger := by
  rcases orderedWalk_cases keys hb hk hc with ⟨hend, hcov⟩ | ⟨rest, w, hw, hkey, hrest, hcov⟩
  · rw [hend]
    exact orderedEnd_good (d := { d with rest := [] }) hb hr ht rfl hcov
  · rw [hw]
    refine ⟨rfl, rfl, hrest, hr, ht, fun hnone => ?_, hcov⟩
    rw [hnone] at hkey
    cases hkey

/-- The cursor may leave a wait whose child is inactive. -/
theorem covered_leave {L : Ledger} (hc : Covered L d.scope fun k => k ∈ d.rest ∨ k ∈ d.remaining ∨ w.key = some k)
    (hi : ∀ k, w.key = some k → Inactive L k) : Covered L d.scope fun k => k ∈ d.rest ∨ k ∈ d.remaining := by
  intro k hk hP
  by_cases hw : w.key = some k
  · exact hi k hw
  · refine hc k hk ?_
    rintro (h | h | h)
    · exact hP (.inl h)
    · exact hP (.inr h)
    · exact hw h

theorem orderedStopped_good (hb : rt.ledger.Books) (hp : (DrainPhase.ordered d w).Progress rt.ledger)
    (hi : ∀ k, w.key = some k → Inactive rt.ledger k) :
    (orderedStopped d w rt).1.Good d.scope d.deferred (orderedStopped d w rt).2.ledger := by
  obtain ⟨hs, hr, ht, hrest, hc⟩ := hp
  have hleave := covered_leave hc hi
  cases w with
  | grace key deadline grace => exact orderedWalk_good hr ht d.rest hb hs hleave
  | tidy key deadline => exact ⟨rfl, rfl, hs, hr, ht, nofun, hc⟩
  | yielded key => exact ⟨rfl, rfl, hs, hr, ht, nofun, hc⟩
  | window key deadline => exact orderedWalk_good hr ht d.rest hb hs hleave
  | stragglers deadline =>
    refine stragglers_good hb ht fun k hk hP => hleave k hk ?_
    rw [hrest rfl]
    rintro (h | h)
    · cases h
    · exact hP h

theorem orderedExpired_good (hb : rt.ledger.Books) (hp : (DrainPhase.ordered d w).Progress rt.ledger) :
    (orderedExpired d w rt).1.Good d.scope d.deferred (orderedExpired d w rt).2.ledger := by
  obtain ⟨hs, hr, ht, hrest, hc⟩ := hp
  cases w with
  | grace key deadline grace =>
    unfold orderedExpired
    simp only [if_neg hr]
    rw [ledger_escalateChild]
    exact ⟨rfl, rfl, hs, hr, ht, nofun, hc⟩
  | tidy key deadline =>
    unfold orderedExpired
    simp only
    rw [ledger_abortChild]
    exact ⟨rfl, rfl, hs, hr, ht, nofun, hc⟩
  | yielded key => exact ⟨rfl, rfl, hs, hr, ht, nofun, hc⟩
  | window key deadline =>
    refine orderedWalk_good (d := { d with remaining := d.remaining ++ [key] }) hr ht d.rest hb hs fun k hk hP => ?_
    refine hc k hk ?_
    rintro (h | h | h)
    · exact hP (.inl h)
    · exact hP (.inr (List.mem_append_left _ h))
    · cases h
      exact hP (.inr (List.mem_append_right _ (List.mem_singleton_self _)))
  | stragglers deadline => exact orderedStopped_good hb ⟨hs, hr, ht, hrest, hc⟩ nofun

theorem orderedRecheck_good (hb : rt.ledger.Books) (hp : (DrainPhase.ordered d w).Progress rt.ledger) :
    (orderedRecheck d w rt).1.Good d.scope d.deferred (orderedRecheck d w rt).2.ledger := by
  have hstop : ∀ key, w.key = some key → rt.isChildActive key = false →
      (orderedStopped d w rt).1.Good d.scope d.deferred (orderedStopped d w rt).2.ledger := by
    intro key hw ha
    refine orderedStopped_good hb hp fun k hk => ?_
    rw [hw] at hk
    cases hk
    exact inactive_of_isChildActive hb ha
  have hkeep : (DrainOut.await (.ordered d w)).Good d.scope d.deferred rt.ledger := ⟨rfl, rfl, hp⟩
  cases w with
  | grace key deadline grace =>
    unfold orderedRecheck
    by_cases ha : rt.isChildActive key = true
    · simp only [if_pos ha]
      exact hkeep
    · simp only [if_neg ha]
      exact hstop key rfl (by simpa using ha)
  | tidy key deadline =>
    unfold orderedRecheck
    by_cases ha : rt.isChildActive key = true
    · simp only [if_pos ha]
      exact hkeep
    · simp only [if_neg ha]
      exact hstop key rfl (by simpa using ha)
  | window key deadline =>
    unfold orderedRecheck
    by_cases ha : rt.isChildActive key = true
    · simp only [if_pos ha]
      exact hkeep
    · simp only [if_neg ha]
      exact hstop key rfl (by simpa using ha)
  | yielded key => exact hkeep
  | stragglers deadline =>
    obtain ⟨hs, hr, ht, hrest, hc⟩ := hp
    refine awaitStragglers_good hb hr ht (hrest rfl) (fun k hk hP => ?_) deadline
    refine covered_leave hc nofun k hk ?_
    rw [hrest rfl]
    rintro (h | h)
    · cases h
    · exact hP h

theorem orderedYielded_good {key : ChildKey} (hb : rt.ledger.Books)
    (hp : (DrainPhase.ordered d (.yielded key)).Progress rt.ledger) :
    (orderedYielded d key rt).1.Good d.scope d.deferred (orderedYielded d key rt).2.ledger := by
  obtain ⟨hs, hr, ht, hrest, hc⟩ := hp
  unfold orderedYielded
  by_cases ha : rt.isChildActive key = true
  · rw [if_pos ha]
    exact ⟨rfl, rfl, hs, hr, ht, nofun, hc⟩
  · rw [if_neg ha]
    refine orderedWalk_good hr ht d.rest hb hs (covered_leave hc fun k hk => ?_)
    cases hk
    exact inactive_of_isChildActive hb (by simpa using ha)

/-! ### The concurrent drain -/

variable {c : ConcurrentDrain}

theorem concurrentEnd_good (hb : rt.ledger.Books) (hr : c.reason ≠ .shutdown) (ht : c.timedOut = []) :
    (rt.concurrentEnd c).Good c.scope c.deferred rt.ledger := by
  unfold concurrentEnd
  simp only
  rw [if_neg (by rw [ht]; exact fun h => h rfl)]
  by_cases hn : rt.activeTaskNames c.scope = ""
  · rw [if_neg fun h => h.1 hn]
    exact ⟨rfl, fun k hk => inactive_of_childNames hb hn hk⟩
  · rw [if_pos ⟨hn, hr⟩]
    trivial

theorem concurrentLeave_good (hb : rt.ledger.Books) (hr : c.reason ≠ .shutdown) (ht : c.timedOut = []) :
    (rt.concurrentLeave c).1.Good c.scope c.deferred (rt.concurrentLeave c).2.ledger := by
  unfold concurrentLeave
  split
  · exact ⟨rfl, rfl, hr, ht⟩
  · exact concurrentEnd_good hb hr ht

theorem concurrentLoop_good (hb : rt.ledger.Books) (hr : c.reason ≠ .shutdown) (ht : c.timedOut = []) :
    (rt.concurrentLoop c).1.Good c.scope c.deferred (rt.concurrentLoop c).2.ledger := by
  unfold concurrentLoop
  split
  · exact concurrentLeave_good hb hr ht
  · simp only
    split
    · exact concurrentLeave_good (c := { c with deadlines := _ }) hb hr ht
    · exact ⟨rfl, rfl, hr, ht⟩

theorem concurrentTimer_good (hb : rt.ledger.Books) (hr : c.reason ≠ .shutdown) (ht : c.timedOut = []) :
    (concurrentTimer c rt).1.Good c.scope c.deferred (concurrentTimer c rt).2.ledger := by
  rw [concurrentTimer_eq]
  obtain ⟨h1, h2, h3, h4, h5⟩ := expireGrace_fold (expiredGraces c rt.now) (c, rt)
  generalize (expiredGraces c rt.now).foldl (fun x p => expireGrace x p.1 p.2) (c, rt) = y at h1 h2 h3 h4 h5 ⊢
  obtain ⟨c', rt'⟩ := y
  simp only [concurrentDue] at h1 h2 h3 h4 h5 ⊢
  rw [← h2, ← h4]
  refine concurrentLoop_good (c := { c' with deadlines := _ }) ?_ (h3 ▸ hr) ((h5 hr).trans ht)
  rw [ledger_foldl (fun rt k => ledger_abortChild k), h1]
  exact hb

theorem concurrentSwept_good {v : ConcurrentWait} (hb : rt.ledger.Books) (hr : c.reason ≠ .shutdown)
    (ht : c.timedOut = []) :
    (concurrentSwept c v rt).1.Good c.scope c.deferred (concurrentSwept c v rt).2.ledger := by
  cases v with
  | sweep =>
    unfold concurrentSwept
    by_cases hd : rt.isDrained c.scope = true
    · simp only [if_pos hd]
      exact ⟨rfl, fun k hk => inactive_of_isDrained hb hd hk⟩
    · simp only [if_neg hd]
      exact concurrentLoop_good hb hr ht
  | lastSweep => exact concurrentEnd_good hb hr ht
  | yield => exact ⟨rfl, rfl, hr, ht⟩
  | select => exact ⟨rfl, rfl, hr, ht⟩
  | lastYield => exact ⟨rfl, rfl, hr, ht⟩

theorem concurrentSwept_leads {v : ConcurrentWait} {A : Label → Prop} : Leads A rt (concurrentSwept c v rt).2 := by
  cases v with
  | sweep =>
    unfold concurrentSwept
    simp only
    split
    · exact Ledger.Path.refl
    · exact concurrentLoop_leads
  | lastSweep => exact Ledger.Path.refl
  | yield => exact Ledger.Path.refl
  | select => exact Ledger.Path.refl
  | lastYield => exact Ledger.Path.refl

end SupervisorRuntime

/-! ## Any step of a drain -/

/-- A child that is stopping is being removed. -/
def SettledAt (L : Ledger) (key : ChildKey) : Prop :=
  ∀ m, L.members.get key = some m → m.state = .stopping → m.membership = .removing

/-- Only a drain that stops the child itself unsettles it. -/
theorem step_settledAt {l : Label} {L L' : Ledger} {k : ChildKey} (hl : l ≠ .stop k) (hs : Step l L L')
    (h : SettledAt L k) : SettledAt L' k := by
  have hins : ∀ {k' m'} {L'' : Ledger}, (k' = k → m'.state = .stopping → m'.membership = .removing) →
      L''.members = L.members.insertAt k' m' → SettledAt L'' k := by
    intro k' m' L'' hm hL x hx hst
    rw [hL, Slab.get_insertAt] at hx
    split at hx
    · rename_i hk
      cases hx
      exact hm hk.symm hst
    · exact h x hx hst
  -- an edit to a state other than `stopping`
  have hto : ∀ {k' m'} (st) {L'' : Ledger}, m'.state = st → st ≠ .stopping → L''.members = L.members.insertAt k' m' →
      SettledAt L'' k := fun _ _ hst hne => hins fun _ h => absurd (hst.symm.trans h) hne
  have hspawn : ∀ (m : Member) (task : TaskId), (m.spawn task).state ≠ .stopping := by
    intro m task
    unfold Member.spawn
    simp only
    split <;> exact nofun
  cases hs with
  | shutdown => exact h
  | sent => exact h
  | announced => exact h
  | publish => exact h
  | added _ _ hf =>
    refine hins (fun _ hst => ?_) rfl
    rw [hf.state_eq] at hst
    cases hst
  | spawned => exact hins (fun _ hst => absurd hst (hspawn _ _)) rfl
  | spawnedReady => exact hins (fun _ hst => absurd hst (hspawn _ _)) rfl
  | refused => exact hto .starting rfl nofun rfl
  | received => exact hto .running rfl nofun rfl
  | dropped => exact h
  | exited => exact hto .stopped rfl nofun rfl
  | staleJoin => exact h
  | lostJoin => exact h
  | scheduled => exact h
  | @removed _ key' =>
    intro x hx hst
    have hx : (L.members.remove key').get k = some x := hx
    rw [Slab.get_remove] at hx
    split at hx
    · cases hx
    · exact h x hx hst
  | stopped =>
    refine hins (fun hk _ => ?_) rfl
    subst hk
    exact absurd rfl hl
  | removing => exact hins (fun _ _ => rfl) rfl
  | queued => exact hto .startQueued rfl nofun rfl
  | gated => exact h
  | @flagged _ key m _ hm =>
    refine hins (fun hk hst => ?_) rfl
    subst hk
    exact h m hm hst
  | verdict => exact h
  | verdictAtGate => exact h

theorem path_settledAt {A : Label → Prop} {L L' : Ledger} {k : ChildKey} (hA : ∀ l, A l → l ≠ .stop k)
    (hp : Ledger.Path A L L') (h : SettledAt L k) : SettledAt L' k :=
  hp.keeps (I := fun L => SettledAt L k) (fun hl => step_settledAt (hA _ hl)) h

/-- The labels that leave the deferred exits of a drain pending. -/
theorem Stops.defers {scope : DrainScope} {t : TaskMeta} {l : Label} (h : Stops scope l) : Defers t l := by
  refine ⟨?_, ?_, ?_⟩
  · rintro rfl
    exact h
  · rintro rfl
    exact h
  · rintro rfl
    exact h

/-- What holds of a restart drain whenever it awaits. -/
structure DrainPhase.Inv (p : DrainPhase) (L : Ledger) : Prop where
  progress : p.Progress L
  settled : ∀ k, p.scope.contains k = false → SettledAt L k
  deferred : Deferred L p.deferred

/-- What holds of the outcome of its steps. -/
def DrainOut.Inv (scope : DrainScope) (out : DrainOut) (L : Ledger) : Prop :=
  ∃ exits, out.Good scope exits L ∧ Deferred L exits ∧ ∀ k, scope.contains k = false → SettledAt L k

theorem DrainOut.Inv.await {scope : DrainScope} {p : DrainPhase} {L : Ledger}
    (h : (DrainOut.await p).Inv scope L) : p.Inv L ∧ p.scope = scope := by
  obtain ⟨exits, ⟨rfl, rfl, hp⟩, hd, hs⟩ := h
  exact ⟨⟨hp, hs, hd⟩, rfl⟩

theorem deferred_path {scope : DrainScope} {L L' : Ledger} {exits : List ClassifiedExit} (hb : L.Books)
    (hp : Ledger.Path (Stops scope) L L') (h : Deferred L exits) : Deferred L' exits :=
  ⟨fun c hc => path_pending (fun _ => Stops.defers) hp hb (h.1 c hc), h.2⟩

/-- A step that leads along stops only, with the right outcome. -/
theorem DrainOut.inv_of_leads {scope : DrainScope} {exits : List ClassifiedExit} {out : DrainOut} {L L' : Ledger}
    (hb : L.Books) (hd : Deferred L exits) (hs : ∀ k, scope.contains k = false → SettledAt L k)
    (hp : Ledger.Path (Stops scope) L L') (hg : out.Good scope exits L') : out.Inv scope L' := by
  refine ⟨exits, hg, deferred_path hb hp hd, fun k hk => path_settledAt (fun l hl => ?_) hp (hs k hk)⟩
  rintro rfl
  have hl : scope.contains k = true := hl
  rw [hk] at hl
  cases hl

/-- The drain may stop the keys to come. -/
def DrainPhase.Stopping (A : Label → Prop) : DrainPhase → Prop
  | .ordered d _ => ∀ k ∈ d.rest, A (.stop k)
  | .concurrent _ _ => True

theorem DrainPhase.Progress.stopping {p : DrainPhase} {L : Ledger} (h : p.Progress L) : p.Stopping (Stops p.scope) := by
  cases p with
  | ordered d w => exact h.1
  | concurrent d w => trivial

theorem DrainPhase.stopping_all (p : DrainPhase) : p.Stopping (Stops .all) := by
  cases p with
  | ordered d w => exact fun _ _ => rfl
  | concurrent d w => trivial

namespace SupervisorRuntime

variable {rt : SupervisorRuntime} {p : DrainPhase} {A : Label → Prop}

theorem drainTimer_leads (hw : p.Stopping A) : Leads A rt (drainTimer p rt).2 := by
  cases p with
  | ordered d w =>
    unfold drainTimer
    simp only
    split
    · exact orderedExpired_leads hw
    · exact Ledger.Path.refl
  | concurrent d w =>
    unfold drainTimer
    simp only
    split
    · exact concurrentTimer_leads
    · exact Ledger.Path.refl

theorem drainTimer_good (hb : rt.ledger.Books) (hp : p.Progress rt.ledger) :
    (drainTimer p rt).1.Good p.scope p.deferred (drainTimer p rt).2.ledger := by
  cases p with
  | ordered d w =>
    unfold drainTimer
    simp only
    split
    · exact orderedExpired_good hb hp
    · exact ⟨rfl, rfl, hp⟩
  | concurrent d w =>
    unfold drainTimer
    simp only
    split
    · exact concurrentTimer_good hb hp.1 hp.2
    · exact ⟨rfl, rfl, hp⟩

theorem drainResumed_leads (hw : p.Stopping A) : Leads A rt (drainResumed p rt).2 := by
  unfold drainResumed
  split
  · exact orderedYielded_leads hw _
  · exact Ledger.Path.refl
  · exact Ledger.Path.refl
  · exact Ledger.Path.refl

theorem drainResumed_good (hb : rt.ledger.Books) (hp : p.Progress rt.ledger) :
    (drainResumed p rt).1.Good p.scope p.deferred (drainResumed p rt).2.ledger := by
  unfold drainResumed
  split
  · exact orderedYielded_good hb hp
  · exact ⟨rfl, rfl, hp⟩
  · exact ⟨rfl, rfl, hp⟩
  · exact ⟨rfl, rfl, hp⟩

theorem drainNoJoin_leads (hw : p.Stopping A) : Leads A rt (drainNoJoin p rt).2 := by
  unfold drainNoJoin
  split
  · split
    · exact orderedStopped_leads hw
    · exact Ledger.Path.refl
  · split
    · exact concurrentLeave_leads
    · exact Ledger.Path.refl
  · exact concurrentSwept_leads

theorem drainNoJoin_good (hb : rt.ledger.Books) (hp : p.Progress rt.ledger) :
    (drainNoJoin p rt).1.Good p.scope p.deferred (drainNoJoin p rt).2.ledger := by
  unfold drainNoJoin
  split
  · split
    · rename_i he
      exact orderedStopped_good hb hp fun _ _ => inactive_of_no_task hb (by simpa using he)
    · exact ⟨rfl, rfl, hp⟩
  · split
    · exact concurrentLeave_good hb hp.1 hp.2
    · exact ⟨rfl, rfl, hp⟩
  · exact concurrentSwept_good hb hp.1 hp.2

/-- A drain begins with nothing deferred and everybody active to come. -/
theorem startDrain_good {reason : DrainReason} {scope : DrainScope} (hb : rt.ledger.Books) (hr : reason ≠ .shutdown) :
    (rt.startDrain reason scope).1.Good scope [] (rt.startDrain reason scope).2.ledger := by
  unfold startDrain
  split
  · unfold startOrderedDrain
    simp only
    have hclose : rt.closeCommandsFor reason = rt := by
      unfold closeCommandsFor
      rw [if_neg hr]
    rw [hclose]
    refine orderedWalk_good (d := { reason := reason, scope := scope, rest := _, backstop := _ }) hr rfl _ hb
      (fun k hk => (List.mem_filter.mp hk).2) fun k hk hP m hm => ?_
    refine absurd (Or.inl (List.mem_filter.mpr ⟨?_, hk⟩)) hP
    rw [List.mem_reverse]
    exact (hb.order_mem k).mpr ⟨m, hm⟩
  · exact ⟨rfl, rfl, hr, rfl⟩

theorem startDrain_inv {reason : DrainReason} {scope : DrainScope} (hb : rt.ledger.Books) (hr : reason ≠ .shutdown)
    (hs : rt.ledger.Settled) : (rt.startDrain reason scope).1.Inv scope (rt.startDrain reason scope).2.ledger :=
  DrainOut.inv_of_leads hb ⟨by simp, List.Pairwise.nil⟩ (fun k _ => hs k) (startDrain_leads reason scope)
    (startDrain_good hb hr)

/-! ## Joins inside a drain -/

/-- An exit that is recorded and not finalized is pending. -/
theorem pending_of_exit {task : TaskId} {t : TaskMeta} {e : ChildEntry} {status : RuntimeExitStatus}
    {rt1 : SupervisorRuntime} (hb : rt.ledger.Books) (hb1 : rt1.ledger.Books) (ht : rt.taskMap task = some t)
    (h : rt.children.get t.key = some e) (hl : e.lineage = t.lineage) (hg : e.runtime.generation = t.generation)
    (hget : rt1.children.get t.key = some (recordExitEntry rt.now status e))
    (harm : rt1.ledger.Armed (recordExitEntry rt.now status e).member) : rt1.ledger.Pending t status.isFailure := by
  have htask := (hb.record_task task t t.key e.member ht (ledger_get h) hl).2.2
  have hact : e.member.isActive = true := by
    rw [hb.active_iff _ _ (ledger_get h), htask]
    rfl
  refine ⟨?_, fun k m hm hml => ?_⟩
  · have := hb1.lineage_lt t.key _ (ledger_get hget)
    have hl' : (recordExitEntry rt.now status e).member.lineage = t.lineage := hl
    rw [hl'] at this
    exact this
  · have hk := hb1.lineage_inj k m t.key _ hm (ledger_get hget) (hml.trans hl.symm)
    subst hk
    rw [ledger_get hget] at hm
    cases hm
    have hst : e.member.hasStarted = true := hb.started _ _ (ledger_get h) hact
    exact ⟨rfl, hst, .inr ⟨hg, rfl, ⟨exitOf status e, rfl, isFailure_exitOf⟩, harm⟩⟩

theorem handleJoinForScope_leads {task : TaskId} (c : Conclusion) (scope : DrainScope) (cursor : Option ChildKey)
    (hj : task ∈ rt.joinSet.map (·.id)) (hb : rt.ledger.Books) :
    let out := handleJoinForScope task c scope cursor rt
    Leads (· = .other) rt out.2 ∧ (out.1 = .ok [] ∨ ∃ err, out.1 = .error err) ∨
      ∃ t, rt.taskMap task = some t ∧
        (∃ L, Step (.exited t (rt.exitFails t c)) rt.ledger L ∧ Ledger.Path (· = .other) L out.2.ledger) ∧
        ∃ exits, out.1 = .ok exits ∧
          (exits = [] ∨ ∃ x, exits = [x] ∧ x.record = t ∧ out.2.ledger.Pending t x.status.isFailure) := by
  have hc := @consumeJoinedChild_cases rt task c
  simp only
  unfold handleJoinForScope
  rw [Act.run_bind]
  generalize consumeJoinedChild task c rt = q at hc
  obtain ⟨r, rt1⟩ := q
  cases hc with
  | lost ht => exact .inl ⟨lost_leads rfl hj ht, .inr ⟨_, rfl⟩⟩
  | stale ht hm => exact .inl ⟨stale_leads rfl ht hm, .inl rfl⟩
  | @current t e status ht hget hl hg hstatus =>
    refine .inr ⟨t, ht, ?_⟩
    obtain ⟨rt2, hrt2, ⟨L, hstep, hpath⟩, hget2, harm⟩ := exit_leads status ht hget hl hg
    have hb2 : rt2.ledger.Books := path_books hpath (step_books hstep hb)
    have hpend := pending_of_exit hb hb2 ht hget hl hg hget2 harm
    have hfails : rt.exitFails t c = status.isFailure := congrArg RuntimeExitStatus.isFailure hstatus.symm
    rw [← hfails] at hstep
    simp only [Act.run_modify_bind, Act.run_get_bind]
    rw [← hrt2, hget2]
    simp only
    split
    · refine ⟨⟨L, hstep, ?_⟩, [], rfl, .inl rfl⟩
      exact hpath.trans (finalizeRemovedChild_leads (A := (· = .other)) rfl t.key true)
    · split
      · exact ⟨⟨L, hstep, hpath⟩, _, rfl, .inr ⟨_, rfl, rfl, hpend⟩⟩
      · exact ⟨⟨L, hstep, hpath⟩, [], rfl, .inl rfl⟩

/-- An exit is of another generation than the exits still pending. -/
theorem exit_differs {L L' : Ledger} {t : TaskMeta} {failed failed' : Bool} {x z : ClassifiedExit} (hb : L.Books)
    (hs : Step (.exited t failed) L L') (hp : L.Pending x.record failed') (hz : z.record = t) : x.lineage ≠ z.lineage ∨ x.generation ≠ z.generation := by
  by_cases hl : x.lineage = z.lineage
  · right
    cases hs with
    | @exited _ task _ m _ _ ht hc =>
      obtain ⟨hget, hml, hmg⟩ := hc
      have htask := (hb.record_task task t t.key m ht hget hml).2.2
      have hact : m.isActive = true := by
        rw [hb.active_iff _ _ hget, htask]
        rfl
      have hlin : m.lineage = x.record.lineage := by
        rw [hml, ← hz]
        exact hl.symm
      have hzg : z.generation = t.generation := congrArg TaskMeta.generation hz
      rcases (hp.2 t.key m hget hlin).2.2 with h | ⟨-, h, -⟩
      · have h : x.generation < m.generation := h
        omega
      · exact absurd h (isActive_ne hact).2
  · exact .inl hl

/-- The phase a join finds, with the exits it defers. -/
def deferring (p : DrainPhase) (exits : List ClassifiedExit) : DrainPhase :=
  match p with
  | .ordered d w => .ordered { d with deferred := d.deferred ++ exits } w
  | .concurrent d w => .concurrent { d with deferred := d.deferred ++ exits } w

/-- The loop head a drain is at once a join was handled. -/
def rejoined (p : DrainPhase) (rt : SupervisorRuntime) : DrainOut × SupervisorRuntime :=
  match p with
  | .ordered d w => orderedRecheck d w rt
  | .concurrent d w => if w = .select then rt.concurrentLoop d else (.await (.concurrent d w), rt)

theorem rejoined_leads (rt : SupervisorRuntime) (hw : p.Stopping A) : Leads A rt (rejoined p rt).2 := by
  cases p with
  | ordered d w => exact orderedRecheck_leads hw
  | concurrent d w =>
    unfold rejoined
    simp only
    split
    · exact concurrentLoop_leads
    · exact Ledger.Path.refl

theorem rejoined_good (hb : rt.ledger.Books) (hp : p.Progress rt.ledger) :
    (rejoined p rt).1.Good p.scope p.deferred (rejoined p rt).2.ledger := by
  cases p with
  | ordered d w => exact orderedRecheck_good hb hp
  | concurrent d w =>
    unfold rejoined
    simp only
    split
    · exact concurrentLoop_good hb hp.1 hp.2
    · exact ⟨rfl, rfl, hp⟩

/-- A join in a drain is a failed lookup, or the handling of the join and the loop head. -/
theorem drainJoined_cases (p : DrainPhase) (task : TaskId) (c : Conclusion) :
    ∃ cursor, let out := handleJoinForScope task c p.scope cursor rt
      (∀ exits, out.1 = .ok exits → drainJoined p task c rt = rejoined (deferring p exits) out.2) ∧
      (∀ err, out.1 = .error err → (drainJoined p task c rt).2 = out.2 ∧
        ((∃ e, (drainJoined p task c rt).1 = .done (.error e)) ∨ (drainJoined p task c rt).1 = .await p)) := by
  cases p with
  | ordered d w =>
    refine ⟨orderedCursor w, ?_⟩
    unfold drainJoined
    simp only [DrainPhase.scope]
    generalize handleJoinForScope task c d.scope (orderedCursor w) rt = q
    obtain ⟨r, rt1⟩ := q
    refine ⟨fun exits h => ?_, fun err h => ?_⟩
    · cases h
      rfl
    · cases h
      cases err with
      | shutdown => exact ⟨rfl, .inr rfl⟩
      | failure e => exact ⟨rfl, .inl ⟨e, rfl⟩⟩
  | concurrent d w =>
    refine ⟨none, ?_⟩
    unfold drainJoined
    simp only [DrainPhase.scope]
    generalize handleJoinForScope task c d.scope none rt = q
    obtain ⟨r, rt1⟩ := q
    refine ⟨fun exits h => ?_, fun err h => ?_⟩
    · cases h
      rfl
    · cases h
      cases err with
      | shutdown => exact ⟨rfl, .inr rfl⟩
      | failure e => exact ⟨rfl, .inl ⟨e, rfl⟩⟩

theorem deferring_scope (exits : List ClassifiedExit) : (deferring p exits).scope = p.scope := by
  cases p <;> rfl

theorem deferring_deferred (exits : List ClassifiedExit) : (deferring p exits).deferred = p.deferred ++ exits := by
  cases p <;> rfl

theorem deferring_stopping {exits : List ClassifiedExit} (h : p.Stopping A) : (deferring p exits).Stopping A := by
  cases p <;> exact h

/-- What a join does to the ledger, in any drain. -/
theorem drainJoined_leads {task : TaskId} {c : Conclusion} (hj : task ∈ rt.joinSet.map (·.id)) (hb : rt.ledger.Books)
    (hA : A .other) (hw : p.Stopping A) : Leads A rt (drainJoined p task c rt).2 ∨
      ∃ t, rt.taskMap task = some t ∧ ∃ L, Step (.exited t (rt.exitFails t c)) rt.ledger L ∧
        Ledger.Path A L (drainJoined p task c rt).2.ledger := by
  obtain ⟨cursor, hok, herr⟩ := @drainJoined_cases rt p task c
  have hstops : ∀ {L L' : Ledger}, Ledger.Path (· = .other) L L' → Ledger.Path A L L' :=
    fun h => h.mono (by rintro _ rfl; exact hA)
  have hback : ∀ exits (rt1 : SupervisorRuntime), Leads A rt1 (rejoined (deferring p exits) rt1).2 :=
    fun exits rt1 => rejoined_leads _ (deferring_stopping hw)
  rcases handleJoinForScope_leads c p.scope cursor hj hb with
    ⟨hlead, h | ⟨err, h⟩⟩ | ⟨t, ht, ⟨L, hstep, hpath⟩, exits, h, -⟩
  · rw [hok _ h]
    exact .inl (Ledger.Path.trans (hstops hlead) (hback _ _))
  · rw [(herr err h).1]
    exact .inl (hstops hlead)
  · rw [hok _ h]
    exact .inr ⟨t, ht, L, hstep, (hstops hpath).trans (hback _ _)⟩

/-- Progress survives whatever starts nobody. -/
theorem progress_path {A : Label → Prop} {L L' : Ledger} (exits : List ClassifiedExit)
    (hA : ∀ l k, A l → l ≠ .spawned k) (hp : Ledger.Path A L L') (h : p.Progress L) : (deferring p exits).Progress L' := by
  cases p with
  | ordered d w =>
    obtain ⟨hs, hr, ht, hrest, hc⟩ := h
    exact ⟨hs, hr, ht, hrest, hc.path hA hp⟩
  | concurrent d w => exact h

theorem deferring_nil : deferring p [] = p := by
  cases p with
  | ordered d w => simp [deferring]
  | concurrent d w => simp [deferring]

/-- A join in a restart drain. -/
theorem drainJoined_inv {task : TaskId} {c : Conclusion} (hj : task ∈ rt.joinSet.map (·.id)) (hb : rt.ledger.Books)
    (hp : p.Inv rt.ledger) : (drainJoined p task c rt).1.Inv p.scope (drainJoined p task c rt).2.ledger := by
  obtain ⟨cursor, hok, herr⟩ := @drainJoined_cases rt p task c
  obtain ⟨hprog, hset, hdef, hpair⟩ := hp
  -- from a runtime reached by steps that start and stop nobody, with the exits it defers
  have hback : ∀ exits (rt1 : SupervisorRuntime), rt1.ledger.Books → (deferring p exits).Progress rt1.ledger →
      (∀ k, p.scope.contains k = false → SettledAt rt1.ledger k) → Deferred rt1.ledger (p.deferred ++ exits) →
      (rejoined (deferring p exits) rt1).1.Inv p.scope (rejoined (deferring p exits) rt1).2.ledger := by
    intro exits rt1 hb1 hp1 hs1 hd1
    have hlead := rejoined_leads rt1 hp1.stopping
    have hgood := rejoined_good hb1 hp1
    rw [deferring_scope] at hlead hgood
    rw [deferring_deferred] at hgood
    exact DrainOut.inv_of_leads hb1 hd1 hs1 hlead hgood
  rcases handleJoinForScope_leads c p.scope cursor hj hb with
    ⟨hlead, h | ⟨err, h⟩⟩ | ⟨t, ht, ⟨L, hstep, hpath⟩, exits, h, hex⟩
  · have hd1 : ∀ x ∈ p.deferred, Ledger.Pending _ x.record x.status.isFailure := fun x hx =>
      path_pending (by rintro _ rfl; exact ⟨nofun, nofun, nofun⟩) hlead hb (hdef x hx)
    rw [hok _ h]
    refine hback [] _ (path_books hlead hb) (progress_path _ (by rintro _ k rfl; exact nofun) hlead hprog)
      (fun k hk => path_settledAt (by rintro _ rfl; exact nofun) hlead (hset k hk)) ?_
    rw [List.append_nil]
    exact ⟨hd1, hpair⟩
  · obtain ⟨h2, h1⟩ := herr err h
    rw [h2]
    have hd1 : ∀ x ∈ p.deferred, Ledger.Pending _ x.record x.status.isFailure := fun x hx =>
      path_pending (by rintro _ rfl; exact ⟨nofun, nofun, nofun⟩) hlead hb (hdef x hx)
    refine ⟨p.deferred, ?_, ⟨hd1, hpair⟩, fun k hk => path_settledAt (by rintro _ rfl; exact nofun) hlead (hset k hk)⟩
    rcases h1 with ⟨e, h1⟩ | h1
    · rw [h1]
      trivial
    · rw [h1]
      have := progress_path [] (by rintro _ k rfl; exact nofun) hlead hprog
      rw [deferring_nil] at this
      exact ⟨rfl, rfl, this⟩
  · -- the exit, then publications: one step and a path that start and stop nobody
    have hfull : Ledger.Path (fun l => l = .exited t (rt.exitFails t c) ∨ l = .other) rt.ledger (handleJoinForScope task c p.scope cursor rt).2.ledger :=
      .trans (.single hstep (.inl rfl)) (hpath.mono fun _ => .inr)
    have hd1 : ∀ x ∈ p.deferred, Ledger.Pending _ x.record x.status.isFailure := fun x hx =>
      path_pending (by rintro _ (rfl | rfl) <;> exact ⟨nofun, nofun, nofun⟩) hfull hb (hdef x hx)
    rw [hok _ h]
    refine hback exits _ (path_books hfull hb)
      (progress_path _ (by rintro _ k (rfl | rfl) <;> exact nofun) hfull hprog)
      (fun k hk => path_settledAt (by rintro _ (rfl | rfl) <;> exact nofun) hfull (hset k hk)) ⟨?_, ?_⟩
    · intro x hx
      rcases List.mem_append.mp hx with hx | hx
      · exact hd1 x hx
      · rcases hex with rfl | ⟨y, rfl, hy, hpend⟩
        · cases hx
        · rw [List.mem_singleton.mp hx, hy]
          exact hpend
    · refine List.pairwise_append.mpr ⟨hpair, ?_, fun x hx y hy => ?_⟩
      · rcases hex with rfl | ⟨y, rfl, -⟩
        · exact List.Pairwise.nil
        · exact List.pairwise_singleton _ _
      · rcases hex with rfl | ⟨z, rfl, hz, -⟩
        · cases hy
        · rw [List.mem_singleton.mp hy]
          exact exit_differs hb hstep (hdef x hx) hz

end SupervisorRuntime

end Kokage.Supervisor

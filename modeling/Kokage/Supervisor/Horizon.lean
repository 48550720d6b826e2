/-
  Kokage.Supervisor.Horizon — the deadlines the supervisor computes, and the last instant
  of the clock.

  `Instant + Duration` panics when the sum is beyond the clock. The actors' timers replace
  such a deadline (`deadline_after`, because `Duration::MAX` is a plausible never); the
  supervisor adds what is configured: the grace of a child, the beat after it, the cursor
  window of an ordered drain, the longest grace of a scope, and the delay of a restart.
  `Computes` names these sums, each as the function that makes it leaves it behind, and
  `deadlines_fit_iff` says for which policies and at which times all of them exist.
-/

import Kokage.Lib.Xorshift
import Kokage.Supervisor.Backoff
import Kokage.Supervisor.Budgets

namespace Kokage.Supervisor

open Kokage.Lib Kokage.Lib.Xorshift SupervisorRuntime

/-! ## The generator reaches every word -/

theorem xorshift64_steps {s : UInt64} (hs : s ≠ 0) :
    (xorshift64 s).toBitVec = leftStep 17 (rightStep 7 (leftStep 13 s.toBitVec)) := by
  unfold xorshift64
  rw [if_neg hs]
  rfl

theorem xorshift64_onto {y : UInt64} (hy : y ≠ 0) : ∃ s, xorshift64 s = y := by
  obtain ⟨b, hb⟩ := leftStep_onto (n := 2) (k := 17) (by decide) y.toBitVec
  obtain ⟨a, ha⟩ := rightStep_onto (n := 4) (k := 7) (by decide) b
  obtain ⟨s, hs⟩ := leftStep_onto (n := 3) (k := 13) (by decide) a
  have hword : leftStep 17 (rightStep 7 (leftStep 13 s)) = y.toBitVec := by rw [hs, ha, hb]
  have hne : UInt64.ofBitVec s ≠ 0 := by
    intro hzero
    have hs : s = 0 := congrArg UInt64.toBitVec hzero
    rw [hs] at hword
    exact hy (UInt64.toBitVec_inj.mp hword.symm)
  exact ⟨UInt64.ofBitVec s, UInt64.toBitVec_inj.mp ((xorshift64_steps hne).trans hword)⟩

/-! ## The longest delay of a policy -/

/-- The cap of an exponential policy's deterministic delays. -/
def longestDeterministic (base factor max : Nat) : Nat := if factor = 1 then min base max else max

/-- The most a draw of 64 bits adds to the lower half. -/
def longestJittered (deterministic : Nat) : Nat := deterministic / 2 + min (deterministic - deterministic / 2) (2 ^ 64 - 1)

def Backoff.longest : Backoff → Duration
  | .none => 0
  | .fixed delay => delay
  | .exponential base factor max jitter =>
    if jitter then longestJittered (longestDeterministic base factor max) else longestDeterministic base factor max

theorem longestJittered_mono {m n : Nat} (h : m ≤ n) : longestJittered m ≤ longestJittered n := by
  unfold longestJittered
  omega

section Longest

variable {base factor max : Nat} {r : JitterRng} {d : Nat}

theorem exponentialBackoff_le (hf : 1 ≤ factor) (hmax : max ≤ durationMax) (steps : Nat) :
    exponentialBackoff base factor max steps ≤ longestDeterministic base factor max := by
  rw [exponentialBackoff_eq hf hmax]
  unfold longestDeterministic
  by_cases h : factor = 1
  · rw [if_pos h, h, Nat.one_pow, Nat.mul_one, Nat.min_comm]
  · rw [if_neg h]
    exact Nat.min_le_left ..

theorem exponentialBackoff_longest (hb : 1 ≤ base) (hf : 1 ≤ factor) (hmax : max ≤ durationMax) :
    exponentialBackoff base factor max 128 = longestDeterministic base factor max := by
  rw [exponentialBackoff_eq hf hmax]
  unfold longestDeterministic
  by_cases h : factor = 1
  · rw [if_pos h, h, Nat.one_pow, Nat.mul_one, Nat.min_comm]
  · rw [if_neg h]
    exact Nat.min_eq_left (le_capped hb hf h hmax (Nat.le_refl _))

theorem jitterBetween_longest_le : (r.jitterBetween (d / 2) d).1 ≤ longestJittered d := by
  have hword := UInt64.toNat_lt (xorshift64 r.state)
  unfold JitterRng.jitterBetween longestJittered
  by_cases h : d ≤ d / 2
  · rw [if_pos h]
    show d ≤ _
    omega
  · rw [if_neg h]
    have hmod : (xorshift64 r.state).toNat % (d - d / 2 + 1) < d - d / 2 + 1 := Nat.mod_lt _ (Nat.succ_pos _)
    have hle : (xorshift64 r.state).toNat % (d - d / 2 + 1) ≤ (xorshift64 r.state).toNat := Nat.mod_le ..
    show d / 2 + (xorshift64 r.state).toNat % (d - d / 2 + 1) ≤ _
    omega

/-- Some state of the generator draws the longest delay. -/
theorem exists_jitterBetween_longest (hd : 1 ≤ d) : ∃ r : JitterRng, (r.jitterBetween (d / 2) d).1 = longestJittered d := by
  have hpos : 0 < min (d - d / 2) (2 ^ 64 - 1) := by omega
  have hspan : min (d - d / 2) (2 ^ 64 - 1) < d - d / 2 + 1 := by omega
  have hdraw : (UInt64.ofNat (min (d - d / 2) (2 ^ 64 - 1))).toNat = min (d - d / 2) (2 ^ 64 - 1) :=
    UInt64.toNat_ofNat_of_lt' (Nat.lt_of_le_of_lt (Nat.min_le_right ..) (by decide))
  have hne : UInt64.ofNat (min (d - d / 2) (2 ^ 64 - 1)) ≠ 0 := by
    intro hzero
    rw [hzero] at hdraw
    exact absurd hdraw (Nat.ne_of_lt hpos)
  obtain ⟨s, hs⟩ := xorshift64_onto hne
  have hlower : ¬ d ≤ d / 2 := by omega
  refine ⟨⟨s⟩, ?_⟩
  unfold JitterRng.jitterBetween longestJittered
  rw [if_neg hlower]
  show d / 2 + (xorshift64 s).toNat % (d - d / 2 + 1) = _
  rw [hs, hdraw, Nat.mod_eq_of_lt hspan]

end Longest

theorem backoff_le_longest {t : RestartTracker} (hvalid : t.backoffPolicy.validate = .ok ()) (hfits : t.backoffPolicy.Fits) :
    t.backoff.1 ≤ t.backoffPolicy.longest := by
  unfold RestartTracker.backoff
  cases hpolicy : t.backoffPolicy with
  | none => exact Nat.le_refl _
  | fixed delay => exact Nat.le_refl _
  | exponential base factor max jitter =>
    rw [hpolicy] at hvalid hfits
    have hle : exponentialBackoff base factor max (t.consecutiveRestarts - 1) ≤ longestDeterministic base factor max :=
      exponentialBackoff_le (Backoff.validate_exponential hvalid).2.1 hfits.2.2 _
    cases jitter with
    | false => exact hle
    | true => exact Nat.le_trans jitterBetween_longest_le (longestJittered_mono hle)

/-- With enough restarts in a row, some state of the generator gives the longest delay. -/
theorem exists_backoff_longest {t : RestartTracker} (hvalid : t.backoffPolicy.validate = .ok ()) (hfits : t.backoffPolicy.Fits)
    (hcount : t.consecutiveRestarts = 129) : ∃ r, ({ t with rng := r } : RestartTracker).backoff.1 = t.backoffPolicy.longest := by
  unfold RestartTracker.backoff
  simp only
  cases hpolicy : t.backoffPolicy with
  | none => exact ⟨t.rng, rfl⟩
  | fixed delay => exact ⟨t.rng, rfl⟩
  | exponential base factor max jitter =>
    rw [hpolicy] at hvalid hfits
    obtain ⟨hb, hf, hm⟩ := Backoff.validate_exponential hvalid
    simp only
    rw [hcount, exponentialBackoff_longest hb hf hfits.2.2]
    cases jitter with
    | false => exact ⟨t.rng, rfl⟩
    | true =>
      have hpos : 1 ≤ longestDeterministic base factor max := by
        unfold longestDeterministic
        split <;> omega
      obtain ⟨r, hr⟩ := exists_jitterBetween_longest hpos
      exact ⟨r, hr⟩

/-- The policy of a tracker; its counts and its generator are left open. -/
structure RestartTracker.Of (t : RestartTracker) (policy : RestartPolicy) : Prop where
  backoff : t.backoffPolicy = policy.backoffPolicy.getD .none
  maxRestarts : t.maxRestarts = policy.maxRestarts.getD 0

theorem exists_tracker_longest {policy : RestartPolicy} (hvalid : (policy.backoffPolicy.getD .none).validate = .ok ())
    (hfits : (policy.backoffPolicy.getD .none).Fits) (hmax : 0 < policy.maxRestarts.getD 0) (now : Instant) :
    ∃ t : RestartTracker, t.Of policy ∧ (t.recordRestart now).exceeded = false ∧
      (t.recordRestart now).backoff.1 = (policy.backoffPolicy.getD .none).longest := by
  let t : RestartTracker := { RestartTracker.new policy 0 with consecutiveRestarts := 128 }
  have hexceeded : (t.recordRestart now).exceeded = false := decide_eq_false (Nat.not_lt_of_le hmax)
  obtain ⟨r, hr⟩ := exists_backoff_longest (t := t.recordRestart now) hvalid hfits rfl
  exact ⟨{ t with rng := r }, ⟨rfl, rfl⟩, hexceeded, hr⟩

/-! ## The deadlines of a runtime -/

/-- A grace of one of the policies. -/
def IsGrace (policies : RestartPolicy → Shutdown → Prop) (grace : Duration) : Prop :=
  ∃ policy shutdown, policies policy shutdown ∧ shutdown.grace = some grace

/-- The children of `rt` have these policies. -/
def Configured (policies : RestartPolicy → Shutdown → Prop) (rt : SupervisorRuntime) : Prop :=
  ∀ key e, rt.children.get key = some e →
    ∃ policy shutdown, policies policy shutdown ∧ e.runtime.restartTracker.Of policy ∧ e.runtime.definition.shutdownPolicy = shutdown

/-- The supervisor in state `rt` computes the deadline `t`. The graces that a drain or a
    removal has noted are those of the policies. -/
inductive Computes (policies : RestartPolicy → Shutdown → Prop) (rt : SupervisorRuntime) : Instant → Prop
  /-- `remove_child`. -/
  | removalGrace {key : ChildKey} {reply : Nat} {e : ChildEntry} {p : PendingRemoval}
      (hget : (rt.beginRemoval key reply).children.get key = some e) (hp : e.pendingRemoval = some p) :
      Computes policies rt p.graceDeadline
  /-- `handle_deadlines`. -/
  | removalBeat {key : ChildKey} {grace : Duration} {e : ChildEntry} {p : PendingRemoval} {t : Instant}
      (hgrace : IsGrace policies grace) (hget : (rt.expireRemoval key grace).children.get key = some e)
      (hp : e.pendingRemoval = some p) (ht : p.hardAbortDeadline = some t) : Computes policies rt t
  /-- `drain_children_ordered` moves its cursor, or waits for the stragglers. -/
  | orderedWait {d d' : OrderedDrain} {keys : List ChildKey} {w : OrderedWait} {t : Instant}
      (hbackstop : ∀ grace, d.backstop = some grace → IsGrace policies grace)
      (hwalk : (orderedWalk d keys rt).1 = .await (.ordered d' w)) (ht : orderedDeadline w = some t) : Computes policies rt t
  /-- The grace of its cursor is over. -/
  | orderedBeat {d d' : OrderedDrain} {key : ChildKey} {at_ t : Instant} {grace : Duration} {w : OrderedWait}
      (hgrace : IsGrace policies grace) (hexpired : (orderedExpired d (.grace key at_ grace) rt).1 = .await (.ordered d' w))
      (ht : orderedDeadline w = some t) : Computes policies rt t
  /-- Its cursor was aborted. -/
  | cursorWindow {d d' : OrderedDrain} {key : ChildKey} {t : Instant} (hactive : rt.isChildActive key = true)
      (hyielded : (orderedYielded d key rt).1 = .await (.ordered d' (.window key t))) : Computes policies rt t
  /-- `drain_children` begins. -/
  | drainGrace {reason : DrainReason} {scope : DrainScope} {d : ConcurrentDrain} {w : ConcurrentWait} {x : DrainDeadline}
      (hstart : (rt.startConcurrentDrain reason scope).1 = .await (.concurrent d w)) (hx : x ∈ d.deadlines) :
      Computes policies rt x.at_
  /-- One of its graces is over. -/
  | drainBeat {d : ConcurrentDrain} {key : ChildKey} {grace : Duration} {x : DrainDeadline} (hgrace : IsGrace policies grace)
      (hx : x ∈ (expireGrace (d, rt) key grace).1.deadlines) (hkey : x.key = key) : Computes policies rt x.at_
  /-- `schedule_restart`. -/
  | restart {key : ChildKey} {delay : Duration} {e : ChildEntry} {t : Instant} (hok : (scheduleRestart key rt).1 = .ok delay)
      (hget : (scheduleRestart key rt).2.children.get key = some e) (ht : e.runtime.nextRestartDeadline = some t) :
      Computes policies rt t

/-! ## What each function adds to now -/

section Added

variable {rt rt' : SupervisorRuntime} {key : ChildKey} {t : Instant}

theorem get_edit_inv {f : ChildEntry → ChildEntry} {e : ChildEntry} (h : (rt.edit key f).children.get key = some e) :
    ∃ e₀, rt.children.get key = some e₀ ∧ f e₀ = e := by
  change (rt.children.modify key f).get key = some e at h
  rw [Slab.get_modify_self] at h
  exact Option.map_eq_some_iff.mp h

theorem beginRemoval_adds {reply : Nat} {e : ChildEntry} {p : PendingRemoval}
    (hget : (rt.beginRemoval key reply).children.get key = some e) (hp : e.pendingRemoval = some p) :
    ∃ e₀, rt.children.get key = some e₀ ∧ p.graceDeadline = rt.now + e₀.runtime.definition.shutdownPolicy.grace.getD 0 := by
  obtain ⟨e₀, he₀, rfl⟩ := get_edit_inv hget
  cases hp
  exact ⟨e₀, he₀, rfl⟩

theorem expireRemoval_adds {grace : Duration} {e : ChildEntry} {p : PendingRemoval}
    (hget : (rt.expireRemoval key grace).children.get key = some e) (hp : e.pendingRemoval = some p)
    (ht : p.hardAbortDeadline = some t) : t = rt.now + tidyAbortBeat grace := by
  obtain ⟨e₁, he₁, rfl⟩ := get_edit_inv hget
  obtain ⟨e₀, -, rfl⟩ := get_edit_inv he₁
  obtain ⟨p₀, -, rfl⟩ := Option.map_eq_some_iff.mp hp
  exact (Option.some.inj ht).symm

theorem orderedResult_ne_await {d : OrderedDrain} {names : String} {p : DrainPhase} : orderedResult d names ≠ .await p := by
  unfold orderedResult
  split
  · nofun
  · split
    · nofun
    · nofun

theorem orderedEnd_adds {d d' : OrderedDrain} {w : OrderedWait} (h : rt.orderedEnd d = .await (.ordered d' w))
    (ht : orderedDeadline w = some t) : ∃ grace, d.backstop = some grace ∧ t = rt.now + grace := by
  unfold orderedEnd at h
  split at h
  · split at h
    · rename_i grace hgrace
      refine ⟨grace, hgrace, ?_⟩
      unfold awaitStragglers at h
      split at h
      · cases h
        exact (Option.some.inj ht).symm
      · exact absurd h orderedResult_ne_await
    · exact absurd h orderedResult_ne_await
  · exact absurd h orderedResult_ne_await

/-- By induction on the keys the cursor still has to visit. -/
theorem orderedWalk_adds {d d' : OrderedDrain} {w : OrderedWait} (keys : List ChildKey)
    (h : (orderedWalk d keys rt).1 = .await (.ordered d' w)) (ht : orderedDeadline w = some t) :
    (∃ key e grace, rt.children.get key = some e ∧ e.runtime.definition.shutdownPolicy.grace = some grace ∧ t = rt.now + grace) ∨
      ∃ grace, d.backstop = some grace ∧ t = rt.now + grace := by
  induction keys with
  | nil => exact .inr (orderedEnd_adds (d := { d with rest := [] }) h ht)
  | cons key rest ih =>
    unfold orderedWalk at h
    split at h
    · exact ih h
    · rename_i e he
      split at h
      · exact ih h
      · cases hgrace : e.runtime.definition.shutdownPolicy.grace with
        | none =>
          rw [hgrace] at h
          cases h
          cases ht
        | some grace =>
          rw [hgrace] at h
          cases h
          exact .inl ⟨key, e, grace, he, hgrace, (Option.some.inj ht).symm⟩

theorem orderedExpired_adds {d d' : OrderedDrain} {at_ : Instant} {grace : Duration} {w : OrderedWait}
    (h : (orderedExpired d (.grace key at_ grace) rt).1 = .await (.ordered d' w)) (ht : orderedDeadline w = some t) :
    t = rt.now + tidyAbortBeat grace := by
  unfold orderedExpired at h
  cases h
  exact (Option.some.inj ht).symm

theorem orderedYielded_adds {d d' : OrderedDrain} (hactive : rt.isChildActive key = true)
    (h : (orderedYielded d key rt).1 = .await (.ordered d' (.window key t))) : t = rt.now + orderedAbortCursorWindow := by
  unfold orderedYielded at h
  rw [if_pos hactive] at h
  cases h
  rfl

theorem expireGrace_adds {d : ConcurrentDrain} {grace : Duration} {x : DrainDeadline}
    (hx : x ∈ (expireGrace (d, rt) key grace).1.deadlines) (hkey : x.key = key) : x.at_ = rt.now + tidyAbortBeat grace := by
  obtain ⟨y, -, rfl⟩ := List.mem_map.mp hx
  by_cases hy : y.key = key
  · rw [if_pos hy]
  · rw [if_neg hy] at hkey
    exact absurd hkey hy

/-- The clock and the children's definitions are as in `rt`. -/
structure SameDefinitions (rt rt' : SupervisorRuntime) : Prop where
  now : rt'.now = rt.now
  child : ∀ key e', rt'.children.get key = some e' → ∃ e, rt.children.get key = some e ∧ e'.runtime.definition = e.runtime.definition

theorem SameDefinitions.refl : SameDefinitions rt rt := ⟨rfl, fun _ e he => ⟨e, he, rfl⟩⟩

theorem SameDefinitions.trans {rt'' : SupervisorRuntime} (h : SameDefinitions rt rt') (h' : SameDefinitions rt' rt'') :
    SameDefinitions rt rt'' where
  now := h'.now.trans h.now
  child := by
    intro key e'' he''
    obtain ⟨e', he', heq'⟩ := h'.child key e'' he''
    obtain ⟨e, he, heq⟩ := h.child key e' he'
    exact ⟨e, he, heq'.trans heq⟩

theorem SameDefinitions.editRuntime {f : ChildRuntime → ChildRuntime} (hf : ∀ r, (f r).definition = r.definition) :
    SameDefinitions rt (rt.editRuntime key f) where
  now := rfl
  child := by
    intro k e' he'
    by_cases hk : k = key
    · subst hk
      obtain ⟨e, he, rfl⟩ := get_edit_inv he'
      exact ⟨e, he, hf e.runtime⟩
    · rw [show (rt.editRuntime key f).children.get k = rt.children.get k from Slab.get_modify_ne _ _ hk] at he'
      exact ⟨e', he', rfl⟩

theorem SameDefinitions.cancelRunningChildren (scope : DrainScope) : SameDefinitions rt (rt.cancelRunningChildren scope) := by
  have hkey : ∀ (rt : SupervisorRuntime) (key : ChildKey), SameDefinitions rt (if scope.contains key &&
      (rt.children.get key).any (fun e => e.runtime.state = .running || e.runtime.state = .starting) then
        rt.editRuntime key (stopForDrain scope) else rt) := by
    intro rt key
    split
    · exact .editRuntime fun _ => rfl
    · exact .refl
  have hfold : ∀ (keys : List ChildKey) (rt : SupervisorRuntime), SameDefinitions rt (keys.foldl (fun rt key =>
      if scope.contains key && (rt.children.get key).any (fun e => e.runtime.state = .running || e.runtime.state = .starting) then
        rt.editRuntime key (stopForDrain scope)
      else rt) rt) := by
    intro keys
    induction keys with
    | nil => exact fun rt => .refl
    | cons key rest ih => exact fun rt => (hkey rt key).trans (ih _)
  unfold SupervisorRuntime.cancelRunningChildren
  cases scope with
  | all =>
    refine (hfold _ rt).trans ⟨rfl, ?_⟩
    intro key e' he'
    obtain ⟨e, he, rfl⟩ := Option.map_eq_some_iff.mp he'
    exact ⟨e, he, rfl⟩
  | subset keys => exact hfold _ rt

theorem startConcurrentDrain_adds {reason : DrainReason} {scope : DrainScope} {d : ConcurrentDrain} {w : ConcurrentWait}
    {x : DrainDeadline} (h : (rt.startConcurrentDrain reason scope).1 = .await (.concurrent d w)) (hx : x ∈ d.deadlines) :
    ∃ key e grace, rt.children.get key = some e ∧ e.runtime.definition.shutdownPolicy.grace = some grace ∧ x.at_ = rt.now + grace := by
  have hclose : SameDefinitions (rt.cancelRunningChildren scope) ((rt.cancelRunningChildren scope).closeCommandsFor reason) := by
    unfold closeCommandsFor
    split
    · exact ⟨rfl, fun _ e he => ⟨e, he, rfl⟩⟩
    · exact .refl
  have hsame := (SameDefinitions.cancelRunningChildren scope).trans hclose
  unfold startConcurrentDrain at h
  cases h
  obtain ⟨⟨key, e'⟩, hmem, hdeadline⟩ := List.mem_filterMap.mp hx
  obtain ⟨e, he, hdef⟩ := hsame.child key e' (Slab.mem_iter.mp hmem)
  simp only at hdeadline
  split at hdeadline
  · obtain ⟨grace, hgrace, rfl⟩ := Option.map_eq_some_iff.mp hdeadline
    rw [hdef] at hgrace
    exact ⟨key, e, grace, he, hgrace, congrArg (· + grace) hsame.now⟩
  · cases hdeadline

theorem scheduleRestart_adds {delay : Duration} {e : ChildEntry} (hok : (scheduleRestart key rt).1 = .ok delay)
    (hget : (scheduleRestart key rt).2.children.get key = some e) (ht : e.runtime.nextRestartDeadline = some t) :
    ∃ e₀ tracker, rt.children.get key = some e₀ ∧ e₀.runtime.restartTracker.recordRestart rt.now = tracker ∧
      tracker.exceeded = false ∧ t = rt.now + tracker.backoff.1 := by
  cases he₀ : rt.children.get key with
  | none =>
    have hnone : (rt.restartRecorded key).children.get key = none := by
      show (rt.children.modify key _).get key = _
      rw [Slab.get_modify_self, he₀, Option.map_none]
    rw [scheduleRestart_run, hnone] at hget
    rw [show (rt.restartRecorded key).children.get key = some e from hget] at hnone
    cases hnone
  | some e₀ =>
    refine ⟨e₀, _, rfl, rfl, ?_⟩
    rw [scheduleRestart_eq _ he₀ rfl] at hok hget
    cases hx : (e₀.runtime.restartTracker.recordRestart rt.now).exceeded with
    | true =>
      rw [hx] at hok
      cases hok
    | false =>
      rw [hx] at hget
      obtain ⟨e₁, -, rfl⟩ := get_edit_inv hget
      exact ⟨rfl, (Option.some.inj ht).symm⟩

theorem scheduleRestart_deadline {e : ChildEntry} (he : rt.children.get key = some e)
    (hx : (e.runtime.restartTracker.recordRestart rt.now).exceeded = false) :
    ∃ e', (scheduleRestart key rt).1 = .ok (e.runtime.restartTracker.recordRestart rt.now).backoff.1 ∧
      (scheduleRestart key rt).2.children.get key = some e' ∧
      e'.runtime.nextRestartDeadline = some (rt.now + (e.runtime.restartTracker.recordRestart rt.now).backoff.1) := by
  rw [scheduleRestart_eq _ he rfl, hx]
  exact ⟨_, rfl, get_edit (restartRecorded_get he), rfl⟩

end Added

theorem exceeded_of_zero {t : RestartTracker} {now : Instant} (h : t.maxRestarts = 0) : (t.recordRestart now).exceeded = true := by
  refine decide_eq_true ?_
  show t.maxRestarts < (t.times.dropWhile _ ++ [now]).length
  rw [h, List.length_append]
  exact Nat.succ_pos _

/-! ## When every deadline exists -/

/-- What is configured, added to `now`, stays within the clock. -/
structure InRange (horizon : Nat) (policy : RestartPolicy) (shutdown : Shutdown) (now : Instant) : Prop where
  grace : ∀ grace, shutdown.grace = some grace → now + grace ≤ horizon
  window : now + orderedAbortCursorWindow ≤ horizon
  /-- A policy without restarts has no delay. -/
  restart : policy.maxRestarts.getD 0 = 0 ∨ now + (policy.backoffPolicy.getD .none).longest ≤ horizon

theorem InRange.beat {horizon : Nat} {policy : RestartPolicy} {shutdown : Shutdown} {now grace : Nat}
    (h : InRange horizon policy shutdown now) (hgrace : shutdown.grace = some grace) : now + tidyAbortBeat grace ≤ horizon := by
  rcases Nat.le_total (min (grace / 10) (millis 10)) (millis 1) with hle | hle
  · rw [show tidyAbortBeat grace = orderedAbortCursorWindow from Nat.max_eq_left hle]
    exact h.window
  · have hbeat : tidyAbortBeat grace = min (grace / 10) (millis 10) := Nat.max_eq_right hle
    have hshort : tidyAbortBeat grace ≤ grace := by
      rw [hbeat]
      exact Nat.le_trans (Nat.min_le_left ..) (Nat.div_le_self ..)
    exact Nat.le_trans (Nat.add_le_add_left hshort now) (h.grace grace hgrace)

/-- The policies are valid and in the range of their types. -/
structure ValidPolicies (policies : RestartPolicy → Shutdown → Prop) : Prop where
  valid : ∀ policy shutdown, policies policy shutdown → policy.validate = .ok ()
  fits : ∀ policy shutdown, policies policy shutdown → (policy.backoffPolicy.getD .none).Fits

theorem validate_backoff {policy : RestartPolicy} (h : policy.validate = .ok ()) :
    (policy.backoffPolicy.getD .none).validate = .ok () := by
  cases policy with
  | never => rfl
  | always maxRestarts within backoff =>
    cases within with
    | zero => cases h
    | succ within => exact h
  | onFailure maxRestarts within backoff =>
    cases within with
    | zero => cases h
    | succ within => exact h

section Fit

variable {policies : RestartPolicy → Shutdown → Prop} {rt : SupervisorRuntime} {t : Instant} {horizon : Nat}

theorem Computes.le (h : Computes policies rt t) (hc : Configured policies rt) (hv : ValidPolicies policies)
    (hr : ∀ policy shutdown, policies policy shutdown → InRange horizon policy shutdown rt.now) : t ≤ horizon := by
  have hgraces : ∀ grace, IsGrace policies grace → rt.now + grace ≤ horizon ∧ rt.now + tidyAbortBeat grace ≤ horizon := by
    rintro grace ⟨policy, shutdown, hpolicy, hgrace⟩
    exact ⟨(hr policy shutdown hpolicy).grace grace hgrace, (hr policy shutdown hpolicy).beat hgrace⟩
  have hchild : ∀ key e grace, rt.children.get key = some e → e.runtime.definition.shutdownPolicy.grace = some grace →
      IsGrace policies grace := by
    intro key e grace he hgrace
    obtain ⟨policy, shutdown, hpolicy, -, hshutdown⟩ := hc key e he
    exact ⟨policy, shutdown, hpolicy, hshutdown ▸ hgrace⟩
  cases h with
  | removalGrace hget hp =>
    obtain ⟨e, he, heq⟩ := beginRemoval_adds hget hp
    rw [heq]
    cases hgrace : e.runtime.definition.shutdownPolicy.grace with
    | none =>
      obtain ⟨policy, shutdown, hpolicy, -⟩ := hc _ e he
      exact Nat.le_trans (Nat.le_add_right ..) (hr policy shutdown hpolicy).window
    | some grace => exact (hgraces grace (hchild _ e grace he hgrace)).1
  | removalBeat hgrace hget hp ht =>
    rw [expireRemoval_adds hget hp ht]
    exact (hgraces _ hgrace).2
  | orderedWait hbackstop hwalk ht =>
    rcases orderedWalk_adds _ hwalk ht with ⟨key, e, grace, he, hgrace, rfl⟩ | ⟨grace, hgrace, rfl⟩
    · exact (hgraces grace (hchild key e grace he hgrace)).1
    · exact (hgraces grace (hbackstop grace hgrace)).1
  | orderedBeat hgrace hexpired ht =>
    rw [orderedExpired_adds hexpired ht]
    exact (hgraces _ hgrace).2
  | cursorWindow hactive hyielded =>
    rw [orderedYielded_adds hactive hyielded]
    obtain ⟨e, he, -⟩ := (Option.any_eq_true _ _).mp hactive
    obtain ⟨policy, shutdown, hpolicy, -⟩ := hc _ e he
    exact (hr policy shutdown hpolicy).window
  | drainGrace hstart hx =>
    obtain ⟨key, e, grace, he, hgrace, heq⟩ := startConcurrentDrain_adds hstart hx
    rw [heq]
    exact (hgraces grace (hchild key e grace he hgrace)).1
  | drainBeat hgrace hx hkey =>
    rw [expireGrace_adds hx hkey]
    exact (hgraces _ hgrace).2
  | restart hok hget ht =>
    obtain ⟨e, tracker, he, rfl, hx, rfl⟩ := scheduleRestart_adds hok hget ht
    obtain ⟨policy, shutdown, hpolicy, hof, -⟩ := hc _ e he
    have hbackoff : (e.runtime.restartTracker.recordRestart rt.now).backoffPolicy = policy.backoffPolicy.getD .none := hof.backoff
    have hdelay := backoff_le_longest (hbackoff ▸ validate_backoff (hv.valid _ _ hpolicy)) (hbackoff ▸ hv.fits _ _ hpolicy)
    rw [hbackoff] at hdelay
    rcases (hr policy shutdown hpolicy).restart with hzero | hle
    · rw [exceeded_of_zero (hof.maxRestarts.trans hzero)] at hx
      cases hx
    · exact Nat.le_trans (Nat.add_le_add_left hdelay _) hle

end Fit

/-! ## The children that need the range -/

/-- A supervisor with one running child. -/
def loneChild (policy : RestartPolicy) (shutdown : Shutdown) (tracker : RestartTracker) (now : Instant) : SupervisorRuntime :=
  let e := ChildEntry.new "worker" { id := "worker", restart := policy, shutdownPolicy := shutdown } none 0 0
  { blank ⟨pair.host, .oneForOne, .dynamic, .default, .default, false⟩ ⟨0, 0, 0, false, false, now⟩ with
    children := Slab.empty.insertAt 0 { e with runtime := { e.runtime with restartTracker := tracker, state := .running } } }

section Lone

variable {policies : RestartPolicy → Shutdown → Prop} {policy : RestartPolicy} {shutdown : Shutdown} {tracker : RestartTracker}
  {now : Instant}

theorem loneChild_configured (hpolicy : policies policy shutdown) (hof : tracker.Of policy) :
    Configured policies (loneChild policy shutdown tracker now) := by
  intro key e he
  by_cases hk : key = 0
  · subst hk
    cases he
    exact ⟨policy, shutdown, hpolicy, hof, rfl⟩
  · rw [show (loneChild policy shutdown tracker now).children.get key = none from Slab.get_insertAt_ne _ _ hk] at he
    cases he

theorem loneChild_grace : Computes policies (loneChild policy shutdown tracker now) (now + shutdown.grace.getD 0) := by
  have hget : ((loneChild policy shutdown tracker now).beginRemoval 0 0).children.get 0 = some _ := rfl
  exact .removalGrace (p := ⟨0, shutdown, now + shutdown.grace.getD 0, false, none⟩) hget rfl

theorem loneChild_window : Computes policies (loneChild policy shutdown tracker now) (now + orderedAbortCursorWindow) := by
  have hactive : (loneChild policy shutdown tracker now).isChildActive 0 = true := rfl
  exact .cursorWindow (d := ⟨.groupRestart, .all, [], none, [], [], []⟩) hactive rfl

theorem loneChild_restart (hx : (tracker.recordRestart now).exceeded = false) :
    Computes policies (loneChild policy shutdown tracker now) (now + (tracker.recordRestart now).backoff.1) := by
  have he : (loneChild policy shutdown tracker now).children.get 0 = some _ := rfl
  obtain ⟨e, hok, hget, ht⟩ := scheduleRestart_deadline he hx
  exact .restart hok hget ht

end Lone

/-- All deadlines of the supervisors with these policies exist exactly when each grace, the
    cursor window and the longest delay of each policy that restarts, counted from now, end
    within the clock. -/
theorem deadlines_fit_iff {c : Time.Clock} {policies : RestartPolicy → Shutdown → Prop} (hv : ValidPolicies policies)
    (now : Time.Instant c) :
    (∀ rt, rt.now = now.nanos → Configured policies rt → ∀ t, Computes policies rt t → t ≤ c.horizon) ↔
      ∀ policy shutdown, policies policy shutdown → InRange c.horizon policy shutdown now.nanos := by
  constructor
  · intro h policy shutdown hpolicy
    have hlone : ∀ tracker t, tracker.Of policy → Computes policies (loneChild policy shutdown tracker now.nanos) t → t ≤ c.horizon :=
      fun tracker t hof => h _ rfl (loneChild_configured hpolicy hof) t
    have hof : (RestartTracker.new policy 0).Of policy := ⟨rfl, rfl⟩
    refine ⟨?_, hlone _ _ hof loneChild_window, ?_⟩
    · intro grace hgrace
      have hle := hlone _ _ hof loneChild_grace
      rw [hgrace] at hle
      exact hle
    · by_cases hzero : policy.maxRestarts.getD 0 = 0
      · exact .inl hzero
      · obtain ⟨tracker, hof, hx, hlongest⟩ := exists_tracker_longest (validate_backoff (hv.valid _ _ hpolicy))
          (hv.fits _ _ hpolicy) (Nat.pos_of_ne_zero hzero) now.nanos
        rw [← hlongest]
        exact .inr (hlone tracker _ hof (loneChild_restart hx))
  · intro h rt hnow hc t ht
    refine ht.le hc hv ?_
    rw [hnow]
    exact h

/-- Only children with these two policies. -/
def only (policy : RestartPolicy) (shutdown : Shutdown) : RestartPolicy → Shutdown → Prop :=
  fun policy' shutdown' => policy' = policy ∧ shutdown' = shutdown

/-- With the defaults nothing overflows in the clock's first second. -/
theorem deadlines_fit_default : ValidPolicies (only .default .default) ∧
    ∀ rt : SupervisorRuntime, rt.now = secs 1 → Configured (only .default .default) rt →
      ∀ t, Computes (only .default .default) rt t → t ≤ Time.Clock.signed.horizon := by
  have hv : ValidPolicies (only .default .default) := by
    constructor
    · rintro policy shutdown ⟨rfl, rfl⟩
      rfl
    · rintro policy shutdown ⟨rfl, rfl⟩
      trivial
  refine ⟨hv, (deadlines_fit_iff hv ⟨secs 1, by decide⟩).mpr ?_⟩
  rintro policy shutdown ⟨rfl, rfl⟩
  refine ⟨?_, by decide, .inr (by decide)⟩
  intro grace hgrace
  cases hgrace
  decide

/-- Removing a child whose grace is `Duration::MAX`, a nanosecond after the clock has started:
    the deadline is beyond its last instant. -/
theorem never_grace_overflows : RestartPolicy.default.validate = .ok () ∧
    ∃ rt t, rt.now = 1 ∧ Configured (only .default (.graceful durationMax)) rt ∧
      Computes (only .default (.graceful durationMax)) rt t ∧ Time.Clock.signed.horizon < t :=
  ⟨rfl, loneChild .default (.graceful durationMax) (.new .default 0) 1, 1 + durationMax, rfl,
    loneChild_configured ⟨rfl, rfl⟩ ⟨rfl, rfl⟩, loneChild_grace, by decide⟩

end Kokage.Supervisor

/-
  Kokage.Supervisor.Backoff — what the backoff of a restart tracker amounts to
  (`intensity.rs`: `record_spawn`, `record_exit`, `record_restart`, `backoff`,
  `exponential_backoff`, `jitter_between`, `duration_from_nanos`).

  `Word` is the tracker in the source's words: counters saturate, and each subtraction,
  sum, remainder and cast of the jitter is checked, so `none` is an overflow, a
  truncation or a panic. The loop of `exponential_backoff` is a power capped at `max`
  (`exponentialLoop_eq`): its products saturate only beyond `max`.

  A run is a spawn and the next exit. `backoff_exact` reads the exponent off the history:
  it counts the restarts since the last run that outlived the window.
-/

import Mathlib.Data.List.Induction
import Kokage.Lib.Time
import Kokage.Supervisor.Intensity

namespace Kokage.Supervisor

open Kokage.Lib.Time (nanosPerSec maxNanos checkedAdd checkedSub checkedRem checkedCast saturatingAdd checkedAdd_of_lt
  checkedSub_of_le checkedRem_of_pos checkedCast_of_lt bind_of_some subsec_lt le_maxNanos_iff)

/-! ## What the source's types hold -/

def Backoff.Fits : Backoff → Prop
  | .none => True
  | .fixed delay => delay ≤ durationMax
  | .exponential base factor max _ => base ≤ durationMax ∧ factor < 2 ^ 32 ∧ max ≤ durationMax

theorem durationMax_eq : durationMax = maxNanos := by decide

/-! ## The tracker in words -/

namespace Word

def durationFromNanos (nanos : Nat) : Option Duration := do
  let secs := nanos / nanosPerSec
  let subsecNanos ← checkedCast 32 (nanos % nanosPerSec)
  let secs ← checkedCast 64 secs
  let duration ← Kokage.Lib.Time.Duration.new secs subsecNanos
  some duration.asNanos

def jitterBetween (r : JitterRng) (min max : Duration) : Option (Duration × JitterRng) :=
  if max ≤ min then some (max, r)
  else do
    let span ← checkedSub max min
    let (draw, r') := r.nextU64
    let bound ← checkedAdd 128 span 1
    let offset ← checkedRem draw.toNat bound
    let nanos ← checkedAdd 128 min offset
    let delay ← durationFromNanos nanos
    some (delay, r')

def recordRestart (t : RestartTracker) (now : Instant) : RestartTracker :=
  { t.recordRestart now with
    totalRestarts := saturatingAdd 64 t.totalRestarts 1
    consecutiveRestarts := saturatingAdd 64 t.consecutiveRestarts 1 }

def backoff (t : RestartTracker) : Option (Duration × RestartTracker) :=
  match t.backoffPolicy with
  | .none => some (0, t)
  | .fixed delay => some (delay, t)
  | .exponential base factor max jitter =>
    let deterministic := exponentialBackoff base factor max (t.consecutiveRestarts - 1)
    if jitter then do
      let (delay, rng) ← jitterBetween t.rng (deterministic / 2) deterministic
      some (delay, { t with rng := rng })
    else some (deterministic, t)

end Word

/-! ## The capped power -/

section Power

variable {base factor max : Nat}

theorem exponentialLoop_eq (hf : 1 ≤ factor) (hmax : max ≤ durationMax) (steps : Nat) (delay : Duration) :
    exponentialLoop factor max steps delay = min max (delay * factor ^ steps) := by
  induction steps generalizing delay with
  | zero => rw [exponentialLoop, Nat.pow_zero, Nat.mul_one, Nat.min_comm]
  | succ steps ih =>
    have hpow : delay * factor ^ (steps + 1) = delay * factor * factor ^ steps := by
      rw [Nat.pow_succ, Nat.mul_assoc, Nat.mul_comm (factor ^ steps)]
    rw [exponentialLoop, hpow]
    by_cases hcap : max ≤ saturatingMul delay factor
    · have hle : max ≤ delay * factor := Nat.le_trans hcap (Nat.min_le_left ..)
      have hgrow : delay * factor ≤ delay * factor * factor ^ steps := Nat.le_mul_of_pos_right _ (Nat.pow_pos hf)
      rw [if_pos hcap, Nat.min_eq_left (Nat.le_trans hle hgrow)]
    · -- below `max` the product has not saturated
      have hexact : saturatingMul delay factor = delay * factor := by
        rcases Nat.le_total (delay * factor) durationMax with hle | hle
        · exact Nat.min_eq_left hle
        · exact absurd (Nat.le_trans hmax (Nat.le_of_eq (Nat.min_eq_right hle).symm)) hcap
      rw [if_neg hcap, ih, hexact]

theorem exponentialBackoff_eq (hf : 1 ≤ factor) (hmax : max ≤ durationMax) (steps : Nat) :
    exponentialBackoff base factor max steps = min max (base * factor ^ steps) := exponentialLoop_eq hf hmax steps base

theorem durationMax_lt : durationMax + 1 < 2 ^ 128 := by decide

/-- After 128 steps a factor has done its work. -/
theorem le_capped (hb : 1 ≤ base) (hf : 1 ≤ factor) (hone : factor ≠ 1) (hmax : max ≤ durationMax) {n : Nat} (hn : 128 ≤ n) :
    max ≤ base * factor ^ n :=
  calc max ≤ 2 ^ 128 := Nat.le_trans hmax (Nat.le_of_lt (Nat.lt_of_succ_lt durationMax_lt))
    _ ≤ factor ^ 128 := Nat.pow_le_pow_left (by omega) 128
    _ ≤ factor ^ n := Nat.pow_le_pow_right hf hn
    _ ≤ base * factor ^ n := Nat.le_mul_of_pos_left _ hb

theorem capped_of_le (hb : 1 ≤ base) (hf : 1 ≤ factor) (hmax : max ≤ durationMax) {m n : Nat} (hm : 128 ≤ m) (hn : 128 ≤ n) :
    min max (base * factor ^ m) = min max (base * factor ^ n) := by
  by_cases hone : factor = 1
  · rw [hone, Nat.one_pow, Nat.one_pow]
  · rw [Nat.min_eq_left (le_capped hb hf hone hmax hm), Nat.min_eq_left (le_capped hb hf hone hmax hn)]

/-- A counter that has saturated gives the delay of the one that has not. -/
theorem capped_saturated (hb : 1 ≤ base) (hf : 1 ≤ factor) (hmax : max ≤ durationMax) (count : Nat) :
    min max (base * factor ^ (min count (2 ^ 64 - 1) - 1)) = min max (base * factor ^ (count - 1)) := by
  by_cases h : count ≤ 2 ^ 64 - 1
  · rw [Nat.min_eq_left h]
  · exact capped_of_le hb hf hmax (by omega) (by omega)

end Power

/-! ## The jitter -/

theorem Word.durationFromNanos_eq {nanos : Nat} (h : nanos ≤ maxNanos) : Word.durationFromNanos nanos = some nanos := by
  have hsub := checkedCast_of_lt (subsec_lt nanos)
  have hsecs := checkedCast_of_lt (le_maxNanos_iff.mp h)
  exact (bind_of_some hsub).trans ((bind_of_some hsecs).trans (bind_of_some (Lib.Time.Duration.new_split h)))

section Jitter

variable {r : JitterRng} {min max : Duration}

/-- A delay of at most `max` more than `min` is drawn, whatever the generator says. -/
theorem JitterRng.jitterBetween_le (hle : min ≤ max) : min ≤ (r.jitterBetween min max).1 ∧ (r.jitterBetween min max).1 ≤ max := by
  unfold jitterBetween
  by_cases h : max ≤ min
  · rw [if_pos h]
    exact ⟨hle, Nat.le_refl _⟩
  · rw [if_neg h]
    have hmod : (xorshift64 r.state).toNat % (max - min + 1) < max - min + 1 := Nat.mod_lt _ (Nat.succ_pos _)
    refine ⟨Nat.le_add_right .., ?_⟩
    calc min + (xorshift64 r.state).toNat % (max - min + 1) ≤ min + (max - min) := Nat.add_le_add_left (Nat.le_of_lt_succ hmod) min
      _ = max := Nat.add_sub_cancel' hle

theorem Word.jitterBetween_steps {span bound offset nanos delay : Nat} (hlt : ¬ max ≤ min)
    (hspan : checkedSub max min = some span) (hbound : checkedAdd 128 span 1 = some bound)
    (hoffset : checkedRem (xorshift64 r.state).toNat bound = some offset) (hnanos : checkedAdd 128 min offset = some nanos)
    (hdelay : Word.durationFromNanos nanos = some delay) :
    Word.jitterBetween r min max = some (delay, ⟨xorshift64 r.state⟩) := by
  unfold Word.jitterBetween
  rw [if_neg hlt]
  exact (bind_of_some hspan).trans
    ((bind_of_some hbound).trans ((bind_of_some hoffset).trans ((bind_of_some hnanos).trans (bind_of_some hdelay))))

theorem Word.jitterBetween_eq (hle : min ≤ max) (hmax : max ≤ durationMax) :
    Word.jitterBetween r min max = some (r.jitterBetween min max) := by
  by_cases h : max ≤ min
  · unfold Word.jitterBetween JitterRng.jitterBetween
    rw [if_pos h, if_pos h]
  · have hbounds := r.jitterBetween_le hle
    have hdraw : r.jitterBetween min max = (min + (xorshift64 r.state).toNat % (max - min + 1), ⟨xorshift64 r.state⟩) := if_neg h
    rw [hdraw] at hbounds ⊢
    have hword := durationMax_lt
    refine Word.jitterBetween_steps h (checkedSub_of_le hle) (checkedAdd_of_lt ?_) (checkedRem_of_pos (Nat.succ_pos _))
      (checkedAdd_of_lt ?_) (Word.durationFromNanos_eq ?_)
    · exact Nat.lt_of_le_of_lt (Nat.succ_le_succ (Nat.le_trans (Nat.sub_le ..) hmax)) hword
    · exact Nat.lt_of_le_of_lt (Nat.le_trans hbounds.2 hmax) (Nat.lt_of_succ_lt hword)
    · exact Nat.le_trans hbounds.2 (Nat.le_trans hmax (Nat.le_of_eq durationMax_eq))

end Jitter

theorem Backoff.validate_exponential {base factor max : Nat} {jitter : Bool}
    (h : (Backoff.exponential base factor max jitter).validate = .ok ()) : 1 ≤ base ∧ 1 ≤ factor ∧ 1 ≤ max := by
  cases base with
  | zero => cases h
  | succ base =>
    cases factor with
    | zero => cases h
    | succ factor =>
      cases max with
      | zero => cases h
      | succ max => exact ⟨Nat.succ_pos base, Nat.succ_pos factor, Nat.succ_pos max⟩

/-- A backoff draws from the generator and changes nothing else. -/
theorem RestartTracker.backoff_state (t : RestartTracker) : ∃ rng, t.backoff.2 = { t with rng := rng } := by
  unfold backoff
  split
  · exact ⟨t.rng, rfl⟩
  · exact ⟨t.rng, rfl⟩
  · split
    · exact ⟨_, rfl⟩
    · exact ⟨t.rng, rfl⟩

/-- In words the tracker computes the delay of `RestartTracker.backoff`. -/
theorem Word.backoff_eq {t : RestartTracker} (hvalid : t.backoffPolicy.validate = .ok ()) (hfits : t.backoffPolicy.Fits) :
    Word.backoff t = some t.backoff := by
  unfold Word.backoff RestartTracker.backoff
  cases hpolicy : t.backoffPolicy with
  | none => rfl
  | fixed delay => rfl
  | exponential base factor max jitter =>
    rw [hpolicy] at hvalid hfits
    have hfactor := (Backoff.validate_exponential hvalid).2.1
    have hcap : exponentialBackoff base factor max (t.consecutiveRestarts - 1) ≤ durationMax := by
      rw [exponentialBackoff_eq hfactor hfits.2.2]
      exact Nat.le_trans (Nat.min_le_left ..) hfits.2.2
    cases jitter with
    | false => rfl
    | true => exact bind_of_some (Word.jitterBetween_eq (Nat.div_le_self ..) hcap)

/-! ## Histories -/

inductive TrackerCall where
  | recordSpawn (now : Instant)
  | recordExit (now : Instant)
  | recordRestart (now : Instant)
  | backoff
  deriving DecidableEq, Repr

namespace TrackerCall

def isRestart : TrackerCall → Bool
  | .recordRestart _ => true
  | _ => false

/-- Neither begins nor ends a run. -/
def isQuiet : TrackerCall → Bool
  | .recordRestart _ | .backoff => true
  | _ => false

end TrackerCall

namespace Word

def call (t : RestartTracker) : TrackerCall → Option RestartTracker
  | .recordSpawn now => some (t.recordSpawn now)
  | .recordExit now => some (t.recordExit now)
  | .recordRestart now => some (recordRestart t now)
  | .backoff => (backoff t).map Prod.snd

def run (t : RestartTracker) (calls : List TrackerCall) : Option RestartTracker := calls.foldlM call t

end Word

def restarts (calls : List TrackerCall) : Nat := calls.countP TrackerCall.isRestart

/-- The run that is going on after `calls` began at `started`. -/
def Going (calls : List TrackerCall) (started : Instant) : Prop :=
  ∃ before during, calls = before ++ .recordSpawn started :: during ∧ ∀ call ∈ during, call.isQuiet = true

/-- The last call is the exit of a run longer than `within`. -/
def Outlived (within : Duration) (calls : List TrackerCall) : Prop :=
  ∃ before started now, calls = before ++ [.recordExit now] ∧ Going before started ∧ within < now - started

/-- `post` is what followed the last run that outlived `within`; everything if none did. -/
structure SinceOutlived (within : Duration) (pre post : List TrackerCall) : Prop where
  outlived : pre = [] ∨ Outlived within pre
  last : ∀ front rest, post = front ++ rest → front ≠ [] → ¬ Outlived within (pre ++ front)

section Going

variable {calls : List TrackerCall} {call : TrackerCall} {started : Instant}

theorem not_going_nil : ¬ Going [] started := by
  rintro ⟨before, during, heq, -⟩
  exact absurd heq.symm (List.append_ne_nil_of_right_ne_nil _ (List.cons_ne_nil _ _))

theorem going_snoc : Going (calls ++ [call]) started ↔ call = .recordSpawn started ∨ (call.isQuiet = true ∧ Going calls started) := by
  constructor
  · rintro ⟨before, during, heq, hquiet⟩
    rcases List.eq_nil_or_concat' during with rfl | ⟨during, last, rfl⟩
    · exact .inl (List.append_inj_right' heq rfl |> List.cons.inj).1
    · rw [← List.cons_append, ← List.append_assoc] at heq
      obtain ⟨hcalls, hlast⟩ := List.append_inj' heq rfl
      cases hlast
      refine .inr ⟨hquiet _ (List.mem_append_right _ List.mem_cons_self), before, during, hcalls, ?_⟩
      intro call hmem
      exact hquiet call (List.mem_append_left _ hmem)
  · rintro (rfl | ⟨hcall, before, during, rfl, hquiet⟩)
    · exact ⟨calls, [], rfl, nofun⟩
    · refine ⟨before, during ++ [call], by rw [List.append_assoc, List.cons_append], ?_⟩
      intro call' hmem
      rcases List.mem_append.mp hmem with hmem | hmem
      · exact hquiet call' hmem
      · rw [List.mem_singleton.mp hmem]
        exact hcall

theorem outlived_snoc {within : Duration} (h : Outlived within (calls ++ [call])) :
    ∃ started now, call = .recordExit now ∧ Going calls started ∧ within < now - started := by
  obtain ⟨before, started, now, heq, hgoing, hlong⟩ := h
  obtain ⟨rfl, hlast⟩ := List.append_inj' heq rfl
  exact ⟨started, now, (List.cons.inj hlast).1, hgoing, hlong⟩

end Going

section Since

variable {within : Duration} {pre post : List TrackerCall} {call : TrackerCall}

theorem SinceOutlived.nothing (h : pre = [] ∨ Outlived within pre) : SinceOutlived within pre [] where
  outlived := h
  last := by
    intro front rest heq hne
    exact absurd (List.append_eq_nil_iff.mp heq.symm).1 hne

theorem SinceOutlived.snoc (h : SinceOutlived within pre post) (hno : ¬ Outlived within (pre ++ (post ++ [call]))) :
    SinceOutlived within pre (post ++ [call]) where
  outlived := h.outlived
  last := by
    intro front rest heq hne
    rcases List.eq_nil_or_concat' rest with rfl | ⟨rest, last, rfl⟩
    · rw [List.append_nil] at heq
      rwa [← heq]
    · rw [← List.append_assoc] at heq
      exact h.last front rest (List.append_inj' heq rfl).1 hne

end Since

/-! ## What a tracker remembers of its history -/

/-- The tracker of `policy` and `within` after `calls`. -/
structure Tracks (policy : Backoff) (within : Duration) (calls : List TrackerCall) (t : RestartTracker) : Prop where
  policy_eq : t.backoffPolicy = policy
  within_eq : t.within = within
  going : ∀ started, t.runStartedAt = some started ↔ Going calls started
  count : ∃ pre post, calls = pre ++ post ∧ SinceOutlived within pre post ∧ t.consecutiveRestarts = min (restarts post) (2 ^ 64 - 1)

section Tracks

variable {policy : Backoff} {within : Duration} {calls : List TrackerCall} {t : RestartTracker}

theorem Tracks.of_new {intensity : RestartPolicy} (seed : UInt64) :
    Tracks (intensity.backoffPolicy.getD .none) (intensity.within.getD (secs 30)) [] (.new intensity seed) where
  policy_eq := rfl
  within_eq := rfl
  going := fun _ => ⟨nofun, fun h => absurd h not_going_nil⟩
  count := ⟨[], [], rfl, .nothing (.inl rfl), rfl⟩

theorem restarts_snoc (calls : List TrackerCall) (call : TrackerCall) :
    restarts (calls ++ [call]) = restarts calls + if call.isRestart then 1 else 0 := by
  unfold restarts
  rw [List.countP_append, List.countP_singleton]

/-- A call that ends no run adds to what has been counted. -/
theorem Tracks.count_snoc {call : TrackerCall} {n : Nat} (h : Tracks policy within calls t)
    (hno : ¬ Outlived within (calls ++ [call]))
    (hn : n = min (t.consecutiveRestarts + if call.isRestart then 1 else 0) (2 ^ 64 - 1)) :
    ∃ pre post, calls ++ [call] = pre ++ post ∧ SinceOutlived within pre post ∧ n = min (restarts post) (2 ^ 64 - 1) := by
  obtain ⟨pre, post, rfl, hsince, hcount⟩ := h.count
  rw [List.append_assoc] at hno ⊢
  refine ⟨pre, post ++ [call], rfl, hsince.snoc hno, ?_⟩
  rw [hn, hcount, restarts_snoc]
  omega

theorem Tracks.le (h : Tracks policy within calls t) : t.consecutiveRestarts ≤ 2 ^ 64 - 1 := by
  obtain ⟨pre, post, -, -, hcount⟩ := h.count
  rw [hcount]
  exact Nat.min_le_right ..

theorem not_outlived_of_ne {call : TrackerCall} (h : ∀ now, call ≠ .recordExit now) : ¬ Outlived within (calls ++ [call]) := by
  intro hout
  obtain ⟨_, now, heq, -⟩ := outlived_snoc hout
  exact h now heq

theorem Tracks.recordSpawn (h : Tracks policy within calls t) (now : Instant) :
    Tracks policy within (calls ++ [.recordSpawn now]) (t.recordSpawn now) where
  policy_eq := h.policy_eq
  within_eq := h.within_eq
  going := by
    intro started
    rw [going_snoc]
    constructor
    · intro heq
      cases heq
      exact .inl rfl
    · rintro (heq | ⟨hquiet, -⟩)
      · cases heq
        rfl
      · cases hquiet
  count := h.count_snoc (not_outlived_of_ne nofun) (Nat.min_eq_left h.le).symm

/-- A quiet call leaves the run that is going on alone. -/
theorem going_quiet {call : TrackerCall} {started : Instant} (hquiet : call.isQuiet = true) :
    Going (calls ++ [call]) started ↔ Going calls started := by
  rw [going_snoc]
  constructor
  · rintro (rfl | ⟨-, hgoing⟩)
    · cases hquiet
    · exact hgoing
  · intro hgoing
    exact .inr ⟨hquiet, hgoing⟩

theorem Tracks.recordRestart (h : Tracks policy within calls t) (now : Instant) :
    Tracks policy within (calls ++ [.recordRestart now]) (Word.recordRestart t now) where
  policy_eq := h.policy_eq
  within_eq := h.within_eq
  going := by
    intro started
    rw [going_quiet rfl]
    exact h.going started
  count := h.count_snoc (not_outlived_of_ne nofun) rfl

theorem Tracks.backoff (h : Tracks policy within calls t) (rng : JitterRng) :
    Tracks policy within (calls ++ [.backoff]) { t with rng := rng } where
  policy_eq := h.policy_eq
  within_eq := h.within_eq
  going := by
    intro started
    rw [going_quiet rfl]
    exact h.going started
  count := h.count_snoc (not_outlived_of_ne nofun) (Nat.min_eq_left h.le).symm

theorem Tracks.recordExit (h : Tracks policy within calls t) (now : Instant) :
    Tracks policy within (calls ++ [.recordExit now]) (t.recordExit now) where
  policy_eq := h.policy_eq
  within_eq := h.within_eq
  going := by
    intro started
    refine ⟨nofun, ?_⟩
    rw [going_snoc]
    rintro (heq | ⟨hquiet, -⟩)
    · cases heq
    · cases hquiet
  count := by
    by_cases hlong : t.runStartedAt.any (fun started => decide (t.within < now - started)) = true
    · -- the run was long enough: the count starts again
      obtain ⟨started, hstarted, hlt⟩ := (Option.any_eq_true _ _).mp hlong
      rw [h.within_eq] at hlt
      have hout : Outlived within (calls ++ [.recordExit now]) :=
        ⟨calls, started, now, rfl, (h.going started).mp hstarted, of_decide_eq_true hlt⟩
      refine ⟨calls ++ [.recordExit now], [], (List.append_nil _).symm, .nothing (.inr hout), ?_⟩
      exact if_pos hlong
    · have hno : ¬ Outlived within (calls ++ [.recordExit now]) := by
        intro hout
        obtain ⟨started, now', heq, hgoing, hlt⟩ := outlived_snoc hout
        cases heq
        refine hlong ((Option.any_eq_true _ _).mpr ⟨started, (h.going started).mpr hgoing, ?_⟩)
        rw [h.within_eq]
        exact decide_eq_true hlt
      refine h.count_snoc hno ?_
      exact (if_neg hlong).trans (Nat.min_eq_left h.le).symm

/-- No call fails, and the tracker keeps count. -/
theorem Tracks.call (h : Tracks policy within calls t) (hvalid : policy.validate = .ok ()) (hfits : policy.Fits) (call : TrackerCall) :
    ∃ t', Word.call t call = some t' ∧ Tracks policy within (calls ++ [call]) t' := by
  cases call with
  | recordSpawn now => exact ⟨_, rfl, h.recordSpawn now⟩
  | recordExit now => exact ⟨_, rfl, h.recordExit now⟩
  | recordRestart now => exact ⟨_, rfl, h.recordRestart now⟩
  | backoff =>
    rw [← h.policy_eq] at hvalid hfits
    have hsome : Word.call t .backoff = some t.backoff.2 := congrArg (Option.map Prod.snd) (Word.backoff_eq hvalid hfits)
    refine ⟨_, hsome, ?_⟩
    obtain ⟨rng, hrng⟩ := t.backoff_state
    rw [hrng]
    exact h.backoff rng

theorem Tracks.run (intensity : RestartPolicy) (hvalid : (intensity.backoffPolicy.getD .none).validate = .ok ())
    (hfits : (intensity.backoffPolicy.getD .none).Fits) (seed : UInt64) (calls : List TrackerCall) :
    ∃ t, Word.run (.new intensity seed) calls = some t ∧
      Tracks (intensity.backoffPolicy.getD .none) (intensity.within.getD (secs 30)) calls t := by
  induction calls using List.reverseRecOn with
  | nil => exact ⟨_, rfl, .of_new seed⟩
  | append_singleton calls call ih =>
    obtain ⟨t, hrun, htracks⟩ := ih
    obtain ⟨t', hcall, htracks'⟩ := htracks.call hvalid hfits call
    refine ⟨t', ?_, htracks'⟩
    unfold Word.run at hrun ⊢
    rw [List.foldlM_append, hrun]
    exact (bind_of_some rfl).trans ((bind_of_some hcall).trans rfl)

end Tracks

/-! ## The delay of every history -/

section Delay

variable {policy : Backoff} {within : Duration} {base factor max : Nat} {jitter : Bool} {calls : List TrackerCall} {t : RestartTracker}

theorem exponentialBackoff_counts (hvalid : (Backoff.exponential base factor max jitter).validate = .ok ())
    (hfits : (Backoff.exponential base factor max jitter).Fits) (count : Nat) :
    exponentialBackoff base factor max (min count (2 ^ 64 - 1) - 1) = min max (base * factor ^ (count - 1)) := by
  obtain ⟨hbase, hfactor, -⟩ := Backoff.validate_exponential hvalid
  rw [exponentialBackoff_eq hfactor hfits.2.2]
  exact capped_saturated hbase hfactor hfits.2.2 count

/-- The delay of an exponential policy, jittered or not. -/
theorem RestartTracker.backoff_delay (hpolicy : t.backoffPolicy = .exponential base factor max jitter) :
    (jitter = false → t.backoff.1 = exponentialBackoff base factor max (t.consecutiveRestarts - 1)) ∧
    (jitter = true → exponentialBackoff base factor max (t.consecutiveRestarts - 1) / 2 ≤ t.backoff.1 ∧
      t.backoff.1 ≤ exponentialBackoff base factor max (t.consecutiveRestarts - 1)) := by
  unfold backoff
  rw [hpolicy]
  constructor
  · rintro rfl
    rfl
  · rintro rfl
    exact JitterRng.jitterBetween_le (Nat.div_le_self ..)

end Delay

/-- After every history the delay is the base times a power of the factor, capped at the
    maximum: the exponent counts the restarts since the last run that outlived the window,
    the first of them not included. With jitter it is between half of that and all of it,
    whatever the generator's state. Nothing overflows or is truncated on the way. -/
theorem backoff_exact (intensity : RestartPolicy) {base factor max : Nat} {jitter : Bool} {within : Duration}
    (hwithin : intensity.within = some within) (hpolicy : intensity.backoffPolicy = some (.exponential base factor max jitter))
    (hvalid : (Backoff.exponential base factor max jitter).validate = .ok ())
    (hfits : (Backoff.exponential base factor max jitter).Fits) (seed : UInt64) (calls : List TrackerCall) (rng : JitterRng) :
    ∃ t, Word.run (.new intensity seed) calls = some t ∧
      ∃ pre post, calls = pre ++ post ∧ SinceOutlived within pre post ∧
        (1 ≤ restarts post → ∃ delay t', Word.backoff { t with rng := rng } = some (delay, t') ∧
          (jitter = false → delay = min max (base * factor ^ (restarts post - 1))) ∧
          (jitter = true → min max (base * factor ^ (restarts post - 1)) / 2 ≤ delay ∧
            delay ≤ min max (base * factor ^ (restarts post - 1)))) := by
  have heq : intensity.backoffPolicy.getD .none = .exponential base factor max jitter := by rw [hpolicy, Option.getD_some]
  have hrun := Tracks.run intensity (heq ▸ hvalid) (heq ▸ hfits) seed calls
  rw [heq, hwithin, Option.getD_some] at hrun
  obtain ⟨t, hrun, htracks⟩ := hrun
  obtain ⟨pre, post, hcalls, hsince, hcount⟩ := htracks.count
  refine ⟨t, hrun, pre, post, hcalls, hsince, ?_⟩
  intro _
  let u : RestartTracker := { t with rng := rng }
  have hu : u.backoffPolicy = .exponential base factor max jitter := htracks.policy_eq
  have hdelay := RestartTracker.backoff_delay hu
  have hsteps : exponentialBackoff base factor max (u.consecutiveRestarts - 1) = min max (base * factor ^ (restarts post - 1)) := by
    rw [← exponentialBackoff_counts hvalid hfits, ← hcount]
  rw [hsteps] at hdelay
  exact ⟨u.backoff.1, u.backoff.2, Word.backoff_eq (hu ▸ hvalid) (hu ▸ hfits), hdelay⟩

/-- Three runs of a second each. -/
def threeFailures : List TrackerCall :=
  [.recordSpawn 0, .recordExit (secs 1), .recordRestart (secs 1), .recordSpawn (secs 1), .recordExit (secs 2),
    .recordRestart (secs 2), .recordSpawn (secs 2), .recordExit (secs 3), .recordRestart (secs 3)]

theorem threeFailures_short {pre post : List TrackerCall} (h : threeFailures = pre ++ post) : ¬ Outlived (secs 10) pre := by
  rintro ⟨before, started, now, rfl, -, hlong⟩
  have hmem : .recordExit now ∈ threeFailures := by
    rw [h]
    exact List.mem_append_left _ (List.mem_append_right _ List.mem_cons_self)
  have hnow : now = secs 1 ∨ now = secs 2 ∨ now = secs 3 := by simpa [threeFailures] using hmem
  have hle : now ≤ secs 10 := by
    rcases hnow with rfl | rfl | rfl
    · decide
    · decide
    · decide
  exact absurd (Nat.lt_of_lt_of_le hlong (Nat.sub_le ..)) (Nat.not_lt_of_le hle)

/-- The third restart in a row waits between two and four seconds. -/
theorem backoff_exact_third :
    ∃ t, Word.run (.new (.onFailure 10 (secs 10) (.exponential (secs 1) 2 (secs 60) true)) 7) threeFailures = some t ∧
      ∃ delay t', Word.backoff { t with rng := ⟨0⟩ } = some (delay, t') ∧ secs 2 ≤ delay ∧ delay ≤ secs 4 := by
  have h := backoff_exact (.onFailure 10 (secs 10) (.exponential (secs 1) 2 (secs 60) true)) rfl rfl rfl
    ⟨by decide, by decide, by decide⟩ 7 threeFailures ⟨0⟩
  obtain ⟨t, hrun, pre, post, hcalls, hsince, hdelay⟩ := h
  have hpre : pre = [] := hsince.outlived.resolve_right (threeFailures_short hcalls)
  subst hpre
  have hthree : restarts post = 3 := congrArg restarts hcalls.symm
  obtain ⟨delay, t', hbackoff, -, hjitter⟩ := hdelay (by rw [hthree]; decide)
  rw [hthree] at hjitter
  exact ⟨t, hrun, delay, t', hbackoff, hjitter rfl⟩

end Kokage.Supervisor

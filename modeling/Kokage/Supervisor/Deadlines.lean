/-
  Kokage.Supervisor.Deadlines — what a deadline batch leaves.

  A restart deadline is set only for a child that is stopped and may be restarted, and
  whatever starts, queues or removes the child clears it or drops the entry: it stands only
  while its child is active in the scope and stopped (`deadline_stopped`). So the filter of
  `handle_deadlines`, which asks for both, misses none that `earliest_deadline` reports.

  A batch begins at `deadlineYield` and ends in the main loop, at once or when the drain of
  its group restart has returned. What it leaves is later than the instant it began at,
  but for restarts that the exits handed back by its drain asked for (`deadlines_progress`):
  removals whose grace expired get a later deadline or none, one-for-one restarts every due
  child, and the first due child of a group strategy takes every later one with it.
-/

import Mathlib.Data.List.ReduceOption
import Kokage.Supervisor.Budgets

namespace Kokage.Supervisor

open Kokage.Lib Ledger SupervisorRuntime

/-! ## Waiting for a restart -/

/-- Only a stopped child that may be restarted waits for its deadline. -/
def ChildEntry.Waits (e : ChildEntry) : Prop :=
  ∀ d, e.runtime.nextRestartDeadline = some d → e.runtime.state = .stopped ∧ e.runtime.definition.restart.isNever = false

theorem Write.waits {t : WriteTag} {e e' : ChildEntry} (h : Write t e e') (he : e.Waits) : e'.Waits := by
  intro d hd
  cases h with
  | prepare => cases hd
  | spawn => cases hd
  | queue => cases hd
  | report hs =>
    have hstop := (he d hd).1
    rw [hs] at hstop
    cases hstop
  | request hw =>
    have hd : e.runtime.nextRestartDeadline = some d := by
      rw [hw.rest] at hd
      exact hd
    obtain ⟨hstop, hn⟩ := he d hd
    rcases hw.state with hst | ⟨hact, -⟩
    · refine ⟨hst.trans hstop, ?_⟩
      rw [hw.rest]
      exact hn
    · rw [hstop] at hact
      cases hact
  | exit => cases hd
  | abortStartup => exact he d hd
  | unschedule => cases hd
  | nested => exact he d hd
  | leave =>
    obtain ⟨hstop, hn⟩ := he d hd
    refine ⟨?_, hn⟩
    simp only [hstop]
    rfl
  | park => exact he d hd
  | record => exact he d hd
  | schedule _ hs hn => exact ⟨hs, hn⟩

namespace SupervisorRuntime

variable {A : WriteTag → Prop} {rt rt' : SupervisorRuntime}

def Waiting (rt : SupervisorRuntime) : Prop := ∀ k e, rt.children.get k = some e → e.Waits

theorem Waiting.works (h : Waiting rt) (hw : Works A rt rt') : Waiting rt' := by
  intro k e' he'
  rcases hw.entries k e' he' with ⟨e, he, hev⟩ | ⟨d, nested, lineage, seed, -, -, hev⟩
  · exact hev.keeps (I := ChildEntry.Waits) (fun _ hw => hw.waits) (h k e he)
  · exact hev.keeps (I := ChildEntry.Waits) (fun _ hw => hw.waits) nofun

end SupervisorRuntime

section Waiting

variable {m : Machine} {rt rt' : SupervisorRuntime}

theorem step_waiting (i : Input) (hinv : m.Inv) (h : m.rt.Waiting) : (step m i).rt.Waiting := by
  cases i with
  | env e =>
    have h₁ : SupervisorRuntime.Waiting { m.rt with now := (m.rt.env e).now } := h
    exact h₁.works (A := fun _ => True) (env_works e)
  | wake w => exact h.works (wake_works w hinv)

theorem run_waiting (c : SupervisorConfig) (b : Binding) (inputs : List Input) : (run (start c b) inputs).rt.Waiting := by
  induction inputs using List.reverseRecOn with
  | nil =>
    have hnew : (SupervisorRuntime.new c b).Waiting := by
      intro k e he
      obtain ⟨d, nested, lineage, seed, heq⟩ := new_entries c b he
      rw [heq]
      exact nofun
    exact hnew.works (start_turns (A := fun _ => True) c b).works
  | append_singleton js i ih =>
    rw [run_append]
    exact step_waiting i (run_inv c b js) ih

/-! ## Leaving -/

theorem busy_of_ledger (hl : rt'.ledger = rt.ledger) (h : rt.Busy) : rt'.Busy := by
  intro k e' he' hm
  have hget := ledger_get he'
  rw [hl] at hget
  obtain ⟨e, he, heq⟩ := get_of_ledger hget
  have hmem : e.membership = e'.membership := congrArg Member.membership heq
  have hact : e.runtime.state = e'.runtime.state := congrArg Member.state heq
  rw [← hact]
  exact h k e he (hmem.trans hm)

theorem closed_ledger (failure : Option SupervisorError) : (rt.closed failure).ledger = rt.ledger := by
  cases failure with
  | none => exact @endShutdown_ledger rt .shutdown (.ok ())
  | some e => exact @endShutdown_ledger rt (.failure e) (.ok ())

theorem Goes.busy {late : Prop} (h : Goes late rt m) (hb : rt.Busy) : m.rt.Busy := by
  cases h with
  | awaits hk _ _ => exact hk.2 hb
  | fails _ hk => exact busy_of_ledger (closed_ledger _) (hk.2 hb)
  | returns _ hk _ => exact busy_of_ledger (closed_ledger _) (hk.2 hb)

theorem wake_busy (w : Wake) (hinv : m.Inv) (hs : m.Staffed) (hb : m.rt.Busy) : (wake m w).rt.Busy := by
  by_cases hne : ∀ r, m.phase ≠ .exited r
  · rcases wake_goes w hinv hs hne with hg | ⟨-, rt₁, result, heq, hk, -⟩
    · exact hg.busy hb
    · rw [heq]
      exact busy_of_ledger (closed_ledger _) (hk.2 hb)
  · obtain ⟨rt, phase⟩ := m
    cases phase with
    | exited result => exact hb
    | _ => exact absurd nofun hne

theorem env_busy (e : EnvStep) (hb : rt.Busy) : (rt.env e).Busy := by
  intro k x hx hm
  have hget : rt.ledger.members.get k = some x.member := by
    rcases @env_ledger rt e with h | h
    · rw [← h]
      exact ledger_get hx
    · have hx := ledger_get hx
      generalize (rt.env e).ledger = L at h hx
      cases h
      exact hx
  obtain ⟨x₀, hx₀, heq⟩ := get_of_ledger hget
  have hmem : x₀.membership = x.membership := congrArg Member.membership heq
  have hact : x₀.runtime.state = x.runtime.state := congrArg Member.state heq
  rw [← hact]
  exact hb k x₀ hx₀ (hmem.trans hm)

theorem run_busy (c : SupervisorConfig) (b : Binding) (inputs : List Input) : (run (start c b) inputs).rt.Busy := by
  have hinv : (start c b).Inv := run_inv c b []
  induction inputs using List.reverseRecOn with
  | nil =>
    refine (start_goes c b).busy fun k e he hm => ?_
    rw [new_active c b he] at hm
    cases hm
  | append_singleton js i ih =>
    rw [run_append]
    cases i with
    | env e => exact env_busy e ih
    | wake w => exact wake_busy w (run_inv c b js) (run_staffed js hinv (start_staffed c b).1).1 ih

end Waiting

/-! ## Idle children -/

namespace SupervisorRuntime

variable {rt rt' : SupervisorRuntime}

/-- Whoever has a restart deadline is active in the scope, and waits. -/
def Idle (rt : SupervisorRuntime) : Prop :=
  ∀ k e d, rt.children.get k = some e → e.runtime.nextRestartDeadline = some d → e.membership = .active ∧ e.Waits

theorem idle_of_busy (hw : rt.Waiting) (hb : rt.ledger.Books) (h : rt.Busy) : rt.Idle := by
  intro k e d he hd
  have hwaits := hw k e he
  refine ⟨?_, hwaits⟩
  cases hm : e.membership with
  | active => rfl
  | removing =>
    have hact := h k e he hm
    rw [(hwaits d hd).1] at hact
    cases hact
  | removed => exact absurd hm (hb.present k e.member (ledger_get he))

end SupervisorRuntime

/-- In every reachable state a child with a restart deadline is active and stopped. -/
theorem deadline_stopped (c : SupervisorConfig) (b : Binding) (inputs : List Input) {key : ChildKey} {e : ChildEntry} {d : Instant}
    (he : (run (start c b) inputs).rt.children.get key = some e) (hd : e.runtime.nextRestartDeadline = some d) :
    e.membership = .active ∧ e.runtime.state = .stopped := by
  obtain ⟨hm, hw⟩ := idle_of_busy (run_waiting c b inputs) (run_inv c b inputs).books (run_busy c b inputs) key e d he hd
  exact ⟨hm, (hw d hd).1⟩

/-! ## What a write keeps -/

section Entries

variable {A : WriteTag → Prop} {t : WriteTag} {e e' : ChildEntry} {d : Instant}

/-- Only a restart sets a deadline. -/
theorem Write.deadline (h : Write t e e') (ht : t ≠ .restart) (hd : e'.runtime.nextRestartDeadline = some d) :
    e.runtime.nextRestartDeadline = some d := by
  cases h with
  | prepare => cases hd
  | spawn => cases hd
  | queue => cases hd
  | request hw =>
    rw [hw.rest] at hd
    exact hd
  | exit => cases hd
  | unschedule => cases hd
  | record => exact absurd rfl ht
  | schedule => exact absurd rfl ht
  | _ => exact hd

theorem Evolves.deadline (hA : ¬ A .restart) (h : Evolves A e e') (hd : e'.runtime.nextRestartDeadline = some d) :
    e.runtime.nextRestartDeadline = some d := by
  let I : ChildEntry → Prop := fun x => x.runtime.nextRestartDeadline = some d → e.runtime.nextRestartDeadline = some d
  refine h.keeps (I := I) (fun {t x x'} ht hw hx hd => hx (hw.deadline ?_ hd)) id hd
  rintro rfl
  exact ht.elim nofun hA

theorem Write.membership (h : Write t e e') (ht : t ≠ .removal) : e'.membership = e.membership := by
  cases h with
  | leave => exact absurd rfl ht
  | _ => rfl

theorem Evolves.membership (hA : ¬ A .removal) (h : Evolves A e e') : e'.membership = e.membership := by
  refine h.keeps (I := fun x => x.membership = e.membership) (fun {t x x'} ht hw hx => (hw.membership ?_).trans hx) rfl
  rintro rfl
  exact ht.elim nofun hA

/-- Only a removal, its grace and the end of the run write a pending removal. -/
theorem Write.pendingRemoval (h : Write t e e') (hr : t ≠ .removal) (hp : t ≠ .parking) :
    e'.pendingRemoval = e.pendingRemoval := by
  cases h with
  | leave => exact absurd rfl hr
  | park => exact absurd rfl hp
  | _ => rfl

theorem Evolves.pendingRemoval (hr : ¬ A .removal) (hp : ¬ A .parking) (h : Evolves A e e') :
    e'.pendingRemoval = e.pendingRemoval := by
  refine h.keeps (I := fun x => x.pendingRemoval = e.pendingRemoval) (fun {t x x'} ht hw hx => ?_) rfl
  refine (hw.pendingRemoval ?_ ?_).trans hx
  · rintro rfl
    exact ht.elim nofun hr
  · rintro rfl
    exact ht.elim nofun hp

end Entries

/-! ## What code that schedules nothing keeps -/

namespace SupervisorRuntime

variable {A : WriteTag → Prop} {rt rt' : SupervisorRuntime} {k key : ChildKey} {d t₀ : Instant}

/-- The child at a key waits for a restart. -/
def RestartAt (rt : SupervisorRuntime) (k : ChildKey) (d : Instant) : Prop :=
  ∃ e, rt.children.get k = some e ∧ e.runtime.nextRestartDeadline = some d

/-- Every deadline of a pending removal is later. -/
def RemovalsLater (t₀ : Instant) (rt : SupervisorRuntime) : Prop :=
  ∀ k e d, rt.children.get k = some e → e.pendingRemoval.bind removalDeadline = some d → t₀ < d

theorem RestartAt.of_works (hA : ¬ A .restart) (hw : Works A rt rt') (h : rt'.RestartAt k d) : rt.RestartAt k d := by
  obtain ⟨e', he', hd⟩ := h
  rcases hw.entries k e' he' with ⟨e, he, hev⟩ | ⟨_, _, _, _, -, -, hev⟩
  · exact ⟨e, he, hev.deadline hA hd⟩
  · exact absurd (hev.deadline hA hd) nofun

theorem Idle.works (hr : ¬ A .restart) (hl : ¬ A .removal) (h : Idle rt) (hw : Works A rt rt') : Idle rt' := by
  intro k e' d he' hd
  rcases hw.entries k e' he' with ⟨e, he, hev⟩ | ⟨_, _, _, _, -, -, hev⟩
  · obtain ⟨hm, hwaits⟩ := h k e d he (hev.deadline hr hd)
    exact ⟨(hev.membership hl).trans hm, hev.keeps (I := ChildEntry.Waits) (fun _ hw => hw.waits) hwaits⟩
  · exact absurd (hev.deadline hr hd) nofun

theorem RemovalsLater.works (hl : ¬ A .removal) (hp : ¬ A .parking) (h : RemovalsLater t₀ rt) (hw : Works A rt rt') :
    RemovalsLater t₀ rt' := by
  intro k e' d he' hd
  rcases hw.entries k e' he' with ⟨e, he, hev⟩ | ⟨_, _, _, _, -, -, hev⟩
  · rw [hev.pendingRemoval hl hp] at hd
    exact h k e d he hd
  · rw [hev.pendingRemoval hl hp] at hd
    cases hd

/-! ## Removals -/

/-- A fold settles the entries of its elements, if each step settles its own and unsettles
    none. -/
theorem foldl_settles {α : Type} {f : SupervisorRuntime → α → SupervisorRuntime} (Own : α → ChildKey → Prop) {Q : ChildEntry → Prop}
    (hf : ∀ rt a k e', (f rt a).children.get k = some e' → ∃ e, rt.children.get k = some e ∧ (Own a k ∨ Q e → Q e')) :
    ∀ (as : List α) (rt : SupervisorRuntime) (k : ChildKey) (e' : ChildEntry), (as.foldl f rt).children.get k = some e' →
      ∃ e, rt.children.get k = some e ∧ ((∃ a ∈ as, Own a k) ∨ Q e → Q e')
  | [], _, _, e', he' => ⟨e', he', fun h => h.resolve_left fun ⟨_, hm, _⟩ => absurd hm List.not_mem_nil⟩
  | a :: as, rt, k, e', he' => by
    obtain ⟨e₁, he₁, h₁⟩ := foldl_settles Own hf as (f rt a) k e' he'
    obtain ⟨e, he, h⟩ := hf rt a k e₁ he₁
    refine ⟨e, he, fun hk => h₁ ?_⟩
    rcases hk with ⟨a', hm, ho⟩ | hq
    · rcases List.mem_cons.mp hm with rfl | hm
      · exact .inr (h (.inl ho))
      · exact .inl ⟨a', hm, ho⟩
    · exact .inr (h (.inr hq))

/-- The grace of a pending removal is over, or not due yet. -/
def GraceOver (now : Instant) (e : ChildEntry) : Prop :=
  ∀ p, e.pendingRemoval = some p → p.graceExpired = true ∨ p.policy.isAbort = true ∨ now < p.graceDeadline

/-- Its hard abort is not due. -/
def AbortLater (now : Instant) (e : ChildEntry) : Prop :=
  ∀ p d, e.pendingRemoval = some p → p.hardAbortDeadline = some d → now < d

/-- What the two loops over pending removals do to one of them. -/
theorem editRemoval_entries {f : PendingRemoval → PendingRemoval} {rt₁ : SupervisorRuntime}
    (hw : Writes (fun _ => False) (rt.edit key fun e => { e with pendingRemoval := e.pendingRemoval.map f }) rt₁)
    (hn : rt₁.nextLineage = rt.nextLineage) {e' : ChildEntry} (he' : rt₁.children.get k = some e') :
    ∃ e, rt.children.get k = some e ∧ e'.pendingRemoval = if k = key then e.pendingRemoval.map f else e.pendingRemoval := by
  rcases hw.entries k e' he' with ⟨e₁, he₁, hev⟩ | ⟨_, _, _, _, hlow, hhigh, -⟩
  · have hp := hev.pendingRemoval id id
    change (rt.children.modify key _).get k = some e₁ at he₁
    rw [Slab.get_modify] at he₁
    split at he₁
    · rename_i hk
      obtain ⟨e, he, rfl⟩ := Option.map_eq_some_iff.mp he₁
      subst hk
      exact ⟨e, he, by rw [hp, if_pos rfl]⟩
    · rename_i hk
      exact ⟨e₁, he₁, by rw [hp, if_neg hk]⟩
  · change rt.nextLineage ≤ _ at hlow
    rw [hn] at hhigh
    omega

theorem expireRemoval_entries {grace : Duration} {e' : ChildEntry} (he' : (rt.expireRemoval key grace).children.get k = some e') :
    ∃ e, rt.children.get k = some e ∧ (k = key ∨ GraceOver t₀ e → GraceOver t₀ e') := by
  obtain ⟨e, he, hp⟩ := editRemoval_entries (writes_escalateChild key) rfl he'
  refine ⟨e, he, fun h p hp' => ?_⟩
  rw [hp] at hp'
  by_cases hk : k = key
  · rw [if_pos hk] at hp'
    obtain ⟨p₀, -, rfl⟩ := Option.map_eq_some_iff.mp hp'
    exact .inl rfl
  · rw [if_neg hk] at hp'
    exact h.resolve_left hk p hp'

theorem hardAbortRemoval_entries {e' : ChildEntry} (he' : (rt.hardAbortRemoval key).children.get k = some e') :
    ∃ e, rt.children.get k = some e ∧ (GraceOver t₀ e → GraceOver t₀ e') ∧ (k = key ∨ AbortLater t₀ e → AbortLater t₀ e') := by
  have hn : (rt.hardAbortRemoval key).nextLineage = rt.nextLineage := by
    unfold hardAbortRemoval abortChild
    simp only
    split <;> rfl
  obtain ⟨e, he, hp⟩ := editRemoval_entries (writes_abortChild key) hn he'
  refine ⟨e, he, fun h p hp' => ?_, fun h p d hp' hd => ?_⟩
  · rw [hp] at hp'
    by_cases hk : k = key
    · rw [if_pos hk] at hp'
      obtain ⟨p₀, hp₀, rfl⟩ := Option.map_eq_some_iff.mp hp'
      exact h p₀ hp₀
    · rw [if_neg hk] at hp'
      exact h p hp'
  · rw [hp] at hp'
    by_cases hk : k = key
    · rw [if_pos hk] at hp'
      obtain ⟨p₀, -, rfl⟩ := Option.map_eq_some_iff.mp hp'
      cases hd
    · rw [if_neg hk] at hp'
      exact h.resolve_left hk p d hp' hd

/-- A grace that is over in time is not due, or its removal is among those that expire. -/
theorem expires_or_over {e : ChildEntry} (hb : rt.ledger.Books) (he : rt.children.get k = some e) :
    (∃ a ∈ rt.expiredRemovals, k = a.1) ∨ GraceOver rt.now e := by
  by_cases h : GraceOver rt.now e
  · exact .inr h
  · left
    unfold GraceOver at h
    push Not at h
    obtain ⟨p, hp, hx, ha, hd⟩ := h
    cases hpol : p.policy with
    | abort => exact absurd (by rw [hpol]; rfl) ha
    | graceful grace =>
      refine ⟨(k, grace), ?_, rfl⟩
      unfold expiredRemovals
      refine List.mem_filterMap.mpr ⟨k, (hb.order_mem k).mpr ⟨_, ledger_get he⟩, ?_⟩
      rw [he, Option.bind_some, hp, Option.bind_some, hpol]
      simp only [Shutdown.grace, Option.bind_some]
      rw [if_pos]
      simp [hx, hd]

theorem aborts_or_later {e : ChildEntry} (hb : rt.ledger.Books) (he : rt.children.get k = some e) :
    (∃ a ∈ rt.hardAbortRemovals, k = a) ∨ AbortLater rt.now e := by
  by_cases h : AbortLater rt.now e
  · exact .inr h
  · left
    unfold AbortLater at h
    push Not at h
    obtain ⟨p, d, hp, hd, hle⟩ := h
    refine ⟨k, List.mem_filter.mpr ⟨(hb.order_mem k).mpr ⟨_, ledger_get he⟩, ?_⟩, rfl⟩
    rw [he, Option.bind_some, hp, Option.any_some, hd, Option.any_some]
    exact decide_eq_true hle

theorem serveRemovals_writes (hA : A .parking) : Writes A rt rt.serveRemovals :=
  (Writes.foldl (fun _ (x : ChildKey × Duration) => writes_expireRemoval hA x.1 x.2) _ rt).trans
    (Writes.foldl (fun _ key => writes_hardAbortRemoval hA key) _ _)

theorem serveRemovals_ledger : rt.serveRemovals.ledger = rt.ledger :=
  (ledger_foldl (fun _ k => ledger_hardAbortRemoval k) _ _).trans
    (ledger_foldl (fun _ (x : ChildKey × Duration) => ledger_expireRemoval x.1 x.2) _ _)

/-- After both, no removal is due. -/
theorem serveRemovals_later (hb : rt.ledger.Books) : RemovalsLater rt.now rt.serveRemovals := by
  let rt₁ := rt.expiredRemovals.foldl (fun rt (x : ChildKey × Duration) => rt.expireRemoval x.1 x.2) rt
  have hw₁ : Writes (fun _ => True) rt rt₁ :=
    Writes.foldl (fun _ (x : ChildKey × Duration) => writes_expireRemoval trivial x.1 x.2) _ rt
  have hb₁ : rt₁.ledger.Books := by
    rw [show rt₁.ledger = rt.ledger from ledger_foldl (fun _ (x : ChildKey × Duration) => ledger_expireRemoval x.1 x.2) _ _]
    exact hb
  have hgrace : ∀ k e, rt₁.children.get k = some e → GraceOver rt.now e := by
    intro k e' he'
    obtain ⟨e, he, h⟩ := foldl_settles (Q := GraceOver rt.now) (fun (x : ChildKey × Duration) k => k = x.1)
      (fun rt x k e' he' => expireRemoval_entries he') _ rt k e' he'
    exact h (expires_or_over hb he)
  intro k e' d he' hd
  have hgrace' : GraceOver rt.now e' := by
    obtain ⟨e, he, h⟩ := foldl_settles (Q := GraceOver rt.now) (fun _ _ => False) (fun _ _ _ _ he' => by
      obtain ⟨e, he, h, -⟩ := hardAbortRemoval_entries he'
      exact ⟨e, he, fun hq => h (hq.resolve_left id)⟩) _ rt₁ k e' he'
    exact h (.inr (hgrace k e he))
  have habort : AbortLater rt.now e' := by
    obtain ⟨e, he, h⟩ := foldl_settles (Q := AbortLater rt.now) (fun key k => k = key) (fun _ _ _ _ he' => by
      obtain ⟨e, he, -, h⟩ := hardAbortRemoval_entries he'
      exact ⟨e, he, h⟩) _ rt₁ k e' he'
    have hdue := aborts_or_later hb₁ he
    rw [hw₁.now] at hdue
    exact h hdue
  obtain ⟨p, hp, hd⟩ := Option.bind_eq_some_iff.mp hd
  unfold removalDeadline at hd
  split at hd
  · rename_i hopen
    simp only [Bool.and_eq_true, Bool.not_eq_true'] at hopen
    cases hd
    rcases hgrace' p hp with hx | ha | hlt
    · rw [hopen.1] at hx
      cases hx
    · rw [hopen.2] at ha
      cases ha
    · exact hlt
  · exact habort p d hp hd

/-! ## Restarts -/

/-- The child at a key waits for no restart. -/
def Clear (rt : SupervisorRuntime) (k : ChildKey) : Prop := ∀ d, ¬ rt.RestartAt k d

theorem Clear.works (hA : ¬ A .restart) (h : rt.Clear k) (hw : Works A rt rt') : rt'.Clear k :=
  fun d hd => h d (hd.of_works hA hw)

theorem Clear.runs {α : Type} {m : RuntimeM α} (hA : ¬ A .restart) (h : rt.Clear k)
    (hm : Act.Runs (Writes A) m rt fun _ _ => True) : Act.Runs (Writes A) m rt fun _ rt' => rt'.Clear k :=
  (hm.keeps fun _ hw => h.works hA hw.toWorks).weaken fun _ _ hq => hq.2

theorem clear_of_none (h : rt.children.get k = none) : rt.Clear k := by
  rintro d ⟨e, he, -⟩
  rw [h] at he
  cases he

theorem clear_of_entry {e : ChildEntry} (he : rt.children.get k = some e) (hd : e.runtime.nextRestartDeadline = none) : rt.Clear k := by
  rintro d ⟨e', he', hd'⟩
  rw [he] at he'
  cases he'
  rw [hd] at hd'
  cases hd'

/-- Whoever may not wait is clear. -/
theorem Idle.clear {e : ChildEntry} (h : rt.Idle) (he : rt.children.get k = some e)
    (hn : e.membership = .active → e.runtime.state = .stopped → e.runtime.definition.restart.isNever = false →
      e.runtime.nextRestartDeadline = none) : rt.Clear k := by
  rintro d ⟨e', he', hd⟩
  rw [he] at he'
  cases he'
  obtain ⟨hm, hw⟩ := h k e d he hd
  obtain ⟨hs, hr⟩ := hw d hd
  rw [hn hm hs hr] at hd
  cases hd

theorem spawnChild_clears {e : ChildEntry} (hA : ¬ A .restart) (h : rt.children.get key = some e) (hm : e.membership = .active)
    (hi : e.runtime.state.isIdle = true) : Act.Runs (Writes A) (spawnChild key) rt fun _ rt' => rt'.Clear key := by
  refine ⟨(spawnChild_writes h hm hi).1, fun a rt' hrun => ?_⟩
  by_cases hr : e.member.Refuses
  · obtain ⟨err, heq⟩ := spawnChild_refused h hr
    rw [heq] at hrun
    cases hrun
  · obtain ⟨old, heq⟩ := spawnChild_eq h hr
    rw [heq] at hrun
    cases hrun
    let rt₁ := { rt with spawnedFrom := rt.spawnedFrom ++ [e.runtime.state] }.installTask key (rt.prepareSpawn key e)
    have hclear : rt₁.Clear key := by
      refine clear_of_entry (e := finishSpawn (rt.cfg.host.taskId (rt.joinSet.map (·.id))) (rt.prepareSpawn key e)) ?_ rfl
      exact Slab.get_insertAt_self ..
    unfold afterSpawn
    simp only
    split
    · exact hclear.works hA ((writes_sendLifecycle key _).trans writes_publish).toWorks
    · exact hclear.works hA writes_publish.toWorks

theorem spawnStartItem_clears {e : ChildEntry} (hA : ¬ A .restart) (item : StartItem) (he : rt.children.get item.key = some e)
    (hl : e.lineage = item.lineage) (hm : e.membership = .active) (hi : e.runtime.state.isIdle = true) :
    Act.Runs (Writes A) (spawnStartItem item) rt fun _ rt' => rt'.Clear item.key := by
  unfold spawnStartItem
  refine Act.runs_get ?_
  rw [he]
  simp only
  rw [if_neg (by simp [hl, hm, hi])]
  refine Act.runs_bind (spawnChild_clears hA he hm hi) fun _ rt' _ hclear => ?_
  refine hclear.runs hA ?_
  split
  · exact Act.runs_modify (.of_board rfl) trivial
  · split
    · exact Act.runs_modify (writes_startupMemberReady _ _) trivial
    · exact Act.runs_pure trivial

theorem restartOne_clears (hA : ¬ A .restart) (h : rt.Idle) :
    Act.Runs (Writes A) (restartOne key) rt fun _ rt' => rt'.Clear key := by
  unfold restartOne
  refine Act.runs_get ?_
  split
  · rename_i he
    exact Act.runs_pure (clear_of_none he)
  · rename_i entry he
    split
    · rename_i hg
      refine Act.runs_pure (h.clear he fun hm hs _ => ?_)
      simpa [hm, hs] using hg
    · rename_i hg
      simp only [Bool.or_eq_true, decide_eq_true_eq, not_or, ne_eq, Decidable.not_not] at hg
      obtain ⟨⟨hm, hs⟩, -⟩ := hg
      have hi : entry.runtime.state.isIdle = true := by
        rw [hs]
        rfl
      refine Act.runs_modify_bind (writes_edit fun _ _ => .plain .unschedule) ?_
      refine Act.runs_bind (spawnChild_clears hA (get_edit he) hm hi) ?_
      rintro ⟨old, new⟩ rt' - hclear
      refine hclear.runs hA (Act.runs_modify_bind (.of_board rfl) (Act.runs_get ?_))
      split
      · exact advanceStartSequence_writes
      · exact Act.runs_pure trivial

/-! ## A batch being served -/

/-- No removal is due, and only the keys listed may still wait for a restart that is. -/
structure InBatch (t₀ : Instant) (keys : List ChildKey) (rt : SupervisorRuntime) : Prop where
  idle : rt.Idle
  removals : RemovalsLater t₀ rt
  restarts : ∀ k d, rt.RestartAt k d → d ≤ t₀ → k ∈ keys

section InBatch

variable {keys rest : List ChildKey}

theorem InBatch.works (h : InBatch t₀ keys rt) (hw : Works (fun _ => False) rt rt') : InBatch t₀ keys rt' where
  idle := h.idle.works id id hw
  removals := h.removals.works id id hw
  restarts k d hd := h.restarts k d (hd.of_works id hw)

theorem InBatch.writes (h : InBatch t₀ keys rt) (hw : Writes (fun _ => False) rt rt') : InBatch t₀ keys rt' := h.works hw.toWorks

theorem InBatch.next (h : InBatch t₀ (key :: rest) rt) (hw : Works (fun _ => False) rt rt') (hc : rt'.Clear key) :
    InBatch t₀ rest rt' where
  idle := h.idle.works id id hw
  removals := h.removals.works id id hw
  restarts k d hd hle := by
    rcases List.mem_cons.mp (h.restarts k d (hd.of_works id hw) hle) with rfl | hk
    · exact absurd hd (hc d)
    · exact hk

/-- A loop that clears each of the keys serves them all. -/
theorem serves_forEach {f : ChildKey → RuntimeM Unit} (hf : ∀ key rt, rt.Idle →
      Act.Runs (Writes fun _ => False) (f key) rt fun _ rt' => rt'.Clear key) (h : InBatch t₀ keys rt) :
    Act.Runs (Writes fun _ => False) (Act.forEach keys f) rt fun _ rt' => InBatch t₀ [] rt' := by
  refine Act.runs_forEach (I := fun rest rt => InBatch t₀ rest rt) ?_ keys rt h
  intro key rest rt h
  exact ((hf key rt h.idle).keeps fun rt' hw => h.next hw.toWorks).weaken fun _ _ ⟨hc, hnext⟩ => hnext hc

/-- The restarts due are all of a group restart's scope. -/
theorem due_suffix {p : ChildKey → Bool} : ∀ {order : List ChildKey}, order.filter p = key :: rest → ∀ k ∈ key :: rest,
    k ∈ order.dropWhile (· ≠ key)
  | [], h, _, _ => by cases h
  | x :: xs, h, k, hk => by
    rw [List.dropWhile_cons]
    by_cases hx : x = key
    · rw [if_neg (by simpa using hx), ← h] at *
      exact List.mem_of_mem_filter hk
    · rw [if_pos (by simpa using hx)]
      refine due_suffix (p := p) ?_ k hk
      rw [List.filter_cons] at h
      split at h
      · exact absurd (List.cons.inj h).1 hx
      · exact h

/-- Every restart that is due is found. -/
theorem mem_dueRestarts (hb : rt.ledger.Books) (h : rt.Idle) (hd : rt.RestartAt k d) (hle : d ≤ rt.now) : k ∈ rt.dueRestarts := by
  obtain ⟨e, he, hd⟩ := hd
  obtain ⟨hm, hw⟩ := h k e d he hd
  refine List.mem_filter.mpr ⟨(hb.order_mem k).mpr ⟨_, ledger_get he⟩, ?_⟩
  rw [he, Option.any_some, hm, (hw d hd).1, hd]
  simpa using hle

theorem restartScope_covers (h : rt.dueRestarts = key :: rest) (fresh : Bool) :
    ∃ keys, (rt.editRuntime key fun r => { r with nextRestartDeadline := none }).restartScope key fresh = some keys ∧
      ∀ k ∈ key :: rest, k ∈ keys := by
  have hkey : key ∈ rt.dueRestarts := by
    rw [h]
    exact List.mem_cons_self
  obtain ⟨horder, hdue⟩ := List.mem_filter.mp hkey
  cases he : rt.children.get key with
  | none =>
    rw [he] at hdue
    cases hdue
  | some e =>
    rw [he, Option.any_some] at hdue
    simp only [Bool.and_eq_true, decide_eq_true_eq] at hdue
    unfold restartScope
    rw [show (rt.editRuntime key _).children.get key = _ from get_edit he]
    simp only
    rw [if_neg (fun hm => hm hdue.1.1)]
    cases fresh with
    | true =>
      refine ⟨rt.childOrder, rfl, fun k hk => ?_⟩
      rw [← h] at hk
      exact List.mem_of_mem_filter hk
    | false =>
      refine ⟨rt.childOrder.dropWhile (· ≠ key), ?_, due_suffix h⟩
      show (if rt.childOrder.contains key then some (rt.childOrder.dropWhile (· ≠ key)) else none) = _
      rw [if_pos (List.contains_iff_mem.mpr horder)]

theorem handleDeadlines_serves (hb : rt.ledger.Books) (h : rt.Idle) :
    Act.Runs (Writes (· = .parking)) handleDeadlines rt fun r rt' => InBatch rt.now (r.getD []) rt' := by
  let rt₁ := rt.serveRemovals
  have hw : Writes (· = .parking) rt rt₁ := serveRemovals_writes rfl
  have hb₁ : rt₁.ledger.Books := by
    rw [show rt₁.ledger = rt.ledger from serveRemovals_ledger]
    exact hb
  have h₁ : InBatch rt.now rt₁.dueRestarts rt₁ :=
    { idle := h.works nofun nofun hw.toWorks
      removals := serveRemovals_later hb
      restarts := fun k d hd hle => mem_dueRestarts hb₁ (h.works nofun nofun hw.toWorks) hd (hw.now ▸ hle) }
  have hgroup : ∀ key rest fresh, rt₁.dueRestarts = key :: rest →
      InBatch rt.now (((rt₁.editRuntime key fun r => { r with nextRestartDeadline := none }).restartScope key fresh).getD [])
        (rt₁.editRuntime key fun r => { r with nextRestartDeadline := none }) := by
    intro key rest fresh hdue
    obtain ⟨keys, hkeys, hcover⟩ := restartScope_covers hdue fresh
    rw [hkeys]
    have hedit : Writes (fun _ => False) rt₁ (rt₁.editRuntime key fun r => { r with nextRestartDeadline := none }) :=
      writes_edit fun _ _ => .plain .unschedule
    have h₂ := h₁.works hedit.toWorks
    exact { h₂ with restarts := fun k d hd hle => hcover k (hdue ▸ h₂.restarts k d hd hle) }
  have hrest : Act.Runs (Writes (· = .parking)) (serveRestarts rt₁) rt₁ fun r rt' => InBatch rt.now (r.getD []) rt' := by
    unfold serveRestarts
    split
    · have hserve := serves_forEach (fun key rt => restartOne_clears (A := fun _ => False) id) h₁
      refine Act.runs_bind (hserve.mono fun _ hw => hw.mono fun _ => False.elim) fun _ rt' _ hs => ?_
      exact Act.runs_pure hs
    · rename_i hdue _
      rw [hdue] at h₁
      exact Act.runs_pure h₁
    · rename_i key rest hdue _
      refine Act.runs_modify_bind (writes_edit fun _ _ => .plain .unschedule) (Act.runs_get (Act.runs_pure ?_))
      exact hgroup key rest _ hdue
  unfold Act.Runs
  rw [handleDeadlines_eq]
  split
  · refine ⟨.refl rt, fun _ _ hout => ?_⟩
    cases hout
  · exact ⟨hw.trans hrest.1, hrest.2⟩

/-! ## A group respawned -/

theorem scheduleStart_clears (emitRestartEvents : Bool) (h : rt.Idle) :
    Act.Runs (Writes fun _ => False) (scheduleStart key emitRestartEvents) rt fun _ rt' => rt'.Clear key := by
  unfold scheduleStart
  refine Act.runs_get ?_
  split
  · rename_i he
    exact Act.runs_pure (clear_of_none he)
  · rename_i e he
    split
    · rename_i hg
      refine Act.runs_pure (h.clear he fun hm hs _ => ?_)
      simp [hm, hs, RuntimeChildState.isIdle] at hg
    · rename_i hg
      simp only [Bool.or_eq_true, decide_eq_true_eq, not_or, ne_eq, Decidable.not_not, Bool.not_eq_true', Bool.not_eq_false] at hg
      simp only
      split
      · exact spawnStartItem_clears id _ he rfl hg.1 hg.2
      · refine Act.runs_modify (Writes.trans (writes_edit fun e' he' => ?_) (.of_board rfl)) (clear_of_entry (get_edit he) rfl)
        rw [he] at he'
        cases he'
        exact .plain (.queue hg.1 hg.2)

/-- Whoever is not respawned with its group does not wait for a restart. -/
theorem respawn_clears (h : rt.Idle) : Act.Runs (Writes fun _ => False) (do
    let rt ← Act.get
    match rt.groupRespawnDisposition key with
    | .respawn => scheduleStart key true
    | .skip => pure ()
    | .finalize startupAborted => finalizeSkippedGroupRespawn key startupAborted : RuntimeM Unit) rt fun _ rt' => rt'.Clear key := by
  refine Act.runs_get ?_
  cases hdisp : rt.groupRespawnDisposition key with
  | respawn => exact scheduleStart_clears true h
  | skip =>
    refine Act.runs_pure ?_
    unfold groupRespawnDisposition at hdisp
    split at hdisp
    · rename_i he
      exact clear_of_none he
    · rename_i e he
      split at hdisp
      · rename_i hm
        exact h.clear he fun hact => absurd hact hm
      · split at hdisp <;> cases hdisp
  | finalize startupAborted =>
    have hclear : rt.Clear key := by
      unfold groupRespawnDisposition at hdisp
      split at hdisp
      · cases hdisp
      · rename_i e he
        split at hdisp
        · cases hdisp
        · split at hdisp
          · rename_i hn
            rw [Bool.and_eq_true] at hn
            refine h.clear he fun _ _ hr => ?_
            rw [hn.2] at hr
            cases hr
          · cases hdisp
    exact hclear.runs id (finalizeSkippedGroupRespawn_writes key startupAborted)

theorem scheduleStartSequence_serves (h : InBatch t₀ keys rt) :
    Act.Runs (Writes fun _ => False) (scheduleStartSequence keys true) rt fun _ rt' => InBatch t₀ [] rt' := by
  unfold scheduleStartSequence
  refine Act.runs_bind (serves_forEach (fun key rt => respawn_clears) h) fun _ rt' _ hs => ?_
  have hend : Act.Runs (Writes fun _ => False) (do
      let rt ← Act.get
      if rt.cfg.kind = .ordered then do
        Act.modify publishSnapshot
        advanceStartSequence
      else pure () : RuntimeM Unit) rt' fun _ _ => True := by
    refine Act.runs_get ?_
    split
    · exact Act.runs_modify_bind writes_publish advanceStartSequence_writes
    · exact Act.runs_pure trivial
  exact (hend.keeps fun _ hw => hs.writes hw).weaken fun _ _ hq => hq.2

theorem respawnGroup_serves (freshGroupToken : Bool) (completed : List ClassifiedExit) (h : InBatch t₀ keys rt) :
    Act.Runs (Writes fun _ => False) (respawnGroup keys freshGroupToken completed) rt fun _ rt' => InBatch t₀ [] rt' := by
  have hrest : ∀ (rt' : SupervisorRuntime) (deferred : List ClassifiedExit), InBatch t₀ keys rt' →
      Act.Runs (Writes fun _ => False) (do
        Act.modify fun rt => { rt with startSequence := rt.startSequence.map fun s =>
          { queue := s.queue.filter fun item => !keys.contains item.key
            gate := s.gate.filter fun g => !keys.contains g.key } }
        scheduleStartSequence keys true
        pure deferred : RuntimeM (List ClassifiedExit)) rt' fun _ rt' => InBatch t₀ [] rt' := by
    intro rt' deferred hs
    refine Act.runs_modify_bind (.of_board rfl) ?_
    refine Act.runs_bind (scheduleStartSequence_serves (hs.writes (.of_board rfl))) fun _ _ _ hs => ?_
    exact Act.runs_pure hs
  unfold respawnGroup
  simp only
  refine Act.runs_bind (Q := fun _ rt' => InBatch t₀ keys rt') ?_ fun _ rt' _ hs => ?_
  · refine Act.runs_forEach (I := fun _ rt' => InBatch t₀ keys rt') ?_ _ rt h
    intro c rest rt hs
    refine Act.runs_get ?_
    split
    · refine Act.Runs.weaken (Act.Runs.keeps (applyExitPolicyInner_writes c false nofun) fun _ hw => hs.writes hw) ?_
      exact fun _ _ hq => hq.2
    · exact Act.runs_pure hs
  · cases freshGroupToken with
    | true => exact Act.runs_modify_bind (.of_board rfl) (hrest _ _ (hs.writes (.of_board rfl)))
    | false => exact hrest rt' _ hs

end InBatch

end SupervisorRuntime

/-! ## Deferred exits -/

/-- The policy schedules a restart of this membership for this instant. -/
def Application.Restarts (x : Application) (lineage : Nat) (d : Instant) : Prop :=
  x.eligible = true ∧ x.exit.lineage = lineage ∧ (applyExitPolicy x.exit x.rt).2.RestartAt x.exit.key d

section InBatch

variable {rt rt' : SupervisorRuntime} {keys : List ChildKey} {t₀ : Instant}

/-- A restart that is due was scheduled by one of the applications. -/
def RestartsAsked (t₀ : Instant) (apps : List Application) (rt : SupervisorRuntime) : Prop :=
  ∀ k e d, rt.children.get k = some e → e.runtime.nextRestartDeadline = some d →
    t₀ < d ∨ ∃ x ∈ apps, x.Restarts e.lineage d

variable {apps : List Application} {exit : ClassifiedExit}

theorem RestartsAsked.mono {apps' : List Application} (h : RestartsAsked t₀ apps rt) (hsub : apps ⊆ apps') : RestartsAsked t₀ apps' rt := by
  intro k e d he hd
  exact (h k e d he hd).imp_right fun ⟨x, hx, hrest⟩ => ⟨x, hsub hx, hrest⟩

theorem RestartsAsked.works (h : RestartsAsked t₀ apps rt) (hw : Works (fun _ => False) rt rt') : RestartsAsked t₀ apps rt' := by
  intro k e' d he' hd
  rcases hw.entries k e' he' with ⟨e, he, hev⟩ | ⟨_, _, _, _, -, -, hev⟩
  · rw [hev.lineage]
    exact h k e d he (hev.deadline id hd)
  · exact absurd (hev.deadline id hd) nofun

theorem applyExitPolicy_asked (h : RestartsAsked t₀ apps rt) (hm : rt.currentChildMatches exit.key exit.lineage exit.generation = true) :
    RestartsAsked t₀ (apps ++ [⟨exit, rt⟩]) (applyExitPolicy exit rt).2 := by
  cases hx : Application.eligible ⟨exit, rt⟩ with
  | false => exact (h.mono (List.subset_append_left ..)).works (applyExitPolicy_idle hx).toWorks
  | true =>
    obtain ⟨e, he, hl, -⟩ := currentChildMatches_iff (t := exit.record).mp hm
    have he : rt.children.get exit.key = some e := he
    have hspend := applyExitPolicy_spends hx he
    intro k e' d he' hd
    by_cases hk : k = exit.key
    · obtain ⟨e₁, he₁, hl₁, -⟩ := hspend.entry
      rw [hk] at he'
      have hat : (applyExitPolicy exit rt).2.RestartAt exit.key d := ⟨e', he', hd⟩
      rw [he₁] at he'
      cases he'
      exact .inr ⟨⟨exit, rt⟩, List.mem_append_right _ (List.mem_singleton_self _), hx, (hl₁.trans hl).symm, hat⟩
    · rw [hspend.others k hk] at he'
      exact h.mono (List.subset_append_left ..) k e' d he' hd

/-- What a batch leaves once its exits are applied. -/
structure BatchDone (t₀ : Instant) (apps : List Application) (rt : SupervisorRuntime) : Prop where
  removals : RemovalsLater t₀ rt
  asked : RestartsAsked t₀ apps rt

theorem SupervisorRuntime.InBatch.done (h : InBatch t₀ [] rt) : BatchDone t₀ apps rt where
  removals := h.removals
  asked k e d he hd := by
    by_cases hle : d ≤ t₀
    · exact absurd (h.restarts k d ⟨e, he, hd⟩ hle) List.not_mem_nil
    · exact .inl (Nat.lt_of_not_le hle)

theorem applyDeferred_serves {exits : List ClassifiedExit} (h : InBatch t₀ [] rt) (ho : rt.ledger.Open) (hb : rt.ledger.Books)
    (hd : Deferred rt.ledger exits) : BatchDone t₀ (deferredApplications exits rt) (applyDeferred exits rt).2 where
  removals := by
    have hw : Writes (· = .restart) rt (applyDeferred exits rt).2 := (applyDeferred_writes (A := (· = .restart)) rfl ho hb hd).1
    exact h.removals.works nofun nofun hw.toWorks
  asked := by
    have h₀ : RestartsAsked t₀ [] rt := h.done.asked
    exact applyDeferred_applies (I := RestartsAsked t₀) (fun _ hm h => applyExitPolicy_asked h hm) h₀ ho hb hd

/-! ## Wakes -/

variable {m : Machine}

/-- Where a batch stands: served in the main loop, or in the drain of its restart. -/
def Batch (t₀ : Instant) (apps : List Application) (m : Machine) : Prop :=
  match m.phase with
  | .main => BatchDone t₀ apps m.rt
  | .drain _ (.restart keys _) => InBatch t₀ keys m.rt
  | _ => True

theorem batch_exit (reason : ExitReason) : Batch t₀ apps (exitWith reason rt) := by
  have hl := @exitWith_leaving rt reason
  unfold Batch
  split
  · rename_i hp
    rw [hp] at hl
    cases hl
  · rename_i hp
    rw [hp] at hl
    cases hl
  · trivial

theorem resumeRestart_batch {scope : DrainScope} (freshGroupToken : Bool) {out : DrainOut} (h : InBatch t₀ keys rt)
    (hb : rt.ledger.Books) (ho : rt.ledger.Open) (hout : out.Inv scope rt.ledger) (hn : keys.Nodup)
    (hk : ∀ k ∈ keys, scope.contains k = true) :
    Batch t₀ (restartApplications keys freshGroupToken (out, rt)) (resumeRestart keys freshGroupToken (out, rt)) := by
  cases out with
  | await p => exact h
  | done result =>
    cases result with
    | error e => exact batch_exit _
    | ok completed =>
      obtain ⟨exits, ⟨rfl, hi⟩, hdef, -⟩ := hout
      have hdefers := (respawnGroup_defers freshGroupToken hb ho hn (fun k hkey => hi k (hk k hkey)) hdef).2
      have hserves := (respawnGroup_serves freshGroupToken completed h).2
      cases hq : respawnGroup keys freshGroupToken completed rt with | mk r rt₁ =>
      rw [hq] at hdefers hserves
      cases r with
      | error reason =>
        rw [restartApplications_failed hq, resumeRestart_failed hq]
        exact batch_exit _
      | ok deferred =>
        obtain ⟨ho₁, hb₁, hd₁⟩ := hdefers deferred rt₁ rfl
        rw [restartApplications_respawned hq, resumeRestart_respawned hq]
        have h₁ := hserves deferred rt₁ rfl
        cases freshGroupToken with
        | true => exact h₁.done
        | false =>
          have hB := applyDeferred_serves h₁ ho₁ hb₁ hd₁
          show Batch t₀ (deferredApplications deferred rt₁) (continueMain (applyDeferred deferred) rt₁)
          unfold continueMain
          generalize applyDeferred deferred rt₁ = q at hB
          obtain ⟨r, rt₂⟩ := q
          cases r with
          | ok _ => exact hB
          | error reason => exact batch_exit reason

/-- InBatch begins once the commands queued before the batch are handled. -/
theorem deadlineBatch_batch (hinv : Machine.Inv ⟨rt, .deadlineYield⟩) (hi : (drainDeadlineCommandBatch rt.commandRx rt).2.Idle) :
    Batch rt.now (applications ⟨rt, .deadlineYield⟩ .resumed) (deadlineBatch rt) := by
  obtain ⟨hlead, hkeys⟩ := deadlineBatch_runs hinv.phase.1
  have hserves : ∀ keys rt', (drainDeadlineCommandBatch rt.commandRx >>= fun _ => handleDeadlines) rt = (.ok keys, rt') →
      InBatch rt.now (keys.getD []) rt' := by
    have hcommands := drainDeadlineCommandBatch_works (A := fun _ => True) trivial rt.commandRx rfl fun _ => trivial
    have hpath := drainDeadlineCommandBatch_leads rt.commandRx hinv.phase.1
    rw [Act.run_bind]
    generalize drainDeadlineCommandBatch rt.commandRx rt = q at hcommands hpath hi
    obtain ⟨r, rt₁⟩ := q
    cases r with
    | error _ =>
      intro keys rt' heq
      exact absurd (congrArg Prod.fst heq) nofun
    | ok _ =>
      rw [← hcommands.now]
      exact (handleDeadlines_serves (path_books hpath hinv.books) hi).2
  unfold applications deadlineBatch
  simp only
  generalize (drainDeadlineCommandBatch rt.commandRx >>= fun _ => handleDeadlines) rt = q at hlead hkeys hserves
  obtain ⟨r, rt₁⟩ := q
  obtain ⟨hb₁, ho₁, hs₁⟩ := path_main (fun _ k hl => Commands.quiet hl k) hlead hinv.books hinv.phase.1 hinv.phase.2
  cases r with
  | error reason => exact batch_exit reason
  | ok keys =>
    have h₁ := hserves keys rt₁ rfl
    cases keys with
    | none => exact h₁.done
    | some keys =>
      have hn : keys.Nodup := (hkeys _ _ rfl keys rfl).nodup hb₁.order_nodup
      have hgroup : ∀ reason scope fresh, (∀ k ∈ keys, scope.contains k = true) → reason ≠ .shutdown →
          Batch rt.now (restartApplications keys fresh (rt₁.startDrain reason scope))
            (resumeRestart keys fresh (rt₁.startDrain reason scope)) := by
        intro reason scope fresh hk hr
        obtain ⟨hbd, hod, hout⟩ := startDrain_restart scope hb₁ ho₁ hs₁ hr
        exact resumeRestart_batch fresh (h₁.writes (startDrain_wends reason scope).1.writes) hbd hod hout hn hk
      simp only
      split
      · exact hgroup .groupRestart .all true (fun _ _ => rfl) (by decide)
      · exact hgroup .restForOneRestart (.subset keys) false (fun _ => subset_contains) (by decide)

theorem drain_batch {p : DrainPhase} {freshGroupToken : Bool} (w : Wake)
    (hinv : Machine.Inv ⟨rt, .drain p (.restart keys freshGroupToken)⟩) (h : InBatch t₀ keys rt) :
    Batch t₀ (applications ⟨rt, .drain p (.restart keys freshGroupToken)⟩ w)
      (wake ⟨rt, .drain p (.restart keys freshGroupToken)⟩ w) := by
  obtain ⟨hw, hb₁, ho₁, hout⟩ := @drainWake_restart (fun _ => False) rt p keys freshGroupToken w hinv.books hinv.phase
  have hB := resumeRestart_batch freshGroupToken (h.writes hw) hb₁ ho₁ hout hinv.phase.2.2.1 hinv.phase.2.2.2
  show Batch t₀ _ (wakeDrain rt p (.restart keys freshGroupToken) w)
  rw [wakeDrain_eq]
  exact hB

/-! ## Runs -/

def Phase.restarting : Phase → Bool
  | .drain _ (.restart _ _) => true
  | _ => false

instance (p : Phase) : Decidable (p = .main) :=
  match p with
  | .main => isTrue rfl
  | .deadlineYield | .drain _ _ | .exited _ => isFalse nofun

instance (p : Phase) : Decidable (p = .deadlineYield) :=
  match p with
  | .deadlineYield => isTrue rfl
  | .main | .drain _ _ | .exited _ => isFalse nofun

/-- The inputs arrive while the drain of a group restart awaits. -/
def awaitsRestart : Machine → List Input → Bool
  | _, [] => true
  | m, i :: is => m.phase.restarting && awaitsRestart (step m i) is

theorem run_batch (inputs : List Input) : ∀ {m : Machine} {apps : List Application}, m.Inv → Batch t₀ apps m → awaitsRestart m inputs = true →
    (run m inputs).phase = .main → BatchDone t₀ (apps ++ runApplications m inputs) (run m inputs).rt := by
  induction inputs with
  | nil =>
    intro m apps _ h _ hp
    unfold Batch at h
    rw [show m.phase = .main from hp] at h
    rw [runApplications, List.append_nil]
    exact h
  | cons i is ih =>
    intro m apps hinv h haw hp
    obtain ⟨rt, phase⟩ := m
    obtain ⟨hphase, haw⟩ := Bool.and_eq_true_iff.mp haw
    have hinv' := (step_inv i hinv).1
    cases phase with
    | drain p k =>
      cases k with
      | restart keys fresh =>
        cases i with
        | env e =>
          have h₁ : InBatch t₀ keys { rt with now := (rt.env e).now } := ⟨h.idle, h.removals, h.restarts⟩
          exact ih hinv' (h₁.works (env_works e)) haw hp
        | wake w =>
          have hrest := ih hinv' (drain_batch w hinv h) haw hp
          exact ⟨hrest.removals, hrest.asked.mono (List.subset_append_right ..)⟩
      | shutdown _ => cases hphase
    | _ => cases hphase

/-- A batch, from the wake at its yield to the main loop, leaves no removal that is due and
    only the restarts that its deferred exits asked for. -/
theorem batch_done (hinv : m.Inv) (hs : m.Staffed) (hp : m.phase = .deadlineYield) (hw : m.rt.Waiting)
    {more : List Input} (haw : awaitsRestart (step m (.wake .resumed)) more = true) (hmain : (run m (.wake .resumed :: more)).phase = .main) :
    BatchDone m.rt.now (runApplications m (.wake .resumed :: more)) (run m (.wake .resumed :: more)).rt := by
  obtain ⟨rt, phase⟩ := m
  subst hp
  have hidle : (drainDeadlineCommandBatch rt.commandRx rt).2.Idle := by
    have hworks := drainDeadlineCommandBatch_works (A := fun _ => True) trivial rt.commandRx rfl fun _ => trivial
    have hkeep := drainDeadlineCommandBatch_keeps rt.commandRx hinv.books hinv.phase.1 hs.dynamic (hs.fit nofun) rfl
    have hpath := drainDeadlineCommandBatch_leads rt.commandRx hinv.phase.1
    exact idle_of_busy (hw.works hworks) (path_books hpath hinv.books) (hkeep.2 (hs.busy nofun))
  exact run_batch more (step_inv _ hinv).1 (deadlineBatch_batch hinv hidle) haw hmain

end InBatch

/-- The deadline reported is one of some child. -/
theorem earliestDeadline_entry {rt : SupervisorRuntime} {d : Instant} (h : rt.earliestDeadline = some d) :
    ∃ key e, rt.children.get key = some e ∧
      (e.pendingRemoval.bind removalDeadline = some d ∨ e.runtime.nextRestartDeadline = some d) := by
  have hmem := List.reduceOption_mem_iff.mp (List.min?_mem h)
  obtain ⟨⟨key, e⟩, hiter, hd⟩ := List.mem_flatMap.mp hmem
  refine ⟨key, e, Slab.mem_iter.mp hiter, ?_⟩
  simpa [eq_comm] using hd

/-- No deadline is served in vain. A child with a restart deadline is always active and
    stopped. A batch begins at `deadlineYield` and ends in the main loop, with or without
    the drain of a group restart: of the deadlines that `earliest_deadline` then looks
    at, those of removals are later than the instant the batch began at, and so are those
    of restarts, but for what the policies of deferred exits scheduled meanwhile. -/
theorem deadlines_progress (c : SupervisorConfig) (b : Binding) (inputs : List Input) {m : Machine}
    (hm : m = run (start c b) inputs) :
    (∀ key e d, m.rt.children.get key = some e → e.runtime.nextRestartDeadline = some d →
      e.membership = .active ∧ e.runtime.state = .stopped) ∧
    ∀ more m', m.phase = .deadlineYield → m' = run m (.wake .resumed :: more) → awaitsRestart (step m (.wake .resumed)) more = true →
      m'.phase = .main →
      (∀ key e d, m'.rt.children.get key = some e →
        (e.pendingRemoval.bind removalDeadline = some d → m.rt.now < d) ∧
        (e.runtime.nextRestartDeadline = some d →
          m.rt.now < d ∨ ∃ x ∈ runApplications m (.wake .resumed :: more), x.Restarts e.lineage d)) ∧
      ∀ d, m'.rt.earliestDeadline = some d → m.rt.now < d ∨
        ∃ key e, m'.rt.children.get key = some e ∧ e.runtime.nextRestartDeadline = some d ∧
          ∃ x ∈ runApplications m (.wake .resumed :: more), x.Restarts e.lineage d := by
  have hinv : (start c b).Inv := run_inv c b []
  subst hm
  refine ⟨fun key e d he hd => deadline_stopped c b inputs he hd, fun more m' hp hm' haw hmain => ?_⟩
  subst hm'
  have hdone := batch_done (run_inv c b inputs) (run_staffed inputs hinv (start_staffed c b).1).1 hp (run_waiting c b inputs) haw hmain
  refine ⟨fun key e d he => ⟨hdone.removals key e d he, hdone.asked key e d he⟩, fun d hd => ?_⟩
  obtain ⟨key, e, he, hd⟩ := earliestDeadline_entry hd
  rcases hd with hd | hd
  · exact .inl (hdone.removals key e d he hd)
  · exact (hdone.asked key e d he hd).imp_right fun hx => ⟨key, e, he, hd, hx⟩

/-- Three children that are restarted without delay, each with those after it. -/
def restOf : SupervisorConfig where
  host := pair.host
  strategy := .restForOne
  kind := .ordered
  defaultChildRestart := .default
  defaultChildShutdown := .default
  children := ["a", "b", "c"].map fun id => { id := id, restart := .always 5 (secs 30) .none }
  ids_nodup := by decide
  ids_nonempty := by decide

/-- The second child fails; while its suffix drains, the first one fails as well. -/
def failsInDrain : List Input :=
  [.env (.conclude 1 .panicked), .env (.settle 1), .wake (.joined 1), .env (.conclude 3 .panicked), .env (.settle 3), .wake (.joined 3)]

/-- The batch leaves the restart that the deferred exit scheduled, and no other. -/
theorem deadlines_progress_deferred :
    let m := run (start restOf rootBinding) [.env (.conclude 2 .panicked), .env (.settle 2), .wake (.joined 2), .wake .deadline]
    let m' := run m (.wake .resumed :: failsInDrain)
    m'.rt.earliestDeadline = some m.rt.now ∧ ∃ key e, m'.rt.children.get key = some e ∧
      e.runtime.nextRestartDeadline = some m.rt.now ∧
        ∃ x ∈ runApplications m (.wake .resumed :: failsInDrain), x.Restarts e.lineage m.rt.now := by
  intro m m'
  have hdue : m'.rt.earliestDeadline = some m.rt.now := by decide +kernel
  have hyield : m.phase = .deadlineYield := by decide +kernel
  have hmain : m'.phase = .main := by decide +kernel
  have hdrain : awaitsRestart (step m (.wake .resumed)) failsInDrain = true := by decide +kernel
  refine ⟨hdue, ?_⟩
  have hprogress := (deadlines_progress restOf rootBinding _ rfl).2 failsInDrain m' hyield rfl hdrain hmain
  rcases hprogress.2 m.rt.now hdue with hlt | hx
  · exact absurd hlt (Nat.lt_irrefl _)
  · exact hx

end Kokage.Supervisor

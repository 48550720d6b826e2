/-
  Kokage.Supervisor.Readiness — when a readiness message is not lost.

  A child reports readiness on a channel that only the main loop reads, while its exit
  may be consumed in the main loop or in any drain. Where the exit of a generation is
  consumed with its message still waiting, the startup verdict on that generation is
  taken from a flag the message has not set yet; there is none as long as the policy
  restarts the child. In every run without a join that overtakes a message in this way,
  no generation with a timely message is flagged, shown or blamed as a startup abort.
-/

import Kokage.Supervisor.Snapshots

namespace Kokage.Supervisor

open Kokage.Lib Ledger SupervisorRuntime

/-! ## How a step changes a member -/

namespace Ledger

/-- What one step does to the member under `key`. -/
inductive Change (L : Ledger) (l : Label) (key : ChildKey) : Member → Member → Prop
  | same {m : Member} : Change L l key m m
  | spawned {m : Member} {task : TaskId} : l = .spawned key → m.state.isIdle = true → Change L l key m (m.spawn task)
  | ready {m : Member} : m.state = .starting → L.gate ≠ some ⟨key, m.lineage, m.generation⟩ → Change L l key m m.ready
  | exited {m : Member} {x : ExitStatus} : l = .exited ⟨key, m.lineage, m.generation⟩ x.kind.isFailure →
      m.isActive = true → Change L l key m (m.exit x)
  | stopped {m : Member} : m.isActive = true → Change L l key m { m with state := .stopping }
  | removing {m : Member} : Change L l key m m.remove
  | queued {m : Member} : m.state.isIdle = true → ¬ (m.hasStarted = true ∧ m.definition.restart.isNever = true) →
      Change L l key m m.queue
  | flagged {m : Member} : L.running = true → m.Doomed → Change L l key m { m with startupAborted := true }

variable {L L' : Ledger} {key : ChildKey} {m m' : Member} {l : Label}

/-- Every member of the next ledger is a member changed, or is new. -/
theorem step_change (hs : Step l L L') (hb : L.Books) {k : ChildKey} {m' : Member} (hm : L'.members.get k = some m') :
    (∃ m, L.members.get k = some m ∧ Change L l k m m') ∨ m'.Fresh L.nextLineage := by
  have hput : ∀ {key m x} {L'' : Ledger}, L''.members = L.members.insertAt key x → L.members.get key = some m →
      Change L l key m x → L''.members.get k = some m' → ∃ m, L.members.get k = some m ∧ Change L l k m m' := by
    intro key m x L'' hL hget hc hm
    rw [hL, Slab.get_insertAt] at hm
    split at hm
    · rename_i hk
      cases hm
      exact ⟨m, hk ▸ hget, hk ▸ hc⟩
    · exact ⟨m', hm, .same⟩
  cases hs with
  | added hget _ hf _ =>
    rename_i key m d _ _
    have hm : (L.members.insertAt key m).get k = some m' := hm
    rw [Slab.get_insertAt] at hm
    split at hm
    · cases hm
      exact .inr hf
    · exact .inl ⟨m', hm, .same⟩
  | removed hget _ =>
    rename_i key m d _
    have hm : (L.members.remove key).get k = some m' := hm
    rw [Slab.get_remove] at hm
    split at hm
    · cases hm
    · exact .inl ⟨m', hm, .same⟩
  | spawned hget _ hidle => exact .inl (hput rfl hget (.spawned rfl hidle) hm)
  | spawnedReady hget _ hidle => exact .inl (hput rfl hget (.spawned rfl hidle) hm)
  | refused hget href => exact absurd href (hb.accepted _ _ hget)
  | received _ hc _ hst hg _ =>
    refine .inl (hput rfl hc.1 (.ready hst ?_) hm)
    rw [hc.2.1, hc.2.2]
    exact hg
  | exited ht hc _ =>
    refine .inl (hput rfl hc.1 (.exited ?_ (active_of_record hb ht hc).1) hm)
    rw [hc.2.1, hc.2.2]
  | stopped hget hact => exact .inl (hput rfl hget (.stopped hact) hm)
  | removing hget => exact .inl (hput rfl hget .removing hm)
  | queued hget _ hidle hq => exact .inl (hput rfl hget (.queued hidle hq) hm)
  | flagged hrun hget hd => exact .inl (hput rfl hget (.flagged hrun hd) hm)
  | _ => exact .inl ⟨m', hm, .same⟩

theorem Change.lineage (h : Change L l key m m') : m'.lineage = m.lineage := by
  cases h <;> rfl

theorem Change.hasStarted (h : Change L l key m m') (hst : m.hasStarted = true) : m'.hasStarted = true := by
  cases h with
  | spawned => rfl
  | _ => exact hst

/-- Only a spawn starts a generation, and it is a later one. -/
theorem Change.generation (h : Change L l key m m') (hst : m.hasStarted = true) :
    m'.generation = m.generation ∧ (m.isActive = false → m'.isActive = false) ∨
      m'.generation = m.generation + 1 := by
  cases h with
  | same => exact .inl ⟨rfl, id⟩
  | spawned =>
    refine .inr ?_
    show (if m.hasStarted = true then m.generation + 1 else m.generation) = _
    rw [if_pos hst]
  | ready hs =>
    refine .inl ⟨rfl, fun hact => ?_⟩
    rw [Member.isActive_eq hs] at hact
    cases hact
  | exited => exact .inl ⟨rfl, fun _ => rfl⟩
  | stopped hact =>
    refine .inl ⟨rfl, fun h => ?_⟩
    rw [hact] at h
    cases h
  | removing =>
    refine .inl ⟨rfl, fun hact => ?_⟩
    have hact : m.state.isActive = false := hact
    show (if m.state.isActive = true then RuntimeChildState.stopping else m.state).isActive = false
    rw [hact]
    exact hact
  | queued => exact .inl ⟨rfl, fun _ => rfl⟩
  | flagged => exact .inl ⟨rfl, id⟩

theorem step_nextLineage (hs : Step l L L') : L.nextLineage ≤ L'.nextLineage := by
  cases hs with
  | added => exact Nat.le_succ _
  | _ => exact Nat.le_refl _

/-! ## Generations that are over -/

/-- The generation has no task and will never have one again. -/
def Spent (L : Ledger) (lineage generation : Nat) : Prop :=
  lineage < L.nextLineage ∧ ∀ k m, L.members.get k = some m → m.lineage = lineage →
    m.hasStarted = true ∧ (generation < m.generation ∨ generation = m.generation ∧ m.isActive = false)

theorem step_spent {lineage generation : Nat} (hs : Step l L L') (hb : L.Books) (h : L.Spent lineage generation) :
    L'.Spent lineage generation := by
  obtain ⟨hlt, hall⟩ := h
  refine ⟨Nat.lt_of_lt_of_le hlt (step_nextLineage hs), fun k m' hm' hl => ?_⟩
  rcases step_change hs hb hm' with ⟨m, hm, hc⟩ | hf
  · obtain ⟨hst, hgen⟩ := hall k m hm (hc.lineage.symm.trans hl)
    refine ⟨hc.hasStarted hst, ?_⟩
    rcases hc.generation hst with ⟨hg, hact⟩ | hg
    · rw [hg]
      exact hgen.imp_right fun ⟨he, hi⟩ => ⟨he, hact hi⟩
    · refine .inl ?_
      rcases hgen with hgen | ⟨hgen, -⟩
      · omega
      · omega
  · rw [hf.lineage_eq] at hl
    omega

/-! ## Flags -/

/-- A member's flags fit its state. -/
structure Sound (m : Member) : Prop where
  running : m.state = .running → m.hasReportedReady = true
  aborted : m.startupAborted = true → m.isActive = false ∧ m.hasStarted = true

theorem Doomed.inactive (h : m.Doomed) : m.isActive = false := by
  rcases h.2.2.2 with ⟨hs, -⟩ | hs
  · exact Member.isActive_eq hs
  · exact hs.1

theorem Change.sound (h : Change L l key m m') (hm : Sound m) : Sound m' := by
  have hinactive : m.isActive = true → m.startupAborted = true → False := by
    intro hact ha
    rw [(hm.aborted ha).1] at hact
    cases hact
  cases h with
  | same => exact hm
  | spawned =>
    refine ⟨fun hst => ?_, nofun⟩
    have hst : (if m.definition.readiness = .immediate then RuntimeChildState.running else .starting) = .running := hst
    split at hst
    · rename_i hi
      exact decide_eq_true hi
    · cases hst
  | ready hst =>
    exact ⟨fun _ => rfl, fun ha => (hinactive (Member.isActive_eq hst) ha).elim⟩
  | exited _ hact => exact ⟨nofun, fun ha => (hinactive hact ha).elim⟩
  | stopped hact => exact ⟨nofun, fun ha => (hinactive hact ha).elim⟩
  | removing =>
    refine ⟨fun hst => ?_, fun ha => ⟨?_, (hm.aborted ha).2⟩⟩
    · have hst : (if m.state.isActive = true then RuntimeChildState.stopping else m.state) = .running := hst
      split at hst
      · cases hst
      · exact hm.running hst
    · have hact : m.state.isActive = false := (hm.aborted ha).1
      show (if m.state.isActive = true then RuntimeChildState.stopping else m.state).isActive = false
      rw [hact]
      exact hact
  | queued => exact ⟨nofun, fun ha => ⟨rfl, (hm.aborted ha).2⟩⟩
  | flagged _ hd => exact ⟨hm.running, fun _ => ⟨Doomed.inactive hd, hd.2.2.1⟩⟩

theorem step_sound (hs : Step l L L') (hb : L.Books) (h : ∀ k m, L.members.get k = some m → Sound m) :
    ∀ k m, L'.members.get k = some m → Sound m := by
  intro k m' hm'
  rcases step_change hs hb hm' with ⟨m, hm, hc⟩ | hf
  · exact hc.sound (h k m hm)
  · refine ⟨fun hst => ?_, fun ha => ?_⟩
    · rw [hf.state_eq] at hst
      cases hst
    · rw [hf.startupAborted_eq] at ha
      cases ha

/-! ## The gate -/

/-- The gate waits for the current generation of a gated child that has not reported. -/
def Gated (L : Ledger) : Prop :=
  ∀ g, L.gate = some g → g.lineage < L.nextLineage ∧ ∀ m, L.members.get g.key = some m → m.lineage = g.lineage →
    m.generation = g.generation ∧ m.definition.readiness.isGated = true ∧ m.hasReportedReady = false ∧ m.hasStarted = true

/-- While the gate stays and nobody is spawned. -/
theorem Gated.keep (h : L.Gated) (hs : Step l L L') (hb : L.Books) (hg : L'.gate = L.gate)
    (hl : ∀ k, l ≠ .spawned k) : L'.Gated := by
  intro g hg'
  rw [hg] at hg'
  obtain ⟨hlt, hall⟩ := h g hg'
  refine ⟨Nat.lt_of_lt_of_le hlt (step_nextLineage hs), fun m' hm' hlin => ?_⟩
  rcases step_change hs hb hm' with ⟨m, hm, hc⟩ | hf
  · have hold := hall m hm (hc.lineage.symm.trans hlin)
    cases hc with
    | spawned hs => exact absurd hs (hl _)
    | ready _ hne =>
      refine absurd ?_ hne
      have hlin : m.lineage = g.lineage := hlin
      rw [hg', hlin, hold.1]
    | queued => exact ⟨hold.1, hold.2.1, rfl, hold.2.2.2⟩
    | _ => exact hold
  · rw [hf.lineage_eq] at hlin
    omega

theorem Gated.spawn {task : TaskId} (h : L.Gated) (hget : L.members.get key = some m)
    (hm : ∀ k, L'.members.get k = if k = key then some (m.spawn task) else L.members.get k)
    (hn : L'.nextLineage = L.nextLineage) (hg : L'.gate = regate L.gate key (m.spawn task)) : L'.Gated := by
  intro g' hg'
  rw [hg] at hg'
  obtain ⟨g, hg0, he⟩ := Option.map_eq_some_iff.mp hg'
  obtain ⟨hlt, hall⟩ := h g hg0
  split at he
  · rename_i hsame
    obtain ⟨hk, hl⟩ := hsame
    subst he
    refine ⟨hn ▸ hlt, fun m' hm' _ => ?_⟩
    have hm' : L'.members.get g.key = some m' := hm'
    rw [hm, if_pos hk] at hm'
    cases hm'
    obtain ⟨-, hready, -⟩ := hall m (hk ▸ hget) hl.symm
    refine ⟨rfl, hready, decide_eq_false fun hi => ?_, rfl⟩
    rw [hi] at hready
    cases hready
  · rename_i hne
    subst he
    refine ⟨hn ▸ hlt, fun m' hm' hl => ?_⟩
    rw [hm] at hm'
    split at hm'
    · rename_i hk
      cases hm'
      exact absurd ⟨hk, hl.symm⟩ hne
    · exact hall m' hm' hl

/-- The gate stays, follows a spawn, or is set. -/
theorem step_gate (hs : Step l L L') (hb : L.Books) :
    (L'.gate = L.gate ∧ ∀ k, l ≠ .spawned k) ∨
      (∃ key m task, L.members.get key = some m ∧ L.Sets key (m.spawn task) L' ∧ L'.nextLineage = L.nextLineage ∧
        L'.gate = regate L.gate key (m.spawn task)) ∨
      (L'.members = L.members ∧ L'.nextLineage = L.nextLineage ∧
        ∀ g, L'.gate = some g → L.gate = some g ∨ ∃ m, L.Current ⟨g.key, g.lineage, g.generation⟩ m ∧
          m.definition.readiness.isGated = true ∧ m.hasReportedReady = false ∧ m.hasStarted = true ∧ m.isActive = true) := by
  cases hs with
  | spawned hget => exact .inr (.inl ⟨_, _, _, hget, fun k => Slab.get_insertAt .., rfl, rfl⟩)
  | spawnedReady hget => exact .inr (.inl ⟨_, _, _, hget, fun k => Slab.get_insertAt .., rfl, rfl⟩)
  | refused hget href => exact absurd href (hb.accepted _ _ hget)
  | gated gate hg => exact .inr (.inr ⟨rfl, rfl, fun g h => (hg g h).imp_right And.right⟩)
  | _ => exact .inl ⟨rfl, nofun⟩

theorem step_gated (hs : Step l L L') (hb : L.Books) (h : L.Gated) : L'.Gated := by
  rcases step_gate hs hb with ⟨hg, hl⟩ | ⟨key, m, task, hget, hm, hn, hg⟩ | ⟨hm, hn, hg⟩
  · exact h.keep hs hb hg hl
  · exact h.spawn hget hm hn hg
  · intro g hg'
    rw [hm, hn]
    rcases hg g hg' with hold | ⟨m, hc, hready⟩
    · exact h g hold
    · obtain ⟨hgated, hunready, hst, -⟩ := hready
      have hl : m.lineage = g.lineage := hc.2.1
      refine ⟨hl ▸ hb.lineage_lt g.key m hc.1, fun m' hm' _ => ?_⟩
      have hget : L.members.get g.key = some m := hc.1
      rw [hget] at hm'
      cases hm'
      exact ⟨hc.2.2, hgated, hunready, hst⟩

/-- The start gate is held for this membership. -/
def AtGate (L : Ledger) (t : TaskMeta) : Prop := ∃ g, L.gate = some g ∧ g.key = t.key ∧ g.lineage = t.lineage

/-- The gate closes on a child that runs. -/
theorem step_atGate (hs : Step l L L') (hb : L.Books) {t : TaskMeta} (hc : L'.Current t m') (hact : m'.isActive = false)
    (h : L'.AtGate t) : L.AtGate t := by
  obtain ⟨g', hg', hk, hl⟩ := h
  rcases step_gate hs hb with ⟨hg, -⟩ | ⟨key, m, task, -, -, -, hg⟩ | ⟨hm, -, hg⟩
  · exact ⟨g', hg ▸ hg', hk, hl⟩
  · rw [hg] at hg'
    obtain ⟨g, hg0, he⟩ := Option.map_eq_some_iff.mp hg'
    refine ⟨g, hg0, ?_, ?_⟩
    · rw [← hk, ← he]
      split <;> rfl
    · rw [← hl, ← he]
      split <;> rfl
  · rcases hg g' hg' with hold | ⟨m, hm', -, -, -, hrun⟩
    · exact ⟨g', hold, hk, hl⟩
    · have hget := hc.1
      rw [hm, ← hk, hm'.1] at hget
      cases hget
      rw [hrun] at hact
      cases hact

/-! ## Timely messages -/

/-- A timely message is of a generation that has been spawned. -/
def Sent (L : Ledger) : Prop :=
  ∀ r ∈ L.timelyReady, r.lineage < L.nextLineage ∧ ∀ k m, L.members.get k = some m → m.lineage = r.lineage →
    k = r.key ∧ m.hasStarted = true ∧ r.generation ≤ m.generation

/-- The message a step adds, if any, is of a starting child and waits to be received. -/
theorem step_timely (hs : Step l L L') {r : ChildReady} (hr : r ∈ L'.timelyReady) :
    r ∈ L.timelyReady ∨ L'.members = L.members ∧ (∃ m, L.Current r m ∧ m.state = .starting) ∧ r ∈ L'.readyRx := by
  cases hs with
  | sent r' timely _ ht =>
    have hr : r ∈ if timely = true then L.timelyReady ++ [r'] else L.timelyReady := hr
    split at hr
    · rename_i htimely
      rcases List.mem_append.mp hr with hr | hr
      · exact .inl hr
      · rw [List.mem_singleton] at hr
        subst hr
        exact .inr ⟨rfl, ht htimely, List.mem_append_right _ (List.mem_singleton.mpr rfl)⟩
    · exact .inl hr
  | _ => exact .inl hr

theorem active_of_starting (h : m.state = .starting) : m.isActive = true := Member.isActive_eq h

theorem step_sent (hs : Step l L L') (hb : L.Books) (h : L.Sent) : L'.Sent := by
  intro r hr
  rcases step_timely hs hr with hr | ⟨hmem, ⟨m, hc, hst⟩, -⟩
  · obtain ⟨hlt, hall⟩ := h r hr
    refine ⟨Nat.lt_of_lt_of_le hlt (step_nextLineage hs), fun k m' hm' hl => ?_⟩
    rcases step_change hs hb hm' with ⟨m, hm, hc⟩ | hf
    · obtain ⟨hk, hst, hgen⟩ := hall k m hm (hc.lineage.symm.trans hl)
      refine ⟨hk, hc.hasStarted hst, ?_⟩
      rcases hc.generation hst with ⟨hg, -⟩ | hg
      · omega
      · omega
    · rw [hf.lineage_eq] at hl
      omega
  · refine ⟨Nat.lt_of_lt_of_le (hc.2.1 ▸ hb.lineage_lt r.key m hc.1) (step_nextLineage hs), fun k x hx hl => ?_⟩
    rw [hmem] at hx
    have hk := hb.lineage_inj k x r.key m hx hc.1 (hl.trans hc.2.1.symm)
    subst hk
    rw [hc.1] at hx
    cases hx
    exact ⟨rfl, hb.started _ _ hc.1 (active_of_starting hst), Nat.le_of_eq hc.2.2.symm⟩

/-- The message of the member's current generation has been received, or waits while the
    child runs, or the child is queued for its next start or going to be restarted. -/
def Heard (L : Ledger) (r : ChildReady) (m : Member) : Prop :=
  m.hasReportedReady = true ∨ (m.isActive = true ∧ r ∈ L.readyRx) ∨
    (m.state = .startQueued ∧ ¬ (m.hasStarted = true ∧ m.definition.restart.isNever = true)) ∨
    (m.state = .stopped ∧ m.Revives ∧ ¬ L.AtGate r)

/-- While the scope runs, no timely message of a child that stays is lost. -/
def Kept (L : Ledger) : Prop :=
  L.running = true → ∀ r ∈ L.timelyReady, ∀ m, L.Current r m → m.membership ≠ .removing → L.Heard r m

/-- What is heard of is not doomed. -/
theorem Heard.not_doomed {r : ChildReady} (h : L.Heard r m) : ¬ m.Doomed := by
  intro hd
  rcases h with h | ⟨h, -⟩ | ⟨hq, h⟩ | ⟨-, hr, -⟩
  · rw [hd.2.1] at h
    cases h
  · rw [Doomed.inactive hd] at h
    cases h
  · rcases hd.2.2.2 with ⟨hs, -⟩ | hs
    · rw [hq] at hs
      cases hs
    · exact h ⟨hd.2.2.1, hs.2⟩
  · rcases hd.2.2.2 with ⟨-, hs⟩ | hs
    · exact hs hr
    · obtain ⟨failed, -, hr⟩ := hr
      rw [RestartPolicy.not_never hr] at hs
      cases hs.2

/-- How a step treats the waiting messages. -/
theorem step_readyRx (hs : Step l L L') (hb : L.Books) (hsound : ∀ k m, L.members.get k = some m → Sound m) {r : ChildReady}
    (hr : r ∈ L.readyRx) : r ∈ L'.readyRx ∨ ∀ m, L'.Current r m → m.membership = .removing ∨ m.hasReportedReady = true ∨
      m.isActive = false := by
  cases hs with
  | sent => exact .inl (List.mem_append_left _ hr)
  | received hrx hc hm hst hg hd =>
    rename_i r' rest x d
    rw [hrx] at hr
    rcases List.mem_cons.mp hr with rfl | hr
    · refine .inr fun m hm' => .inr (.inl ?_)
      have hget := hm'.1
      have hget : (L.put r.key x.ready).members.get r.key = some m := hget
      rw [get_put, if_pos rfl] at hget
      cases hget
      rfl
    · exact .inl hr
  | dropped hrx hd =>
    rw [hrx] at hr
    rcases List.mem_cons.mp hr with rfl | hr
    · refine .inr fun m hm => ?_
      have hc : L.Current _ m := hm
      cases hmem : m.membership with
      | removing => exact .inl rfl
      | removed => exact absurd hmem (hb.present _ m hc.1)
      | active =>
        obtain ⟨h1, h2⟩ := hd m hc hmem
        cases hst : m.state with
        | running => exact .inr (.inl ((hsound _ m hc.1).running hst))
        | starting => exact absurd hst h1
        | stopping => exact absurd hst h2
        | startQueued => exact .inr (.inr (Member.isActive_eq hst))
        | stopped => exact .inr (.inr (Member.isActive_eq hst))
    · exact .inl hr
  | _ => exact .inl hr

theorem step_running (hs : Step l L L') (h : L'.running = true) : L.running = true := by
  cases hs with
  | shutdown => cases h
  | _ => exact h

/-- The join that loses a message: the exit of a generation that stays is consumed while
    its message, sent in time, still waits; and the policy does not restart the child, or
    the start gate is held for it. -/
def Overtakes (L : Ledger) (t : TaskMeta) (failed : Bool) : Prop :=
  L.running = true ∧ t ∈ L.readyRx ∧ t ∈ L.timelyReady ∧ ∃ m, L.Current t m ∧ m.membership ≠ .removing ∧
    (m.definition.restart.shouldRestart failed = true → L.AtGate t)

theorem Change.membership (h : Change L l key m m') (hm : m'.membership ≠ .removing) : m.membership ≠ .removing := by
  cases h with
  | removing => exact absurd rfl hm
  | _ => exact hm

/-- A change of the current generation that does not overtake its message. -/
theorem Heard.change {r : ChildReady} (hc : Change L l r.key m m') (hold : L.Heard r m)
    (hgen : m'.generation = m.generation) (hst : m.hasStarted = true) (hm' : m'.membership ≠ .removing)
    (hrx : m'.isActive = true → r ∈ L.readyRx → r ∈ L'.readyRx ∨ m'.hasReportedReady = true)
    (hgate : m'.isActive = false → L'.AtGate r → L.AtGate r)
    (hexit : ∀ failed, l = .exited ⟨r.key, m.lineage, m.generation⟩ failed → r ∈ L.readyRx →
      m.definition.restart.shouldRestart failed = true ∧ ¬ L.AtGate r) : L'.Heard r m' := by
  cases hc with
  | same =>
    rcases hold with h | ⟨hact, h⟩ | h | ⟨hs, hr, hg⟩
    · exact .inl h
    · rcases hrx hact h with h | h
      · exact .inr (.inl ⟨hact, h⟩)
      · exact .inl h
    · exact .inr (.inr (.inl h))
    · exact .inr (.inr (.inr ⟨hs, hr, fun h => hg (hgate (Member.isActive_eq hs) h)⟩))
  | spawned =>
    have hgen : (if m.hasStarted = true then m.generation + 1 else m.generation) = m.generation := hgen
    rw [if_pos hst] at hgen
    omega
  | ready => exact .inl rfl
  | @exited x hl hact =>
    rcases hold with h | ⟨-, h⟩ | ⟨hs, -⟩ | ⟨hs, -⟩
    · exact .inl h
    · obtain ⟨hr, hg⟩ := hexit _ hl h
      exact .inr (.inr (.inr ⟨rfl, ⟨_, ⟨x, rfl, rfl⟩, hr⟩, fun h => hg (hgate rfl h)⟩))
    · exact absurd hs (isActive_ne hact).1
    · exact absurd hs (isActive_ne hact).2
  | stopped hact =>
    rcases hold with h | ⟨-, h⟩ | ⟨hs, -⟩ | ⟨hs, -⟩
    · exact .inl h
    · rcases hrx rfl h with h | h
      · exact .inr (.inl ⟨rfl, h⟩)
      · exact .inl h
    · exact absurd hs (isActive_ne hact).1
    · exact absurd hs (isActive_ne hact).2
  | removing => exact absurd rfl hm'
  | queued _ hq => exact .inr (.inr (.inl ⟨rfl, hq⟩))
  | flagged _ hd => exact absurd hd hold.not_doomed

/-- The current generation of a timely message was current before the step too. -/
theorem timely_current (hs : Step l L L') (hb : L.Books) (hsent : L.Sent) {r : ChildReady} (hr : r ∈ L.timelyReady)
    (hc' : L'.Current r m') : ∃ m, L.Current r m ∧ Change L l r.key m m' ∧ m'.generation = m.generation ∧
      m.hasStarted = true := by
  obtain ⟨hget', hl', hg'⟩ := hc'
  obtain ⟨hlt, hall⟩ := hsent r hr
  rcases step_change hs hb hget' with ⟨m, hm, hc⟩ | hf
  · have hl := hc.lineage.symm.trans hl'
    obtain ⟨-, hst, hle⟩ := hall _ m hm hl
    rcases hc.generation hst with ⟨hg, -⟩ | hg
    · exact ⟨m, ⟨hm, hl, hg.symm.trans hg'⟩, hc, hg, hst⟩
    · omega
  · rw [hf.lineage_eq] at hl'
    omega

theorem step_kept (hs : Step l L L') (hb : L.Books) (hsound : ∀ k m, L.members.get k = some m → Sound m) (hsent : L.Sent)
    (hno : ∀ t failed, l = .exited t failed → ¬ L.Overtakes t failed) (h : L.Kept) : L'.Kept := by
  intro hrun' r hr m' hc' hm'
  have hrun := step_running hs hrun'
  rcases step_timely hs hr with hr | ⟨hmem, ⟨m, hc, hst⟩, hrx⟩
  · obtain ⟨m, hc, hchange, hgen, hst⟩ := timely_current hs hb hsent hr hc'
    have hm := hchange.membership hm'
    refine (h hrun r hr m hc hm).change hchange hgen hst hm' (fun hact hrx => ?_) (step_atGate hs hb hc')
      fun failed hl hrx => ?_
    · rcases step_readyRx hs hb hsound hrx with hrx | hall
      · exact .inl hrx
      · rcases hall m' hc' with h | h | h
        · exact absurd h hm'
        · exact .inr h
        · rw [hact] at h
          cases h
    · rw [hc.2.1, hc.2.2] at hl
      by_contra hlost
      exact hno r failed hl ⟨hrun, hrx, hr, m, hc, hm, fun hr => by_contra fun hg => hlost ⟨hr, hg⟩⟩
  · have hget := hc'.1
    rw [hmem, hc.1] at hget
    cases hget
    exact .inr (.inl ⟨active_of_starting hst, hrx⟩)

/-! ## Blame -/

/-- A generation that may be called a startup abort: it is over, and sent nothing in time. -/
def Condemned (L : Ledger) (lineage generation : Nat) : Prop :=
  L.Spent lineage generation ∧ ∀ r ∈ L.timelyReady, ¬ (r.lineage = lineage ∧ r.generation = generation)

theorem step_condemned {lineage generation : Nat} (hs : Step l L L') (hb : L.Books) (h : L.Condemned lineage generation) :
    L'.Condemned lineage generation := by
  refine ⟨step_spent hs hb h.1, fun r hr => ?_⟩
  rcases step_timely hs hr with hr | ⟨-, ⟨m, hc, hst⟩, -⟩
  · exact h.2 r hr
  · intro ⟨hl, hg⟩
    obtain ⟨-, hgen⟩ := h.1.2 r.key m hc.1 (hc.2.1.trans hl)
    have hmg := hc.2.2
    rcases hgen with hgen | ⟨-, hact⟩
    · omega
    · rw [active_of_starting hst] at hact
      cases hact

/-- A member that is over and has heard of no message. -/
theorem condemned_of_member (hb : L.Books) (hsent : L.Sent) (hget : L.members.get key = some m) (hst : m.hasStarted = true)
    (hact : m.isActive = false) (hno : ∀ r ∈ L.timelyReady, ¬ L.Current r m) : L.Condemned m.lineage m.generation := by
  refine ⟨⟨hb.lineage_lt key m hget, fun k x hx hl => ?_⟩, fun r hr ⟨hl, hg⟩ => ?_⟩
  · have hk := hb.lineage_inj k x key m hx hget hl
    subst hk
    rw [hget] at hx
    cases hx
    exact ⟨hst, .inr ⟨rfl, hact⟩⟩
  · obtain ⟨-, hall⟩ := hsent r hr
    obtain ⟨hk, -⟩ := hall key m hget hl.symm
    exact hno r hr ⟨hk ▸ hget, hl.symm, hg.symm⟩

structure Unblamed (L : Ledger) : Prop where
  flag : ∀ r ∈ L.timelyReady, ∀ m, L.Current r m → m.startupAborted = false
  verdict : ∀ v ∈ L.verdicts, L.Condemned v.lineage v.generation
  shown : ∀ s ∈ L.published, ∀ c ∈ s.children, ∀ x, c.state = .startupAborted x → L.Condemned c.lineage c.generation

/-- What holds in every run whose joins overtake no message. -/
structure Ready (L : Ledger) : Prop where
  sound : ∀ k m, L.members.get k = some m → Sound m
  gated : L.Gated
  sent : L.Sent
  kept : L.Kept
  unblamed : L.Unblamed

/-- Nobody doomed has a timely message. -/
theorem Ready.doomed_untimely (h : L.Ready) (hrun : L.running = true) (hd : m.Doomed) :
    ∀ r ∈ L.timelyReady, ¬ L.Current r m :=
  fun r hr hc => (h.kept hrun r hr m hc hd.1).not_doomed hd

theorem Ready.condemned (h : L.Ready) (hb : L.Books) (hrun : L.running = true) (hget : L.members.get key = some m)
    (hd : m.Doomed) : L.Condemned m.lineage m.generation :=
  condemned_of_member hb h.sent hget hd.2.2.1 (Doomed.inactive hd) (h.doomed_untimely hrun hd)

/-- Nor has the gate's child once it has stopped. -/
theorem Ready.condemned_atGate {g : StartGate} (h : L.Ready) (hb : L.Books) (hrun : L.running = true) (hg : L.gate = some g)
    (hget : L.members.get g.key = some m) (hl : m.lineage = g.lineage) (hm : m.membership = .active) (hst : m.state = .stopped) :
    L.Condemned m.lineage m.generation := by
  obtain ⟨-, -, hunready, hstarted⟩ := (h.gated g hg).2 m hget hl
  have hact : m.isActive = false := Member.isActive_eq hst
  refine condemned_of_member hb h.sent hget hstarted hact fun r hr hc => ?_
  rcases h.kept hrun r hr m hc (by rw [hm]; exact nofun) with hready | ⟨hready, -⟩ | ⟨hready, -⟩ | ⟨-, -, hgate⟩
  · rw [hunready] at hready
    cases hready
  · rw [hact] at hready
    cases hready
  · rw [hst] at hready
    cases hready
  · exact hgate ⟨g, hg, hb.lineage_inj _ _ _ _ hget hc.1 rfl, hl.symm.trans hc.2.1⟩

theorem view_startupAborted {x : ExitStatus} (h : m.view = .startupAborted x) : m.startupAborted = true := by
  unfold Member.view at h
  cases hs : m.state with
  | stopped =>
    rw [hs] at h
    simp only at h
    split at h
    · assumption
    · cases h
  | _ =>
    rw [hs] at h
    cases h

/-- A step that blames nobody new. -/
theorem Unblamed.keep (h : L.Unblamed) (hs : Step l L L') (hb : L.Books) (hflag : ∀ r ∈ L'.timelyReady, ∀ m, L'.Current r m →
      m.startupAborted = false)
    (hv : ∀ v ∈ L'.verdicts, v ∈ L.verdicts ∨ L'.Condemned v.lineage v.generation)
    (hp : ∀ s ∈ L'.published, s ∈ L.published ∨ ∀ c ∈ s.children, ∀ x, c.state = .startupAborted x →
      L'.Condemned c.lineage c.generation) : L'.Unblamed := by
  refine ⟨hflag, fun v hv' => ?_, fun s hs' c hc x hx => ?_⟩
  · rcases hv v hv' with hold | hnew
    · exact step_condemned hs hb (h.verdict v hold)
    · exact hnew
  · rcases hp s hs' with hold | hnew
    · exact step_condemned hs hb (h.shown s hold c hc x hx)
    · exact hnew c hc x hx

theorem step_flag (hs : Step l L L') (hb : L.Books) (h : L.Ready) {r : ChildReady} (hr : r ∈ L'.timelyReady)
    (hc' : L'.Current r m') : m'.startupAborted = false := by
  rcases step_timely hs hr with hr | ⟨hmem, ⟨m, hc, hst⟩, -⟩
  · obtain ⟨m, hc, hchange, -, -⟩ := timely_current hs hb h.sent hr hc'
    have hold := h.unblamed.flag r hr m hc
    cases hchange with
    | spawned => rfl
    | flagged hrun hd => exact absurd hc (h.doomed_untimely hrun hd r hr)
    | _ => exact hold
  · have hget := hc'.1
    rw [hmem, hc.1] at hget
    cases hget
    by_contra hne
    have hact := ((h.sound _ _ hc.1).aborted (by simpa using hne)).1
    rw [active_of_starting hst] at hact
    cases hact

theorem step_unblamed (hs : Step l L L') (hb : L.Books) (h : L.Ready) : L'.Unblamed := by
  have hflag : ∀ r ∈ L'.timelyReady, ∀ m, L'.Current r m → m.startupAborted = false :=
    fun r hr m hc => step_flag hs hb h hr hc
  have hold := h.unblamed.keep hs hb hflag
  cases hs with
  | publish s hseq hrows =>
    refine hold (fun v hv => .inl hv) fun s' hs' => ?_
    rcases List.mem_append.mp hs' with hs' | hs'
    · exact .inl hs'
    · refine .inr fun c hc x hx => ?_
      rw [List.mem_singleton.mp hs'] at hc
      have hmem : (c.id, c.lineage, c.generation, c.state) ∈ L.rows := hrows ▸ List.mem_map.mpr ⟨c, hc, rfl⟩
      obtain ⟨k, -, hk⟩ := List.mem_filterMap.mp hmem
      obtain ⟨m, hm, he⟩ := Option.map_eq_some_iff.mp hk
      simp only [Prod.mk.injEq] at he
      obtain ⟨-, hl, hg, hv⟩ := he
      have ha := view_startupAborted (hv.trans hx)
      obtain ⟨hact, hst⟩ := (h.sound k m hm).aborted ha
      have hcond : L.Condemned m.lineage m.generation := by
        refine condemned_of_member hb h.sent hm hst hact fun r hr hc => ?_
        rw [h.unblamed.flag r hr m hc] at ha
        cases ha
      rw [← hl, ← hg]
      exact hcond
  | verdict hrun hget hd =>
    refine hold (fun v hv => ?_) fun s hs => .inl hs
    rcases List.mem_append.mp hv with hv | hv
    · exact .inl hv
    · rw [List.mem_singleton.mp hv]
      exact .inr (h.condemned hb hrun hget hd)
  | verdictAtGate hrun hg hget hl hm hst =>
    rename_i g m
    refine hold (fun v hv => ?_) fun s hs => .inl hs
    rcases List.mem_append.mp hv with hv | hv
    · exact .inl hv
    · rw [List.mem_singleton.mp hv]
      exact .inr (h.condemned_atGate hb hrun hg hget hl hm hst)
  | _ => exact hold (fun v hv => .inl hv) fun s hs => .inl hs

theorem step_ready (hs : Step l L L') (hb : L.Books) (hno : ∀ t failed, l = .exited t failed → ¬ L.Overtakes t failed) (h : L.Ready) : L'.Ready :=
  ⟨step_sound hs hb h.sound, step_gated hs hb h.gated, step_sent hs hb h.sent,
    step_kept hs hb h.sound h.sent hno h.kept, step_unblamed hs hb h⟩

end Ledger

/-! ## Runs -/

/-- The phases that read the join set. -/
def Phase.pollsJoins : Phase → Bool
  | .main => true
  | .drain (.ordered _ (.yielded _)) _ | .drain (.concurrent _ .yield) _ | .drain (.concurrent _ .lastYield) _ => false
  | .drain _ _ => true
  | .deadlineYield | .exited _ => false

/-- The input consumes the exit of a current child that stays, in a running scope, while
    the child's readiness message, sent in time, still waits in `ready_rx`; and the child's
    policy does not restart it, or the start gate is held for it. -/
def overtakes (m : Machine) : Input → Bool
  | .wake (.joined task) =>
    decide (m.rt.state = .running) && m.phase.pollsJoins &&
      (joinable m.rt task).any fun c => (m.rt.taskMap task).any fun t =>
        m.rt.readyRx.contains t && m.rt.timelyReady.contains t &&
          (m.rt.children.get t.key).any fun e => e.lineage = t.lineage && e.runtime.generation = t.generation &&
            decide (e.membership ≠ .removing) && (!e.runtime.definition.restart.shouldRestart (m.rt.exitFails t c) ||
              m.rt.startGate.any fun g => g.key = t.key && g.lineage = t.lineage)
  | _ => false

/-- No join of the run overtakes a readiness message. -/
def hearsInTime : Machine → List Input → Bool
  | _, [] => true
  | m, i :: is => !overtakes m i && hearsInTime (step m i) is

/-- No generation that reported readiness in time is recorded, shown or blamed as a
    startup abort. -/
def ReadinessKept (rt : SupervisorRuntime) : Prop :=
  ∀ r ∈ rt.timelyReady,
    (∀ e, rt.children.get r.key = some e → e.lineage = r.lineage → e.runtime.generation = r.generation →
      e.runtime.startupAborted = false) ∧
    (∀ s ∈ rt.published, ∀ c ∈ s.children, c.lineage = r.lineage → c.generation = r.generation →
      ∀ x, c.state ≠ .startupAborted x) ∧
    Notice.startupAborted r ∉ rt.notices

theorem wake_joined_disabled {m : Machine} {task : TaskId} (h : ¬ (m.phase.pollsJoins = true ∧ (joinable m.rt task).isSome = true)) :
    wake m (.joined task) = m := by
  obtain ⟨rt, phase⟩ := m
  have hnone : phase.pollsJoins = true → joinable rt task = none := by
    intro hp
    cases hj : joinable rt task with
    | none => rfl
    | some c => exact absurd ⟨hp, by rw [hj]; rfl⟩ h
  cases phase with
  | main =>
    unfold wake wakeMain
    simp only [hnone rfl]
  | deadlineYield => rfl
  | exited result => rfl
  | drain p k =>
    -- a drain at one of its yields polls nothing
    have hyield : (Phase.drain p k).pollsJoins = true ∨ wakeDrain rt p k (.joined task) = ⟨rt, .drain p k⟩ := by
      cases p with
      | ordered d w =>
        cases w with
        | yielded key => exact .inr rfl
        | _ => exact .inl rfl
      | concurrent d w =>
        cases w with
        | yield => exact .inr rfl
        | lastYield => exact .inr rfl
        | _ => exact .inl rfl
    rcases hyield with hp | hsame
    · unfold wake wakeDrain
      simp only
      split
      · rfl
      · rfl
      · rfl
      · rename_i hj
        rw [hnone hp] at hj
        cases hj
      · rfl
    · exact hsame

/-- Without an exit no message is overtaken. -/
theorem path_ready {A : Label → Prop} {L L' : Ledger} (hA : ∀ l t failed, A l → l ≠ .exited t failed) (hp : Ledger.Path A L L')
    (hb : L.Books) (h : L.Ready) : L'.Ready := by
  refine (hp.keeps (I := fun L => L.Books ∧ L.Ready) (fun hl hs hL => ?_) ⟨hb, h⟩).2
  exact ⟨step_books hs hL.1, step_ready hs hL.1 (fun t failed ht => absurd ht (hA _ t failed hl)) hL.2⟩

theorem serves_ready {L L' : Ledger} (hp : Ledger.Path Serves L L') (hb : L.Books) (h : L.Ready) : L'.Ready := by
  refine path_ready (fun l t failed hl => ?_) hp hb h
  rintro rfl
  exact hl

/-- What `overtakes` tests is what loses a message. -/
theorem overtakes_of_ledger {m : Machine} {task : TaskId} {t : TaskMeta} {c : Conclusion} (ht : m.rt.taskMap task = some t)
    (hpolls : m.phase.pollsJoins = true) (hc : joinable m.rt task = some c)
    (h : m.rt.ledger.Overtakes t (m.rt.exitFails t c)) : overtakes m (.wake (.joined task)) = true := by
  obtain ⟨hrun, hrx, htimely, x, ⟨hget, hl, hg⟩, hm, hlost⟩ := h
  obtain ⟨e, he, rfl⟩ := get_of_ledger hget
  have hrun : decide (m.rt.state = .running) = true := hrun
  have hrx : m.rt.readyRx.contains t = true := List.contains_iff_mem.mpr hrx
  have htimely : m.rt.timelyReady.contains t = true := List.contains_iff_mem.mpr htimely
  have hl : decide (e.lineage = t.lineage) = true := decide_eq_true hl
  have hg : decide (e.runtime.generation = t.generation) = true := decide_eq_true hg
  have hm : decide (e.membership ≠ .removing) = true := decide_eq_true hm
  have hlost : (!e.runtime.definition.restart.shouldRestart (m.rt.exitFails t c) ||
      m.rt.startGate.any fun g => g.key = t.key && g.lineage = t.lineage) = true := by
    rw [Bool.or_eq_true, Bool.not_eq_true', ← Bool.not_eq_true, ← imp_iff_not_or]
    intro hr
    obtain ⟨g, hgate, hk, hlin⟩ := hlost hr
    have hgate : m.rt.startGate = some g := hgate
    simp [hgate, hk, hlin]
  unfold overtakes
  simp only [hrun, hpolls, hc, ht, hrx, htimely, he, hl, hg, hm, hlost, Option.any_some, Bool.and_self]

theorem step_hears {m : Machine} {i : Input} (hinv : m.Inv) (h : m.rt.ledger.Ready) (hi : overtakes m i = false) :
    (step m i).rt.ledger.Ready := by
  have hadv := (step_inv i hinv).2
  cases i with
  | env e => exact serves_ready hadv hinv.books h
  | wake w =>
    rcases hadv with hadv | ⟨task, t, c, L, rfl, ht, hc, hs, hadv⟩
    · exact serves_ready hadv hinv.books h
    · by_cases hpolls : m.phase.pollsJoins = true
      · refine serves_ready hadv (step_books hs hinv.books) (step_ready hs hinv.books (fun t' failed ht' hover => ?_) h)
        cases ht'
        rw [overtakes_of_ledger ht hpolls hc hover] at hi
        cases hi
      · have hsame : wake m (.joined task) = m := wake_joined_disabled fun h => hpolls h.1
        show (wake m (.joined task)).rt.ledger.Ready
        rw [hsame]
        exact h

theorem run_hears : ∀ (inputs : List Input) {m : Machine}, m.Inv → m.rt.ledger.Ready → hearsInTime m inputs = true →
    (run m inputs).rt.ledger.Ready
  | [], _, _, h, _ => h
  | i :: is, m, hinv, h, hh => by
    obtain ⟨hi, hrest⟩ := Bool.and_eq_true_iff.mp hh
    exact run_hears is (step_inv i hinv).1 (step_hears hinv h (by simpa using hi)) hrest

theorem Blank.ready {L : Ledger} (h : Blank L) : L.Ready := by
  refine ⟨fun k m hm => ⟨fun hst => ?_, fun ha => ?_⟩, ?_, ?_, ?_, ?_, ?_, ?_⟩
  · rw [(h.fresh k m hm).state_eq] at hst
    cases hst
  · rw [(h.fresh k m hm).startupAborted_eq] at ha
    cases ha
  · intro g hg
    rw [h.gate_eq] at hg
    cases hg
  · intro r hr
    rw [h.timelyReady_eq] at hr
    cases hr
  · intro _ r hr
    rw [h.timelyReady_eq] at hr
    cases hr
  · intro r hr
    rw [h.timelyReady_eq] at hr
    cases hr
  · intro v hv
    rw [h.verdicts_eq] at hv
    cases hv
  · intro s hs
    rw [h.published_eq] at hs
    cases hs

theorem start_ready (c : SupervisorConfig) (b : Binding) : (start c b).rt.ledger.Ready := by
  obtain ⟨hblank, -⟩ := new_blank c b
  obtain ⟨L, hp, hann, -, hp'⟩ := start_inv c b
  have hL : L.Ready := by
    refine path_ready (fun l t _ hl => ?_) hp hblank.books hblank.ready
    rcases hl with rfl | rfl
    · nofun
    · nofun
  exact serves_ready hp' hann.books hL

theorem Ledger.Ready.kept_readiness {rt : SupervisorRuntime} (h : rt.ledger.Ready) : ReadinessKept rt := by
  intro r hr
  refine ⟨fun e he hl hg => ?_, fun s hs c hc hl hg x hx => ?_, fun hn => ?_⟩
  · exact h.unblamed.flag r hr e.member ⟨ledger_get he, hl, hg⟩
  · exact (h.unblamed.shown s hs c hc x hx).2 r hr ⟨hl.symm, hg.symm⟩
  · have hv : r ∈ rt.ledger.verdicts := List.mem_filterMap.mpr ⟨_, hn, rfl⟩
    exact (h.unblamed.verdict r hv).2 r hr ⟨rfl, rfl⟩

/-- In every run whose joins overtake no readiness message, readiness is never lost. -/
theorem run_readiness_kept (c : SupervisorConfig) (b : Binding) (inputs : List Input)
    (h : hearsInTime (start c b) inputs = true) : ReadinessKept (run (start c b) inputs).rt :=
  (run_hears inputs (run_inv c b []) (start_ready c b) h).kept_readiness

/-! ## A message that is lost -/

/-- The next free key, counting up. -/
def nextKey (used : List Nat) : Nat := used.foldr max 0 + 1

theorem nextKey_fresh (used : List Nat) : nextKey used ∉ used := by
  have hle : ∀ {l : List Nat} {k}, k ∈ l → k ≤ l.foldr max 0 := by
    intro l k hk
    induction l with
    | nil => cases hk
    | cons a l ih =>
      rw [List.foldr_cons]
      rcases List.mem_cons.mp hk with rfl | hk
      · exact Nat.le_max_left ..
      · exact Nat.le_trans (ih hk) (Nat.le_max_right ..)
  intro hm
  have := hle hm
  unfold nextKey at this
  omega

/-- A restarted child and, after it, a gated child that is never restarted. -/
def pair : SupervisorConfig where
  host := ⟨nextKey, nextKey_fresh, nextKey, nextKey_fresh, fun _ => 1⟩
  strategy := .oneForAll
  kind := .ordered
  defaultChildRestart := .default
  defaultChildShutdown := .default
  children := [{ id := "a" }, { id := "b", restart := .never, restartIsDefault := false, readiness := .manual (secs 5) }]
  ids_nodup := by decide
  ids_nonempty := by decide

def nestedBinding : Binding := ⟨0, 0, 0, false, true, 0⟩

/-- `a` fails and its restart is due; `b` reports readiness; the restart is served first,
    and its drain consumes `b`'s exit. -/
def overtakenRun : List Input :=
  [.env (.conclude 1 .panicked), .env (.settle 1), .wake (.joined 1), .env (.markReady ⟨2, 1, 0⟩),
    .wake .deadline, .wake .resumed, .env (.conclude 2 (.returned .ok)), .env (.settle 2), .wake (.joined 2)]

theorem readiness_lost : ¬ ReadinessKept (run (start pair nestedBinding) overtakenRun).rt := by
  intro h
  have hsent : (⟨2, 1, 0⟩ : ChildReady) ∈ (run (start pair nestedBinding) overtakenRun).rt.timelyReady := by decide +kernel
  have hflag : ((run (start pair nestedBinding) overtakenRun).rt.children.get 2).any
      (fun e => e.lineage = 1 && e.runtime.generation = 0 && e.runtime.startupAborted) = true := by decide +kernel
  obtain ⟨hkept, -⟩ := h _ hsent
  cases he : (run (start pair nestedBinding) overtakenRun).rt.children.get 2 with
  | none =>
    rw [he] at hflag
    cases hflag
  | some e =>
    rw [he] at hflag
    simp only [Option.any_some, Bool.and_eq_true, decide_eq_true_eq] at hflag
    rw [hkept e he hflag.1.1 hflag.1.2] at hflag
    cases hflag.2

/-- The same children, with `b`'s message received before its exit. -/
def heardRun : List Input :=
  [.env (.markReady ⟨2, 1, 0⟩), .wake .ready, .env (.conclude 2 (.returned .ok)), .env (.settle 2), .wake (.joined 2)]

/-- A gated child that is restarted when it fails. -/
def restartedChild : SupervisorConfig where
  host := ⟨nextKey, nextKey_fresh, nextKey, nextKey_fresh, fun _ => 1⟩
  strategy := .oneForOne
  kind := .dynamic
  defaultChildRestart := .default
  defaultChildShutdown := .default
  children := [{ id := "a", readiness := .manual (secs 5) }]
  ids_nodup := by decide
  ids_nonempty := by decide

/-- It fails with its message unheard, which is dropped once it has been restarted. -/
def restartedRun : List Input :=
  [.env (.markReady ⟨1, 0, 0⟩), .env (.conclude 1 .panicked), .env (.settle 1), .wake (.joined 1), .wake .deadline, .wake .resumed,
    .wake .ready]

theorem readiness_heard :
    (⟨2, 1, 0⟩ ∈ (run (start pair nestedBinding) heardRun).rt.timelyReady ∧
      ReadinessKept (run (start pair nestedBinding) heardRun).rt) ∧
    ⟨1, 0, 0⟩ ∈ (run (start restartedChild nestedBinding) restartedRun).rt.timelyReady ∧
      ReadinessKept (run (start restartedChild nestedBinding) restartedRun).rt :=
  ⟨⟨by decide +kernel, run_readiness_kept pair nestedBinding heardRun (by decide +kernel)⟩,
    by decide +kernel, run_readiness_kept restartedChild nestedBinding restartedRun (by decide +kernel)⟩

end Kokage.Supervisor

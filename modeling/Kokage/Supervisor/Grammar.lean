/-
  Kokage.Supervisor.Grammar — the lifecycle events of one membership form a word.

  `Life w s` says that `w` is such a word and that it leaves the membership at stage `s`:
  waiting for the events of generation `g`, in generation `g` after its `Started`, or
  removed. `Told` ties the stage to the state the supervisor keeps; every step keeps it.
-/

import Kokage.Supervisor.Consistency

namespace Kokage.Supervisor

open Kokage.Lib Ledger SupervisorRuntime

/-! ## Words -/

inductive Stage where
  /-- The events of generation `next` are to come; `exited` if the last event is the exit
      of the generation before it. -/
  | idle (next : Nat) (exited : Bool)
  | started (generation : Nat)
  | removed
  deriving DecidableEq, Repr

/-- The words of one membership. -/
inductive Life : List ChildEventKind → Stage → Prop
  | added : Life [.added] (.idle 0 false)
  | started {w : List ChildEventKind} {g : Nat} {x : Bool} : Life w (.idle g x) → Life (w ++ [.started g]) (.started g)
  /-- The exit of a generation that never reported readiness. -/
  | aborted {w : List ChildEventKind} {g : Nat} {x : Bool} (exit : ExitStatus) :
      Life w (.idle g x) → Life (w ++ [.exited g exit]) (.idle (g + 1) true)
  | exited {w : List ChildEventKind} {g : Nat} (exit : ExitStatus) :
      Life w (.started g) → Life (w ++ [.exited g exit]) (.idle (g + 1) true)
  | scheduled {w : List ChildEventKind} {g : Nat} (delay : Duration) :
      Life w (.idle (g + 1) true) → Life (w ++ [.restartScheduled g delay]) (.idle (g + 1) false)
  | removed {w : List ChildEventKind} {s : Stage} : Life w s → s ≠ .removed → Life (w ++ [.removed]) .removed

theorem Life.ne_nil {w : List ChildEventKind} {s : Stage} (h : Life w s) : w ≠ [] := by
  cases h <;> simp

/-- An exit at the end of a word says which generation comes next. -/
theorem Life.stage_of_exited {w : List ChildEventKind} {s : Stage} {g : Nat} {x : ExitStatus} (h : Life w s)
    (hl : w.getLast? = some (.exited g x)) : s = .idle (g + 1) true := by
  cases h with
  | aborted exit _ =>
    simp only [List.getLast?_append, List.getLast?_singleton, Option.some_or, Option.some.injEq,
      ChildEventKind.exited.injEq] at hl
    rw [hl.1]
  | exited exit _ =>
    simp only [List.getLast?_append, List.getLast?_singleton, Option.some_or, Option.some.injEq,
      ChildEventKind.exited.injEq] at hl
    rw [hl.1]
  | _ => simp at hl

/-! ## Words and states -/

/-- The generation whose events are to come. -/
def Member.upcoming (m : Member) : Nat := if m.isActive || !m.hasStarted then m.generation else m.generation + 1

/-- The stage a member is at. -/
def Member.At (m : Member) (s : Stage) : Prop :=
  if m.isActive && m.hasReportedReady then s = .started m.generation else ∃ x, s = .idle m.upcoming x

theorem Member.At.ne_removed {m : Member} {s : Stage} (h : m.At s) : s ≠ .removed := by
  intro hs
  subst hs
  unfold At at h
  split at h
  · cases h
  · obtain ⟨x, h⟩ := h
    cases h

namespace Ledger

structure Told (L : Ledger) : Prop where
  present : ∀ k m, L.members.get k = some m → ∃ s, Life (word L.log m.id m.lineage) s ∧ m.At s
  unready : ∀ k m, L.members.get k = some m → m.state = .starting → m.hasReportedReady = false
  past : ∀ id lineage, word L.log id lineage ≠ [] →
    lineage < L.nextLineage ∧ (L.Has id lineage ∨ Life (word L.log id lineage) .removed)

variable {L L' : Ledger} {key : ChildKey} {m m' : Member} {d : LifecycleEventDraft} {kind : ChildEventKind}

/-- The same memberships and the same events. -/
theorem Told.congr (h : L.Told) (hm : L'.members = L.members) (hn : L'.nextLineage = L.nextLineage)
    (hlog : L'.log = L.log) : L'.Told := by
  refine ⟨?_, ?_, ?_⟩
  · rw [hm, hlog]
    exact h.present
  · rw [hm]
    exact h.unready
  · rw [hn, hlog]
    unfold Has
    rw [hm]
    exact h.past

theorem word_emit_ne {id : String} {lineage : Nat} (hd : d.For m kind) (hne : ¬ (m.id = id ∧ m.lineage = lineage)) :
    word (L.emit d).log id lineage = word L.log id lineage := by
  have hother : ¬ ((d.at (L.seq + 1)).childId = id ∧ (d.at (L.seq + 1)).lineage = lineage) := by
    intro ⟨h1, h2⟩
    exact hne ⟨hd.childId_eq.symm.trans h1, hd.lineage_eq.symm.trans h2⟩
  show word (L.log ++ [d.at (L.seq + 1)]) id lineage = _
  rw [word_append, if_neg hother, List.append_nil]

/-- The ledger after `key` was given the member `m'`. -/
def Sets (L : Ledger) (key : ChildKey) (m' : Member) (L' : Ledger) : Prop :=
  ∀ k, L'.members.get k = if k = key then some m' else L.members.get k

theorem sets_put : L.Sets key m' (L.put key m') := get_put

/-- One member changes, and with it the events of its membership. -/
theorem Told.update (h : L.Told) (hb : L.Books) (hget : L.members.get key = some m) (hm : L.Sets key m' L')
    (hid : m'.id = m.id) (hl : m'.lineage = m.lineage) (hn : L'.nextLineage = L.nextLineage)
    (hother : ∀ id lineage, ¬ (m.id = id ∧ m.lineage = lineage) → word L'.log id lineage = word L.log id lineage)
    (hat : ∀ s, Life (word L.log m.id m.lineage) s → m.At s → ∃ s', Life (word L'.log m.id m.lineage) s' ∧ m'.At s')
    (hready : m'.state = .starting → m'.hasReportedReady = false) : L'.Told := by
  refine ⟨fun k x hx => ?_, fun k x hx => ?_, fun id lineage hw => ?_⟩
  · rw [hm] at hx
    split at hx
    · cases hx
      obtain ⟨s, hs, hms⟩ := h.present key m hget
      rw [hid, hl]
      exact hat s hs hms
    · rename_i hk
      have hne : ¬ (m.id = x.id ∧ m.lineage = x.lineage) :=
        fun he => hk (hb.lineage_inj k x key m hx hget he.2.symm)
      rw [hother _ _ hne]
      exact h.present k x hx
  · rw [hm] at hx
    split at hx
    · cases hx
      exact hready
    · exact h.unready k x hx
  · rw [hn]
    by_cases hsame : m.id = id ∧ m.lineage = lineage
    · obtain ⟨rfl, rfl⟩ := hsame
      exact ⟨hb.lineage_lt key m hget, .inl ⟨key, m', by rw [hm, if_pos rfl], hid, hl⟩⟩
    · rw [hother id lineage hsame] at hw ⊢
      obtain ⟨hlt, hpast⟩ := h.past id lineage hw
      refine ⟨hlt, hpast.imp (fun ⟨k, x, hx, h1, h2⟩ => ⟨k, x, ?_, h1, h2⟩) fun h => h⟩
      have hk : k ≠ key := by
        intro he
        subst he
        rw [hget] at hx
        cases hx
        exact hsame ⟨h1, h2⟩
      rw [hm, if_neg hk]
      exact hx

/-- A change without an event leaves the member at its stage. -/
theorem Told.quiet (h : L.Told) (hb : L.Books) (hget : L.members.get key = some m) (hm : L.Sets key m' L')
    (hid : m'.id = m.id) (hl : m'.lineage = m.lineage) (hn : L'.nextLineage = L.nextLineage) (hlog : L'.log = L.log)
    (hat : ∀ s, m.At s → m'.At s) (hready : m'.state = .starting → m'.hasReportedReady = false) : L'.Told := by
  refine h.update hb hget hm hid hl hn (fun id lineage _ => by rw [hlog]) (fun s hs hms => ?_) hready
  rw [hlog]
  exact ⟨s, hs, hat s hms⟩

/-- A change with its event. -/
theorem Told.event {n : Nat} (h : L.Told) (hb : L.Books) (hget : L.members.get key = some m) (hm : L.Sets key m' L')
    (hid : m'.id = m.id) (hl : m'.lineage = m.lineage) (hn : L'.nextLineage = L.nextLineage) (hd : d.For m kind)
    (hlog : L'.log = L.log ++ [d.at n])
    (hat : ∀ s, Life (word L.log m.id m.lineage) s → m.At s →
      ∃ s', Life (word L.log m.id m.lineage ++ [kind]) s' ∧ m'.At s')
    (hready : m'.state = .starting → m'.hasReportedReady = false) : L'.Told := by
  have hkind : (d.at n).kind = kind := hd.kind_eq
  refine h.update hb hget hm hid hl hn (fun id lineage hne => ?_) ?_ hready
  · have hother : ¬ ((d.at n).childId = id ∧ (d.at n).lineage = lineage) := by
      intro ⟨h1, h2⟩
      exact hne ⟨hd.childId_eq.symm.trans h1, hd.lineage_eq.symm.trans h2⟩
    rw [hlog, word_append, if_neg hother, List.append_nil]
  · have hself : (d.at n).childId = m.id ∧ (d.at n).lineage = m.lineage := ⟨hd.childId_eq, hd.lineage_eq⟩
    rw [hlog, word_append, if_pos hself, hkind]
    exact hat

/-- A new membership has no past. -/
theorem Told.added (h : L.Told) (hb : L.Books) (hget : L.members.get key = none) (hf : m.Fresh L.nextLineage)
    (hd : d.For m .added) : ((L.insert key m).emit d).Told := by
  have hinactive : m.isActive = false := Member.isActive_eq hf.state_eq
  have hempty : word L.log m.id m.lineage = [] := by
    by_contra hw
    have hlt := (h.past _ _ hw).1
    rw [hf.lineage_eq] at hlt
    omega
  have hkeep : ∀ id lineage, ¬ (m.id = id ∧ m.lineage = lineage) →
      word ((L.insert key m).emit d).log id lineage = word L.log id lineage := by
    intro id lineage hne
    exact @word_emit_ne (L.insert key m) m d .added id lineage hd hne
  have hself : word ((L.insert key m).emit d).log m.id m.lineage = [.added] := by
    rw [word_emit_same hd]
    show word L.log m.id m.lineage ++ [.added] = [.added]
    rw [hempty]
    rfl
  refine ⟨fun k x hx => ?_, fun k x hx hst => ?_, fun id lineage hw => ?_⟩
  · have hx : (L.members.insertAt key m).get k = some x := hx
    rw [Slab.get_insertAt] at hx
    split at hx
    · cases hx
      rw [hself]
      refine ⟨_, .added, ?_⟩
      unfold Member.At Member.upcoming
      rw [hinactive, hf.hasStarted_eq, hf.generation_eq]
      exact ⟨false, rfl⟩
    · have hne : ¬ (m.id = x.id ∧ m.lineage = x.lineage) := by
        intro he
        have hlt := hb.lineage_lt k x hx
        rw [← he.2, hf.lineage_eq] at hlt
        omega
      rw [hkeep _ _ hne]
      exact h.present k x hx
  · have hx : (L.members.insertAt key m).get k = some x := hx
    rw [Slab.get_insertAt] at hx
    split at hx
    · cases hx
      exact hf.hasReportedReady_eq
    · exact h.unready k x hx hst
  · show lineage < L.nextLineage + 1 ∧ ((L.insert key m).Has id lineage ∨ _)
    rw [has_insert hget]
    by_cases hsame : m.id = id ∧ m.lineage = lineage
    · obtain ⟨rfl, rfl⟩ := hsame
      exact ⟨by rw [hf.lineage_eq]; omega, .inl (.inr ⟨rfl, rfl⟩)⟩
    · rw [hkeep id lineage hsame] at hw ⊢
      obtain ⟨hlt, hpast⟩ := h.past id lineage hw
      exact ⟨by omega, hpast.imp .inl fun h => h⟩

/-- A removed membership is over. -/
theorem Told.removed (h : L.Told) (hb : L.Books) (hget : L.members.get key = some m) (hd : d.For m .removed) :
    ((L.drop key m).emit d).Told := by
  have hkeep : ∀ id lineage, ¬ (m.id = id ∧ m.lineage = lineage) →
      word ((L.drop key m).emit d).log id lineage = word L.log id lineage :=
    fun id lineage hne => @word_emit_ne (L.drop key m) m d .removed id lineage hd hne
  have hrest : ∀ k x, ((L.drop key m).emit d).members.get k = some x → k ≠ key ∧ L.members.get k = some x := by
    intro k x hx
    have hx : (L.members.remove key).get k = some x := hx
    rw [Slab.get_remove] at hx
    split at hx
    · cases hx
    · rename_i hk
      exact ⟨hk, hx⟩
  refine ⟨fun k x hx => ?_, fun k x hx => h.unready k x (hrest k x hx).2, fun id lineage hw => ?_⟩
  · obtain ⟨hk, hx⟩ := hrest k x hx
    have hne : ¬ (m.id = x.id ∧ m.lineage = x.lineage) := fun he => hk (hb.lineage_inj k x key m hx hget he.2.symm)
    rw [hkeep _ _ hne]
    exact h.present k x hx
  · by_cases hsame : m.id = id ∧ m.lineage = lineage
    · obtain ⟨rfl, rfl⟩ := hsame
      obtain ⟨s, hs, hm⟩ := h.present key m hget
      refine ⟨hb.lineage_lt key m hget, .inr ?_⟩
      rw [word_emit_same hd]
      exact .removed hs hm.ne_removed
    · rw [hkeep id lineage hsame] at hw ⊢
      obtain ⟨hlt, hpast⟩ := h.past id lineage hw
      refine ⟨hlt, hpast.imp (fun ⟨k, x, hx, h1, h2⟩ => ⟨k, x, ?_, h1, h2⟩) fun h => h⟩
      have hk : k ≠ key := by
        intro he
        subst he
        rw [hget] at hx
        cases hx
        exact hsame ⟨h1, h2⟩
      show (L.members.remove key).get k = some x
      rw [Slab.get_remove, if_neg hk]
      exact hx

/-! ## Stages of one member -/

theorem At.of_active (hact : m'.isActive = m.isActive) (hready : m.isActive = true → m'.hasReportedReady = m.hasReportedReady)
    (hgen : m'.generation = m.generation) (hst : m'.hasStarted = m.hasStarted) (s : Stage) (h : m.At s) : m'.At s := by
  unfold Member.At Member.upcoming at *
  rw [hact, hgen, hst]
  cases hm : m.isActive with
  | false => simpa [hm] using h
  | true =>
    rw [hready hm]
    simpa [hm] using h

/-- The first event of a spawned generation is still to come. -/
theorem At.spawn {task : TaskId} (hidle : m.state.isIdle = true) (s : Stage) (h : m.At s) :
    ∃ x, s = .idle (m.spawn task).generation x := by
  have hact := isActive_of_isIdle hidle
  unfold Member.At Member.upcoming at h
  rw [hact] at h
  obtain ⟨x, h⟩ : ∃ x, s = .idle (if m.hasStarted = true then m.generation + 1 else m.generation) x := by
    cases hst : m.hasStarted with
    | false => simpa [hst] using h
    | true => simpa [hst] using h
  exact ⟨x, h⟩

theorem At.unready (hact : m.isActive = true) (hr : m.hasReportedReady = false) {s : Stage} :
    m.At s ↔ ∃ x, s = .idle m.generation x := by
  unfold Member.At Member.upcoming
  simp [hact, hr]

theorem At.ready (hact : m.isActive = true) (hr : m.hasReportedReady = true) {s : Stage} :
    m.At s ↔ s = .started m.generation := by
  unfold Member.At
  simp [hact, hr]

/-- The exit of an active member, whether it was ready or not. -/
theorem At.exit {w : List ChildEventKind} {s : Stage} (hw : Life w s) (h : m.At s) (hact : m.isActive = true)
    (hst : m.hasStarted = true) (x : ExitStatus) :
    ∃ s', Life (w ++ [.exited m.generation x]) s' ∧ (m.exit x).At s' := by
  refine ⟨.idle (m.generation + 1) true, ?_, ?_⟩
  · cases hr : m.hasReportedReady with
    | true =>
      rw [At.ready hact hr] at h
      subst h
      exact .exited x hw
    | false =>
      rw [At.unready hact hr] at h
      obtain ⟨y, rfl⟩ := h
      exact .aborted x hw
  · have hinactive : (m.exit x).isActive = false := rfl
    have hst' : (m.exit x).hasStarted = true := hst
    unfold Member.At Member.upcoming
    rw [hinactive, hst']
    exact ⟨true, rfl⟩

theorem active_of_record {task : TaskId} {t : TaskMeta} (hb : L.Books) (ht : L.taskMap task = some t) (hc : L.Current t m) :
    m.isActive = true ∧ m.hasStarted = true := by
  obtain ⟨hget, hl, -⟩ := hc
  have htask := (hb.record_task task t t.key m ht hget hl).2.2
  have hact : m.isActive = true := by
    rw [hb.active_iff t.key m hget, htask]
    rfl
  exact ⟨hact, hb.started t.key m hget hact⟩

/-! ## Every step -/

theorem Told.spawned {task : TaskId} (h : L.Told) (hb : L.Books) (hget : L.members.get key = some m)
    (hidle : m.state.isIdle = true) (hgated : m.definition.readiness.isGated = true) : (L.install key m task).Told := by
  have hr : (m.spawn task).hasReportedReady = false := by
    show decide (m.definition.readiness = .immediate) = false
    cases hm : m.definition.readiness with
    | immediate =>
      rw [hm] at hgated
      cases hgated
    | _ => rfl
  have hset : L.Sets key (m.spawn task) (L.install key m task) := fun k => Slab.get_insertAt ..
  refine h.quiet hb hget hset rfl rfl rfl rfl (fun s hs => ?_) fun _ => hr
  rw [At.unready (isActive_spawn ..) hr]
  exact At.spawn hidle s hs

theorem Told.spawnedReady {task : TaskId} (h : L.Told) (hb : L.Books) (hget : L.members.get key = some m)
    (hidle : m.state.isIdle = true) (hi : m.definition.readiness = .immediate)
    (hd : d.For m (.started (m.spawn task).generation)) : ((L.install key m task).emit d).Told := by
  have hr : (m.spawn task).hasReportedReady = true := by
    show decide (m.definition.readiness = .immediate) = true
    rw [hi]
    rfl
  have hset : L.Sets key (m.spawn task) ((L.install key m task).emit d) := fun k => Slab.get_insertAt ..
  refine h.event hb hget hset rfl rfl rfl hd rfl (fun s hw hs => ?_) fun hst => ?_
  · obtain ⟨x, rfl⟩ := @At.spawn m task hidle s hs
    exact ⟨_, .started hw, (At.ready (isActive_spawn ..) hr).mpr rfl⟩
  · have hrun : (m.spawn task).state = .running := by
      show (if m.definition.readiness = .immediate then RuntimeChildState.running else .starting) = .running
      rw [if_pos hi]
    rw [hrun] at hst
    cases hst

theorem Told.received {r : ChildReady} {rest : List ChildReady} (h : L.Told) (hb : L.Books) (hc : L.Current r m)
    (hst : m.state = .starting) (hd : d.For m (.started m.generation)) :
    (({ L with readyRx := rest }.put r.key m.ready).emit d).Told := by
  have hact : m.isActive = true := Member.isActive_eq hst
  refine h.event hb hc.1 (fun k => get_put k) rfl rfl rfl hd rfl (fun s hw hs => ?_) nofun
  rw [At.unready hact (h.unready _ _ hc.1 hst)] at hs
  obtain ⟨x, rfl⟩ := hs
  exact ⟨_, .started hw, (At.ready rfl rfl).mpr rfl⟩

theorem step_told {l : Label} (hl : l ≠ .announced) (hs : Step l L L') (hb : L.Books) (h : L.Told) : L'.Told := by
  cases hs with
  | announced => exact absurd rfl hl
  | added hget _ hf hd => exact h.added hb hget hf hd
  | spawned hget _ hidle _ _ hg => exact h.spawned hb hget hidle hg
  | spawnedReady hget _ hidle _ _ hi hd => exact h.spawnedReady hb hget hidle hi hd
  | refused hget href => exact absurd href (hb.accepted _ _ hget)
  | received _ hc _ hst _ hd => exact h.received hb hc hst hd
  | exited ht hc hd =>
    obtain ⟨hact, hst⟩ := active_of_record hb ht hc
    refine h.event hb hc.1 (fun k => get_put k) rfl rfl rfl hd rfl (fun s hw hs => ?_) nofun
    rw [← hc.2.2]
    exact At.exit hw hs hact hst _
  | scheduled hget harm hd =>
    rename_i key m delay d
    obtain ⟨x, hlast⟩ := harm
    have hset : L.Sets key m (L.emit d) := fun k => by
      split
      · rename_i hk
        exact hk ▸ hget
      · rfl
    refine h.event hb hget hset rfl rfl rfl hd rfl (fun s hw hs => ?_) (h.unready _ _ hget)
    have hstage := hw.stage_of_exited hlast
    subst hstage
    refine ⟨_, .scheduled delay hw, ?_⟩
    unfold Member.At at hs ⊢
    split at hs
    · cases hs
    · rename_i hnot
      rw [if_neg hnot]
      obtain ⟨y, hs⟩ := hs
      exact ⟨false, by rw [(Stage.idle.injEq ..).mp hs |>.1]⟩
  | removed hget hd => exact h.removed hb hget hd
  | stopped hget hact =>
    exact h.quiet hb hget sets_put rfl rfl rfl rfl (At.of_active hact.symm (fun _ => rfl) rfl rfl) nofun
  | removing hget =>
    rename_i key m
    have hact : m.remove.isActive = m.isActive := by
      unfold Member.remove Member.isActive
      simp only
      split
      · rename_i ha
        rw [ha]
        rfl
      · rfl
    refine h.quiet hb hget sets_put rfl rfl rfl rfl (At.of_active hact (fun _ => rfl) rfl rfl) fun hst => ?_
    refine h.unready key m hget ?_
    have hst : (if m.state.isActive = true then RuntimeChildState.stopping else m.state) = .starting := hst
    split at hst
    · cases hst
    · exact hst
  | queued hget _ hidle =>
    have hact := isActive_of_isIdle hidle
    refine h.quiet hb hget sets_put rfl rfl rfl rfl (At.of_active hact.symm (fun ha => ?_) rfl rfl) nofun
    rw [hact] at ha
    cases ha
  | flagged _ hget _ =>
    rename_i key m _ _
    exact h.quiet hb hget sets_put rfl rfl rfl rfl (At.of_active rfl (fun _ => rfl) rfl rfl) (h.unready key m hget)
  | _ => exact h.congr rfl rfl rfl

/-- Once the static children are announced. -/
theorem Announcing.toldAll (h : L.Announcing []) : L.Told := by
  refine ⟨fun k m hm => ?_, fun k m hm _ => (h.fresh k m hm).hasReportedReady_eq, fun id lineage hw => ?_⟩
  · have hf := h.fresh k m hm
    have hinactive : m.isActive = false := Member.isActive_eq hf.state_eq
    have htold := h.told k m hm
    rw [if_neg List.not_mem_nil] at htold
    rw [htold]
    refine ⟨_, .added, ?_⟩
    unfold Member.At Member.upcoming
    rw [hinactive, hf.hasStarted_eq, hf.generation_eq]
    exact ⟨false, rfl⟩
  · obtain ⟨k, m, hm, rfl, rfl⟩ := h.only id lineage hw
    exact ⟨h.books.lineage_lt k m hm, .inl ⟨k, m, hm, rfl, rfl⟩⟩

/-- The events of any membership are a word of the grammar. -/
theorem Told.grammatical (h : L.Told) (id : String) (lineage : Nat) :
    word L.log id lineage = [] ∨ ∃ s, Life (word L.log id lineage) s := by
  by_cases hw : word L.log id lineage = []
  · exact .inl hw
  · rcases (h.past id lineage hw).2 with ⟨k, m, hm, rfl, rfl⟩ | hr
    · obtain ⟨s, hs, -⟩ := h.present k m hm
      exact .inr ⟨s, hs⟩
    · exact .inr ⟨_, hr⟩

end Ledger

/-! ## Stale messages -/

namespace SupervisorRuntime

variable {rt : SupervisorRuntime} {t : TaskMeta}

/-- No child with this key has this lineage and generation: the membership has moved on,
    or the key belongs to another one. -/
def Stale (rt : SupervisorRuntime) (t : TaskMeta) : Prop :=
  ∀ e, rt.children.get t.key = some e → ¬ (e.lineage = t.lineage ∧ e.runtime.generation = t.generation)

/-- A readiness message is also late when its child is no longer starting. -/
def Late (rt : SupervisorRuntime) (r : ChildReady) : Prop :=
  ∀ e, rt.children.get r.key = some e → e.lineage = r.lineage → e.runtime.generation = r.generation →
    e.membership ≠ .active ∨ e.runtime.state ≠ .starting

theorem Stale.late (h : rt.Stale t) : rt.Late t := fun e he hl hg => absurd ⟨hl, hg⟩ (h e he)

theorem handleChildReady_late (h : rt.Late t) : handleChildReady t rt = (.ok (), rt) := by
  unfold handleChildReady
  rw [Act.run_get_bind]
  cases he : rt.children.get t.key with
  | none => rfl
  | some e =>
    simp only
    rw [if_pos]
    · rfl
    · simp only [Bool.or_eq_true, decide_eq_true_eq, ne_eq]
      by_cases hl : e.lineage = t.lineage
      · by_cases hg : e.runtime.generation = t.generation
        · rcases h e he hl hg with hm | hs
          · exact .inl (.inr hm)
          · exact .inr hs
        · exact .inl (.inl (.inr hg))
      · exact .inl (.inl (.inl hl))

theorem handleNestedSnapshot_stale (h : rt.Stale t) : rt.handleNestedSnapshot t = rt := by
  unfold handleNestedSnapshot
  cases he : rt.children.get t.key with
  | none => rfl
  | some e =>
    simp only
    rw [if_pos]
    simp only [Bool.or_eq_true, decide_eq_true_eq, ne_eq]
    by_cases hl : e.lineage = t.lineage
    · exact .inr fun hg => h e he ⟨hl, hg⟩
    · exact .inl hl

/-- A stale join only leaves the join set and the task map. -/
theorem consumeJoinedChild_stale {task : TaskId} (c : Conclusion) (ht : rt.taskMap task = some t) (h : rt.Stale t) :
    consumeJoinedChild task c rt = (.ok none, rt.unlinked task) := by
  have hc := @consumeJoinedChild_cases rt task c
  generalize consumeJoinedChild task c rt = q at hc
  obtain ⟨r, rt1⟩ := q
  cases hc with
  | lost hnone =>
    rw [ht] at hnone
    cases hnone
  | stale ht' hm => rfl
  | current ht' hget hl hg =>
    rw [ht] at ht'
    cases ht'
    exact absurd ⟨hl, hg⟩ (h _ hget)

end SupervisorRuntime

/-- In every run the events of a membership are a word of the grammar, and a stale
    readiness message, snapshot notification or join changes nothing. -/
theorem run_grammar (c : SupervisorConfig) (b : Binding) (inputs : List Input) :
    let rt := (run (start c b) inputs).rt
    (∀ id lineage, word rt.log id lineage = [] ∨ ∃ s, Life (word rt.log id lineage) s) ∧
      (∀ r, rt.Late r → handleChildReady r rt = (.ok (), rt)) ∧
      ∀ t, rt.Stale t → handleChildReady t rt = (.ok (), rt) ∧ rt.handleNestedSnapshot t = rt ∧
        ∀ task conclusion, rt.taskMap task = some t →
          handleJoinedChild task conclusion rt = (.ok (), rt.unlinked task) ∧
            ∀ scope cursor, handleJoinForScope task conclusion scope cursor rt = (.ok [], rt.unlinked task) := by
  have htold : (run (start c b) inputs).rt.ledger.Told := run_keeps (fun L => Announcing.toldAll) step_told c b inputs
  refine ⟨htold.grammatical, fun r => handleChildReady_late, fun t h => ⟨handleChildReady_late h.late,
    handleNestedSnapshot_stale h, fun task conclusion ht => ?_⟩⟩
  have hconsume := consumeJoinedChild_stale conclusion ht h
  refine ⟨?_, fun scope cursor => ?_⟩
  · unfold handleJoinedChild
    rw [Act.run_bind, hconsume]
    rfl
  · unfold handleJoinForScope
    rw [Act.run_bind, hconsume]
    rfl

end Kokage.Supervisor

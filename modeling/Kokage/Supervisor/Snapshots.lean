/-
  Kokage.Supervisor.Snapshots — every published snapshot agrees with the event log.

  A snapshot with `lifecycle_seq` n shows the memberships, exits and turns that the
  events up to n tell (`Agrees`). Two things carry it: at every step the ledger itself
  agrees with its whole log (`Matches`), and a later event has a higher sequence, so it
  is on the far side of every snapshot already published (`Recorded`). The reducer of an
  observer (`Roster.apply`) then takes any snapshot to any later one.
-/

import Kokage.Supervisor.Grammar

namespace Kokage.Supervisor

open Kokage.Lib Ledger SupervisorRuntime

/-! ## What a word says -/

/-- The exit carried by the latest `Exited`. -/
def latestExit (w : List ChildEventKind) : Option ExitStatus :=
  w.reverse.findSome? fun
    | .exited _ x => some x
    | _ => none

/-- The latest `Started` or `Exited`. -/
def latestTurn (w : List ChildEventKind) : Option ChildEventKind :=
  w.reverse.find? fun
    | .started _ | .exited _ _ => true
    | _ => false

@[simp] theorem latestExit_exited (w : List ChildEventKind) (g : Nat) (x : ExitStatus) :
    latestExit (w ++ [.exited g x]) = some x := by
  simp [latestExit]

@[simp] theorem latestExit_started (w : List ChildEventKind) (g : Nat) : latestExit (w ++ [.started g]) = latestExit w := by
  simp [latestExit]

@[simp] theorem latestExit_added (w : List ChildEventKind) : latestExit (w ++ [.added]) = latestExit w := by
  simp [latestExit]

@[simp] theorem latestExit_scheduled (w : List ChildEventKind) (g : Nat) (d : Duration) :
    latestExit (w ++ [.restartScheduled g d]) = latestExit w := by
  simp [latestExit]

@[simp] theorem latestTurn_exited (w : List ChildEventKind) (g : Nat) (x : ExitStatus) :
    latestTurn (w ++ [.exited g x]) = some (.exited g x) := by
  simp [latestTurn]

@[simp] theorem latestTurn_started (w : List ChildEventKind) (g : Nat) :
    latestTurn (w ++ [.started g]) = some (.started g) := by
  simp [latestTurn]

@[simp] theorem latestTurn_added (w : List ChildEventKind) : latestTurn (w ++ [.added]) = latestTurn w := by
  simp [latestTurn]

@[simp] theorem latestTurn_scheduled (w : List ChildEventKind) (g : Nat) (d : Duration) :
    latestTurn (w ++ [.restartScheduled g d]) = latestTurn w := by
  simp [latestTurn]

/-- The events tell of a membership that it is there. -/
def Enrolled (static : List (String × Nat)) (log : List ChildEvent) (id : String) (lineage : Nat) : Prop :=
  ((id, lineage) ∈ static ∨ .added ∈ word log id lineage) ∧ .removed ∉ word log id lineage

/-- A snapshot agrees with the events of `log`. -/
structure Agrees (static : List (String × Nat)) (log : List ChildEvent) (s : SupervisorSnapshot) : Prop where
  member_iff : ∀ id lineage, (∃ c ∈ s.children, c.id = id ∧ c.lineage = lineage) ↔ Enrolled static log id lineage
  exit_eq : ∀ c ∈ s.children, c.state.lastExit = latestExit (word log c.id c.lineage)
  running : ∀ c ∈ s.children, ∀ x, c.state = .running x → latestTurn (word log c.id c.lineage) = some (.started c.generation)
  stopped : ∀ c ∈ s.children, (∃ started x, c.state = .stopped started x) ∨ (∃ x, c.state = .startupAborted x) →
    ∀ k, latestTurn (word log c.id c.lineage) = some k → ∃ g x, k = .exited g x

/-! ## The ledger agrees with its log -/

/-- What the latest turn of a member's events must be. -/
def Member.Turned (m : Member) (turn : Option ChildEventKind) : Prop :=
  if m.isActive && m.hasReportedReady then turn = some (.started m.generation)
  else ∀ k, turn = some k → ∃ g x, k = .exited g x

/-- A member agrees with its events. -/
structure Member.Fits (m : Member) (w : List ChildEventKind) : Prop where
  exit_eq : m.lastExit = latestExit w
  turned : m.Turned (latestTurn w)
  running : m.state = .running → m.hasReportedReady = true

theorem Member.Turned.congr {m m' : Member} {turn : Option ChildEventKind} (h : m.Turned turn)
    (hact : m'.isActive = m.isActive) (hready : m.isActive = true → m'.hasReportedReady = m.hasReportedReady)
    (hgen : m'.generation = m.generation) : m'.Turned turn := by
  unfold Turned at *
  rw [hact, hgen]
  cases hm : m.isActive with
  | false => simpa [hm] using h
  | true =>
    rw [hready hm]
    simpa [hm] using h

theorem Member.Turned.idle {m m' : Member} {turn : Option ChildEventKind} (h : m.Turned turn) (hm : m.isActive = false)
    (hr : m'.hasReportedReady = false) : m'.Turned turn := by
  unfold Turned at *
  rw [hr, Bool.and_false]
  rw [hm] at h
  exact h

namespace Ledger

structure Matches (static : List (String × Nat)) (L : Ledger) : Prop where
  has_iff : ∀ id lineage, L.Has id lineage ↔ Enrolled static L.log id lineage
  unborn : ∀ id lineage, L.nextLineage ≤ lineage → word L.log id lineage = []
  fits : ∀ k m, L.members.get k = some m → m.Fits (word L.log m.id m.lineage)

variable {static : List (String × Nat)} {L L' : Ledger} {key : ChildKey} {m m' : Member} {d : LifecycleEventDraft}
  {kind : ChildEventKind}

theorem Matches.congr (h : L.Matches static) (hm : L'.members = L.members) (hn : L'.nextLineage = L.nextLineage)
    (hlog : L'.log = L.log) : L'.Matches static := by
  refine ⟨?_, ?_, ?_⟩
  · unfold Has
    rw [hm, hlog]
    exact h.has_iff
  · rw [hn, hlog]
    exact h.unborn
  · rw [hm, hlog]
    exact h.fits

theorem word_for_ne {n : Nat} {log : List ChildEvent} {id : String} {lineage : Nat} (hd : d.For m kind)
    (hne : ¬ (m.id = id ∧ m.lineage = lineage)) : word (log ++ [d.at n]) id lineage = word log id lineage := by
  have hother : ¬ ((d.at n).childId = id ∧ (d.at n).lineage = lineage) := by
    intro ⟨h1, h2⟩
    exact hne ⟨hd.childId_eq.symm.trans h1, hd.lineage_eq.symm.trans h2⟩
  rw [word_append, if_neg hother, List.append_nil]

theorem word_for_self {n : Nat} {log : List ChildEvent} (hd : d.For m kind) :
    word (log ++ [d.at n]) m.id m.lineage = word log m.id m.lineage ++ [kind] := by
  have hkind : (d.at n).kind = kind := hd.kind_eq
  have hself : (d.at n).childId = m.id ∧ (d.at n).lineage = m.lineage := ⟨hd.childId_eq, hd.lineage_eq⟩
  rw [word_append, if_pos hself, hkind]

/-- One member changes, and with it the events of its membership. -/
theorem Matches.update {ks : List ChildEventKind} (h : L.Matches static) (hb : L.Books)
    (hget : L.members.get key = some m) (hm : L.Sets key m' L') (hid : m'.id = m.id) (hl : m'.lineage = m.lineage)
    (hn : L'.nextLineage = L.nextLineage)
    (hother : ∀ id lineage, ¬ (m.id = id ∧ m.lineage = lineage) → word L'.log id lineage = word L.log id lineage)
    (hself : word L'.log m.id m.lineage = word L.log m.id m.lineage ++ ks) (hks : .removed ∉ ks)
    (hfit : ∀ w, m.Fits w → m'.Fits (w ++ ks)) : L'.Matches static := by
  have hhas : ∀ id lineage, L'.Has id lineage ↔ L.Has id lineage := by
    intro id lineage
    constructor
    · intro ⟨k, x, hx, h1, h2⟩
      rw [hm] at hx
      split at hx
      · cases hx
        exact ⟨key, m, hget, hid.symm.trans h1, hl.symm.trans h2⟩
      · exact ⟨k, x, hx, h1, h2⟩
    · intro ⟨k, x, hx, h1, h2⟩
      by_cases hk : k = key
      · subst hk
        rw [hget] at hx
        cases hx
        exact ⟨k, m', by rw [hm, if_pos rfl], hid.trans h1, hl.trans h2⟩
      · exact ⟨k, x, by rw [hm, if_neg hk]; exact hx, h1, h2⟩
  refine ⟨fun id lineage => ?_, fun id lineage hlt => ?_, fun k x hx => ?_⟩
  · rw [hhas]
    by_cases hsame : m.id = id ∧ m.lineage = lineage
    · obtain ⟨rfl, rfl⟩ := hsame
      have hold := (h.has_iff m.id m.lineage).mp ⟨key, m, hget, rfl, rfl⟩
      refine ⟨fun _ => ?_, fun _ => ⟨key, m, hget, rfl, rfl⟩⟩
      unfold Enrolled
      rw [hself]
      refine ⟨hold.1.imp_right fun ha => List.mem_append_left _ ha, fun hr => ?_⟩
      rcases List.mem_append.mp hr with hr | hr
      · exact hold.2 hr
      · exact hks hr
    · unfold Enrolled
      rw [hother id lineage hsame]
      exact h.has_iff id lineage
  · rw [hn] at hlt
    have hne : ¬ (m.id = id ∧ m.lineage = lineage) := by
      intro he
      have := hb.lineage_lt key m hget
      omega
    rw [hother id lineage hne]
    exact h.unborn id lineage hlt
  · rw [hm] at hx
    split at hx
    · cases hx
      rw [hid, hl, hself]
      exact hfit _ (h.fits key m hget)
    · rename_i hk
      have hne : ¬ (m.id = x.id ∧ m.lineage = x.lineage) := fun he => hk (hb.lineage_inj k x key m hx hget he.2.symm)
      rw [hother _ _ hne]
      exact h.fits k x hx

theorem Matches.quiet (h : L.Matches static) (hb : L.Books) (hget : L.members.get key = some m) (hm : L.Sets key m' L')
    (hid : m'.id = m.id) (hl : m'.lineage = m.lineage) (hn : L'.nextLineage = L.nextLineage) (hlog : L'.log = L.log)
    (hfit : ∀ w, m.Fits w → m'.Fits w) : L'.Matches static := by
  have hword : word L'.log m.id m.lineage = word L.log m.id m.lineage ++ [] := by rw [hlog, List.append_nil]
  refine h.update hb hget hm hid hl hn (fun id lineage _ => by rw [hlog]) hword List.not_mem_nil fun w hw => ?_
  rw [List.append_nil]
  exact hfit w hw

theorem Matches.event {n : Nat} (h : L.Matches static) (hb : L.Books) (hget : L.members.get key = some m)
    (hm : L.Sets key m' L') (hid : m'.id = m.id) (hl : m'.lineage = m.lineage) (hn : L'.nextLineage = L.nextLineage)
    (hd : d.For m kind) (hlog : L'.log = L.log ++ [d.at n]) (hk : kind ≠ .removed)
    (hfit : ∀ w, m.Fits w → m'.Fits (w ++ [kind])) : L'.Matches static := by
  refine h.update hb hget hm hid hl hn (fun id lineage hne => ?_) ?_ ?_ hfit
  · rw [hlog]
    exact word_for_ne hd hne
  · rw [hlog]
    exact word_for_self hd
  · intro hr
    exact hk (List.mem_singleton.mp hr).symm

theorem Matches.added (h : L.Matches static) (hb : L.Books) (hget : L.members.get key = none) (hf : m.Fresh L.nextLineage)
    (hd : d.For m .added) : ((L.insert key m).emit d).Matches static := by
  have hinactive : m.isActive = false := Member.isActive_eq hf.state_eq
  have hempty : word L.log m.id m.lineage = [] := h.unborn _ _ (Nat.le_of_eq hf.lineage_eq.symm)
  have hother : ∀ id lineage, ¬ (m.id = id ∧ m.lineage = lineage) →
      word ((L.insert key m).emit d).log id lineage = word L.log id lineage := fun id lineage hne => word_for_ne hd hne
  have hself : word ((L.insert key m).emit d).log m.id m.lineage = [.added] := by
    show word (L.log ++ [d.at (L.seq + 1)]) m.id m.lineage = [.added]
    rw [word_for_self hd, hempty]
    rfl
  refine ⟨fun id lineage => ?_, fun id lineage hlt => ?_, fun k x hx => ?_⟩
  · show (L.insert key m).Has id lineage ↔ _
    rw [has_insert hget]
    by_cases hsame : m.id = id ∧ m.lineage = lineage
    · obtain ⟨rfl, rfl⟩ := hsame
      unfold Enrolled
      rw [hself]
      simp
    · unfold Enrolled
      rw [hother id lineage hsame, show (id = m.id ∧ lineage = m.lineage ↔ m.id = id ∧ m.lineage = lineage) from
        and_congr eq_comm eq_comm, or_iff_left hsame]
      exact h.has_iff id lineage
  · have hlt : L.nextLineage + 1 ≤ lineage := hlt
    have hne : ¬ (m.id = id ∧ m.lineage = lineage) := by
      intro he
      have := hf.lineage_eq
      omega
    rw [hother id lineage hne]
    exact h.unborn id lineage (by omega)
  · have hx : (L.members.insertAt key m).get k = some x := hx
    rw [Slab.get_insertAt] at hx
    split at hx
    · cases hx
      rw [hself]
      refine ⟨hf.lastExit_eq, ?_, fun hr => ?_⟩
      · unfold Member.Turned
        rw [hinactive]
        intro k hk
        cases hk
      · rw [hf.state_eq] at hr
        cases hr
    · have hne : ¬ (m.id = x.id ∧ m.lineage = x.lineage) := by
        intro he
        have hlt := hb.lineage_lt k x hx
        rw [← he.2, hf.lineage_eq] at hlt
        omega
      rw [hother _ _ hne]
      exact h.fits k x hx

theorem Matches.removed (h : L.Matches static) (hb : L.Books) (hget : L.members.get key = some m)
    (hd : d.For m .removed) : ((L.drop key m).emit d).Matches static := by
  have hother : ∀ id lineage, ¬ (m.id = id ∧ m.lineage = lineage) →
      word ((L.drop key m).emit d).log id lineage = word L.log id lineage := fun id lineage hne => word_for_ne hd hne
  have hrest : ∀ k x, ((L.drop key m).emit d).members.get k = some x ↔ k ≠ key ∧ L.members.get k = some x := by
    intro k x
    show (L.members.remove key).get k = some x ↔ _
    rw [Slab.get_remove]
    by_cases hk : k = key
    · simp [hk]
    · simp [hk]
  refine ⟨fun id lineage => ?_, fun id lineage hlt => ?_, fun k x hx => ?_⟩
  · by_cases hsame : m.id = id ∧ m.lineage = lineage
    · obtain ⟨rfl, rfl⟩ := hsame
      have hself : word ((L.drop key m).emit d).log m.id m.lineage = word L.log m.id m.lineage ++ [.removed] :=
        word_for_self hd
      refine ⟨fun ⟨k, x, hx, _, h2⟩ => ?_, fun he => ?_⟩
      · obtain ⟨hk, hx⟩ := (hrest k x).mp hx
        exact absurd (hb.lineage_inj k x key m hx hget h2) hk
      · refine absurd ?_ he.2
        rw [hself]
        exact List.mem_append_right _ (List.mem_singleton.mpr rfl)
    · unfold Enrolled
      rw [hother id lineage hsame]
      refine Iff.trans ⟨fun ⟨k, x, hx, h1, h2⟩ => ⟨k, x, ((hrest k x).mp hx).2, h1, h2⟩, fun ⟨k, x, hx, h1, h2⟩ => ?_⟩
        (h.has_iff id lineage)
      refine ⟨k, x, (hrest k x).mpr ⟨?_, hx⟩, h1, h2⟩
      intro hk
      subst hk
      rw [hget] at hx
      cases hx
      exact hsame ⟨h1, h2⟩
  · have hne : ¬ (m.id = id ∧ m.lineage = lineage) := by
      intro he
      have := hb.lineage_lt key m hget
      have hlt : L.nextLineage ≤ lineage := hlt
      omega
    rw [hother id lineage hne]
    exact h.unborn id lineage hlt
  · obtain ⟨hk, hx⟩ := (hrest k x).mp hx
    have hne : ¬ (m.id = x.id ∧ m.lineage = x.lineage) := fun he => hk (hb.lineage_inj k x key m hx hget he.2.symm)
    rw [hother _ _ hne]
    exact h.fits k x hx

theorem Fits.spawned {task : TaskId} (hidle : m.state.isIdle = true) (hg : m.definition.readiness.isGated = true)
    {w : List ChildEventKind} (h : m.Fits w) : (m.spawn task).Fits w := by
  have hi : m.definition.readiness ≠ .immediate := by
    intro hi
    rw [hi] at hg
    cases hg
  have hr : (m.spawn task).hasReportedReady = false := decide_eq_false hi
  refine ⟨h.exit_eq, h.turned.idle (isActive_of_isIdle hidle) hr, fun hst => ?_⟩
  have hst : (if m.definition.readiness = .immediate then RuntimeChildState.running else .starting) = .running := hst
  rw [if_neg hi] at hst
  cases hst

theorem Fits.spawnedReady {task : TaskId} (hi : m.definition.readiness = .immediate) {w : List ChildEventKind}
    (h : m.Fits w) : (m.spawn task).Fits (w ++ [.started (m.spawn task).generation]) := by
  have hr : (m.spawn task).hasReportedReady = true := decide_eq_true hi
  refine ⟨?_, ?_, fun _ => hr⟩
  · rw [latestExit_started]
    exact h.exit_eq
  · unfold Member.Turned
    rw [hr, isActive_spawn, latestTurn_started]
    rfl

theorem Fits.ready {w : List ChildEventKind} (h : m.Fits w) : m.ready.Fits (w ++ [.started m.generation]) := by
  refine ⟨?_, ?_, fun _ => rfl⟩
  · rw [latestExit_started]
    exact h.exit_eq
  · rw [latestTurn_started]
    rfl

theorem Fits.exit {w : List ChildEventKind} (g : Nat) (x : ExitStatus) : (m.exit x).Fits (w ++ [.exited g x]) := by
  refine ⟨?_, ?_, nofun⟩
  · rw [latestExit_exited]
    rfl
  · rw [latestTurn_exited]
    intro k hk
    cases hk
    exact ⟨g, x, rfl⟩

/-- An event that says nothing of exits or turns. -/
theorem Fits.scheduled {w : List ChildEventKind} (g : Nat) (delay : Duration) (h : m.Fits w) :
    m.Fits (w ++ [.restartScheduled g delay]) := by
  refine ⟨?_, ?_, h.running⟩
  · rw [latestExit_scheduled]
    exact h.exit_eq
  · rw [latestTurn_scheduled]
    exact h.turned

theorem Fits.added {w : List ChildEventKind} (h : m.Fits w) : m.Fits (w ++ [.added]) := by
  refine ⟨?_, ?_, h.running⟩
  · rw [latestExit_added]
    exact h.exit_eq
  · rw [latestTurn_added]
    exact h.turned

theorem sets_self (hget : L.members.get key = some m) (hm : L'.members = L.members) : L.Sets key m L' := by
  intro k
  rw [hm]
  by_cases hk : k = key
  · rw [if_pos hk, hk]
    exact hget
  · rw [if_neg hk]

theorem step_matches {l : Label} (hs : Step l L L') (hb : L.Books) (h : L.Matches static) : L'.Matches static := by
  cases hs with
  | announced hget hd =>
    exact h.event hb hget (sets_self hget rfl) rfl rfl rfl hd rfl nofun fun _ => Fits.added
  | added hget _ hf hd => exact h.added hb hget hf hd
  | spawned hget _ hidle _ _ hg =>
    exact h.quiet hb hget (fun k => Slab.get_insertAt ..) rfl rfl rfl rfl fun _ => Fits.spawned hidle hg
  | spawnedReady hget _ _ _ _ hi hd =>
    exact h.event hb hget (fun k => Slab.get_insertAt ..) rfl rfl rfl hd rfl nofun fun _ => Fits.spawnedReady hi
  | refused hget href => exact absurd href (hb.accepted _ _ hget)
  | received _ hc _ _ _ hd =>
    exact h.event hb hc.1 (fun k => get_put k) rfl rfl rfl hd rfl nofun fun _ => Fits.ready
  | exited _ hc hd =>
    exact h.event hb hc.1 (fun k => get_put k) rfl rfl rfl hd rfl nofun fun _ _ => Fits.exit _ _
  | scheduled hget _ hd =>
    exact h.event hb hget (sets_self hget rfl) rfl rfl rfl hd rfl nofun fun _ => Fits.scheduled _ _
  | removed hget hd => exact h.removed hb hget hd
  | stopped hget hact =>
    refine h.quiet hb hget sets_put rfl rfl rfl rfl fun w hw => ⟨hw.exit_eq, ?_, nofun⟩
    exact hw.turned.congr hact.symm (fun _ => rfl) rfl
  | removing hget =>
    rename_i key m
    refine h.quiet hb hget sets_put rfl rfl rfl rfl fun w hw => ⟨hw.exit_eq, ?_, fun hst => ?_⟩
    · refine hw.turned.congr ?_ (fun _ => rfl) rfl
      unfold Member.remove Member.isActive
      simp only
      split
      · rename_i ha
        rw [ha]
        rfl
      · rfl
    · have hst : (if m.state.isActive = true then RuntimeChildState.stopping else m.state) = .running := hst
      split at hst
      · cases hst
      · exact hw.running hst
  | queued hget _ hidle =>
    refine h.quiet hb hget sets_put rfl rfl rfl rfl fun w hw => ⟨hw.exit_eq, ?_, nofun⟩
    exact hw.turned.idle (isActive_of_isIdle hidle) rfl
  | flagged _ hget _ =>
    refine h.quiet hb hget sets_put rfl rfl rfl rfl fun w hw => ⟨hw.exit_eq, ?_, hw.running⟩
    exact hw.turned.congr rfl (fun _ => rfl) rfl
  | _ => exact h.congr rfl rfl rfl

/-! ## What a snapshot shows -/

theorem view_lastExit (m : Member) : m.view.lastExit = m.lastExit := by
  unfold Member.view
  cases m.state with
  | stopped =>
    simp only
    split
    · split
      · rename_i h
        exact h.symm
      · rename_i h
        exact h.symm
    · rfl
  | _ => rfl

theorem state_of_view_running {x : Option ExitStatus} (h : m.view = .running x) : m.state = .running := by
  unfold Member.view at h
  cases hs : m.state with
  | running => rfl
  | stopped =>
    rw [hs] at h
    simp only at h
    split at h
    · split at h
      · cases h
      · cases h
    · cases h
  | _ =>
    rw [hs] at h
    cases h

theorem state_of_view_stopped (h : (∃ started x, m.view = .stopped started x) ∨ ∃ x, m.view = .startupAborted x) :
    m.state = .stopped := by
  unfold Member.view at h
  cases hs : m.state with
  | stopped => rfl
  | _ =>
    rw [hs] at h
    simp at h

/-- A snapshot taken of a ledger that agrees with its log agrees with that log. -/
theorem Matches.agrees {s : SupervisorSnapshot} (h : L.Matches static) (hb : L.Books) (hs : s.rows = L.rows) :
    Agrees static L.log s := by
  have hrow : ∀ c ∈ s.children, ∃ k m, L.members.get k = some m ∧ m.id = c.id ∧ m.lineage = c.lineage ∧
      m.generation = c.generation ∧ m.view = c.state := by
    intro c hc
    have hmem : (c.id, c.lineage, c.generation, c.state) ∈ L.rows := hs ▸ List.mem_map.mpr ⟨c, hc, rfl⟩
    obtain ⟨k, -, hk⟩ := List.mem_filterMap.mp hmem
    obtain ⟨m, hm, he⟩ := Option.map_eq_some_iff.mp hk
    simp only [Prod.mk.injEq] at he
    exact ⟨k, m, hm, he.1, he.2.1, he.2.2.1, he.2.2.2⟩
  refine ⟨fun id lineage => Iff.trans ⟨?_, ?_⟩ (h.has_iff id lineage), fun c hc => ?_, fun c hc x hx => ?_, fun c hc hst => ?_⟩
  · intro ⟨c, hc, h1, h2⟩
    obtain ⟨k, m, hm, hid, hl, -⟩ := hrow c hc
    exact ⟨k, m, hm, hid.trans h1, hl.trans h2⟩
  · intro ⟨k, m, hm, h1, h2⟩
    have hmem : (m.id, m.lineage, m.generation, m.view) ∈ s.rows := by
      rw [hs]
      exact List.mem_filterMap.mpr ⟨k, (hb.order_mem k).mpr ⟨m, hm⟩, by rw [hm]; rfl⟩
    obtain ⟨c, hc, he⟩ := List.mem_map.mp hmem
    simp only [Prod.mk.injEq] at he
    exact ⟨c, hc, he.1.trans h1, he.2.1.trans h2⟩
  · obtain ⟨k, m, hm, hid, hl, -, hv⟩ := hrow c hc
    rw [← hv, view_lastExit, ← hid, ← hl]
    exact (h.fits k m hm).exit_eq
  · obtain ⟨k, m, hm, hid, hl, hg, hv⟩ := hrow c hc
    have hrun := state_of_view_running (hv.trans hx)
    have hfit := h.fits k m hm
    have hact : m.isActive = true := Member.isActive_eq hrun
    have hturn := hfit.turned
    unfold Member.Turned at hturn
    rw [hact, hfit.running hrun] at hturn
    rw [← hid, ← hl, ← hg]
    exact hturn
  · obtain ⟨k, m, hm, hid, hl, -, hv⟩ := hrow c hc
    rw [← hv] at hst
    have hinactive : m.isActive = false := Member.isActive_eq (state_of_view_stopped hst)
    have hturn := (h.fits k m hm).turned
    unfold Member.Turned at hturn
    rw [hinactive] at hturn
    rw [← hid, ← hl]
    exact hturn

/-! ## The sequence boundary -/

/-- The events up to a sequence. -/
def upTo (log : List ChildEvent) (n : Nat) : List ChildEvent := log.filter fun e => decide (e.seq ≤ n)

structure Recorded (static : List (String × Nat)) (L : Ledger) : Prop where
  agreed : L.Matches static
  seq_le : ∀ e ∈ L.log, e.seq ≤ L.seq
  sorted : L.log.Pairwise fun e e' => e.seq < e'.seq
  shown : ∀ s ∈ L.published, s.lifecycleSeq ≤ L.seq ∧ Agrees static (upTo L.log s.lifecycleSeq) s
  ordered : L.published.Pairwise fun s s' => s.lifecycleSeq ≤ s'.lifecycleSeq

theorem upTo_all {log : List ChildEvent} {n : Nat} (h : ∀ e ∈ log, e.seq ≤ n) : upTo log n = log :=
  List.filter_eq_self.mpr fun e he => decide_eq_true (h e he)

/-- A later event is on the far side of the boundary. -/
theorem upTo_append {log : List ChildEvent} {e : ChildEvent} {n : Nat} (h : n < e.seq) : upTo (log ++ [e]) n = upTo log n := by
  unfold upTo
  rw [List.filter_append, List.filter_cons_of_neg (by simpa using h), List.filter_nil, List.append_nil]

/-- A step either keeps the log, its counter and the snapshots, or publishes, or emits. -/
theorem step_log {l : Label} (hs : Step l L L') :
    (L'.log = L.log ∧ L'.seq = L.seq ∧ L'.published = L.published) ∨
      (∃ s, s.lifecycleSeq = L.seq ∧ s.rows = L.rows ∧ L' = { L with published := L.published ++ [s] }) ∨
      ∃ e, e.seq = L.seq + 1 ∧ L'.log = L.log ++ [e] ∧ L'.seq = L.seq + 1 ∧ L'.published = L.published := by
  cases hs with
  | publish s hseq hrows => exact .inr (.inl ⟨s, hseq, hrows, rfl⟩)
  | announced => exact .inr (.inr ⟨_, rfl, rfl, rfl, rfl⟩)
  | added => exact .inr (.inr ⟨_, rfl, rfl, rfl, rfl⟩)
  | spawnedReady => exact .inr (.inr ⟨_, rfl, rfl, rfl, rfl⟩)
  | received => exact .inr (.inr ⟨_, rfl, rfl, rfl, rfl⟩)
  | exited => exact .inr (.inr ⟨_, rfl, rfl, rfl, rfl⟩)
  | scheduled => exact .inr (.inr ⟨_, rfl, rfl, rfl, rfl⟩)
  | removed => exact .inr (.inr ⟨_, rfl, rfl, rfl, rfl⟩)
  | _ => exact .inl ⟨rfl, rfl, rfl⟩

theorem step_recorded {l : Label} (hs : Step l L L') (hb : L.Books) (h : L.Recorded static) : L'.Recorded static := by
  have hagreed := step_matches hs hb h.agreed
  rcases step_log hs with ⟨hlog, hseq, hpub⟩ | ⟨s, hseq, hrows, rfl⟩ | ⟨e, he, hlog, hseq, hpub⟩
  · refine ⟨hagreed, ?_, ?_, ?_, ?_⟩
    · rw [hlog, hseq]
      exact h.seq_le
    · rw [hlog]
      exact h.sorted
    · rw [hlog, hseq, hpub]
      exact h.shown
    · rw [hpub]
      exact h.ordered
  · refine ⟨hagreed, h.seq_le, h.sorted, fun s' hs' => ?_, List.pairwise_append.mpr ⟨h.ordered, List.pairwise_singleton .., ?_⟩⟩
    · rcases List.mem_append.mp hs' with hs' | hs'
      · exact h.shown s' hs'
      · rw [List.mem_singleton.mp hs', hseq, upTo_all h.seq_le]
        exact ⟨Nat.le_refl _, h.agreed.agrees hb hrows⟩
    · intro s1 h1 s2 h2
      rw [List.mem_singleton.mp h2, hseq]
      exact (h.shown s1 h1).1
  · refine ⟨hagreed, fun e' he' => ?_, ?_, fun s hs' => ?_, ?_⟩
    · rw [hlog] at he'
      rcases List.mem_append.mp he' with he' | he'
      · have := h.seq_le e' he'
        omega
      · rw [List.mem_singleton.mp he']
        omega
    · rw [hlog]
      refine List.pairwise_append.mpr ⟨h.sorted, List.pairwise_singleton .., fun e1 h1 e2 h2 => ?_⟩
      rw [List.mem_singleton.mp h2, he]
      exact Nat.lt_succ_of_le (h.seq_le e1 h1)
    · rw [hpub] at hs'
      obtain ⟨hle, hag⟩ := h.shown s hs'
      refine ⟨by omega, ?_⟩
      rw [hlog, upTo_append (by omega)]
      exact hag
    · rw [hpub]
      exact h.ordered

end Ledger

/-! ## The observer's reducer -/

/-- What a reducer keeps of each membership: nothing, or its latest exit. -/
abbrev Roster := String → Nat → Option (Option ExitStatus)

def SupervisorSnapshot.roster (s : SupervisorSnapshot) : Roster := fun id lineage =>
  (s.children.find? fun c => c.id = id && c.lineage = lineage).map (·.state.lastExit)

/-- One transition. The snapshot may already have a member whose `Added` is to come. -/
def Roster.apply (r : Roster) (e : ChildEvent) : Roster := fun id lineage =>
  if e.childId = id ∧ e.lineage = lineage then
    match e.kind with
    | .added => some ((r id lineage).getD none)
    | .exited _ x => (r id lineage).map fun _ => some x
    | .removed => none
    | .started _ | .restartScheduled _ _ => r id lineage
  else r id lineage

/-- The roster a log tells. -/
noncomputable def rosterOf (static : List (String × Nat)) (log : List ChildEvent) : Roster := fun id lineage =>
  open Classical in if Enrolled static log id lineage then some (latestExit (word log id lineage)) else none

theorem Agrees.roster {static : List (String × Nat)} {log : List ChildEvent} {s : SupervisorSnapshot}
    (h : Agrees static log s) : s.roster = rosterOf static log := by
  funext id lineage
  unfold SupervisorSnapshot.roster rosterOf
  cases hf : s.children.find? fun c => c.id = id && c.lineage = lineage with
  | none =>
    have hnot : ¬ Enrolled static log id lineage := by
      rw [← h.member_iff]
      intro ⟨c, hc, h1, h2⟩
      have := List.find?_eq_none.mp hf c hc
      simp [h1, h2] at this
    rw [if_neg hnot]
    rfl
  | some c =>
    have hc := List.mem_of_find?_eq_some hf
    have hp := List.find?_some hf
    simp only [Bool.and_eq_true, decide_eq_true_eq] at hp
    obtain ⟨rfl, rfl⟩ := hp
    rw [if_pos ((h.member_iff _ _).mp ⟨c, hc, rfl, rfl⟩), Option.map_some, h.exit_eq c hc]

/-- Nothing precedes the `Added` of a membership. -/
def AddedFirst (log : List ChildEvent) : Prop :=
  ∀ before e after, log = before ++ e :: after → e.kind = .added → word before e.childId e.lineage = []

theorem rosterOf_append {static : List (String × Nat)} {log : List ChildEvent} {e : ChildEvent}
    (h : e.kind = .added → word log e.childId e.lineage = []) :
    rosterOf static (log ++ [e]) = (rosterOf static log).apply e := by
  funext id lineage
  unfold Roster.apply rosterOf Enrolled
  rw [word_append]
  by_cases hsame : e.childId = id ∧ e.lineage = lineage
  · obtain ⟨rfl, rfl⟩ := hsame
    simp only [and_self, if_true, List.mem_append, List.mem_singleton]
    cases hk : e.kind with
    | added =>
      rw [h hk]
      by_cases hstatic : (e.childId, e.lineage) ∈ static
      · simp [hstatic, latestExit]
      · simp [hstatic, latestExit]
    | started g => simp
    | exited g x =>
      by_cases hin : ((e.childId, e.lineage) ∈ static ∨ .added ∈ word log e.childId e.lineage) ∧
          .removed ∉ word log e.childId e.lineage
      · simp [hin]
      · rw [if_neg hin, if_neg]
        · rfl
        · simpa using hin
    | removed => simp
    | restartScheduled g d => simp
  · rw [if_neg hsame, if_neg hsame, List.append_nil]

theorem rosterOf_fold {static : List (String × Nat)} : ∀ (after before : List ChildEvent), AddedFirst (before ++ after) →
    after.foldl Roster.apply (rosterOf static before) = rosterOf static (before ++ after)
  | [], before, _ => by rw [List.foldl_nil, List.append_nil]
  | e :: after, before, h => by
    have hsplit : before ++ e :: after = (before ++ [e]) ++ after := by simp
    rw [List.foldl_cons, ← rosterOf_append (h before e after rfl), hsplit]
    exact rosterOf_fold after (before ++ [e]) (hsplit ▸ h)

/-- A word of the grammar has its `Added` first. -/
theorem Life.added_first {w : List ChildEventKind} {s : Stage} (h : Life w s) :
    ∀ before after, w = before ++ .added :: after → before = [] := by
  have hsnoc : ∀ {u : List ChildEventKind} {k}, k ≠ .added → (∀ before after, u = before ++ .added :: after → before = []) →
      ∀ before after, u ++ [k] = before ++ .added :: after → before = [] := by
    intro u k hk ih before after he
    rcases List.append_eq_append_iff.mp he with ⟨v, hv, hk'⟩ | ⟨v, hv, hk'⟩
    · cases v with
      | nil =>
        rw [List.nil_append, List.cons.injEq] at hk'
        exact absurd hk'.1 hk
      | cons a v =>
        have := congrArg List.length hk'
        simp at this
    · cases v with
      | nil =>
        rw [List.nil_append, List.cons.injEq] at hk'
        exact absurd hk'.1.symm hk
      | cons a v =>
        rw [List.cons_append, List.cons.injEq] at hk'
        obtain ⟨rfl, -⟩ := hk'
        exact ih before v hv
  induction h with
  | added =>
    intro before after he
    cases before with
    | nil => rfl
    | cons a before =>
      have := congrArg List.length he
      simp at this
  | started _ ih => exact hsnoc nofun ih
  | aborted _ _ ih => exact hsnoc nofun ih
  | exited _ _ ih => exact hsnoc nofun ih
  | scheduled _ _ ih => exact hsnoc nofun ih
  | removed _ _ ih => exact hsnoc nofun ih

theorem addedFirst_of_told {L : Ledger} (h : L.Told) {before rest : List ChildEvent} (hlog : L.log = before ++ rest) :
    AddedFirst before := by
  intro u e v he hk
  have hword : word L.log e.childId e.lineage =
      word u e.childId e.lineage ++ .added :: word (v ++ rest) e.childId e.lineage := by
    rw [hlog, he]
    unfold word
    simp [hk]
  rcases h.grammatical e.childId e.lineage with hw | ⟨s, hs⟩
  · rw [hword] at hw
    simp at hw
  · exact hs.added_first _ _ hword

/-- A sorted log splits at a sequence boundary. -/
theorem upTo_split {n n' : Nat} {log : List ChildEvent} (hn : n ≤ n') (h : log.Pairwise fun e e' => e.seq < e'.seq) :
    upTo log n' = upTo log n ++ log.filter fun e => decide (n < e.seq) && decide (e.seq ≤ n') := by
  induction log with
  | nil => rfl
  | cons e log ih =>
    obtain ⟨hfirst, h⟩ := List.pairwise_cons.mp h
    have ih := ih h
    unfold upTo at *
    by_cases hle : e.seq ≤ n
    · have hle' : e.seq ≤ n' := by omega
      simp only [List.filter_cons, hle, hle', decide_true, if_true, ih, List.cons_append, Bool.and_true,
        show ¬ n < e.seq by omega, decide_false, Bool.false_eq_true, if_false]
    · have hnone : log.filter (fun e => decide (e.seq ≤ n)) = [] := by
        refine List.filter_eq_nil_iff.mpr fun e' he' => ?_
        have := hfirst e' he'
        simp only [decide_eq_true_eq]
        omega
      rw [hnone, List.nil_append] at ih
      simp only [List.filter_cons, hle, decide_false, Bool.false_eq_true, if_false, hnone, List.nil_append,
        show n < e.seq by omega, decide_true, Bool.true_and, ih]

theorem upTo_append_rest {n : Nat} {log : List ChildEvent} (h : log.Pairwise fun e e' => e.seq < e'.seq) :
    ∃ rest, log = upTo log n ++ rest := by
  induction log with
  | nil => exact ⟨[], rfl⟩
  | cons e log ih =>
    obtain ⟨hfirst, h⟩ := List.pairwise_cons.mp h
    by_cases hle : e.seq ≤ n
    · obtain ⟨rest, hrest⟩ := ih h
      refine ⟨rest, ?_⟩
      unfold upTo at *
      rw [List.filter_cons_of_pos (by simpa using hle), List.cons_append, ← hrest]
    · refine ⟨e :: log, ?_⟩
      have hnone : upTo (e :: log) n = [] := by
        refine List.filter_eq_nil_iff.mpr fun e' he' => ?_
        simp only [decide_eq_true_eq]
        rcases List.mem_cons.mp he' with rfl | he'
        · exact hle
        · have := hfirst e' he'
          omega
      rw [hnone, List.nil_append]

/-! ## Runs -/

theorem blank_recorded (c : SupervisorConfig) (b : Binding) :
    (SupervisorRuntime.new c b).ledger.Recorded (c.static b) := by
  obtain ⟨hblank, hhas⟩ := new_blank c b
  have hlog := hblank.log_eq
  have hword : ∀ id lineage, word (SupervisorRuntime.new c b).ledger.log id lineage = [] := by
    intro id lineage
    rw [hlog]
    rfl
  refine ⟨⟨fun id lineage => ?_, fun id lineage _ => hword id lineage, fun k m hm => ?_⟩, ?_, ?_, ?_, ?_⟩
  · unfold Enrolled
    rw [hhas, hword]
    simp
  · have hf := hblank.fresh k m hm
    rw [hword]
    refine ⟨hf.lastExit_eq, ?_, fun hr => ?_⟩
    · have hinactive : m.isActive = false := Member.isActive_eq hf.state_eq
      unfold Member.Turned
      rw [hinactive]
      intro k hk
      cases hk
    · rw [hf.state_eq] at hr
      cases hr
  · rw [hlog]
    exact nofun
  · rw [hlog]
    exact List.Pairwise.nil
  · rw [hblank.published_eq]
    exact nofun
  · rw [hblank.published_eq]
    exact List.Pairwise.nil

/-- In every run every published snapshot agrees with the events up to its sequence, and
    the events between two snapshots take the first to the second. -/
theorem run_snapshots (c : SupervisorConfig) (b : Binding) (inputs : List Input) :
    let rt := (run (start c b) inputs).rt
    (∀ s ∈ rt.published, Agrees (c.static b) (rt.log.filter fun e => decide (e.seq ≤ s.lifecycleSeq)) s) ∧
      rt.published.Pairwise fun s s' =>
        (rt.log.filter fun e => decide (s.lifecycleSeq < e.seq) && decide (e.seq ≤ s'.lifecycleSeq)).foldl
          Roster.apply s.roster = s'.roster := by
  intro rt
  have hrec : rt.ledger.Recorded (c.static b) :=
    run_keeps_all c b (fun _ => blank_recorded c b) step_recorded inputs
  have htold : rt.ledger.Told := run_keeps (fun L => Announcing.toldAll) step_told c b inputs
  refine ⟨fun s hs => (hrec.shown s hs).2, ?_⟩
  refine hrec.ordered.imp_of_mem fun {s s'} hs hs' hle => ?_
  have hsplit := upTo_split hle hrec.sorted
  obtain ⟨rest, hrest⟩ := @upTo_append_rest s'.lifecycleSeq rt.ledger.log hrec.sorted
  have hfirst := addedFirst_of_told htold hrest
  rw [hsplit] at hfirst
  rw [(hrec.shown s hs).2.roster, (hrec.shown s' hs').2.roster, hsplit]
  exact rosterOf_fold _ _ hfirst

end Kokage.Supervisor

/-
  Kokage.Supervisor.Staging — the order in which an ordered scope starts its children.

  `Kept` holds at every moment of a run: the children are those declared, in their order;
  a child that has been spawned comes after settled ones; the parent is told at most once
  and not too early. `Staged` holds where the supervisor awaits its next wake: the queue
  is the queued children in order, and while it is not empty the gate is held by a child
  on its way. `Popping` is what the queue's loop needs, `Held` what a group restart keeps
  while its drain runs, `Rebuilding` its respawn.

  A child has passed (`Passed`) once it has reported ready or has exited and its policy
  did not restart it; events are never taken back. It is settled (`Settled`) if besides,
  unless it was ready, it still lies stopped: a group restart starts such a child again,
  and only once nobody declared after it is up in its first generation.
-/

import Mathlib.Data.List.Nodup
import Kokage.Supervisor.Halting

namespace Kokage.Supervisor

/-- A declared child: its key, identity and definition. -/
structure Seat where
  key : ChildKey
  id : String
  lineage : Nat
  definition : ChildDefinition

def Seat.isGated (s : Seat) : Bool := s.definition.readiness.isGated

namespace Post

def seat (p : Post) (key : ChildKey) : Seat := ⟨key, p.id, p.lineage, p.definition⟩

/-- Nothing runs and no restart is pending: the child waits for the start sequence. -/
def Waits (p : Post) : Prop := p.state = .startQueued ∨ p.state = .stopped ∧ p.due = false

/-- The latest exit was not to be restarted. -/
def Over (p : Post) : Prop := ∃ x, p.lastExit = some x ∧ p.definition.restart.shouldRestart x.isFailure = false

/-- It lies stopped for good, unless its group is restarted. -/
def Done (p : Post) : Prop := p.state = .stopped ∧ p.due = false ∧ p.Over

/-- The first generation is up. -/
def Up (p : Post) : Prop := p.generation = 0 ∧ (p.state = .starting ∨ p.state = .running)

/-- The child runs and is not ready, or will be restarted. -/
def OnTheWay (p : Post) : Prop := p.state = .starting ∨ p.state = .stopping ∨ p.state = .stopped ∧ p.due = true

end Post

namespace Lane

variable {L L' : Lane} {roster : List Seat} {key : ChildKey} {p p' : Post}

def isQueued (L : Lane) (k : ChildKey) : Bool := (L.posts k).any (·.state = .startQueued)

def Passed (L : Lane) (s : Seat) : Prop :=
  News.started s.id s.lineage ∈ L.news ∨
    ∃ x, News.exited s.id s.lineage x ∈ L.news ∧ s.definition.restart.shouldRestart x.isFailure = false

/-- It was ready, or it exited for good and has not been started again since. -/
def Settled (L : Lane) (s : Seat) : Prop :=
  News.started s.id s.lineage ∈ L.news ∨ L.Passed s ∧ ∀ p, L.posts s.key = some p → p.Done

/-- The child became ready or was removed. -/
def Heard (L : Lane) (s : Seat) : Prop := News.started s.id s.lineage ∈ L.news ∨ News.removed s.id s.lineage ∈ L.news

/-- While the parent waits it has not been told, and no child it waits for is forgotten. -/
def Told (roster : List Seat) (L : Lane) : Prop :=
  match L.startup with
  | some pending => L.told = 0 ∧ ∀ s ∈ roster, L.Heard s ∨ (s.key, s.lineage) ∈ pending
  | none => L.told = 0 ∨ L.told = 1 ∧ ∀ s ∈ roster, L.Heard s

structure Kept (roster : List Seat) (L : Lane) : Prop where
  kind_eq : L.kind = .ordered
  commands_eq : L.commands = []
  keys_nodup : (roster.map (·.key)).Nodup
  seated : ∀ k p, L.posts k = some p → p.seat k ∈ roster
  active : ∀ k p, L.posts k = some p → p.membership = .active
  willing : L.Willing
  order_eq : L.order = (roster.map (·.key)).filter fun k => (L.posts k).isSome
  ready : ∀ k p, L.posts k = some p → p.hasReportedReady = true → News.started p.id p.lineage ∈ L.news
  exited : ∀ k p, L.posts k = some p → p.state = .stopped → p.hasStarted = true → ∃ x, p.lastExit = some x
  exits : ∀ k p x, L.posts k = some p → p.lastExit = some x → News.exited p.id p.lineage x ∈ L.news
  earlier : ∀ before s after p, roster = before ++ s :: after → L.posts s.key = some p → p.hasStarted = true →
    ∀ e ∈ before, e.isGated = true → L.Passed e
  upheld : ∀ before s after p, roster = before ++ s :: after → L.posts s.key = some p → p.Up →
    ∀ e ∈ before, e.isGated = true → L.Settled e
  told : L.Told roster

/-! ## What is kept -/

theorem Passed.mono {s : Seat} (h : L.Passed s) (hn : ∀ n ∈ L.news, n ∈ L'.news) : L'.Passed s := by
  rcases h with h | ⟨x, h, hx⟩
  · exact .inl (hn _ h)
  · exact .inr ⟨x, hn _ h, hx⟩

theorem Settled.passed {s : Seat} (h : L.Settled s) : L.Passed s := by
  rcases h with h | ⟨h, -⟩
  · exact .inl h
  · exact h

/-- A settled child stays settled unless it is started while it lies stopped. -/
theorem Settled.mono {s : Seat} (h : L.Settled s) (hn : ∀ n ∈ L.news, n ∈ L'.news)
    (hp : ∀ p', L'.posts s.key = some p' → p'.Done ∨ L.posts s.key = some p' ∨ ∃ p, L.posts s.key = some p ∧ ¬ p.Done) :
    L'.Settled s := by
  rcases h with h | ⟨h, hdone⟩
  · exact .inl (hn _ h)
  · refine .inr ⟨h.mono hn, fun p' hp' => ?_⟩
    rcases hp p' hp' with hd | hsame | ⟨p, hget, hnot⟩
    · exact hd
    · exact hdone p' hsame
    · exact absurd (hdone p hget) hnot

theorem Settled.still {s : Seat} (h : L.Settled s) (hn : ∀ n ∈ L.news, n ∈ L'.news)
    (hp : L'.posts s.key = L.posts s.key) : L'.Settled s :=
  h.mono hn fun _ hget => .inr (.inl (hp ▸ hget))

theorem Heard.mono {s : Seat} (h : L.Heard s) (hn : ∀ n ∈ L.news, n ∈ L'.news) : L'.Heard s := by
  rcases h with h | h
  · exact .inl (hn _ h)
  · exact .inr (hn _ h)

theorem Told.mono (h : L.Told roster) (hs : L'.startup = L.startup) (ht : L'.told = L.told)
    (hn : ∀ n ∈ L.news, n ∈ L'.news) : L'.Told roster := by
  unfold Told at *
  rw [hs, ht]
  split
  · rename_i pending hp
    rw [hp] at h
    refine ⟨h.1, fun s hs => ?_⟩
    rcases h.2 s hs with h' | h'
    · exact .inl (h'.mono hn)
    · exact .inr h'
  · rename_i hp
    rw [hp] at h
    rcases h with h | h
    · exact .inl h
    · exact .inr ⟨h.1, fun s hs => (h.2 s hs).mono hn⟩

/-- The queue and its gate do not matter. -/
theorem Kept.requeue (h : Kept roster L) (queue : List StartItem) (gate : Option StartGate) :
    Kept roster { L with queue := queue, gate := gate } where
  kind_eq := h.kind_eq
  commands_eq := h.commands_eq
  keys_nodup := h.keys_nodup
  seated := h.seated
  active := h.active
  willing := h.willing
  order_eq := h.order_eq
  ready := h.ready
  exited := h.exited
  exits := h.exits
  earlier := h.earlier
  upheld := h.upheld
  told := h.told

theorem Kept.tell (h : Kept roster L) (news : List News) : Kept roster (L.tell news) where
  kind_eq := h.kind_eq
  commands_eq := h.commands_eq
  keys_nodup := h.keys_nodup
  seated := h.seated
  active := h.active
  willing := h.willing
  order_eq := h.order_eq
  ready k p hp hr := List.mem_append_left _ (h.ready k p hp hr)
  exited := h.exited
  exits k p x hp hx := List.mem_append_left _ (h.exits k p x hp hx)
  earlier before s after p hr hp hs e he hg :=
    (h.earlier before s after p hr hp hs e he hg).mono fun _ hn => List.mem_append_left _ hn
  upheld before s after p hr hp hu e he hg :=
    (h.upheld before s after p hr hp hu e he hg).still (fun _ hn => List.mem_append_left _ hn) rfl
  told := h.told.mono rfl rfl fun _ hn => List.mem_append_left _ hn

/-- What stays with a child while it is declared. -/
structure Same (p p' : Post) : Prop where
  id_eq : p'.id = p.id
  lineage_eq : p'.lineage = p.lineage
  definition_eq : p'.definition = p.definition
  membership_eq : p'.membership = p.membership
  refuses_eq : p'.refuses = p.refuses

theorem Same.seat (h : Same p p') (key : ChildKey) : p'.seat key = p.seat key := by
  unfold Post.seat
  rw [h.id_eq, h.lineage_eq, h.definition_eq]

/-- Keys name seats. -/
theorem Kept.key_ne (h : Kept roster L) {before after : List Seat} {s e : Seat} (hr : roster = before ++ s :: after)
    (he : e ∈ before) : e.key ≠ s.key := by
  have hn := h.keys_nodup
  rw [hr, List.map_append, List.map_cons] at hn
  exact (List.nodup_append.mp hn).2.2 _ (List.mem_map.mpr ⟨e, he, rfl⟩) _ (List.mem_cons_self ..)

/-- A change of one child: it may be started if those declared before it have settled, and
    started again if nobody declared after it is up. -/
theorem Kept.put (h : Kept roster L) (hget : L.posts key = some p) (hs : Same p p')
    (hready : p'.hasReportedReady = true → News.started p.id p.lineage ∈ L.news)
    (hexited : p'.state = .stopped → p'.hasStarted = true → ∃ x, p'.lastExit = some x)
    (hexit : ∀ x, p'.lastExit = some x → News.exited p.id p.lineage x ∈ L.news)
    (hearlier : p'.hasStarted = true → ∀ before s after, roster = before ++ s :: after → s.key = key →
      ∀ e ∈ before, e.isGated = true → L.Passed e)
    (hup : p'.Up → ∀ before s after, roster = before ++ s :: after → s.key = key →
      ∀ e ∈ before, e.isGated = true → L.Settled e)
    (hdone : (p.Done → p'.Done) ∨ ∀ before s after q, roster = before ++ s :: after → key ∈ before.map (·.key) →
      L.posts s.key = some q → ¬ q.Up) : Kept roster (L.put key p') := by
  -- every child of the new lane is the changed one or an old one
  have hold : ∀ k q, (L.put key p').posts k = some q → k = key ∧ q = p' ∨ L.posts k = some q := by
    intro k q hq
    rw [put_get] at hq
    split at hq
    · cases hq
      exact .inl ⟨‹_›, rfl⟩
    · exact .inr hq
  have hsome : ∀ k, ((L.put key p').posts k).isSome = (L.posts k).isSome := by
    intro k
    rw [put_get]
    split
    · rename_i hk
      rw [hk, hget]
      rfl
    · rfl
  constructor
  case kind_eq => exact h.kind_eq
  case commands_eq => exact h.commands_eq
  case keys_nodup => exact h.keys_nodup
  case seated =>
    intro k q hq
    obtain ⟨rfl, rfl⟩ | hq := hold k q hq
    · rw [hs.seat]
      exact h.seated k p hget
    · exact h.seated k q hq
  case active =>
    intro k q hq
    obtain ⟨rfl, rfl⟩ | hq := hold k q hq
    · rw [hs.membership_eq]
      exact h.active k p hget
    · exact h.active k q hq
  case willing => exact h.willing.put (hs.refuses_eq.trans (h.willing key p hget))
  case order_eq =>
    simp only [hsome]
    exact h.order_eq
  case ready =>
    intro k q hq hr
    obtain ⟨rfl, rfl⟩ | hq := hold k q hq
    · rw [hs.id_eq, hs.lineage_eq]
      exact hready hr
    · exact h.ready k q hq hr
  case exited =>
    intro k q hq
    obtain ⟨rfl, rfl⟩ | hq := hold k q hq
    · exact hexited
    · exact h.exited k q hq
  case exits =>
    intro k q x hq hx
    obtain ⟨rfl, rfl⟩ | hq := hold k q hq
    · rw [hs.id_eq, hs.lineage_eq]
      exact hexit x hx
    · exact h.exits k q x hq hx
  case earlier =>
    intro before s after q hr hq hst
    obtain ⟨hk, rfl⟩ | hq := hold s.key q hq
    · exact hearlier hst before s after hr hk
    · exact h.earlier before s after q hr hq hst
  case upheld =>
    intro before s after q hr hq hu e he hg
    by_cases hkey : s.key = key
    · -- the changed child is up: nobody before it changed
      have hq' : (L.put key p').posts s.key = some p' := by rw [put_get, if_pos hkey]
      cases Option.some.inj (hq'.symm.trans hq)
      refine (hup hu before s after hr hkey e he hg).still (fun _ hn => hn) ?_
      rw [put_get, if_neg (hkey ▸ h.key_ne hr he)]
    · rw [put_get, if_neg hkey] at hq
      refine (h.upheld before s after q hr hq hu e he hg).mono (fun _ hn => hn) fun q' hq' => ?_
      by_cases hek : e.key = key
      · rw [put_get, if_pos hek] at hq'
        cases hq'
        rcases hdone with hdone | hnone
        · by_cases hd : p.Done
          · exact .inl (hdone hd)
          · exact .inr (.inr ⟨p, by rw [hek]; exact hget, hd⟩)
        · exact absurd hu (hnone before s after q hr (hek ▸ List.mem_map.mpr ⟨e, he, rfl⟩) hq)
      · rw [put_get, if_neg hek] at hq'
        exact .inr (.inl hq')
  case told => exact h.told

/-- The same when the child's readiness, start and exits are as before. -/
theorem Kept.restate (h : Kept roster L) (hget : L.posts key = some p) (hs : Same p p')
    (hready : p'.hasReportedReady = true → p.hasReportedReady = true) (hst : p'.hasStarted = p.hasStarted)
    (hlast : p'.lastExit = p.lastExit) (hstop : p'.state = .stopped → p.state = .stopped) (hup : p'.Up → p.Up)
    (hdone : (p.Done → p'.Done) ∨ ∀ before s after q, roster = before ++ s :: after → key ∈ before.map (·.key) →
      L.posts s.key = some q → ¬ q.Up) : Kept roster (L.put key p') := by
  refine h.put hget hs ?_ ?_ ?_ ?_ ?_ hdone
  · intro hr
    exact h.ready key p hget (hready hr)
  · intro hs' hst'
    rw [hlast]
    exact h.exited key p hget (hstop hs') (hst ▸ hst')
  · intro x hx
    exact h.exits key p x hget (hlast ▸ hx)
  · intro hst' before s after hr hk
    subst hk
    exact h.earlier before s after p hr hget (hst ▸ hst')
  · intro hu before s after hr hk
    subst hk
    exact h.upheld before s after p hr hget (hup hu)

theorem exit_eq (h : L.posts key = some p) (kind : ExitKind) :
    L.exit key kind = (L.tell [.exited p.id p.lineage kind]).put key (p.exit kind) := by
  unfold exit
  rw [h]
  rfl

theorem Kept.exit (h : Kept roster L) (hget : L.posts key = some p) (hact : p.state.isActive = true) (kind : ExitKind) :
    Kept roster (L.exit key kind) := by
  rw [exit_eq hget]
  refine (h.tell _).put hget ⟨rfl, rfl, rfl, rfl, rfl⟩ ?_ ?_ ?_ ?_ ?_ (.inl fun hd => absurd hd.1 (isActive_ne hact).2)
  · intro hr
    exact List.mem_append_left _ (h.ready key p hget hr)
  · intro _ _
    exact ⟨kind, rfl⟩
  · intro x hx
    cases hx
    exact List.mem_append_right _ (List.mem_singleton.mpr rfl)
  · intro hst before s after hr hk
    subst hk
    exact (h.tell _).earlier before s after p hr hget hst
  · rintro ⟨-, hu | hu⟩
    · cases hu
    · cases hu

theorem Kept.drop (h : Kept roster L) (key : ChildKey) : Kept roster (L.drop key) := by
  unfold Lane.drop
  split
  · exact h
  · rename_i p hp
    have hold : ∀ k q, Function.update L.posts key none k = some q → L.posts k = some q := by
      intro k q hq
      by_cases hk : k = key
      · rw [hk, Function.update_self] at hq
        cases hq
      · rwa [Function.update_of_ne hk] at hq
    refine Kept.tell ?_ _
    constructor
    case kind_eq => exact h.kind_eq
    case commands_eq => exact h.commands_eq
    case keys_nodup => exact h.keys_nodup
    case seated => exact fun k q hq => h.seated k q (hold k q hq)
    case active => exact fun k q hq => h.active k q (hold k q hq)
    case willing => exact fun k q hq => h.willing k q (hold k q hq)
    case order_eq =>
      show L.order.filter (· ≠ key) = _
      rw [h.order_eq, List.filter_filter]
      refine List.filter_congr fun k _ => ?_
      by_cases hk : k = key
      · simp [hk]
      · simp [hk]
    case ready => exact fun k q hq => h.ready k q (hold k q hq)
    case exited => exact fun k q hq => h.exited k q (hold k q hq)
    case exits => exact fun k q x hq => h.exits k q x (hold k q hq)
    case earlier => exact fun before s after q hr hq => h.earlier before s after q hr (hold _ q hq)
    case upheld =>
      intro before s after q hr hq hu e he hg
      exact (h.upheld before s after q hr (hold _ q hq) hu e he hg).mono (fun _ hn => hn) fun q' hq' =>
        .inr (.inl (hold _ q' hq'))
    case told => exact h.told

/-- The parent stops waiting for a child that has been heard of. -/
theorem Told.memberReady (h : L.Told roster) (lineage : Nat)
    (hh : ∀ s ∈ roster, s.key = key → s.lineage = lineage → L.Heard s) : (L.memberReady key lineage).Told roster := by
  unfold Lane.memberReady
  cases hs : L.startup with
  | none => exact h
  | some pending =>
    unfold Told at h
    rw [hs] at h
    -- a child still waited for is not the one that became ready
    have hleft : ∀ s ∈ roster, L.Heard s ∨ (s.key, s.lineage) ∈ pending.filter fun p => p.1 ≠ key || p.2 ≠ lineage := by
      intro s hmem
      rcases h.2 s hmem with h' | h'
      · exact .inl h'
      · by_cases hk : s.key = key ∧ s.lineage = lineage
        · exact .inl (hh s hmem hk.1 hk.2)
        · refine .inr (List.mem_filter.mpr ⟨h', ?_⟩)
          rw [not_and_or] at hk
          simpa using hk
    simp only
    split
    · rename_i hf
      refine .inr ⟨by rw [h.1], fun s hmem => ?_⟩
      rcases hleft s hmem with h' | h'
      · exact h'
      · rw [hf] at h'
        cases h'
    · exact ⟨h.1, hleft⟩

theorem Kept.memberReady (h : Kept roster L) (lineage : Nat)
    (hh : ∀ s ∈ roster, s.key = key → s.lineage = lineage → L.Heard s) : Kept roster (L.memberReady key lineage) := by
  have ht := h.told.memberReady lineage hh
  obtain ⟨startup, told, hL⟩ := L.memberReady_cases key lineage
  rw [hL] at ht ⊢
  exact ⟨h.kind_eq, h.commands_eq, h.keys_nodup, h.seated, h.active, h.willing, h.order_eq, h.ready, h.exited, h.exits,
    h.earlier, fun before s after p hr hp hu e he hg => (h.upheld before s after p hr hp hu e he hg).still (fun _ hn => hn) rfl, ht⟩

theorem Kept.seat_unique (h : Kept roster L) {s : Seat} (hs : s ∈ roster) (hget : L.posts s.key = some p) :
    s = p.seat s.key := by
  have hp := h.seated s.key p hget
  exact List.inj_on_of_nodup_map h.keys_nodup hs hp rfl

theorem Kept.heard (h : Kept roster L) (hget : L.posts key = some p) (hn : News.started p.id p.lineage ∈ L.news) (lineage : Nat) :
    ∀ s ∈ roster, s.key = key → s.lineage = lineage → L.Heard s := by
  intro s hs hk _
  subst hk
  rw [h.seat_unique hs hget]
  exact .inl hn

/-! ## The order -/

theorem Kept.order_nodup (h : Kept roster L) : L.order.Nodup := by
  rw [h.order_eq]
  exact h.keys_nodup.filter _

theorem Kept.mem_order (h : Kept roster L) {k : ChildKey} : k ∈ L.order ↔ (L.posts k).isSome = true := by
  rw [h.order_eq, List.mem_filter]
  refine ⟨fun hk => hk.2, fun hk => ⟨?_, hk⟩⟩
  obtain ⟨p, hp⟩ := Option.isSome_iff_exists.mp hk
  exact List.mem_map.mpr ⟨p.seat k, h.seated k p hp, rfl⟩

/-- What is declared before a child stands before it in the order. -/
theorem Kept.before_mem (h : Kept roster L) {before after : List Seat} {s e : Seat} {A B : List ChildKey}
    (hr : roster = before ++ s :: after) (ho : L.order = A ++ s.key :: B) (he : e ∈ before)
    (hp : (L.posts e.key).isSome = true) : e.key ∈ A := by
  have hs : (L.posts s.key).isSome = true := h.mem_order.mp (by rw [ho]; simp)
  have hsplit : L.order = (before.map (·.key)).filter (fun k => (L.posts k).isSome) ++
      s.key :: (after.map (·.key)).filter fun k => (L.posts k).isSome := by
    rw [h.order_eq, hr]
    simp [hs]
  have hn := h.order_nodup
  rw [ho] at hn hsplit
  have hx : s.key ∉ A := fun hm => (List.nodup_append.mp hn).2.2 _ hm _ (List.mem_cons_self ..) rfl
  have hz : s.key ∉ B := (List.nodup_cons.mp (List.nodup_append.mp hn).2.1).1
  have hA := ((List.append_cons_inj_of_notMem hx hz).mp hsplit).1
  rw [hA]
  exact List.mem_filter.mpr ⟨List.mem_map.mpr ⟨e, he, rfl⟩, hp⟩

theorem isQueued_put (k : ChildKey) :
    (L.put key p).isQueued k = if k = key then decide (p.state = .startQueued) else L.isQueued k := by
  unfold isQueued
  rw [put_get]
  split <;> rfl

/-! ## Rows -/

/-- What a child looks like where the start sequence rests. `D` are the children whose
    exit still awaits its policy. -/
structure Row (D : ChildKey → Post → Prop) (k : ChildKey) (p : Post) : Prop where
  started : p.state.isActive = true ∨ p.lastExit ≠ none → p.hasStarted = true
  never : p.state = .startQueued → p.hasStarted = true → p.definition.restart.isNever = false
  due : p.due = true → p.state = .stopped ∧ p.hasStarted = true ∧ p.definition.restart.isNever = false
  ended : p.state = .stopped → p.due = false → p.Over ∨ D k p

def Rows (D : ChildKey → Post → Prop) (L : Lane) : Prop := ∀ k p, L.posts k = some p → Row D k p

variable {D D' : ChildKey → Post → Prop}

theorem Rows.mono (h : L.Rows D) (hD : ∀ k p, L.posts k = some p → D k p → D' k p) : L.Rows D' := by
  intro k p hp
  obtain ⟨ha, hn, hd, ho⟩ := h k p hp
  refine ⟨ha, hn, hd, fun hs hdue => ?_⟩
  rcases ho hs hdue with h' | h'
  · exact .inl h'
  · exact .inr (hD k p hp h')

theorem Rows.put (h : L.Rows D) (hr : Row D key p') : (L.put key p').Rows D := by
  intro k q hq
  rw [put_get] at hq
  split at hq
  · rename_i hk
    cases hq
    rw [hk]
    exact hr
  · exact h k q hq

theorem Row.spawn (p : Post) : Row D key p.spawn := by
  have hst : p.spawn.state ≠ .startQueued ∧ p.spawn.state ≠ .stopped := by
    unfold Post.spawn
    simp only
    split <;> simp
  refine ⟨fun _ => rfl, fun h => absurd h hst.1, ?_, fun h => absurd h hst.2⟩
  intro h
  cases h

/-! ## Popping the queue -/

structure Popping (roster : List Seat) (D : ChildKey → Post → Prop) (A B : List ChildKey) (L : Lane) : Prop where
  rows : L.Rows D
  lineage_eq : ∀ item ∈ L.queue, ∀ p, L.posts item.key = some p → p.lineage = item.lineage
  gate_eq : L.gate = none
  order_eq : L.order = A ++ B
  past : ∀ k ∈ A, L.isQueued k = false
  ahead : ∀ k ∈ B, ∀ p, L.posts k = some p → p.Waits
  queue_eq : L.queue.map (·.key) = B.filter L.isQueued
  first : ∀ s ∈ roster, s.isGated = true → L.Settled s ∨ ∃ p, L.posts s.key = some p ∧ p.state = .startQueued

/-- The gate is held by `p`; the children before it have left the queue, those after it
    wait. -/
structure Gated (L : Lane) (g : StartGate) (p : Post) (before after : List ChildKey) : Prop where
  get_eq : L.posts g.key = some p
  lineage_eq : p.lineage = g.lineage
  generation_eq : p.generation = g.generation
  gated : p.isGated = true
  unready : p.hasReportedReady = false
  onTheWay : p.OnTheWay
  order_eq : L.order = before ++ g.key :: after
  past : ∀ k ∈ before, L.isQueued k = false
  ahead : ∀ k ∈ after, ∀ p, L.posts k = some p → p.Waits

structure Staged (roster : List Seat) (D : ChildKey → Post → Prop) (L : Lane) : Prop where
  rows : L.Rows D
  lineage_eq : ∀ item ∈ L.queue, ∀ p, L.posts item.key = some p → p.lineage = item.lineage
  queue_eq : L.queue.map (·.key) = L.order.filter L.isQueued
  gate : ∀ g, L.gate = some g → ∃ p before after, Gated L g p before after
  opened : L.gate = none → L.queue = []
  first : ∀ s ∈ roster, s.isGated = true → L.Settled s ∨
    ∃ p, L.posts s.key = some p ∧ (p.state = .startQueued ∨ ∃ g, L.gate = some g ∧ g.key = s.key)

theorem spawn_eq_gated (h : p.isGated = true) : L.spawn key p = L.put key p.spawn := by
  unfold spawn
  simp [h]

theorem spawn_eq_immediate (h : p.isGated = false) :
    L.spawn key p = (L.tell [.started p.id p.lineage]).put key p.spawn := by
  unfold spawn
  simp [h]
  rfl

theorem Same.spawn (p : Post) : Same p p.spawn := ⟨rfl, rfl, rfl, rfl, rfl⟩

/-- A child may be spawned once everything declared before it has settled, and again if
    that has passed. -/
theorem Kept.spawn (h : Kept roster L) (hget : L.posts key = some p) (hnot : ¬ p.Done)
    (hearlier : ∀ before s after, roster = before ++ s :: after → s.key = key →
      ∀ e ∈ before, e.isGated = true → L.Passed e)
    (hfirst : p.hasStarted = false → ∀ before s after, roster = before ++ s :: after → s.key = key →
      ∀ e ∈ before, e.isGated = true → L.Settled e) : Kept roster (L.spawn key p) := by
  have hfresh : p.spawn.Up → p.hasStarted = false := by
    rintro ⟨hg, -⟩
    unfold Post.spawn at hg
    cases hs : p.hasStarted with
    | false => rfl
    | true => simp [hs] at hg
  have hst : p.spawn.state ≠ .stopped := by
    unfold Post.spawn
    simp only
    split <;> simp
  cases hg : p.isGated with
  | true =>
    rw [spawn_eq_gated hg]
    refine h.put hget (Same.spawn p) ?_ (fun hs => absurd hs hst) (fun x hx => h.exits key p x hget hx)
      (fun _ => hearlier) (fun hu => hfirst (hfresh hu)) (.inl fun hd => absurd hd hnot)
    intro hr
    simp [Post.spawn, hg] at hr
  | false =>
    rw [spawn_eq_immediate hg]
    refine (h.tell _).put hget (Same.spawn p) ?_ (fun hs => absurd hs hst)
      (fun x hx => (h.tell _).exits key p x hget hx) ?_ ?_ (.inl fun hd => absurd hd hnot)
    · intro _
      exact List.mem_append_right _ (List.mem_singleton.mpr rfl)
    · intro _ before s after hr hk e he hge
      exact (hearlier before s after hr hk e he hge).mono fun _ hn => List.mem_append_left _ hn
    · intro hu before s after hr hk e he hge
      exact (hfirst (hfresh hu) before s after hr hk e he hge).still (fun _ hn => List.mem_append_left _ hn) rfl

/-- A child that was started before may be started again. -/
theorem Kept.respawn (h : Kept roster L) (hget : L.posts key = some p) (hnot : ¬ p.Done) (hst : p.hasStarted = true) :
    Kept roster (L.spawn key p) := by
  refine h.spawn hget hnot (fun before s after hr hkey => ?_) fun hf => ?_
  · exact h.earlier before s after p hr (by rw [hkey]; exact hget) hst
  · rw [hst] at hf
    cases hf

theorem startItem_spawns {item : StartItem} (hget : L.posts item.key = some p) (hl : p.lineage = item.lineage)
    (hm : p.membership = .active) (hi : p.state.isIdle = true) (hk : L.kind = .ordered) :
    L.startItem item =
      if p.isGated then { L.spawn item.key p with gate := some ⟨item.key, item.lineage, p.spawn.generation⟩ }
      else (L.spawn item.key p).memberReady item.key item.lineage := by
  have hk' : (L.spawn item.key p).kind = .ordered := by
    unfold Lane.spawn
    simp only
    split <;> exact hk
  unfold startItem
  simp only [hget, hl, hm, hi, hk', ne_eq, not_true_eq_false, decide_false, Bool.not_true, Bool.or_self,
    Bool.false_eq_true, if_false, decide_true, Bool.true_and]
  cases p.isGated <;> rfl

/-- The head of the queue: a queued child behind everything that has left the queue. -/
structure Head (L : Lane) (item : StartItem) (p : Post) (rest : List StartItem) (A B : List ChildKey) : Prop where
  get_eq : L.posts item.key = some p
  state_eq : p.state = .startQueued
  lineage_eq : p.lineage = item.lineage
  order_eq : L.order = A ++ item.key :: B
  past : ∀ k ∈ A, L.isQueued k = false
  ahead : ∀ k ∈ B, ∀ p, L.posts k = some p → p.Waits
  rest_eq : rest.map (·.key) = B.filter L.isQueued

theorem Popping.head {A B : List ChildKey} {item : StartItem} {rest : List StartItem} (h : Popping roster D A B L)
    (hq : L.queue = item :: rest) : ∃ p B₁ B₂, L.Head item p rest (A ++ B₁) B₂ := by
  have hf := h.queue_eq
  rw [hq, List.map_cons] at hf
  obtain ⟨B₁, B₂, hB, hpast, hitem, hrest⟩ := List.filter_eq_cons_iff.mp hf.symm
  obtain ⟨p, hp, hs⟩ := (Option.any_eq_true _ _).mp hitem
  refine ⟨p, B₁, B₂, hp, by simpa using hs, h.lineage_eq item ?_ p hp, ?_, ?_, ?_, hrest.symm⟩
  · rw [hq]
    exact List.mem_cons_self ..
  · rw [h.order_eq, hB, List.append_assoc]
  · intro k hk
    rcases List.mem_append.mp hk with hk | hk
    · exact h.past k hk
    · simpa using hpast k hk
  · intro k hk
    refine h.ahead k ?_
    rw [hB]
    exact List.mem_append_right _ (List.mem_cons_of_mem _ hk)

theorem Head.notMem {item : StartItem} {rest : List StartItem} {A B : List ChildKey} (h : L.Head item p rest A B)
    (hk : Kept roster L) : item.key ∉ A ∧ item.key ∉ B := by
  have hn := hk.order_nodup
  rw [h.order_eq] at hn
  refine ⟨fun hm => (List.nodup_append.mp hn).2.2 _ hm _ (List.mem_cons_self ..) rfl, ?_⟩
  exact (List.nodup_cons.mp (List.nodup_append.mp hn).2.1).1

/-- Everything declared before the head of the queue has settled. -/
theorem Head.earlier {item : StartItem} {rest : List StartItem} {A B A' B' : List ChildKey} (h : L.Head item p rest A B)
    (hk : Kept roster L) (hp : Popping roster D A' B' L) : ∀ before s after, roster = before ++ s :: after →
      s.key = item.key → ∀ e ∈ before, e.isGated = true → L.Settled e := by
  intro before s after hr hs e he hg
  rcases hp.first e (by rw [hr]; exact List.mem_append_left _ he) hg with hset | ⟨q, hq, hst⟩
  · exact hset
  · have hmem := hk.before_mem hr (by rw [h.order_eq, hs]) he (by rw [hq]; rfl)
    have := h.past e.key hmem
    simp [isQueued, hq, hst] at this

/-- The lane after the head of the queue was spawned, but for its gate. -/
theorem Head.spawned {item : StartItem} {rest : List StartItem} {A B A' B' : List ChildKey} (h : L.Head item p rest A B)
    (L' : Lane) (hk : Kept roster L) (hp : Popping roster D A' B' L) (hq : L.queue = item :: rest)
    (hposts : ∀ k, L'.posts k = if k = item.key then some p.spawn else L.posts k) (hqueue : L'.queue = rest)
    (horder : L'.order = L.order) (hnews : ∀ n ∈ L.news, n ∈ L'.news) :
    L'.Rows D ∧ (∀ i ∈ L'.queue, ∀ p, L'.posts i.key = some p → p.lineage = i.lineage) ∧
      (∀ k ∈ A ++ [item.key], L'.isQueued k = false) ∧ (∀ k ∈ B, ∀ p, L'.posts k = some p → p.Waits) ∧
      L'.queue.map (·.key) = B.filter L'.isQueued ∧ L'.queue.map (·.key) = L'.order.filter L'.isQueued ∧
      ∀ s ∈ roster, s.isGated = true → L'.Settled s ∨ s.key = item.key ∨
        ∃ q, L'.posts s.key = some q ∧ q.state = .startQueued := by
  obtain ⟨hA, hB⟩ := h.notMem hk
  have hget : ∀ k, k ≠ item.key → L'.posts k = L.posts k := fun k hne => by rw [hposts, if_neg hne]
  have hself : L'.isQueued item.key = false := by
    unfold isQueued
    rw [hposts, if_pos rfl, Option.any_some]
    unfold Post.spawn
    cases p.isGated <;> rfl
  have hqd : ∀ k, k ≠ item.key → L'.isQueued k = L.isQueued k := fun k hne => by
    unfold isQueued
    rw [hget k hne]
  have hpast : ∀ k ∈ A ++ [item.key], L'.isQueued k = false := by
    intro k hmem
    by_cases hne : k = item.key
    · rw [hne]
      exact hself
    · rw [hqd k hne]
      refine h.past k ?_
      simpa [hne] using hmem
  have hrest : L'.queue.map (·.key) = B.filter L'.isQueued := by
    rw [hqueue, h.rest_eq]
    exact List.filter_congr fun k hmem => (hqd k fun he => hB (he ▸ hmem)).symm
  refine ⟨?_, ?_, hpast, ?_, hrest, ?_, ?_⟩
  · intro k q hkq
    rw [hposts] at hkq
    split at hkq
    · cases hkq
      exact Row.spawn p
    · exact hp.rows k q hkq
  · intro i hi q hiq
    rw [hqueue] at hi
    have hmem : i.key ∈ B := by
      have : i.key ∈ rest.map (·.key) := List.mem_map.mpr ⟨i, hi, rfl⟩
      rw [h.rest_eq] at this
      exact (List.mem_filter.mp this).1
    rw [hget i.key fun he => hB (he ▸ hmem)] at hiq
    exact hp.lineage_eq i (by rw [hq]; exact List.mem_cons_of_mem _ hi) q hiq
  · intro k hmem q hkq
    rw [hget k fun he => hB (he ▸ hmem)] at hkq
    exact h.ahead k hmem q hkq
  · have hnone : (A ++ [item.key]).filter L'.isQueued = [] := by
      rw [List.filter_eq_nil_iff]
      intro k hmem
      rw [hpast k hmem]
      exact Bool.false_ne_true
    rw [hrest, horder, h.order_eq, show A ++ item.key :: B = (A ++ [item.key]) ++ B by simp, List.filter_append, hnone,
      List.nil_append]
  · intro s hs hg
    by_cases hne : s.key = item.key
    · exact .inr (.inl hne)
    · rcases hp.first s hs hg with hset | ⟨q, hsq, hst⟩
      · exact .inl (hset.still hnews (hget _ hne))
      · exact .inr (.inr ⟨q, by rw [hget _ hne]; exact hsq, hst⟩)

/-- The head of the queue is spawned: the gate closes on it, or the loop goes on. -/
theorem Popping.next {A B : List ChildKey} {item : StartItem} {rest : List StartItem} (hk : Kept roster L)
    (h : Popping roster D A B L) (hq : L.queue = item :: rest) :
    Kept roster ({ L with queue := rest }.startItem item) ∧
      (({ L with queue := rest }.startItem item).gate.isSome = true ∧ Staged roster D ({ L with queue := rest }.startItem item) ∨
        ({ L with queue := rest }.startItem item).gate = none ∧ ({ L with queue := rest }.startItem item).queue = rest ∧
          ∃ A' B', Popping roster D A' B' ({ L with queue := rest }.startItem item)) := by
  obtain ⟨p, B₁, B₂, hh⟩ := h.head hq
  let L₀ : Lane := { L with queue := rest }
  have hk₀ : Kept roster L₀ := hk.requeue rest L.gate
  have hnot : ¬ p.Done := fun hd => by
    rw [Post.Done, hh.state_eq] at hd
    cases hd.1
  have hspawn : Kept roster (L₀.spawn item.key p) :=
    hk₀.spawn hh.get_eq hnot (fun before s after hr hs e he hg => (hh.earlier hk h before s after hr hs e he hg).passed)
      fun _ => hh.earlier hk h
  have hidle : p.state.isIdle = true := by rw [hh.state_eq]; rfl
  have hstart := startItem_spawns (L := L₀) hh.get_eq hh.lineage_eq (hk.active _ p hh.get_eq) hidle hk.kind_eq
  have hposts : ∀ k, (L₀.spawn item.key p).posts k = if k = item.key then some p.spawn else L.posts k := fun k => spawn_get k
  have hnews : ∀ n ∈ L.news, n ∈ (L₀.spawn item.key p).news := by
    unfold Lane.spawn
    simp only
    split
    · exact fun n hn => hn
    · exact fun n hn => List.mem_append_left _ hn
  have horder : (L₀.spawn item.key p).order = L.order := by
    unfold Lane.spawn
    simp only
    split <;> rfl
  show Kept roster (L₀.startItem item) ∧ ((L₀.startItem item).gate.isSome = true ∧ Staged roster D (L₀.startItem item) ∨
    (L₀.startItem item).gate = none ∧ (L₀.startItem item).queue = rest ∧ ∃ A' B', Popping roster D A' B' (L₀.startItem item))
  rw [hstart]
  cases hg : p.isGated with
  | true =>
    let g : StartGate := ⟨item.key, item.lineage, p.spawn.generation⟩
    let L₁ : Lane := { L₀.spawn item.key p with gate := some g }
    obtain ⟨hrows, hlin, hpast, hahead, -, hqueue, hfirst⟩ :=
      hh.spawned L₁ hk h hq hposts spawn_queue horder hnews
    refine ⟨hspawn.requeue _ _, .inl ⟨rfl, hrows, hlin, hqueue, ?_, fun ho => (nomatch ho), ?_⟩⟩
    · intro g' hg'
      cases hg'
      refine ⟨p.spawn, A ++ B₁, B₂, ?_, hh.lineage_eq, rfl, hg, ?_, ?_, ?_, ?_, hahead⟩
      · show L₁.posts item.key = _
        rw [hposts, if_pos rfl]
      · simp [Post.spawn, hg]
      · exact .inl (by simp [Post.spawn, hg])
      · exact horder.trans hh.order_eq
      · exact fun k hmem => hpast k (List.mem_append_left _ hmem)
    · intro s hs hsg
      rcases hfirst s hs hsg with hset | hkey | ⟨q, hsq, hst⟩
      · exact .inl hset
      · exact .inr ⟨p.spawn, by show L₁.posts s.key = _; rw [hposts, if_pos hkey], .inr ⟨g, rfl, hkey.symm⟩⟩
      · exact .inr ⟨q, hsq, .inl hst⟩
  | false =>
    have hself : (L₀.spawn item.key p).posts item.key = some p.spawn := by rw [hposts, if_pos rfl]
    have htold : News.started p.spawn.id p.spawn.lineage ∈ (L₀.spawn item.key p).news :=
      hspawn.ready item.key p.spawn hself (by simp [Post.spawn, hg])
    obtain ⟨startup, told, hready⟩ := (L₀.spawn item.key p).memberReady_cases item.key item.lineage
    have hkept := hspawn.memberReady item.lineage (hspawn.heard hself htold item.lineage)
    simp only [Bool.false_eq_true, if_false]
    rw [hready] at hkept ⊢
    refine ⟨hkept, .inr ⟨?_, spawn_queue, A ++ B₁ ++ [item.key], B₂, ?_⟩⟩
    · exact (spawn_gate).trans h.gate_eq
    obtain ⟨hrows, hlin, hpast, hahead, hrest, -, hfirst⟩ :=
      hh.spawned { L₀.spawn item.key p with startup := startup, told := told } hk h hq hposts spawn_queue horder hnews
    refine ⟨hrows, hlin, (spawn_gate).trans h.gate_eq, ?_, hpast, hahead, hrest, ?_⟩
    · rw [show A ++ B₁ ++ [item.key] ++ B₂ = A ++ B₁ ++ item.key :: B₂ by simp]
      exact horder.trans hh.order_eq
    · intro s hs hsg
      rcases hfirst s hs hsg with hset | hkey | hqd
      · exact .inl hset
      · -- a child that is not gated has no say in the order
        have := hk.seat_unique hs (p := p) (by rw [hkey]; exact hh.get_eq)
        rw [this] at hsg
        have : p.isGated = true := hsg
        rw [hg] at this
        cases this
      · exact .inr hqd

theorem Popping.pop : ∀ (queue : List StartItem) {L : Lane} {A B : List ChildKey}, L.queue = queue → Kept roster L →
    Popping roster D A B L → Kept roster (pop queue L) ∧ Staged roster D (pop queue L)
  | [], L, A, B, hq, hk, h => by
    refine ⟨hk.requeue [] none, h.rows, ?_, ?_, ?_, fun _ => rfl, ?_⟩
    · intro item hi
      cases hi
    · have hA : A.filter L.isQueued = [] := by
        rw [List.filter_eq_nil_iff]
        intro k hm
        rw [h.past k hm]
        exact Bool.false_ne_true
      show [] = L.order.filter L.isQueued
      rw [h.order_eq, List.filter_append, hA, ← h.queue_eq, hq]
      rfl
    · intro g hg
      cases hg
    · intro s hs hg
      rcases h.first s hs hg with hset | ⟨p, hp, hst⟩
      · exact .inl hset
      · exact .inr ⟨p, hp, .inl hst⟩
  | item :: rest, L, A, B, hq, hk, h => by
    obtain ⟨hk', h'⟩ := h.next hk hq
    unfold Lane.pop
    simp only
    rcases h' with ⟨hgate, hs⟩ | ⟨hgate, hqueue, A', B', hp⟩
    · rw [if_pos hgate]
      exact ⟨hk', hs⟩
    · rw [if_neg (by rw [hgate]; simp)]
      exact Popping.pop rest hqueue hk' hp

/-! ## Steps outside the queue -/

theorem isQueued_false (hget : L.posts key = some p) (hq : p.state ≠ .startQueued) : L.isQueued key = false := by
  simp [isQueued, hget, hq]

theorem Staged.gate_at {g : StartGate} (h : Staged roster D L) (hg : L.gate = some g) (hget : L.posts key = some p)
    (hk : g.key = key) : ∃ before after, Gated L g p before after := by
  obtain ⟨q, before, after, hG⟩ := h.gate g hg
  have hqp : q = p := Option.some.inj (hG.get_eq.symm.trans (by rw [hk]; exact hget))
  rw [hqp] at hG
  exact ⟨before, after, hG⟩

theorem Staged.notMem_queue (h : Staged roster D L) (hget : L.posts key = some p) (hq : p.state ≠ .startQueued) :
    ∀ item ∈ L.queue, item.key ≠ key := by
  intro item hi hk
  have hmem : item.key ∈ L.queue.map (·.key) := List.mem_map.mpr ⟨item, hi, rfl⟩
  rw [h.queue_eq, hk] at hmem
  have := (List.mem_filter.mp hmem).2
  rw [isQueued_false hget hq] at this
  cases this

theorem Gated.notMem_after {g : StartGate} {before after : List ChildKey} (h : Gated L g p' before after)
    (hget : L.posts key = some p) (hq : p.state ≠ .startQueued) (hw : p.state = .stopped → p.due = true) :
    key ∉ after := by
  intro hm
  rcases h.ahead key hm p hget with h' | ⟨hs, hd⟩
  · exact hq h'
  · rw [hw hs] at hd
    cases hd

theorem regate_eq (h : ∀ g, L.gate = some g → g.key = key → g.lineage = p.lineage → g.generation = p.generation) :
    regate L.gate key p = L.gate := by
  unfold regate
  cases hg : L.gate with
  | none => rfl
  | some g =>
    rw [Option.map_some]
    congr 1
    split
    · rename_i hc
      rw [Bool.and_eq_true, decide_eq_true_eq, decide_eq_true_eq] at hc
      rw [← h g hg hc.1 hc.2]
    · rfl

/-- A child that is not queued changes; if it holds the gate it still does. -/
theorem Staged.put (h : Staged roster D L) (p' : Post) (hget : L.posts key = some p) (hs : Same p p') (hdone : p.Done → p'.Done)
    (hq : p.state ≠ .startQueued) (hq' : p'.state ≠ .startQueued)
    (hafter : ∀ g q before after, L.gate = some g → Gated L g q before after → key ∉ after) (hrow : Row D key p')
    (hgate : ∀ g, L.gate = some g → g.key = key → p'.hasReportedReady = false ∧ p'.OnTheWay) :
    Staged roster D { L.put key p' with gate := regate L.gate key p' } := by
  have hqd : ∀ k, (L.put key p').isQueued k = L.isQueued k := by
    intro k
    rw [isQueued_put]
    split
    · rename_i hk'
      rw [hk', isQueued_false hget hq]
      exact decide_eq_false hq'
    · rfl
  have hother : ∀ k, k ≠ key → (L.put key p').posts k = L.posts k := fun k hne => by rw [put_get, if_neg hne]
  have hself : (L.put key p').posts key = some p' := by rw [put_get, if_pos rfl]
  constructor
  case rows => exact h.rows.put hrow
  case lineage_eq =>
    intro item hi q hiq
    have hne := h.notMem_queue hget hq item hi
    rw [show ({ L.put key p' with gate := regate L.gate key p' } : Lane).posts item.key = L.posts item.key from
      hother _ hne] at hiq
    exact h.lineage_eq item hi q hiq
  case queue_eq =>
    refine h.queue_eq.trans (List.filter_congr fun k _ => ?_)
    exact (hqd k).symm
  case gate =>
    intro g' hg'
    obtain ⟨g, hg, hgg⟩ := Option.map_eq_some_iff.mp hg'
    obtain ⟨q, before, after, hG⟩ := h.gate g hg
    have hnot := hafter g q before after hg hG
    have hahead : ∀ k ∈ after, ∀ q, (L.put key p').posts k = some q → q.Waits := by
      intro k hm q hkq
      rw [hother k fun he => hnot (he ▸ hm)] at hkq
      exact hG.ahead k hm q hkq
    have hpast : ∀ k ∈ before, (L.put key p').isQueued k = false := fun k hm => (hqd k).trans (hG.past k hm)
    by_cases hkey : g.key = key
    · have hqp : q = p := by
        have := hG.get_eq
        rw [hkey, hget] at this
        exact (Option.some.inj this).symm
      subst hqp
      have hlin : g.lineage = p'.lineage := by rw [hs.lineage_eq, hG.lineage_eq]
      rw [if_pos (by simp [hkey, hlin])] at hgg
      subst hgg
      obtain ⟨hun, hway⟩ := hgate g hg hkey
      refine ⟨p', before, after, ?_, hlin.symm, rfl, ?_, hun, hway, hG.order_eq, hpast, hahead⟩
      · rw [show ({ g with generation := p'.generation } : StartGate).key = key from hkey]
        exact hself
      · show p'.definition.readiness.isGated = true
        rw [hs.definition_eq]
        exact hG.gated
    · rw [if_neg (by simp [hkey])] at hgg
      subst hgg
      exact ⟨q, before, after, (hother _ hkey).trans hG.get_eq, hG.lineage_eq, hG.generation_eq, hG.gated, hG.unready,
        hG.onTheWay, hG.order_eq, hpast, hahead⟩
  case opened =>
    intro hg
    refine h.opened ?_
    exact Option.map_eq_none_iff.mp hg
  case first =>
    intro s hsm hg
    rcases h.first s hsm hg with hset | ⟨q, hsq, hor⟩
    · refine .inl (hset.mono (fun _ hn => hn) fun q hq => ?_)
      by_cases hne : s.key = key
      · rw [show ({ L.put key p' with gate := regate L.gate key p' } : Lane).posts s.key = some p' from hne ▸ hself] at hq
        cases hq
        by_cases hd : p.Done
        · exact .inl (hdone hd)
        · exact .inr (.inr ⟨p, hne ▸ hget, hd⟩)
      · exact .inr (.inl ((hother _ hne).symm.trans hq))
    · have hgate' : (∃ g, L.gate = some g ∧ g.key = s.key) → ∃ g, regate L.gate key p' = some g ∧ g.key = s.key := by
        rintro ⟨g, hg, hgk⟩
        refine ⟨_, by unfold regate; rw [hg]; rfl, ?_⟩
        simp only
        split <;> exact hgk
      by_cases hne : s.key = key
      · refine .inr ⟨p', by rw [hne]; exact hself, .inr (hgate' ?_)⟩
        rcases hor with hst | hg
        · rw [hne, hget] at hsq
          cases hsq
          exact absurd hst hq
        · exact hg
      · exact .inr ⟨q, (hother _ hne).trans hsq, hor.imp_right hgate'⟩

/-- Fewer exits await their policy. -/
theorem Staged.settle (h : Staged roster D L)
    (hD : ∀ k p, L.posts k = some p → D k p → p.Over ∨ D' k p) : Staged roster D' L where
  rows := by
    intro k p hp
    obtain ⟨ha, hn, hd, ho⟩ := h.rows k p hp
    refine ⟨ha, hn, hd, fun hs hf => ?_⟩
    rcases ho hs hf with h' | h'
    · exact .inl h'
    · exact hD k p hp h'
  lineage_eq := h.lineage_eq
  queue_eq := h.queue_eq
  gate := h.gate
  opened := h.opened
  first := h.first

/-- More events, and the parent's gate, change nothing. -/
theorem Staged.retell (h : Staged roster D L) (news : List News) (startup : Option (List (ChildKey × Nat))) (told : Nat) :
    Staged roster D { L.tell news with startup := startup, told := told } where
  rows := h.rows
  lineage_eq := h.lineage_eq
  queue_eq := h.queue_eq
  gate g hg := by
    obtain ⟨p, before, after, hG⟩ := h.gate g hg
    exact ⟨p, before, after, hG.get_eq, hG.lineage_eq, hG.generation_eq, hG.gated, hG.unready, hG.onTheWay, hG.order_eq,
      hG.past, hG.ahead⟩
  opened := h.opened
  first s hs hg := by
    rcases h.first s hs hg with hset | hex
    · exact .inl (hset.still (fun _ hn => List.mem_append_left _ hn) rfl)
    · exact .inr hex

theorem Staged.tell (h : Staged roster D L) (news : List News) : Staged roster D (L.tell news) :=
  h.retell news L.startup L.told

theorem Staged.memberReady (h : Staged roster D L) (lineage : Nat) : Staged roster D (L.memberReady key lineage) := by
  obtain ⟨startup, told, hL⟩ := L.memberReady_cases key lineage
  rw [hL]
  have := h.retell [] startup told
  unfold Lane.tell at this
  rwa [List.append_nil] at this

/-- The gate's child leaves the gate. -/
theorem Staged.opening {g : StartGate} (h : Staged roster D L) (L' : Lane) (p' : Post) (hg : L.gate = some g) (hget : L.posts g.key = some p)
    (hk : Kept roster L) (hq' : p'.state ≠ .startQueued) (hrow : Row D g.key p')
    (hposts : ∀ k, L'.posts k = if k = g.key then some p' else L.posts k) (hqueue : L'.queue = L.queue)
    (hgate : L'.gate = none) (horder : L'.order = L.order) (hnews : ∀ n ∈ L.news, n ∈ L'.news)
    (hset : ∀ s ∈ roster, s.key = g.key → L'.Settled s) : ∃ A B, Popping roster D A B L' := by
  obtain ⟨q, before, after, hG⟩ := h.gate g hg
  have hqp : q = p := Option.some.inj (hG.get_eq.symm.trans hget)
  subst hqp
  have hq : q.state ≠ .startQueued := by
    rcases hG.onTheWay with h' | h' | ⟨h', -⟩ <;> rw [h'] <;> simp
  have hqd : ∀ k, L'.isQueued k = L.isQueued k := by
    intro k
    unfold isQueued
    rw [hposts]
    split
    · rename_i hk'
      rw [hk', hget]
      simp [hq, hq']
    · rfl
  have hn : g.key ∉ after := by
    have := hk.order_nodup
    rw [hG.order_eq] at this
    exact (List.nodup_cons.mp (List.nodup_append.mp this).2.1).1
  have hpast : ∀ k ∈ before ++ [g.key], L'.isQueued k = false := by
    intro k hm
    rw [hqd]
    rcases List.mem_append.mp hm with hm | hm
    · exact hG.past k hm
    · rw [List.mem_singleton.mp hm]
      exact isQueued_false hget hq
  have hsplit : before ++ g.key :: after = (before ++ [g.key]) ++ after := by simp
  refine ⟨before ++ [g.key], after, ?_, ?_, hgate, ?_, hpast, ?_, ?_, ?_⟩
  · intro k r hr
    rw [hposts] at hr
    split at hr
    · rename_i hk'
      cases hr
      rw [hk']
      exact hrow
    · exact h.rows k r hr
  · intro item hi r hr
    rw [hqueue] at hi
    rw [hposts, if_neg (h.notMem_queue hget hq item hi)] at hr
    exact h.lineage_eq item hi r hr
  · rw [horder, hG.order_eq, hsplit]
  · intro k hm r hr
    rw [hposts, if_neg fun he : k = g.key => hn (he ▸ hm)] at hr
    exact hG.ahead k hm r hr
  · have hnone : (before ++ [g.key]).filter L'.isQueued = [] := by
      rw [List.filter_eq_nil_iff]
      intro k hm
      rw [hpast k hm]
      exact Bool.false_ne_true
    rw [hqueue, h.queue_eq, List.filter_congr fun k _ => (hqd k).symm, hG.order_eq, hsplit, List.filter_append, hnone,
      List.nil_append]
  · intro s hs hsg
    by_cases hne : s.key = g.key
    · exact .inl (hset s hs hne)
    · rcases h.first s hs hsg with h' | ⟨r, hr, hor⟩
      · exact .inl (h'.still hnews (by rw [hposts, if_neg hne]))
      · rcases hor with hst | ⟨g', hg', hk'⟩
        · exact .inr ⟨r, by rw [hposts, if_neg hne]; exact hr, hst⟩
        · rw [hg] at hg'
          cases hg'
          exact absurd hk'.symm hne

/-- A child outside the start sequence leaves the scope. -/
theorem Staged.drop (h : Staged roster D L) (hget : L.posts key = some p) (hq : p.state ≠ .startQueued)
    (hng : ∀ g, L.gate = some g → g.key ≠ key) : Staged roster D (L.drop key) := by
  unfold Lane.drop
  rw [hget]
  refine Staged.tell ?_ _
  have hqd : ∀ k, ({ L with posts := Function.update L.posts key none, order := L.order.filter (· ≠ key) } : Lane).isQueued k =
      (decide (k ≠ key) && L.isQueued k) := by
    intro k
    unfold isQueued
    by_cases hk : k = key
    · simp [hk]
    · simp [hk]
  have hold : ∀ k q, Function.update L.posts key none k = some q → k ≠ key ∧ L.posts k = some q := by
    intro k q hkq
    by_cases hk : k = key
    · rw [hk, Function.update_self] at hkq
      cases hkq
    · exact ⟨hk, by rwa [Function.update_of_ne hk] at hkq⟩
  constructor
  case rows => exact fun k q hkq => h.rows k q (hold k q hkq).2
  case lineage_eq => exact fun item hi q hiq => h.lineage_eq item hi q (hold _ q hiq).2
  case queue_eq =>
    refine h.queue_eq.trans ?_
    show _ = (L.order.filter (· ≠ key)).filter _
    rw [List.filter_filter]
    refine List.filter_congr fun k _ => ?_
    rw [hqd]
    by_cases hk : k = key
    · rw [hk, isQueued_false hget hq]
      simp
    · simp [hk]
  case gate =>
    intro g hg
    obtain ⟨q, before, after, hG⟩ := h.gate g hg
    have hne := hng g hg
    refine ⟨q, before.filter (· ≠ key), after.filter (· ≠ key), ?_, hG.lineage_eq, hG.generation_eq, hG.gated, hG.unready,
      hG.onTheWay, ?_, ?_, ?_⟩
    · exact (Function.update_of_ne hne ..).trans hG.get_eq
    · show L.order.filter (· ≠ key) = _
      rw [hG.order_eq]
      simp [hne]
    · intro k hm
      rw [hqd, hG.past k (List.mem_filter.mp hm).1, Bool.and_false]
    · intro k hm r hr
      exact hG.ahead k (List.mem_filter.mp hm).1 r (hold k r hr).2
  case opened => exact h.opened
  case first =>
    intro s hs hg
    rcases h.first s hs hg with hset | ⟨q, hsq, hor⟩
    · exact .inl (hset.mono (fun _ hn => hn) fun q hq => .inr (.inl (hold _ q hq).2))
    · by_cases hne : s.key = key
      · rw [hne, hget] at hsq
        cases hsq
        rcases hor with hst | ⟨g, hg', hk'⟩
        · exact absurd hst hq
        · exact absurd (hk'.trans hne) (hng g hg')
      · exact .inr ⟨q, (Function.update_of_ne hne ..).trans hsq, hor⟩

/-- Where the start sequence rests there is nothing to advance. -/
theorem Staged.advance (hk : Kept roster L) (h : Staged roster D L) : L.advance = L := by
  unfold Lane.advance
  cases hg : L.gate with
  | none =>
    have hq := h.opened hg
    rw [hq]
    show ({ L with queue := [], gate := none } : Lane) = L
    rw [← hq, ← hg]
  | some g =>
    obtain ⟨p, before, after, hG⟩ := h.gate g hg
    have hh : L.holds g = true := by
      unfold holds
      rw [hG.get_eq, Option.any_some, hG.lineage_eq, hk.active _ p hG.get_eq]
      rcases hG.onTheWay with h' | h' | ⟨h', hd⟩
      · simp [h']
      · simp [h']
      · simp [h', hd]
    simp [hh]

end Lane

end Kokage.Supervisor

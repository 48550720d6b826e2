/-
  Kokage.Supervisor.Regrouping — the start sequence through a group restart.

  `keys` are the children the restart covers. While the drain runs (`Held`) the gate and
  the queue lie inside `keys`, and exits outside are handed back in `ds`. Then the covered
  children are queued again in order (`Rebuilding`), the queue is popped, and the exits
  handed back get their policy (`Regrouped`).
-/

import Kokage.Supervisor.Sequencing

namespace Kokage.Supervisor.Lane

open SupervisorRuntime (ClassifiedExit)

variable {L L' : Lane} {roster : List Seat} {key : ChildKey} {p p' : Post} {D : ChildKey → Post → Prop}
  {keys : List ChildKey} {ds : List ClassifiedExit}

/-! ## While the drain runs -/

/-- The exit of the current generation is in `ds`. -/
def Awaiting (ds : List ClassifiedExit) (k : ChildKey) (p : Post) : Prop :=
  ∃ c ∈ ds, c.key = k ∧ c.lineage = p.lineage ∧ c.generation = p.generation ∧ p.lastExit = some c.status.view

/-- An exit in `ds` that is still current is the child's latest. -/
def Fits (L : Lane) (c : ClassifiedExit) : Prop :=
  ∀ p, L.posts c.key = some p → p.lineage = c.lineage → p.generation = c.generation →
    p.state = .stopped ∧ p.lastExit = some c.status.view

structure Held (roster : List Seat) (pre keys : List ChildKey) (ds : List ClassifiedExit) (L : Lane) : Prop where
  rows : L.Rows fun k p => k ∈ keys ∨ Awaiting ds k p
  order_eq : L.order = pre ++ keys
  queue_in : ∀ item ∈ L.queue, item.key ∈ keys
  gate_in : ∀ g, L.gate = some g → g.key ∈ keys
  queued_in : ∀ k, L.isQueued k = true → k ∈ keys
  settled : ∀ s ∈ roster, s.isGated = true → s.key ∉ keys → L.Settled s
  fits : ∀ c ∈ ds, L.Fits c
  known : ∀ c ∈ ds, c.key ∈ L.order

/-- In a list without repetitions, what stands behind an element of the second half is in
    the second half. -/
theorem after_subset {α : Type} {A B before after : List α} {g : α} (hn : (A ++ B).Nodup)
    (h : A ++ B = before ++ g :: after) (hg : g ∈ B) : ∀ k ∈ after, k ∈ B := by
  obtain ⟨x, y, hB⟩ := List.append_of_mem hg
  rw [hB, ← List.append_assoc] at h hn
  have hx : g ∉ A ++ x := fun hm => (List.nodup_append.mp hn).2.2 _ hm _ (List.mem_cons_self ..) rfl
  have hz : g ∉ y := (List.nodup_cons.mp (List.nodup_append.mp hn).2.1).1
  have hy := ((List.append_cons_inj_of_notMem hx hz).mp h).2.2
  intro k hk
  rw [hB]
  exact List.mem_append_right _ (List.mem_cons_of_mem _ (hy ▸ hk))

/-- The gate lies in the scope of every child whose restart is due. -/
theorem Gated.mem_scope {g : StartGate} {before after pre : List ChildKey} (h : Gated L g p' before after)
    (hn : L.order.Nodup) (ho : L.order = pre ++ keys) (hk : key ∈ keys) (hnot : key ∉ after) : g.key ∈ keys := by
  have hmem : g.key ∈ pre ++ keys := by
    rw [← ho, h.order_eq]
    simp
  rcases List.mem_append.mp hmem with hg | hg
  · obtain ⟨x, y, hpre⟩ := List.append_of_mem hg
    have heq : x ++ g.key :: (y ++ keys) = before ++ g.key :: after := by
      rw [← h.order_eq, ho, hpre]
      simp
    have hn' : (x ++ g.key :: (y ++ keys)).Nodup := by
      rw [heq, ← h.order_eq]
      exact hn
    have hx : g.key ∉ x := fun hm => (List.nodup_append.mp hn').2.2 _ hm _ (List.mem_cons_self ..) rfl
    have hz : g.key ∉ y ++ keys := (List.nodup_cons.mp (List.nodup_append.mp hn').2.1).1
    have hy := ((List.append_cons_inj_of_notMem hx hz).mp heq).2.2
    exact absurd (hy ▸ List.mem_append_right y hk) hnot
  · exact hg

/-- The restart of a due child begins: its deadline is taken, its scope is held. -/
theorem Staged.hold {pre : List ChildKey} (hk : Kept roster L) (h : Staged roster (fun _ _ => False) L)
    (hget : L.posts key = some p) (hdue : p.due = true) (ho : L.order = pre ++ keys) (hkey : key ∈ keys) :
    Kept roster (L.put key (p.setDue false)) ∧ Held roster pre keys [] (L.put key (p.setDue false)) := by
  have hst := ((h.rows key p hget).due hdue).1
  have hnq : p.state ≠ .startQueued := by rw [hst]; simp
  have hgin : ∀ g, L.gate = some g → g.key ∈ keys ∧ ∀ k, L.isQueued k = true → k ∈ keys := by
    intro g hg
    obtain ⟨q, before, after, hG⟩ := h.gate g hg
    have hmem := hG.mem_scope hk.order_nodup ho hkey (hG.notMem_after hget hnq fun _ => hdue)
    refine ⟨hmem, fun k hq => ?_⟩
    have hko : k ∈ L.order := hk.mem_order.mpr (by
      unfold isQueued at hq
      obtain ⟨r, hr, -⟩ := (Option.any_eq_true _ _).mp hq
      rw [hr]
      rfl)
    rw [hG.order_eq] at hko
    rcases List.mem_append.mp hko with hm | hm
    · rw [hG.past k hm] at hq
      cases hq
    · rcases List.mem_cons.mp hm with hm | hm
      · rw [hm]
        exact hmem
      · exact after_subset (ho ▸ hk.order_nodup) (ho.symm.trans hG.order_eq) hmem k hm
  have hqin : ∀ k, L.isQueued k = true → k ∈ keys := by
    intro k hq
    cases hg : L.gate with
    | some g => exact (hgin g hg).2 k hq
    | none =>
      have hempty := h.queue_eq
      rw [h.opened hg] at hempty
      have hko : k ∈ L.order.filter L.isQueued := by
        refine List.mem_filter.mpr ⟨hk.mem_order.mpr ?_, hq⟩
        obtain ⟨r, hr, -⟩ := (Option.any_eq_true _ _).mp hq
        rw [hr]
        rfl
      rw [← hempty] at hko
      cases hko
  have hnot : ¬ p.Done := fun hd => by
    rw [Post.Done, hdue] at hd
    cases hd.2.1
  refine ⟨hk.restate hget ⟨rfl, rfl, rfl, rfl, rfl⟩ id rfl rfl id id (.inl fun hd => absurd hd hnot), ?_⟩
  constructor
  case rows =>
    refine Rows.put (h.rows.mono fun k q _ hf => hf.elim) ?_
    exact ⟨(h.rows key p hget).started, (h.rows key p hget).never, fun hd => (by cases hd), fun _ _ => .inr (.inl hkey)⟩
  case order_eq => exact ho
  case queue_in =>
    intro item hi
    have hm : item.key ∈ L.queue.map (·.key) := List.mem_map.mpr ⟨item, hi, rfl⟩
    rw [h.queue_eq] at hm
    exact hqin _ (List.mem_filter.mp hm).2
  case gate_in => exact fun g hg => (hgin g hg).1
  case queued_in =>
    intro k hq
    rw [isQueued_put] at hq
    split at hq
    · rename_i hkk
      rw [hkk]
      exact hkey
    · exact hqin k hq
  case settled =>
    intro s hs hsg hnot
    rcases h.first s hs hsg with hset | ⟨q, hq, hor⟩
    · exact hset.still (fun _ hn => hn) (by rw [put_get, if_neg fun he : s.key = key => hnot (he ▸ hkey)])
    · rcases hor with hst' | ⟨g, hg, hgk⟩
      · exact absurd (hqin s.key (by simp [isQueued, hq, hst'])) hnot
      · exact absurd (hgk ▸ (hgin g hg).1) hnot
  case fits => exact fun c hc => by cases hc
  case known => exact fun c hc => by cases hc

/-- What a drain asks to stop keeps its identity and its history. -/
theorem Halts.get {scope : DrainScope} (h : Halts scope L L') {k : ChildKey} {q : Post} (hq : L'.posts k = some q) :
    ∃ p, L.posts k = some p ∧ (q = p ∨ p.state.isActive = true ∧ q = p.halt) := by
  obtain ⟨posts, rfl, hp⟩ := h
  rcases hp k with h' | ⟨p, -, hp', hact, h'⟩
  · exact ⟨q, by rw [← h']; exact hq, .inl rfl⟩
  · refine ⟨p, hp', .inr ⟨hact, ?_⟩⟩
    rw [show posts k = some q from hq] at h'
    exact Option.some.inj h'

theorem Halts.isSome {scope : DrainScope} (h : Halts scope L L') (k : ChildKey) :
    (L'.posts k).isSome = (L.posts k).isSome := by
  obtain ⟨posts, rfl, hp⟩ := h
  show (posts k).isSome = _
  rcases hp k with h' | ⟨p, -, hp', -, h'⟩
  · rw [h']
  · rw [h', hp']
    rfl

/-- Only what is active is asked to stop. -/
theorem Settled.halts {scope : DrainScope} {s : Seat} (hs : L.Settled s) (h : Halts scope L L') : L'.Settled s := by
  have hget := @Halts.get L L' scope h
  obtain ⟨posts, rfl, -⟩ := h
  refine hs.mono (fun _ hn => hn) fun q hq => ?_
  obtain ⟨p, hp, rfl | ⟨hact, rfl⟩⟩ := hget hq
  · exact .inr (.inl hp)
  · exact .inr (.inr ⟨p, hp, fun hd => (isActive_ne hact).2 hd.1⟩)

theorem Kept.halts {scope : DrainScope} (hk : Kept roster L) (h : Halts scope L L') : Kept roster L' := by
  have hget := @Halts.get L L' scope h
  have hsome := h.isSome
  have hsettled : ∀ {s}, L.Settled s → L'.Settled s := fun hs => hs.halts h
  obtain ⟨posts, rfl, -⟩ := h
  constructor
  case kind_eq => exact hk.kind_eq
  case commands_eq => exact hk.commands_eq
  case keys_nodup => exact hk.keys_nodup
  case seated =>
    intro k q hq
    obtain ⟨p, hp, rfl | ⟨-, rfl⟩⟩ := hget hq
    · exact hk.seated k q hp
    · exact hk.seated k p hp
  case active =>
    intro k q hq
    obtain ⟨p, hp, rfl | ⟨-, rfl⟩⟩ := hget hq
    · exact hk.active k q hp
    · exact hk.active k p hp
  case willing =>
    intro k q hq
    obtain ⟨p, hp, rfl | ⟨-, rfl⟩⟩ := hget hq
    · exact hk.willing k q hp
    · exact hk.willing k p hp
  case order_eq =>
    simp only [hsome]
    exact hk.order_eq
  case ready =>
    intro k q hq
    obtain ⟨p, hp, rfl | ⟨-, rfl⟩⟩ := hget hq
    · exact hk.ready k q hp
    · exact hk.ready k p hp
  case exited =>
    intro k q hq
    obtain ⟨p, hp, rfl | ⟨-, rfl⟩⟩ := hget hq
    · exact hk.exited k q hp
    · exact fun hs => by cases hs
  case exits =>
    intro k q x hq
    obtain ⟨p, hp, rfl | ⟨-, rfl⟩⟩ := hget hq
    · exact hk.exits k q x hp
    · exact hk.exits k p x hp
  case earlier =>
    intro before s after q hr hq
    obtain ⟨p, hp, rfl | ⟨-, rfl⟩⟩ := hget hq
    · exact hk.earlier before s after q hr hp
    · exact hk.earlier before s after p hr hp
  case upheld =>
    intro before s after q hr hq hu e he hg
    obtain ⟨p, hp, rfl | ⟨-, rfl⟩⟩ := hget hq
    · exact hsettled (hk.upheld before s after q hr hp hu e he hg)
    · rcases hu with ⟨-, hu | hu⟩ <;> cases hu
  case told => exact hk.told

theorem Held.halts {scope : DrainScope} {pre : List ChildKey} (hh : Held roster pre keys ds L) (h : Halts scope L L') :
    Held roster pre keys ds L' := by
  have hget := @Halts.get L L' scope h
  have hsettled : ∀ {s}, L.Settled s → L'.Settled s := fun hs => hs.halts h
  have hqd : ∀ k, L'.isQueued k = true → L.isQueued k = true := by
    intro k hq
    obtain ⟨q, hkq, hst⟩ := (Option.any_eq_true _ _).mp hq
    obtain ⟨p, hp, rfl | ⟨-, rfl⟩⟩ := hget hkq
    · simp only [decide_eq_true_eq] at hst
      simp [isQueued, hp, hst]
    · cases hst
  obtain ⟨posts, rfl, -⟩ := h
  constructor
  case rows =>
    intro k q hq
    obtain ⟨p, hp, rfl | ⟨hact, rfl⟩⟩ := hget hq
    · exact hh.rows k q hp
    · refine ⟨fun _ => (hh.rows k p hp).started (.inl hact), fun hs => ?_, fun hd => ?_, fun hs => ?_⟩
      · cases hs
      · exact absurd ((hh.rows k p hp).due hd).1 (isActive_ne hact).2
      · cases hs
  case order_eq => exact hh.order_eq
  case queue_in => exact hh.queue_in
  case gate_in => exact hh.gate_in
  case queued_in => exact fun k hq => hh.queued_in k (hqd k hq)
  case settled => exact fun s hs hg hnot => hsettled (hh.settled s hs hg hnot)
  case fits =>
    intro c hc q hq hl hg
    obtain ⟨p, hp, rfl | ⟨hact, rfl⟩⟩ := hget hq
    · exact hh.fits c hc q hp hl hg
    · exact absurd (hh.fits c hc p hp hl hg).1 (isActive_ne hact).2
  case known => exact hh.known

/-- An exit while the drain runs: handed back, unless the child is one of `keys`. -/
theorem Held.exit {pre : List ChildKey} (hk : Kept roster L) (h : Held roster pre keys ds L) (hget : L.posts key = some p)
    (hact : p.state.isActive = true) (status : RuntimeExitStatus) {exits : List ClassifiedExit}
    (hex : exits = [] ∧ key ∈ keys ∨ exits = [⟨key, p.lineage, p.generation, status⟩]) :
    Held roster pre keys (ds ++ exits) (L.exit key status.view) := by
  have hqd : ∀ k, (L.exit key status.view).isQueued k = true → L.isQueued k = true := by
    intro k hq
    obtain ⟨q, hkq, hst⟩ := (Option.any_eq_true _ _).mp hq
    rw [exit_get hget] at hkq
    split at hkq
    · cases hkq
      cases hst
    · simp only [decide_eq_true_eq] at hst
      simp [isQueued, hkq, hst]
  have horder : (L.exit key status.view).order = L.order := by
    rw [exit_eq hget]
    rfl
  have hnews : ∀ n ∈ L.news, n ∈ (L.exit key status.view).news := by
    intro n hn
    rw [exit_eq hget]
    exact List.mem_append_left _ hn
  have hmem : ∀ c ∈ exits, c = ⟨key, p.lineage, p.generation, status⟩ := by
    intro c hc
    rcases hex with ⟨rfl, -⟩ | rfl
    · cases hc
    · exact List.mem_singleton.mp hc
  constructor
  case rows =>
    intro k q hq
    rw [exit_get hget] at hq
    split at hq
    · rename_i hkk
      cases hq
      refine ⟨fun _ => (h.rows key p hget).started (.inl hact), ?_, ?_, fun _ _ => .inr ?_⟩
      · intro hs
        cases hs
      · intro hd
        cases hd
      rcases hex with ⟨-, hin⟩ | rfl
      · exact .inl (hkk ▸ hin)
      · exact .inr ⟨_, List.mem_append_right _ (List.mem_singleton.mpr rfl), hkk.symm, rfl, rfl, rfl⟩
    · obtain ⟨ha, hn, hd, hov⟩ := h.rows k q hq
      refine ⟨ha, hn, hd, fun hs hdue => ?_⟩
      rcases hov hs hdue with h' | h' | ⟨c, hc, h'⟩
      · exact .inl h'
      · exact .inr (.inl h')
      · exact .inr (.inr ⟨c, List.mem_append_left _ hc, h'⟩)
  case order_eq => exact horder.trans h.order_eq
  case queue_in =>
    rw [exit_queue hget]
    exact h.queue_in
  case gate_in =>
    rw [exit_gate hget]
    exact h.gate_in
  case queued_in => exact fun k hq => h.queued_in k (hqd k hq)
  case settled =>
    intro s hs hsg hnot
    refine (h.settled s hs hsg hnot).mono hnews fun q hq => ?_
    rw [exit_get hget] at hq
    split at hq
    · rename_i hkk
      exact .inr (.inr ⟨p, hkk ▸ hget, fun hd => (isActive_ne hact).2 hd.1⟩)
    · exact .inr (.inl hq)
  case fits =>
    intro c hc q hq hl hg
    rw [exit_get hget] at hq
    rcases List.mem_append.mp hc with hc | hc
    · split at hq
      · rename_i hkk
        cases hq
        exact absurd (h.fits c hc p (by rw [hkk]; exact hget) hl hg).1 (isActive_ne hact).2
      · exact h.fits c hc q hq hl hg
    · rw [hmem c hc] at hq ⊢
      rw [if_pos rfl] at hq
      cases hq
      exact ⟨rfl, rfl⟩
  case known =>
    intro c hc
    rw [horder]
    rcases List.mem_append.mp hc with hc | hc
    · exact h.known c hc
    · rw [hmem c hc]
      exact hk.mem_order.mpr (by rw [hget]; rfl)

/-! ## Queueing the members again -/

/-- `A` are the members seen, `rest` those to come; `pre` stands before them all. -/
structure Rebuilding (roster : List Seat) (D : ChildKey → Post → Prop) (emitRestartEvents : Bool)
    (pre A rest : List ChildKey) (L : Lane) : Prop where
  rows : L.Rows fun k p => k ∈ rest ∨ D k p
  lineage_eq : ∀ item ∈ L.queue, ∀ p, L.posts item.key = some p → p.lineage = item.lineage
  gate_eq : L.gate = none
  order_eq : L.order = pre ++ A ++ rest
  past : ∀ k ∈ pre, L.isQueued k = false
  ahead : ∀ k ∈ A, ∀ p, L.posts k = some p → p.Waits
  idle : ∀ k ∈ rest, ∀ p, L.posts k = some p → p.state.isIdle = true ∧ (emitRestartEvents = false → p.hasStarted = false)
  queue_eq : L.queue.map (·.key) = A.filter L.isQueued
  first : ∀ s ∈ roster, s.isGated = true → L.Settled s ∨ s.key ∈ rest ∨
    ∃ p, L.posts s.key = some p ∧ p.state = .startQueued

variable {emitRestartEvents : Bool} {pre A rest : List ChildKey}

theorem Rebuilding.popping (h : Rebuilding roster D emitRestartEvents pre A [] L) : Popping roster D pre A L where
  rows := h.rows.mono fun k p _ hd => hd.resolve_left fun hk => by cases hk
  lineage_eq := h.lineage_eq
  gate_eq := h.gate_eq
  order_eq := by rw [h.order_eq, List.append_nil]
  past := h.past
  ahead := h.ahead
  queue_eq := h.queue_eq
  first s hs hg := by
    rcases h.first s hs hg with h' | h' | h'
    · exact .inl h'
    · cases h'
    · exact .inr h'

theorem Rebuilding.notMem (hk : Kept roster L) (h : Rebuilding roster D emitRestartEvents pre A (key :: rest) L) :
    key ∉ pre ∧ key ∉ A ∧ key ∉ rest := by
  have hn := hk.order_nodup
  rw [h.order_eq] at hn
  obtain ⟨hn₁, hn₂, hd⟩ := List.nodup_append.mp hn
  refine ⟨fun hm => ?_, fun hm => ?_, (List.nodup_cons.mp hn₂).1⟩
  · exact hd key (List.mem_append_left _ hm) key (List.mem_cons_self ..) rfl
  · exact hd key (List.mem_append_right _ hm) key (List.mem_cons_self ..) rfl

theorem Rebuilding.get (hk : Kept roster L) (h : Rebuilding roster D emitRestartEvents pre A (key :: rest) L) :
    ∃ p, L.posts key = some p := by
  refine Option.isSome_iff_exists.mp (hk.mem_order.mp ?_)
  rw [h.order_eq]
  exact List.mem_append_right _ (List.mem_cons_self ..)

/-- A member that is not started again stays as it is. -/
theorem Rebuilding.keep (hk : Kept roster L) (h : Rebuilding roster D emitRestartEvents pre A (key :: rest) L)
    (hget : L.posts key = some p) (hst : p.state = .stopped) (hd : p.due = false) (ho : p.Over) :
    Rebuilding roster D emitRestartEvents pre (A ++ [key]) rest L where
  rows := by
    intro k q hq
    obtain ⟨ha, hn, hdue, hov⟩ := h.rows k q hq
    refine ⟨ha, hn, hdue, fun hs hf => ?_⟩
    rcases hov hs hf with h' | h' | h'
    · exact .inl h'
    · rcases List.mem_cons.mp h' with hkk | hm
      · rw [hkk, hget] at hq
        cases hq
        exact .inl ho
      · exact .inr (.inl hm)
    · exact .inr (.inr h')
  lineage_eq := h.lineage_eq
  gate_eq := h.gate_eq
  order_eq := by rw [h.order_eq]; simp
  past := h.past
  ahead := by
    intro k hm q hq
    rcases List.mem_append.mp hm with hm | hm
    · exact h.ahead k hm q hq
    · rw [List.mem_singleton.mp hm, hget] at hq
      cases hq
      exact .inr ⟨hst, hd⟩
  idle k hm := h.idle k (List.mem_cons_of_mem _ hm)
  queue_eq := by
    have hnq : L.isQueued key = false := isQueued_false hget (by rw [hst]; simp)
    rw [h.queue_eq, List.filter_append]
    simp [hnq]
  first s hs hg := by
    rcases h.first s hs hg with h' | h' | h'
    · exact .inl h'
    · rcases List.mem_cons.mp h' with hkk | hm
      · exact .inl (hk.settled_done hget ⟨hst, hd, ho⟩ s hs hkk)
      · exact .inr (.inl hm)
    · exact .inr (.inr h')

/-- A member that leaves with the restart. -/
theorem Rebuilding.leave (hk : Kept roster L) (h : Rebuilding roster D emitRestartEvents pre A (key :: rest) L)
    (hget : L.posts key = some p) (hd : p.Done) : Rebuilding roster D emitRestartEvents pre A rest (L.drop key) := by
  obtain ⟨hpre, hA, hrest⟩ := h.notMem hk
  have hdrop : L.drop key = { L with posts := Function.update L.posts key none, order := L.order.filter (· ≠ key) }.tell
      [.removed p.id p.lineage] := by
    unfold Lane.drop
    rw [hget]
  have hold : ∀ k q, (L.drop key).posts k = some q → k ≠ key ∧ L.posts k = some q := by
    intro k q hq
    rw [drop_get] at hq
    split at hq
    · cases hq
    · rename_i hkk
      exact ⟨hkk, hq⟩
  have hother : ∀ k, k ≠ key → (L.drop key).posts k = L.posts k := fun k hkk => by rw [drop_get, if_neg hkk]
  have hqd : ∀ k, k ≠ key → (L.drop key).isQueued k = L.isQueued k := by
    intro k hkk
    unfold isQueued
    rw [hother k hkk]
  have hsettled : ∀ {s}, L.Settled s → (L.drop key).Settled s := by
    intro s hs
    refine hs.mono (fun n hn => ?_) fun q hq => .inr (.inl (hold _ q hq).2)
    rw [hdrop]
    exact List.mem_append_left _ hn
  have hfilter : ∀ l : List ChildKey, key ∉ l → l.filter (· ≠ key) = l := by
    intro l hl
    rw [List.filter_eq_self]
    intro k hm
    exact decide_eq_true fun he => hl (he ▸ hm)
  constructor
  case rows =>
    intro k q hq
    obtain ⟨hkk, hq⟩ := hold k q hq
    obtain ⟨ha, hn, hdue, hov⟩ := h.rows k q hq
    refine ⟨ha, hn, hdue, fun hs hf => ?_⟩
    rcases hov hs hf with h' | h' | h'
    · exact .inl h'
    · exact .inr (.inl ((List.mem_cons.mp h').resolve_left hkk))
    · exact .inr (.inr h')
  case lineage_eq =>
    intro item hi q hq
    rw [drop_queue] at hi
    exact h.lineage_eq item hi q (hold _ q hq).2
  case gate_eq => exact drop_gate.trans h.gate_eq
  case order_eq =>
    rw [hdrop]
    show L.order.filter (· ≠ key) = _
    rw [h.order_eq, List.filter_append, List.filter_append, hfilter pre hpre, hfilter A hA, List.filter_cons, hfilter rest hrest]
    simp
  case past =>
    intro k hm
    rw [hqd k fun he => hpre (he ▸ hm)]
    exact h.past k hm
  case ahead =>
    intro k hm q hq
    exact h.ahead k hm q (hold k q hq).2
  case idle =>
    intro k hm q hq
    exact h.idle k (List.mem_cons_of_mem _ hm) q (hold k q hq).2
  case queue_eq =>
    rw [drop_queue, h.queue_eq]
    exact List.filter_congr fun k hm => (hqd k fun he => hA (he ▸ hm)).symm
  case first =>
    intro s hs hg
    rcases h.first s hs hg with h' | h' | ⟨q, hq, hst⟩
    · exact .inl (hsettled h')
    · rcases List.mem_cons.mp h' with hkk | hm
      · exact .inl (hsettled (hk.settled_done hget hd s hs hkk))
      · exact .inr (.inl hm)
    · by_cases hkk : s.key = key
      · exact .inl (hsettled (hk.settled_done hget hd s hs hkk))
      · exact .inr (.inr ⟨q, (hother _ hkk).trans hq, hst⟩)

/-- A member that is to be started goes to the end of the queue. -/
theorem Rebuilding.enqueue (hk : Kept roster L) (h : Rebuilding roster D emitRestartEvents pre A (key :: rest) L)
    (hget : L.posts key = some p) (hn : p.hasStarted = true → p.definition.restart.isNever = false) :
    Rebuilding roster D emitRestartEvents pre (A ++ [key]) rest
      { L.put key p.enqueue with queue := L.queue ++ [⟨key, p.lineage, emitRestartEvents⟩] } := by
  obtain ⟨hpre, hA, hrest⟩ := h.notMem hk
  have hother : ∀ k, k ≠ key → (L.put key p.enqueue).posts k = L.posts k := fun k hkk => by rw [put_get, if_neg hkk]
  have hself : (L.put key p.enqueue).posts key = some p.enqueue := by rw [put_get, if_pos rfl]
  have hqd : ∀ k, k ≠ key → (L.put key p.enqueue).isQueued k = L.isQueued k := by
    intro k hkk
    rw [isQueued_put, if_neg hkk]
  have hqself : (L.put key p.enqueue).isQueued key = true := by
    rw [isQueued_put, if_pos rfl]
    rfl
  constructor
  case rows =>
    intro k q hq
    replace hq : (L.put key p.enqueue).posts k = some q := hq
    by_cases hkk : k = key
    · rw [hkk, hself] at hq
      cases hq
      exact ⟨fun ha => (h.rows key p hget).started (.inr (ha.resolve_left fun h => (nomatch h))), fun _ => hn,
        fun hd => (nomatch hd), fun hs => (nomatch hs)⟩
    · rw [hother k hkk] at hq
      obtain ⟨ha, hn', hdue, hov⟩ := h.rows k q hq
      refine ⟨ha, hn', hdue, fun hs hf => ?_⟩
      rcases hov hs hf with h' | h' | h'
      · exact .inl h'
      · exact .inr (.inl ((List.mem_cons.mp h').resolve_left hkk))
      · exact .inr (.inr h')
  case lineage_eq =>
    intro item hi q hq
    replace hq : (L.put key p.enqueue).posts item.key = some q := hq
    rcases List.mem_append.mp hi with hi | hi
    · have hne : item.key ≠ key := by
        intro he
        have hm : item.key ∈ L.queue.map (·.key) := List.mem_map.mpr ⟨item, hi, rfl⟩
        rw [h.queue_eq, he] at hm
        exact hA (List.mem_filter.mp hm).1
      rw [hother _ hne] at hq
      exact h.lineage_eq item hi q hq
    · rw [List.mem_singleton.mp hi] at hq ⊢
      rw [hself] at hq
      cases hq
      rfl
  case gate_eq => exact h.gate_eq
  case order_eq =>
    show L.order = _
    rw [h.order_eq]
    simp
  case past =>
    intro k hm
    exact (hqd k fun he => hpre (he ▸ hm)).trans (h.past k hm)
  case ahead =>
    intro k hm q hq
    replace hq : (L.put key p.enqueue).posts k = some q := hq
    by_cases hkk : k = key
    · rw [hkk, hself] at hq
      cases hq
      exact .inl rfl
    · rw [hother k hkk] at hq
      refine h.ahead k ?_ q hq
      simpa [hkk] using hm
  case idle =>
    intro k hm q hq
    replace hq : (L.put key p.enqueue).posts k = some q := hq
    rw [hother k fun he => hrest (he ▸ hm)] at hq
    exact h.idle k (List.mem_cons_of_mem _ hm) q hq
  case queue_eq =>
    have hAf : A.filter (L.put key p.enqueue).isQueued = A.filter L.isQueued :=
      List.filter_congr fun k hm => hqd k fun he => hA (he ▸ hm)
    show (L.queue ++ [_]).map _ = (A ++ [key]).filter (L.put key p.enqueue).isQueued
    rw [List.map_append, List.filter_append, hAf, h.queue_eq]
    simp [hqself]
  case first =>
    intro s hs hg
    by_cases hkk : s.key = key
    · exact .inr (.inr ⟨p.enqueue, by rw [hkk]; exact hself, rfl⟩)
    · rcases h.first s hs hg with h' | h' | ⟨q, hq, hst⟩
      · exact .inl (h'.still (fun _ hn => hn) (hother _ hkk))
      · exact .inr (.inl ((List.mem_cons.mp h').resolve_left hkk))
      · exact .inr (.inr ⟨q, (hother _ hkk).trans hq, hst⟩)

/-- While the members are queued again, only who stands before them all is up. -/
theorem Rebuilding.unmanned (hk : Kept roster L) (h : Rebuilding roster D emitRestartEvents pre A (key :: rest) L) :
    ∀ before s after q, roster = before ++ s :: after → key ∈ before.map (·.key) → L.posts s.key = some q → ¬ q.Up := by
  rintro before s after q hr hm hq ⟨-, hup⟩
  obtain ⟨p, hget⟩ := h.get hk
  obtain ⟨e, he, hkey⟩ := List.mem_map.mp hm
  have hmem : s.key ∈ L.order := hk.mem_order.mpr (by rw [hq]; rfl)
  rw [h.order_eq, List.mem_append, List.mem_append] at hmem
  rcases hmem with (hpre | hA) | hrest
  · -- then the key stands before them too
    obtain ⟨x, y, hxy⟩ := List.append_of_mem hpre
    have ho : L.order = x ++ s.key :: (y ++ A ++ key :: rest) := by rw [h.order_eq, hxy]; simp
    have hx := hk.before_mem hr ho he (by rw [hkey, hget]; rfl)
    refine (h.notMem hk).1 ?_
    rw [hxy, ← hkey]
    exact List.mem_append_left _ hx
  · rcases h.ahead s.key hA q hq with hw | ⟨hw, -⟩ <;> rw [hw] at hup <;> rcases hup with hup | hup <;> cases hup
  · have hidle := (h.idle s.key hrest q hq).1
    rcases hup with hup | hup <;> rw [hup] at hidle <;> cases hidle

theorem Kept.over_of_never (hk : Kept roster L) (hget : L.posts key = some p) (hst : p.state = .stopped)
    (hs : p.hasStarted = true) (hn : p.definition.restart.isNever = true) : p.Over := by
  obtain ⟨x, hx⟩ := hk.exited key p hget hst hs
  refine ⟨x, hx, ?_⟩
  cases hr : p.definition.restart with
  | never => rfl
  | always m w b =>
    rw [hr] at hn
    cases hn
  | onFailure m w b =>
    rw [hr] at hn
    cases hn

/-- One round of the loop; other children are not touched. -/
theorem Rebuilding.next (hk : Kept roster L) (h : Rebuilding roster D emitRestartEvents pre A (key :: rest) L) :
    Kept roster (L.schedule key emitRestartEvents) ∧
      (∃ A', (∀ k ∈ A', k ∈ A ∨ k = key) ∧
        Rebuilding roster D emitRestartEvents pre A' rest (L.schedule key emitRestartEvents)) ∧
      ∀ k, k ≠ key → (L.schedule key emitRestartEvents).posts k = L.posts k := by
  obtain ⟨p, hget⟩ := h.get hk
  obtain ⟨hidle, hfresh⟩ := h.idle key (List.mem_cons_self ..) p hget
  have hact := hk.active key p hget
  have hsub : ∀ k ∈ A ++ [key], k ∈ A ∨ k = key := by
    intro k hm
    simpa using hm
  -- the child is queued
  have hgo : (p.hasStarted = true → p.definition.restart.isNever = false) →
      L.scheduleStart key emitRestartEvents =
        { L.put key p.enqueue with queue := L.queue ++ [⟨key, p.lineage, emitRestartEvents⟩] } ∧
      Kept roster (L.scheduleStart key emitRestartEvents) ∧
      (∃ A', (∀ k ∈ A', k ∈ A ∨ k = key) ∧
        Rebuilding roster D emitRestartEvents pre A' rest (L.scheduleStart key emitRestartEvents)) ∧
      ∀ k, k ≠ key → (L.scheduleStart key emitRestartEvents).posts k = L.posts k := by
    intro hn
    have heq : L.scheduleStart key emitRestartEvents =
        { L.put key p.enqueue with queue := L.queue ++ [⟨key, p.lineage, emitRestartEvents⟩] } := by
      unfold Lane.scheduleStart
      simp [hget, hact, hidle, hk.kind_eq]
    have hput : Kept roster (L.put key p.enqueue) := by
      refine hk.restate hget ⟨rfl, rfl, rfl, rfl, rfl⟩ (fun hr => ?_) rfl rfl (fun hs => ?_) (fun hu => ?_) (.inr (h.unmanned hk))
      · cases hr
      · cases hs
      · rcases hu with ⟨-, hu | hu⟩ <;> cases hu
    rw [heq]
    exact ⟨rfl, hput.requeue _ _, ⟨A ++ [key], hsub, h.enqueue hk hget hn⟩, fun k hkk => (put_get k).trans (if_neg hkk)⟩
  cases emitRestartEvents with
  | false =>
    have hno : p.hasStarted = true → p.definition.restart.isNever = false := by
      intro hs
      rw [hfresh rfl] at hs
      cases hs
    exact (hgo hno).2
  | true =>
    have hm : ¬ p.membership ≠ .active := by rw [hact]; simp
    unfold Lane.schedule
    simp only [if_true, hget, if_neg hm]
    by_cases hnever : (p.hasStarted && p.definition.restart.isNever) = true
    · rw [if_pos hnever]
      rw [Bool.and_eq_true] at hnever
      have hst : p.state = .stopped := by
        cases hs : p.state with
        | startQueued =>
          have := (h.rows key p hget).never hs hnever.1
          rw [hnever.2] at this
          cases this
        | stopped => rfl
        | starting => rw [hs] at hidle; cases hidle
        | running => rw [hs] at hidle; cases hidle
        | stopping => rw [hs] at hidle; cases hidle
      have hd : p.due = false := by
        cases hd : p.due with
        | false => rfl
        | true =>
          have := ((h.rows key p hget).due hd).2.2
          rw [hnever.2] at this
          cases this
      have ho := hk.over_of_never hget hst hnever.1 hnever.2
      unfold Lane.skip
      split
      · exact ⟨hk.drop key, ⟨A, fun k hm => .inl hm, h.leave hk hget ⟨hst, hd, ho⟩⟩, fun k hkk => by rw [drop_get, if_neg hkk]⟩
      · exact ⟨hk, ⟨A ++ [key], hsub, h.keep hk hget hst hd ho⟩, fun _ _ => rfl⟩
    · rw [if_neg hnever]
      have hno : p.hasStarted = true → p.definition.restart.isNever = false := by
        intro hs
        cases hn : p.definition.restart.isNever with
        | false => rfl
        | true => exact absurd (by rw [hs, hn]; rfl) hnever
      exact (hgo hno).2

/-- The drain is over: every member is idle, and the sequence is rebuilt from nothing. -/
theorem Held.rebuild (h : Held roster pre keys ds L)
    (hk : Kept roster L) (hidle : ∀ k ∈ keys, ∀ p, L.posts k = some p → p.state.isActive = false) :
    Rebuilding roster (fun k p => k ∉ keys ∧ Awaiting ds k p) true pre [] keys { L with queue := [], gate := none } where
  rows := by
    intro k p hp
    obtain ⟨ha, hn, hd, ho⟩ := h.rows k p hp
    refine ⟨ha, hn, hd, fun hs hf => ?_⟩
    by_cases hkk : k ∈ keys
    · exact .inr (.inl hkk)
    · rcases ho hs hf with h' | h' | h'
      · exact .inl h'
      · exact absurd h' hkk
      · exact .inr (.inr ⟨hkk, h'⟩)
  lineage_eq item hi := by cases hi
  gate_eq := rfl
  order_eq := by
    show L.order = _
    rw [h.order_eq, List.append_nil]
  past := by
    intro k hm
    cases hq : L.isQueued k with
    | false => exact hq
    | true =>
      have hin := h.queued_in k hq
      have hn := hk.order_nodup
      rw [h.order_eq] at hn
      exact absurd rfl ((List.nodup_append.mp hn).2.2 k hm k hin)
  ahead k hm := by cases hm
  idle := by
    intro k hm p hp
    refine ⟨?_, fun hf => by cases hf⟩
    have := hidle k hm p hp
    cases hs : p.state <;> rw [hs] at this <;> simp_all [RuntimeChildState.isActive, RuntimeChildState.isIdle]
  queue_eq := rfl
  first s hs hg := by
    by_cases hkk : s.key ∈ keys
    · exact .inr (.inl hkk)
    · exact .inl (h.settled s hs hg hkk)

/-! ## The exits handed back -/

structure Regrouped (keys : List ChildKey) (es : List ClassifiedExit) (L : Lane) : Prop where
  parted : ∃ A B, L.order = A ++ B ∧ (∀ k ∈ B, k ∈ keys) ∧ ∀ g, L.gate = some g → g.key ∈ B
  outside : ∀ c ∈ es, c.key ∉ keys
  fits : ∀ c ∈ es, L.Fits c

variable {c : ClassifiedExit} {es : List ClassifiedExit}

theorem Regrouped.notMem_after (hk : Kept roster L) (h : Regrouped keys (c :: es) L) :
    ∀ g q before after, L.gate = some g → Gated L g q before after → c.key ∉ after := by
  intro g q before after hg hG hm
  obtain ⟨A, B, ho, hB, hgate⟩ := h.parted
  have hn := hk.order_nodup
  rw [ho] at hn
  have := after_subset hn (ho.symm.trans hG.order_eq) (hgate g hg) c.key hm
  exact h.outside c (List.mem_cons_self ..) (hB _ this)

theorem Regrouped.gate_ne (h : Regrouped keys (c :: es) L) : ∀ g, L.gate = some g → g.key ≠ c.key := by
  intro g hg he
  obtain ⟨A, B, -, hB, hgate⟩ := h.parted
  exact h.outside c (List.mem_cons_self ..) (hB _ (he ▸ hgate g hg))

/-- An exit that is no longer current is dropped. -/
theorem Regrouped.stale (h : Regrouped keys (c :: es) L) (hs : Staged roster (Awaiting (c :: es)) L)
    (hno : ∀ p, L.posts c.key = some p → ¬ (p.lineage = c.lineage ∧ p.generation = c.generation)) :
    Staged roster (Awaiting es) L ∧ Regrouped keys es L := by
  refine ⟨hs.settle fun k p hp hd => .inr ?_, h.parted, fun x hx => h.outside x (List.mem_cons_of_mem _ hx),
    fun x hx => h.fits x (List.mem_cons_of_mem _ hx)⟩
  obtain ⟨x, hx, hk, hl, hg, hst⟩ := hd
  rcases List.mem_cons.mp hx with rfl | hx
  · exact absurd ⟨hl.symm, hg.symm⟩ (hno p (by rw [hk]; exact hp))
  · exact ⟨x, hx, hk, hl, hg, hst⟩

/-- Its child is not in the start sequence. -/
theorem Regrouped.release_eq (h : Regrouped keys (c :: es) L) (hs : Staged roster (Awaiting (c :: es)) L)
    (hget : L.posts c.key = some p) (hnq : p.state ≠ .startQueued) :
    (if p.hasReportedReady then L else L.release c.key p.lineage) = L := by
  have hat : L.atGate c.key p.lineage = false := by
    unfold atGate
    cases hgate : L.gate with
    | none => rfl
    | some g => simp [h.gate_ne g hgate]
  split
  · rfl
  · unfold Lane.release
    rw [hat]
    exact detach_absent (hs.notMem_queue hget hnq) hat

/-- Its policy is about its child alone. -/
theorem Regrouped.apply_frame (h : Regrouped keys (c :: es) L) (hs : Staged roster (Awaiting (c :: es)) L)
    (hget : L.posts c.key = some p) (hnq : p.state ≠ .startQueued) {k : ChildKey} (hk : k ≠ c.key) (isFailure : Bool) :
    (L.applyExit c.key isFailure).posts k = L.posts k := by
  unfold applyExit
  rw [hget]
  simp only
  split
  · rfl
  · split
    · rw [drop_get, if_neg hk]
    · split
      · rw [put_get, if_neg hk]
      · unfold Lane.terminal
        rw [h.release_eq hs hget hnq]
        simp only
        split
        · rw [drop_get, if_neg hk]
        · rfl

/-- A current one gets its policy. -/
theorem Regrouped.apply (hrun : L.running = true) (hk : Kept roster L) (h : Regrouped keys (c :: es) L)
    (hs : Staged roster (Awaiting (c :: es)) L) (hget : L.posts c.key = some p) (hl : p.lineage = c.lineage)
    (hg : p.generation = c.generation) :
    Kept roster (L.applyExit c.key c.status.isFailure) ∧ Staged roster (Awaiting es) (L.applyExit c.key c.status.isFailure) ∧
      Regrouped keys es (L.applyExit c.key c.status.isFailure) ∧ (L.applyExit c.key c.status.isFailure).running = true := by
  obtain ⟨hst, hlast⟩ := h.fits c (List.mem_cons_self ..) p hget hl hg
  have hnq : p.state ≠ .startQueued := by rw [hst]; simp
  have hm : p.membership ≠ .removing := by
    rw [hk.active _ p hget]
    simp
  have hshrink : ∀ k q, k ≠ c.key → Awaiting (c :: es) k q → Awaiting es k q := by
    rintro k q hkk ⟨x, hx, hxk, hrest⟩
    rcases List.mem_cons.mp hx with rfl | hx
    · exact absurd hxk.symm hkk
    · exact ⟨x, hx, hxk, hrest⟩
  unfold applyExit
  rw [hget]
  simp only [hrun, Bool.not_true, Bool.false_eq_true, if_false, hm]
  rw [← c.status.isFailure_view]
  split
  · rename_i hr
    have hstarted := (hs.rows c.key p hget).started (.inr (by rw [hlast]; simp))
    have hnot : ¬ p.Done := by
      rintro ⟨-, -, x, hx, hover⟩
      rw [hlast] at hx
      cases hx
      exact absurd (hover.symm.trans hr) (by simp)
    have hput := hs.put (p.setDue true) hget ⟨rfl, rfl, rfl, rfl, rfl⟩ (fun hd => absurd hd hnot) hnq hnq (h.notMem_after hk)
      (by
        refine ⟨(hs.rows c.key p hget).started, (hs.rows c.key p hget).never, fun _ => ⟨hst, hstarted, ?_⟩, fun _ hd => ?_⟩
        · cases hp : p.definition.restart with
          | never =>
            rw [hp] at hr
            cases hr
          | always m w b => simp [Post.setDue, hp, RestartPolicy.isNever]
          | onFailure m w b => simp [Post.setDue, hp, RestartPolicy.isNever]
        · cases hd)
      fun g hgate hgk => absurd hgk (h.gate_ne g hgate)
    rw [regate_eq fun g hgate hgk => absurd hgk (h.gate_ne g hgate)] at hput
    refine ⟨hk.restate hget ⟨rfl, rfl, rfl, rfl, rfl⟩ id rfl rfl id id (.inl fun hd => absurd hd hnot), ?_,
      ⟨h.parted, fun x hx => h.outside x (List.mem_cons_of_mem _ hx), ?_⟩, hrun⟩
    · refine Staged.settle (D := fun k q => q.due = false ∧ Awaiting (c :: es) k q) ?_ ?_
      · refine ⟨?_, hput.lineage_eq, hput.queue_eq, hput.gate, hput.opened, hput.first⟩
        intro k q hq
        obtain ⟨ha, hn, hd, ho⟩ := hput.rows k q hq
        exact ⟨ha, hn, hd, fun hs' hf => (ho hs' hf).imp_right fun h' => ⟨hf, h'⟩⟩
      · rintro k q hq ⟨hf, hd⟩
        by_cases hkk : k = c.key
        · rw [put_get, if_pos hkk] at hq
          cases hq
          cases hf
        · exact .inr (hshrink k q hkk hd)
    · intro x hx q hq
      rw [put_get] at hq
      split at hq
      · rename_i hkk
        cases hq
        exact h.fits x (List.mem_cons_of_mem _ hx) p (by rw [hkk]; exact hget)
      · exact h.fits x (List.mem_cons_of_mem _ hx) q hq
  · rename_i hr
    have ho : p.Over := ⟨c.status.view, hlast, by simpa using hr⟩
    have hs' : Staged roster (Awaiting es) L := by
      refine hs.settle fun k q hq hd => ?_
      by_cases hkk : k = c.key
      · rw [hkk, hget] at hq
        cases hq
        exact .inl ho
      · exact .inr (hshrink k q hkk hd)
    have hrest : Regrouped keys es L :=
      ⟨h.parted, fun x hx => h.outside x (List.mem_cons_of_mem _ hx), fun x hx => h.fits x (List.mem_cons_of_mem _ hx)⟩
    unfold Lane.terminal
    rw [h.release_eq hs hget hnq]
    simp only
    split
    · refine ⟨hk.drop _, hs'.drop hget hnq h.gate_ne, ⟨?_, hrest.outside, ?_⟩, ?_⟩
      · obtain ⟨A, B, ho', hB, hgate⟩ := h.parted
        refine ⟨A.filter (· ≠ c.key), B.filter (· ≠ c.key), ?_, fun k hm => hB k (List.mem_filter.mp hm).1, ?_⟩
        · unfold Lane.drop
          rw [hget]
          show L.order.filter (· ≠ c.key) = _
          rw [ho', List.filter_append]
        · intro g hgd
          rw [drop_gate] at hgd
          exact List.mem_filter.mpr ⟨hgate g hgd, decide_eq_true (h.gate_ne g hgd)⟩
      · intro x hx q hq
        rw [drop_get] at hq
        split at hq
        · cases hq
        · exact hrest.fits x hx q hq
      · unfold Lane.drop
        rw [hget]
        exact hrun
    · exact ⟨hk, hs', hrest, hrun⟩

end Kokage.Supervisor.Lane

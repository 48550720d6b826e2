/-
  Kokage.Supervisor.Sequencing — the start sequence through readiness, exits and
  restarts.

  Each handler of an ordered scope takes a lane that is `Kept` and `Staged` to one that is
  again, or fails and leaves it `Kept`. A group restart goes through three forms in between:
  `Held` while its drain runs, `Rebuilding` while its members are queued again, and
  `Staged` for the exits deferred to its end.
-/

import Kokage.Supervisor.Staging

namespace Kokage.Supervisor.Lane

variable {L L' : Lane} {roster : List Seat} {key : ChildKey} {p p' : Post} {D D' : ChildKey → Post → Prop}

/-! ## Readiness -/

theorem Kept.settled_ready (hk : Kept roster L) (hget : L.posts key = some p) (hn : News.started p.id p.lineage ∈ L.news) :
    ∀ s ∈ roster, s.key = key → L.Settled s := by
  intro s hs hkey
  subst hkey
  rw [hk.seat_unique hs hget]
  exact .inl hn

theorem Kept.settled_done (hk : Kept roster L) (hget : L.posts key = some p) (hd : p.Done) :
    ∀ s ∈ roster, s.key = key → L.Settled s := by
  intro s hs hkey
  subst hkey
  obtain ⟨x, hx, hr⟩ := hd.2.2
  rw [hk.seat_unique hs hget]
  refine .inr ⟨.inr ⟨x, hk.exits _ p x hget hx, hr⟩, fun q hq => ?_⟩
  cases hget.symm.trans hq
  exact hd

/-- A readiness message is taken. -/
theorem Staged.readyAt (hk : Kept roster L) (h : Staged roster D L) (r : ChildReady) :
    Kept roster (L.readyAt r) ∧ Staged roster D (L.readyAt r) := by
  unfold Lane.readyAt
  split
  · exact ⟨hk, h⟩
  rename_i p hp
  split
  · exact ⟨hk, h⟩
  rename_i hc
  simp only [Bool.or_eq_true, decide_eq_true_eq, not_or, ne_eq, not_not] at hc
  obtain ⟨⟨⟨hlin, hgen⟩, -⟩, hst⟩ := hc
  let L₁ := (L.put r.key p.report).tell [.started p.id p.lineage]
  have hnot : ¬ p.Done := fun hd => by
    rw [Post.Done, hst] at hd
    cases hd.1
  have hk₁ : Kept roster L₁ := by
    refine (hk.tell [.started p.id p.lineage]).put hp ⟨rfl, rfl, rfl, rfl, rfl⟩ ?_ ?_ ?_ ?_ ?_ (.inl fun hd => absurd hd hnot)
    · intro _
      exact List.mem_append_right _ (List.mem_singleton.mpr rfl)
    · intro hs
      cases hs
    · intro x hx
      exact (hk.tell _).exits r.key p x hp hx
    · intro hs before s after hr hkey
      exact (hk.tell _).earlier before s after p hr (by rw [hkey]; exact hp) hs
    · rintro ⟨hg, -⟩ before s after hr hkey
      exact (hk.tell _).upheld before s after p hr (by rw [hkey]; exact hp) ⟨hg, .inl hst⟩
  have hget₁ : L₁.posts r.key = some p.report := by
    show (L.put r.key p.report).posts r.key = _
    rw [put_get, if_pos rfl]
  have hnews₁ : News.started p.report.id p.report.lineage ∈ L₁.news :=
    List.mem_append_right _ (List.mem_singleton.mpr rfl)
  have hk₂ : Kept roster (L₁.memberReady r.key r.lineage) :=
    hk₁.memberReady r.lineage (hk₁.heard hget₁ hnews₁ r.lineage)
  have hrow : Row D r.key p.report := by
    refine ⟨fun _ => (h.rows r.key p hp).started (.inl (by rw [hst]; rfl)), ?_, ?_, ?_⟩
    · intro hs
      cases hs
    · intro hd
      have := (h.rows r.key p hp).due hd
      rw [hst] at this
      cases this.1
    · intro hs
      cases hs
  simp only
  split
  · rename_i hgm
    obtain ⟨g, hg, hgk⟩ := (Option.any_eq_true _ _).mp hgm
    simp only [Bool.and_eq_true, decide_eq_true_eq] at hgk
    have hgkey : r.key = g.key := hgk.1.1.symm
    obtain ⟨startup, told, hL⟩ := L₁.memberReady_cases r.key r.lineage
    have hset := hk₁.settled_ready hget₁ hnews₁
    obtain ⟨A, B, hpop⟩ := h.opening (L₁.memberReady r.key r.lineage).openGate p.report hg (by rw [← hgkey]; exact hp) hk
      (by simp [Post.report]) (by rw [← hgkey]; exact hrow)
      (by
        intro k
        rw [openGate_posts, memberReady_posts, ← hgkey]
        exact put_get k)
      (by rw [hL]; rfl) rfl (by rw [hL]; rfl)
      (by
        intro n hn
        rw [hL]
        exact List.mem_append_left _ hn)
      (by
        intro s hs hkey
        refine (hset s hs (hkey.trans hgkey.symm)).still (fun n hn => ?_) ?_
        · rw [hL]
          exact hn
        · rw [hL]
          rfl)
    exact Popping.pop _ rfl (hk₂.requeue _ none) hpop
  · rename_i hgm
    refine ⟨hk₂, Staged.memberReady ?_ _⟩
    have hno : ∀ g, L.gate = some g → g.key ≠ r.key := by
      intro g hg hgk
      obtain ⟨before, after, hG⟩ := h.gate_at hg hp hgk
      refine hgm ?_
      simp [hg, hgk, ← hG.lineage_eq, ← hG.generation_eq, hlin, hgen]
    have hput := h.put p.report hp ⟨rfl, rfl, rfl, rfl, rfl⟩ (fun hd => absurd hd hnot) (by simp [hst]) (by simp [Post.report])
      (fun _ _ _ _ _ hG => hG.notMem_after hp (by simp [hst]) (by simp [hst])) hrow fun g hg hgk => absurd hgk (hno g hg)
    rw [regate_eq fun g hg hgk => absurd hgk (hno g hg)] at hput
    exact hput.tell _

/-- What the queue's loop leaves alone. -/
theorem pop_frame : ∀ (queue : List StartItem) {L : Lane} {k : ChildKey}, (∀ item ∈ queue, item.key ≠ k) →
    (pop queue L).posts k = L.posts k ∧ ∀ g, (pop queue L).gate = some g → L.gate = none → g.key ≠ k
  | [], L, k, _ => ⟨rfl, fun g hg => by cases hg⟩
  | item :: rest, L, k, hne => by
    have hi : item.key ≠ k := hne item (List.mem_cons_self ..)
    have hposts : ({ L with queue := rest }.startItem item).posts k = L.posts k ∧
        ∀ g, ({ L with queue := rest }.startItem item).gate = some g → L.gate = none → g.key ≠ k := by
      have hsp : ∀ p : Post, ({ L with queue := rest }.spawn item.key p).posts k = L.posts k := fun p => by
        rw [spawn_get, if_neg hi.symm]
      have hkeep : ∀ p : Post, ({ L with queue := rest }.spawn item.key p).gate = L.gate := fun p => spawn_gate
      unfold startItem
      split
      · exact ⟨rfl, fun g hg hn => by rw [show L.gate = some g from hg] at hn; cases hn⟩
      · rename_i p _
        split
        · exact ⟨rfl, fun g hg hn => by rw [show L.gate = some g from hg] at hn; cases hn⟩
        · simp only
          split
          · refine ⟨hsp p, fun g hg _ => ?_⟩
            cases hg
            exact hi
          · split
            · rw [memberReady_posts, memberReady_gate]
              exact ⟨hsp p, fun g hg hn => by rw [hkeep p, hn] at hg; cases hg⟩
            · exact ⟨hsp p, fun g hg hn => by rw [hkeep p, hn] at hg; cases hg⟩
    unfold Lane.pop
    simp only
    split
    · exact hposts
    · rename_i hg
      have ih := pop_frame rest (L := { L with queue := rest }.startItem item) (k := k)
        fun i hi' => hne i (List.mem_cons_of_mem _ hi')
      refine ⟨ih.1.trans hposts.1, fun g hg' _ => ih.2 g hg' ?_⟩
      simpa using hg

theorem detach_absent {lineage : Nat} (hq : ∀ item ∈ L.queue, item.key ≠ key) (hg : L.atGate key lineage = false) :
    L.detach key lineage = L := by
  have hf : L.queue.filter (fun item => item.key ≠ key || item.lineage ≠ lineage) = L.queue := by
    rw [List.filter_eq_self]
    intro item hi
    simp [hq item hi]
  unfold detach
  rw [hf, hg]
  rfl

theorem detach_gate {lineage : Nat} (hq : ∀ item ∈ L.queue, item.key ≠ key) (hg : L.atGate key lineage = true) :
    L.detach key lineage = L.openGate := by
  have hf : L.queue.filter (fun item => item.key ≠ key || item.lineage ≠ lineage) = L.queue := by
    rw [List.filter_eq_self]
    intro item hi
    simp [hq item hi]
  unfold detach
  rw [hf, hg]
  rfl

/-! ## Exits -/

theorem exit_get (hget : L.posts key = some p) (kind : ExitKind) (k : ChildKey) :
    (L.exit key kind).posts k = if k = key then some (p.exit kind) else L.posts k := by
  rw [exit_eq hget]
  exact put_get k

theorem exit_queue (hget : L.posts key = some p) (kind : ExitKind) : (L.exit key kind).queue = L.queue := by
  rw [exit_eq hget]
  rfl

theorem exit_gate (hget : L.posts key = some p) (kind : ExitKind) : (L.exit key kind).gate = L.gate := by
  rw [exit_eq hget]
  rfl

/-- An exit that will be restarted keeps the gate if the child holds it. -/
theorem Staged.exit_due (hk : Kept roster L) (h : Staged roster D L) (hget : L.posts key = some p)
    (hact : p.state.isActive = true) {kind : ExitKind} (hr : p.definition.restart.shouldRestart kind.isFailure = true) :
    Kept roster ((L.exit key kind).put key ((p.exit kind).setDue true)) ∧
      Staged roster D ((L.exit key kind).put key ((p.exit kind).setDue true)) := by
  have hx : (L.exit key kind).posts key = some (p.exit kind) := by rw [exit_get hget, if_pos rfl]
  have hnot : ¬ p.Done := fun hd => absurd hd.1 (isActive_ne hact).2
  have hagain : ¬ (p.exit kind).Done := by
    rintro ⟨-, -, x, hx, hover⟩
    cases hx
    exact absurd (hover.symm.trans hr) (by simp)
  refine ⟨(hk.exit hget hact kind).restate hx ⟨rfl, rfl, rfl, rfl, rfl⟩ id rfl rfl id id (.inl fun hd => absurd hd hagain), ?_⟩
  have heq : (L.exit key kind).put key ((p.exit kind).setDue true) =
      (L.tell [.exited p.id p.lineage kind]).put key ((p.exit kind).setDue true) := by
    rw [exit_eq hget]
    unfold Lane.put
    simp only [Function.update_idem]
  have hrow : Row D key ((p.exit kind).setDue true) := by
    refine ⟨fun _ => (h.rows key p hget).started (.inl hact), fun hs => ?_,
      fun _ => ⟨rfl, (h.rows key p hget).started (.inl hact), ?_⟩, fun _ hd => ?_⟩
    · cases hs
    · cases hp : p.definition.restart with
      | never =>
        rw [hp] at hr
        cases hr
      | always m w b => simp [Post.setDue, Post.exit, hp, RestartPolicy.isNever]
      | onFailure m w b => simp [Post.setDue, Post.exit, hp, RestartPolicy.isNever]
    · cases hd
  have hput := (h.tell [.exited p.id p.lineage kind]).put ((p.exit kind).setDue true) hget
    ⟨rfl, rfl, rfl, rfl, rfl⟩ (fun hd => absurd hd hnot) (isActive_ne hact).1 (by simp [Post.setDue, Post.exit])
    (fun _ _ _ _ _ hG => hG.notMem_after hget (isActive_ne hact).1 fun hs => absurd hs (isActive_ne hact).2) hrow (by
      intro g hg hgk
      obtain ⟨before, after, hG⟩ := h.gate_at hg hget hgk
      exact ⟨hG.unready, .inr (.inr ⟨rfl, rfl⟩)⟩)
  rw [regate_eq (L := L.tell [.exited p.id p.lineage kind])] at hput
  · rw [heq]
    exact hput
  · intro g hg hgk _
    obtain ⟨before, after, hG⟩ := h.gate_at hg hget hgk
    exact hG.generation_eq.symm

/-- An exit that is not restarted leaves the gate, and the queue moves on. -/
theorem Staged.exit_terminal (hk : Kept roster L) (h : Staged roster D L) (hget : L.posts key = some p)
    (hact : p.state.isActive = true) {kind : ExitKind} (hr : p.definition.restart.shouldRestart kind.isFailure = false) :
    Kept roster ((L.exit key kind).terminal key (p.exit kind)) ∧
      Staged roster D ((L.exit key kind).terminal key (p.exit kind)) := by
  let Lx := L.exit key kind
  have hkx : Kept roster Lx := hk.exit hget hact kind
  have hgetx : Lx.posts key = some (p.exit kind) := by
    show (L.exit key kind).posts key = _
    rw [exit_get hget, if_pos rfl]
  have hover : (p.exit kind).Over := ⟨kind, rfl, hr⟩
  have hnq : (p.exit kind).state ≠ .startQueued := by simp [Post.exit]
  have hrow : Row D key (p.exit kind) := by
    refine ⟨fun _ => (h.rows key p hget).started (.inl hact), fun hs => ?_, fun hd => ?_, fun _ _ => .inl hover⟩
    · cases hs
    · cases hd
  have hqueue : ∀ item ∈ Lx.queue, item.key ≠ key := by
    show ∀ item ∈ (L.exit key kind).queue, item.key ≠ key
    rw [exit_queue hget]
    exact h.notMem_queue hget (isActive_ne hact).1
  -- not at the gate: nothing else moves
  have hstay : (∀ g, L.gate = some g → g.key ≠ key) → Staged roster D Lx ∧ ∀ g, Lx.gate = some g → g.key ≠ key := by
    intro hno
    have hput := (h.tell [.exited p.id p.lineage kind]).put (p.exit kind) hget ⟨rfl, rfl, rfl, rfl, rfl⟩
      (fun hd => absurd hd.1 (isActive_ne hact).2) (isActive_ne hact).1 hnq
      (fun _ _ _ _ _ hG => hG.notMem_after hget (isActive_ne hact).1 fun hs => absurd hs (isActive_ne hact).2) hrow
      fun g hg hgk => absurd hgk (hno g hg)
    rw [regate_eq (L := L.tell [.exited p.id p.lineage kind]) fun g hg hgk => absurd hgk (hno g hg)] at hput
    have hL : Staged roster D Lx := by
      show Staged roster D (L.exit key kind)
      rw [exit_eq hget]
      exact hput
    refine ⟨hL, fun g hg => hno g ?_⟩
    rw [← exit_gate hget kind]
    exact hg
  have hleft : Kept roster (if (p.exit kind).hasReportedReady then Lx else Lx.release key (p.exit kind).lineage) ∧
      Staged roster D (if (p.exit kind).hasReportedReady then Lx else Lx.release key (p.exit kind).lineage) ∧
      (if (p.exit kind).hasReportedReady then Lx else Lx.release key (p.exit kind).lineage).posts key = some (p.exit kind) ∧
      ∀ g, (if (p.exit kind).hasReportedReady then Lx else Lx.release key (p.exit kind).lineage).gate = some g →
        g.key ≠ key := by
    split
    · rename_i hready
      obtain ⟨hL, hno⟩ := hstay fun g hg hgk => by
        obtain ⟨before, after, hG⟩ := h.gate_at hg hget hgk
        have : p.hasReportedReady = true := hready
        rw [hG.unready] at this
        cases this
      exact ⟨hkx, hL, hgetx, hno⟩
    · unfold Lane.release
      cases hat : Lx.atGate key (p.exit kind).lineage with
      | false =>
        obtain ⟨hL, hno⟩ := hstay fun g hg hgk => by
          obtain ⟨before, after, hG⟩ := h.gate_at hg hget hgk
          unfold atGate at hat
          rw [show Lx.gate = some g from (exit_gate hget kind).trans hg, Option.any_some, hgk] at hat
          simp [Post.exit, hG.lineage_eq] at hat
        simp only [Bool.false_eq_true, if_false]
        rw [detach_absent hqueue hat]
        exact ⟨hkx, hL, hgetx, hno⟩
      | true =>
        obtain ⟨g, hg, hgk⟩ := (Option.any_eq_true _ _).mp hat
        simp only [Bool.and_eq_true, decide_eq_true_eq] at hgk
        have hgL : L.gate = some g := (exit_gate hget kind).symm.trans hg
        have hgkey : key = g.key := hgk.1.symm
        obtain ⟨A, B, hpop⟩ := h.opening Lx.openGate (p.exit kind) hgL (by rw [← hgkey]; exact hget) hk hnq
          (by rw [← hgkey]; exact hrow)
          (by
            intro k
            rw [← hgkey]
            exact exit_get hget kind k)
          (exit_queue hget kind) rfl
          (by
            show (L.exit key kind).order = _
            rw [exit_eq hget]
            rfl)
          (by
            intro n hn
            show n ∈ (L.exit key kind).news
            rw [exit_eq hget]
            exact List.mem_append_left _ hn)
          (fun s hs hkey => hkx.settled_done hgetx ⟨rfl, rfl, hover⟩ s hs (hkey.trans hgkey.symm))
        simp only [if_true]
        rw [detach_gate hqueue hat]
        obtain ⟨hk', h'⟩ := Popping.pop _ rfl (hkx.requeue Lx.queue none) hpop
        obtain ⟨hf, hfg⟩ := pop_frame Lx.openGate.queue (L := Lx.openGate) hqueue
        exact ⟨hk', h', hf.trans hgetx, fun g hg => hfg g hg rfl⟩
  obtain ⟨hk', h', hget', hno'⟩ := hleft
  unfold Lane.terminal
  simp only
  split
  · exact ⟨hk'.drop key, h'.drop hget' hnq hno'⟩
  · exact ⟨hk', h'⟩

theorem Staged.exits (hrun : L.running = true) (hk : Kept roster L) (h : Staged roster D L) (hget : L.posts key = some p)
    (hact : p.state.isActive = true) (status : RuntimeExitStatus) :
    Kept roster ((L.exit key status.view).applyExit key status.isFailure) ∧
      Staged roster D ((L.exit key status.view).applyExit key status.isFailure) := by
  have hx : (L.exit key status.view).posts key = some (p.exit status.view) := by rw [exit_get hget, if_pos rfl]
  have hrun' : (L.exit key status.view).running = true := by
    rw [exit_eq hget]
    exact hrun
  have hm : (p.exit status.view).membership ≠ .removing := by
    rw [show (p.exit status.view).membership = p.membership from rfl, hk.active key p hget]
    simp
  unfold applyExit
  rw [hx]
  simp only [hrun', Bool.not_true, Bool.false_eq_true, if_false, hm]
  have hd : (p.exit status.view).definition = p.definition := rfl
  rw [hd, ← status.isFailure_view]
  split
  · rename_i hr
    exact h.exit_due hk hget hact hr
  · rename_i hr
    exact h.exit_terminal hk hget hact (by simpa using hr)

theorem Kept.fallen (h : Kept roster L) (key : ChildKey) (p : Post) : Kept roster (L.fallen key p) := by
  have hd : Kept roster (L.detach key p.lineage) := h.requeue _ _
  unfold Lane.fallen
  simp only
  split
  · exact hd.drop key
  · exact hd

/-! ## Restarting one child -/

theorem Staged.restartOne (hk : Kept roster L) (h : Staged roster D L) (key : ChildKey) :
    Kept roster (L.restartOne key) ∧ Staged roster D (L.restartOne key) := by
  unfold Lane.restartOne
  split
  · exact ⟨hk, h⟩
  rename_i p hp
  split
  · exact ⟨hk, h⟩
  rename_i hc
  simp only [Bool.or_eq_true, decide_eq_true_eq, not_or, ne_eq, not_not, Bool.not_eq_true', Bool.not_eq_false] at hc
  obtain ⟨⟨-, hst⟩, hdue⟩ := hc
  have hnq : p.spawn.state ≠ .startQueued := by
    unfold Post.spawn
    simp only
    split <;> simp
  have hstarted := ((h.rows key p hp).due hdue).2.1
  have hnot : ¬ p.Done := fun hd => by
    rw [Post.Done, hdue] at hd
    cases hd.2.1
  have hk₁ : Kept roster (L.spawn key p) := hk.respawn hp hnot hstarted
  have hput : ∀ news, Staged roster D { (L.tell news).put key p.spawn with gate := regate L.gate key p.spawn } := by
    intro news
    refine (h.tell news).put p.spawn hp (Same.spawn p) (fun hd => absurd hd hnot) (by rw [hst]; simp) hnq
      (fun _ _ _ _ _ hG => hG.notMem_after hp (by rw [hst]; simp) fun _ => hdue) (Row.spawn p) ?_
    intro g hg hgk
    obtain ⟨before, after, hG⟩ := h.gate_at hg hp hgk
    exact ⟨by simp [Post.spawn, hG.gated], .inl (by simp [Post.spawn, hG.gated])⟩
  simp only
  cases hg : p.isGated with
  | true =>
    simp only [if_true]
    refine ⟨hk₁.requeue _ _, ?_⟩
    rw [spawn_eq_gated hg]
    have := hput []
    unfold Lane.tell at this
    rwa [List.append_nil] at this
  | false =>
    simp only [Bool.false_eq_true, if_false]
    have hs : Staged roster D { L.spawn key p with gate := regate L.gate key p.spawn } := by
      rw [spawn_eq_immediate hg]
      exact hput _
    have hk₂ : Kept roster { L.spawn key p with gate := regate L.gate key p.spawn } := hk₁.requeue _ _
    rw [hs.advance hk₂]
    exact ⟨hk₂, hs⟩

end Kokage.Supervisor.Lane

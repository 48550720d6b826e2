/-
  Kokage.Supervisor.Sealing — children that have stopped for good, on lanes.

  A child is `Finished` when it is stopped, no restart is pending, its policy does not
  answer its latest exit with one, and the strategy cannot start it with a sibling. No
  function of the start sequence, of the exit policy or of a group restart starts a
  finished child again: the queue holds queued children only, a restart needs a pending
  one, and a group that has a finished member skips it.

  `Sound S D` carries this along: the memberships in `S` are finished and keep their
  generation, the exits in `D` are their children's latest, and a child that is never
  restarted has generation 0 and is not queued once it has started.
-/

import Kokage.Supervisor.StartOrder

namespace Kokage.Supervisor

open Kokage.Lib SupervisorRuntime

/-- A generation and the exit recorded last. -/
abbrev Turn := Nat × Option ExitKind

namespace Post

def turn (p : Post) : Turn := (p.generation, p.lastExit)

def isNever (p : Post) : Bool := p.definition.restart.isNever

theorem not_never_of_wants {p : Post} (h : p.wantsRestart = true) : p.isNever = false := by
  obtain ⟨x, -, hx⟩ := (Option.any_eq_true _ _).mp h
  unfold isNever
  cases hr : p.definition.restart with
  | never =>
    rw [hr] at hx
    cases hx
  | _ => rfl

/-- What an exit of generation `g` says of its child: it is the latest, while the child is
    of that generation. -/
structure After (g : Nat) (status : RuntimeExitStatus) (p : Post) : Prop where
  le : g ≤ p.generation
  current : p.generation = g → p.state = .stopped ∧ p.hasStarted = true ∧ p.lastExit = some status.view

theorem After.active {g : Nat} {status : RuntimeExitStatus} {p p' : Post} (h : p.After g status)
    (hact : p.state.isActive = true) (hg : p'.generation = p.generation) : p'.After g status where
  le := hg ▸ h.le
  current he := by
    rw [(h.current (hg ▸ he)).1] at hact
    cases hact

end Post

namespace Lane

variable {S : Nat → Turn → Prop} {D : List ClassifiedExit} {L L' : Lane} {key : ChildKey} {p p' : Post}

/-- `stop_is_final`, on lanes. -/
def stopIsFinal (L : Lane) (key : ChildKey) (restart : RestartPolicy) : Bool :=
  match L.strategy with
  | .oneForOne => true
  | .oneForAll => restart.isNever
  | .restForOne => restart.isNever || L.order.head? = some key

structure Finished (L : Lane) (key : ChildKey) (p : Post) : Prop where
  stopped : p.state = .stopped
  hasStarted : p.hasStarted = true
  due : p.due = false
  /-- A child that is being removed is not started either, nor is any in a scope that stops. -/
  final : L.running = true → p.membership ≠ .removing →
    p.wantsRestart = false ∧ L.stopIsFinal key p.definition.restart = true

theorem Finished.idle (h : L.Finished key p) : p.state.isActive = false := by
  rw [h.stopped]
  rfl

def Latest (L : Lane) (c : ClassifiedExit) : Prop :=
  ∀ p, L.posts c.key = some p → p.lineage = c.lineage → p.After c.generation c.status

/-- What the children, their order and the start queue are to each other. -/
structure Proper (L : Lane) : Prop where
  willing : L.Willing
  present : ∀ k p, L.posts k = some p → p.membership ≠ .removed
  commands : L.kind = .ordered → L.commands = []
  queue : L.kind = .dynamic → L.queue = []
  nodup : (L.queue.map (·.key)).Nodup
  known : ∀ k ∈ L.order, (L.posts k).isSome = true
  inj : ∀ k p k' p', L.posts k = some p → L.posts k' = some p' → p.lineage = p'.lineage → k = k'
  begun : ∀ k p, L.posts k = some p → p.state.isActive = true → p.hasStarted = true
  left : ∀ k p, L.posts k = some p → p.lastExit.isSome = true → p.hasStarted = true

structure Sound (S : Nat → Turn → Prop) (D : List ClassifiedExit) (L : Lane) : Prop extends Proper L where
  queued : ∀ item ∈ L.queue, ∀ p, L.posts item.key = some p → p.lineage = item.lineage ∧
    (p.membership = .active → p.state = .startQueued)
  wants : ∀ k p, L.posts k = some p → p.due = true → p.wantsRestart = true
  once : ∀ k p, L.posts k = some p → p.isNever = true → p.generation = 0 ∧ (p.hasStarted = true → p.state ≠ .startQueued)
  fixed : ∀ k p, L.posts k = some p → ∀ t, S p.lineage t → p.turn = t ∧ L.Finished k p
  latest : ∀ c ∈ D, L.Latest c

/-! ## Frames -/

theorem Finished.frame (h : L.Finished key p) (hr : L'.running = true → L.running = true) (hs : L'.strategy = L.strategy)
    (ho : L.order.head? = some key → L'.order.head? = some key) : L'.Finished key p where
  stopped := h.stopped
  hasStarted := h.hasStarted
  due := h.due
  final hrun hm := by
    obtain ⟨hw, hf⟩ := h.final (hr hrun) hm
    refine ⟨hw, ?_⟩
    unfold stopIsFinal at *
    rw [hs]
    cases hst : L.strategy with
    | oneForOne => rfl
    | oneForAll =>
      rw [hst] at hf
      exact hf
    | restForOne =>
      rw [hst] at hf
      simp only [Bool.or_eq_true, decide_eq_true_eq] at hf ⊢
      exact hf.imp_right ho

/-- Neither the children nor their order nor the commands; items may leave the queue, and
    the scope may stop. -/
theorem Sound.frame (h : Sound S D L) (hp : L'.posts = L.posts) (ho : L'.order = L.order) (hs : L'.strategy = L.strategy)
    (hk : L'.kind = L.kind) (hc : L'.commands = L.commands) (hq : L'.queue.Sublist L.queue)
    (hr : L'.running = true → L.running = true) : Sound S D L' where
  willing k q hget := h.willing k q (hp ▸ hget)
  present k q hget := h.present k q (hp ▸ hget)
  commands hkind := by
    rw [hc]
    exact h.commands (hk ▸ hkind)
  queue hkind := by
    rw [h.queue (hk ▸ hkind)] at hq
    exact List.sublist_nil.mp hq
  nodup := h.nodup.sublist (hq.map _)
  known k hm := by
    rw [hp]
    exact h.known k (ho ▸ hm)
  inj k q k' q' hget hget' := h.inj k q k' q' (hp ▸ hget) (hp ▸ hget')
  begun k q hget := h.begun k q (hp ▸ hget)
  left k q hget := h.left k q (hp ▸ hget)
  queued item hi q hget := h.queued item (hq.subset hi) q (hp ▸ hget)
  wants k q hget := h.wants k q (hp ▸ hget)
  once k q hget := h.once k q (hp ▸ hget)
  fixed k q hget t ht := by
    obtain ⟨hturn, hfin⟩ := h.fixed k q (hp ▸ hget) t ht
    exact ⟨hturn, hfin.frame hr hs fun hh => ho ▸ hh⟩
  latest c hcd q hget := h.latest c hcd q (hp ▸ hget)

theorem Proper.has (h : Proper L) (hget : L.posts key = some p) (hp : p.state.isActive = true ∨ p.lastExit.isSome = true) :
    p.hasStarted = true :=
  hp.elim (h.begun key p hget) (h.left key p hget)

theorem Sound.tell (h : Sound S D L) (news : List News) : Sound S D (L.tell news) :=
  h.frame rfl rfl rfl rfl rfl (List.Sublist.refl _) id

theorem Sound.openGate (h : Sound S D L) : Sound S D L.openGate := h.frame rfl rfl rfl rfl rfl (List.Sublist.refl _) id

theorem Sound.detach (h : Sound S D L) (key : ChildKey) (lineage : Nat) : Sound S D (L.detach key lineage) :=
  h.frame rfl rfl rfl rfl rfl List.filter_sublist id

theorem Sound.memberReady (h : Sound S D L) (key : ChildKey) (lineage : Nat) : Sound S D (L.memberReady key lineage) := by
  obtain ⟨startup, told, he⟩ := L.memberReady_cases key lineage
  rw [he]
  exact h.frame rfl rfl rfl rfl rfl (List.Sublist.refl _) id

/-- One child changes. What it must keep is what the queue, the policy and the seals say of it. -/
theorem Sound.put (h : Sound S D L) (hget : L.posts key = some p) (hl : p'.lineage = p.lineage) (hr : p'.refuses = p.refuses)
    (hm : p'.membership = p.membership ∨ p'.membership = .removing)
    (hq : (∀ item ∈ L.queue, item.key ≠ key) ∨
      (p'.membership = .active → p.membership = .active ∧ (p.state = .startQueued → p'.state = .startQueued)))
    (hw : p'.due = true → p'.wantsRestart = true)
    (hb : p'.state.isActive = true ∨ p'.lastExit.isSome = true → p'.hasStarted = true)
    (hn : p'.isNever = true → p'.generation = 0 ∧ (p'.hasStarted = true → p'.state ≠ .startQueued))
    (hs : ∀ t, S p.lineage t → L.Finished key p → p'.turn = p.turn ∧ L.Finished key p')
    (hd : ∀ c ∈ D, c.key = key → p.lineage = c.lineage → p.After c.generation c.status → p'.After c.generation c.status) :
    Sound S D (L.put key p') := by
  have hold : ∀ {k : ChildKey} {q : Post}, (L.put key p').posts k = some q → (k = key ∧ q = p') ∨ L.posts k = some q := by
    intro k q hq
    rw [put_get] at hq
    split at hq
    · rename_i hk
      cases hq
      exact .inl ⟨hk, rfl⟩
    · exact .inr hq
  -- whoever is looked up has the lineage it had
  have hlin : ∀ {k : ChildKey} {q : Post}, (L.put key p').posts k = some q → ∃ q', L.posts k = some q' ∧ q'.lineage = q.lineage := by
    intro k q hq
    rcases hold hq with ⟨rfl, rfl⟩ | hq
    · exact ⟨p, hget, hl.symm⟩
    · exact ⟨q, hq, rfl⟩
  constructor
  case toProper =>
    refine ⟨h.willing.put (hr.trans (h.willing key p hget)), ?_, h.commands, h.queue, h.nodup, ?_, ?_, ?_, ?_⟩
    · intro k q hq
      rcases hold hq with ⟨rfl, rfl⟩ | hq
      · rcases hm with hm | hm
        · rw [hm]
          exact h.present k p hget
        · rw [hm]
          decide
      · exact h.present k q hq
    · intro k hm
      rw [put_get]
      split
      · rfl
      · exact h.known k hm
    · intro k q k' q' hq hq' he
      obtain ⟨r, hr, hrl⟩ := hlin hq
      obtain ⟨r', hr', hrl'⟩ := hlin hq'
      exact h.inj k r k' r' hr hr' (hrl.trans (he.trans hrl'.symm))
    · intro k q hq ha
      rcases hold hq with ⟨rfl, rfl⟩ | hq
      · exact hb (.inl ha)
      · exact h.begun k q hq ha
    · intro k q hq hx
      rcases hold hq with ⟨rfl, rfl⟩ | hq
      · exact hb (.inr hx)
      · exact h.left k q hq hx
  case queued =>
    intro item hi q hqget
    rcases hold hqget with ⟨hkey, rfl⟩ | hqget
    · rcases hq with hno | hkeep
      · exact absurd hkey (hno item hi)
      · obtain ⟨hql, hst⟩ := h.queued item hi p (hkey ▸ hget)
        exact ⟨hl.trans hql, fun hm => (hkeep hm).2 (hst (hkeep hm).1)⟩
    · exact h.queued item hi q hqget
  case wants =>
    intro k q hq
    rcases hold hq with ⟨rfl, rfl⟩ | hq
    · exact hw
    · exact h.wants k q hq
  case once =>
    intro k q hq
    rcases hold hq with ⟨rfl, rfl⟩ | hq
    · exact hn
    · exact h.once k q hq
  case fixed =>
    intro k q hq t ht
    rcases hold hq with ⟨rfl, rfl⟩ | hq
    · rw [hl] at ht
      obtain ⟨hturn, hfin⟩ := h.fixed k p hget t ht
      obtain ⟨hturn', hfin'⟩ := hs t ht hfin
      exact ⟨hturn'.trans hturn, hfin'.frame id rfl id⟩
    · obtain ⟨hturn, hfin⟩ := h.fixed k q hq t ht
      exact ⟨hturn, hfin.frame id rfl id⟩
  case latest =>
    intro c hc q hqget hql
    rcases hold hqget with ⟨hkey, rfl⟩ | hqget
    · rw [hl] at hql
      exact hd c hc hkey hql (h.latest c hc p (hkey ▸ hget) hql)
    · exact h.latest c hc q hqget hql

/-- An active child is not finished and none of its exits is awaited. -/
theorem Sound.put_active (h : Sound S D L) (hget : L.posts key = some p) (hact : p.state.isActive = true)
    (hl : p'.lineage = p.lineage) (hr : p'.refuses = p.refuses) (hg : p'.generation = p.generation)
    (hdef : p'.definition = p.definition) (hs : p'.hasStarted = p.hasStarted)
    (hm : p'.membership = p.membership) (hdue : p'.due = true → p.due = true ∧ p'.lastExit = p.lastExit)
    (hst : p'.state ≠ .startQueued) : Sound S D (L.put key p') := by
  have hnq : p.state ≠ .startQueued := by
    intro hs
    rw [hs] at hact
    cases hact
  refine h.put hget hl hr (.inl hm) (.inr fun hm' => ⟨hm ▸ hm', fun hs => absurd hs hnq⟩) ?_ (fun _ => hs.trans (h.begun key p hget hact)) ?_ ?_ ?_
  · intro hd
    obtain ⟨hd, hx⟩ := hdue hd
    have hwants := h.wants key p hget hd
    unfold Post.wantsRestart at *
    rw [hx, hdef]
    exact hwants
  · intro hnever
    have hnever' : p.isNever = true := by
      unfold Post.isNever at *
      rw [← hdef]
      exact hnever
    exact ⟨hg.trans (h.once key p hget hnever').1, fun _ => hst⟩
  · intro t _ hfin
    rw [hfin.idle] at hact
    cases hact
  · exact fun c _ _ _ hlat => hlat.active hact hg

theorem Sound.put_exit (h : Sound S D L) (hget : L.posts key = some p) (hact : p.state.isActive = true) (kind : ExitKind) :
    Sound S D (L.put key (p.exit kind)) := by
  refine h.put_active hget hact rfl rfl rfl rfl rfl rfl ?_ ?_
  · intro hd
    cases hd
  · intro hs
    cases hs

theorem Sound.exit (h : Sound S D L) (hget : L.posts key = some p) (hact : p.state.isActive = true) (kind : ExitKind) :
    Sound S D (L.exit key kind) := by
  unfold Lane.exit
  rw [hget]
  exact (h.put_exit hget hact kind).tell _

theorem Sound.halts {scope : DrainScope} (h : Sound S D L) (hh : Halts scope L L') : Sound S D L' := by
  have hget := @Halts.get L L' scope hh
  obtain ⟨posts, rfl, hposts⟩ := hh
  -- a halted child was active, so it is neither queued nor finished
  have hidle : ∀ {k : ChildKey} {q : Post}, posts k = some q → q.state ≠ .stopping → L.posts k = some q := by
    intro k q hq hst
    obtain ⟨q', hq', rfl | ⟨-, rfl⟩⟩ := hget hq
    · exact hq'
    · exact absurd rfl hst
  have hlin : ∀ {k : ChildKey} {q : Post}, posts k = some q → ∃ q', L.posts k = some q' ∧ q'.lineage = q.lineage := by
    intro k q hq
    obtain ⟨q', hq', rfl | ⟨-, rfl⟩⟩ := hget hq
    · exact ⟨q, hq', rfl⟩
    · exact ⟨q', hq', rfl⟩
  constructor
  case toProper =>
    refine ⟨?_, ?_, h.commands, h.queue, h.nodup, ?_, ?_, ?_, ?_⟩
    · intro k q hq
      obtain ⟨q', hq', rfl | ⟨-, rfl⟩⟩ := hget hq
      · exact h.willing k q hq'
      · exact h.willing k q' hq'
    · intro k q hq
      obtain ⟨q', hq', rfl | ⟨-, rfl⟩⟩ := hget hq
      · exact h.present k q hq'
      · exact h.present k q' hq'
    · intro k hm
      rcases hposts k with hk | ⟨q, -, -, -, hk⟩
      · rw [show ({ L with posts := posts } : Lane).posts k = L.posts k from hk]
        exact h.known k hm
      · rw [show ({ L with posts := posts } : Lane).posts k = some q.halt from hk]
        rfl
    · intro k q k' q' hq hq' he
      obtain ⟨r, hr, hrl⟩ := hlin hq
      obtain ⟨r', hr', hrl'⟩ := hlin hq'
      exact h.inj k r k' r' hr hr' (hrl.trans (he.trans hrl'.symm))
    · intro k q hq ha
      obtain ⟨q', hq', rfl | ⟨hact, rfl⟩⟩ := hget hq
      · exact h.begun k q hq' ha
      · exact h.begun k q' hq' hact
    · intro k q hq hx
      obtain ⟨q', hq', rfl | ⟨-, rfl⟩⟩ := hget hq
      · exact h.left k q hq' hx
      · exact h.left k q' hq' hx
  case queued =>
    intro item hi q hq
    obtain ⟨q', hq', rfl | ⟨hact, rfl⟩⟩ := hget hq
    · exact h.queued item hi q hq'
    · obtain ⟨hl, hst⟩ := h.queued item hi q' hq'
      refine ⟨hl, fun hm => ?_⟩
      rw [hst hm] at hact
      cases hact
  case wants =>
    intro k q hq hd
    obtain ⟨q', hq', rfl | ⟨-, rfl⟩⟩ := hget hq
    · exact h.wants k q hq' hd
    · exact h.wants k q' hq' hd
  case once =>
    intro k q hq hn
    obtain ⟨q', hq', rfl | ⟨-, rfl⟩⟩ := hget hq
    · exact h.once k q hq' hn
    · refine ⟨(h.once k q' hq' hn).1, fun _ hs => ?_⟩
      cases hs
  case fixed =>
    intro k q hq t ht
    obtain ⟨q', hq', rfl | ⟨hact, rfl⟩⟩ := hget hq
    · obtain ⟨hturn, hfin⟩ := h.fixed k q hq' t ht
      exact ⟨hturn, hfin.frame id rfl id⟩
    · obtain ⟨-, hfin⟩ := h.fixed k q' hq' t ht
      rw [hfin.idle] at hact
      cases hact
  case latest =>
    intro c hc q hq hl
    obtain ⟨q', hq', rfl | ⟨hact, rfl⟩⟩ := hget hq
    · exact h.latest c hc q hq' hl
    · exact (h.latest c hc q' hq' hl).active hact rfl

theorem head?_filter_ne {order : List ChildKey} {k : ChildKey} (hk : k ≠ key) (h : order.head? = some k) :
    (order.filter (· ≠ key)).head? = some k := by
  cases order with
  | nil => cases h
  | cons a rest =>
    rw [List.head?_cons, Option.some.injEq] at h
    subst h
    rw [List.filter_cons_of_pos (by simpa using hk)]
    rfl

theorem Sound.drop (h : Sound S D L) (key : ChildKey) : Sound S D (L.drop key) := by
  cases hp : L.posts key with
  | none =>
    unfold Lane.drop
    rw [hp]
    exact h
  | some p =>
    have hget : ∀ {k : ChildKey} {q : Post}, (L.drop key).posts k = some q → k ≠ key ∧ L.posts k = some q := by
      intro k q hq
      rw [drop_get] at hq
      split at hq
      · cases hq
      · rename_i hk
        exact ⟨hk, hq⟩
    have hdrop : L.drop key = { L with posts := Function.update L.posts key none, order := L.order.filter (· ≠ key) }.tell
        [.removed p.id p.lineage] := by
      unfold Lane.drop
      rw [hp]
    constructor
    case toProper =>
      refine ⟨fun k q hq => h.willing k q (hget hq).2, fun k q hq => h.present k q (hget hq).2, ?_, ?_, ?_, ?_, ?_, ?_, ?_⟩
      · rw [hdrop]
        exact h.commands
      · rw [hdrop]
        exact h.queue
      · rw [drop_queue]
        exact h.nodup
      · intro k hm
        rw [hdrop] at hm
        obtain ⟨hm, hk⟩ := List.mem_filter.mp hm
        rw [drop_get, if_neg (of_decide_eq_true hk)]
        exact h.known k hm
      · exact fun k q k' q' hq hq' => h.inj k q k' q' (hget hq).2 (hget hq').2
      · exact fun k q hq => h.begun k q (hget hq).2
      · exact fun k q hq => h.left k q (hget hq).2
    case queued =>
      rw [drop_queue]
      exact fun item hi q hq => h.queued item hi q (hget hq).2
    case wants => exact fun k q hq => h.wants k q (hget hq).2
    case once => exact fun k q hq => h.once k q (hget hq).2
    case fixed =>
      intro k q hq t ht
      obtain ⟨hk, hq⟩ := hget hq
      obtain ⟨hturn, hfin⟩ := h.fixed k q hq t ht
      rw [hdrop]
      exact ⟨hturn, hfin.frame id rfl (head?_filter_ne hk)⟩
    case latest => exact fun c hc q hq => h.latest c hc q (hget hq).2

/-! ## The start sequence -/

/-- A child that may be spawned: it is not sealed, and one that is never restarted has not
    started before. -/
structure MaySpawn (S : Nat → Turn → Prop) (p : Post) : Prop where
  unsealed : ∀ t, ¬ S p.lineage t
  fresh : p.isNever = true → p.hasStarted = false

theorem spawn_after {g : Nat} {status : RuntimeExitStatus} (h : p.After g status) : p.spawn.After g status := by
  by_cases hs : p.hasStarted = true
  · have hgen : p.spawn.generation = p.generation + 1 := by
      unfold Post.spawn
      simp [hs]
    refine ⟨?_, fun he => ?_⟩
    · rw [hgen]
      exact Nat.le_succ_of_le h.le
    · have := h.le
      omega
  · have hgen : p.spawn.generation = p.generation := by
      unfold Post.spawn
      simp [hs]
    refine ⟨hgen ▸ h.le, fun he => ?_⟩
    exact absurd (h.current (hgen ▸ he)).2.1 hs

theorem Sound.put_spawn (h : Sound S D L) (hget : L.posts key = some p) (hno : ∀ item ∈ L.queue, item.key ≠ key)
    (hmay : MaySpawn S p) : Sound S D (L.put key p.spawn) := by
  refine h.put hget rfl rfl (.inl rfl) (.inl hno) ?_ (fun _ => rfl) ?_ (fun t ht => absurd ht (hmay.unsealed t)) fun _ _ _ _ => spawn_after
  · intro hd
    cases hd
  · intro hn
    have hs : p.hasStarted = false := hmay.fresh hn
    unfold Post.spawn
    simp only [hs, Bool.false_eq_true, if_false]
    refine ⟨(h.once key p hget hn).1, fun _ => ?_⟩
    split <;> decide

theorem Sound.spawn (h : Sound S D L) (hget : L.posts key = some p) (hno : ∀ item ∈ L.queue, item.key ≠ key)
    (hmay : MaySpawn S p) : Sound S D (L.spawn key p) := by
  have hput := h.put_spawn hget hno hmay
  unfold Lane.spawn
  simp only
  split
  · exact hput
  · exact hput.tell _

theorem startItem_frame (L : Lane) (item : StartItem) : (∀ k, k ≠ item.key → (L.startItem item).posts k = L.posts k) ∧
    (L.startItem item).order = L.order ∧ (L.startItem item).strategy = L.strategy ∧ (L.startItem item).kind = L.kind ∧
    (L.startItem item).running = L.running := by
  obtain h | ⟨p, -, -, -, -, _, _, _, h⟩ := L.startItem_cases item
  · rw [h]
    exact ⟨fun _ _ => rfl, rfl, rfl, rfl, rfl⟩
  · rw [h]
    refine ⟨fun k hk => ?_, ?_, ?_, ?_, ?_⟩
    · simp only [spawn_get]
      rw [if_neg hk]
    all_goals
      unfold Lane.spawn
      simp only
      split <;> rfl

theorem Sound.startItem (h : Sound S D L) {item : StartItem} (hno : ∀ i ∈ L.queue, i.key ≠ item.key)
    (hmay : ∀ p, L.posts item.key = some p → p.lineage = item.lineage → p.membership = .active → MaySpawn S p) :
    Sound S D (L.startItem item) := by
  obtain he | ⟨p, hp, hl, hm, -, gate, startup, told, he⟩ := L.startItem_cases item
  · rw [he]
    exact h
  · rw [he]
    exact (h.spawn hp hno (hmay p hp hl hm)).frame rfl rfl rfl rfl rfl (List.Sublist.refl _) id

/-- A queued child may be spawned. -/
theorem Sound.mayPop (h : Sound S D L) (hget : L.posts key = some p) (hst : p.state = .startQueued) : MaySpawn S p where
  unsealed t ht := by
    obtain ⟨-, hfin⟩ := h.fixed key p hget t ht
    rw [hfin.stopped] at hst
    cases hst
  fresh hn := by
    cases hs : p.hasStarted with
    | false => rfl
    | true => exact absurd hst ((h.once key p hget hn).2 hs)

theorem Sound.pop (queue : List StartItem) {L : Lane} (hq : L.queue = queue) (h : Sound S D L) : Sound S D (pop queue L) := by
  induction queue generalizing L with
  | nil => exact h.frame rfl rfl rfl rfl rfl (List.nil_sublist _) id
  | cons item rest ih =>
    have h₁ : Sound S D { L with queue := rest } := by
      refine h.frame rfl rfl rfl rfl rfl ?_ id
      rw [hq]
      exact List.sublist_cons_self ..
    have hno : ∀ i ∈ rest, i.key ≠ item.key := by
      have hn := h.nodup
      rw [hq, List.map_cons, List.nodup_cons] at hn
      exact fun i hi he => hn.1 (he ▸ List.mem_map.mpr ⟨i, hi, rfl⟩)
    have h₂ : Sound S D ({ L with queue := rest }.startItem item) := by
      refine h₁.startItem hno fun p hp _ hm => h.mayPop hp ?_
      exact (h.queued item (hq ▸ List.mem_cons_self ..) p hp).2 hm
    unfold Lane.pop
    simp only
    split
    · exact h₂
    · exact ih (startItem_queue item) h₂

theorem Sound.advance (h : Sound S D L) : Sound S D L.advance := by
  unfold Lane.advance
  split
  · exact h.pop _ rfl
  · split
    · exact h
    · simp only
      split
      · exact (h.openGate.memberReady _ _).pop _ (by simp [Lane.openGate])
      · exact h.openGate.pop _ rfl

theorem Sound.release (h : Sound S D L) (key : ChildKey) (lineage : Nat) : Sound S D (L.release key lineage) := by
  unfold Lane.release
  split
  · exact (h.detach key lineage).pop _ rfl
  · exact h.detach key lineage

theorem Sound.leave (h : Sound S D L) (key : ChildKey) (lineage : Nat) : Sound S D (L.leave key lineage) := by
  have h' := (h.detach key lineage).memberReady key lineage
  unfold Lane.leave
  simp only
  split
  · exact h'.pop _ rfl
  · exact h'

theorem Sound.readyAt (h : Sound S D L) (r : ChildReady) : Sound S D (L.readyAt r) := by
  unfold Lane.readyAt
  split
  · exact h
  · rename_i p hp
    split
    · exact h
    · rename_i hc
      simp only [Bool.or_eq_true, decide_eq_true_eq, not_or, ne_eq, Decidable.not_not] at hc
      have hst : p.state = .starting := hc.2
      have hact : p.state.isActive = true := by
        rw [hst]
        rfl
      have h₁ : Sound S D (L.put r.key p.report) :=
        h.put_active hp hact rfl rfl rfl rfl rfl rfl (fun hd => ⟨hd, rfl⟩) (by simp [Post.report])
      have h₂ := (h₁.tell [.started p.id p.lineage]).memberReady r.key r.lineage
      simp only
      split
      · exact h₂.openGate.pop _ rfl
      · exact h₂

/-! ## Exits -/

theorem Sound.terminal (h : Sound S D L) (key : ChildKey) (p : Post) : Sound S D (L.terminal key p) := by
  have h₁ : Sound S D (if p.hasReportedReady then L else L.release key p.lineage) := by
    split
    · exact h
    · exact h.release key p.lineage
  unfold Lane.terminal
  simp only
  split
  · exact h₁.drop key
  · exact h₁

theorem Sound.fallen (h : Sound S D L) (key : ChildKey) (p : Post) : Sound S D (L.fallen key p) := by
  unfold Lane.fallen
  simp only
  split
  · exact (h.detach key p.lineage).drop key
  · exact h.detach key p.lineage

/-- The policy answers an exit with a restart. -/
theorem Sound.reschedule (h : Sound S D L) (hget : L.posts key = some p) (hrun : L.running = true)
    (hm : p.membership ≠ .removing) (hwants : p.wantsRestart = true) : Sound S D (L.put key (p.setDue true)) := by
  have hhas := h.has hget
  refine h.put hget rfl rfl (.inl rfl) (.inr fun hm => ⟨hm, id⟩) (fun _ => hwants) hhas (h.once key p hget) ?_
    fun _ _ _ _ ha => ⟨ha.le, ha.current⟩
  intro t _ hfin
  rw [(hfin.final hrun hm).1] at hwants
  cases hwants

/-- The policy is applied to a child's latest exit. -/
theorem Sound.applyExit (h : Sound S D L) {status : RuntimeExitStatus}
    (hx : ∀ p, L.posts key = some p → p.lastExit = some status.view) : Sound S D (L.applyExit key status.isFailure) := by
  unfold Lane.applyExit
  split
  · exact h
  · rename_i p hp
    split
    · exact h
    · rename_i hrun
      split
      · exact h.drop key
      · split
        · rename_i hact hr
          refine h.reschedule hp (by simpa using hrun) hact ?_
          unfold Post.wantsRestart
          rw [hx p hp, Option.any_some, RuntimeExitStatus.isFailure_view]
          exact hr
        · exact h.terminal key p

/-! ## Restarts -/

theorem Sound.unschedule (h : Sound S D L) (hget : L.posts key = some p) : Sound S D (L.put key (p.setDue false)) := by
  have hhas := h.has hget
  refine h.put hget rfl rfl (.inl rfl) (.inr fun hm => ⟨hm, id⟩) ?_ hhas (h.once key p hget) ?_ fun _ _ _ _ ha => ⟨ha.le, ha.current⟩
  · intro hd
    cases hd
  · exact fun t _ hfin => ⟨rfl, hfin.stopped, hfin.hasStarted, rfl, hfin.final⟩

/-- A pending restart is what a child that may be spawned has, too. -/
theorem Sound.mayRestart (h : Sound S D L) (hget : L.posts key = some p) (hd : p.due = true) : MaySpawn S p where
  unsealed t ht := by
    obtain ⟨-, hfin⟩ := h.fixed key p hget t ht
    rw [hfin.due] at hd
    cases hd
  fresh hn := by
    rw [Post.not_never_of_wants (h.wants key p hget hd)] at hn
    cases hn

theorem Sound.notQueued (h : Sound S D L) (hget : L.posts key = some p) (hm : p.membership = .active)
    (hst : p.state ≠ .startQueued) : ∀ item ∈ L.queue, item.key ≠ key :=
  fun item hi he => hst ((h.queued item hi p (he ▸ hget)).2 hm)

theorem Sound.restartOne (h : Sound S D L) (key : ChildKey) : Sound S D (L.restartOne key) := by
  unfold Lane.restartOne
  split
  · exact h
  · rename_i p hp
    split
    · exact h
    · rename_i hc
      simp only [Bool.or_eq_true, decide_eq_true_eq, not_or, ne_eq, Decidable.not_not, Bool.not_eq_true', Bool.not_eq_false] at hc
      obtain ⟨⟨hm, hst⟩, hd⟩ := hc
      have hno := h.notQueued hp hm (by rw [hst]; decide)
      have h₁ : Sound S D { L.spawn key p with gate := regate L.gate key p.spawn } :=
        (h.spawn hp hno (h.mayRestart hp hd)).frame rfl rfl rfl rfl rfl (List.Sublist.refl _) id
      simp only
      split
      · exact h₁
      · exact h₁.advance

/-- Who may be scheduled: nobody finished but children that are never restarted, and on
    the first schedule nobody who has started. -/
structure MaySchedule (L : Lane) (emitRestartEvents : Bool) (key : ChildKey) (p : Post) : Prop where
  first : emitRestartEvents = false → p.hasStarted = false
  never : emitRestartEvents = true → p.membership = .active → L.Finished key p → p.isNever = true

theorem Sound.scheduleStart {emitRestartEvents : Bool} (h : Sound S D L) (hno : ∀ item ∈ L.queue, item.key ≠ key)
    (hmay : ∀ p, L.posts key = some p → p.membership = .active → MaySpawn S p) (hD : ∀ c ∈ D, c.key ≠ key) :
    Sound S D (L.scheduleStart key emitRestartEvents) := by
  unfold Lane.scheduleStart
  split
  · exact h
  · rename_i p hp
    split
    · exact h
    · rename_i hc
      simp only [Bool.or_eq_true, decide_eq_true_eq, not_or, ne_eq, Decidable.not_not, Bool.not_eq_true', Bool.not_eq_false] at hc
      obtain ⟨hm, hidle⟩ := hc
      split
      · refine h.startItem hno fun p' hp' _ hm' => ?_
        rw [hp] at hp'
        cases hp'
        exact hmay p hp hm
      · rename_i hkind
        have hk : L.kind = .ordered := by
          cases hk : L.kind with
          | ordered => rfl
          | dynamic => exact absurd hk hkind
        have hput : Sound S D (L.put key p.enqueue) := by
          refine h.put hp rfl rfl (.inl rfl) (.inl hno) ?_ ?_ ?_ ?_ ?_
          · intro hd
            cases hd
          · rintro (ha | hx)
            · cases ha
            · exact h.left key p hp hx
          · intro hn
            refine ⟨(h.once key p hp hn).1, fun hs => ?_⟩
            have hs : p.hasStarted = true := hs
            rw [(hmay p hp hm).fresh hn] at hs
            cases hs
          · exact fun t ht => absurd ht ((hmay p hp hm).unsealed t)
          · exact fun c hc hkey => absurd hkey (hD c hc)
        constructor
        case toProper =>
          refine ⟨hput.willing, hput.present, hput.commands, fun hd => ?_, ?_, hput.known, hput.inj, hput.begun, hput.left⟩
          · rw [show L.kind = .dynamic from hd] at hk
            cases hk
          · show ((L.queue ++ [_]).map StartItem.key).Nodup
            rw [List.map_append, List.nodup_append]
            refine ⟨h.nodup, List.nodup_singleton _, fun a ha b hb => ?_⟩
            rw [List.map_singleton, List.mem_singleton] at hb
            obtain ⟨item, hi, rfl⟩ := List.mem_map.mp ha
            rw [hb]
            exact hno item hi
        case queued =>
          intro item hi q hq
          rcases List.mem_append.mp hi with hi | hi
          · exact hput.queued item hi q hq
          · rw [List.mem_singleton.mp hi] at hq ⊢
            have hq : (L.put key p.enqueue).posts key = some q := hq
            rw [put_get, if_pos rfl] at hq
            cases hq
            exact ⟨rfl, fun _ => rfl⟩
        case wants => exact hput.wants
        case once => exact hput.once
        case fixed =>
          intro k q hq t ht
          obtain ⟨hturn, hfin⟩ := hput.fixed k q hq t ht
          exact ⟨hturn, hfin.frame id rfl id⟩
        case latest => exact hput.latest

theorem Sound.skip (h : Sound S D L) (key : ChildKey) : Sound S D (L.skip key) := by
  unfold Lane.skip
  split
  · exact h.drop key
  · exact h

theorem Sound.schedule {emitRestartEvents : Bool} (h : Sound S D L) (hno : ∀ item ∈ L.queue, item.key ≠ key)
    (hmay : ∀ p, L.posts key = some p → L.MaySchedule emitRestartEvents key p) (hD : ∀ c ∈ D, c.key ≠ key) :
    Sound S D (L.schedule key emitRestartEvents) := by
  unfold Lane.schedule
  cases emitRestartEvents with
  | false =>
    refine h.scheduleStart hno (fun p hp _ => ⟨fun t ht => ?_, fun _ => (hmay p hp).first rfl⟩) hD
    have hs := (h.fixed key p hp t ht).2.hasStarted
    rw [(hmay p hp).first rfl] at hs
    cases hs
  | true =>
    rw [if_pos rfl]
    split
    · exact h
    · rename_i p hp
      split
      · exact h
      · split
        · exact h.skip key
        · rename_i hns
          refine h.scheduleStart hno (fun p' hp' hm => ?_) hD
          rw [hp] at hp'
          cases hp'
          have hfresh : p.isNever = true → p.hasStarted = false := by
            intro hn
            have hn' : p.definition.restart.isNever = true := hn
            simpa [hn'] using hns
          refine ⟨fun t ht => ?_, hfresh⟩
          obtain ⟨-, hfin⟩ := h.fixed key p hp t ht
          have hs := hfin.hasStarted
          rw [hfresh ((hmay p hp).never rfl hm hfin)] at hs
          cases hs

/-! ## Removals and additions -/

theorem Sound.removing (h : Sound S D L) (hget : L.posts key = some p) : Sound S D (L.put key p.leave) := by
  have hhas := h.has hget
  refine h.put hget rfl rfl (.inr rfl) (.inr fun hm => ?_) (h.wants key p hget) ?_ ?_ ?_ ?_
  · cases hm
  · intro hp
    refine hhas (hp.imp_left fun ha => ?_)
    unfold Post.leave at ha
    simp only at ha
    split at ha
    · assumption
    · exact ha
  · intro hn
    obtain ⟨hg, hst⟩ := h.once key p hget hn
    refine ⟨hg, fun hs => ?_⟩
    unfold Post.leave
    simp only
    split
    · decide
    · exact hst hs
  · intro t _ hfin
    have hidle : p.leave.state = p.state := by
      unfold Post.leave
      simp [hfin.idle]
    exact ⟨rfl, hidle.trans hfin.stopped, hfin.hasStarted, hfin.due, fun _ hm => absurd rfl hm⟩
  · intro c _ _ _ ha
    refine ⟨ha.le, fun he => ?_⟩
    obtain ⟨hst, hs, hx⟩ := ha.current he
    refine ⟨?_, hs, hx⟩
    unfold Post.leave
    simp [hst, RuntimeChildState.isActive]

/-- The membership is new: nothing was sealed of it. -/
theorem Sound.insert (h : Sound S D L) (hst : p.state = .stopped) (hmem : p.membership = .active) (hdyn : L.kind = .dynamic) (hs : p.hasStarted = false)
    (hg : p.generation = 0) (hd : p.due = false) (hr : p.refuses = false) (hx : p.lastExit = none)
    (hfresh : ∀ k q, L.posts k = some q → q.lineage ≠ p.lineage) (hS : ∀ t, ¬ S p.lineage t)
    (hD : ∀ c ∈ D, c.lineage ≠ p.lineage) : Sound S D { L.put key p with order := L.order ++ [key] } := by
  have hold : ∀ {k : ChildKey} {q : Post}, ({ L.put key p with order := L.order ++ [key] } : Lane).posts k = some q →
      (k = key ∧ q = p) ∨ L.posts k = some q := by
    intro k q hq
    have hq : (L.put key p).posts k = some q := hq
    rw [put_get] at hq
    split at hq
    · rename_i hk
      cases hq
      exact .inl ⟨hk, rfl⟩
    · exact .inr hq
  constructor
  case toProper =>
    refine ⟨h.willing.put hr, ?_, fun hk => ?_, h.queue, h.nodup, ?_, ?_, ?_, ?_⟩
    · intro k q hq
      rcases hold hq with ⟨rfl, rfl⟩ | hq
      · rw [hmem]
        decide
      · exact h.present k q hq
    · rw [show L.kind = .ordered from hk] at hdyn
      cases hdyn
    · intro k hm
      show ((L.put key p).posts k).isSome = true
      rw [put_get]
      split
      · rfl
      · rename_i hk
        rcases List.mem_append.mp hm with hm | hm
        · exact h.known k hm
        · exact absurd (List.mem_singleton.mp hm) hk
    · intro k q k' q' hq hq' he
      rcases hold hq with ⟨hk, hqp⟩ | hq₁
      · rcases hold hq' with ⟨hk', -⟩ | hq₁'
        · exact hk.trans hk'.symm
        · exact absurd (hqp ▸ he.symm) (hfresh k' q' hq₁')
      · rcases hold hq' with ⟨-, hqp'⟩ | hq₁'
        · exact absurd (hqp' ▸ he) (hfresh k q hq₁)
        · exact h.inj k q k' q' hq₁ hq₁' he
    · intro k q hq ha
      rcases hold hq with ⟨rfl, rfl⟩ | hq
      · rw [hst] at ha
        cases ha
      · exact h.begun k q hq ha
    · intro k q hq hqx
      rcases hold hq with ⟨rfl, rfl⟩ | hq
      · rw [hx] at hqx
        cases hqx
      · exact h.left k q hq hqx
  case queued =>
    intro item hi
    have hi : item ∈ L.queue := hi
    rw [h.queue hdyn] at hi
    cases hi
  case wants =>
    intro k q hq hqd
    rcases hold hq with ⟨rfl, rfl⟩ | hq
    · rw [hd] at hqd
      cases hqd
    · exact h.wants k q hq hqd
  case once =>
    intro k q hq hn
    rcases hold hq with ⟨rfl, rfl⟩ | hq
    · refine ⟨hg, fun hs' => ?_⟩
      rw [hs] at hs'
      cases hs'
    · exact h.once k q hq hn
  case fixed =>
    intro k q hq t ht
    rcases hold hq with ⟨rfl, rfl⟩ | hq
    · exact absurd ht (hS t)
    · obtain ⟨hturn, hfin⟩ := h.fixed k q hq t ht
      refine ⟨hturn, hfin.frame id rfl fun hh => ?_⟩
      show (L.order ++ [key]).head? = some k
      rw [List.head?_append, hh]
      rfl
  case latest =>
    intro c hc q hq hl
    rcases hold hq with ⟨-, rfl⟩ | hq
    · exact absurd hl.symm (hD c hc)
    · exact h.latest c hc q hq hl

/-! ## The group of a restart -/

/-- The children a group restart covers. Those after a failing child are not the first of
    the order, and the failing child itself waits to be restarted. -/
inductive Group (L : Lane) : List ChildKey → Bool → Prop
  | all {keys : List ChildKey} : L.strategy = .oneForAll → Group L keys true
  | rest {key : ChildKey} {rest pre suf : List ChildKey} {p : Post} : L.strategy = .restForOne →
      L.order = pre ++ key :: suf → (∀ k ∈ rest, k ∉ pre ∧ k ≠ key) → L.posts key = some p → p.membership = .active →
      p.state = .stopped → p.wantsRestart = true → Group L (key :: rest) false

/-- Children that are active change, others leave: the group stays one. -/
theorem Group.frame {keys : List ChildKey} {freshGroupToken : Bool} (hg : Group L keys freshGroupToken)
    (hs : L'.strategy = L.strategy) (gone : ChildKey → Bool) (ho : L'.order = L.order.filter fun k => !gone k)
    (hkeep : ∀ k p, L.posts k = some p → p.membership = .active → p.state = .stopped → gone k = false ∧ L'.posts k = some p) :
    Group L' keys freshGroupToken := by
  cases hg with
  | all hst => exact .all (hs.trans hst)
  | @rest key rest pre suf p hst hord hrest hget hm hstop hwants =>
    obtain ⟨hgone, hget'⟩ := hkeep key p hget hm hstop
    refine @Group.rest L' key rest (pre.filter fun k => !gone k) (suf.filter fun k => !gone k) p (hs.trans hst) ?_ ?_ hget' hm hstop hwants
    · rw [ho, hord, List.filter_append, List.filter_cons_of_pos (by simp [hgone])]
    · exact fun k hk => ⟨fun hp => (hrest k hk).1 (List.mem_filter.mp hp).1, (hrest k hk).2⟩

theorem Group.halts {keys : List ChildKey} {freshGroupToken : Bool} {scope : DrainScope} (hg : Group L keys freshGroupToken)
    (hh : Halts scope L L') : Group L' keys freshGroupToken := by
  obtain ⟨posts, rfl, hp⟩ := hh
  refine hg.frame rfl (fun _ => false) (by simp) fun k p hget hm hst => ⟨rfl, ?_⟩
  rcases hp k with h | ⟨q, -, hq, hact, -⟩
  · exact h.trans hget
  · rw [hget] at hq
    cases hq
    rw [hst] at hact
    cases hact

theorem Group.exit {keys : List ChildKey} {freshGroupToken : Bool} (hg : Group L keys freshGroupToken)
    (hget : L.posts key = some p) (hact : p.state.isActive = true) (kind : ExitKind) :
    Group (L.exit key kind) keys freshGroupToken := by
  unfold Lane.exit
  rw [hget]
  refine hg.frame rfl (fun _ => false) (by simp [Lane.tell, Lane.put]) fun k q hq hm hst => ⟨rfl, ?_⟩
  have hk : k ≠ key := by
    rintro rfl
    rw [hget] at hq
    cases hq
    rw [hst] at hact
    cases hact
  simp [hk, hq]

theorem Group.drop {keys : List ChildKey} {freshGroupToken : Bool} (hg : Group L keys freshGroupToken)
    (hget : L.posts key = some p) (hm : p.membership ≠ .active) : Group (L.drop key) keys freshGroupToken := by
  have hne : ∀ {k : ChildKey} {q : Post}, L.posts k = some q → q.membership = .active → k ≠ key := by
    rintro k q hq hqm rfl
    rw [hget] at hq
    cases hq
    exact hm hqm
  refine hg.frame ?_ (fun k => decide (k = key)) ?_ fun k q hq hqm _ => ⟨decide_eq_false (hne hq hqm), ?_⟩
  · unfold Lane.drop
    rw [hget]
    rfl
  · unfold Lane.drop
    rw [hget]
    simp [Lane.tell]
  · rw [drop_get, if_neg (hne hq hqm)]
    exact hq

/-- What is left of a group while it is scheduled: a member that is not the failing child
    stands behind it. -/
inductive Covered (L : Lane) (keys : List ChildKey) : Prop
  | all : L.strategy = .oneForAll → Covered L keys
  | rest {key : ChildKey} {pre suf : List ChildKey} : L.strategy = .restForOne → L.order = pre ++ key :: suf →
      (∀ k ∈ keys, k ∉ pre ∧ (k = key → ∃ p, L.posts k = some p ∧ p.wantsRestart = true)) → Covered L keys

theorem Group.covered {keys : List ChildKey} {freshGroupToken : Bool} (hg : Group L keys freshGroupToken) (hn : L.order.Nodup) :
    Covered L keys := by
  cases hg with
  | all hs => exact .all hs
  | @rest key rest pre suf p hs ho hrest hget _ _ hwants =>
    refine .rest hs ho fun k hk => ?_
    rcases List.mem_cons.mp hk with rfl | hk
    · rw [ho] at hn
      exact ⟨fun hp => (List.nodup_append.mp hn).2.2 k hp k (List.mem_cons_self ..) rfl, fun _ => ⟨p, hget, hwants⟩⟩
    · exact ⟨(hrest k hk).1, fun he => absurd he (hrest k hk).2⟩

theorem Covered.frame {keys : List ChildKey} (hc : Covered L keys) (hs : L'.strategy = L.strategy) (ho : L'.order = L.order)
    (hp : L'.posts = L.posts) : Covered L' keys := by
  cases hc with
  | all h => exact .all (hs.trans h)
  | rest h hord hrest =>
    refine .rest (hs.trans h) (ho.trans hord) ?_
    rw [hp]
    exact hrest

/-- A finished member of the group is one that is never restarted. -/
theorem Covered.never {keys : List ChildKey} (hc : Covered L keys) (hk : key ∈ keys) (hrun : L.running = true)
    (hget : L.posts key = some p) (hm : p.membership = .active) (hfin : L.Finished key p) : p.isNever = true := by
  obtain ⟨hw, hf⟩ := hfin.final hrun (by rw [hm]; decide)
  unfold stopIsFinal at hf
  cases hc with
  | all hs =>
    rw [hs] at hf
    exact hf
  | @rest key' pre suf hs ho hrest =>
    obtain ⟨hpre, hwants⟩ := hrest key hk
    rw [hs] at hf
    simp only [Bool.or_eq_true, decide_eq_true_eq] at hf
    rcases hf with hf | hf
    · exact hf
    · exfalso
      rw [ho] at hf
      cases pre with
      | nil =>
        rw [List.nil_append, List.head?_cons, Option.some.injEq] at hf
        obtain ⟨q, hq, hqw⟩ := hwants hf.symm
        rw [hget] at hq
        cases hq
        rw [hw] at hqw
        cases hqw
      | cons a pre =>
        rw [List.cons_append, List.head?_cons, Option.some.injEq] at hf
        exact hpre (hf ▸ List.mem_cons_self ..)

/-- Scheduling a child touches no other child, and only its own item enters the queue. -/
theorem schedule_frame (L : Lane) (key : ChildKey) (emitRestartEvents : Bool) :
    (∀ k, k ≠ key → (L.schedule key emitRestartEvents).posts k = L.posts k) ∧
      (∀ item ∈ (L.schedule key emitRestartEvents).queue, item ∈ L.queue ∨ item.key = key) ∧
      (L.schedule key emitRestartEvents).strategy = L.strategy ∧ (L.schedule key emitRestartEvents).running = L.running ∧
      ((L.schedule key emitRestartEvents).order = L.order ∨
        (L.schedule key emitRestartEvents).order = L.order.filter (· ≠ key) ∧
          ∃ p, L.posts key = some p ∧ p.isNever = true) := by
  have hstart : (∀ k, k ≠ key → (L.scheduleStart key emitRestartEvents).posts k = L.posts k) ∧
      (∀ item ∈ (L.scheduleStart key emitRestartEvents).queue, item ∈ L.queue ∨ item.key = key) ∧
      (L.scheduleStart key emitRestartEvents).strategy = L.strategy ∧
      (L.scheduleStart key emitRestartEvents).running = L.running ∧
      (L.scheduleStart key emitRestartEvents).order = L.order := by
    unfold scheduleStart
    split
    · exact ⟨fun _ _ => rfl, fun _ => .inl, rfl, rfl, rfl⟩
    · split
      · exact ⟨fun _ _ => rfl, fun _ => .inl, rfl, rfl, rfl⟩
      · split
        · rename_i p _ _ _
          obtain ⟨hposts, horder, hstrategy, -, hrunning⟩ := startItem_frame L ⟨key, p.lineage, emitRestartEvents⟩
          refine ⟨hposts, fun item hi => .inl ?_, hstrategy, hrunning, horder⟩
          rwa [startItem_queue] at hi
        · refine ⟨fun k hk => ?_, fun item hi => ?_, rfl, rfl, rfl⟩
          · simp only [put_get, if_neg hk]
          · rcases List.mem_append.mp hi with hi | hi
            · exact .inl hi
            · rw [List.mem_singleton.mp hi]
              exact .inr rfl
  obtain ⟨hposts, hqueue, hstrategy, hrunning, horder⟩ := hstart
  unfold schedule
  split
  · split
    · exact ⟨fun _ _ => rfl, fun _ => .inl, rfl, rfl, .inl rfl⟩
    · rename_i p hp
      split
      · exact ⟨fun _ _ => rfl, fun _ => .inl, rfl, rfl, .inl rfl⟩
      · split
        · rename_i hnever
          unfold skip
          split
          · have hdrop : L.drop key = { L with posts := Function.update L.posts key none, order := L.order.filter (· ≠ key) }.tell
                [.removed p.id p.lineage] := by
              unfold Lane.drop
              rw [hp]
            simp only [Bool.and_eq_true] at hnever
            refine ⟨fun k hk => ?_, fun item hi => .inl ?_, ?_, ?_, .inr ⟨?_, p, hp, hnever.2⟩⟩
            · rw [drop_get, if_neg hk]
            · rwa [drop_queue] at hi
            · rw [hdrop]
              rfl
            · rw [hdrop]
              rfl
            · rw [hdrop]
              rfl
          · exact ⟨fun _ _ => rfl, fun _ => .inl, rfl, rfl, .inl rfl⟩
        · exact ⟨hposts, hqueue, hstrategy, hrunning, .inl horder⟩
  · exact ⟨hposts, hqueue, hstrategy, hrunning, .inl horder⟩

theorem Covered.schedule {keys : List ChildKey} {emitRestartEvents : Bool} (hc : Covered L (key :: keys)) (hn : key ∉ keys) :
    Covered (L.schedule key emitRestartEvents) keys := by
  obtain ⟨hposts, -, hstrategy, -, horder⟩ := schedule_frame L key emitRestartEvents
  cases hc with
  | all hs => exact .all (hstrategy.trans hs)
  | @rest key' pre suf hs ho hrest =>
    have hkeep : ∀ k ∈ keys, k ∉ pre ∧ (k = key' → ∃ p, (L.schedule key emitRestartEvents).posts k = some p ∧ p.wantsRestart = true) := by
      intro k hk
      obtain ⟨hpre, hwants⟩ := hrest k (List.mem_cons_of_mem _ hk)
      rw [hposts k fun he => hn (he ▸ hk)]
      exact ⟨hpre, hwants⟩
    rcases horder with horder | ⟨horder, p, hp, hnever⟩
    · exact .rest (hstrategy.trans hs) (horder.trans ho) hkeep
    · -- the failing child is restarted, so it is not the one that left
      have hk : key' ≠ key := by
        rintro rfl
        obtain ⟨q, hq, hwants⟩ := (hrest key' (List.mem_cons_self ..)).2 rfl
        rw [hp] at hq
        cases hq
        rw [Post.not_never_of_wants hwants] at hnever
        cases hnever
      refine @Covered.rest _ _ key' (pre.filter (· ≠ key)) (suf.filter (· ≠ key)) (hstrategy.trans hs) ?_ ?_
      · rw [horder, ho, List.filter_append, List.filter_cons_of_pos (by simpa using hk)]
      · exact fun k hk => ⟨fun hp => (hkeep k hk).1 (List.mem_filter.mp hp).1, (hkeep k hk).2⟩

end Lane

end Kokage.Supervisor

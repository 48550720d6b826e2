/-
  Kokage.Identity.Fence — who changes the shared structures of a stable identity.
-/

import Kokage.Identity.Channels

namespace Kokage.Identity

open Kokage.Lib Kokage.Supervisor

def Stage.isBinding : Stage → Bool
  | .binding .. => true
  | _ => false

/-- Bound, and the task of the runtime has not ended. -/
def Stage.live : Stage → Bool
  | .binding .. | .ended => false
  | _ => true

namespace World

variable {d : Declaration} {s s' : World} {a : Action} {i j : Nat} {inc inc' x : Incarnation} {rt : Runtime}

/-! ## Frame lemmas -/

theorem set_get (h : s.incarnations[i]? = some inc) :
    (s.incarnations.set i inc')[j]? = some x ↔ (j = i ∧ x = inc') ∨ (j ≠ i ∧ s.incarnations[j]? = some x) := by
  have hi : i < s.incarnations.length := (List.getElem?_eq_some_iff.mp h).1
  rw [List.getElem?_set]
  by_cases e : i = j
  · subst e
    simp [hi, eq_comm]
  · simp [e, Ne.symm e]

theorem set_same (h : s.incarnations[i]? = some inc) : s.incarnations.set i inc = s.incarnations := by
  obtain ⟨hi, rfl⟩ := List.getElem?_eq_some_iff.mp h
  exact List.set_getElem_self hi

/-- A removal edits the runtime's entries; the map and the nested identity only while
    the incarnation owns the binding. -/
theorem remove_cases (s : World) (i : Nat) (inc : Incarnation) (rt : Runtime) (id : String) (e : Entry) :
    s.remove i inc rt id e = s.setRuntime i inc { rt with entries := rt.entries.filter (·.row.id ≠ id) } ∨
    (s.channels.binding.owned i = true ∧ ∃ nested closed, s.remove i inc rt id e =
      { s.setRuntime i inc { rt with entries := rt.entries.filter (·.row.id ≠ id) } with
        channels := { s.channels with nested := nested }, closed := closed }) := by
  unfold remove
  cases e.nested with
  | none => exact .inl rfl
  | some child =>
    by_cases ho : s.channels.binding.owned i = true
    · refine .inr ⟨ho, ?_⟩
      simp only [setRuntime, setStage, ho, if_true]
      exact ⟨_, _, rfl⟩
    · refine .inl ?_
      simp [setRuntime, setStage, ho]

/-- A published total or sequence is no larger than what the runtime has. -/
structure Current (c : Channels) (rt : Runtime) : Prop where
  total : c.snapshot.totalRestarts ≤ rt.totalRestarts
  view : ∀ v, rt.view = some v → c.snapshot.totalRestarts ≤ v.totalRestarts ∧
    c.snapshot.lifecycleSeq ≤ v.lifecycleSeq ∧ v.totalRestarts ≤ rt.totalRestarts ∧ v.lifecycleSeq ≤ c.seq

structure Inv (d : Declaration) (s : World) : Prop where
  epochs : s.channels.binding.nextBindingEpoch = s.incarnations.length
  locked : ∀ (i : Nat) (inc : Incarnation), s.incarnations[i]? = some inc → inc.stage.isBinding = true →
    s.lock = some i
  serving : s.lock.isSome → s.channels.binding.terminal = false
  unbound : s.channels.binding.terminal = true → s.channels.binding.current = none
  viewClosed : s.channels.attached.terminal = true → s.channels.binding.terminal = true
  senderGone : s.channels.snapshotsTx = false → s.channels.binding.terminal = true
  sender : s.noSender = false
  seq : s.channels.snapshot.lifecycleSeq ≤ s.channels.seq
  totals : ∀ (i : Nat) (inc : Incarnation) (rt : Runtime), s.incarnations[i]? = some inc → inc.stage = .running rt →
    s.channels.binding.names i = true → Current s.channels rt
  nested : ∀ (i : Nat) (inc : Incarnation), s.incarnations[i]? = some inc → (inc.generation = none ↔ d.root = true)
  single : d.root = true → s.incarnations.length ≤ 1
  view : ∀ (i : Nat) (inc : Incarnation), s.incarnations[i]? = some inc → inc.stage.live = true →
    s.channels.attached.accepts inc.generation i = true →
    s.channels.binding.names i = true ∨ s.channels.binding.terminal = true

theorem start_inv : (start d).Inv d := by
  constructor <;> simp [start, StableBindingState.new, Declaration.snapshot]

/-- A step that touches neither the binding nor the snapshot, nor whose view it is. -/
structure Quiet (s s' : World) : Prop where
  binding : s'.channels.binding = s.channels.binding
  snapshot : s'.channels.snapshot = s.channels.snapshot
  sender : s'.channels.snapshotsTx = s.channels.snapshotsTx
  accepts : ∀ g e, s'.channels.attached.accepts g e = s.channels.attached.accepts g e
  terminal : s'.channels.attached.terminal = s.channels.attached.terminal
  seq : s.channels.seq ≤ s'.channels.seq
  lock : s'.lock = s.lock
  noSender : s'.noSender = s.noSender

/-- An incarnation goes on: from where it was, to where its code leads. -/
structure Onward (c : Channels) (i : Nat) (inc inc' : Incarnation) : Prop where
  generation : inc'.generation = inc.generation
  binding : inc'.stage.isBinding = true → inc.stage.isBinding = true
  live : inc'.stage.live = true → inc.stage.live = true
  current : ∀ rt, inc'.stage = .running rt → c.binding.names i = true → Current c rt

theorem Current.later {c c' : Channels} (h : Current c rt) (hs : c'.snapshot = c.snapshot) (hq : c.seq ≤ c'.seq) :
    Current c' rt := by
  refine ⟨hs ▸ h.total, fun v hv => ?_⟩
  obtain ⟨h1, h2, h3, h4⟩ := h.view v hv
  exact ⟨hs ▸ h1, hs ▸ h2, h3, Nat.le_trans h4 hq⟩

theorem Inv.quiet (hi : s.Inv d) (hq : Quiet s s') (hinc : s.incarnations[i]? = some inc)
    (hset : s'.incarnations = s.incarnations.set i inc') (ho : Onward s'.channels i inc inc') : s'.Inv d where
  epochs := by rw [hq.binding, hset, List.length_set]; exact hi.epochs
  locked j x hx hb := by
    rw [hset, set_get hinc] at hx
    rw [hq.lock]
    rcases hx with ⟨rfl, rfl⟩ | ⟨-, hx⟩
    · exact hi.locked _ _ hinc (ho.binding hb)
    · exact hi.locked _ _ hx hb
  serving h := by rw [hq.binding]; exact hi.serving (hq.lock ▸ h)
  unbound h := by rw [hq.binding] at h ⊢; exact hi.unbound h
  viewClosed h := by rw [hq.binding]; exact hi.viewClosed (hq.terminal ▸ h)
  senderGone h := by rw [hq.binding]; exact hi.senderGone (hq.sender ▸ h)
  sender := hq.noSender.trans hi.sender
  seq := by rw [hq.snapshot]; exact Nat.le_trans hi.seq hq.seq
  totals j x rt hx hr hn := by
    rw [hset, set_get hinc] at hx
    rcases hx with ⟨rfl, rfl⟩ | ⟨-, hx⟩
    · exact ho.current rt hr hn
    · exact (hi.totals j x rt hx hr (hq.binding ▸ hn)).later hq.snapshot hq.seq
  nested j x hx := by
    rw [hset, set_get hinc] at hx
    rcases hx with ⟨rfl, rfl⟩ | ⟨-, hx⟩
    · rw [ho.generation]
      exact hi.nested _ _ hinc
    · exact hi.nested _ _ hx
  single hr := by rw [hset, List.length_set]; exact hi.single hr
  view j x hx hl ha := by
    rw [hset, set_get hinc] at hx
    rw [hq.accepts] at ha
    rw [hq.binding]
    rcases hx with ⟨rfl, rfl⟩ | ⟨-, hx⟩
    · exact hi.view _ _ hinc (ho.live hl) (ho.generation ▸ ha)
    · exact hi.view _ _ hx hl ha

theorem bind_get {g : Nat} (h : (s.bind d g).incarnations[j]? = some x) : s.incarnations[j]? = some x ∨
    (j = s.incarnations.length ∧ x.stage.isBinding = true ∧ x.stage.live = false ∧
      (x.generation = none ↔ d.root = true)) := by
  simp only [bind, List.getElem?_append] at h
  split at h
  · exact .inl h
  · obtain ⟨hj, rfl⟩ := List.getElem?_eq_some_iff.mp h
    simp only [List.length_singleton] at hj
    refine .inr ⟨by omega, ?_⟩
    simp [show j - s.incarnations.length = 0 by omega, Stage.isBinding, Stage.live]

theorem bind_inv (hi : s.Inv d) (hl : s.lock.isSome = false) (hr : d.root = true → s.incarnations = [])
    (ht : s.channels.binding.terminal = false) (g : Nat) : (s.bind d g).Inv d where
  epochs := by simp [bind, StableBindingState.allocate, hi.epochs]
  locked j x hx hb := by
    rcases bind_get hx with hx | ⟨rfl, -⟩
    · have := hi.locked j x hx hb
      simp [this] at hl
    · rfl
  serving _ := ht
  unbound := hi.unbound
  viewClosed := hi.viewClosed
  senderGone := hi.senderGone
  sender := hi.sender
  seq := hi.seq
  totals j x rt hx hrt hn := by
    rcases bind_get hx with hx | ⟨-, hb, -⟩
    · exact (hi.totals j x rt hx hrt hn).later rfl (Nat.le_refl _)
    · simp [hrt, Stage.isBinding] at hb
  nested j x hx := by
    rcases bind_get hx with hx | ⟨-, -, -, hg⟩
    · exact hi.nested j x hx
    · exact hg
  single h := by simp [bind, hr h]
  view j x hx hlive ha := by
    rcases bind_get hx with hx | ⟨-, -, hn, -⟩
    · exact hi.view j x hx hlive ha
    · simp [hn] at hlive

theorem commit_inv (hi : s.Inv d) (hinc : s.incarnations[i]? = some inc) (hb : inc.stage.isBinding = true)
    (rows : List ChildSnapshot) (prepared : List AttachedChild) : (s.commit d i inc rows prepared).Inv d := by
  have hlock := hi.locked i inc hinc hb
  have ht : s.channels.binding.terminal = false := hi.serving (by simp [hlock])
  have htx : s.channels.snapshotsTx = true := by
    by_contra h
    simpa [ht] using hi.senderGone (by simpa using h)
  have hnames : ∀ j, (s.channels.binding.commit i i).names j = true ↔ i = j := by
    intro j
    simp [StableBindingState.commit, StableBindingState.names]
  simp only [commit, htx, if_true]
  constructor
  case epochs => simpa [StableBindingState.commit] using hi.epochs
  case locked =>
    intro j x hx hbx
    rcases (set_get hinc).mp hx with ⟨rfl, rfl⟩ | ⟨hne, hx⟩
    · simp [Stage.isBinding] at hbx
    · have := hi.locked j x hx hbx
      simp_all
  case serving => simp
  case unbound => simp [StableBindingState.commit, ht]
  case viewClosed => simp
  case senderGone => simp
  case sender => exact hi.sender
  case seq => exact Nat.le_refl _
  case totals =>
    intro j x rt hx hrt hn
    obtain rfl := (hnames j).mp hn
    rcases (set_get hinc).mp hx with ⟨-, rfl⟩ | ⟨hne, -⟩
    · cases hrt
    · exact absurd rfl hne
  case nested =>
    intro j x hx
    rcases (set_get hinc).mp hx with ⟨rfl, rfl⟩ | ⟨-, hx⟩
    · exact hi.nested j inc hinc
    · exact hi.nested j x hx
  case single => simpa using hi.single
  case view =>
    intro j x hx hlive ha
    refine .inl ((hnames j).mpr ?_)
    simp only [AttachedChildrenView.accepts, Bool.and_eq_true, decide_eq_true_eq] at ha
    exact ha.2

theorem publishSnapshot_inv (hi : s.Inv d) (hinc : s.incarnations[i]? = some inc) (hrt : inc.stage = .running rt)
    {v : SupervisorSnapshot} (hv : rt.view = some v) :
    ((s.setRuntime i inc { rt with view := none }).publishSnapshot i v).Inv d := by
  have hq : (s.setRuntime i inc { rt with view := none }).Inv d := by
    refine hi.quiet (by constructor <;> simp [setRuntime, setStage]) hinc rfl ⟨rfl, ?_, ?_, ?_⟩
    · simp [Stage.isBinding]
    · simp [hrt, Stage.live]
    · intro rt' h hn
      cases h
      exact ⟨(hi.totals i inc rt hinc hrt hn).total, by simp⟩
  unfold publishSnapshot
  split
  case isFalse => exact hq
  case isTrue ho =>
  simp only [StableBindingState.owned, Bool.and_eq_true, Bool.not_eq_true'] at ho
  have htx : s.channels.snapshotsTx = true := by
    by_contra h
    have := hi.senderGone (by simpa using h)
    simp_all [setRuntime, setStage]
  obtain ⟨h1, h2, h3, h4⟩ := (hi.totals i inc rt hinc hrt ho.2).view v hv
  have hone : ∀ j, s.channels.binding.names j = true → j = i := by
    intro j hj
    have := ho.2
    simp only [StableBindingState.names, setRuntime, setStage] at hj this
    cases hc : s.channels.binding.current <;> simp_all
  rw [if_pos (by simpa [setRuntime, setStage] using htx)]
  exact
    { hq with
      seq := h4
      totals := fun j x rt' hx hr hn => by
        obtain rfl := hone j hn
        rcases (set_get hinc).mp hx with ⟨-, rfl⟩ | ⟨hne, -⟩
        · cases hr
          exact ⟨h3, by simp⟩
        · exact absurd rfl hne }

theorem dropGuard_inv (hi : s.Inv d) (hinc : s.incarnations[i]? = some inc)
    (hroot : d.root = true → inc.stage = .ended) : (s.dropGuard i).Inv d := by
  unfold dropGuard
  split
  case isFalse => exact hi
  case isTrue hn =>
  have hnone : ∀ j, (s.channels.binding.release i).names j = false := by
    intro j
    rw [StableBindingState.release, if_pos hn]
    rfl
  have hterm : (s.channels.binding.release i).terminal = s.channels.binding.terminal := by
    simp [StableBindingState.release, hn]
  have hnext : (s.channels.binding.release i).nextBindingEpoch = s.channels.binding.nextBindingEpoch := by
    simp [StableBindingState.release, hn]
  exact
    { hi with
      epochs := hnext.trans hi.epochs
      serving := fun h => hterm.trans (hi.serving h)
      unbound := fun _ => by rw [StableBindingState.release, if_pos hn]
      viewClosed := fun h => by
        refine hterm.trans (hi.viewClosed ?_)
        simp only [AttachedChildrenView.invalidate] at h
        split at h <;> simp_all
      senderGone := fun h => hterm.trans (hi.senderGone h)
      totals := fun j x rt hx hr h => by simp [hnone] at h
      view := fun j x hx hl ha => by
        -- An invalidated view has no generation, so only a root could still publish.
        have hg : x.generation = none := by
          simp only [AttachedChildrenView.accepts, AttachedChildrenView.invalidate] at ha
          split at ha <;> simp_all
        have hr := (hi.nested j x hx).mp hg
        have hlen := hi.single hr
        have hi0 := (List.getElem?_eq_some_iff.mp hinc).1
        have hj0 : j < s.incarnations.length := (List.getElem?_eq_some_iff.mp hx).1
        obtain rfl : j = i := by omega
        rw [hinc] at hx
        cases hx
        simp [hroot hr, Stage.live] at hl }

theorem terminalBinding_inv (hi : s.Inv d) (hl : s.lock.isSome = false) :
    Inv d { s with channels := { s.channels with binding := s.channels.binding.makeTerminal } } :=
  { hi with
    serving := fun h => by simp_all
    unbound := fun _ => rfl
    viewClosed := fun _ => rfl
    senderGone := fun _ => rfl
    totals := fun j x rt hx hr h => by simp [StableBindingState.makeTerminal, StableBindingState.names] at h
    view := fun _ _ _ _ _ => .inr rfl }

theorem view_inv (hi : s.Inv d) {v : AttachedChildrenView}
    (ht : v.terminal = true → s.channels.binding.terminal = true)
    (ha : ∀ g e, v.accepts g e = true → s.channels.attached.accepts g e = true ∨ (g = none ∧ d.root = false)) :
    Inv d { s with channels := { s.channels with attached := v } } :=
  { hi with
    viewClosed := ht
    totals := fun j x rt hx hr h => (hi.totals j x rt hx hr h).later rfl (Nat.le_refl _)
    view := fun j x hx hl h => by
      rcases ha _ _ h with h | ⟨hg, hr⟩
      · exact hi.view j x hx hl h
      · have := (hi.nested j x hx).mp hg
        simp_all }

/-- A step of a running runtime that leaves the shared structures as they are, but for
    the nested identities, the sequence and the next lineage. -/
theorem runtime_inv (hi : s.Inv d) (hinc : s.incarnations[i]? = some inc) (hrt : inc.stage = .running rt)
    {rt' : Runtime} (hq : Quiet s s') (hset : s'.incarnations = s.incarnations.set i inc')
    (hg : inc'.generation = inc.generation) (hrt' : inc'.stage = .running rt')
    (hcur : Current s.channels rt → Current s'.channels rt') : s'.Inv d := by
  refine hi.quiet hq hinc hset ⟨hg, ?_, ?_, ?_⟩
  · simp [hrt', Stage.isBinding]
  · simp [hrt, Stage.live]
  · intro rt'' h hn
    obtain rfl : rt' = rt'' := by simpa [hrt'] using h
    exact hcur (hi.totals i inc rt hinc hrt (hq.binding ▸ hn))

theorem step_inv (hi : s.Inv d) (h : step d s a = some s') : s'.Inv d := by
  cases step_moves h with
  | refused => exact hi
  | bind g hl hr ht => exact bind_inv hi (by simp [hl]) hr ht g
  | mint hinc hst =>
    refine hi.quiet (by constructor <;> simp [mint]) hinc rfl ⟨rfl, ?_, ?_, ?_⟩
    · simp [hst, Stage.isBinding]
    · simp [Stage.live]
    · simp
  | commit hinc hst => exact commit_inv hi hinc (by simp [hst, Stage.isBinding]) _ _
  | readLineages hinc hst =>
    refine hi.quiet (by constructor <;> simp [setStage]) hinc rfl ⟨rfl, ?_, ?_, ?_⟩
    · simp [Stage.isBinding]
    · simp [hst, Stage.live]
    · simp
  | reconcile hinc hst =>
    refine hi.quiet (by constructor <;> simp [reconcile, setStage]) hinc rfl ⟨rfl, ?_, ?_, ?_⟩
    · simp [Stage.isBinding]
    · simp [hst, Stage.live]
    · simp
  | create hinc hst =>
    unfold create
    split
    · refine hi.quiet (by constructor <;> simp) hinc rfl ⟨rfl, ?_, ?_, ?_⟩
      · simp [Stage.isBinding]
      · simp [hst, Stage.live]
      · intro rt h _
        cases h
        exact ⟨Nat.le_refl _, by simp⟩
    · refine hi.quiet (by constructor <;> simp [setStage]) hinc rfl ⟨rfl, ?_, ?_, ?_⟩
      · simp [Stage.isBinding]
      · simp [Stage.live]
      · simp
  | work hinc hst =>
    exact runtime_inv hi hinc hst (by constructor <;> simp [setRuntime, setStage]) rfl rfl rfl
      fun h => ⟨h.total, h.view⟩
  | stop state hinc hst =>
    exact runtime_inv hi hinc hst (by constructor <;> simp [setRuntime, setStage]) rfl rfl rfl
      fun h => ⟨h.total, h.view⟩
  | restart hinc hst =>
    refine runtime_inv hi hinc hst (by constructor <;> simp [setRuntime, setStage]) rfl rfl rfl
      fun h => ⟨Nat.le_succ_of_le h.total, fun v hv => ?_⟩
    obtain ⟨h1, h2, h3, h4⟩ := h.view v hv
    exact ⟨h1, h2, Nat.le_succ_of_le h3, h4⟩
  | emit hinc hst =>
    exact runtime_inv hi hinc hst (by constructor <;> simp) (set_same hinc).symm rfl hst
      fun h => h.later rfl (Nat.le_succ _)
  | addChild hinc hst =>
    exact runtime_inv hi hinc hst (by constructor <;> simp [addChild]) rfl rfl rfl fun h => ⟨h.total, h.view⟩
  | insertNested hinc hst =>
    exact runtime_inv hi hinc hst (by constructor <;> simp [setRuntime, setStage]) rfl rfl rfl
      fun h => ⟨h.total, h.view⟩
  | @remove i inc rt id e hinc hst =>
    rcases remove_cases s i inc rt id e with h | ⟨-, nested, closed, h⟩
    · rw [h]
      exact runtime_inv hi hinc hst (by constructor <;> simp [setRuntime, setStage]) rfl rfl rfl
        fun h => ⟨h.total, h.view⟩
    · rw [h]
      exact runtime_inv hi hinc hst (by constructor <;> simp [setRuntime, setStage]) rfl rfl rfl
        fun h => ⟨h.total, h.view⟩
  | publishView hinc hst =>
    exact runtime_inv hi hinc hst (by constructor <;> simp [AttachedChildrenView.accepts]) (set_same hinc).symm rfl hst
      fun h => h.later rfl (Nat.le_refl _)
  | publishNoView => exact hi
  | viewSnapshot hinc hst =>
    refine runtime_inv hi hinc hst (by constructor <;> simp [setRuntime, setStage]) rfl rfl rfl
      fun h => ⟨h.total, fun v hv => ?_⟩
    cases hv
    exact ⟨h.total, hi.seq, Nat.le_refl _, Nat.le_refl _⟩
  | publishSnapshot _ hinc hst hv => exact publishSnapshot_inv hi hinc hst hv
  | finish hinc hst =>
    refine hi.quiet (by constructor <;> simp [setStage]) hinc rfl ⟨rfl, ?_, ?_, ?_⟩
    · simp [Stage.isBinding]
    · simp [Stage.live]
    · simp
  | dropGuard _ hinc hroot => exact dropGuard_inv hi hinc hroot
  | terminalBinding hl => exact terminalBinding_inv hi (by simp [hl])
  | terminalView ht =>
    exact view_inv hi (fun _ => ht) (by simp [AttachedChildrenView.makeTerminal, AttachedChildrenView.accepts])
  | terminalSnapshot ht =>
    exact { hi with
      senderGone := fun _ => hi.viewClosed ht
      totals := fun i inc rt hinc hst hn => (hi.totals i inc rt hinc hst hn).later rfl (Nat.le_refl _) }
  | terminalCascade => exact { hi with }
  | hide hr =>
    refine view_inv hi ?_ ?_
    · intro h
      simp only [AttachedChildrenView.invalidate] at h
      split at h <;> simp_all [hi.viewClosed]
    · intro g e h
      simp only [AttachedChildrenView.accepts, AttachedChildrenView.invalidate] at h ⊢
      split at h <;> simp_all

/-! ## The fence -/

/-- The binding names the incarnation, or the incarnation is inside `bind_prepared`. -/
def holds (s : World) (i : Nat) : Bool := s.channels.binding.names i || s.lock = some i

/-- A change of a shared structure is the work of an incarnation that holds the current
    binding epoch, before the step or after it. Apart from that a judgment from outside
    (`terminal`, or the parent's rebinding) may only empty the view. -/
structure Fenced (s : World) (a : Action) (s' : World) : Prop where
  snapshot : s'.channels.snapshot ≠ s.channels.snapshot → ∃ i, a.incarnation s = some i ∧ s'.holds i = true
  nested : s'.channels.nested ≠ s.channels.nested → ∃ i, a.incarnation s = some i ∧ s'.holds i = true
  attached : s'.channels.attached ≠ s.channels.attached →
    (∃ i, a.incarnation s = some i ∧ (s.holds i = true ∨ s'.holds i = true)) ∨
    (a.incarnation s = none ∧ s'.channels.attached.children = [])

/-- Once terminal, the identity stays so: no bind succeeds and the snapshot is final. -/
structure Absorbed (s s' : World) : Prop where
  terminal : s'.channels.binding.terminal = true
  unbound : s'.channels.binding.current = none
  refused : s'.incarnations.length = s.incarnations.length
  snapshot : s'.channels.snapshot = s.channels.snapshot

/-- The edits of the nested identities that take no fence are made by the incarnation that
    holds the binding, and a view is not published once `terminal` was called. -/
def keepsFence (s : World) : Action → Bool
  | .reconcile i | .insertNested i => s.holds i
  | .publishView _ => !s.channels.binding.terminal
  | _ => true

theorem Fenced.same (hs : s'.channels.snapshot = s.channels.snapshot) (hn : s'.channels.nested = s.channels.nested)
    (ha : s'.channels.attached = s.channels.attached) : Fenced s a s' :=
  ⟨fun h => absurd hs h, fun h => absurd hn h, fun h => absurd ha h⟩

theorem Fenced.held (ha : a.incarnation s = some i) (h : s'.holds i = true) : Fenced s a s' :=
  ⟨fun _ => ⟨i, ha, h⟩, fun _ => ⟨i, ha, h⟩, fun _ => .inl ⟨i, ha, .inr h⟩⟩

theorem step_fenced (hi : s.Inv d) (hk : s.keepsFence a = true) (h : step d s a = some s') : Fenced s a s' := by
  cases step_moves h with
  | bind g => exact .held rfl (by simp [bind, holds])
  | @commit i inc rows prepared hinc hst =>
    by_cases htx : s.channels.snapshotsTx = true
    · refine .held rfl ?_
      simp [commit, htx, holds, StableBindingState.commit, StableBindingState.names]
    · simp only [commit, htx]
      exact .same rfl rfl rfl
  | reconcile hinc hst => exact .held rfl hk
  | create hinc hst =>
    unfold create
    split <;> exact .same rfl rfl rfl
  | insertNested hinc hst => exact .held rfl hk
  | @remove i inc rt id e hinc hst =>
    rcases remove_cases s i inc rt id e with h | ⟨ho, nested, closed, h⟩
    · rw [h]
      exact .same rfl rfl rfl
    · rw [h]
      refine .held rfl ?_
      simp only [StableBindingState.owned, Bool.and_eq_true] at ho
      simp [holds, setRuntime, setStage, ho.2]
  | publishView hinc hst ha =>
    refine .held rfl ?_
    simp only [keepsFence, Bool.not_eq_true'] at hk
    have := hi.view _ _ hinc (by simp [hst, Stage.live]) ha
    simp_all [holds]
  | @publishSnapshot i inc rt v hl hinc hst hv =>
    unfold publishSnapshot
    split
    case isTrue ho =>
      split
      · refine .held rfl ?_
        simp only [StableBindingState.owned, Bool.and_eq_true] at ho
        simp only [holds, ho.2, Bool.true_or]
      · exact .same rfl rfl rfl
    case isFalse => exact .same rfl rfl rfl
  | @dropGuard i inc hl hinc hroot =>
    unfold dropGuard
    split
    case isTrue hn =>
      exact ⟨fun h => absurd rfl h, fun h => absurd rfl h, fun _ => .inl ⟨i, rfl, .inl (by simp [holds, hn])⟩⟩
    case isFalse => exact .same rfl rfl rfl
  | terminalView ht => exact ⟨fun h => absurd rfl h, fun h => absurd rfl h, fun _ => .inr ⟨rfl, rfl⟩⟩
  | hide hr =>
    refine ⟨fun h => absurd rfl h, fun h => absurd rfl h, fun h => .inr ⟨rfl, ?_⟩⟩
    simp only [AttachedChildrenView.invalidate] at h ⊢
    split
    · simp_all
    · rfl
  | _ => exact .same rfl rfl rfl

theorem step_absorbed (hi : s.Inv d) (ht : s.channels.binding.terminal = true) (h : step d s a = some s') :
    Absorbed s s' := by
  have hfree : ∀ {i : Nat} {inc : Incarnation}, s.incarnations[i]? = some inc → inc.stage.isBinding = true → False := by
    intro i inc hinc hb
    have := hi.serving (by simp [hi.locked i inc hinc hb])
    simp [ht] at this
  have hnames : ∀ i, s.channels.binding.names i = false := by
    intro i
    simp [StableBindingState.names, hi.unbound ht]
  cases step_moves h with
  | bind g _ _ hf => simp [ht] at hf
  | commit hinc hst => exact (hfree hinc (by simp [hst, Stage.isBinding])).elim
  | create hinc hst =>
    unfold create
    split <;> exact ⟨ht, hi.unbound ht, by simp [setStage], rfl⟩
  | @remove i inc rt id e hinc hst =>
    rcases remove_cases s i inc rt id e with h | ⟨ho, -⟩
    · rw [h]
      exact ⟨ht, hi.unbound ht, by simp [setRuntime, setStage], rfl⟩
    · simp [StableBindingState.owned, ht] at ho
  | @publishSnapshot i inc rt v hl hinc hst hv =>
    have ho : (s.setRuntime i inc { rt with view := none }).channels.binding.owned i = false := by
      simp [setRuntime, setStage, StableBindingState.owned, ht]
    rw [publishSnapshot, ho]
    exact ⟨ht, hi.unbound ht, by simp [setRuntime, setStage], rfl⟩
  | @dropGuard i =>
    rw [dropGuard, hnames i]
    exact ⟨ht, hi.unbound ht, rfl, rfl⟩
  | terminalBinding => exact ⟨rfl, rfl, rfl, rfl⟩
  | _ => exact ⟨ht, hi.unbound ht, by simp [mint, setStage, reconcile, setRuntime, addChild], rfl⟩

theorem step_counters (hi : s.Inv d) (h : step d s a = some s') :
    s.channels.snapshot.totalRestarts ≤ s'.channels.snapshot.totalRestarts ∧
    s.channels.snapshot.lifecycleSeq ≤ s'.channels.snapshot.lifecycleSeq := by
  cases step_moves h with
  | @commit i inc rows prepared hinc hst =>
    unfold commit
    split
    · exact ⟨Nat.le_refl _, hi.seq⟩
    · exact ⟨Nat.le_refl _, Nat.le_refl _⟩
  | create hinc hst =>
    unfold create
    split <;> exact ⟨Nat.le_refl _, Nat.le_refl _⟩
  | @remove i inc rt id e hinc hst =>
    rcases remove_cases s i inc rt id e with h | ⟨-, nested, closed, h⟩ <;> rw [h] <;>
      exact ⟨Nat.le_refl _, Nat.le_refl _⟩
  | @publishSnapshot i inc rt v hl hinc hst hv =>
    unfold publishSnapshot
    split
    case isTrue ho =>
      split
      · simp only [StableBindingState.owned, Bool.and_eq_true] at ho
        obtain ⟨h1, h2, -⟩ := (hi.totals i inc rt hinc hst ho.2).view v hv
        exact ⟨h1, h2⟩
      · exact ⟨Nat.le_refl _, Nat.le_refl _⟩
    case isFalse => exact ⟨Nat.le_refl _, Nat.le_refl _⟩
  | dropGuard =>
    unfold dropGuard
    split <;> exact ⟨Nat.le_refl _, Nat.le_refl _⟩
  | _ => exact ⟨Nat.le_refl _, Nat.le_refl _⟩

theorem reach_inv (h : Reach (step d) (start d) s) : s.Inv d :=
  h.invariant start_inv fun _ _ _ hi hs => step_inv hi hs

/-- In every run the counters never decrease, `snapshots_tx` finds its sender and a
    terminal identity is never bound or published again; and every step that keeps the
    fence changes a shared structure only for the incarnation that holds the binding. -/
theorem identity_fenced (d : Declaration) (s : World) (a : Action) (s' : World)
    (hr : Reach (step d) (start d) s) (h : step d s a = some s') :
    (s.keepsFence a = true → Fenced s a s') ∧
    (s.channels.binding.terminal = true → Absorbed s s') ∧ s'.noSender = false ∧
    s.channels.snapshot.totalRestarts ≤ s'.channels.snapshot.totalRestarts ∧
    s.channels.snapshot.lifecycleSeq ≤ s'.channels.snapshot.lifecycleSeq := by
  have hi := reach_inv hr
  exact ⟨fun hk => step_fenced hi hk h, fun ht => step_absorbed hi ht h, (step_inv hi h).sender,
    step_counters hi h⟩

/-- A nested dynamic scope, with no static children. -/
def pool : Declaration where
  kind := .dynamic
  strategy := .oneForOne
  root := false
  children _ := []
  nodup _ := .nil

/-- The first incarnation's wrapper is dropped before its runtime exists; its replacement
    takes over and adds a nested child. -/
def takeover : List Action :=
  [.bind 0, .commit 0, .dropGuard 0, .bind 0, .commit 1, .readLineages 1, .reconcile 1, .create 1,
    .addChild 1 { id := "x", kind := .supervisor 7 }, .insertNested 1]

theorem identity_fenced_takeover : ∃ s s', replay (step pool) (start pool) takeover = some s ∧
    step pool s (.viewSnapshot 1) = some s' ∧ Fenced s (.viewSnapshot 1) s' := by
  have hs : replay (step pool) (start pool) takeover = some _ := rfl
  refine ⟨_, _, hs, rfl, ?_⟩
  exact (identity_fenced pool _ _ _ (Reach.of_replay hs) rfl).1 rfl

/-- The displaced incarnation's runtime starts late: its reconciliation removes and closes
    the nested identity that the current incarnation runs. -/
theorem displaced_reconciles : ∃ s s', Reach (step pool) (start pool) s ∧
    step pool s (.reconcile 0) = some s' ∧ ¬Fenced s (.reconcile 0) s' := by
  have hs : replay (step pool) (start pool) (takeover ++ [.readLineages 0]) = some _ := rfl
  refine ⟨_, _, Reach.of_replay hs, rfl, fun h => ?_⟩
  obtain ⟨i, hi, hh⟩ := h.nested (by decide)
  cases hi
  revert hh
  decide

end World

end Kokage.Identity

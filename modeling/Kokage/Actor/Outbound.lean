/-
  Kokage.Actor.Outbound — the watches an actor membership owns (`actor/monitor.rs`:
  `ActorMonitors`, `ActorMonitorLease`; `actor/binding.rs`: `BindingCore::bind` takes a
  lease, or reopens).

  A watch is live while its three tokens and its subject say so, and all four change
  outside the lock: whoever holds a token may cancel it, a forwarder signals that it has
  finished, and the last owner of a hub drops it. Each of these is a step of its own, and
  none of them is ever undone. A token is cancelled when it or its parent is: the stop
  token of a watch is a child of the lifetime of its epoch.

  `log` is ghost state: every watch that was ever installed, with its epoch. A lease is the
  epoch it was issued in, so a registration carries any epoch.
-/

import Kokage.Lib.Time

namespace Kokage.Actor.Outbound

/-- A hub, by its address: the weak pointer of a watch keeps it from being used again. -/
abbrev HubId := Nat

structure Token where
  id : Nat
  parent : Option Nat
  deriving DecidableEq, Repr

structure MembershipWatch where
  subject : HubId
  cancellation : Token
  stop : Token
  finished : Nat
  deriving DecidableEq, Repr

structure Installed where
  epoch : Nat
  watch : MembershipWatch
  deriving DecidableEq, Repr

structure St where
  epoch : Nat
  lifetime : Nat
  watches : List MembershipWatch
  /-- The next token that was never used. -/
  fresh : Nat
  cancelled : Nat → Bool
  signalled : Nat → Bool
  /-- The hubs that are still owned. -/
  owned : HubId → Bool
  log : List Installed

/-- The tokens of a watch, and whether the caller installs its forwarder. -/
structure Registration where
  cancellation : Token
  stop : Token
  finished : Nat
  installs : Bool
  deriving DecidableEq, Repr

def mark (f : Nat → Bool) (i : Nat) : Nat → Bool := fun j => if j = i then true else f j

namespace St

def new (owned : HubId → Bool) : St where
  epoch := 0
  lifetime := 0
  watches := []
  fresh := 1
  cancelled := fun _ => false
  signalled := fun _ => false
  owned := owned
  log := []

def isCancelled (s : St) (t : Token) : Bool := s.cancelled t.id || t.parent.any s.cancelled

/-- What `register` retains. -/
def isLive (s : St) (w : MembershipWatch) : Bool :=
  !s.isCancelled w.cancellation && !s.isCancelled w.stop && !s.signalled w.finished && s.owned w.subject

def register (s : St) (epoch : Nat) (subject : HubId) : Registration × St :=
  if s.epoch ≠ epoch then
    (⟨⟨s.fresh, none⟩, ⟨s.fresh + 1, none⟩, s.fresh + 2, false⟩,
      { s with fresh := s.fresh + 3, signalled := mark s.signalled (s.fresh + 2) })
  else
    let watches := s.watches.filter s.isLive
    match watches.find? (fun watch => s.owned watch.subject && decide (watch.subject = subject)) with
    | some watch => (⟨watch.cancellation, watch.stop, watch.finished, false⟩, { s with watches := watches })
    | none =>
      let watch : MembershipWatch := ⟨subject, ⟨s.fresh, none⟩, ⟨s.fresh + 1, some s.lifetime⟩, s.fresh + 2⟩
      (⟨watch.cancellation, watch.stop, watch.finished, true⟩,
        { s with fresh := s.fresh + 3, watches := watches ++ [watch], log := s.log ++ [⟨s.epoch, watch⟩] })

def terminate (s : St) : St := { s with cancelled := mark s.cancelled s.lifetime }

/-- `none` is the panic at the last epoch. -/
def reopen (s : St) : Option St :=
  (Kokage.Lib.Time.checkedAdd 64 s.epoch 1).map fun epoch =>
    { s with
      cancelled := mark s.cancelled s.lifetime
      epoch := epoch
      lifetime := s.fresh
      fresh := s.fresh + 1
      watches := [] }

end St

inductive Op where
  /-- Through a lease of this epoch, by a caller that owns the subject. -/
  | register (epoch : Nat) (subject : HubId)
  | cancel (token : Nat)
  | signal (finished : Nat)
  | drop (hub : HubId)
  | terminate
  | reopen

namespace St

def step (s : St) : Op → Option St
  | .register epoch subject => if s.owned subject then some (s.register epoch subject).2 else none
  | .cancel token => some { s with cancelled := mark s.cancelled token }
  | .signal finished => some { s with signalled := mark s.signalled finished }
  | .drop hub => some { s with owned := fun h => if h = hub then false else s.owned h }
  | .terminate => some s.terminate
  | .reopen => s.reopen

def run (owned : HubId → Bool) (ops : List Op) : Option St := ops.foldlM step (new owned)

end St

/-! ## What only grows -/

theorem mark_of_true {f : Nat → Bool} {i j : Nat} (h : f j = true) : mark f i j = true := by
  unfold mark
  split
  · rfl
  · exact h

theorem mark_self (f : Nat → Bool) (i : Nat) : mark f i i = true := if_pos rfl

namespace St

variable {s s' : St} {op : Op}

/-- What has ended stays so, what was issued stays issued, and what is new has new tokens. -/
structure Later (s s' : St) : Prop where
  epoch : s.epoch ≤ s'.epoch
  lifetime : s'.epoch = s.epoch → s'.lifetime = s.lifetime
  fresh : s.fresh ≤ s'.fresh
  cancelled : ∀ t, s.cancelled t = true → s'.cancelled t = true
  signalled : ∀ f, s.signalled f = true → s'.signalled f = true
  owned : ∀ h, s'.owned h = true → s.owned h = true
  log : ∀ x ∈ s.log, x ∈ s'.log
  added : ∀ x ∈ s'.log, x ∈ s.log ∨
    (s.fresh ≤ x.watch.cancellation.id ∧ s.fresh ≤ x.watch.stop.id ∧ s.fresh ≤ x.watch.finished)

theorem Later.refl : Later s s where
  epoch := Nat.le_refl _
  lifetime _ := rfl
  fresh := Nat.le_refl _
  cancelled _ h := h
  signalled _ h := h
  owned _ h := h
  log _ h := h
  added _ h := .inl h

theorem Later.trans {s'' : St} (h : Later s s') (h' : Later s' s'') : Later s s'' where
  epoch := Nat.le_trans h.epoch h'.epoch
  lifetime := by
    intro heq
    have hle := h.epoch
    have hle' := h'.epoch
    rw [h'.lifetime (by omega), h.lifetime (by omega)]
  fresh := Nat.le_trans h.fresh h'.fresh
  cancelled t ht := h'.cancelled t (h.cancelled t ht)
  signalled f hf := h'.signalled f (h.signalled f hf)
  owned hub hh := h.owned hub (h'.owned hub hh)
  log x hx := h'.log x (h.log x hx)
  added := by
    intro x hx
    have hle := h.fresh
    rcases h'.added x hx with hx | ⟨hc, hs, hf⟩
    · exact h.added x hx
    · exact .inr ⟨by omega, by omega, by omega⟩

theorem Later.isCancelled (h : Later s s') {t : Token} (ht : s.isCancelled t = true) : s'.isCancelled t = true := by
  unfold St.isCancelled at ht ⊢
  rcases Bool.or_eq_true_iff.mp ht with ht | ht
  · rw [h.cancelled _ ht, Bool.true_or]
  · obtain ⟨p, hp, hcancelled⟩ := (Option.any_eq_true _ _).mp ht
    rw [hp, Option.any_some, h.cancelled p hcancelled, Bool.or_true]

theorem isLive_iff {w : MembershipWatch} : s.isLive w = true ↔
    s.isCancelled w.cancellation = false ∧ s.isCancelled w.stop = false ∧ s.signalled w.finished = false ∧ s.owned w.subject = true := by
  simp only [isLive, Bool.and_eq_true, Bool.not_eq_true', and_assoc]

theorem Later.isLive (h : Later s s') {w : MembershipWatch} (hw : s'.isLive w = true) : s.isLive w = true := by
  obtain ⟨hc, hs, hf, ho⟩ := isLive_iff.mp hw
  refine isLive_iff.mpr ⟨?_, ?_, ?_, h.owned _ ho⟩
  · rw [Bool.eq_false_iff]
    intro ht
    rw [h.isCancelled ht] at hc
    cases hc
  · rw [Bool.eq_false_iff]
    intro ht
    rw [h.isCancelled ht] at hs
    cases hs
  · rw [Bool.eq_false_iff]
    intro ht
    rw [h.signalled _ ht] at hf
    cases hf

/-! ## One step -/

/-- A registration of another epoch changes nothing but its own tokens. -/
theorem register_stale {epoch : Nat} (h : s.epoch ≠ epoch) (subject : HubId) : s.register epoch subject =
    (⟨⟨s.fresh, none⟩, ⟨s.fresh + 1, none⟩, s.fresh + 2, false⟩,
      { s with fresh := s.fresh + 3, signalled := mark s.signalled (s.fresh + 2) }) := if_pos h

/-- The watch that a registration finds, or the one that it installs. -/
theorem register_current (s : St) (subject : HubId) :
    (∃ w ∈ s.watches, s.isLive w = true ∧ w.subject = subject ∧
      s.register s.epoch subject = (⟨w.cancellation, w.stop, w.finished, false⟩, { s with watches := s.watches.filter s.isLive })) ∨
    (∀ w ∈ s.watches, s.isLive w = true → w.subject ≠ subject) ∧
      s.register s.epoch subject =
        (⟨⟨s.fresh, none⟩, ⟨s.fresh + 1, some s.lifetime⟩, s.fresh + 2, true⟩,
          { s with
            fresh := s.fresh + 3
            watches := s.watches.filter s.isLive ++ [⟨subject, ⟨s.fresh, none⟩, ⟨s.fresh + 1, some s.lifetime⟩, s.fresh + 2⟩]
            log := s.log ++ [⟨s.epoch, ⟨subject, ⟨s.fresh, none⟩, ⟨s.fresh + 1, some s.lifetime⟩, s.fresh + 2⟩⟩] }) := by
  have hcurrent : ¬ s.epoch ≠ s.epoch := fun h => h rfl
  unfold register
  rw [if_neg hcurrent]
  cases hfind : (s.watches.filter s.isLive).find? (fun watch => s.owned watch.subject && decide (watch.subject = subject)) with
  | some w =>
    obtain ⟨hmem, hlive⟩ := List.mem_filter.mp (List.mem_of_find?_eq_some hfind)
    have hfound := List.find?_some hfind
    have hsubject := (Bool.and_eq_true_iff.mp hfound).2
    refine .inl ⟨w, hmem, hlive, of_decide_eq_true hsubject, ?_⟩
    simp only [hfind]
  | none =>
    refine .inr ⟨?_, ?_⟩
    · intro w hw hlive hsubject
      have hno := List.find?_eq_none.mp hfind w (List.mem_filter.mpr ⟨hw, hlive⟩)
      rw [(isLive_iff.mp hlive).2.2.2, hsubject] at hno
      simp at hno
    · simp only [hfind]

theorem register_later (s : St) (epoch : Nat) (subject : HubId) : Later s (s.register epoch subject).2 := by
  by_cases h : s.epoch = epoch
  · subst h
    rcases register_current s subject with ⟨w, -, -, -, heq⟩ | ⟨-, heq⟩
    · rw [heq]
      exact ⟨Nat.le_refl _, fun _ => rfl, Nat.le_refl _, fun _ h => h, fun _ h => h, fun _ h => h, fun _ h => h, fun _ h => .inl h⟩
    · rw [heq]
      refine ⟨Nat.le_refl _, fun _ => rfl, Nat.le_add_right .., fun _ h => h, fun _ h => h, fun _ h => h, fun _ h => List.mem_append_left _ h, ?_⟩
      intro x hx
      rcases List.mem_append.mp hx with hx | hx
      · exact .inl hx
      · rw [List.mem_singleton.mp hx]
        exact .inr ⟨Nat.le_refl _, Nat.le_add_right .., Nat.le_add_right ..⟩
  · rw [register_stale h]
    exact ⟨Nat.le_refl _, fun _ => rfl, Nat.le_add_right .., fun _ h => h, fun _ h => mark_of_true h, fun _ h => h, fun _ h => h,
      fun _ h => .inl h⟩

theorem step_register {epoch : Nat} {subject : HubId} (h : s.step (.register epoch subject) = some s') :
    s' = (s.register epoch subject).2 := by
  change (if s.owned subject then some (s.register epoch subject).2 else none) = some s' at h
  split at h
  · exact (Option.some.inj h).symm
  · cases h

theorem reopen_some (h : s.reopen = some s') : s' =
    { s with
      cancelled := mark s.cancelled s.lifetime
      epoch := s.epoch + 1
      lifetime := s.fresh
      fresh := s.fresh + 1
      watches := [] } := by
  obtain ⟨epoch, hepoch, rfl⟩ := Option.map_eq_some_iff.mp h
  unfold Kokage.Lib.Time.checkedAdd at hepoch
  split at hepoch
  · cases hepoch
    rfl
  · cases hepoch

theorem step_later (h : s.step op = some s') : Later s s' := by
  cases op with
  | register epoch subject =>
    rw [step_register h]
    exact register_later s epoch subject
  | cancel token =>
    cases h
    exact { Later.refl with cancelled := fun _ h => mark_of_true h }
  | signal finished =>
    cases h
    exact { Later.refl with signalled := fun _ h => mark_of_true h }
  | drop hub =>
    cases h
    refine { Later.refl with owned := ?_ }
    intro h hh
    simp only at hh
    split at hh
    · cases hh
    · exact hh
  | terminate =>
    cases h
    exact { Later.refl with cancelled := fun _ h => mark_of_true h }
  | reopen =>
    rw [reopen_some h]
    exact { Later.refl with
      epoch := Nat.le_succ _
      lifetime := fun heq => absurd heq (Nat.succ_ne_self _)
      fresh := Nat.le_succ _
      cancelled := fun _ h => mark_of_true h }

/-! ## The watches of a membership -/

structure Inv (s : St) : Prop where
  /-- A live watch is in the table. -/
  held : ∀ x ∈ s.log, s.isLive x.watch = true → x.watch ∈ s.watches
  single : ∀ w ∈ s.watches, ∀ w' ∈ s.watches, s.isLive w = true → s.isLive w' = true → w.subject = w'.subject → w = w'
  logged : ∀ w ∈ s.watches, ⟨s.epoch, w⟩ ∈ s.log
  epochs : ∀ x ∈ s.log, x.epoch ≤ s.epoch
  children : ∀ x ∈ s.log, x.epoch = s.epoch → x.watch.stop.parent = some s.lifetime
  past : ∀ x ∈ s.log, x.epoch ≠ s.epoch → s.isCancelled x.watch.stop = true
  issued : ∀ x ∈ s.log, x.watch.cancellation.id < s.fresh ∧ x.watch.stop.id < s.fresh ∧ x.watch.finished < s.fresh

theorem inv_new (owned : HubId → Bool) : (new owned).Inv :=
  ⟨nofun, nofun, nofun, nofun, nofun, nofun, nofun⟩

theorem Inv.fade (h : s.Inv) (hl : Later s s') (hepoch : s'.epoch = s.epoch) (hlog : s'.log = s.log)
    (hwatches : ∀ w, w ∈ s'.watches → w ∈ s.watches) (hheld : ∀ w ∈ s.watches, s'.isLive w = true → w ∈ s'.watches) : s'.Inv where
  held x hx hlive := hheld _ (h.held x (hlog ▸ hx) (hl.isLive hlive)) hlive
  single w hw w' hw' hlive hlive' hs := h.single w (hwatches w hw) w' (hwatches w' hw') (hl.isLive hlive) (hl.isLive hlive') hs
  logged w hw := by
    rw [hepoch, hlog]
    exact h.logged w (hwatches w hw)
  epochs x hx := by
    rw [hepoch]
    exact h.epochs x (hlog ▸ hx)
  children x hx he := by
    rw [hl.lifetime hepoch]
    exact h.children x (hlog ▸ hx) (he.trans hepoch)
  past x hx he := hl.isCancelled (h.past x (hlog ▸ hx) fun heq => he (heq.trans hepoch.symm))
  issued x hx := by
    obtain ⟨hc, hs, hf⟩ := h.issued x (hlog ▸ hx)
    have hle := hl.fresh
    exact ⟨by omega, by omega, by omega⟩

/-- No watch outlives the lifetime of its epoch. -/
theorem Inv.stopped (h : s.Inv) (hover : s.cancelled s.lifetime = true) {x : Installed} (hx : x ∈ s.log) :
    s.isCancelled x.watch.stop = true := by
  by_cases he : x.epoch = s.epoch
  · unfold isCancelled
    rw [h.children x hx he, Option.any_some, hover, Bool.or_true]
  · exact h.past x hx he

theorem Inv.install (h : s.Inv) {subject : HubId} (hno : ∀ w ∈ s.watches, s.isLive w = true → w.subject ≠ subject) :
    Inv { s with
      fresh := s.fresh + 3
      watches := s.watches.filter s.isLive ++ [⟨subject, ⟨s.fresh, none⟩, ⟨s.fresh + 1, some s.lifetime⟩, s.fresh + 2⟩]
      log := s.log ++ [⟨s.epoch, ⟨subject, ⟨s.fresh, none⟩, ⟨s.fresh + 1, some s.lifetime⟩, s.fresh + 2⟩⟩] } := by
  generalize hnew : (⟨subject, ⟨s.fresh, none⟩, ⟨s.fresh + 1, some s.lifetime⟩, s.fresh + 2⟩ : MembershipWatch) = new
  have hlog : ∀ x ∈ s.log ++ [⟨s.epoch, new⟩], x ∈ s.log ∨ x = ⟨s.epoch, new⟩ := by
    intro x hx
    rwa [List.mem_append, List.mem_singleton] at hx
  have hwatch : ∀ w ∈ s.watches.filter s.isLive ++ [new], (w ∈ s.watches ∧ s.isLive w = true) ∨ w = new := by
    intro w hw
    rwa [List.mem_append, List.mem_singleton, List.mem_filter] at hw
  have hsubject : new.subject = subject := by rw [← hnew]
  refine ⟨?_, ?_, ?_, ?_, ?_, ?_, ?_⟩
  · intro x hx hlive
    rcases hlog x hx with hx | rfl
    · exact List.mem_append_left _ (List.mem_filter.mpr ⟨h.held x hx hlive, hlive⟩)
    · exact List.mem_append_right _ List.mem_cons_self
  · intro w hw w' hw' hlive hlive' hs
    rcases hwatch w hw with ⟨hin, hl⟩ | heq
    · rcases hwatch w' hw' with ⟨hin', -⟩ | heq'
      · exact h.single w hin w' hin' hlive hlive' hs
      · rw [heq'] at hs
        exact absurd (hs.trans hsubject) (hno w hin hl)
    · rcases hwatch w' hw' with ⟨hin', hl⟩ | heq'
      · rw [heq] at hs
        exact absurd (hs.symm.trans hsubject) (hno w' hin' hl)
      · rw [heq, heq']
  · intro w hw
    rcases hwatch w hw with ⟨hw, -⟩ | rfl
    · exact List.mem_append_left _ (h.logged w hw)
    · exact List.mem_append_right _ List.mem_cons_self
  · intro x hx
    rcases hlog x hx with hx | rfl
    · exact h.epochs x hx
    · exact Nat.le_refl _
  · intro x hx he
    rcases hlog x hx with hx | rfl
    · exact h.children x hx he
    · rw [← hnew]
  · intro x hx he
    rcases hlog x hx with hx | rfl
    · exact h.past x hx he
    · exact absurd rfl he
  · intro x hx
    rcases hlog x hx with hx | rfl
    · obtain ⟨hc, hs, hf⟩ := h.issued x hx
      exact ⟨Nat.lt_add_right 3 hc, Nat.lt_add_right 3 hs, Nat.lt_add_right 3 hf⟩
    · rw [← hnew]
      exact ⟨Nat.lt_add_of_pos_right (by decide), Nat.add_lt_add_left (by decide) _, Nat.add_lt_add_left (by decide) _⟩

theorem Inv.register (h : s.Inv) (epoch : Nat) (subject : HubId) : (s.register epoch subject).2.Inv := by
  have hl := register_later s epoch subject
  by_cases he : s.epoch = epoch
  · subst he
    rcases register_current s subject with ⟨w, -, -, -, heq⟩ | ⟨hno, heq⟩
    · rw [heq] at hl ⊢
      refine h.fade hl rfl rfl (fun w hw => (List.mem_filter.mp hw).1) ?_
      intro w hw hlive
      exact List.mem_filter.mpr ⟨hw, hl.isLive hlive⟩
    · rw [heq]
      exact h.install hno
  · rw [register_stale he] at hl ⊢
    exact h.fade hl rfl rfl (fun _ hw => hw) fun _ hw _ => hw

theorem Inv.terminate (h : s.Inv) : s.terminate.Inv := by
  have hl : s.step .terminate = some s.terminate := rfl
  exact h.fade (step_later hl) rfl rfl (fun _ hw => hw) fun _ hw _ => hw

theorem Inv.reopen (h : s.Inv) (hr : s.reopen = some s') : s'.Inv ∧ s'.watches = [] ∧
    ∀ x ∈ s'.log, s'.isCancelled x.watch.stop = true := by
  have hover : s.terminate.Inv := h.terminate
  rw [reopen_some hr]
  have hstopped : ∀ x ∈ s.log, s.terminate.isCancelled x.watch.stop = true :=
    fun x hx => hover.stopped (mark_self _ _) hx
  refine ⟨⟨?_, nofun, nofun, ?_, ?_, ?_, ?_⟩, rfl, hstopped⟩
  · intro x hx hlive
    exact absurd ((hstopped x hx).symm.trans (isLive_iff.mp hlive).2.1) nofun
  · intro x hx
    exact Nat.le_succ_of_le (h.epochs x hx)
  · intro x hx he
    have hle := h.epochs x hx
    change x.epoch = s.epoch + 1 at he
    omega
  · intro x hx _
    exact hstopped x hx
  · intro x hx
    obtain ⟨hc, hs, hf⟩ := h.issued x hx
    exact ⟨Nat.lt_succ_of_lt hc, Nat.lt_succ_of_lt hs, Nat.lt_succ_of_lt hf⟩

theorem Inv.step (h : s.Inv) (hs : s.step op = some s') : s'.Inv := by
  have hl := step_later hs
  cases op with
  | register epoch subject =>
    rw [step_register hs]
    exact h.register epoch subject
  | cancel token =>
    cases hs
    exact h.fade hl rfl rfl (fun _ hw => hw) fun _ hw _ => hw
  | signal finished =>
    cases hs
    exact h.fade hl rfl rfl (fun _ hw => hw) fun _ hw _ => hw
  | drop hub =>
    cases hs
    exact h.fade hl rfl rfl (fun _ hw => hw) fun _ hw _ => hw
  | terminate =>
    cases hs
    exact h.terminate
  | reopen => exact (h.reopen hs).1

/-! ## Every run -/

theorem run_later {ops : List Op} (h : ops.foldlM step s = some s') : Later s s' := by
  induction ops generalizing s with
  | nil =>
    cases h
    exact .refl
  | cons op ops ih =>
    obtain ⟨s₁, hstep, hrest⟩ := Option.bind_eq_some_iff.mp h
    exact (step_later hstep).trans (ih hrest)

theorem Inv.run {ops : List Op} (h : s.Inv) (hr : ops.foldlM St.step s = some s') : s'.Inv := by
  induction ops generalizing s with
  | nil =>
    cases hr
    exact h
  | cons op ops ih =>
    obtain ⟨s₁, hstep, hrest⟩ := Option.bind_eq_some_iff.mp hr
    exact ih (h.step hstep) hrest

theorem run_split {owned : HubId → Bool} {before after : List Op} (hrun : run owned (before ++ op :: after) = some s') :
    ∃ s₁ s₂, run owned before = some s₁ ∧ s₁.step op = some s₂ ∧ after.foldlM step s₂ = some s' := by
  unfold run at hrun ⊢
  rw [List.foldlM_append] at hrun
  obtain ⟨s₁, hbefore, hrest⟩ := Option.bind_eq_some_iff.mp hrun
  obtain ⟨s₂, hstep, hafter⟩ := Option.bind_eq_some_iff.mp hrest
  exact ⟨s₁, s₂, hbefore, hstep, hafter⟩

theorem Inv.live_unique (h : s.Inv) {x y : Installed} (hx : x ∈ s.log) (hy : y ∈ s.log) (hlx : s.isLive x.watch = true)
    (hly : s.isLive y.watch = true) (hs : x.watch.subject = y.watch.subject) : x = y := by
  have hwatch := h.single _ (h.held x hx hlx) _ (h.held y hy hly) hlx hly hs
  have hcurrent : ∀ z ∈ s.log, s.isLive z.watch = true → z.epoch = s.epoch := by
    intro z hz hl
    by_contra hne
    exact absurd ((h.past z hz hne).symm.trans (isLive_iff.mp hl).2.1) nofun
  cases x with
  | mk epoch watch =>
    cases y with
    | mk epoch' watch' =>
      have hepoch : epoch = epoch' := (hcurrent _ hx hlx).trans (hcurrent _ hy hly).symm
      rw [hepoch, show watch = watch' from hwatch]

end St

/-- A registration in the epoch of its lease: it joins the live watch on the subject, and
    installs one where there is none. -/
structure Registers (s : St) (subject : HubId) (r : Registration) (s' : St) : Prop where
  joins : ∀ x ∈ s.log, s.isLive x.watch = true → x.watch.subject = subject →
    r = ⟨x.watch.cancellation, x.watch.stop, x.watch.finished, false⟩ ∧ s'.log = s.log
  installs : (∀ x ∈ s.log, s.isLive x.watch = true → x.watch.subject ≠ subject) →
    r.installs = true ∧ s'.log = s.log ++ [⟨s.epoch, ⟨subject, r.cancellation, r.stop, r.finished⟩⟩]

theorem St.Inv.registers {s : St} (h : s.Inv) (subject : HubId) :
    Registers s subject (s.register s.epoch subject).1 (s.register s.epoch subject).2 := by
  rcases St.register_current s subject with ⟨w, hw, hlive, hsubject, heq⟩ | ⟨hno, heq⟩
  · rw [heq]
    constructor
    · intro x hx hl hs
      have hsame := h.single w hw _ (h.held x hx hl) hlive hl (hsubject.trans hs.symm)
      rw [hsame]
      exact ⟨rfl, rfl⟩
    · intro hnone
      exact absurd hsubject (hnone _ (h.logged w hw) hlive)
  · rw [heq]
    constructor
    · intro x hx hl hs
      exact absurd hs (hno _ (h.held x hx hl) hl)
    · intro _
      exact ⟨rfl, rfl⟩

/-- In every run: a subject has at most one live watch; a registration in the current epoch
    joins that watch or installs the only one; one through the lease of another epoch
    installs nothing and shares no token with any watch the run ever installs; once an epoch
    is terminated every watch of it is stopped, also those registered afterwards; and a
    reopened membership starts without a watch. -/
theorem outbound_watches {owned : HubId → Bool} {ops : List Op} {s : St} (hrun : St.run owned ops = some s) :
    (∀ x ∈ s.log, ∀ y ∈ s.log, s.isLive x.watch = true → s.isLive y.watch = true → x.watch.subject = y.watch.subject → x = y) ∧
    (∀ subject, Registers s subject (s.register s.epoch subject).1 (s.register s.epoch subject).2) ∧
    (∀ before after epoch subject, ops = before ++ .register epoch subject :: after →
      ∃ s₁, St.run owned before = some s₁ ∧ (epoch ≠ s₁.epoch →
        (s₁.register epoch subject).1.installs = false ∧ (s₁.register epoch subject).2.log = s₁.log ∧
        ∀ x ∈ s.log, (s₁.register epoch subject).1.cancellation ≠ x.watch.cancellation ∧
          (s₁.register epoch subject).1.stop ≠ x.watch.stop ∧ (s₁.register epoch subject).1.finished ≠ x.watch.finished)) ∧
    (∀ before after, ops = before ++ .terminate :: after →
      ∃ s₁, St.run owned before = some s₁ ∧ ∀ x ∈ s.log, x.epoch = s₁.epoch → s.isCancelled x.watch.stop = true) ∧
    (∀ before after, ops = before ++ .reopen :: after →
      ∃ s₁ s₂, St.run owned before = some s₁ ∧ s₁.step .reopen = some s₂ ∧ s₂.watches = [] ∧
        ∀ x ∈ s₂.log, s₂.isLive x.watch = false) := by
  have h := (St.inv_new owned).run hrun
  refine ⟨fun x hx y hy => h.live_unique hx hy, h.registers, ?_, ?_, ?_⟩
  · rintro before after epoch subject rfl
    obtain ⟨s₁, s₂, hbefore, hstep, hafter⟩ := St.run_split hrun
    refine ⟨s₁, hbefore, ?_⟩
    intro hne
    have h₁ := (St.inv_new owned).run hbefore
    have hl := St.run_later hafter
    rw [St.step_register hstep] at hl
    rw [St.register_stale (Ne.symm hne)] at hl ⊢
    refine ⟨rfl, rfl, ?_⟩
    intro x hx
    -- the log holds older tokens and later ones
    have hids : x.watch.cancellation.id ≠ s₁.fresh ∧ x.watch.stop.id ≠ s₁.fresh + 1 ∧ x.watch.finished ≠ s₁.fresh + 2 := by
      rcases hl.added x hx with hold | ⟨hc, hs, hf⟩
      · obtain ⟨hc, hs, hf⟩ := h₁.issued x hold
        exact ⟨by omega, by omega, by omega⟩
      · simp only at hc hs hf
        exact ⟨by omega, by omega, by omega⟩
    exact ⟨fun heq => hids.1 (congrArg Token.id heq).symm, fun heq => hids.2.1 (congrArg Token.id heq).symm, fun heq => hids.2.2 heq.symm⟩
  · rintro before after rfl
    obtain ⟨s₁, s₂, hbefore, hstep, hafter⟩ := St.run_split hrun
    refine ⟨s₁, hbefore, ?_⟩
    intro x hx he
    have hl := St.run_later hafter
    cases hstep
    by_cases hepoch : s.epoch = s₁.epoch
    · have hover : s.cancelled s.lifetime = true := by
        rw [hl.lifetime hepoch]
        exact hl.cancelled _ (mark_self _ _)
      exact h.stopped hover hx
    · exact h.past x hx fun heq => hepoch (heq.symm.trans he)
  · rintro before after rfl
    obtain ⟨s₁, s₂, hbefore, hstep, -⟩ := St.run_split hrun
    obtain ⟨-, hnone, hstopped⟩ := ((St.inv_new owned).run hbefore).reopen hstep
    refine ⟨s₁, s₂, hbefore, hstep, hnone, ?_⟩
    intro x hx
    rw [Bool.eq_false_iff]
    intro hlive
    exact absurd ((hstopped x hx).symm.trans (St.isLive_iff.mp hlive).2.1) nofun

/-- Two registrations of one subject, one after the end of the epoch, one through its lease
    after it was reopened, and one of the new epoch. -/
def twoEpochs : List Op := [.register 0 7, .register 0 7, .terminate, .register 0 8, .reopen, .register 0 7, .register 1 7]

/-- Three watches were installed, and those of the first epoch are stopped. -/
theorem outbound_watches_reopened : ∃ s, St.run (fun _ => true) twoEpochs = some s ∧ s.epoch = 1 ∧
    s.log.map (fun x => (x.epoch, x.watch.subject)) = [(0, 7), (0, 8), (1, 7)] ∧
    ∀ x ∈ s.log, x.epoch = 0 → s.isCancelled x.watch.stop = true := by
  refine ⟨_, rfl, rfl, rfl, ?_⟩
  obtain ⟨-, -, -, hterminated, -⟩ := outbound_watches (show St.run (fun _ => true) twoEpochs = some _ from rfl)
  obtain ⟨s₁, hs₁, hstopped⟩ := hterminated [.register 0 7, .register 0 7] [.register 0 8, .reopen, .register 0 7, .register 1 7] rfl
  cases hs₁
  exact hstopped

end Kokage.Actor.Outbound

/-
  Kokage.Supervisor.Desk — removals, and who has been told about them.

  A `Desk` is what a removal passes through: the command queue, the reply parked in the
  child's entry, the replies sent, and what must be true before one says that the child is
  gone: the memberships, the task records, the snapshot last published, the removals in
  the event log and the identities retired. `Attends D D'` is what any handler may do to
  it: every reply token stays accounted for, a reply is sent only for a removal that was
  asked for or parked, and `Ok` only for a child that is gone for good (`Finalized`).
-/

import Kokage.Supervisor.Runs

namespace Kokage.Supervisor

open Kokage.Lib

/-! ## State -/

structure Slot where
  id : String
  lineage : Nat
  /-- The identity retired with a nested supervisor's membership. -/
  identity : Option Nat
  membership : MembershipState
  pending : Option PendingRemoval

/-- A reply to a removal, with what could be seen when it was sent. -/
abbrev Reply := Nat × Except ControlError Unit × Option Seen

structure Desk where
  slots : Slab Slot
  nextLineage : Nat
  records : TaskId → Option TaskMeta
  commands : List SupervisorCommand
  /-- The lineages in the snapshot last published. -/
  shown : List Nat
  /-- The removals told in the event log. -/
  removed : List (String × Nat)
  retired : List (String × Nat)
  replies : List Reply

def SupervisorCommand.asks (reply : Nat) : SupervisorCommand → Bool
  | .removeChild _ _ r => decide (r = reply)
  | .addChild _ _ _ | .addNested _ _ _ => false

/-- The command adds a child with this id and this nested identity. -/
def SupervisorCommand.seats (id : String) (identity : Option Nat) : SupervisorCommand → Prop
  | .addChild child _ _ => child.id = id ∧ identity = none
  | .addNested child _ _ => child.id = id ∧ ∃ i, child.kind = .supervisor i ∧ identity = some i
  | .removeChild _ _ _ => False

def Slot.holds (reply : Nat) (s : Slot) : Bool := s.pending.any fun p => decide (p.reply = reply)

def Notice.reply : Notice → Option Reply
  | .removeReply r x seen => some (r, x, seen)
  | _ => none

/-- The removal of a membership could be seen to be complete. -/
structure Seen.Completes (seen : Seen) (id : String) (lineage : Nat) (identity : Option Nat) : Prop where
  joined : lineage ∉ seen.unjoined
  hidden : lineage ∉ seen.shown
  told : (id, lineage) ∈ seen.removed
  retired : ∀ i, identity = some i → (id, i) ∈ seen.retired

namespace Desk

variable {D D' D'' : Desk} {key : ChildKey} {s s' : Slot}

/-- How often a reply token is in the queue, in an entry, and among the replies sent. -/
def tokens (D : Desk) (reply : Nat) : Nat :=
  D.commands.countP (SupervisorCommand.asks reply) + D.slots.count (Slot.holds reply) +
    D.replies.countP fun x => decide (x.1 = reply)

/-- The removal of this membership was asked for or is parked under `reply`. -/
def Targets (D : Desk) (reply : Nat) (id : String) (lineage : Nat) : Prop :=
  (∃ key s p, D.slots.get key = some s ∧ s.pending = some p ∧ p.reply = reply ∧ s.id = id ∧ s.lineage = lineage) ∨
    ∃ expected, .removeChild id expected reply ∈ D.commands ∧ ∀ l, expected = some l → l = lineage

/-- The membership is there, or is yet to be minted. -/
def Knows (D : Desk) (lineage : Nat) : Prop :=
  D.nextLineage ≤ lineage ∨ ∃ key s, D.slots.get key = some s ∧ s.lineage = lineage

/-- The same, and it may be spawned. -/
def MaySpawn (D : Desk) (lineage : Nat) : Prop :=
  D.nextLineage ≤ lineage ∨ ∃ key s, D.slots.get key = some s ∧ s.lineage = lineage ∧ s.membership = .active

/-- Who the membership is: a child that is there, or one that a command in the queue adds. -/
def Names (D : Desk) (id : String) (lineage : Nat) (identity : Option Nat) : Prop :=
  (∃ key s, D.slots.get key = some s ∧ s.id = id ∧ s.lineage = lineage ∧ s.identity = identity) ∨
    D.nextLineage ≤ lineage ∧ ∃ c ∈ D.commands, c.seats id identity

/-- The removal of a membership is complete. -/
structure Finalized (D : Desk) (id : String) (lineage : Nat) (identity : Option Nat) : Prop where
  gone : ¬ D.Knows lineage
  joined : ∀ task t, D.records task = some t → t.lineage ≠ lineage
  hidden : lineage ∉ D.shown
  told : (id, lineage) ∈ D.removed
  retired : ∀ i, identity = some i → (id, i) ∈ D.retired

/-- Lineages name memberships. -/
structure Sound (D : Desk) : Prop where
  lineage_lt : ∀ key s, D.slots.get key = some s → s.lineage < D.nextLineage
  lineage_inj : ∀ key s key' s', D.slots.get key = some s → D.slots.get key' = some s' → s.lineage = s'.lineage → key = key'

/-- A child is being removed exactly while its reply is parked. -/
def Tidy (D : Desk) : Prop := ∀ key s, D.slots.get key = some s → (s.membership = .removing ↔ s.pending.isSome = true)

structure Attends (D D' : Desk) : Prop where
  sound : D.Sound → D'.Sound
  tidy : D.Tidy → D'.Tidy
  tokens_eq : ∀ reply, D'.tokens reply = D.tokens reply
  commands : ∃ taken, D.commands = taken ++ D'.commands
  lineage_le : D.nextLineage ≤ D'.nextLineage
  slots : ∀ key s', D'.slots.get key = some s' → (D.nextLineage ≤ s'.lineage ∧ ∃ c ∈ D.commands, c.seats s'.id s'.identity) ∨
    ∃ s, D.slots.get key = some s ∧ s.id = s'.id ∧ s.lineage = s'.lineage ∧ s.identity = s'.identity ∧
      (s'.membership = .active → s.membership = .active)
  parked : ∀ key s' p, D'.slots.get key = some s' → s'.pending = some p → D.Targets p.reply s'.id s'.lineage
  records : ∀ task t, D'.records task = some t → D.records task = some t ∨ D.MaySpawn t.lineage
  shown : ∀ l ∈ D'.shown, l ∈ D.shown ∨ D.Knows l
  removed : ∀ x ∈ D.removed, x ∈ D'.removed
  retired : ∀ x ∈ D.retired, x ∈ D'.retired
  replies : ∃ new, D'.replies = D.replies ++ new ∧ ∀ r x seen, (r, x, seen) ∈ new → x ≠ .error .unavailable ∧
    (x = .ok () → ∃ id lineage identity, D.Targets r id lineage ∧ D.Names id lineage identity ∧
      (∃ s, seen = some s ∧ s.Completes id lineage identity) ∧ D'.Finalized id lineage identity)

/-- The same, with no command taken. -/
structure Calm (D D' : Desk) : Prop extends Attends D D' where
  commands_eq : D'.commands = D.commands
  pending : ∀ key s', D'.slots.get key = some s' → s'.pending.isSome = true →
    ∃ s, D.slots.get key = some s ∧ s.lineage = s'.lineage ∧ s.pending.isSome = true

/-! ## The preorder of handlers -/

theorem Targets.of_slot {p : PendingRemoval} (h : D.slots.get key = some s) (hp : s.pending = some p) :
    D.Targets p.reply s.id s.lineage := .inl ⟨key, s, p, h, hp, rfl, rfl, rfl⟩

theorem Attends.refl (D : Desk) : Attends D D where
  sound := id
  tidy := id
  tokens_eq _ := rfl
  commands := ⟨[], rfl⟩
  lineage_le := Nat.le_refl _
  slots key s' h := .inr ⟨s', h, rfl, rfl, rfl, id⟩
  parked _ _ _ h hp := .of_slot h hp
  records _ _ h := .inl h
  shown _ h := .inl h
  removed _ h := h
  retired _ h := h
  replies := ⟨[], by simp, nofun⟩

theorem Attends.of_eq (h : D' = D) : Attends D D' := h ▸ .refl D

theorem Attends.mem_commands (h : Attends D D') {c : SupervisorCommand} (hc : c ∈ D'.commands) : c ∈ D.commands := by
  obtain ⟨taken, heq⟩ := h.commands
  rw [heq]
  exact List.mem_append_right _ hc

theorem Attends.targets (h : Attends D D') {r : Nat} {id : String} {lineage : Nat} (ht : D'.Targets r id lineage) :
    D.Targets r id lineage := by
  rcases ht with ⟨key, s, p, hs, hp, rfl, rfl, rfl⟩ | ⟨expected, hc, hl⟩
  · exact h.parked key s p hs hp
  · exact .inr ⟨expected, h.mem_commands hc, hl⟩

theorem Attends.knows (h : Attends D D') {lineage : Nat} (hk : D'.Knows lineage) : D.Knows lineage := by
  rcases hk with hk | ⟨key, s, hs, rfl⟩
  · exact .inl (Nat.le_trans h.lineage_le hk)
  · rcases h.slots key s hs with ⟨hn, -⟩ | ⟨s₀, hs₀, -, hl, -⟩
    · exact .inl hn
    · exact .inr ⟨key, s₀, hs₀, hl⟩

theorem Attends.maySpawn (h : Attends D D') {lineage : Nat} (hk : D'.MaySpawn lineage) : D.MaySpawn lineage := by
  rcases hk with hk | ⟨key, s, hs, rfl, hm⟩
  · exact .inl (Nat.le_trans h.lineage_le hk)
  · rcases h.slots key s hs with ⟨hn, -⟩ | ⟨s₀, hs₀, -, hl, -, hact⟩
    · exact .inl hn
    · exact .inr ⟨key, s₀, hs₀, hl, hact hm⟩

theorem MaySpawn.knows {lineage : Nat} (h : D.MaySpawn lineage) : D.Knows lineage := by
  rcases h with h | ⟨key, s, hs, hl, -⟩
  · exact .inl h
  · exact .inr ⟨key, s, hs, hl⟩

/-- What is gone stays gone. -/
theorem Attends.finalized (h : Attends D D') {id : String} {lineage : Nat} {identity : Option Nat}
    (hf : D.Finalized id lineage identity) : D'.Finalized id lineage identity where
  gone hk := hf.gone (h.knows hk)
  joined task t ht he := by
    rcases h.records task t ht with ht | hm
    · exact hf.joined task t ht he
    · exact hf.gone (he ▸ hm.knows)
  hidden hl := by
    rcases h.shown _ hl with hl | hk
    · exact hf.hidden hl
    · exact hf.gone hk
  told := h.removed _ hf.told
  retired i hi := h.retired _ (hf.retired i hi)

theorem Attends.names (h : Attends D D') {id : String} {lineage : Nat} {identity : Option Nat}
    (hn : D'.Names id lineage identity) : D.Names id lineage identity := by
  rcases hn with ⟨key, s, hs, rfl, rfl, rfl⟩ | ⟨hl, c, hc, hseat⟩
  · rcases h.slots key s hs with hnew | ⟨s₀, hs₀, hid, hl, hi, -⟩
    · exact .inr hnew
    · exact .inl ⟨key, s₀, hs₀, hid, hl, hi⟩
  · exact .inr ⟨Nat.le_trans h.lineage_le hl, c, h.mem_commands hc, hseat⟩

theorem Attends.trans (h : Attends D D') (h' : Attends D' D'') : Attends D D'' where
  sound hs := h'.sound (h.sound hs)
  tidy ht := h'.tidy (h.tidy ht)
  tokens_eq r := (h'.tokens_eq r).trans (h.tokens_eq r)
  commands := by
    obtain ⟨taken, hc⟩ := h.commands
    obtain ⟨taken', hc'⟩ := h'.commands
    exact ⟨taken ++ taken', by rw [hc, hc', List.append_assoc]⟩
  lineage_le := Nat.le_trans h.lineage_le h'.lineage_le
  slots key s hs := by
    rcases h'.slots key s hs with ⟨hn, c, hc, hseat⟩ | ⟨s₁, hs₁, hid, hl, hi, hm⟩
    · exact .inl ⟨Nat.le_trans h.lineage_le hn, c, h.mem_commands hc, hseat⟩
    · rcases h.slots key s₁ hs₁ with ⟨hn, c, hc, hseat⟩ | ⟨s₀, hs₀, hid₀, hl₀, hi₀, hm₀⟩
      · exact .inl ⟨hl ▸ hn, c, hc, hid ▸ hi ▸ hseat⟩
      · exact .inr ⟨s₀, hs₀, hid₀.trans hid, hl₀.trans hl, hi₀.trans hi, fun ha => hm₀ (hm ha)⟩
  parked key s p hs hp := h.targets (h'.parked key s p hs hp)
  records task t ht := by
    rcases h'.records task t ht with ht | hm
    · exact h.records task t ht
    · exact .inr (h.maySpawn hm)
  shown l hl := by
    rcases h'.shown l hl with hl | hk
    · exact h.shown l hl
    · exact .inr (h.knows hk)
  removed x hx := h'.removed x (h.removed x hx)
  retired x hx := h'.retired x (h.retired x hx)
  replies := by
    obtain ⟨new, hr, hnew⟩ := h.replies
    obtain ⟨new', hr', hnew'⟩ := h'.replies
    refine ⟨new ++ new', by rw [hr', hr, List.append_assoc], fun r x seen hx => ?_⟩
    rcases List.mem_append.mp hx with hx | hx
    · obtain ⟨hu, hok⟩ := hnew r x seen hx
      refine ⟨hu, fun he => ?_⟩
      obtain ⟨id, lineage, identity, ht, hn, hs, hf⟩ := hok he
      exact ⟨id, lineage, identity, ht, hn, hs, h'.finalized hf⟩
    · obtain ⟨hu, hok⟩ := hnew' r x seen hx
      refine ⟨hu, fun he => ?_⟩
      obtain ⟨id, lineage, identity, ht, hn, hs, hf⟩ := hok he
      exact ⟨id, lineage, identity, h.targets ht, h.names hn, hs, hf⟩

theorem Calm.refl (D : Desk) : Calm D D where
  toAttends := .refl D
  commands_eq := rfl
  pending _ s h hp := ⟨s, h, rfl, hp⟩

theorem Calm.of_eq (h : D' = D) : Calm D D' := h ▸ .refl D

theorem Calm.trans (h : Calm D D') (h' : Calm D' D'') : Calm D D'' where
  toAttends := h.toAttends.trans h'.toAttends
  commands_eq := h'.commands_eq.trans h.commands_eq
  pending key s hs hp := by
    obtain ⟨s₁, hs₁, hl₁, hp₁⟩ := h'.pending key s hs hp
    obtain ⟨s₀, hs₀, hl₀, hp₀⟩ := h.pending key s₁ hs₁ hp₁
    exact ⟨s₀, hs₀, hl₀.trans hl₁, hp₀⟩

/-! ## What handlers are made of -/

/-- The queue, the slots and the replies stand. -/
theorem Attends.still (hslots : ∀ k, D'.slots.get k = D.slots.get k) (hn : D'.nextLineage = D.nextLineage)
    (hc : D'.commands = D.commands) (hr : D'.replies = D.replies)
    (hrec : ∀ task t, D'.records task = some t → D.records task = some t ∨ D.MaySpawn t.lineage)
    (hshown : ∀ l ∈ D'.shown, l ∈ D.shown ∨ D.Knows l) (hrem : ∀ x ∈ D.removed, x ∈ D'.removed)
    (hret : ∀ x ∈ D.retired, x ∈ D'.retired) : Attends D D' where
  sound h := by
    refine ⟨fun key s hs => ?_, fun key s key' s' hs hs' => ?_⟩
    · rw [hslots] at hs
      rw [hn]
      exact h.lineage_lt key s hs
    · rw [hslots] at hs hs'
      exact h.lineage_inj key s key' s' hs hs'
  tidy h key s hs := by
    rw [hslots] at hs
    exact h key s hs
  tokens_eq r := by
    unfold tokens
    rw [hc, hr, Slab.count_congr (s := D.slots) (t := D'.slots) fun k => by rw [hslots]]
  commands := ⟨[], by rw [hc, List.nil_append]⟩
  lineage_le := Nat.le_of_eq hn.symm
  slots key s' hs := by
    rw [hslots] at hs
    exact .inr ⟨s', hs, rfl, rfl, rfl, id⟩
  parked key s' p hs hp := by
    rw [hslots] at hs
    exact .of_slot hs hp
  records := hrec
  shown := hshown
  removed := hrem
  retired := hret
  replies := ⟨[], by rw [hr, List.append_nil], nofun⟩

theorem Calm.still (hslots : ∀ k, D'.slots.get k = D.slots.get k) (hn : D'.nextLineage = D.nextLineage)
    (hc : D'.commands = D.commands) (hr : D'.replies = D.replies)
    (hrec : ∀ task t, D'.records task = some t → D.records task = some t ∨ D.MaySpawn t.lineage)
    (hshown : ∀ l ∈ D'.shown, l ∈ D.shown ∨ D.Knows l) (hrem : ∀ x ∈ D.removed, x ∈ D'.removed)
    (hret : ∀ x ∈ D.retired, x ∈ D'.retired) : Calm D D' where
  toAttends := .still hslots hn hc hr hrec hshown hrem hret
  commands_eq := hc
  pending k s hs hp := by
    rw [hslots] at hs
    exact ⟨s, hs, rfl, hp⟩

theorem count_insertAt (r : Nat) (s' : Slot) (hget : D.slots.get key = some s) :
    (D.slots.insertAt key s').count (Slot.holds r) + (s.holds r).toNat =
      D.slots.count (Slot.holds r) + (s'.holds r).toNat := by
  have := Slab.count_point (s := D.slots) (t := D.slots.insertAt key s') (Slot.holds r) key
    fun j hj => Slab.get_insertAt_ne _ _ hj
  rw [Slab.get_insertAt_self, hget] at this
  exact this

/-- One membership changes, and its removal may be taken from the queue. -/
theorem Attends.put (taken : List SupervisorCommand) {rest : List SupervisorCommand} (hget : D.slots.get key = some s) (hid : s'.id = s.id)
    (hl : s'.lineage = s.lineage) (hi : s'.identity = s.identity) (hm : s'.membership = .active → s.membership = .active)
    (htidy : (s.membership = .removing ↔ s.pending.isSome = true) → (s'.membership = .removing ↔ s'.pending.isSome = true))
    (hc : D.commands = taken ++ rest)
    (htok : ∀ r, taken.countP (SupervisorCommand.asks r) + (s.holds r).toNat = (s'.holds r).toNat)
    (hpark : ∀ p, s'.pending = some p → D.Targets p.reply s.id s.lineage) :
    Attends D { D with slots := D.slots.insertAt key s', commands := rest } := by
  have hold : ∀ k x, (D.slots.insertAt key s').get k = some x → k = key ∧ x = s' ∨ k ≠ key ∧ D.slots.get k = some x := by
    intro k x hx
    rw [Slab.get_insertAt] at hx
    by_cases hk : k = key
    · rw [if_pos hk] at hx
      cases hx
      exact .inl ⟨hk, rfl⟩
    · rw [if_neg hk] at hx
      exact .inr ⟨hk, hx⟩
  -- every lineage stands where it stood
  have hlin : ∀ k x, (D.slots.insertAt key s').get k = some x → ∃ x₀, D.slots.get k = some x₀ ∧ x₀.lineage = x.lineage := by
    intro k x hx
    obtain ⟨rfl, rfl⟩ | ⟨-, hx⟩ := hold k x hx
    · exact ⟨s, hget, hl.symm⟩
    · exact ⟨x, hx, rfl⟩
  constructor
  case sound =>
    intro h
    refine ⟨fun k x hx => ?_, fun k x k' x' hx hx' he => ?_⟩
    · obtain ⟨x₀, hx₀, heq⟩ := hlin k x hx
      rw [← heq]
      exact h.lineage_lt k x₀ hx₀
    · obtain ⟨x₀, hx₀, heq⟩ := hlin k x hx
      obtain ⟨x₁, hx₁, heq'⟩ := hlin k' x' hx'
      exact h.lineage_inj k x₀ k' x₁ hx₀ hx₁ (heq.trans (he.trans heq'.symm))
  case tidy =>
    intro h k x hx
    obtain ⟨rfl, rfl⟩ | ⟨-, hx⟩ := hold k x hx
    · exact htidy (h k s hget)
    · exact h k x hx
  case tokens_eq =>
    intro r
    have hcount := count_insertAt r s' hget
    have := htok r
    unfold tokens
    rw [hc, List.countP_append]
    simp only
    omega
  case commands => exact ⟨taken, hc⟩
  case lineage_le => exact Nat.le_refl _
  case slots =>
    intro k x hx
    obtain ⟨rfl, rfl⟩ | ⟨-, hx⟩ := hold k x hx
    · exact .inr ⟨s, hget, hid.symm, hl.symm, hi.symm, hm⟩
    · exact .inr ⟨x, hx, rfl, rfl, rfl, id⟩
  case parked =>
    intro k x p hx hp
    obtain ⟨rfl, rfl⟩ | ⟨-, hx⟩ := hold k x hx
    · rw [hid, hl]
      exact hpark p hp
    · exact .of_slot hx hp
  case records => exact fun _ _ h => .inl h
  case shown => exact fun _ h => .inl h
  case removed => exact fun _ h => h
  case retired => exact fun _ h => h
  case replies => exact ⟨[], by simp, nofun⟩

/-- A command that asks for no removal, or one that is refused, is taken. -/
theorem Attends.take {c : SupervisorCommand} {rest : List SupervisorCommand} (new : List Reply)
    (hc : D.commands = c :: rest)
    (hnew : (∀ r, c.asks r = false) ∧ new = [] ∨
      ∃ id expected r x, c = .removeChild id expected r ∧ new = [(r, x, none)] ∧ x ≠ .ok () ∧ x ≠ .error .unavailable) :
    Attends D { D with commands := rest, replies := D.replies ++ new } where
  sound h := ⟨h.lineage_lt, h.lineage_inj⟩
  tidy h := h
  tokens_eq r := by
    unfold tokens
    rw [hc, List.countP_cons, List.countP_append]
    obtain ⟨hno, rfl⟩ | ⟨id, expected, r', x, rfl, rfl, -, -⟩ := hnew
    · rw [hno r]
      simp
    · by_cases hr : r' = r
      · simp [SupervisorCommand.asks, hr]
        omega
      · simp [SupervisorCommand.asks, hr]
  commands := ⟨[c], hc⟩
  lineage_le := Nat.le_refl _
  slots key s' h := .inr ⟨s', h, rfl, rfl, rfl, id⟩
  parked _ _ _ h hp := .of_slot h hp
  records _ _ h := .inl h
  shown _ h := .inl h
  removed _ h := h
  retired _ h := h
  replies := by
    refine ⟨new, rfl, fun r x seen hx => ?_⟩
    obtain ⟨-, rfl⟩ | ⟨id, expected, r', x', -, rfl, hok, hu⟩ := hnew
    · cases hx
    · cases List.mem_singleton.mp hx
      exact ⟨hu, fun he => absurd he hok⟩

/-- The command that adds a child is taken, and the child is there. -/
theorem Attends.admit {c : SupervisorCommand} {rest : List SupervisorCommand} (hc : D.commands = c :: rest)
    (hseat : c.seats s.id s.identity) (hget : D.slots.get key = none) (hl : s.lineage = D.nextLineage)
    (hm : s.membership = .active) (hp : s.pending = none) :
    Attends D { D with slots := D.slots.insertAt key s, nextLineage := D.nextLineage + 1, commands := rest } := by
  have hold : ∀ k x, (D.slots.insertAt key s).get k = some x → k = key ∧ x = s ∨ D.slots.get k = some x := by
    intro k x hx
    rw [Slab.get_insertAt] at hx
    by_cases hk : k = key
    · rw [if_pos hk] at hx
      cases hx
      exact .inl ⟨hk, rfl⟩
    · rw [if_neg hk] at hx
      exact .inr hx
  constructor
  case sound =>
    intro h
    refine ⟨fun k x hx => ?_, fun k x k' x' hx hx' he => ?_⟩
    · show x.lineage < D.nextLineage + 1
      obtain ⟨-, rfl⟩ | hx := hold k x hx
      · omega
      · have := h.lineage_lt k x hx
        omega
    · obtain ⟨hk, hxs⟩ | hx₀ := hold k x hx
      · obtain ⟨hk', -⟩ | hx₁ := hold k' x' hx'
        · rw [hk, hk']
        · have := h.lineage_lt k' x' hx₁
          rw [hxs] at he
          omega
      · obtain ⟨-, hxs⟩ | hx₁ := hold k' x' hx'
        · have := h.lineage_lt k x hx₀
          rw [hxs] at he
          omega
        · exact h.lineage_inj k x k' x' hx₀ hx₁ he
  case tidy =>
    intro h k x hx
    obtain ⟨-, rfl⟩ | hx := hold k x hx
    · rw [hm, hp]
      simp
    · exact h k x hx
  case tokens_eq =>
    intro r
    have hcount := Slab.count_point (s := D.slots) (t := D.slots.insertAt key s) (Slot.holds r) key
      fun j hj => Slab.get_insertAt_ne _ _ hj
    rw [Slab.get_insertAt_self, hget] at hcount
    have hh : s.holds r = false := by
      unfold Slot.holds
      rw [hp]
      rfl
    have hasks : c.asks r = false := by
      cases c with
      | removeChild _ _ _ => exact hseat.elim
      | addChild _ _ _ => rfl
      | addNested _ _ _ => rfl
    simp only [Option.any_none, Option.any_some, hh] at hcount
    unfold tokens
    rw [hc, List.countP_cons, hasks]
    simp only [Bool.false_eq_true, if_false]
    omega
  case commands => exact ⟨[c], hc⟩
  case lineage_le => exact Nat.le_succ _
  case slots =>
    intro k x hx
    obtain ⟨-, rfl⟩ | hx := hold k x hx
    · exact .inl ⟨Nat.le_of_eq hl.symm, c, hc ▸ List.mem_cons_self .., hseat⟩
    · exact .inr ⟨x, hx, rfl, rfl, rfl, id⟩
  case parked =>
    intro k x p hx hxp
    obtain ⟨-, rfl⟩ | hx := hold k x hx
    · rw [hp] at hxp
      cases hxp
    · exact .of_slot hx hxp
  case records => exact fun _ _ h => .inl h
  case shown => exact fun _ h => .inl h
  case removed => exact fun _ h => h
  case retired => exact fun _ h => h
  case replies => exact ⟨[], by simp, nofun⟩

/-- A membership leaves: its removal is told, its identity retired, the snapshot no longer
    shows it, and a parked reply is sent. -/
def drop (D : Desk) (key : ChildKey) (s : Slot) (shown : List Nat) (answer : Except ControlError Unit × Option Seen) : Desk :=
  { D with
    slots := D.slots.remove key
    shown := shown
    removed := D.removed ++ [(s.id, s.lineage)]
    retired := D.retired ++ (s.identity.map fun i => (s.id, i)).toList
    replies := D.replies ++ (s.pending.map fun p => (p.reply, answer)).toList }

/-- Whoever is left was there before. -/
theorem get_of_remove {k : ChildKey} {x : Slot} (hx : (D.slots.remove key).get k = some x) : k ≠ key ∧ D.slots.get k = some x := by
  rw [Slab.get_remove] at hx
  by_cases hk : k = key
  · rw [if_pos hk] at hx
    cases hx
  · rw [if_neg hk] at hx
    exact ⟨hk, hx⟩

theorem Sound.other (hs : D.Sound) (hget : D.slots.get key = some s) {k : ChildKey} {x : Slot}
    (hx : (D.slots.remove key).get k = some x) : x.lineage ≠ s.lineage := by
  intro he
  obtain ⟨hk, hx⟩ := get_of_remove hx
  exact hk (hs.lineage_inj k x key s hx hget he)

/-- The removal of a joined child is complete once its membership has left. -/
theorem drop_finalized {shown : List Nat} {answer : Except ControlError Unit × Option Seen} (hs : D.Sound)
    (hget : D.slots.get key = some s) (hshown : ∀ l ∈ shown, ∃ k x, (D.slots.remove key).get k = some x ∧ x.lineage = l)
    (hjoined : ∀ task t, D.records task = some t → t.lineage ≠ s.lineage) :
    (D.drop key s shown answer).Finalized s.id s.lineage s.identity where
  gone := by
    rintro (hk | ⟨k, x, hx, he⟩)
    · have := hs.lineage_lt key s hget
      have hk : D.nextLineage ≤ s.lineage := hk
      omega
    · exact hs.other hget hx he
  joined := hjoined
  hidden hl := by
    obtain ⟨k, x, hx, hxl⟩ := hshown _ hl
    exact hs.other hget hx hxl
  told := List.mem_append_right _ (List.mem_singleton_self _)
  retired i hi := by
    refine List.mem_append_right _ ?_
    rw [hi]
    exact List.mem_singleton_self _

theorem Attends.drop {shown : List Nat} {answer : Except ControlError Unit × Option Seen} (hs : D.Sound)
    (hget : D.slots.get key = some s) (hshown : ∀ l ∈ shown, ∃ k x, (D.slots.remove key).get k = some x ∧ x.lineage = l)
    (ha : answer.1 ≠ .error .unavailable)
    (hseen : s.pending.isSome = true → ∃ seen, answer.2 = some seen ∧ seen.Completes s.id s.lineage s.identity)
    (hjoined : s.pending.isSome = true → ∀ task t, D.records task = some t → t.lineage ≠ s.lineage) :
    Attends D (D.drop key s shown answer) := by
  constructor
  case sound =>
    intro h
    refine ⟨fun k x hx => h.lineage_lt k x (get_of_remove hx).2, fun k x k' x' hx hx' he => ?_⟩
    exact h.lineage_inj k x k' x' (get_of_remove hx).2 (get_of_remove hx').2 he
  case tidy => exact fun h k x hx => h k x (get_of_remove hx).2
  case tokens_eq =>
    intro r
    have hcount := Slab.count_point (s := D.slots) (t := D.slots.remove key) (Slot.holds r) key
      fun j hj => Slab.get_remove_ne _ hj
    rw [Slab.get_remove_self, hget] at hcount
    have hh : (s.holds r).toNat = ((s.pending.map fun p => (p.reply, answer)).toList.countP fun x : Reply => decide (x.1 = r)) := by
      unfold Slot.holds
      cases s.pending with
      | none => rfl
      | some p => by_cases hr : p.reply = r <;> simp [hr]
    simp only [Option.any_none, Option.any_some, Bool.toNat_false, hh] at hcount
    unfold tokens Desk.drop
    simp only [List.countP_append]
    omega
  case commands => exact ⟨[], rfl⟩
  case lineage_le => exact Nat.le_refl _
  case slots => exact fun k x hx => .inr ⟨x, (get_of_remove hx).2, rfl, rfl, rfl, id⟩
  case parked => exact fun k x p hx hp => .of_slot (get_of_remove hx).2 hp
  case records => exact fun _ _ h => .inl h
  case shown =>
    intro l hl
    obtain ⟨k, x, hx, hxl⟩ := hshown l hl
    exact .inr (.inr ⟨k, x, (get_of_remove hx).2, hxl⟩)
  case removed => exact fun _ h => List.mem_append_left _ h
  case retired => exact fun _ h => List.mem_append_left _ h
  case replies =>
    refine ⟨_, rfl, fun r x seen hx => ?_⟩
    cases hp : s.pending with
    | none =>
      rw [hp] at hx
      cases hx
    | some p =>
      rw [hp] at hx
      cases List.mem_singleton.mp hx
      have hsome : s.pending.isSome = true := by rw [hp]; rfl
      exact ⟨ha, fun _ => ⟨s.id, s.lineage, s.identity, .of_slot hget hp, .inl ⟨key, s, hget, rfl, rfl, rfl⟩, hseen hsome,
        drop_finalized hs hget hshown (hjoined hsome)⟩⟩

/-- The flags of a parked removal do not matter. -/
theorem Calm.flag (hget : D.slots.get key = some s) (f : PendingRemoval → PendingRemoval) (hf : ∀ p, (f p).reply = p.reply) :
    Calm D { D with slots := D.slots.insertAt key { s with pending := s.pending.map f } } where
  toAttends := by
    refine Attends.put [] hget rfl rfl rfl id ?_ (List.nil_append D.commands).symm ?_ ?_
    · simp
    · intro r
      unfold Slot.holds
      cases s.pending with
      | none => rfl
      | some p => simp [hf]
    · intro p hp
      obtain ⟨p₀, hp₀, rfl⟩ := Option.map_eq_some_iff.mp hp
      rw [hf]
      exact .of_slot hget hp₀
  commands_eq := rfl
  pending k x hx hp := by
    have hx : (D.slots.insertAt key { s with pending := s.pending.map f }).get k = some x := hx
    rw [Slab.get_insertAt] at hx
    by_cases hk : k = key
    · rw [if_pos hk] at hx
      cases hx
      exact ⟨s, hk ▸ hget, rfl, by simpa using hp⟩
    · rw [if_neg hk] at hx
      exact ⟨x, hx, rfl, hp⟩

theorem Calm.drop {shown : List Nat} {answer : Except ControlError Unit × Option Seen} (hs : D.Sound)
    (hget : D.slots.get key = some s) (hshown : ∀ l ∈ shown, ∃ k x, (D.slots.remove key).get k = some x ∧ x.lineage = l)
    (ha : answer.1 ≠ .error .unavailable)
    (hseen : s.pending.isSome = true → ∃ seen, answer.2 = some seen ∧ seen.Completes s.id s.lineage s.identity)
    (hjoined : s.pending.isSome = true → ∀ task t, D.records task = some t → t.lineage ≠ s.lineage) :
    Calm D (D.drop key s shown answer) where
  toAttends := .drop hs hget hshown ha hseen hjoined
  commands_eq := rfl
  pending _ x hx hp := ⟨x, (get_of_remove hx).2, rfl, hp⟩

end Desk

/-! ## The desk of a runtime -/

def ChildEntry.slot (e : ChildEntry) : Slot where
  id := e.id
  lineage := e.lineage
  identity := if e.runtime.definition.kind.isSupervisor then e.nestedChannels.map (·.identity) else none
  membership := e.membership
  pending := e.pendingRemoval

namespace SupervisorRuntime

open Desk

def desk (rt : SupervisorRuntime) : Desk where
  slots := rt.children.map fun _ e => e.slot
  nextLineage := rt.nextLineage
  records := rt.taskMap
  commands := rt.commandRx
  shown := (rt.published.getLast?.map fun s => s.children.map (·.lineage)).getD []
  removed := rt.log.filterMap ChildEvent.removal
  retired := rt.notices.filterMap Notice.retires
  replies := rt.notices.filterMap Notice.reply

/-- What is complete can be seen to be. -/
theorem seen_completes {rt : SupervisorRuntime} {id : String} {lineage : Nat} {identity : Option Nat}
    (h : rt.desk.Finalized id lineage identity) : rt.seen.Completes id lineage identity where
  joined hl := by
    obtain ⟨t, -, ht⟩ := List.mem_filterMap.mp hl
    obtain ⟨r, hr, he⟩ := Option.map_eq_some_iff.mp ht
    exact h.joined t.id r hr he
  hidden := h.hidden
  told := h.told
  retired := h.retired

def Tends (rt rt' : SupervisorRuntime) : Prop := Calm rt.desk rt'.desk

instance : Std.Refl Tends := ⟨fun rt => Calm.refl rt.desk⟩

instance : IsTrans SupervisorRuntime Tends := ⟨fun _ _ _ h h' => Calm.trans h h'⟩

variable {rt rt' : SupervisorRuntime} {key : ChildKey} {e : ChildEntry}

theorem desk_get (h : rt.children.get key = some e) : rt.desk.slots.get key = some e.slot := by
  simp [desk, h]

theorem get_of_desk {s : Slot} (h : rt.desk.slots.get key = some s) : ∃ e, rt.children.get key = some e ∧ e.slot = s := by
  simpa [desk] using h

theorem Tends.rfl : Tends rt rt := Calm.refl _

theorem Tends.trans {rt'' : SupervisorRuntime} (h : Tends rt rt') (h' : Tends rt' rt'') : Tends rt rt'' :=
  Calm.trans h h'

theorem tends_foldl {α : Type} {f : SupervisorRuntime → α → SupervisorRuntime} (hf : ∀ rt a, Tends rt (f rt a))
    (as : List α) : Tends rt (as.foldl f rt) := by
  induction as generalizing rt with
  | nil => exact .rfl
  | cons a as ih => exact (hf rt a).trans ih

/-- The memberships of the view. -/
theorem knows_of_shown {l : Nat} (h : l ∈ rt.snapshotView.children.map (·.lineage)) :
    ∃ k s, rt.desk.slots.get k = some s ∧ s.lineage = l := by
  obtain ⟨c, hc, rfl⟩ := List.mem_map.mp h
  obtain ⟨k, -, hk⟩ := List.mem_filterMap.mp hc
  obtain ⟨e, he, rfl⟩ := Option.map_eq_some_iff.mp hk
  exact ⟨k, e.slot, desk_get he, rfl⟩

theorem shown_publishSnapshot : rt.publishSnapshot.desk.shown = rt.snapshotView.children.map (·.lineage) := by
  simp [desk, publishSnapshot]

theorem tends_publish : Tends rt rt.publishSnapshot := by
  refine Calm.still (fun _ => rfl) rfl rfl rfl (fun _ _ h => .inl h) (fun l hl => ?_) (fun _ h => h) fun _ h => h
  rw [shown_publishSnapshot] at hl
  exact .inr (.inr (knows_of_shown hl))

/-- Edits of a child that leave its membership alone. -/
theorem tends_edit {f : ChildEntry → ChildEntry} (hf : ∀ e, rt.children.get key = some e → (f e).slot = e.slot) :
    Tends rt (rt.edit key f) := by
  refine Calm.still (fun k => ?_) rfl rfl rfl (fun _ _ h => .inl h) (fun _ h => .inl h) (fun _ h => h) fun _ h => h
  simp only [desk, edit, Slab.get_map, Slab.get_modify]
  split
  · rename_i hk
    subst hk
    cases h : rt.children.get k with
    | none => rfl
    | some e => simp [hf e h]
  · rfl

theorem tends_map {f : Nat → ChildEntry → ChildEntry} (hf : ∀ k e, (f k e).slot = e.slot) :
    Tends rt { rt with children := rt.children.map f } := by
  refine Calm.still (fun k => ?_) rfl rfl rfl (fun _ _ h => .inl h) (fun _ h => .inl h) (fun _ h => h) fun _ h => h
  simp only [desk, Slab.get_map, Option.map_map]
  cases rt.children.get k with
  | none => rfl
  | some e => simp [hf]

theorem tends_notify {n : Notice} (h : n.reply = none) : Tends rt (rt.notify n) := by
  refine Calm.still (fun _ => rfl) rfl rfl ?_ (fun _ _ h => .inl h) (fun _ h => .inl h) (fun _ h => h) fun x hx => ?_
  · simp [desk, notify, List.filterMap_append, h]
  · simp only [desk, notify, List.filterMap_append]
    exact List.mem_append_left _ hx

theorem tends_sendLifecycleDraft (d : LifecycleEventDraft) : Tends rt (rt.sendLifecycleDraft d) := by
  have hlog : ∀ event : ChildEvent, Tends rt { rt with seq := rt.seq + 1, log := rt.log ++ [event] } := by
    intro event
    refine Calm.still (fun _ => rfl) rfl rfl rfl (fun _ _ h => .inl h) (fun _ h => .inl h) (fun x hx => ?_) fun _ h => h
    simp only [desk, List.filterMap_append]
    exact List.mem_append_left _ hx
  unfold sendLifecycleDraft
  simp only
  split
  · exact hlog _
  · exact (hlog _).trans tends_publish

theorem tends_sendLifecycle (key : ChildKey) (kind : ChildEventKind) : Tends rt (rt.sendLifecycle key kind) := by
  unfold sendLifecycle
  split
  · exact tends_sendLifecycleDraft _
  · exact .rfl

theorem tends_sendSupervisorEvent (kind : SupervisorEventKind) : Tends rt (rt.sendSupervisorEvent kind) := by
  unfold sendSupervisorEvent
  simp only
  split
  · exact tends_publish
  · exact tends_publish.trans (tends_notify rfl)

/-! ## Single operations -/

theorem tends_completeEmptyStartupGate : Tends rt rt.completeEmptyStartupGate := by
  unfold completeEmptyStartupGate
  split
  · exact (Calm.of_eq rfl : Tends rt { rt with startupGate := none }).trans (tends_notify rfl)
  · exact .rfl

theorem tends_startupMemberReady (key : ChildKey) (lineage : Nat) : Tends rt (rt.startupMemberReady key lineage) := by
  unfold startupMemberReady
  split
  · exact .rfl
  · rename_i pending _
    exact (Calm.of_eq rfl : Tends rt { rt with
      startupGate := some (pending.filter fun p => p.1 ≠ key || p.2 ≠ lineage) }).trans tends_completeEmptyStartupGate

theorem tends_abortTask (task : TaskId) : Tends rt (rt.abortTask task) := Calm.of_eq rfl

theorem tends_cancelChild (key : ChildKey) : Tends rt (rt.cancelChild key) := tends_edit fun _ _ => rfl

theorem tends_escalateChild (key : ChildKey) : Tends rt (rt.escalateChild key) := tends_edit fun _ _ => rfl

theorem tends_abortChild (key : ChildKey) : Tends rt (rt.abortChild key) := by
  unfold abortChild
  simp only
  split
  · refine Tends.trans ?_ (tends_abortTask _)
    exact tends_edit fun _ _ => rfl
  · exact tends_edit fun _ _ => rfl

theorem tends_markChildTerminal (key : ChildKey) : Tends rt (rt.markChildTerminal key) := by
  unfold markChildTerminal
  split
  · exact .rfl
  · split
    · exact .rfl
    · exact tends_notify rfl

theorem tends_recordExit (key : ChildKey) (generation : Nat) (status : RuntimeExitStatus) :
    Tends rt (rt.recordExit key generation status) := by
  refine Tends.trans (Tends.trans ?_ (tends_sendLifecycle key _)) tends_publish
  exact tends_edit fun _ _ => rfl

theorem tends_unlinked (task : TaskId) : Tends rt (rt.unlinked task) := by
  refine Calm.still (fun _ => rfl) rfl rfl rfl (fun task' t h => ?_) (fun _ h => .inl h) (fun _ h => h) fun _ h => h
  have h : Function.update rt.taskMap task none task' = some t := h
  by_cases ht : task' = task
  · rw [ht, Function.update_self] at h
    cases h
  · rw [Function.update_of_ne ht] at h
    exact .inl h

theorem tends_removeStartSequenceMember (key : ChildKey) (lineage : Nat) :
    Tends rt (rt.removeStartSequenceMember key lineage).2 := by
  unfold removeStartSequenceMember
  split
  · exact .rfl
  · exact Calm.of_eq rfl

theorem tends_handleNestedSnapshot (n : NestedSnapshotNotification) : Tends rt (rt.handleNestedSnapshot n) := by
  unfold handleNestedSnapshot
  split
  · exact .rfl
  · split
    · exact .rfl
    · split
      · exact .rfl
      · refine Tends.trans ?_ tends_publish
        refine Tends.trans ?_ (tends_edit fun _ _ => rfl)
        exact Calm.of_eq rfl

/-- The entry leaves the slab, and a nested supervisor's identity is retired. -/
theorem dropped_desk (key : ChildKey) (e : ChildEntry) : ∃ rt₁, rt₁ = ((rt.dropEntry key e).clearCell e).retireNested e ∧
    rt₁.desk = { rt.desk with
      slots := rt.desk.slots.remove key
      retired := rt.desk.retired ++ (e.slot.identity.map fun i => (e.id, i)).toList } := by
  refine ⟨_, rfl, ?_⟩
  have hdrop : (rt.dropEntry key e).desk = { rt.desk with slots := rt.desk.slots.remove key } := by
    have hslots : (rt.children.remove key).map (fun _ e => e.slot) = (rt.children.map fun _ e => e.slot).remove key := by
      refine Slab.ext (fun k => ?_) rfl
      simp only [Slab.get_map, Slab.get_remove]
      split <;> rfl
    unfold desk dropEntry
    rw [← hslots]
  have hcell : ((rt.dropEntry key e).clearCell e).desk = (rt.dropEntry key e).desk := by
    unfold clearCell
    split <;> rfl
  have hret : ∀ rt : SupervisorRuntime, (rt.retireNested e).desk =
      { rt.desk with retired := rt.desk.retired ++ (e.slot.identity.map fun i => (e.id, i)).toList } := by
    intro rt
    unfold retireNested ChildEntry.slot
    cases hk : e.runtime.definition.kind.isSupervisor with
    | false => simp
    | true =>
      cases hc : e.nestedChannels with
      | none => simp
      | some channels => simp [desk, notify, Notice.retires, Notice.reply]
  rw [hret, hcell, hdrop]

theorem removedDraft_desk {d : LifecycleEventDraft} (hd : d.kind = .removed) : ∃ shown, (rt.sendLifecycleDraft d).desk =
    { rt.desk with shown := shown, removed := rt.desk.removed ++ [(d.childId, d.lineage)] } := by
  unfold sendLifecycleDraft
  simp only
  split
  · refine ⟨rt.desk.shown, ?_⟩
    simp [desk, ChildEvent.removal, hd]
  · refine ⟨rt.snapshotView.children.map (·.lineage), ?_⟩
    simp [desk, publishSnapshot, ChildEvent.removal, hd]
    rfl

/-- The entry leaves with everything that has to be seen first; the reply comes last. -/
theorem tends_finalizeRemovedChild (checkElapsedGrace : Bool) (hs : rt.desk.Sound)
    (hjoined : ∀ e, rt.children.get key = some e → e.pendingRemoval.isSome = true →
      ∀ task t, rt.taskMap task = some t → t.lineage ≠ e.lineage) :
    Tends rt (rt.finalizeRemovedChild key checkElapsedGrace) := by
  cases h : rt.children.get key with
  | none =>
    unfold finalizeRemovedChild
    rw [h]
    exact .rfl
  | some e =>
    have hd : rt.lifecycleDraft key .removed = some ⟨e.id, e.lineage, rt.totalRestarts,
        e.runtime.restartTracker.totalRestarts, .removed⟩ := by
      simp [lifecycleDraft, h]
    obtain ⟨rt₁, h₁, hdrop⟩ := @dropped_desk rt key e
    let rt₂ := rt₁.sendLifecycleDraft ⟨e.id, e.lineage, rt.totalRestarts, e.runtime.restartTracker.totalRestarts, .removed⟩
    have h₂ : rt₂.publishSnapshot.desk = { rt₁.desk with
        shown := rt₂.snapshotView.children.map (·.lineage), removed := rt₁.desk.removed ++ [(e.id, e.lineage)] } := by
      obtain ⟨shown, hlog⟩ := @removedDraft_desk rt₁ ⟨e.id, e.lineage, rt.totalRestarts,
        e.runtime.restartTracker.totalRestarts, .removed⟩ rfl
      rw [← shown_publishSnapshot]
      show { rt₂.desk with shown := rt₂.publishSnapshot.desk.shown } = _
      rw [hlog]
    have hshown : ∀ l ∈ rt₂.snapshotView.children.map (·.lineage),
        ∃ k x, (rt.desk.slots.remove key).get k = some x ∧ x.lineage = l := by
      intro l hl
      obtain ⟨k, x, hx, hxl⟩ := knows_of_shown hl
      refine ⟨k, x, ?_, hxl⟩
      have hslots : rt₂.publishSnapshot.desk.slots = rt₁.desk.slots := by rw [h₂]
      have hx : rt₂.publishSnapshot.desk.slots.get k = some x := hx
      rw [hslots, hdrop] at hx
      exact hx
    -- the reply, if one is parked
    have hgo : ∀ answer, answer.1 ≠ .error .unavailable →
        (e.pendingRemoval.isSome = true → ∃ seen, answer.2 = some seen ∧ seen.Completes e.id e.lineage e.slot.identity) →
        Calm rt.desk (rt.desk.drop key e.slot (rt₂.snapshotView.children.map (·.lineage)) answer) := by
      intro answer ha hseen
      exact Calm.drop hs (desk_get h) hshown ha hseen (hjoined e h)
    unfold finalizeRemovedChild
    simp only [h, hd, ← h₁]
    cases hp : e.pendingRemoval with
    | none =>
      refine Calm.trans (hgo (.ok (), none) (by simp) (by simp [hp])) (Calm.of_eq ?_)
      show rt₂.publishSnapshot.desk = _
      rw [h₂, hdrop]
      simp [Desk.drop, ChildEntry.slot, hp]
    | some p =>
      refine Calm.trans (hgo (rt₂.publishSnapshot.pendingRemovalResult e.id p checkElapsedGrace none,
        some rt₂.publishSnapshot.seen) ?_ fun hsome => ⟨_, rfl, seen_completes ?_⟩) (Calm.of_eq ?_)
      · unfold pendingRemovalResult
        simp only
        split
        · rename_i hf
          cases hf
        · split <;> simp
      · have hf := @drop_finalized rt.desk key e.slot _ (.ok (), none) hs (desk_get h) hshown (hjoined e h hsome)
        rw [h₂, hdrop]
        exact ⟨hf.gone, hf.joined, hf.hidden, hf.told, hf.retired⟩
      · show (rt₂.publishSnapshot.notify _).desk = _
        have hn : ∀ (rt : SupervisorRuntime) r x seen, (rt.notify (.removeReply r x seen)).desk =
            { rt.desk with replies := rt.desk.replies ++ [(r, x, seen)] } := by
          intro rt r x seen
          simp [desk, notify, Notice.retires, Notice.reply]
        rw [hn, h₂, hdrop]
        simp [Desk.drop, ChildEntry.slot, hp]
        exact ⟨rfl, rfl⟩

/-! ## Spawning and the start sequence -/

theorem tends_afterSpawn (h : rt.children.get key = some e) (hm : e.membership = .active) : Tends rt (rt.afterSpawn key e) := by
  have h1 : Tends rt ({ rt with spawnedFrom := rt.spawnedFrom ++ [e.runtime.state] }.installTask key (rt.prepareSpawn key e)) := by
    refine Calm.still (fun k => ?_) rfl rfl rfl (fun task t ht => ?_) (fun _ h => .inl h) (fun _ h => h) fun _ h => h
    · simp only [desk, installTask, Slab.get_map, Slab.get_insertAt]
      split
      · rename_i hk
        rw [hk, h]
        rfl
      · rfl
    · have ht : Function.update rt.taskMap _ _ task = some t := ht
      rw [Function.update_apply] at ht
      split at ht
      · cases ht
        exact .inr (.inr ⟨key, e.slot, desk_get h, rfl, hm⟩)
      · exact .inl ht
  unfold afterSpawn
  simp only
  split
  · exact h1.trans ((tends_sendLifecycle key _).trans tends_publish)
  · exact h1.trans tends_publish

theorem spawnChild_tends (h : rt.children.get key = some e) (hm : e.membership = .active) :
    Act.Runs Tends (spawnChild key) rt fun _ _ => True := by
  by_cases hr : e.member.Refuses
  · obtain ⟨err, heq⟩ := spawnChild_refused h hr
    unfold Act.Runs
    rw [heq]
    refine ⟨?_, fun _ _ _ => trivial⟩
    refine Calm.still (fun k => ?_) rfl rfl rfl (fun _ _ h => .inl h) (fun _ h => .inl h) (fun _ h => h) fun _ h => h
    simp only [desk, Slab.get_map, Slab.get_insertAt]
    split
    · rename_i hk
      rw [hk, h]
      rfl
    · rfl
  · obtain ⟨old, heq⟩ := spawnChild_eq h hr
    unfold Act.Runs
    rw [heq]
    exact ⟨tends_afterSpawn h hm, fun _ _ _ => trivial⟩

theorem startupMemberAborted_tends (key : ChildKey) (lineage : Nat) :
    Act.Runs Tends (startupMemberAborted key lineage) rt fun _ _ => True := by
  unfold startupMemberAborted
  refine Act.runs_get ?_
  split
  · exact Act.runs_modify_bind (tends_notify rfl) Act.runs_fail
  · exact Act.runs_pure trivial

theorem spawnStartItem_tends (item : StartItem) : Act.Runs Tends (spawnStartItem item) rt fun _ _ => True := by
  unfold spawnStartItem
  refine Act.runs_get ?_
  split
  · exact Act.runs_pure trivial
  · rename_i e he
    split
    · exact Act.runs_pure trivial
    · rename_i hc
      simp only [Bool.or_eq_true, decide_eq_true_eq, not_or, ne_eq, Decidable.not_not] at hc
      refine Act.runs_bind (spawnChild_tends he hc.1.2) fun _ rt' _ _ => ?_
      simp only
      split
      · exact Act.runs_modify (Calm.of_eq rfl) trivial
      · split
        · exact Act.runs_modify (tends_startupMemberReady _ _) trivial
        · exact Act.runs_pure trivial

theorem popQueue_tends : ∀ (queue : List StartItem) {rt : SupervisorRuntime},
    Act.Runs Tends (popQueue queue) rt fun _ _ => True
  | [], _ => Act.runs_modify (Calm.of_eq rfl) trivial
  | item :: rest, _ => by
    unfold popQueue
    refine Act.runs_modify_bind (Calm.of_eq rfl) ?_
    refine Act.runs_bind (spawnStartItem_tends item) fun _ rt' _ _ => ?_
    refine Act.runs_get ?_
    split
    · exact Act.runs_pure trivial
    · exact popQueue_tends rest

theorem passGate_tends (gate : StartGate) : Act.Runs Tends (passGate gate) rt fun _ _ => True := by
  unfold passGate
  refine Act.runs_get ?_
  split
  · exact Act.runs_pure trivial
  · exact Act.runs_pure trivial
  · exact Act.runs_pure trivial
  · exact Act.runs_modify_bind (Calm.of_eq rfl)
      (Act.runs_modify_bind (tends_startupMemberReady _ _) (Act.runs_pure trivial))
  · refine Act.runs_modify_bind (Calm.of_eq rfl) ?_
    exact Act.runs_bind (startupMemberAborted_tends _ _) fun _ _ _ _ => Act.runs_pure trivial
  · exact Act.runs_modify_bind (Calm.of_eq rfl) (Act.runs_pure trivial)
  · exact Act.runs_modify_bind (Calm.of_eq rfl) (Act.runs_pure trivial)

theorem advanceStartSequence_tends : Act.Runs Tends advanceStartSequence rt fun _ _ => True := by
  unfold advanceStartSequence
  refine Act.runs_get ?_
  have hgo : ∀ (go : Bool) (rt' : SupervisorRuntime),
      Act.Runs Tends (if go then popQueue rt.startQueue else pure () : RuntimeM Unit) rt' fun _ _ => True := by
    intro go rt'
    cases go with
    | true => exact popQueue_tends _
    | false => exact Act.runs_pure trivial
  cases rt.startGate with
  | none => exact hgo true rt
  | some gate => exact Act.runs_bind (passGate_tends gate) fun go rt' _ _ => hgo go rt'

theorem detachStartMember_tends (key : ChildKey) (lineage : Nat) :
    Act.Runs Tends (detachStartMember key lineage) rt fun _ _ => True := by
  unfold detachStartMember
  refine Act.runs_get ?_
  simp only
  refine Act.runs_modify_bind ((tends_removeStartSequenceMember key lineage).trans (tends_startupMemberReady _ _)) ?_
  split
  · exact advanceStartSequence_tends
  · exact Act.runs_pure trivial

theorem terminalStartMember_tends (key : ChildKey) (lineage : Nat) :
    Act.Runs Tends (terminalStartMember key lineage) rt fun _ _ => True := by
  unfold terminalStartMember
  refine Act.runs_get ?_
  simp only
  refine Act.runs_modify_bind (tends_removeStartSequenceMember key lineage) ?_
  refine Act.runs_bind (startupMemberAborted_tends _ _) fun _ _ _ _ => ?_
  split
  · exact advanceStartSequence_tends
  · exact Act.runs_pure trivial

theorem handleChildReady_tends (r : ChildReady) : Act.Runs Tends (handleChildReady r) rt fun _ _ => True := by
  unfold handleChildReady
  refine Act.runs_get ?_
  split
  · exact Act.runs_pure trivial
  · split
    · exact Act.runs_pure trivial
    · refine Act.runs_modify_bind ?_ ?_
      · refine Tends.trans ?_ (tends_sendLifecycle _ _)
        exact tends_edit fun _ _ => rfl
      refine Act.runs_modify_bind tends_publish ?_
      refine Act.runs_modify_bind (tends_startupMemberReady _ _) (Act.runs_get ?_)
      split
      · exact Act.runs_modify_bind (Calm.of_eq rfl) advanceStartSequence_tends
      · exact Act.runs_pure trivial

end SupervisorRuntime

end Kokage.Supervisor

/-
  Kokage.Actor.Conflating — the latest-wins mailboxes (`actor/binding.rs`:
  `ConflatingSender`, `ConflatingReceiver`, `conflating_channel`).

  A send replaces the unread message of its key where there is one, and pushes the oldest
  out where the queue is full of other keys. `send` and `send_until` derive this apart from
  each other (`sendUntil_eq`), and what either may do to the queue is said once, in
  `Sent`. Whatever the endpoints do, every accepted message has been received, has been
  counted as conflated or is in the queue (`mailbox_conflates`).

  Both endpoints work under one mutex, so the operations of a mailbox are a sequence. The
  model allows more of them than the types do: an endpoint may be used after its drop.
-/

import Mathlib.Algebra.GroupWithZero.Nat
import Mathlib.Data.List.Basic
import Mathlib.Data.List.Pairwise

namespace Kokage.Actor

variable {M : Type}

/-! ## The shared state -/

structure ConflatingState (M : Type) where
  messages : List M
  capacity : Nat
  keyMatches : Option (M → M → Bool)
  senderCount : Nat
  receiverClosed : Bool
  acceptingExternal : Bool

inductive SendOutcome (M : Type) where
  | accepted (conflated : Nat)
  | closed (message : M)

inductive TimedSendOutcome (M : Type) where
  | accepted (conflated : Nat)
  | closed (message : M)
  | timeout (message : M)

inductive TryRecvError where
  | empty
  | disconnected

/-- One poll of `recv`: a value, the end of the mailbox, or a wait for the next notification. -/
inductive RecvPoll (M : Type) where
  | message (m : M)
  | finished
  | pending

namespace ConflatingState

def new (capacity : Nat) (keyMatches : Option (M → M → Bool)) : ConflatingState M :=
  { messages := [], capacity, keyMatches, senderCount := 1, receiverClosed := false, acceptingExternal := true }

/-- `ConflatingSender::send`. -/
def send (s : ConflatingState M) (message : M) : ConflatingState M × SendOutcome M :=
  if s.receiverClosed || !s.acceptingExternal then (s, .closed message)
  else
    match s.keyMatches with
    | some keyMatches =>
      match s.messages.findIdx? (keyMatches · message) with
      | some index => ({ s with messages := s.messages.set index message }, .accepted 1)
      | none =>
        if s.messages.length = s.capacity then
          ({ s with messages := s.messages.tail ++ [message] }, .accepted 1)
        else ({ s with messages := s.messages ++ [message] }, .accepted 0)
    | none =>
      if s.messages.isEmpty then ({ s with messages := s.messages ++ [message] }, .accepted 0)
      else ({ s with messages := s.messages.set 0 message }, .accepted 1)

/-- `ConflatingSender::send_until`. `first` and `second` are what the two reads of the clock
    give: one before the key matching, which is user code, and one after it. -/
def sendUntil (s : ConflatingState M) (message : M) (deadline first second : Nat) :
    ConflatingState M × TimedSendOutcome M :=
  if s.receiverClosed || !s.acceptingExternal then (s, .closed message)
  else if deadline ≤ first then (s, .timeout message)
  else
    let matched := s.keyMatches.bind fun keyMatches => s.messages.findIdx? (keyMatches · message)
    let keyed := s.keyMatches.isSome
    if s.receiverClosed || !s.acceptingExternal then (s, .closed message)
    else if deadline ≤ second then (s, .timeout message)
    else
      match matched with
      | some index => ({ s with messages := s.messages.set index message }, .accepted 1)
      | none =>
        if keyed then
          if s.messages.length = s.capacity then
            ({ s with messages := s.messages.tail ++ [message] }, .accepted 1)
          else ({ s with messages := s.messages ++ [message] }, .accepted 0)
        else if s.messages.isEmpty then ({ s with messages := s.messages ++ [message] }, .accepted 0)
        else ({ s with messages := s.messages.set 0 message }, .accepted 1)

def cloneSender (s : ConflatingState M) : ConflatingState M := { s with senderCount := s.senderCount + 1 }

def dropSender (s : ConflatingState M) : ConflatingState M := { s with senderCount := s.senderCount - 1 }

def recv (s : ConflatingState M) : ConflatingState M × RecvPoll M :=
  match s.messages with
  | message :: rest => ({ s with messages := rest }, .message message)
  | [] => if s.receiverClosed || s.senderCount = 0 then (s, .finished) else (s, .pending)

def tryRecv (s : ConflatingState M) : ConflatingState M × Except TryRecvError M :=
  match s.messages with
  | message :: rest => ({ s with messages := rest }, .ok message)
  | [] => if s.receiverClosed || s.senderCount = 0 then (s, .error .disconnected) else (s, .error .empty)

def closeExternal (s : ConflatingState M) : ConflatingState M := { s with acceptingExternal := false }

def dropReceiver (s : ConflatingState M) : ConflatingState M := { s with receiverClosed := true }

end ConflatingState

/-! ## What a send does -/

def SendOutcome.timed : SendOutcome M → TimedSendOutcome M
  | .accepted conflated => .accepted conflated
  | .closed message => .closed message

namespace ConflatingState

variable {s s' : ConflatingState M} {m : M}

def accepting (s : ConflatingState M) : Bool := !s.receiverClosed && s.acceptingExternal

/-- Two messages of one key. Without a key the mailbox is one slot: all messages have the
    same. -/
def sameKey (key : Option (M → M → Bool)) (a b : M) : Bool :=
  match key with
  | some keyMatches => keyMatches a b
  | none => true

/-- What an accepted send of `m` makes of the queue, and the count it reports. -/
inductive Sent (s : ConflatingState M) (m : M) : List M → Nat → Prop
  /-- The unread message of the key is replaced where it stands. -/
  | replaced (before : List M) (old : M) (after : List M) : s.messages = before ++ old :: after →
      sameKey s.keyMatches old m = true → Sent s m (before ++ m :: after) 1
  | pushed : (∀ q ∈ s.messages, sameKey s.keyMatches q m = false) → s.messages.length ≠ s.capacity →
      Sent s m (s.messages ++ [m]) 0
  /-- The key is new and the queue full: the oldest goes. -/
  | evicted (oldest : M) (rest : List M) : (∀ q ∈ s.messages, sameKey s.keyMatches q m = false) →
      s.messages.length = s.capacity → s.messages = oldest :: rest → Sent s m (rest ++ [m]) 1

theorem set_found {l : List M} {p : M → Bool} {i : Nat} (h : l.findIdx? p = some i) (m : M) :
    ∃ before old after, l = before ++ old :: after ∧ p old = true ∧ l.set i m = before ++ m :: after := by
  induction l generalizing i with
  | nil => cases h
  | cons x l ih =>
    rw [List.findIdx?_cons] at h
    by_cases hx : p x = true
    · rw [if_pos hx] at h
      cases h
      exact ⟨[], x, l, rfl, hx, rfl⟩
    · rw [if_neg hx] at h
      cases hf : l.findIdx? p with
      | none => simp [hf] at h
      | some j =>
        have hi : j + 1 = i := by simpa [hf] using h
        subst hi
        obtain ⟨before, old, after, hl, hp, hset⟩ := ih hf
        exact ⟨x :: before, old, after, by rw [hl, List.cons_append], hp, by rw [List.set_cons_succ, hset, List.cons_append]⟩

theorem send_closed (h : s.accepting = false) : s.send m = (s, .closed m) := by
  have hclosed : (s.receiverClosed || !s.acceptingExternal) = true := by
    revert h
    cases hr : s.receiverClosed <;> cases ha : s.acceptingExternal <;> simp [accepting, hr, ha]
  unfold send
  rw [if_pos hclosed]

theorem send_sent (hcap : 1 ≤ s.capacity) (h : s.accepting = true) :
    ∃ q n, Sent s m q n ∧ s.send m = ({ s with messages := q }, .accepted n) := by
  have hopen : ¬ (s.receiverClosed || !s.acceptingExternal) = true := by
    revert h
    cases hr : s.receiverClosed <;> cases ha : s.acceptingExternal <;> simp [accepting, hr, ha]
  unfold send
  rw [if_neg hopen]
  cases hk : s.keyMatches with
  | none =>
    cases hm : s.messages with
    | nil =>
      refine ⟨_, _, .pushed ?_ ?_, by simp [hm]⟩
      · rw [hm]
        nofun
      · rw [hm, List.length_nil]
        omega
    | cons x rest => exact ⟨_, _, .replaced [] x rest hm (by rw [hk]; rfl), rfl⟩
  | some k =>
    cases hf : s.messages.findIdx? (k · m) with
    | some index =>
      obtain ⟨before, old, after, hl, hp, hset⟩ := set_found hf m
      exact ⟨_, _, .replaced before old after hl (by rw [hk]; exact hp), by simp only [hf, hset]⟩
    | none =>
      have hnew : ∀ q ∈ s.messages, sameKey s.keyMatches q m = false := by
        rw [hk]
        exact List.findIdx?_eq_none_iff.mp hf
      by_cases hfull : s.messages.length = s.capacity
      · simp only [hf, if_pos hfull]
        have hlong : 0 < s.messages.length := by omega
        obtain ⟨oldest, rest, hm⟩ := List.exists_cons_of_length_pos hlong
        exact ⟨_, _, .evicted oldest rest hnew hfull hm, by rw [hm, List.tail_cons]⟩
      · simp only [hf, if_neg hfull]
        exact ⟨_, _, .pushed hnew hfull, rfl⟩

theorem sendUntil_eq (deadline first second : Nat) (h₁ : first < deadline) (h₂ : second < deadline) :
    s.sendUntil m deadline first second = ((s.send m).1, (s.send m).2.timed) := by
  have h₁ : ¬ deadline ≤ first := by omega
  have h₂ : ¬ deadline ≤ second := by omega
  unfold sendUntil send
  by_cases hclosed : (s.receiverClosed || !s.acceptingExternal) = true
  · simp only [if_pos hclosed, SendOutcome.timed]
  · simp only [if_neg hclosed, if_neg h₁, if_neg h₂]
    cases hk : s.keyMatches with
    | none =>
      by_cases he : s.messages.isEmpty = true
      · simp [he, SendOutcome.timed]
      · simp [he, SendOutcome.timed]
    | some k =>
      cases hf : s.messages.findIdx? (k · m) with
      | some index => simp [hf, SendOutcome.timed]
      | none =>
        by_cases hfull : s.messages.length = s.capacity
        · simp [hf, hfull, SendOutcome.timed]
        · simp [hf, hfull, SendOutcome.timed]

theorem sendUntil_late {deadline first second : Nat} (h : deadline ≤ first ∨ deadline ≤ second) :
    s.sendUntil m deadline first second = (s, .closed m) ∨ s.sendUntil m deadline first second = (s, .timeout m) := by
  unfold sendUntil
  by_cases hclosed : (s.receiverClosed || !s.acceptingExternal) = true
  · rw [if_pos hclosed]
    exact .inl rfl
  · rw [if_neg hclosed]
    by_cases h₁ : deadline ≤ first
    · rw [if_pos h₁]
      exact .inr rfl
    · have h₂ : deadline ≤ second := by omega
      simp only [if_neg h₁, if_neg hclosed, if_pos h₂]
      exact .inr trivial

end ConflatingState

/-! ## The mailbox in use -/

/-- A mailbox, with the messages it accepted, those it handed out and the counts it
    reported. -/
structure Conflation (M : Type) where
  state : ConflatingState M
  accepted : List M
  received : List M
  conflated : List Nat

inductive MailboxOp (M : Type) where
  | send (m : M)
  | sendUntil (m : M) (deadline first second : Nat)
  | recv
  | tryRecv
  | closeExternal
  | dropReceiver
  | cloneSender
  | dropSender

namespace Conflation

open ConflatingState

def new (capacity : Nat) (key : Option (M → M → Bool)) : Conflation M := ⟨.new capacity key, [], [], []⟩

def step (t : Conflation M) : MailboxOp M → Conflation M
  | .send m =>
    match t.state.send m with
    | (s, .accepted n) => { t with state := s, accepted := t.accepted ++ [m], conflated := t.conflated ++ [n] }
    | (s, .closed _) => { t with state := s }
  | .sendUntil m deadline first second =>
    match t.state.sendUntil m deadline first second with
    | (s, .accepted n) => { t with state := s, accepted := t.accepted ++ [m], conflated := t.conflated ++ [n] }
    | (s, .closed _) => { t with state := s }
    | (s, .timeout _) => { t with state := s }
  | .recv =>
    match t.state.recv with
    | (s, .message m) => { t with state := s, received := t.received ++ [m] }
    | (s, _) => { t with state := s }
  | .tryRecv =>
    match t.state.tryRecv with
    | (s, .ok m) => { t with state := s, received := t.received ++ [m] }
    | (s, .error _) => { t with state := s }
  | .closeExternal => { t with state := t.state.closeExternal }
  | .dropReceiver => { t with state := t.state.dropReceiver }
  | .cloneSender => { t with state := t.state.cloneSender }
  | .dropSender => { t with state := t.state.dropSender }

def run (capacity : Nat) (key : Option (M → M → Bool)) (ops : List (MailboxOp M)) : Conflation M :=
  ops.foldl step (new capacity key)

/-- All that an operation can do to a mailbox: nothing to its queue, a message handed out
    from the front, or a message accepted while the mailbox is open. -/
inductive Move (t : Conflation M) : Conflation M → Prop
  | idle (s : ConflatingState M) : s.messages = t.state.messages → s.capacity = t.state.capacity →
      s.keyMatches = t.state.keyMatches → (s.accepting = true → t.state.accepting = true) → Move t { t with state := s }
  | taken (m : M) (rest : List M) : t.state.messages = m :: rest →
      Move t { t with state := { t.state with messages := rest }, received := t.received ++ [m] }
  | sent (m : M) (q : List M) (n : Nat) : t.state.accepting = true → Sent t.state m q n →
      Move t { t with state := { t.state with messages := q }, accepted := t.accepted ++ [m],
                      conflated := t.conflated ++ [n] }

variable {t t' : Conflation M} {capacity : Nat} {key : Option (M → M → Bool)}

theorem Move.still : Move t t := .idle t.state rfl rfl rfl id

theorem step_send (hcap : 1 ≤ t.state.capacity) (m : M) : Move t (t.step (.send m)) := by
  simp only [step]
  cases hopen : t.state.accepting with
  | false =>
    rw [send_closed hopen]
    exact .still
  | true =>
    obtain ⟨q, n, hsent, heq⟩ := send_sent (m := m) hcap hopen
    rw [heq]
    exact .sent m q n hopen hsent

theorem step_move (hcap : 1 ≤ t.state.capacity) (op : MailboxOp M) : Move t (t.step op) := by
  cases op with
  | send m => exact step_send hcap m
  | sendUntil m deadline first second =>
    by_cases hlate : deadline ≤ first ∨ deadline ≤ second
    · simp only [step]
      obtain heq | heq := sendUntil_late (s := t.state) (m := m) hlate
      · rw [heq]
        exact .still
      · rw [heq]
        exact .still
    · have heq := sendUntil_eq (s := t.state) (m := m) deadline first second (by omega) (by omega)
      have hsame : t.step (.sendUntil m deadline first second) = t.step (.send m) := by
        simp only [step]
        rw [heq]
        cases hs : t.state.send m with
        | mk s outcome => cases outcome <;> rfl
      rw [hsame]
      exact step_send hcap m
  | recv =>
    simp only [step, recv]
    cases hm : t.state.messages with
    | nil => cases hend : (t.state.receiverClosed || decide (t.state.senderCount = 0)) <;> exact .still
    | cons m rest => exact .taken m rest hm
  | tryRecv =>
    simp only [step, tryRecv]
    cases hm : t.state.messages with
    | nil => cases hend : (t.state.receiverClosed || decide (t.state.senderCount = 0)) <;> exact .still
    | cons m rest => exact .taken m rest hm
  | closeExternal => exact .idle _ rfl rfl rfl (by simp [accepting, closeExternal])
  | dropReceiver => exact .idle _ rfl rfl rfl (by simp [accepting, dropReceiver])
  | cloneSender => exact .idle _ rfl rfl rfl id
  | dropSender => exact .idle _ rfl rfl rfl id

/-! ## What the queue holds -/

/-- `m` is the last of its key in `l`. -/
def Latest (key : Option (M → M → Bool)) (l : List M) (m : M) : Prop :=
  ∃ before after, l = before ++ m :: after ∧ ∀ x ∈ after, sameKey key x m = false

theorem Latest.last (l : List M) (m : M) : Latest key (l ++ [m]) m := ⟨l, [], rfl, nofun⟩

theorem Latest.snoc {l : List M} {m x : M} (h : Latest key l x) (hne : sameKey key m x = false) :
    Latest key (l ++ [m]) x := by
  obtain ⟨before, after, hl, hafter⟩ := h
  refine ⟨before, after ++ [m], by rw [hl, List.append_assoc, List.cons_append], fun y hy => ?_⟩
  rcases List.mem_append.mp hy with hy | hy
  · exact hafter y hy
  · rw [List.mem_singleton.mp hy]
    exact hne

structure Kept (capacity : Nat) (key : Option (M → M → Bool)) (t : Conflation M) : Prop where
  capacity_eq : t.state.capacity = capacity
  key_eq : t.state.keyMatches = key
  bounded : t.state.messages.length ≤ capacity
  /-- At most one unread message of a key. -/
  apart : t.state.messages.Pairwise fun a b => sameKey key a b = false
  latest : ∀ m ∈ t.state.messages, Latest key t.accepted m
  balanced : t.accepted.length = t.received.length + t.conflated.sum + t.state.messages.length

section Keys

variable (hkey : Equivalence fun a b => sameKey key a b = true) {a b c : M}
include hkey

theorem apart_symm (h : sameKey key a b = false) : sameKey key b a = false := by
  by_contra hba
  have hab := hkey.symm (Bool.not_eq_false _ ▸ hba)
  rw [h] at hab
  cases hab

/-- A key apart from the replaced message is apart from the one that replaces it. -/
theorem apart_replaced (hsame : sameKey key a b = true) (h : sameKey key c a = false) : sameKey key c b = false := by
  by_contra hcb
  have hca := hkey.trans (Bool.not_eq_false _ ▸ hcb) (hkey.symm hsame)
  rw [h] at hca
  cases hca

theorem Kept.sent (h : t.Kept capacity key) {m : M} {q : List M} {n : Nat} (hs : Sent t.state m q n) :
    Kept capacity key { t with state := { t.state with messages := q }, accepted := t.accepted ++ [m],
                               conflated := t.conflated ++ [n] } := by
  have hbal := h.balanced
  have hlen := h.bounded
  cases hs with
  | replaced before old after hm hsame =>
    rw [h.key_eq] at hsame
    have hap := h.apart
    rw [hm, List.pairwise_append, List.pairwise_cons] at hap
    obtain ⟨hbefore, ⟨hold, hafter⟩, hcross⟩ := hap
    -- a message on either side of the old one is apart from the new one too
    have hleft : ∀ x ∈ before, sameKey key x m = false :=
      fun x hx => apart_replaced hkey hsame (hcross x hx old (List.mem_cons_self ..))
    have hright : ∀ x ∈ after, sameKey key x m = false :=
      fun x hx => apart_replaced hkey hsame (apart_symm hkey (hold x hx))
    refine ⟨h.capacity_eq, h.key_eq, ?_, ?_, fun x hx => ?_, ?_⟩
    · rw [hm] at hlen
      simpa using hlen
    · show (before ++ m :: after).Pairwise _
      rw [List.pairwise_append, List.pairwise_cons]
      refine ⟨hbefore, ⟨fun x hx => apart_symm hkey (hright x hx), hafter⟩, fun x hx y hy => ?_⟩
      rcases List.mem_cons.mp hy with rfl | hy
      · exact hleft x hx
      · exact hcross x hx y (List.mem_cons_of_mem _ hy)
    · have hside : x ∈ before ∨ x = m ∨ x ∈ after := by simpa using hx
      rcases hside with hx | rfl | hx
      · refine (h.latest x ?_).snoc (apart_symm hkey (hleft x hx))
        rw [hm]
        exact List.mem_append_left _ hx
      · exact .last ..
      · refine (h.latest x ?_).snoc (apart_symm hkey (hright x hx))
        rw [hm]
        exact List.mem_append_right _ (List.mem_cons_of_mem _ hx)
    · rw [hm] at hbal
      simp only [List.length_append, List.length_cons, List.length_nil, List.sum_append, List.sum_cons,
        List.sum_nil] at hbal ⊢
      omega
  | pushed hnew hroom =>
    rw [h.key_eq] at hnew
    rw [h.capacity_eq] at hroom
    refine ⟨h.capacity_eq, h.key_eq, ?_, ?_, fun x hx => ?_, ?_⟩
    · simp only [List.length_append, List.length_cons, List.length_nil]
      omega
    · show (t.state.messages ++ [m]).Pairwise _
      rw [List.pairwise_append]
      refine ⟨h.apart, List.pairwise_singleton .., fun x hx y hy => ?_⟩
      rw [List.mem_singleton.mp hy]
      exact hnew x hx
    · rcases List.mem_append.mp hx with hx | hx
      · exact (h.latest x hx).snoc (apart_symm hkey (hnew x hx))
      · rw [List.mem_singleton.mp hx]
        exact .last ..
    · simp only [List.length_append, List.length_cons, List.length_nil, List.sum_append, List.sum_cons, List.sum_nil]
      omega
  | evicted oldest rest hnew hfull hm =>
    rw [h.key_eq] at hnew
    have hrest : ∀ x ∈ rest, x ∈ t.state.messages := fun x hx => hm ▸ List.mem_cons_of_mem _ hx
    refine ⟨h.capacity_eq, h.key_eq, ?_, ?_, fun x hx => ?_, ?_⟩
    · rw [hm] at hlen
      simpa using hlen
    · show (rest ++ [m]).Pairwise _
      have hap := h.apart
      rw [hm, List.pairwise_cons] at hap
      rw [List.pairwise_append]
      refine ⟨hap.2, List.pairwise_singleton .., fun x hx y hy => ?_⟩
      rw [List.mem_singleton.mp hy]
      exact hnew x (hrest x hx)
    · rcases List.mem_append.mp hx with hx | hx
      · exact (h.latest x (hrest x hx)).snoc (apart_symm hkey (hnew x (hrest x hx)))
      · rw [List.mem_singleton.mp hx]
        exact .last ..
    · rw [hm] at hbal
      simp only [List.length_append, List.length_cons, List.length_nil, List.sum_append, List.sum_cons,
        List.sum_nil] at hbal ⊢
      omega

theorem Kept.move (h : t.Kept capacity key) (hmove : Move t t') : t'.Kept capacity key := by
  cases hmove with
  | idle s hmsgs hcap hk _ =>
    refine ⟨hcap ▸ h.capacity_eq, hk ▸ h.key_eq, hmsgs ▸ h.bounded, ?_, fun m hm => h.latest m (hmsgs ▸ hm), ?_⟩
    · show s.messages.Pairwise _
      rw [hmsgs]
      exact h.apart
    · show _ = _ + s.messages.length
      rw [hmsgs]
      exact h.balanced
  | taken m rest hm =>
    have hap := h.apart
    have hlen := h.bounded
    have hbal := h.balanced
    rw [hm] at hap hlen hbal
    refine ⟨h.capacity_eq, h.key_eq, Nat.le_of_succ_le hlen, (List.pairwise_cons.mp hap).2, fun x hx => ?_, ?_⟩
    · exact h.latest x (hm ▸ List.mem_cons_of_mem _ hx)
    · simp only [List.length_append, List.length_cons, List.length_nil] at hbal ⊢
      omega
  | sent m q n _ hs => exact h.sent hkey hs

end Keys

theorem new_kept (capacity : Nat) (key : Option (M → M → Bool)) : (new capacity key).Kept capacity key :=
  ⟨rfl, rfl, Nat.zero_le _, .nil, nofun, rfl⟩

theorem run_kept (hcap : 1 ≤ capacity) (hkey : Equivalence fun a b => sameKey key a b = true)
    (ops : List (MailboxOp M)) (h : t.Kept capacity key) : (ops.foldl step t).Kept capacity key := by
  induction ops generalizing t with
  | nil => exact h
  | cons op ops ih => exact ih (h.move hkey (step_move (h.capacity_eq ▸ hcap) op))

/-! ## A closed mailbox -/

theorem Move.shut (hmove : Move t t') (h : t.state.accepting = false) :
    t'.state.accepting = false ∧ t'.accepted = t.accepted := by
  cases hmove with
  | idle s _ _ _ hopen =>
    refine ⟨Bool.eq_false_iff.mpr fun hs => ?_, rfl⟩
    rw [hopen hs] at h
    cases h
  | taken m rest _ => exact ⟨h, rfl⟩
  | sent m q n hopen _ =>
    rw [hopen] at h
    cases h

theorem run_shut (hcap : 1 ≤ capacity) (hkey : Equivalence fun a b => sameKey key a b = true)
    (ops : List (MailboxOp M)) (h : t.Kept capacity key) (hshut : t.state.accepting = false) :
    (ops.foldl step t).accepted = t.accepted := by
  induction ops generalizing t with
  | nil => rfl
  | cons op ops ih =>
    have hmove := step_move (h.capacity_eq ▸ hcap) op
    obtain ⟨hshut', hsame⟩ := hmove.shut hshut
    exact (ih (h.move hkey hmove) hshut').trans hsame

/-- A latest-wins mailbox of any capacity, keyed or not, under any operations. -/
theorem mailbox_conflates (capacity : Nat) (key : Option (M → M → Bool)) (hcap : 1 ≤ capacity)
    (hkey : ∀ k, key = some k → Equivalence fun a b => k a b = true) (ops : List (MailboxOp M)) :
    -- a send before its deadline is a send
    (∀ m deadline first second, first ≤ second → second < deadline →
      (run capacity key ops).state.sendUntil m deadline first second =
        (((run capacity key ops).state.send m).1, ((run capacity key ops).state.send m).2.timed)) ∧
    -- the queue is bounded, holds one message a key, and the latest accepted of it
    (run capacity key ops).state.messages.length ≤ capacity ∧
    (run capacity key ops).state.messages.Pairwise (fun a b => sameKey key a b = false) ∧
    (∀ m ∈ (run capacity key ops).state.messages, Latest key (run capacity key ops).accepted m) ∧
    -- an operation takes the front, replaces a key in place, pushes, or evicts from a full queue
    (∀ op, Move (run capacity key ops) ((run capacity key ops).step op)) ∧
    -- after it is closed, nothing is accepted
    (∀ closing, closing = .closeExternal ∨ closing = .dropReceiver → ∀ later,
      (run capacity key (ops ++ closing :: later)).accepted = (run capacity key ops).accepted) ∧
    (run capacity key ops).accepted.length = (run capacity key ops).received.length +
      (run capacity key ops).conflated.sum + (run capacity key ops).state.messages.length := by
  have hsame : Equivalence fun a b => sameKey key a b = true := by
    cases key with
    | none => exact ⟨fun _ => rfl, fun _ => rfl, fun _ _ => rfl⟩
    | some k => exact hkey k rfl
  have h : (run capacity key ops).Kept capacity key := run_kept hcap hsame ops (new_kept capacity key)
  have hroom : 1 ≤ (run capacity key ops).state.capacity := by
    rw [h.capacity_eq]
    exact hcap
  refine ⟨fun m deadline first second hclock hin => sendUntil_eq _ _ _ (by omega) hin, h.bounded, h.apart, h.latest,
    step_move hroom, fun closing hclosing later => ?_, h.balanced⟩
  have hmove := step_move hroom closing
  have hshut : ((run capacity key ops).step closing).state.accepting = false ∧
      ((run capacity key ops).step closing).accepted = (run capacity key ops).accepted := by
    rcases hclosing with rfl | rfl
    · exact ⟨by simp [step, accepting, closeExternal], rfl⟩
    · exact ⟨by simp [step, accepting, dropReceiver], rfl⟩
  have hlater := run_shut hcap hsame later (h.move hsame hmove) hshut.1
  unfold run
  rw [List.foldl_append, List.foldl_cons]
  exact hlater.trans hshut.2

/-- Messages of a key each: a first one replaced, an old key evicted, a late send. -/
theorem mailbox_conflates_keyed :
    (run 2 (some fun a b : Nat × Nat => a.1 == b.1)
      [.send (1, 10), .send (2, 20), .send (1, 11), .sendUntil (3, 30) 9 7 8, .sendUntil (4, 40) 9 8 9,
        .recv]).received = [(2, 20)] ∧
    (run 2 (some fun a b : Nat × Nat => a.1 == b.1)
      [.send (1, 10), .send (2, 20), .send (1, 11), .sendUntil (3, 30) 9 7 8, .sendUntil (4, 40) 9 8 9,
        .recv]).accepted.length = 1 + 2 + 1 := by
  have h := (mailbox_conflates 2 (some fun a b : Nat × Nat => a.1 == b.1) (by decide)
    (fun k hk => by cases hk; exact ⟨fun a => beq_self_eq_true a.1, fun h => by simpa using (beq_iff_eq.mp h).symm,
      fun h₁ h₂ => by simpa using (beq_iff_eq.mp h₁).trans (beq_iff_eq.mp h₂)⟩)
    [.send (1, 10), .send (2, 20), .send (1, 11), .sendUntil (3, 30) 9 7 8, .sendUntil (4, 40) 9 8 9, .recv]).2.2.2.2.2.2
  exact ⟨by decide +kernel, h⟩

end Conflation

end Kokage.Actor

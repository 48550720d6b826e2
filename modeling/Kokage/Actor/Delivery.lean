/-
  Kokage.Actor.Delivery — sending to an actor through its binding (`actor/context.rs`:
  `send`, `send_timeout`, `try_send`, `call`; `actor/binding.rs`: `MailboxRef`).

  A call carries its message from mailbox to mailbox until one takes it or the call gives
  up. Each phase of a call ends at the next place where another thread may run: an await,
  a load of the intake flag, a reservation, the write into the mailbox, the counters.
  Between any two of them the binding may change, mailboxes close and fill, and the clock
  advances. A deadline fires at an await only, and not before its time; it may be seen
  late, so a branch that is ready may still win. Tracing and message sizes are left out.

  `taken` and `counted` are history: which call each mailbox took a message from, and
  which call each step of the two counters is for; a mailbox keeps what was received from
  it and what a later message displaced. Over every run (`send_accounted`) a call that has
  returned was taken at most once, returned `Ok` just when it was, gives back its own
  message otherwise, and is counted once, as what it returned; and what a mailbox holds,
  gave out or displaced is exactly what it took.
-/

import Mathlib.Data.List.Induction
import Mathlib.Data.List.Perm.Basic
import Kokage.Actor.Binding

namespace Kokage.Actor

open Kokage.Supervisor

/-! ## Mailboxes -/

inductive MailboxKind (M : Type) where
  | queue
  | latest
  | latestByKey (keyMatches : M → M → Bool)

structure Mailbox (M : Type) where
  kind : MailboxKind M
  capacity : Nat
  messages : List M := []
  /-- Slots of a queue that are reserved and not yet written. -/
  permits : Nat := 0
  acceptingExternal : Bool := true
  receiverClosed : Bool := false
  /-- History: what the receiver got, and what a later message displaced. -/
  received : List M := []
  conflated : List M := []

namespace Mailbox

variable {M : Type}

def isQueue (b : Mailbox M) : Bool :=
  match b.kind with
  | .queue => true
  | .latest | .latestByKey _ => false

/-- The write of a message, under the lock or with a permit: how many messages it displaced. -/
def write (b : Mailbox M) (message : M) : Nat × Mailbox M :=
  match b.kind with
  | .queue => (0, { b with messages := b.messages ++ [message], permits := b.permits - 1 })
  | .latest =>
    match b.messages with
    | [] => (0, { b with messages := [message] })
    | old :: rest => (1, { b with messages := message :: rest, conflated := b.conflated ++ [old] })
  | .latestByKey keyMatches =>
    match b.messages.findIdx? (fun queued => keyMatches queued message) with
    | some i =>
      (1, { b with messages := b.messages.set i message, conflated := b.conflated ++ b.messages[i]?.toList })
    | none =>
      if b.messages.length = b.capacity then
        (1, { b with messages := b.messages.tail ++ [message], conflated := b.conflated ++ b.messages.take 1 })
      else (0, { b with messages := b.messages ++ [message] })

/-- The receiver takes the oldest message. -/
def receive (b : Mailbox M) : Mailbox M :=
  { b with messages := b.messages.tail, received := b.received ++ b.messages.take 1 }

/-- Every message that came into the mailbox, wherever it is now. -/
def contents (b : Mailbox M) : List M := b.received ++ b.conflated ++ b.messages

/-- The mailbox answers for what it took; a queue gives it out in that order. -/
structure Stocks (b : Mailbox M) (takings : List M) : Prop where
  contents : b.contents.Perm takings
  inOrder : b.isQueue = true → b.received ++ b.messages = takings

variable {b : Mailbox M} {takings : List M}

theorem receive_stocks (h : b.Stocks takings) : b.receive.Stocks takings := by
  have hsplit : b.messages.take 1 ++ b.messages.tail = b.messages := by
    rw [← List.drop_one, List.take_append_drop]
  constructor
  · have hswap : (b.received ++ b.messages.take 1 ++ b.conflated ++ b.messages.tail).Perm
        (b.received ++ b.conflated ++ (b.messages.take 1 ++ b.messages.tail)) := by
      simp only [List.append_assoc]
      refine List.Perm.append_left _ ?_
      rw [← List.append_assoc, ← List.append_assoc]
      exact List.perm_append_comm.append_right _
    rw [hsplit] at hswap
    exact hswap.trans h.contents
  · intro hq
    show b.received ++ b.messages.take 1 ++ b.messages.tail = takings
    rw [List.append_assoc, hsplit]
    exact h.inOrder hq

/-- What is displaced is kept in the history, so a write adds the message and loses none. -/
theorem write_contents (b : Mailbox M) (message : M) : (b.write message).2.contents.Perm (b.contents ++ [message]) := by
  -- in each case the queue and what it displaced are the old queue with the message
  have hperm : ∀ out queue : List M, (out ++ queue).Perm (b.messages ++ [message]) →
      (b.received ++ (b.conflated ++ out) ++ queue).Perm (b.contents ++ [message]) := by
    intro out queue h
    simp only [contents, List.append_assoc]
    exact (h.append_left _).append_left _
  have hkeep : (b.received ++ b.conflated ++ (b.messages ++ [message])).Perm (b.contents ++ [message]) := by
    rw [← List.append_assoc]
    exact List.Perm.refl _
  unfold write
  split
  · exact hkeep
  · split
    · rename_i hm
      rw [hm] at hkeep
      exact hkeep
    · rename_i old rest hm
      refine hperm [old] (message :: rest) ?_
      rw [hm]
      exact (List.perm_append_singleton message rest).symm.cons old
  · split
    · rename_i i hi
      obtain ⟨hlt, -⟩ := List.findIdx?_eq_some_iff_getElem.mp hi
      refine hperm _ (b.messages.set i message) ?_
      rw [List.getElem?_eq_getElem hlt]
      refine ((List.set_perm_cons_eraseIdx hlt message).append_left _).trans ?_
      refine (List.Perm.swap _ _ _).trans ?_
      exact ((List.getElem_cons_eraseIdx_perm hlt).cons message).trans (List.perm_append_singleton message _).symm
    · split
      · refine hperm (b.messages.take 1) (b.messages.tail ++ [message]) ?_
        rw [← List.append_assoc, ← List.drop_one, List.take_append_drop]
      · exact hkeep

theorem write_stocks (h : b.Stocks takings) (message : M) : (b.write message).2.Stocks (takings ++ [message]) := by
  refine ⟨(b.write_contents message).trans (h.contents.append_right _), ?_⟩
  intro hq
  unfold write at hq ⊢
  cases hk : b.kind with
  | queue =>
    have hb : b.isQueue = true := by
      unfold isQueue
      rw [hk]
    simp only
    rw [← List.append_assoc, h.inOrder hb]
  | latest => grind [isQueue]
  | latestByKey keyMatches => grind [isQueue]

end Mailbox

/-! ## Calls -/

inductive SendErrorKind where
  | notRunning
  | full
  | timedOut
  | terminated
  deriving DecidableEq, Repr

inductive CallError where
  | terminated
  | acceptanceTimedOut
  | replyDropped
  | responseTimedOut
  deriving DecidableEq, Repr

inductive Operation where
  | send
  | sendTimeout
  | trySend
  /-- `send_until`, then the wait for the reply -/
  | call
  deriving DecidableEq, Repr

namespace Operation

/-- The operations that run `send_until`. -/
def isTimed : Operation → Bool
  | sendTimeout | call => true
  | send | trySend => false

/-- The errors the operation returns. -/
def errs (o : Operation) (kind : SendErrorKind) : Bool :=
  match o, kind with
  | send, .terminated => true
  | sendTimeout, .terminated | sendTimeout, .timedOut | call, .terminated | call, .timedOut => true
  | trySend, .notRunning | trySend, .full | trySend, .terminated => true
  | _, _ => false

end Operation

/-- Where a call has come to, with the message while it holds it. -/
inductive CallPhase (M : Type) where
  /-- `wait_for_next_mailbox`, or the single look of `try_send` -/
  | resolving (message : M)
  /-- before the first load of the intake flag -/
  | checking (mailbox : Nat) (message : M)
  | reserving (mailbox : Nat) (message : M)
  /-- with a permit, before the second load -/
  | reserved (mailbox : Nat) (message : M)
  /-- with a permit, and the intake seen open -/
  | cleared (mailbox : Nat) (message : M)
  /-- `consume_budget`, before the lock of a conflating mailbox -/
  | yielding (mailbox : Nat) (message : M)
  /-- `wait_for_rebind_or_termination` -/
  | rebinding (stale : Nat) (message : M)
  | accepted (mailbox : Nat) (conflated : Nat)
  | refused (message : M) (kind : SendErrorKind)
  | returned (result : Except (M × SendErrorKind) Nat)
  | awaitingReply
  | answered (result : Except CallError Unit)
  /-- the `unreachable!` of `call` -/
  | unreachable
  /-- its future was dropped -/
  | cancelled

structure Call (M : Type) where
  operation : Operation
  message : M
  /-- Set for the timed operations. -/
  deadline : Option Instant
  phase : CallPhase M

namespace Call

variable {M : Type}

def expired (c : Call M) (now : Instant) : Bool := c.deadline.any fun d => decide (d ≤ now)

/-- The call came back from a closed mailbox: `try_send` gives up, the others wait. -/
def closed (c : Call M) (mailbox : Nat) (message : M) : CallPhase M :=
  if c.operation = .trySend then .refused message .notRunning else .rebinding mailbox message

end Call

/-! ## The system -/

structure Traffic (M : Type) where
  binding : BindingState
  /-- The binding's source was dropped. -/
  bindingClosed : Bool
  mailboxes : List (Mailbox M)
  now : Instant
  messagesAccepted : Nat
  sendsRejected : Nat
  messagesConflated : Nat
  calls : List (Call M)
  taken : List (Nat × Nat × M)
  counted : List (Nat × Bool)

inductive TrafficAction (M : Type) where
  /-- A run binds its own fresh mailbox. -/
  | bind (kind : MailboxKind M) (capacity : Nat)
  | unbind
  | terminate
  | dropBinding
  | closeExternal (mailbox : Nat)
  | closeReceiver (mailbox : Nat)
  | receive (mailbox : Nat)
  | tick (d : Duration)
  | begin (operation : Operation) (message : M) (bound : Duration)
  /-- The call's next step. -/
  | go (call : Nat)
  /-- Its deadline fires. -/
  | timer (call : Nat)
  | cancel (call : Nat)
  | reply (call : Nat) (answer : Bool)

namespace Traffic

variable {M : Type}

def new : Traffic M := ⟨.unbound, false, [], 0, 0, 0, 0, [], [], []⟩

def onMailbox (w : Traffic M) (mailbox : Nat) (f : Mailbox M → Mailbox M) : Traffic M :=
  { w with mailboxes := w.mailboxes.modify mailbox f }

def setPhase (w : Traffic M) (call : Nat) (phase : CallPhase M) : Traffic M :=
  { w with calls := w.calls.modify call fun c => { c with phase := phase } }

/-- The mailbox takes the message. -/
def take (w : Traffic M) (call mailbox : Nat) (b : Mailbox M) (message : M) : Traffic M :=
  let (conflated, b) := b.write message
  { w.onMailbox mailbox fun _ => b with taken := w.taken ++ [(call, mailbox, message)] }.setPhase call
    (.accepted mailbox conflated)

/-- `record_send`. -/
def recordSend (w : Traffic M) (call : Nat) (accepted : Bool) : Traffic M :=
  { w with
    messagesAccepted := if accepted then w.messagesAccepted + 1 else w.messagesAccepted
    sendsRejected := if accepted then w.sendsRejected else w.sendsRejected + 1
    counted := w.counted ++ [(call, accepted)] }

/-- A permit is dropped. -/
def release (w : Traffic M) (mailbox : Nat) : Traffic M := w.onMailbox mailbox fun b => { b with permits := b.permits - 1 }

/-- The binding has nothing for the call: it waits, unless it is told not to. -/
def unresolved (w : Traffic M) (call : Nat) (c : Call M) (message : M) : Traffic M :=
  if w.bindingClosed then w.setPhase call (.refused message .terminated)
  else if c.operation = .trySend then w.setPhase call (.refused message .notRunning)
  else w

/-- The locked section of a conflating mailbox. -/
def conflate (w : Traffic M) (call : Nat) (c : Call M) (mailbox : Nat) (b : Mailbox M) (message : M) : Traffic M :=
  if b.receiverClosed || !b.acceptingExternal then w.setPhase call (c.closed mailbox message)
  else if c.expired w.now then w.setPhase call (.refused message .timedOut)
  else w.take call mailbox b message

/-- `reserve` and `try_reserve`. -/
def reserve (w : Traffic M) (call : Nat) (c : Call M) (mailbox : Nat) (b : Mailbox M) (message : M) : Traffic M :=
  if b.receiverClosed then w.setPhase call (c.closed mailbox message)
  else if b.messages.length + b.permits < b.capacity then
    (w.onMailbox mailbox fun b => { b with permits := b.permits + 1 }).setPhase call (.reserved mailbox message)
  else if c.operation = .trySend then w.setPhase call (.refused message .full)
  else w

/-- What `call` makes of the return of its send. -/
def afterSend : Except (M × SendErrorKind) Nat → CallPhase M
  | .ok _ => .awaitingReply
  | .error (_, .terminated) => .answered (.error .terminated)
  | .error (_, .timedOut) => .answered (.error .acceptanceTimedOut)
  | .error (_, .notRunning) | .error (_, .full) => .unreachable

def go (w : Traffic M) (call : Nat) (c : Call M) : Traffic M :=
  match c.phase with
  | .resolving message =>
    match w.binding with
    | .bound mailbox => w.setPhase call (.checking mailbox message)
    | .unbound => w.unresolved call c message
    | .terminated => w.setPhase call (.refused message .terminated)
  | .checking mailbox message =>
    match w.mailboxes[mailbox]? with
    | none => w
    | some b =>
      if b.isQueue then
        w.setPhase call (if b.acceptingExternal then .reserving mailbox message else c.closed mailbox message)
      else if c.operation = .trySend then w.conflate call c mailbox b message
      else w.setPhase call (.yielding mailbox message)
  | .reserving mailbox message =>
    match w.mailboxes[mailbox]? with
    | none => w
    | some b => w.reserve call c mailbox b message
  | .reserved mailbox message =>
    match w.mailboxes[mailbox]? with
    | none => w
    | some b =>
      if b.acceptingExternal then w.setPhase call (.cleared mailbox message)
      else (w.release mailbox).setPhase call (c.closed mailbox message)
  | .cleared mailbox message =>
    match w.mailboxes[mailbox]? with
    | none => w
    | some b =>
      if c.expired w.now then (w.release mailbox).setPhase call (.refused message .timedOut)
      else w.take call mailbox b message
  | .yielding mailbox message =>
    match w.mailboxes[mailbox]? with
    | none => w
    | some b => w.conflate call c mailbox b message
  | .rebinding stale message =>
    match w.binding with
    | .bound mailbox =>
      if mailbox ≠ stale then w.setPhase call (.resolving message)
      else if w.bindingClosed then w.setPhase call (.refused message .terminated)
      else w
    | .unbound => w.unresolved call c message
    | .terminated => w.setPhase call (.refused message .terminated)
  | .accepted mailbox conflated =>
    { w.recordSend call true with messagesConflated := w.messagesConflated + conflated }.setPhase call (.returned (.ok mailbox))
  | .refused message kind => (w.recordSend call false).setPhase call (.returned (.error (message, kind)))
  | .returned result => if c.operation = .call then w.setPhase call (afterSend result) else w
  | .awaitingReply | .answered _ | .unreachable | .cancelled => w

/-- The awaits a deadline is raced against. -/
def timer (w : Traffic M) (call : Nat) (c : Call M) : Traffic M :=
  if c.expired w.now then
    match c.phase with
    | .resolving message | .reserving _ message | .yielding _ message | .rebinding _ message =>
      w.setPhase call (.refused message .timedOut)
    | .awaitingReply => w.setPhase call (.answered (.error .responseTimedOut))
    | _ => w
  else w

/-- A future can be dropped at any await. -/
def cancel (w : Traffic M) (call : Nat) (c : Call M) : Traffic M :=
  if c.operation = .trySend then w
  else match c.phase with
    | .resolving _ | .reserving _ _ | .yielding _ _ | .rebinding _ _ | .awaitingReply => w.setPhase call .cancelled
    | _ => w

def answer (w : Traffic M) (call : Nat) (c : Call M) (answer : Bool) : Traffic M :=
  match c.phase with
  | .awaitingReply => w.setPhase call (.answered (if answer then .ok () else .error .replyDropped))
  | _ => w

/-- What is done to a call, if there is one. -/
def onCall (w : Traffic M) (call : Nat) (f : Traffic M → Nat → Call M → Traffic M) : Traffic M :=
  match w.calls[call]? with
  | none => w
  | some c => f w call c

def step (w : Traffic M) : TrafficAction M → Traffic M
  | .bind kind capacity =>
    { w with mailboxes := w.mailboxes ++ [{ kind := kind, capacity := capacity }], binding := .bound w.mailboxes.length }
  | .unbind => { w with binding := if w.binding.isBound then .unbound else w.binding }
  | .terminate => { w with binding := .terminated }
  | .dropBinding => { w with bindingClosed := true }
  | .closeExternal mailbox => w.onMailbox mailbox fun b => { b with acceptingExternal := false }
  | .closeReceiver mailbox => w.onMailbox mailbox fun b => { b with receiverClosed := true }
  | .receive mailbox => w.onMailbox mailbox fun b => b.receive
  | .tick d => { w with now := w.now + d }
  | .begin operation message bound =>
    { w with calls := w.calls ++ [⟨operation, message, if operation.isTimed then some (w.now + bound) else none,
      .resolving message⟩] }
  | .go call => w.onCall call go
  | .timer call => w.onCall call timer
  | .cancel call => w.onCall call cancel
  | .reply call answer => w.onCall call fun w i c => w.answer i c answer

def run (actions : List (TrafficAction M)) : Traffic M := actions.foldl step new

/-- The takings of one call. -/
def takes (w : Traffic M) (call : Nat) : List (Nat × Nat × M) := w.taken.filter fun t => t.1 = call

/-- What one mailbox took, in order. -/
def takings (w : Traffic M) (mailbox : Nat) : List M := (w.taken.filter fun t => t.2.1 = mailbox).map (·.2.2)

/-- The steps of the counters for one call. -/
def counts (w : Traffic M) (call : Nat) : List (Nat × Bool) := w.counted.filter fun t => t.1 = call

end Traffic

/-! ## The account of a call -/

/-- What has been taken and counted of a call, by its phase. -/
def Call.Account {M : Type} (i : Nat) (c : Call M) (takes : List (Nat × Nat × M)) (counts : List (Nat × Bool)) : Prop :=
  match c.phase with
  | .resolving m | .checking _ m | .reserving _ m | .reserved _ m | .cleared _ m => m = c.message ∧ takes = [] ∧ counts = []
  | .yielding _ m | .rebinding _ m => m = c.message ∧ takes = [] ∧ counts = [] ∧ c.operation ≠ .trySend
  | .accepted b _ => takes = [(i, b, c.message)] ∧ counts = []
  | .refused m kind => m = c.message ∧ takes = [] ∧ counts = [] ∧ c.operation.errs kind = true
  | .returned (.ok b) => takes = [(i, b, c.message)] ∧ counts = [(i, true)]
  | .returned (.error (m, kind)) => m = c.message ∧ takes = [] ∧ counts = [(i, false)] ∧ c.operation.errs kind = true
  | .awaitingReply => ∃ b, takes = [(i, b, c.message)]
  | .answered (.error .acceptanceTimedOut) | .answered (.error .terminated) => takes = []
  | .answered _ => ∃ b, takes = [(i, b, c.message)]
  | .unreachable => False
  | .cancelled => takes = [] ∨ ∃ b, takes = [(i, b, c.message)]

/-- Whatever becomes of a call, its own message is taken, and once. -/
theorem Call.Account.takes_own {M : Type} {i : Nat} {c : Call M} {takes : List (Nat × Nat × M)} {counts : List (Nat × Bool)}
    (h : c.Account i takes counts) : takes = [] ∨ ∃ b, takes = [(i, b, c.message)] := by
  unfold Call.Account at h
  split at h
  all_goals grind

theorem Call.Account.takes_le {M : Type} {i : Nat} {c : Call M} {takes : List (Nat × Nat × M)} {counts : List (Nat × Bool)}
    (h : c.Account i takes counts) : takes.length ≤ 1 := by
  rcases h.takes_own with ht | ⟨b, ht⟩
  · rw [ht]
    exact Nat.zero_le 1
  · rw [ht]
    exact Nat.le_refl 1

/-- Only timed operations have a deadline. -/
structure Call.Inv {M : Type} (i : Nat) (c : Call M) (takes : List (Nat × Nat × M)) (counts : List (Nat × Bool)) : Prop where
  timed : c.operation.isTimed = false → c.deadline = none
  account : c.Account i takes counts

namespace Traffic

variable {M : Type} {w w' : Traffic M} {i : Nat} {c : Call M}

structure Inv (w : Traffic M) : Prop where
  calls : ∀ i (c : Call M), w.calls[i]? = some c → c.Inv i (w.takes i) (w.counts i)
  taken_lt : ∀ t ∈ w.taken, t.1 < w.calls.length
  counted_lt : ∀ t ∈ w.counted, t.1 < w.calls.length
  accepted_eq : w.messagesAccepted = w.counted.countP (·.2)
  rejected_eq : w.sendsRejected = w.counted.countP (!·.2)

theorem Inv.quiet (h : w.Inv) (hcalls : w'.calls = w.calls) (htaken : w'.taken = w.taken) (hcounted : w'.counted = w.counted)
    (hacc : w'.messagesAccepted = w.messagesAccepted) (hrej : w'.sendsRejected = w.sendsRejected) : w'.Inv := by
  refine ⟨?_, ?_, ?_, ?_, ?_⟩
  · intro i c hc
    unfold takes counts
    rw [htaken, hcounted]
    rw [hcalls] at hc
    exact h.calls i c hc
  · rw [htaken, hcalls]
    exact h.taken_lt
  · rw [hcounted, hcalls]
    exact h.counted_lt
  · rw [hacc, hcounted]
    exact h.accepted_eq
  · rw [hrej, hcounted]
    exact h.rejected_eq

theorem Inv.move {phase : CallPhase M} (ts : List (Nat × Nat × M)) (cs : List (Nat × Bool)) (h : w.Inv)
    (hc : w.calls[i]? = some c) (hcalls : w'.calls = w.calls.modify i fun c => { c with phase := phase })
    (htaken : w'.taken = w.taken ++ ts) (hts : ∀ t ∈ ts, t.1 = i) (hcounted : w'.counted = w.counted ++ cs)
    (hcs : ∀ t ∈ cs, t.1 = i) (hacc : w'.messagesAccepted = w.messagesAccepted + cs.countP (·.2))
    (hrej : w'.sendsRejected = w.sendsRejected + cs.countP (!·.2))
    (hinv : Call.Account i { c with phase := phase } (w.takes i ++ ts) (w.counts i ++ cs)) : w'.Inv := by
  have hi : i < w.calls.length := (List.getElem?_eq_some_iff.mp hc).1
  have hlen : w'.calls.length = w.calls.length := by
    rw [hcalls, List.length_modify]
  -- the books of the others stand
  have hbooks : ∀ j, w'.takes j = w.takes j ++ (if j = i then ts else []) ∧ w'.counts j = w.counts j ++ (if j = i then cs else []) := by
    intro j
    unfold takes counts
    rw [htaken, hcounted, List.filter_append, List.filter_append]
    by_cases hj : j = i
    · subst hj
      rw [List.filter_eq_self.mpr fun t ht => decide_eq_true (hts t ht),
        List.filter_eq_self.mpr fun t ht => decide_eq_true (hcs t ht)]
      simp
    · have hno : ∀ t ∈ ts, ¬ decide (t.1 = j) = true := fun t ht he => hj (by rw [← of_decide_eq_true he]; exact hts t ht)
      have hno' : ∀ t ∈ cs, ¬ decide (t.1 = j) = true := fun t ht he => hj (by rw [← of_decide_eq_true he]; exact hcs t ht)
      rw [List.filter_eq_nil_iff.mpr hno, List.filter_eq_nil_iff.mpr hno']
      simp [hj]
  refine ⟨?_, ?_, ?_, ?_, ?_⟩
  · intro j d hd
    rw [(hbooks j).1, (hbooks j).2]
    rw [hcalls, List.getElem?_modify] at hd
    by_cases hj : j = i
    · subst hj
      simp only [hc, if_true, Option.map_eq_map, Option.map_some, Option.some.injEq] at hd
      subst hd
      simp only [if_true]
      exact ⟨(h.calls j c hc).timed, hinv⟩
    · simp only [if_neg fun e => hj (Eq.symm e), Option.map_eq_map, Option.map_id'] at hd
      simp only [if_neg hj, List.append_nil]
      exact h.calls j d hd
  · intro t ht
    rw [hlen]
    rw [htaken] at ht
    rcases List.mem_append.mp ht with ht | ht
    · exact h.taken_lt t ht
    · rw [hts t ht]
      exact hi
  · intro t ht
    rw [hlen]
    rw [hcounted] at ht
    rcases List.mem_append.mp ht with ht | ht
    · exact h.counted_lt t ht
    · rw [hcs t ht]
      exact hi
  · rw [hacc, hcounted, List.countP_append, h.accepted_eq]
  · rw [hrej, hcounted, List.countP_append, h.rejected_eq]

theorem Inv.setPhase {phase : CallPhase M} (h : w.Inv) (hc : w.calls[i]? = some c)
    (hinv : Call.Account i { c with phase := phase } (w.takes i) (w.counts i)) : (w.setPhase i phase).Inv := by
  refine h.move [] [] hc rfl (List.append_nil _).symm nofun (List.append_nil _).symm nofun rfl rfl ?_
  rw [List.append_nil, List.append_nil]
  exact hinv

/-! ## Steps -/

theorem Inv.onMailbox (h : w.Inv) (mailbox : Nat) (f : Mailbox M → Mailbox M) : (w.onMailbox mailbox f).Inv :=
  h.quiet rfl rfl rfl rfl rfl

theorem errs_timedOut (h : w.Inv) (hc : w.calls[i]? = some c) (he : c.expired w.now = true) :
    c.operation.errs .timedOut = true := by
  cases ho : c.operation.isTimed with
  | false =>
    have hd := (h.calls i c hc).timed ho
    unfold Call.expired at he
    rw [hd] at he
    cases he
  | true => cases hop : c.operation <;> simp_all [Operation.isTimed, Operation.errs]

theorem errs_terminated (o : Operation) : o.errs .terminated = true := by
  cases o <;> rfl

/-- The message is still with the call, and nothing was taken or counted. -/
def Carries (i : Nat) (c : Call M) (message : M) (w : Traffic M) : Prop :=
  message = c.message ∧ w.takes i = [] ∧ w.counts i = []

variable {message : M} {mailbox : Nat}

theorem Inv.refuse {kind : SendErrorKind} (h : w.Inv) (hc : w.calls[i]? = some c) (hm : Carries i c message w)
    (hk : c.operation.errs kind = true) : (w.setPhase i (.refused message kind)).Inv :=
  h.setPhase hc ⟨hm.1, hm.2.1, hm.2.2, hk⟩

theorem Inv.closed (h : w.Inv) (hc : w.calls[i]? = some c) (hm : Carries i c message w) :
    (w.setPhase i (c.closed mailbox message)).Inv := by
  unfold Call.closed
  by_cases ho : c.operation = .trySend
  · rw [if_pos ho]
    refine h.refuse hc hm ?_
    rw [ho]
    rfl
  · rw [if_neg ho]
    exact h.setPhase hc ⟨hm.1, hm.2.1, hm.2.2, ho⟩

theorem Inv.unresolved (h : w.Inv) (hc : w.calls[i]? = some c) (hm : Carries i c message w) :
    (w.unresolved i c message).Inv := by
  unfold Traffic.unresolved
  split
  · exact h.refuse hc hm (errs_terminated _)
  · split
    · rename_i ho
      refine h.refuse hc hm ?_
      rw [ho]
      rfl
    · exact h

/-- The write: the message is taken, once, and the call has it no longer. -/
theorem Inv.take (h : w.Inv) (hc : w.calls[i]? = some c) (hm : Carries i c message w) (b : Mailbox M) :
    (w.take i mailbox b message).Inv := by
  refine h.move [(i, mailbox, message)] [] hc rfl rfl ?_ (List.append_nil _).symm nofun rfl rfl ?_
  · intro t ht
    rw [List.mem_singleton.mp ht]
  · rw [hm.2.1, hm.2.2]
    exact ⟨by rw [hm.1]; rfl, rfl⟩

theorem Inv.conflate (h : w.Inv) (hc : w.calls[i]? = some c) (hm : Carries i c message w) (b : Mailbox M) :
    (w.conflate i c mailbox b message).Inv := by
  unfold Traffic.conflate
  split
  · exact h.closed hc hm
  · split
    · rename_i he
      exact h.refuse hc hm (errs_timedOut h hc he)
    · exact h.take hc hm b

theorem Inv.reserve (h : w.Inv) (hc : w.calls[i]? = some c) (hm : Carries i c message w) (b : Mailbox M) :
    (w.reserve i c mailbox b message).Inv := by
  unfold Traffic.reserve
  split
  · exact h.closed hc hm
  · split
    · exact (h.onMailbox mailbox _).setPhase hc hm
    · split
      · rename_i ho
        refine h.refuse hc hm ?_
        rw [ho]
        rfl
      · exact h

theorem Inv.count {phase : CallPhase M} {accepted : Bool} (h : w.Inv) (hc : w.calls[i]? = some c) (conflated : Nat)
    (hinv : Call.Account i { c with phase := phase } (w.takes i) (w.counts i ++ [(i, accepted)])) :
    ({ w.recordSend i accepted with messagesConflated := conflated }.setPhase i phase).Inv := by
  refine h.move [] [(i, accepted)] hc rfl (List.append_nil _).symm nofun rfl ?_ ?_ ?_ ?_
  · intro t ht
    rw [List.mem_singleton.mp ht]
  · cases accepted <;> rfl
  · cases accepted <;> rfl
  · rw [List.append_nil]
    exact hinv

theorem Inv.go (h : w.Inv) (hc : w.calls[i]? = some c) : (w.go i c).Inv := by
  have hacc := (h.calls i c hc).account
  unfold Call.Account at hacc
  unfold Traffic.go
  cases hp : c.phase with
  | resolving m =>
    rw [hp] at hacc
    simp only
    split
    · exact h.setPhase hc hacc
    · exact h.unresolved hc hacc
    · exact h.refuse hc hacc (errs_terminated _)
  | checking b m =>
    rw [hp] at hacc
    simp only
    split
    · exact h
    · rename_i mb _
      split
      · split
        · exact h.setPhase hc hacc
        · exact h.closed hc hacc
      · split
        · exact h.conflate hc hacc mb
        · rename_i ho
          exact h.setPhase hc ⟨hacc.1, hacc.2.1, hacc.2.2, ho⟩
  | reserving b m =>
    rw [hp] at hacc
    simp only
    split
    · exact h
    · exact h.reserve hc hacc _
  | reserved b m =>
    rw [hp] at hacc
    simp only
    split
    · exact h
    · split
      · exact h.setPhase hc hacc
      · exact (h.onMailbox b _).closed hc hacc
  | cleared b m =>
    rw [hp] at hacc
    simp only
    split
    · exact h
    · split
      · rename_i he
        exact (h.onMailbox b _).refuse hc hacc (errs_timedOut h hc he)
      · exact h.take hc hacc _
  | yielding b m =>
    rw [hp] at hacc
    simp only
    split
    · exact h
    · exact h.conflate hc ⟨hacc.1, hacc.2.1, hacc.2.2.1⟩ _
  | rebinding b m =>
    rw [hp] at hacc
    have hm : Carries i c m w := ⟨hacc.1, hacc.2.1, hacc.2.2.1⟩
    simp only
    split
    · split
      · exact h.setPhase hc hm
      · split
        · exact h.refuse hc hm (errs_terminated _)
        · exact h
    · exact h.unresolved hc hm
    · exact h.refuse hc hm (errs_terminated _)
  | accepted b n =>
    rw [hp] at hacc
    refine h.count hc _ ⟨hacc.1, ?_⟩
    rw [hacc.2]
    rfl
  | refused m kind =>
    rw [hp] at hacc
    show ({ w.recordSend i false with messagesConflated := w.messagesConflated }.setPhase i (.returned (.error (m, kind)))).Inv
    refine h.count hc w.messagesConflated ⟨hacc.1, hacc.2.1, ?_, hacc.2.2.2⟩
    rw [hacc.2.2.1]
    rfl
  | returned r =>
    rw [hp] at hacc
    simp only
    split
    · rename_i ho
      -- a timed send returns one of two errors
      cases r with
      | ok b => exact h.setPhase hc ⟨b, hacc.1⟩
      | error e =>
        obtain ⟨m, kind⟩ := e
        obtain ⟨-, ht, -, he⟩ := hacc
        rw [ho] at he
        cases kind with
        | notRunning => cases he
        | full => cases he
        | timedOut => exact h.setPhase hc ht
        | terminated => exact h.setPhase hc ht
    · exact h
  | awaitingReply => exact h
  | answered r => exact h
  | unreachable => exact h
  | cancelled => exact h

theorem Inv.timer (h : w.Inv) (hc : w.calls[i]? = some c) : (w.timer i c).Inv := by
  have hacc := (h.calls i c hc).account
  unfold Call.Account at hacc
  unfold Traffic.timer
  split
  · rename_i he
    have hk := errs_timedOut h hc he
    cases hp : c.phase with
    | resolving m =>
      rw [hp] at hacc
      exact h.refuse hc hacc hk
    | reserving b m =>
      rw [hp] at hacc
      exact h.refuse hc hacc hk
    | yielding b m =>
      rw [hp] at hacc
      exact h.refuse hc ⟨hacc.1, hacc.2.1, hacc.2.2.1⟩ hk
    | rebinding b m =>
      rw [hp] at hacc
      exact h.refuse hc ⟨hacc.1, hacc.2.1, hacc.2.2.1⟩ hk
    | awaitingReply =>
      rw [hp] at hacc
      exact h.setPhase hc hacc
    | _ => exact h
  · exact h

theorem Inv.cancel (h : w.Inv) (hc : w.calls[i]? = some c) : (w.cancel i c).Inv := by
  have hacc := (h.calls i c hc).account
  unfold Call.Account at hacc
  have hnone : w.takes i = [] → (w.setPhase i .cancelled).Inv := by
    intro ht
    exact h.setPhase hc (.inl ht)
  unfold Traffic.cancel
  split
  · exact h
  · cases hp : c.phase with
    | resolving m =>
      rw [hp] at hacc
      exact hnone hacc.2.1
    | reserving b m =>
      rw [hp] at hacc
      exact hnone hacc.2.1
    | yielding b m =>
      rw [hp] at hacc
      exact hnone hacc.2.1
    | rebinding b m =>
      rw [hp] at hacc
      exact hnone hacc.2.1
    | awaitingReply =>
      rw [hp] at hacc
      obtain ⟨b, ht⟩ := hacc
      exact h.setPhase hc (.inr ⟨b, ht⟩)
    | _ => exact h

theorem Inv.answer (h : w.Inv) (hc : w.calls[i]? = some c) (answer : Bool) : (w.answer i c answer).Inv := by
  have hacc := (h.calls i c hc).account
  unfold Call.Account at hacc
  unfold Traffic.answer
  cases hp : c.phase with
  | awaitingReply =>
    rw [hp] at hacc
    cases answer with
    | true => exact h.setPhase hc hacc
    | false => exact h.setPhase hc hacc
  | _ => exact h

theorem Inv.begin (h : w.Inv) (operation : Operation) (message : M) (bound : Duration) :
    (w.step (.begin operation message bound)).Inv := by
  have hnone : w.takes w.calls.length = [] ∧ w.counts w.calls.length = [] := by
    refine ⟨List.filter_eq_nil_iff.mpr fun t ht => ?_, List.filter_eq_nil_iff.mpr fun t ht => ?_⟩
    · have := h.taken_lt t ht
      simp only [decide_eq_true_eq]
      omega
    · have := h.counted_lt t ht
      simp only [decide_eq_true_eq]
      omega
  refine ⟨?_, ?_, ?_, h.accepted_eq, h.rejected_eq⟩
  · intro j d hd
    have hd : (w.calls ++ [_])[j]? = some d := hd
    by_cases hj : j < w.calls.length
    · rw [List.getElem?_append_left hj] at hd
      exact h.calls j d hd
    · rw [List.getElem?_append_right (by omega)] at hd
      obtain ⟨hj', hd⟩ := List.getElem?_eq_some_iff.mp hd
      have hj' : j = w.calls.length := by
        simp only [List.length_singleton] at hj'
        omega
      subst hj'
      simp only [Nat.sub_self, List.getElem_singleton] at hd
      subst hd
      refine ⟨fun ho => ?_, rfl, hnone.1, hnone.2⟩
      have ho : operation.isTimed = false := ho
      simp [ho]
  · intro t ht
    have := h.taken_lt t ht
    simp only [step, List.length_append, List.length_singleton]
    omega
  · intro t ht
    have := h.counted_lt t ht
    simp only [step, List.length_append, List.length_singleton]
    omega

theorem Inv.onCall {f : Traffic M → Nat → Call M → Traffic M} (h : w.Inv)
    (hf : ∀ c, w.calls[i]? = some c → (f w i c).Inv) : (w.onCall i f).Inv := by
  unfold Traffic.onCall
  cases hc : w.calls[i]? with
  | none => exact h
  | some c => exact hf c hc

theorem step_inv (h : w.Inv) (a : TrafficAction M) : (w.step a).Inv := by
  cases a with
  | begin operation message bound => exact h.begin operation message bound
  | go i => exact h.onCall fun c hc => h.go hc
  | timer i => exact h.onCall fun c hc => h.timer hc
  | cancel i => exact h.onCall fun c hc => h.cancel hc
  | reply i answer => exact h.onCall (f := fun w i c => w.answer i c answer) fun c hc => h.answer hc answer
  | closeExternal b => exact h.onMailbox b _
  | closeReceiver b => exact h.onMailbox b _
  | receive b => exact h.onMailbox b _
  | bind kind capacity => exact h.quiet rfl rfl rfl rfl rfl
  | unbind => exact h.quiet rfl rfl rfl rfl rfl
  | terminate => exact h.quiet rfl rfl rfl rfl rfl
  | dropBinding => exact h.quiet rfl rfl rfl rfl rfl
  | tick d => exact h.quiet rfl rfl rfl rfl rfl

theorem run_append (actions : List (TrafficAction M)) (a : TrafficAction M) : run (actions ++ [a]) = (run actions).step a := by
  simp [run, List.foldl_append]

theorem run_inv (actions : List (TrafficAction M)) : (run actions).Inv := by
  induction actions using List.reverseRecOn with
  | nil => exact ⟨nofun, nofun, nofun, rfl, rfl⟩
  | append_singleton as a ih =>
    rw [run_append]
    exact step_inv ih a

theorem Inv.taken_own {t : Nat × Nat × M} (h : w.Inv) (ht : t ∈ w.taken) : ∃ c, w.calls[t.1]? = some c ∧ t.2.2 = c.message := by
  obtain ⟨c, hc⟩ : ∃ c, w.calls[t.1]? = some c := ⟨_, List.getElem?_eq_getElem (h.taken_lt t ht)⟩
  refine ⟨c, hc, ?_⟩
  have hmem : t ∈ w.takes t.1 := List.mem_filter.mpr ⟨ht, decide_eq_true rfl⟩
  rcases (h.calls _ _ hc).account.takes_own with hnone | ⟨b, hone⟩
  · rw [hnone] at hmem
    cases hmem
  · rw [hone] at hmem
    rw [List.mem_singleton.mp hmem]

/-! ## The account of the mailboxes -/

structure Stocked (w : Traffic M) : Prop where
  taken_lt : ∀ t ∈ w.taken, t.2.1 < w.mailboxes.length
  stocks : ∀ j (b : Mailbox M), w.mailboxes[j]? = some b → b.Stocks (w.takings j)

theorem Stocked.quiet (h : w.Stocked) (hboxes : w'.mailboxes = w.mailboxes) (htaken : w'.taken = w.taken) : w'.Stocked := by
  refine ⟨?_, ?_⟩
  · rw [htaken, hboxes]
    exact h.taken_lt
  · intro j b hb
    unfold takings
    rw [htaken]
    rw [hboxes] at hb
    exact h.stocks j b hb

theorem Stocked.setPhase (h : w.Stocked) (i : Nat) (phase : CallPhase M) : (w.setPhase i phase).Stocked := h.quiet rfl rfl

theorem Stocked.onMailbox {f : Mailbox M → Mailbox M} (h : w.Stocked) (mailbox : Nat)
    (hf : ∀ b takings, b.Stocks takings → (f b).Stocks takings) : (w.onMailbox mailbox f).Stocked := by
  refine ⟨?_, ?_⟩
  · intro t ht
    show t.2.1 < (w.mailboxes.modify mailbox f).length
    rw [List.length_modify]
    exact h.taken_lt t ht
  · intro j b hb
    have hb : (w.mailboxes.modify mailbox f)[j]? = some b := hb
    rw [List.getElem?_modify, Option.map_eq_map, Option.map_eq_some_iff] at hb
    obtain ⟨old, hold, heq⟩ := hb
    subst heq
    have hs := h.stocks j old hold
    split
    · exact hf old _ hs
    · exact hs

theorem Stocked.release (h : w.Stocked) (mailbox : Nat) : (w.release mailbox).Stocked :=
  h.onMailbox mailbox fun _ _ hs => ⟨hs.contents, hs.inOrder⟩

theorem Stocked.take {b : Mailbox M} (h : w.Stocked) (hb : w.mailboxes[mailbox]? = some b) (i : Nat) (message : M) :
    (w.take i mailbox b message).Stocked := by
  have hlt : mailbox < w.mailboxes.length := (List.getElem?_eq_some_iff.mp hb).1
  have hboxes : (w.take i mailbox b message).mailboxes = w.mailboxes.modify mailbox fun _ => (b.write message).2 := rfl
  have htaken : (w.take i mailbox b message).taken = w.taken ++ [(i, mailbox, message)] := rfl
  refine ⟨?_, ?_⟩
  · intro t ht
    rw [hboxes, List.length_modify]
    rw [htaken] at ht
    rcases List.mem_append.mp ht with ht | ht
    · exact h.taken_lt t ht
    · rw [List.mem_singleton.mp ht]
      exact hlt
  · intro j b' hb'
    unfold takings
    rw [htaken, List.filter_append, List.map_append]
    rw [hboxes, List.getElem?_modify, Option.map_eq_map, Option.map_eq_some_iff] at hb'
    obtain ⟨old, hold, heq⟩ := hb'
    subst heq
    by_cases hj : mailbox = j
    · subst hj
      rw [if_pos rfl, List.filter_cons_of_pos (by simp)]
      exact Mailbox.write_stocks (h.stocks mailbox b hb) message
    · rw [if_neg hj, List.filter_cons_of_neg (by simp [hj])]
      simp only [List.filter_nil, List.map_nil, List.append_nil]
      exact h.stocks j old hold

theorem Stocked.unresolved (h : w.Stocked) (i : Nat) (c : Call M) (message : M) : (w.unresolved i c message).Stocked := by
  unfold Traffic.unresolved
  split
  · exact h.setPhase _ _
  · split
    · exact h.setPhase _ _
    · exact h

theorem Stocked.conflate {b : Mailbox M} (h : w.Stocked) (hb : w.mailboxes[mailbox]? = some b) (i : Nat) (c : Call M)
    (message : M) : (w.conflate i c mailbox b message).Stocked := by
  unfold Traffic.conflate
  split
  · exact h.setPhase _ _
  · split
    · exact h.setPhase _ _
    · exact h.take hb i message

theorem Stocked.reserve (h : w.Stocked) (i : Nat) (c : Call M) (mailbox : Nat) (b : Mailbox M) (message : M) :
    (w.reserve i c mailbox b message).Stocked := by
  unfold Traffic.reserve
  split
  · exact h.setPhase _ _
  · split
    · refine Stocked.setPhase (h.onMailbox mailbox fun b takings hs => ?_) _ _
      exact ⟨hs.contents, hs.inOrder⟩
    · split
      · exact h.setPhase _ _
      · exact h

theorem Stocked.go (h : w.Stocked) (i : Nat) (c : Call M) : (w.go i c).Stocked := by
  unfold Traffic.go
  cases c.phase with
  | resolving m =>
    simp only
    split
    · exact h.setPhase _ _
    · exact h.unresolved i c m
    · exact h.setPhase _ _
  | checking b m =>
    simp only
    split
    · exact h
    · rename_i hb
      split
      · exact h.setPhase _ _
      · split
        · exact h.conflate hb i c m
        · exact h.setPhase _ _
  | reserving b m =>
    simp only
    split
    · exact h
    · exact h.reserve i c b _ m
  | reserved b m =>
    simp only
    split
    · exact h
    · split
      · exact h.setPhase _ _
      · exact (h.release b).setPhase _ _
  | cleared b m =>
    simp only
    split
    · exact h
    · rename_i hb
      split
      · exact (h.release b).setPhase _ _
      · exact h.take hb i m
  | yielding b m =>
    simp only
    split
    · exact h
    · rename_i hb
      exact h.conflate hb i c m
  | rebinding b m =>
    simp only
    split
    · split
      · exact h.setPhase _ _
      · split
        · exact h.setPhase _ _
        · exact h
    · exact h.unresolved i c m
    · exact h.setPhase _ _
  | accepted b n => exact h.quiet rfl rfl
  | refused m kind => exact h.quiet rfl rfl
  | returned r =>
    simp only
    split
    · exact h.setPhase _ _
    · exact h
  | awaitingReply => exact h
  | answered r => exact h
  | unreachable => exact h
  | cancelled => exact h

theorem Stocked.onCall {f : Traffic M → Nat → Call M → Traffic M} (h : w.Stocked) (i : Nat)
    (hf : ∀ c, (f w i c).Stocked) : (w.onCall i f).Stocked := by
  unfold Traffic.onCall
  split
  · exact h
  · exact hf _

theorem Stocked.timer (h : w.Stocked) (i : Nat) (c : Call M) : (w.timer i c).Stocked := by
  unfold Traffic.timer
  split
  · split
    all_goals first | exact h.setPhase _ _ | exact h
  · exact h

theorem Stocked.cancel (h : w.Stocked) (i : Nat) (c : Call M) : (w.cancel i c).Stocked := by
  unfold Traffic.cancel
  split
  · exact h
  · split
    all_goals first | exact h.setPhase _ _ | exact h

theorem Stocked.answer (h : w.Stocked) (i : Nat) (c : Call M) (answer : Bool) : (w.answer i c answer).Stocked := by
  unfold Traffic.answer
  split
  · exact h.setPhase _ _
  · exact h

theorem Stocked.bind (h : w.Stocked) (kind : MailboxKind M) (capacity : Nat) : (w.step (.bind kind capacity)).Stocked := by
  have hboxes : (w.step (.bind kind capacity)).mailboxes = w.mailboxes ++ [{ kind := kind, capacity := capacity }] := rfl
  have htaken : (w.step (.bind kind capacity)).taken = w.taken := rfl
  refine ⟨?_, ?_⟩
  · intro t ht
    rw [hboxes, List.length_append]
    exact Nat.lt_add_right _ (h.taken_lt t ht)
  · intro j b hb
    unfold takings
    rw [htaken]
    rw [hboxes] at hb
    by_cases hj : j < w.mailboxes.length
    · rw [List.getElem?_append_left hj] at hb
      exact h.stocks j b hb
    · rw [List.getElem?_append_right (by omega)] at hb
      have hnone : (w.taken.filter fun t => t.2.1 = j) = [] := by
        refine List.filter_eq_nil_iff.mpr fun t ht => ?_
        have := h.taken_lt t ht
        simp only [decide_eq_true_eq]
        omega
      rw [hnone, List.mem_singleton.mp (List.mem_of_getElem? hb)]
      exact ⟨List.Perm.refl _, fun _ => rfl⟩

theorem step_stocked (h : w.Stocked) (a : TrafficAction M) : (w.step a).Stocked := by
  cases a with
  | begin operation message bound => exact h.quiet rfl rfl
  | go i => exact h.onCall i fun c => h.go i c
  | timer i => exact h.onCall i fun c => h.timer i c
  | cancel i => exact h.onCall i fun c => h.cancel i c
  | reply i answer => exact h.onCall (f := fun w i c => w.answer i c answer) i fun c => h.answer i c answer
  | closeExternal b => exact h.onMailbox b fun _ _ hs => ⟨hs.contents, hs.inOrder⟩
  | closeReceiver b => exact h.onMailbox b fun _ _ hs => ⟨hs.contents, hs.inOrder⟩
  | receive b => exact h.onMailbox b fun _ _ hs => Mailbox.receive_stocks hs
  | bind kind capacity => exact h.bind kind capacity
  | unbind => exact h.quiet rfl rfl
  | terminate => exact h.quiet rfl rfl
  | dropBinding => exact h.quiet rfl rfl
  | tick d => exact h.quiet rfl rfl

theorem run_stocked (actions : List (TrafficAction M)) : (run actions).Stocked := by
  induction actions using List.reverseRecOn with
  | nil => exact ⟨nofun, nofun⟩
  | append_singleton as a ih =>
    rw [run_append]
    exact step_stocked ih a

/-- What was taken is in the mailbox that took it, or came out of it. -/
theorem Stocked.holds {t : Nat × Nat × M} (h : w.Stocked) (ht : t ∈ w.taken) :
    ∃ box : Mailbox M, w.mailboxes[t.2.1]? = some box ∧ t.2.2 ∈ box.contents := by
  have hb := List.getElem?_eq_getElem (h.taken_lt t ht)
  refine ⟨_, hb, (h.stocks _ _ hb).contents.mem_iff.mpr ?_⟩
  exact List.mem_map_of_mem (List.mem_filter.mpr ⟨ht, decide_eq_true rfl⟩)

/-! ## Results -/

/-- In every run a call that has returned was taken at most once, returned `Ok` just when it
    was taken and its own message otherwise, and was counted once, as what it returned. A
    timed send returns no other error than a timeout or a termination, so `call` never
    comes to its `unreachable!`, and a request whose acceptance timed out was not taken. To
    be taken is to be in the mailbox: what a mailbox was given is what it holds, gave out or
    displaced, a queue gives it out in order, and each message is that of the call. -/
theorem send_accounted (actions : List (TrafficAction M)) :
    let w := run actions
    (∀ i (c : Call M), w.calls[i]? = some c →
      (∀ result, c.phase = .returned result →
        (w.takes i).length ≤ 1 ∧
        (∀ b, result = .ok b ↔ w.takes i = [(i, b, c.message)]) ∧
        ((∃ b, result = .ok b) ↔ w.takes i ≠ []) ∧
        (∀ b, result = .ok b → ∃ box, w.mailboxes[b]? = some box ∧ c.message ∈ box.contents) ∧
        (∀ message kind, result = .error (message, kind) → message = c.message) ∧
        w.counts i = [(i, result.isOk)] ∧
        (c.operation.isTimed = true → ∀ message kind, result = .error (message, kind) → kind = .timedOut ∨ kind = .terminated)) ∧
      c.phase ≠ .unreachable ∧
      (c.phase = .answered (.error .acceptanceTimedOut) → w.takes i = [])) ∧
    w.messagesAccepted = w.counted.countP (·.2) ∧ w.sendsRejected = w.counted.countP (!·.2) ∧
    (∀ j box, w.mailboxes[j]? = some box →
      box.contents.Perm (w.takings j) ∧ (box.isQueue = true → box.received ++ box.messages = w.takings j)) ∧
    (∀ t ∈ w.taken, ∃ c, w.calls[t.1]? = some c ∧ t.2.2 = c.message) := by
  intro w
  have hinv : w.Inv := run_inv actions
  have hst : w.Stocked := run_stocked actions
  refine ⟨fun i c hc => ?_, hinv.accepted_eq, hinv.rejected_eq, fun j box hb => ?_, fun t ht => hinv.taken_own ht⟩
  case refine_2 => exact ⟨(hst.stocks j box hb).contents, (hst.stocks j box hb).inOrder⟩
  have hacc := (hinv.calls i c hc).account
  unfold Call.Account at hacc
  refine ⟨fun result hp => ?_, fun hp => ?_, fun hp => ?_⟩
  · rw [hp] at hacc
    cases result with
    | ok b =>
      obtain ⟨ht, hn⟩ := hacc
      have hin : ∃ box, w.mailboxes[b]? = some box ∧ c.message ∈ box.contents :=
        hst.holds (List.mem_of_mem_filter (ht ▸ List.mem_singleton_self _ : (i, b, c.message) ∈ w.takes i))
      rw [ht]
      refine ⟨Nat.le_refl 1, fun b' => ?_, ?_, ?_, nofun, hn, fun _ _ _ => nofun⟩
      · constructor
        · intro hb
          cases hb
          rfl
        · intro hb
          cases hb
          rfl
      · exact ⟨fun _ => List.cons_ne_nil _ _, fun _ => ⟨b, rfl⟩⟩
      · intro b' hb
        cases hb
        exact hin
    | error e =>
      obtain ⟨m, kind⟩ := e
      obtain ⟨hm, ht, hn, he⟩ := hacc
      rw [ht]
      refine ⟨Nat.zero_le 1, fun b => ⟨nofun, nofun⟩, ⟨nofun, fun hne => absurd rfl hne⟩, nofun, ?_, hn, ?_⟩
      · intro message kind' heq
        cases heq
        exact hm
      · intro ho message kind' heq
        cases heq
        cases hop : c.operation <;> rw [hop] at ho he <;> cases kind <;> simp_all [Operation.isTimed, Operation.errs]
  · rw [hp] at hacc
    exact hacc
  · rw [hp] at hacc
    exact hacc

/-- A send that finds its mailbox closed follows the actor to the next one, where a later
    message displaces its own before the second is received. -/
def followed : List (TrafficAction Nat) :=
  [.bind .queue 1, .begin .send 7 0, .go 0, .closeExternal 0, .go 0, .unbind, .bind .latest 1, .go 0, .go 0, .go 0, .go 0, .go 0,
    .begin .send 8 0, .go 1, .go 1, .go 1, .receive 1]

theorem send_accounted_followed :
    (run followed).calls[0]? = some ⟨.send, 7, none, .returned (.ok 1)⟩ ∧ (run followed).takes 0 = [(0, 1, 7)] ∧
      (run followed).counts 0 = [(0, true)] ∧
      (run followed).mailboxes[1]? = some { kind := .latest, capacity := 1, received := [8], conflated := [7] } ∧
      [8, 7].Perm ((run followed).takings 1) := by
  have hc : (run followed).calls[0]? = some ⟨.send, 7, none, .returned (.ok 1)⟩ := rfl
  have hb : (run followed).mailboxes[1]? = some { kind := .latest, capacity := 1, received := [8], conflated := [7] } := rfl
  obtain ⟨hcalls, -, -, hboxes, -⟩ := send_accounted followed
  obtain ⟨-, ht, -, -, -, hn, -⟩ := (hcalls 0 _ hc).1 _ rfl
  exact ⟨hc, (ht 1).mp rfl, hn, hb, (hboxes 1 _ hb).1⟩

end Traffic

end Kokage.Actor

/-
  Kokage.Actor.Handler — the receive loop of a handler actor (`actor/handler.rs`: `run`;
  `actor/context.rs`: `next_delivery`, `try_delivery`, `next_drain_delivery`, the timers).

  An `ActorLoop` is the incarnation's context with the loop's own variables and where it stands.
  `poll` is what the loop does from one await to the next; the other actions are those of the
  handler while one of its hooks runs, and those of the world: senders, the clock, offloaded
  tasks and the shutdown token. They fall between any two polls, so a list of actions is an
  order of arrivals, and every behaviour of the handler is among them.

  What the loop tries and takes between two awaits is one step: a message counts as
  available to a selection if it is in the mailbox at that step. Where a `select!` has more
  than one branch ready, `pick` says which one it takes; a timer may fire late. The binding
  guard holds a sender while the loop runs, so `recv` never ends. The timers are the table
  of Timers, with its history; where it panics, the loop fails.

  The log has an entry for every message handled, with what its selection saw.
-/

import Mathlib.Data.List.Chain
import Kokage.Actor.Conflating
import Kokage.Actor.Timers

namespace Kokage.Actor

open Kokage.Lib.Time

variable {c : Clock} {M : Type}

/-! ## The mailbox -/

inductive MailboxReceiver (M : Type) where
  | queue (messages : List M) (acceptingExternal : Bool)
  | conflating (state : ConflatingState M)

namespace MailboxReceiver

def messages : MailboxReceiver M → List M
  | queue messages _ => messages
  | conflating state => state.messages

def tryRecv : MailboxReceiver M → MailboxReceiver M × Option M
  | queue [] accepting => (queue [] accepting, none)
  | queue (m :: rest) accepting => (queue rest accepting, some m)
  | conflating state => (conflating state.tryRecv.1, state.tryRecv.2.toOption)

def depth (b : MailboxReceiver M) : Nat := b.messages.length

def closeExternal : MailboxReceiver M → MailboxReceiver M
  | queue messages _ => queue messages false
  | conflating state => conflating state.closeExternal

/-- A send from outside. -/
def send (b : MailboxReceiver M) (m : M) : MailboxReceiver M :=
  match b with
  | queue messages accepting => if accepting then queue (messages ++ [m]) accepting else b
  | conflating state => conflating (state.send m).1

/-- The end of a send whose sender found the queue open before it was closed: a permit. -/
def land (b : MailboxReceiver M) (m : M) : MailboxReceiver M :=
  match b with
  | queue messages accepting => queue (messages ++ [m]) accepting
  | conflating _ => b

end MailboxReceiver

/-! ## Offloads -/

inductive JoinResult (M : Type) where
  | completed (m : M)
  | aborted
  | panicked

/-- The `JoinSet`: the tasks that run, those that have finished, in the order in which they
    will be joined, and those whose guard has been dropped. -/
structure Offloads (M : Type) where
  nextTask : Nat
  running : List Nat
  finished : List (Nat × JoinResult M)
  cancelled : List Nat

namespace Offloads

def new : Offloads M := ⟨0, [], [], []⟩

def isEmpty (o : Offloads M) : Bool := o.running.isEmpty && o.finished.isEmpty

def spawn (o : Offloads M) : Offloads M := { o with nextTask := o.nextTask + 1, running := o.running ++ [o.nextTask] }

def finish (o : Offloads M) (task : Nat) (result : JoinResult M) : Offloads M :=
  if task ∈ o.running then { o with running := o.running.erase task, finished := o.finished ++ [(task, result)] } else o

def abortAll (o : Offloads M) : Offloads M :=
  { o with running := [], finished := o.finished ++ o.running.map fun task => (task, .aborted) }

/-- What a join gives the loop: a message, nothing, or a panic that it carries on. -/
inductive Joined (M : Type) where
  | message (task : Nat) (m : M)
  | nothing
  | panic

/-- `joined_offload`. -/
def joined (o : Offloads M) : Nat × JoinResult M → Joined M
  | (task, .completed m) => if task ∈ o.cancelled then .nothing else .message task m
  | (_, .aborted) => .nothing
  | (_, .panicked) => .panic

end Offloads

/-! ## The loop -/

inductive Source where
  | mailbox
  | offload (task : Nat)
  | continuation
  | timer (id : UInt64)
  deriving DecidableEq

structure Handled (M : Type) where
  source : Source
  message : M
  /-- The mailbox was empty when the message was selected. -/
  mailboxEmpty : Bool
  /-- The loop had seen a stop request or the shutdown. -/
  stopped : Bool

/-- The turn of an elapsed timer. The last three fields are ghost: the timer, the mailbox
    and the length of the log when it was selected. -/
structure Window (c : Clock) (M : Type) where
  timer : Timers.Wake c
  queuedBeforeFire : Nat
  entry : Option (Timers.Entry c M)
  queued : List M
  since : Nat

/-- What follows when the handler returns. -/
inductive Resume (c : Clock) (M : Type) where
  | receive
  | window (w : Window c M)
  | draining

inductive LoopPhase (c : Clock) (M : Type) where
  | onStart
  | receive
  /-- In one of the two `select!`s of the loop. -/
  | waiting (timer : Option (Timers.Wake c))
  | window (w : Window c M)
  | handling (resume : Resume c M)
  | draining
  /-- In the `select!` of `next_drain_delivery`. -/
  | drainWaiting
  | onStop
  | finished
  | failed

structure ActorLoop (c : Clock) (M : Type) where
  mailbox : MailboxReceiver M
  drainMessages : Bool
  continuations : List M
  timers : Timers.St c M
  offloads : Offloads M
  stopRequested : Bool
  shutdown : Bool
  now : Instant c
  stopping : Bool
  continuationHadTurn : Bool
  phase : LoopPhase c M
  log : List (Handled M)
  /-- Ghost: the loop has seen a stop request or the shutdown. -/
  stopped : Bool
  /-- Ghost: the keys set or cleared since the last timer was selected. -/
  touched : List TimerKey
  /-- Ghost: the mailbox, the outstanding offloads and the length of the log when the intake
      was closed. -/
  closed : Option (List M × List Nat × Nat)

inductive Pick where
  | timer
  | mailbox
  | offload

inductive LoopAction (c : Clock) (M : Type) where
  | poll (pick : Pick)
  -- the world
  | send (m : M)
  | land (m : M)
  | cancelShutdown
  | tick (d : Duration)
  | finish (task : Nat) (result : JoinResult M)
  | dropGuard (task : Nat)
  -- the handler
  | continueWith (m : M)
  | stop
  | setTimeout (key : TimerKey) (m : M) (delay : Duration)
  | setInterval (key : TimerKey) (m : M) (period : Duration)
  | clearTimer (key : TimerKey)
  | offload
  | done (ok : Bool)

namespace ActorLoop

def new (mailbox : MailboxReceiver M) (drainMessages : Bool) : ActorLoop c M :=
  { mailbox, drainMessages, continuations := [], timers := .new, offloads := .new, stopRequested := false,
    shutdown := false, now := ⟨0, Nat.zero_le _⟩, stopping := false, continuationHadTurn := false, phase := .onStart, log := [],
    stopped := false, touched := [], closed := none }

/-- A message goes to the handler. -/
def handle (s : ActorLoop c M) (source : Source) (m : M) (resume : Resume c M) : ActorLoop c M :=
  { s with phase := .handling resume, log := s.log ++ [⟨source, m, s.mailbox.messages.isEmpty, s.stopped⟩] }

/-- `try_delivery`, over the tasks that have finished: those without a message are let go. -/
inductive Delivery (M : Type) where
  | message (source : Source) (m : M) (offloads : Offloads M) (mailbox : MailboxReceiver M)
  | empty (offloads : Offloads M)
  | panic

def joinReady (o : Offloads M) (mailbox : MailboxReceiver M) : List (Nat × JoinResult M) → Delivery M
  | [] =>
    match mailbox.tryRecv with
    | (mailbox', some m) => .message .mailbox m { o with finished := [] } mailbox'
    | (_, none) => .empty { o with finished := [] }
  | first :: rest =>
    match o.joined first with
    | .message task m => .message (.offload task) m { o with finished := rest } mailbox
    | .nothing => joinReady o mailbox rest
    | .panic => .panic

def tryDelivery (s : ActorLoop c M) : Delivery M := joinReady s.offloads s.mailbox s.offloads.finished

/-- The end of the loop: the intake closes, and what follows is the drain or `on_stop`. -/
def leave (s : ActorLoop c M) : ActorLoop c M :=
  { s with
    mailbox := s.mailbox.closeExternal
    stopped := true
    closed := some (s.mailbox.messages,
      (s.offloads.running ++ s.offloads.finished.map (·.1)).filter (· ∉ s.offloads.cancelled), s.log.length)
    offloads := if s.drainMessages then s.offloads else s.offloads.abortAll
    phase := if s.drainMessages then .draining else .onStop }

/-- `take_continuation`, or else the two waits. -/
def takeContinuation (s : ActorLoop c M) : ActorLoop c M :=
  match s.continuations with
  | m :: rest => { s with continuations := rest, continuationHadTurn := true }.handle .continuation m .receive
  | [] => { s with phase := .waiting s.timers.table.nextWake }

/-- The head of the loop. -/
def receive (s : ActorLoop c M) : ActorLoop c M :=
  if s.stopping then s.leave
  else if s.shutdown then s.leave
  else if s.continuationHadTurn then
    match s.tryDelivery with
    | .message source m offloads mailbox =>
      { { s with continuationHadTurn := false }.handle source m .receive with offloads, mailbox }
    | .empty offloads => { s with offloads }.takeContinuation
    | .panic => { s with phase := .failed }
  else s.takeContinuation

/-- An elapsed timer is selected. -/
def openWindow (s : ActorLoop c M) (timer : Timers.Wake c) : ActorLoop c M :=
  { s with
    touched := []
    phase := .window
      { timer
        queuedBeforeFire := s.mailbox.depth
        entry := s.timers.table.entries.find? (·.wake = timer)
        queued := s.mailbox.messages
        since := s.log.length } }

/-- The join of the two `select!`s that have one. A message leaves the loop's flag at
    `hadTurn`. -/
def joinNext (s : ActorLoop c M) (resume : Resume c M) (hadTurn : Bool) (again : LoopPhase c M) : ActorLoop c M :=
  match s.offloads.finished with
  | [] => s
  | first :: rest =>
    match s.offloads.joined first with
    | .message task m =>
      { { s with continuationHadTurn := hadTurn }.handle (.offload task) m resume with
        offloads := { s.offloads with finished := rest } }
    | .nothing => { s with offloads := { s.offloads with finished := rest }, phase := again }
    | .panic => { s with phase := .failed }

/-- The `select!`s of the loop: shutdown before the timer, and the timer before a delivery. -/
def wait (s : ActorLoop c M) (timer : Option (Timers.Wake c)) (pick : Pick) : ActorLoop c M :=
  if s.shutdown then s.leave
  else
    match pick with
    | .timer =>
      match timer with
      | some timer => if timer.deadline ≤ s.now then s.openWindow timer else s
      | none => s
    | .mailbox =>
      match s.mailbox.tryRecv with
      | (mailbox, some m) => { { s with continuationHadTurn := false }.handle .mailbox m .receive with mailbox }
      | (_, none) => s
    | .offload => s.joinNext .receive false s.phase

/-- The window is over: the timer's message, if the timer is still there. -/
def fire (s : ActorLoop c M) (w : Window c M) : ActorLoop c M :=
  match s.timers.table.takeFired s.now w.timer with
  | none => { s with phase := .failed }
  | some (table, some m) =>
    { s with timers := s.timers.taken w.timer table (some m) }.handle (.timer w.timer.id) m .receive
  | some (table, none) => { s with timers := s.timers.taken w.timer table none, phase := .receive }

/-- What a window takes when there is no delivery to be preferred: a continuation, then a
    message that was queued before the timer fired. -/
def windowTurn (s : ActorLoop c M) (w : Window c M) : ActorLoop c M :=
  match s.continuations with
  | m :: rest => { s with continuations := rest, continuationHadTurn := true }.handle .continuation m (.window w)
  | [] =>
    if 0 < w.queuedBeforeFire then
      let w := { w with queuedBeforeFire := w.queuedBeforeFire - 1 }
      match s.mailbox.tryRecv with
      | (mailbox, some m) => { { s with continuationHadTurn := false }.handle .mailbox m (.window w) with mailbox }
      | (_, none) => s.fire w
    else s.fire w

/-- The head of the window's loop. -/
def window (s : ActorLoop c M) (w : Window c M) : ActorLoop c M :=
  if s.shutdown then s.leave
  else if s.continuationHadTurn then
    if 0 < w.queuedBeforeFire then
      let w := { w with queuedBeforeFire := w.queuedBeforeFire - 1 }
      match s.mailbox.tryRecv with
      | (mailbox, some m) => { { s with continuationHadTurn := false }.handle .mailbox m (.window w) with mailbox }
      | (_, none) => s.windowTurn w
    else
      match s.tryDelivery with
      | .message source m offloads mailbox =>
        { { s with continuationHadTurn := false }.handle source m (.window w) with offloads, mailbox }
      | .empty offloads => { s with offloads }.windowTurn w
      | .panic => { s with phase := .failed }
  else s.windowTurn w

/-- `next_drain_delivery`. -/
def drain (s : ActorLoop c M) : ActorLoop c M :=
  match s.tryDelivery with
  | .message source m offloads mailbox => { s.handle source m .draining with offloads, mailbox }
  | .empty offloads =>
    if offloads.isEmpty then { s with offloads, phase := .onStop } else { s with offloads, phase := .drainWaiting }
  | .panic => { s with phase := .failed }

def drainWait (s : ActorLoop c M) (pick : Pick) : ActorLoop c M :=
  match pick with
  | .timer => s
  | .mailbox =>
    match s.mailbox.tryRecv with
    | (mailbox, some m) => { s.handle .mailbox m .draining with mailbox }
    | (_, none) => s
  | .offload => s.joinNext .draining s.continuationHadTurn .draining

def poll (s : ActorLoop c M) (pick : Pick) : ActorLoop c M :=
  match s.phase with
  | .receive => s.receive
  | .waiting timer => s.wait timer pick
  | .window w => s.window w
  | .draining => s.drain
  | .drainWaiting => s.drainWait pick
  | _ => s

/-- A hook of the handler is running that can act on the loop. -/
def hooked (s : ActorLoop c M) : Bool :=
  match s.phase with
  | .onStart => true
  | .handling _ => true
  | _ => false

/-- A hook returns. -/
def returned (s : ActorLoop c M) (ok : Bool) : ActorLoop c M :=
  match s.phase with
  | .onStart =>
    if ok then { s with stopping := s.stopRequested, stopped := s.stopRequested, phase := .receive }
    else { s with phase := .failed }
  | .handling .receive =>
    if ok then { s with stopping := s.stopRequested, stopped := s.stopRequested, phase := .receive }
    else { s with phase := .failed }
  | .handling (.window w) =>
    if ok then
      if s.stopRequested then { s with stopping := true, stopped := true, phase := .receive }
      else { s with phase := .window w }
    else { s with phase := .failed }
  | .handling .draining => if ok then { s with phase := .draining } else { s with phase := .failed }
  | .onStop => if ok then { s with phase := .finished } else { s with phase := .failed }
  | _ => s

/-- A hook sets or clears a timer. -/
def setTimer (s : ActorLoop c M) (key : TimerKey) (op : Timers.Op c M) : ActorLoop c M :=
  if s.hooked then
    match s.timers.step op with
    | some timers => { s with timers, touched := s.touched ++ [key] }
    | none => { s with phase := .failed }
  else s

def step (s : ActorLoop c M) : LoopAction c M → ActorLoop c M
  | .poll pick => s.poll pick
  | .send m => { s with mailbox := s.mailbox.send m }
  | .land m => { s with mailbox := s.mailbox.land m }
  | .cancelShutdown => { s with shutdown := true }
  | .tick d => { s with now := (s.now.checkedAdd d).getD s.now }
  | .finish task result =>
    match result with
    | .aborted => if task ∈ s.offloads.cancelled then { s with offloads := s.offloads.finish task result } else s
    | _ => { s with offloads := s.offloads.finish task result }
  | .dropGuard task => { s with offloads := { s.offloads with cancelled := s.offloads.cancelled ++ [task] } }
  | .continueWith m => if s.hooked then { s with continuations := s.continuations ++ [m] } else s
  | .stop => if s.hooked then { s with stopRequested := true } else s
  | .setTimeout key m delay => s.setTimer key (.insert s.now key m delay)
  | .setInterval key m period => s.setTimer key (.insertInterval s.now key m period)
  | .clearTimer key => s.setTimer key (.clear key)
  | .offload => if s.hooked then { s with offloads := s.offloads.spawn } else s
  | .done ok => s.returned ok

def run (mailbox : MailboxReceiver M) (drainMessages : Bool) (actions : List (LoopAction c M)) : ActorLoop c M :=
  actions.foldl step (new mailbox drainMessages)

end ActorLoop

/-! ## The mailbox, seen from the loop -/

theorem ConflatingState.tryRecv_cons {s : ConflatingState M} {m : M} {rest : List M} (h : s.messages = m :: rest) :
    s.tryRecv = ({ s with messages := rest }, .ok m) := by
  unfold tryRecv
  rw [h]

theorem ConflatingState.tryRecv_nil {s : ConflatingState M} (h : s.messages = []) : ∃ e, s.tryRecv = (s, .error e) := by
  unfold tryRecv
  rw [h]
  dsimp only
  split
  · exact ⟨_, rfl⟩
  · exact ⟨_, rfl⟩

namespace MailboxReceiver

variable {b b' : MailboxReceiver M} {m : M}

theorem tryRecv_cases (b : MailboxReceiver M) :
    (b.messages = [] ∧ b.tryRecv = (b, none)) ∨
    ∃ m b', b.tryRecv = (b', some m) ∧ b.messages = m :: b'.messages := by
  cases b with
  | queue messages accepting =>
    cases messages with
    | nil => exact .inl ⟨rfl, rfl⟩
    | cons m rest => exact .inr ⟨m, queue rest accepting, rfl, rfl⟩
  | conflating state =>
    cases hm : state.messages with
    | nil =>
      obtain ⟨e, he⟩ := ConflatingState.tryRecv_nil hm
      exact .inl ⟨hm, by simp only [tryRecv, he]; rfl⟩
    | cons m rest =>
      refine .inr ⟨m, conflating { state with messages := rest }, ?_, hm⟩
      simp only [tryRecv, ConflatingState.tryRecv_cons hm]
      rfl

theorem tryRecv_some (h : b.tryRecv = (b', some m)) : b.messages = m :: b'.messages := by
  rcases b.tryRecv_cases with ⟨_, hnone⟩ | ⟨x, c, hsome, hm⟩
  · rw [hnone] at h
    cases h
  · rw [hsome] at h
    cases h
    exact hm

/-- The intake is closed. -/
def shut : MailboxReceiver M → Bool
  | queue _ accepting => !accepting
  | conflating state => !state.accepting

theorem closeExternal_messages : b.closeExternal.messages = b.messages := by
  cases b with
  | queue messages accepting => rfl
  | conflating state => rfl

theorem closeExternal_shut : b.closeExternal.shut = true := by
  cases b with
  | queue messages accepting => rfl
  | conflating state => simp [closeExternal, shut, ConflatingState.accepting, ConflatingState.closeExternal]

theorem send_shut (h : b.shut = true) : b.send m = b := by
  cases b with
  | queue messages accepting =>
    have hf : accepting = false := by simpa [shut] using h
    simp [send, hf]
  | conflating state =>
    have hf : state.accepting = false := by simpa [shut] using h
    simp [send, ConflatingState.send_closed hf]

theorem land_messages : ∃ late, (b.land m).messages = b.messages ++ late := by
  cases b with
  | queue messages accepting => exact ⟨[m], rfl⟩
  | conflating state => exact ⟨[], (List.append_nil _).symm⟩

theorem land_shut (h : b.shut = true) : (b.land m).shut = true := by
  cases b with
  | queue messages accepting => exact h
  | conflating state => exact h

theorem tryRecv_shut (h : b.shut = true) : b.tryRecv.1.shut = true := by
  cases b with
  | queue messages accepting =>
    cases messages with
    | nil => exact h
    | cons x rest => exact h
  | conflating state =>
    cases hm : state.messages with
    | nil =>
      obtain ⟨e, he⟩ := ConflatingState.tryRecv_nil hm
      simpa only [tryRecv, he] using h
    | cons x rest =>
      simp only [tryRecv, ConflatingState.tryRecv_cons hm]
      exact h

end MailboxReceiver

/-! ## Deliveries -/

/-- Tasks that are aborted have been cancelled. -/
def Offloads.Sound (o : Offloads M) : Prop := ∀ task, (task, .aborted) ∈ o.finished → task ∈ o.cancelled

theorem Offloads.joined_message {o : Offloads M} {r : Nat × JoinResult M} {task : Nat} {m : M}
    (h : o.joined r = .message task m) : r.1 = task := by
  obtain ⟨task', result⟩ := r
  cases result with
  | completed m' =>
    by_cases hcan : task' ∈ o.cancelled
    · simp [joined, hcan] at h
    · simp only [joined, if_neg hcan, Joined.message.injEq] at h
      exact h.1
  | aborted => cases h
  | panicked => cases h

theorem Offloads.joined_nothing {o : Offloads M} (hsound : o.Sound) {r : Nat × JoinResult M} (hr : r ∈ o.finished)
    (h : o.joined r = .nothing) : r.1 ∈ o.cancelled := by
  obtain ⟨task, result⟩ := r
  cases result with
  | completed m =>
    by_cases hcan : task ∈ o.cancelled
    · exact hcan
    · simp [joined, hcan] at h
  | aborted => exact hsound task hr
  | panicked => cases h

namespace ActorLoop

/-- `try_delivery`: the first finished task that has a message, else the front of the
    mailbox. The tasks passed over have been cancelled. -/
inductive Delivered (o : Offloads M) (mailbox : MailboxReceiver M) : List (Nat × JoinResult M) → Delivery M → Prop
  | offload (gone rest : List (Nat × JoinResult M)) (task : Nat) (m : M) : (∀ r ∈ gone, r.1 ∈ o.cancelled) →
      Delivered o mailbox (gone ++ (task, .completed m) :: rest)
        (.message (.offload task) m { o with finished := rest } mailbox)
  | mailbox {l : List (Nat × JoinResult M)} (m : M) (mailbox' : MailboxReceiver M) : (∀ r ∈ l, r.1 ∈ o.cancelled) →
      mailbox.tryRecv = (mailbox', some m) → Delivered o mailbox l (.message .mailbox m { o with finished := [] } mailbox')
  | empty {l : List (Nat × JoinResult M)} : (∀ r ∈ l, r.1 ∈ o.cancelled) → mailbox.messages = [] →
      Delivered o mailbox l (.empty { o with finished := [] })
  | panic {l : List (Nat × JoinResult M)} (task : Nat) : (task, .panicked) ∈ l → Delivered o mailbox l .panic

theorem Delivered.pass {o : Offloads M} {mailbox : MailboxReceiver M} {l : List (Nat × JoinResult M)} {d : Delivery M}
    (h : Delivered o mailbox l d) {first : Nat × JoinResult M} (hcan : first.1 ∈ o.cancelled) :
    Delivered o mailbox (first :: l) d := by
  have hall : ∀ {l : List (Nat × JoinResult M)}, (∀ r ∈ l, r.1 ∈ o.cancelled) → ∀ r ∈ first :: l, r.1 ∈ o.cancelled :=
    fun hl r hr => (List.mem_cons.mp hr).elim (fun h => h ▸ hcan) (hl r)
  cases h with
  | offload gone rest task m hgone => exact .offload (first :: gone) rest task m (hall hgone)
  | mailbox m mailbox' hgone hrecv => exact .mailbox m mailbox' (hall hgone) hrecv
  | empty hgone hempty => exact .empty (hall hgone) hempty
  | panic task hin => exact .panic task (List.mem_cons_of_mem _ hin)

theorem joinReady_delivered (o : Offloads M) (mailbox : MailboxReceiver M) (l : List (Nat × JoinResult M))
    (hsound : ∀ task, (task, .aborted) ∈ l → task ∈ o.cancelled) : Delivered o mailbox l (joinReady o mailbox l) := by
  induction l with
  | nil =>
    rcases mailbox.tryRecv_cases with ⟨hm, hnone⟩ | ⟨m, mailbox', hsome, _⟩
    · simp only [joinReady, hnone]
      exact .empty nofun hm
    · simp only [joinReady, hsome]
      exact .mailbox m mailbox' nofun hsome
  | cons first rest ih =>
    have hrest := ih fun task ht => hsound task (List.mem_cons_of_mem _ ht)
    obtain ⟨task, result⟩ := first
    cases result with
    | completed m =>
      by_cases hcan : task ∈ o.cancelled
      · simp only [joinReady, Offloads.joined, if_pos hcan]
        exact hrest.pass hcan
      · simp only [joinReady, Offloads.joined, if_neg hcan]
        exact .offload [] rest task m nofun
    | aborted => exact hrest.pass (hsound task (List.mem_cons_self ..))
    | panicked => exact .panic task List.mem_cons_self

/-! ## What the loop keeps to -/

/-- The mailbox messages handled from entry `n` of the log on. -/
def fromMailbox (log : List (Handled M)) (n : Nat) : List M :=
  ((log.drop n).filter (·.source = .mailbox)).map (·.message)

/-- The drain has so far passed on the mailbox it began with, and lost no offload. -/
structure Drains (log : List (Handled M)) (mailbox : MailboxReceiver M) (o : Offloads M) (queued : List M)
    (tasks : List Nat) (n : Nat) : Prop where
  since : n ≤ log.length
  shut : mailbox.shut = true
  sound : o.Sound
  mail : ∃ late, fromMailbox log n ++ mailbox.messages = queued ++ late
  owed : ∀ task ∈ tasks, task ∈ o.running ∨ task ∈ o.finished.map (·.1) ∨
    (∃ e ∈ log.drop n, e.source = .offload task) ∨ task ∈ o.cancelled

/-- All that the drain had to handle has been handled. -/
def Settled (log : List (Handled M)) (o : Offloads M) (queued : List M) (tasks : List Nat) (n : Nat) : Prop :=
  queued <+: fromMailbox log n ∧
  ∀ task ∈ tasks, (∃ e ∈ log.drop n, e.source = .offload task) ∨ task ∈ o.cancelled

theorem fromMailbox_snoc {log : List (Handled M)} {n : Nat} (hn : n ≤ log.length) (e : Handled M) :
    fromMailbox (log ++ [e]) n = fromMailbox log n ++ (if e.source = .mailbox then [e.message] else []) := by
  unfold fromMailbox
  rw [List.drop_append_of_le_length hn, List.filter_append, List.map_append]
  by_cases he : e.source = .mailbox
  · simp [he]
  · simp [he]

namespace Drains

variable {log : List (Handled M)} {mailbox mailbox' : MailboxReceiver M} {o o' : Offloads M} {queued : List M}
  {tasks : List Nat} {n : Nat}

/-- Offloads change: what finishes or is cancelled is still accounted for. -/
theorem offloads (h : Drains log mailbox o queued tasks n) (hsound : o'.Sound)
    (howed : ∀ task, task ∈ o.running ∨ task ∈ o.finished.map (·.1) ∨ task ∈ o.cancelled →
      task ∈ o'.running ∨ task ∈ o'.finished.map (·.1) ∨ task ∈ o'.cancelled) : Drains log mailbox o' queued tasks n := by
  refine ⟨h.since, h.shut, hsound, h.mail, fun task ht => ?_⟩
  rcases h.owed task ht with hr | hf | hd | hc
  · exact (howed task (.inl hr)).imp_right (·.imp_right .inr)
  · exact (howed task (.inr (.inl hf))).imp_right (·.imp_right .inr)
  · exact .inr (.inr (.inl hd))
  · exact (howed task (.inr (.inr hc))).imp_right (·.imp_right .inr)

theorem arrive (h : Drains log mailbox o queued tasks n) {late : List M} (hshut : mailbox'.shut = true)
    (hm : mailbox'.messages = mailbox.messages ++ late) : Drains log mailbox' o queued tasks n := by
  refine ⟨h.since, hshut, h.sound, ?_, h.owed⟩
  obtain ⟨later, hlater⟩ := h.mail
  exact ⟨later ++ late, by rw [hm, ← List.append_assoc, hlater, List.append_assoc]⟩

theorem receive (h : Drains log mailbox o queued tasks n) {e : Handled M} (he : e.source = .mailbox)
    (hshut : mailbox'.shut = true) (hm : mailbox.messages = e.message :: mailbox'.messages) :
    Drains (log ++ [e]) mailbox' o queued tasks n := by
  refine ⟨?_, hshut, h.sound, ?_, fun task ht => ?_⟩
  · rw [List.length_append]
    exact Nat.le_add_right_of_le h.since
  · obtain ⟨late, hlate⟩ := h.mail
    refine ⟨late, ?_⟩
    rw [fromMailbox_snoc h.since, if_pos he, List.append_assoc, List.singleton_append, ← hm]
    exact hlate
  · refine (h.owed task ht).imp_right (·.imp_right (·.imp_left ?_))
    intro ⟨x, hx, hxs⟩
    exact ⟨x, by rw [List.drop_append_of_le_length h.since]; exact List.mem_append_left _ hx, hxs⟩

theorem join (h : Drains log mailbox o queued tasks n) {e : Handled M} {task₀ : Nat} (he : e.source = .offload task₀)
    (hsound : o'.Sound)
    (howed : ∀ task, task ∈ o.running ∨ task ∈ o.finished.map (·.1) ∨ task ∈ o.cancelled →
      task ∈ o'.running ∨ task ∈ o'.finished.map (·.1) ∨ task = task₀ ∨ task ∈ o'.cancelled) :
    Drains (log ++ [e]) mailbox o' queued tasks n := by
  have hdrop : (log ++ [e]).drop n = log.drop n ++ [e] := List.drop_append_of_le_length h.since
  refine ⟨?_, h.shut, hsound, ?_, fun task ht => ?_⟩
  · rw [List.length_append]
    exact Nat.le_add_right_of_le h.since
  · rw [fromMailbox_snoc h.since, if_neg (by rw [he]; nofun), List.append_nil]
    exact h.mail
  · rw [hdrop]
    have hnow : ∀ task, task = task₀ → ∃ x ∈ log.drop n ++ [e], x.source = .offload task :=
      fun task heq => ⟨e, List.mem_append_right _ (List.mem_singleton_self e), heq ▸ he⟩
    rcases h.owed task ht with hr | hf | ⟨x, hx, hxs⟩ | hc
    · exact (howed task (.inl hr)).imp_right (·.imp_right (·.imp_left (hnow task)))
    · exact (howed task (.inr (.inl hf))).imp_right (·.imp_right (·.imp_left (hnow task)))
    · exact .inr (.inr (.inl ⟨x, List.mem_append_left _ hx, hxs⟩))
    · exact (howed task (.inr (.inr hc))).imp_right (·.imp_right (·.imp_left (hnow task)))

theorem settled (h : Drains log mailbox o queued tasks n) (hm : mailbox.messages = []) (ho : o.isEmpty = true) :
    Settled log o queued tasks n := by
  obtain ⟨late, hlate⟩ := h.mail
  rw [hm, List.append_nil] at hlate
  refine ⟨⟨late, hlate.symm⟩, fun task ht => ?_⟩
  have hr : o.running = [] := by simpa using (Bool.and_eq_true_iff.mp ho).1
  have hf : o.finished = [] := by simpa using (Bool.and_eq_true_iff.mp ho).2
  rcases h.owed task ht with hrun | hfin | hd | hc
  · rw [hr] at hrun
    cases hrun
  · rw [hf] at hfin
    cases hfin
  · exact .inl hd
  · exact .inr hc

end Drains

end ActorLoop

/-- The loop before it is left, its head, the drain, and what comes after. -/
inductive Stage where
  | inside
  | head
  | drain
  | ended
  | broken
  deriving DecidableEq

def LoopPhase.stage : LoopPhase c M → Stage
  | .onStart | .waiting _ | .window _ | .handling .receive | .handling (.window _) => .inside
  | .receive => .head
  | .draining | .drainWaiting | .handling .draining => .drain
  | .onStop | .finished => .ended
  | .failed => .broken

namespace ActorLoop

/-- The loop has seen no reason to stop. -/
def Going (s : ActorLoop c M) : Prop := s.stopped = false ∧ s.stopping = false

structure Inv (s : ActorLoop c M) : Prop where
  /-- Between two continuations the mailbox was looked into, and empty. -/
  fair : s.log.IsChain fun x y => x.source = .continuation → y.source = .continuation → y.mailboxEmpty = true
  turn : ∀ e, s.log.getLast? = some e → e.source = .continuation → s.continuationHadTurn = true
  quiet : ∀ e ∈ s.log, e.stopped = true → e.source ≠ .continuation ∧ ∀ id, e.source ≠ .timer id
  discards : s.drainMessages = false → ∀ e ∈ s.log, e.stopped = false
  inside : s.phase.stage = .inside → s.Going ∧ s.offloads.Sound
  head : s.phase.stage = .head → s.stopped = s.stopping ∧ s.offloads.Sound
  drain : s.phase.stage = .drain → s.drainMessages = true ∧ ∃ queued tasks n,
    s.closed = some (queued, tasks, n) ∧ Drains s.log s.mailbox s.offloads queued tasks n
  ended : s.phase.stage = .ended → s.drainMessages = true → ∃ queued tasks n,
    s.closed = some (queued, tasks, n) ∧ Settled s.log s.offloads queued tasks n

variable {s s' : ActorLoop c M}

theorem new_inv (mailbox : MailboxReceiver M) (drainMessages : Bool) : (new mailbox drainMessages : ActorLoop c M).Inv :=
  ⟨.nil, nofun, nofun, fun _ => nofun, fun _ => ⟨⟨rfl, rfl⟩, nofun⟩, nofun, nofun, nofun⟩

namespace Inv

theorem failed (h : s.Inv) : Inv { s with phase := .failed } :=
  ⟨h.fair, h.turn, h.quiet, h.discards, nofun, nofun, nofun, nofun⟩

theorem handle (h : s.Inv) (source : Source) (m : M) (resume : Resume c M) (hadTurn : Bool)
    (offloads : Offloads M) (mailbox : MailboxReceiver M) (continuations : List M) (timers : Timers.St c M)
    (hfair : source = .continuation → s.continuationHadTurn = true → s.mailbox.messages = [])
    (hturn : source = .continuation → hadTurn = true)
    (hquiet : s.stopped = true → source ≠ .continuation ∧ ∀ id, source ≠ .timer id)
    (hdiscards : s.drainMessages = false → s.stopped = false)
    (hinside : (LoopPhase.handling resume).stage = .inside → s.Going ∧ offloads.Sound)
    (hdrain : resume = .draining → s.drainMessages = true ∧ ∃ queued tasks n, s.closed = some (queued, tasks, n) ∧
      Drains (s.log ++ [⟨source, m, s.mailbox.messages.isEmpty, s.stopped⟩]) mailbox offloads queued tasks n) :
    Inv { s.handle source m resume with
      continuationHadTurn := hadTurn, offloads := offloads, mailbox := mailbox, continuations := continuations,
      timers := timers } := by
  refine ⟨?_, fun e he hsource => ?_, fun e he => ?_, fun hd e he => ?_, hinside, fun hstage => ?_, fun hstage => ?_,
    fun hstage => ?_⟩
  · show (s.log ++ [(⟨source, m, s.mailbox.messages.isEmpty, s.stopped⟩ : Handled M)]).IsChain _
    rw [List.isChain_append]
    refine ⟨h.fair, List.isChain_singleton _, fun x hx y hy hxs hys => ?_⟩
    have hy' : (⟨source, m, s.mailbox.messages.isEmpty, s.stopped⟩ : Handled M) = y := by simpa using hy
    subst hy'
    show s.mailbox.messages.isEmpty = true
    rw [hfair hys (h.turn x hx hxs)]
    rfl
  · have he' : (⟨source, m, s.mailbox.messages.isEmpty, s.stopped⟩ : Handled M) = e := by simpa [ActorLoop.handle] using he
    subst he'
    exact hturn hsource
  · rcases List.mem_append.mp he with he | he
    · exact h.quiet e he
    · rw [List.mem_singleton.mp he]
      exact hquiet
  · rcases List.mem_append.mp he with he | he
    · exact h.discards hd e he
    · rw [List.mem_singleton.mp he]
      exact hdiscards hd
  · cases resume <;> cases hstage
  · cases resume with
    | draining => exact hdrain rfl
    | receive => cases hstage
    | window w => cases hstage
  · cases resume <;> cases hstage

theorem leave (h : s.Inv) (hsound : s.offloads.Sound) : s.leave.Inv := by
  refine ⟨h.fair, h.turn, h.quiet, h.discards, fun hstage => ?_, fun hstage => ?_, fun hstage => ?_, fun hstage hd => ?_⟩
  · cases hd : s.drainMessages <;> simp [ActorLoop.leave, hd, LoopPhase.stage] at hstage
  · cases hd : s.drainMessages <;> simp [ActorLoop.leave, hd, LoopPhase.stage] at hstage
  · cases hd : s.drainMessages with
    | false => simp [ActorLoop.leave, hd, LoopPhase.stage] at hstage
    | true =>
      refine ⟨hd, _, _, _, rfl, ?_⟩
      have ho : s.leave.offloads = s.offloads := by simp [ActorLoop.leave, hd]
      refine ⟨Nat.le_refl _, MailboxReceiver.closeExternal_shut, by rw [ho]; exact hsound, ⟨[], ?_⟩, fun task ht => ?_⟩
      · show fromMailbox s.log s.log.length ++ s.mailbox.closeExternal.messages = _
        rw [MailboxReceiver.closeExternal_messages]
        simp [fromMailbox]
      · rw [ho]
        have hin := (List.mem_filter.mp ht).1
        exact (List.mem_append.mp hin).imp_right .inl
  · have hd' : s.drainMessages = true := hd
    simp [ActorLoop.leave, hd', LoopPhase.stage] at hstage

theorem goto (h : s.Inv) (phase : LoopPhase c M) (offloads : Offloads M) (touched : List TimerKey) (timers : Timers.St c M)
    (hstage : phase.stage = .inside) (hgoing : s.Going) (hsound : offloads.Sound) :
    Inv { s with phase, offloads, touched, timers } := by
  refine ⟨h.fair, h.turn, h.quiet, h.discards, fun _ => ⟨hgoing, hsound⟩, fun hs => ?_, fun hs => ?_, fun hs => ?_⟩
  all_goals
    have hs' : phase.stage = _ := hs
    rw [hstage] at hs'
    cases hs'

/-- Something changes beside the loop: arrivals, offloads, timers, the clock, and what a hook
    asks for. -/
theorem world (h : s.Inv) (mailbox : MailboxReceiver M) (offloads : Offloads M) (continuations : List M)
    (timers : Timers.St c M) (stopRequested shutdown : Bool) (now : Instant c) (touched : List TimerKey)
    (hsound : s.offloads.Sound → offloads.Sound)
    (hdrain : s.phase.stage = .drain → ∀ queued tasks n, Drains s.log s.mailbox s.offloads queued tasks n →
      Drains s.log mailbox offloads queued tasks n)
    (hcan : ∀ task ∈ s.offloads.cancelled, task ∈ offloads.cancelled) :
    Inv { s with mailbox, offloads, continuations, timers, stopRequested, shutdown, now, touched } := by
  refine ⟨h.fair, h.turn, h.quiet, h.discards, fun hs => (h.inside hs).imp_right hsound,
    fun hs => (h.head hs).imp_right hsound, fun hs => ?_, fun hs hd => ?_⟩
  · obtain ⟨hd, queued, tasks, n, hclosed, hdrains⟩ := h.drain hs
    exact ⟨hd, queued, tasks, n, hclosed, hdrain hs _ _ _ hdrains⟩
  · obtain ⟨queued, tasks, n, hclosed, hmail, htasks⟩ := h.ended hs hd
    exact ⟨queued, tasks, n, hclosed, hmail, fun task ht => (htasks task ht).imp_right (hcan task)⟩

theorem takeContinuation (h : s.Inv) (hgoing : s.Going) (hsound : s.offloads.Sound)
    (hfair : s.continuationHadTurn = true → s.mailbox.messages = []) : s.takeContinuation.Inv := by
  unfold ActorLoop.takeContinuation
  split
  next m rest hc =>
    refine h.handle .continuation m .receive true s.offloads s.mailbox rest s.timers (fun _ => hfair) (fun _ => rfl)
      (fun hs => ?_) (fun _ => hgoing.1) (fun _ => ⟨hgoing, hsound⟩) nofun
    rw [hgoing.1] at hs
    cases hs
  next hc => exact h.goto (.waiting s.timers.table.nextWake) s.offloads s.touched s.timers rfl hgoing hsound

theorem deliver (h : s.Inv) (source : Source) (m : M) (resume : Resume c M) (offloads : Offloads M)
    (mailbox : MailboxReceiver M) (hsource : source = .mailbox ∨ ∃ task, source = .offload task)
    (hresume : resume ≠ .draining) (hgoing : s.Going) (hsound : offloads.Sound) :
    Inv { { s with continuationHadTurn := false }.handle source m resume with offloads, mailbox } := by
  have hcont : source ≠ .continuation := by
    rcases hsource with rfl | ⟨task, rfl⟩ <;> nofun
  refine h.handle source m resume false offloads mailbox s.continuations s.timers (fun hs => absurd hs hcont)
    (fun hs => absurd hs hcont) (fun hs => ?_) (fun _ => hgoing.1) (fun _ => ⟨hgoing, hsound⟩)
    (fun hd => absurd hd hresume)
  rw [hgoing.1] at hs
  cases hs

theorem sound_rest {o : Offloads M} (h : o.Sound) {rest : List (Nat × JoinResult M)} (hsub : ∀ r ∈ rest, r ∈ o.finished) :
    Offloads.Sound { o with finished := rest } := fun task ht => h task (hsub _ ht)

theorem receive (h : s.Inv) (hphase : s.phase = .receive) : s.receive.Inv := by
  obtain ⟨hstopped, hsound⟩ := h.head (by rw [hphase]; rfl)
  unfold ActorLoop.receive
  by_cases hstop : s.stopping = true
  · rw [if_pos hstop]
    exact h.leave hsound
  rw [if_neg hstop]
  have hrun : s.stopping = false := Bool.not_eq_true _ ▸ hstop
  have hst : s.Going := ⟨hstopped.trans hrun, hrun⟩
  by_cases hshut : s.shutdown = true
  · rw [if_pos hshut]
    exact h.leave hsound
  rw [if_neg hshut]
  by_cases hturn : s.continuationHadTurn = true
  · rw [if_pos hturn]
    have hd := joinReady_delivered s.offloads s.mailbox s.offloads.finished hsound
    unfold tryDelivery
    generalize hdel : joinReady s.offloads s.mailbox s.offloads.finished = d at hd
    generalize hfin : s.offloads.finished = l at hd
    cases hd with
    | offload gone rest task m hgone =>
      refine h.deliver _ m .receive _ s.mailbox (.inr ⟨task, rfl⟩) nofun hst (sound_rest hsound fun r hr => ?_)
      rw [hfin]
      exact List.mem_append_right _ (List.mem_cons_of_mem _ hr)
    | mailbox m mailbox' hgone hrecv => exact h.deliver _ m .receive _ mailbox' (.inl rfl) nofun hst nofun
    | empty hgone hempty =>
      have h' := h.world s.mailbox { s.offloads with finished := [] } s.continuations s.timers s.stopRequested s.shutdown
        s.now s.touched (fun _ => nofun) (fun hs => by rw [hphase] at hs; cases hs) (fun _ => id)
      exact h'.takeContinuation hst nofun fun _ => hempty
    | panic _ _ => exact h.failed
  · rw [if_neg hturn]
    exact h.takeContinuation hst hsound fun ht => absurd ht hturn

theorem joinNext (h : s.Inv) (hst : s.Going) (hsound : s.offloads.Sound) {again : LoopPhase c M}
    (hstage : again.stage = .inside) : (s.joinNext .receive false again).Inv := by
  unfold ActorLoop.joinNext
  split
  · exact h
  next first rest hfin =>
    have hrest : Offloads.Sound { s.offloads with finished := rest } :=
      sound_rest hsound fun r hr => hfin ▸ List.mem_cons_of_mem _ hr
    split
    next task m _ => exact h.deliver _ m .receive _ s.mailbox (.inr ⟨task, rfl⟩) nofun hst hrest
    · exact h.goto again _ s.touched s.timers hstage hst hrest
    · exact h.failed

theorem wait (h : s.Inv) {timer : Option (Timers.Wake c)} (hphase : s.phase = .waiting timer) (pick : Pick) :
    (s.wait timer pick).Inv := by
  obtain ⟨hst, hsound⟩ := h.inside (by rw [hphase]; rfl)
  unfold ActorLoop.wait
  by_cases hshut : s.shutdown = true
  · rw [if_pos hshut]
    exact h.leave hsound
  rw [if_neg hshut]
  cases pick with
  | timer =>
    cases timer with
    | none => exact h
    | some wake =>
      by_cases hdue : wake.deadline ≤ s.now
      · simp only [if_pos hdue]
        exact h.goto _ s.offloads [] s.timers rfl hst hsound
      · simp only [if_neg hdue]
        exact h
  | mailbox =>
    rcases s.mailbox.tryRecv_cases with ⟨_, hnone⟩ | ⟨m, mailbox', hsome, _⟩
    · simp only [hnone]
      exact h
    · simp only [hsome]
      exact h.deliver .mailbox m .receive s.offloads mailbox' (.inl rfl) nofun hst hsound
  | offload => exact h.joinNext hst hsound (by rw [hphase]; rfl)

theorem fire (h : s.Inv) (hst : s.Going) (hsound : s.offloads.Sound) (w : Window c M) : (s.fire w).Inv := by
  unfold ActorLoop.fire
  split
  · exact h.failed
  next table m _ =>
    refine h.handle (.timer w.timer.id) m .receive s.continuationHadTurn s.offloads s.mailbox s.continuations
      (s.timers.taken w.timer table (some m)) nofun nofun (fun hs => ?_) (fun _ => hst.1) (fun _ => ⟨hst, hsound⟩) nofun
    rw [hst.1] at hs
    cases hs
  · exact ⟨h.fair, h.turn, h.quiet, h.discards, nofun, fun _ => ⟨hst.1.trans hst.2.symm, hsound⟩, nofun, nofun⟩

theorem windowTurn (h : s.Inv) (hst : s.Going) (hsound : s.offloads.Sound) (w : Window c M)
    (hfair : s.continuationHadTurn = true → s.mailbox.messages = []) : (s.windowTurn w).Inv := by
  unfold ActorLoop.windowTurn
  split
  next m rest hc =>
    refine h.handle .continuation m (.window w) true s.offloads s.mailbox rest s.timers (fun _ => hfair) (fun _ => rfl)
      (fun hs => ?_) (fun _ => hst.1) (fun _ => ⟨hst, hsound⟩) nofun
    rw [hst.1] at hs
    cases hs
  · by_cases hq : 0 < w.queuedBeforeFire
    · rw [if_pos hq]
      rcases s.mailbox.tryRecv_cases with ⟨_, hnone⟩ | ⟨m, mailbox', hsome, _⟩
      · simp only [hnone]
        exact h.fire hst hsound _
      · simp only [hsome]
        exact h.deliver .mailbox m (.window _) s.offloads mailbox' (.inl rfl) nofun hst hsound
    · rw [if_neg hq]
      exact h.fire hst hsound w

theorem window (h : s.Inv) {w : Window c M} (hphase : s.phase = .window w) : (s.window w).Inv := by
  obtain ⟨hst, hsound⟩ := h.inside (by rw [hphase]; rfl)
  unfold ActorLoop.window
  by_cases hshut : s.shutdown = true
  · rw [if_pos hshut]
    exact h.leave hsound
  rw [if_neg hshut]
  by_cases hturn : s.continuationHadTurn = true
  · rw [if_pos hturn]
    by_cases hq : 0 < w.queuedBeforeFire
    · rw [if_pos hq]
      rcases s.mailbox.tryRecv_cases with ⟨hempty, hnone⟩ | ⟨m, mailbox', hsome, _⟩
      · simp only [hnone]
        exact h.windowTurn hst hsound _ fun _ => hempty
      · simp only [hsome]
        exact h.deliver .mailbox m (.window _) s.offloads mailbox' (.inl rfl) nofun hst hsound
    · rw [if_neg hq]
      have hd := joinReady_delivered s.offloads s.mailbox s.offloads.finished hsound
      unfold tryDelivery
      generalize hdel : joinReady s.offloads s.mailbox s.offloads.finished = d at hd
      generalize hfin : s.offloads.finished = l at hd
      cases hd with
      | offload gone rest task m hgone =>
        refine h.deliver _ m (.window w) _ s.mailbox (.inr ⟨task, rfl⟩) nofun hst (sound_rest hsound fun r hr => ?_)
        rw [hfin]
        exact List.mem_append_right _ (List.mem_cons_of_mem _ hr)
      | mailbox m mailbox' hgone hrecv => exact h.deliver _ m (.window w) _ mailbox' (.inl rfl) nofun hst nofun
      | empty hgone hempty =>
        have h' := h.world s.mailbox { s.offloads with finished := [] } s.continuations s.timers s.stopRequested s.shutdown
          s.now s.touched (fun _ => nofun) (fun hs => by rw [hphase] at hs; cases hs) (fun _ => id)
        exact h'.windowTurn hst nofun w fun _ => hempty
      | panic _ _ => exact h.failed
  · rw [if_neg hturn]
    exact h.windowTurn hst hsound w fun ht => absurd ht hturn

theorem drained (h : s.Inv) (source : Source) (m : M) (offloads : Offloads M) (mailbox : MailboxReceiver M)
    (hsource : source = .mailbox ∨ ∃ task, source = .offload task) (hstage : s.phase.stage = .drain)
    (hdrains : ∀ queued tasks n, Drains s.log s.mailbox s.offloads queued tasks n →
      Drains (s.log ++ [⟨source, m, s.mailbox.messages.isEmpty, s.stopped⟩]) mailbox offloads queued tasks n) :
    Inv { s.handle source m .draining with offloads, mailbox } := by
  obtain ⟨hd, queued, tasks, n, hclosed, hdr⟩ := h.drain hstage
  have hcont : source ≠ .continuation := by
    rcases hsource with rfl | ⟨task, rfl⟩ <;> nofun
  refine h.handle source m .draining s.continuationHadTurn offloads mailbox s.continuations s.timers
    (fun hs => absurd hs hcont) (fun hs => absurd hs hcont) (fun _ => ⟨hcont, fun id => ?_⟩) (fun hd' => ?_) nofun
    (fun _ => ⟨hd, queued, tasks, n, hclosed, hdrains _ _ _ hdr⟩)
  · rcases hsource with rfl | ⟨task, rfl⟩ <;> nofun
  · rw [hd] at hd'
    cases hd'

theorem passed {o : Offloads M} (gone rest : List (Nat × JoinResult M)) (hfin : o.finished = gone ++ rest)
    (hgone : ∀ r ∈ gone, r.1 ∈ o.cancelled) (task : Nat)
    (h : task ∈ o.running ∨ task ∈ o.finished.map (·.1) ∨ task ∈ o.cancelled) :
    task ∈ o.running ∨ task ∈ rest.map (·.1) ∨ task ∈ o.cancelled := by
  refine h.imp_right fun h => ?_
  rcases h with h | h
  · rw [hfin, List.map_append] at h
    rcases List.mem_append.mp h with h | h
    · obtain ⟨r, hr, heq⟩ := List.mem_map.mp h
      exact .inr (heq ▸ hgone r hr)
    · exact .inl h
  · exact .inr h

theorem drain_step (h : s.Inv) (hphase : s.phase = .draining) : s.drain.Inv := by
  have hstage : s.phase.stage = .drain := by rw [hphase]; rfl
  obtain ⟨hd, queued, tasks, n, hclosed, hdr⟩ := h.drain hstage
  have hsound := hdr.sound
  have hdel := joinReady_delivered s.offloads s.mailbox s.offloads.finished hsound
  unfold ActorLoop.drain tryDelivery
  generalize joinReady s.offloads s.mailbox s.offloads.finished = d at hdel
  generalize hfin : s.offloads.finished = l at hdel
  cases hdel with
  | offload gone rest task m hgone =>
    refine h.drained _ m _ s.mailbox (.inr ⟨task, rfl⟩) hstage fun queued tasks n hdr => ?_
    refine hdr.join rfl (sound_rest hsound fun r hr => ?_) fun task' ht => ?_
    · rw [hfin]
      exact List.mem_append_right _ (List.mem_cons_of_mem _ hr)
    · rcases passed gone _ hfin hgone task' ht with hr | hf | hc
      · exact .inl hr
      · rcases List.mem_cons.mp hf with heq | hf
        · exact .inr (.inr (.inl heq))
        · exact .inr (.inl hf)
      · exact .inr (.inr (.inr hc))
  | mailbox m mailbox' hgone hrecv =>
    refine h.drained _ m _ mailbox' (.inl rfl) hstage fun queued tasks n hdr => ?_
    have hempty : Drains s.log s.mailbox { s.offloads with finished := [] } queued tasks n :=
      hdr.offloads nofun (passed l [] (by rw [hfin, List.append_nil]) hgone)
    refine hempty.receive rfl ?_ (MailboxReceiver.tryRecv_some hrecv)
    have hshut := MailboxReceiver.tryRecv_shut hdr.shut
    rw [hrecv] at hshut
    exact hshut
  | empty hgone hempty =>
    have hdr' : Drains s.log s.mailbox { s.offloads with finished := [] } queued tasks n :=
      hdr.offloads nofun (passed l [] (by rw [hfin, List.append_nil]) hgone)
    by_cases ho : ({ s.offloads with finished := [] } : Offloads M).isEmpty = true
    · simp only [if_pos ho]
      exact ⟨h.fair, h.turn, h.quiet, h.discards, nofun, nofun, nofun,
        fun _ _ => ⟨queued, tasks, n, hclosed, hdr'.settled hempty ho⟩⟩
    · simp only [if_neg ho]
      exact ⟨h.fair, h.turn, h.quiet, h.discards, nofun, nofun, fun _ => ⟨hd, queued, tasks, n, hclosed, hdr'⟩, nofun⟩
  | panic _ _ => exact h.failed

theorem drainWait (h : s.Inv) (hphase : s.phase = .drainWaiting) (pick : Pick) : (s.drainWait pick).Inv := by
  have hstage : s.phase.stage = .drain := by rw [hphase]; rfl
  obtain ⟨hd, queued, tasks, n, hclosed, hdr⟩ := h.drain hstage
  unfold ActorLoop.drainWait
  cases pick with
  | timer => exact h
  | mailbox =>
    rcases s.mailbox.tryRecv_cases with ⟨_, hnone⟩ | ⟨m, mailbox', hsome, hm⟩
    · simp only [hnone]
      exact h
    · simp only [hsome]
      refine h.drained .mailbox m s.offloads mailbox' (.inl rfl) hstage fun queued tasks n hdr => hdr.receive rfl ?_ hm
      have hshut := MailboxReceiver.tryRecv_shut hdr.shut
      rw [hsome] at hshut
      exact hshut
  | offload =>
    unfold ActorLoop.joinNext
    dsimp only
    split
    · exact h
    next first rest hfin =>
      have hrest : Offloads.Sound { s.offloads with finished := rest } :=
        sound_rest hdr.sound fun r hr => hfin ▸ List.mem_cons_of_mem _ hr
      split
      next task m hj =>
        refine h.drained _ m _ s.mailbox (.inr ⟨task, rfl⟩) hstage fun queued tasks n hdr => ?_
        refine hdr.join rfl hrest fun task' ht => ?_
        rcases passed [] _ hfin nofun task' ht with hr | hf | hc
        · exact .inl hr
        · rcases List.mem_cons.mp hf with heq | hf
          · exact .inr (.inr (.inl (heq.trans (Offloads.joined_message hj))))
          · exact .inr (.inl hf)
        · exact .inr (.inr (.inr hc))
      next hj =>
        have hgone := Offloads.joined_nothing hdr.sound (hfin ▸ List.mem_cons_self ..) hj
        refine ⟨h.fair, h.turn, h.quiet, h.discards, nofun, nofun, fun _ => ⟨hd, queued, tasks, n, hclosed, ?_⟩, nofun⟩
        exact hdr.offloads hrest (passed [first] rest hfin fun r hr => List.mem_singleton.mp hr ▸ hgone)
      · exact h.failed

theorem poll (h : s.Inv) (pick : Pick) : (s.poll pick).Inv := by
  unfold ActorLoop.poll
  split
  next hp => exact h.receive hp
  next timer hp => exact h.wait hp pick
  next w hp => exact h.window hp
  next hp => exact h.drain_step hp
  next hp => exact h.drainWait hp pick
  · exact h

theorem returned (h : s.Inv) (ok : Bool) : (s.returned ok).Inv := by
  unfold ActorLoop.returned
  cases hp : s.phase with
  | onStart =>
    obtain ⟨_, hsound⟩ := h.inside (by rw [hp]; rfl)
    cases ok with
    | true => exact ⟨h.fair, h.turn, h.quiet, h.discards, nofun, fun _ => ⟨rfl, hsound⟩, nofun, nofun⟩
    | false => exact h.failed
  | handling resume =>
    cases resume with
    | receive =>
      obtain ⟨_, hsound⟩ := h.inside (by rw [hp]; rfl)
      cases ok with
      | true => exact ⟨h.fair, h.turn, h.quiet, h.discards, nofun, fun _ => ⟨rfl, hsound⟩, nofun, nofun⟩
      | false => exact h.failed
    | window w =>
      obtain ⟨hst, hsound⟩ := h.inside (by rw [hp]; rfl)
      cases ok with
      | true =>
        by_cases hstop : s.stopRequested = true
        · simp only [if_true, if_pos hstop]
          exact ⟨h.fair, h.turn, h.quiet, h.discards, nofun, fun _ => ⟨rfl, hsound⟩, nofun, nofun⟩
        · simp only [if_true, if_neg hstop]
          exact h.goto (.window w) s.offloads s.touched s.timers rfl hst hsound
      | false => exact h.failed
    | draining =>
      have hdrain := h.drain (by rw [hp]; rfl)
      cases ok with
      | true => exact ⟨h.fair, h.turn, h.quiet, h.discards, nofun, nofun, fun _ => hdrain, nofun⟩
      | false => exact h.failed
  | onStop =>
    have hover := h.ended (by rw [hp]; rfl)
    cases ok with
    | true => exact ⟨h.fair, h.turn, h.quiet, h.discards, nofun, nofun, nofun, fun _ => hover⟩
    | false => exact h.failed
  | receive => exact h
  | waiting timer => exact h
  | window w => exact h
  | draining => exact h
  | drainWaiting => exact h
  | finished => exact h
  | failed => exact h

/-- A step of the world or of a hook that leaves mailbox and offloads alone. -/
theorem aside (h : s.Inv) (continuations : List M) (timers : Timers.St c M) (stopRequested shutdown : Bool) (now : Instant c)
    (touched : List TimerKey) : Inv { s with continuations, timers, stopRequested, shutdown, now, touched } :=
  h.world s.mailbox s.offloads continuations timers stopRequested shutdown now touched id (fun _ _ _ _ => id) fun _ => id

/-- A step that concerns the offloads only. -/
theorem offloads (h : s.Inv) (o : Offloads M) (hsound : s.offloads.Sound → o.Sound)
    (howed : ∀ task, task ∈ s.offloads.running ∨ task ∈ s.offloads.finished.map (·.1) ∨ task ∈ s.offloads.cancelled →
      task ∈ o.running ∨ task ∈ o.finished.map (·.1) ∨ task ∈ o.cancelled)
    (hcan : ∀ task ∈ s.offloads.cancelled, task ∈ o.cancelled) : Inv { s with offloads := o } :=
  h.world s.mailbox o s.continuations s.timers s.stopRequested s.shutdown s.now s.touched hsound
    (fun _ _ _ _ hdr => hdr.offloads (hsound hdr.sound) howed) hcan

theorem finish (h : s.Inv) (task : Nat) (result : JoinResult M)
    (hab : result = .aborted → task ∈ s.offloads.cancelled) : Inv { s with offloads := s.offloads.finish task result } := by
  unfold Offloads.finish
  by_cases hrun : task ∈ s.offloads.running
  · rw [if_pos hrun]
    refine h.offloads _ (fun hsound t ht => ?_) (fun t ht => ?_) fun _ => id
    · rcases List.mem_append.mp ht with ht | ht
      · exact hsound t ht
      · cases List.mem_singleton.mp ht
        exact hab rfl
    · rcases ht with hr | hf | hc
      · by_cases heq : t = task
        · exact .inr (.inl (by simp [heq]))
        · exact .inl ((List.mem_erase_of_ne heq).mpr hr)
      · refine .inr (.inl ?_)
        rw [List.map_append]
        exact List.mem_append_left _ hf
      · exact .inr (.inr hc)
  · rw [if_neg hrun]
    exact h

theorem setTimer (h : s.Inv) (key : TimerKey) (op : Timers.Op c M) : (s.setTimer key op).Inv := by
  unfold ActorLoop.setTimer
  split
  · split
    · exact h.aside s.continuations _ s.stopRequested s.shutdown s.now _
    · exact h.failed
  · exact h

theorem step (h : s.Inv) (a : LoopAction c M) : (s.step a).Inv := by
  unfold ActorLoop.step
  cases a with
  | poll pick => exact h.poll pick
  | send m =>
    refine h.world (s.mailbox.send m) s.offloads s.continuations s.timers s.stopRequested s.shutdown s.now s.touched id
      (fun _ queued tasks n hdr => ?_) fun _ => id
    rw [MailboxReceiver.send_shut hdr.shut]
    exact hdr
  | land m =>
    refine h.world (s.mailbox.land m) s.offloads s.continuations s.timers s.stopRequested s.shutdown s.now s.touched id
      (fun _ queued tasks n hdr => ?_) fun _ => id
    obtain ⟨late, hlate⟩ := s.mailbox.land_messages (m := m)
    exact hdr.arrive (MailboxReceiver.land_shut hdr.shut) hlate
  | cancelShutdown => exact h.aside s.continuations s.timers s.stopRequested true s.now s.touched
  | tick d => exact h.aside s.continuations s.timers s.stopRequested s.shutdown _ s.touched
  | finish task result =>
    cases result with
    | completed m => exact h.finish task _ nofun
    | panicked => exact h.finish task _ nofun
    | aborted =>
      by_cases hcan : task ∈ s.offloads.cancelled
      · simp only [if_pos hcan]
        exact h.finish task _ fun _ => hcan
      · simp only [if_neg hcan]
        exact h
  | dropGuard task =>
    refine h.offloads _ (fun hsound t ht => List.mem_append_left _ (hsound t ht)) (fun t ht => ?_)
      fun t ht => List.mem_append_left _ ht
    exact ht.imp_right (·.imp_right (List.mem_append_left _))
  | continueWith m =>
    by_cases hh : s.hooked = true
    · simp only [if_pos hh]
      exact h.aside (s.continuations ++ [m]) s.timers s.stopRequested s.shutdown s.now s.touched
    · simp only [if_neg hh]
      exact h
  | stop =>
    by_cases hh : s.hooked = true
    · simp only [if_pos hh]
      exact h.aside s.continuations s.timers true s.shutdown s.now s.touched
    · simp only [if_neg hh]
      exact h
  | setTimeout key m delay => exact h.setTimer key _
  | setInterval key m period => exact h.setTimer key _
  | clearTimer key => exact h.setTimer key _
  | offload =>
    by_cases hh : s.hooked = true
    · simp only [if_pos hh]
      refine h.offloads _ id (fun t ht => ?_) fun _ => id
      exact ht.imp_left (List.mem_append_left _)
    · simp only [if_neg hh]
      exact h
  | done ok => exact h.returned ok

theorem run (mailbox : MailboxReceiver M) (drainMessages : Bool) (actions : List (LoopAction c M)) :
    (run mailbox drainMessages actions).Inv := by
  unfold ActorLoop.run
  generalize hs : new mailbox drainMessages = s
  have h : s.Inv := hs ▸ new_inv mailbox drainMessages
  clear hs
  induction actions generalizing s with
  | nil => exact h
  | cons a actions ih => exact ih _ (h.step a)

end Inv

/-- While the mailbox holds a message, a drain goes on. -/
theorem drain_goes_on (h : s.Inv) (hphase : s.phase = .draining) (hm : s.mailbox.messages ≠ []) :
    s.drain.phase = .handling .draining ∨ s.drain.phase = .failed := by
  obtain ⟨_, queued, tasks, n, _, hdr⟩ := h.drain (by rw [hphase]; rfl)
  have hdel := joinReady_delivered s.offloads s.mailbox s.offloads.finished hdr.sound
  unfold ActorLoop.drain tryDelivery
  generalize joinReady s.offloads s.mailbox s.offloads.finished = d at hdel
  generalize s.offloads.finished = l at hdel
  cases hdel with
  | offload gone rest task m hgone => exact .inl rfl
  | mailbox m mailbox' hgone hrecv => exact .inl rfl
  | empty hgone hempty => exact absurd hempty hm
  | panic _ _ => exact .inr rfl

/-- Every run of the loop, whatever the handler does and whatever arrives when. A
    continuation follows another only if the mailbox was empty when it was selected; after a
    stop request or the shutdown was seen, no continuation and no timer message is handled;
    when `on_stop` runs after a drain, the mailbox as it was when the intake closed and every
    offload outstanding then have been handled, but for offloads that were cancelled, and the
    drain goes on as long as there is a message; a loop that does not drain handles nothing
    more. -/
theorem loop_schedules (mailbox : MailboxReceiver M) (drainMessages : Bool) (actions : List (LoopAction c M)) :
    (∀ before x y after, (run mailbox drainMessages actions).log = before ++ x :: y :: after →
      x.source = .continuation → y.source = .continuation → y.mailboxEmpty = true) ∧
    (∀ e ∈ (run mailbox drainMessages actions).log, e.stopped = true →
      e.source ≠ .continuation ∧ ∀ id, e.source ≠ .timer id) ∧
    ((run mailbox drainMessages actions).drainMessages = true →
      ((run mailbox drainMessages actions).phase = .onStop ∨ (run mailbox drainMessages actions).phase = .finished →
        ∃ queued tasks n, (run mailbox drainMessages actions).closed = some (queued, tasks, n) ∧
          queued <+: fromMailbox (run mailbox drainMessages actions).log n ∧
          ∀ task ∈ tasks, (∃ e ∈ (run mailbox drainMessages actions).log.drop n, e.source = .offload task) ∨
            task ∈ (run mailbox drainMessages actions).offloads.cancelled) ∧
      ((run mailbox drainMessages actions).phase = .draining →
        (run mailbox drainMessages actions).mailbox.messages ≠ [] → ∀ pick,
        ((run mailbox drainMessages actions).poll pick).phase = .handling .draining ∨
        ((run mailbox drainMessages actions).poll pick).phase = .failed)) ∧
    ((run mailbox drainMessages actions).drainMessages = false →
      ∀ e ∈ (run mailbox drainMessages actions).log, e.stopped = false) := by
  have h := Inv.run mailbox drainMessages actions
  generalize run mailbox drainMessages actions = s at h
  refine ⟨fun before x y after hlog hx hy => ?_, h.quiet, fun hd => ⟨fun hphase => ?_, fun hphase hm pick => ?_⟩, h.discards⟩
  · have hfair := h.fair
    rw [hlog, List.isChain_append_cons_cons] at hfair
    exact hfair.2.1 hx hy
  · exact h.ended (by rcases hphase with hp | hp <;> rw [hp] <;> rfl) hd
  · have hpoll : s.poll pick = s.drain := by
      unfold ActorLoop.poll
      rw [hphase]
    rw [hpoll]
    exact drain_goes_on h hphase hm

/-- A shutdown with two messages in the mailbox and an offload that has not finished. -/
def drained : List (LoopAction Clock.signed Nat) :=
  [.offload, .done true, .poll .mailbox, .cancelShutdown, .poll .mailbox, .finish 0 (.completed 9),
    .poll .mailbox, .done true, .poll .mailbox, .done true, .poll .mailbox, .done true, .poll .mailbox]

theorem loop_schedules_drained :
    (run (.queue [1, 2] true) true drained).phase = .onStop ∧
      (run (.queue [1, 2] true) true drained).closed = some ([1, 2], [0], 0) ∧
      [1, 2] <+: fromMailbox (run (.queue [1, 2] true) true drained).log 0 ∧
      ∃ e ∈ (run (.queue [1, 2] true) true drained).log, e.source = .offload 0 := by
  have hphase : (run (.queue [1, 2] true) true drained).phase = .onStop := rfl
  have hclosed : (run (.queue [1, 2] true) true drained).closed = some ([1, 2], [0], 0) := rfl
  have hcancelled : (run (.queue [1, 2] true) true drained).offloads.cancelled = [] := rfl
  obtain ⟨-, -, hdrain, -⟩ := loop_schedules (.queue [1, 2] true) true drained
  obtain ⟨queued, tasks, n, heq, hmail, htasks⟩ := (hdrain rfl).1 (.inl hphase)
  rw [hclosed] at heq
  cases heq
  refine ⟨hphase, hclosed, hmail, ?_⟩
  rcases htasks 0 List.mem_cons_self with hdone | hgone
  · exact hdone
  · rw [hcancelled] at hgone
    cases hgone

end ActorLoop

end Kokage.Actor

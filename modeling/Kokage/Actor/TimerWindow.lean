/-
  Kokage.Actor.TimerWindow — the turn of an elapsed timer in the receive loop
  (`actor/handler.rs`: the `LoopEvent::Timer` branch).

  Between its selection and its message a timer waits for the messages that were queued
  when it was selected. `WindowOk` is what holds meanwhile: how many of them are left is
  counted down in two places, continuations and deliveries of later messages come in
  between, and the handlers may set and clear timers. What is said of the timer itself
  rests on its id, so it holds while fewer than `2^64` ids were issued.
-/

import Kokage.Actor.Handler

namespace Kokage.Actor

open Kokage.Lib.Time

variable {c : Clock} {M : Type}

/-! ## The window -/

/-- A place of the loop that is neither a wait nor a window. -/
def LoopPhase.plain : LoopPhase c M → Bool
  | .waiting _ => false
  | .window _ => false
  | .handling (.window _) => false
  | _ => true

namespace ActorLoop

variable {s : ActorLoop c M}

/-- The entries of the log, from number `n` on, that are continuations, and the others. -/
def turns (log : List (Handled M)) (n : Nat) : Nat := (log.drop n).countP (·.source = .continuation)

def others (log : List (Handled M)) (n : Nat) : Nat := (log.drop n).countP (·.source ≠ .continuation)

def timerIds (log : List (Handled M)) : List UInt64 :=
  log.filterMap fun e => match e.source with | .timer id => some id | _ => none

/-- The timer of the window is due, and it is in the table unless its key was touched. -/
def Pending (timers : Timers.St c M) (now : Instant c) (touched : List TimerKey) (w : Window c M) : Prop :=
  ∃ e, w.entry = some e ∧ e.wake = w.timer ∧ e.deadline ≤ now ∧ e.id.toNat ≤ timers.issued ∧
    (e.key ∉ touched → e ∈ timers.table.entries) ∧ (e.key ∈ touched → ∀ x ∈ timers.table.entries, x.id ≠ e.id)

structure WindowOk (log : List (Handled M)) (messages : List M) (hadTurn : Bool) (timers : Timers.St c M) (now : Instant c)
    (touched : List TimerKey) (w : Window c M) : Prop where
  since : w.since ≤ log.length
  /-- What was queued comes first, and in its order. -/
  order : ∃ late, fromMailbox log w.since ++ messages = w.queued ++ late
  left : 0 < w.queuedBeforeFire → (fromMailbox log w.since).length + w.queuedBeforeFire = w.queued.length
  covered : w.queued.length ≤ (fromMailbox log w.since).length + w.queuedBeforeFire
  /-- Beyond what was queued, a message needs a continuation before it, or one from before
      the window. -/
  bound : others log w.since + w.queuedBeforeFire + (if hadTurn then 1 else 0) ≤ w.queued.length + 1 + turns log w.since
  timer : timers.issued < 2 ^ 64 → Pending timers now touched w

structure Timed (s : ActorLoop c M) : Prop where
  queue : ∃ messages accepting, s.mailbox = .queue messages accepting
  table : s.timers.issued < 2 ^ 64 → s.timers.Inv
  waits : ∀ wake, s.phase = .waiting (some wake) → s.timers.table.nextWake = some wake
  /-- The timers in the log are those whose messages the table has delivered. -/
  fired : timerIds s.log = s.timers.fired.map (·.id)
  window : ∀ w, s.phase = .window w ∨ s.phase = .handling (.window w) →
    WindowOk s.log s.mailbox.messages s.continuationHadTurn s.timers s.now s.touched w

theorem turns_snoc {log : List (Handled M)} {n : Nat} (hn : n ≤ log.length) (e : Handled M) :
    turns (log ++ [e]) n = turns log n + (if e.source = .continuation then 1 else 0) := by
  unfold turns
  rw [List.drop_append_of_le_length hn, List.countP_append, List.countP_singleton]
  simp

theorem others_snoc {log : List (Handled M)} {n : Nat} (hn : n ≤ log.length) (e : Handled M) :
    others (log ++ [e]) n = others log n + (if e.source = .continuation then 0 else 1) := by
  unfold others
  rw [List.drop_append_of_le_length hn, List.countP_append, List.countP_singleton]
  by_cases he : e.source = .continuation
  · simp [he]
  · simp [he]

namespace WindowOk

variable {log : List (Handled M)} {messages messages' : List M} {hadTurn : Bool} {timers timers' : Timers.St c M} {now : Instant c}
  {touched : List TimerKey} {w : Window c M}

theorem continuation (h : WindowOk log messages hadTurn timers now touched w) {e : Handled M}
    (he : e.source = .continuation) : WindowOk (log ++ [e]) messages true timers now touched w := by
  have hmail : fromMailbox (log ++ [e]) w.since = fromMailbox log w.since := by
    rw [fromMailbox_snoc h.since, if_neg (by rw [he]; nofun), List.append_nil]
  have hbound := h.bound
  refine ⟨?_, by rw [hmail]; exact h.order, by rw [hmail]; exact h.left, by rw [hmail]; exact h.covered, ?_, h.timer⟩
  · rw [List.length_append]
    exact Nat.le_add_right_of_le h.since
  · rw [turns_snoc h.since, others_snoc h.since, if_pos he, if_pos he]
    simp only [if_true]
    split at hbound <;> omega

theorem counted (h : WindowOk log messages hadTurn timers now touched w) (hq : 0 < w.queuedBeforeFire) {e : Handled M}
    (he : e.source = .mailbox) (hm : messages = e.message :: messages') :
    WindowOk (log ++ [e]) messages' false timers now touched { w with queuedBeforeFire := w.queuedBeforeFire - 1 } := by
  have hmail : fromMailbox (log ++ [e]) w.since = fromMailbox log w.since ++ [e.message] := by
    rw [fromMailbox_snoc h.since, if_pos he]
  have hleft := h.left hq
  have hbound := h.bound
  refine ⟨?_, ?_, fun hq' => ?_, ?_, ?_, h.timer⟩
  · rw [List.length_append]
    exact Nat.le_add_right_of_le h.since
  · obtain ⟨late, hlate⟩ := h.order
    refine ⟨late, ?_⟩
    rw [hmail, List.append_assoc, List.singleton_append, ← hm]
    exact hlate
  · rw [hmail, List.length_append, List.length_singleton]
    show _ + 1 + (w.queuedBeforeFire - 1) = w.queued.length
    omega
  · rw [hmail, List.length_append, List.length_singleton]
    show w.queued.length ≤ _ + 1 + (w.queuedBeforeFire - 1)
    omega
  · have hne : e.source ≠ .continuation := by rw [he]; nofun
    rw [turns_snoc h.since, others_snoc h.since, if_neg hne, if_neg hne]
    show _ + 1 + (w.queuedBeforeFire - 1) + 0 ≤ w.queued.length + 1 + (_ + 0)
    split at hbound <;> omega

/-- Nothing of the queue is left, and a delivery has its turn after a continuation. -/
theorem delivered (h : WindowOk log messages true timers now touched w) (hq : ¬ 0 < w.queuedBeforeFire) {e : Handled M}
    (he : e.source ≠ .continuation)
    (hm : (e.source = .mailbox ∧ messages = e.message :: messages') ∨ (e.source ≠ .mailbox ∧ messages = messages')) :
    WindowOk (log ++ [e]) messages' false timers now touched w := by
  have hcov := h.covered
  have hbound := h.bound
  obtain ⟨late, hlate⟩ := h.order
  refine ⟨?_, ?_, fun hq' => absurd hq' hq, ?_, ?_, h.timer⟩
  · rw [List.length_append]
    exact Nat.le_add_right_of_le h.since
  · refine ⟨late, ?_⟩
    rw [fromMailbox_snoc h.since]
    rcases hm with ⟨hs, hm⟩ | ⟨hs, hm⟩
    · rw [if_pos hs, List.append_assoc, List.singleton_append, ← hm]
      exact hlate
    · rw [if_neg hs, List.append_nil, ← hm]
      exact hlate
  · rw [fromMailbox_snoc h.since, List.length_append]
    omega
  · rw [turns_snoc h.since, others_snoc h.since, if_neg he, if_neg he]
    simp only [if_true, Bool.false_eq_true, if_false] at hbound ⊢
    omega

theorem messages_ne (h : WindowOk log messages hadTurn timers now touched w) (hq : 0 < w.queuedBeforeFire) :
    messages ≠ [] := by
  intro hnil
  obtain ⟨late, hlate⟩ := h.order
  have hlen := congrArg List.length hlate
  rw [hnil, List.append_nil, List.length_append] at hlen
  have hleft := h.left hq
  omega

/-- Once nothing is counted any more, all that was queued has been handled. -/
theorem queued_prefix (h : WindowOk log messages hadTurn timers now touched w) (hq : ¬ 0 < w.queuedBeforeFire) :
    w.queued <+: fromMailbox log w.since := by
  obtain ⟨late, hlate⟩ := h.order
  have hcov := h.covered
  exact List.prefix_of_prefix_length_le ⟨late, hlate.symm⟩ ⟨messages, rfl⟩ (by omega)

theorem arrive (h : WindowOk log messages hadTurn timers now touched w) (late : List M) :
    WindowOk log (messages ++ late) hadTurn timers now touched w := by
  refine ⟨h.since, ?_, h.left, h.covered, h.bound, h.timer⟩
  obtain ⟨later, hlater⟩ := h.order
  exact ⟨later ++ late, by rw [← List.append_assoc, hlater, List.append_assoc]⟩

theorem tick (h : WindowOk log messages hadTurn timers now touched w) {later : Instant c} (hle : now ≤ later) :
    WindowOk log messages hadTurn timers later touched w := by
  refine ⟨h.since, h.order, h.left, h.covered, h.bound, ?_⟩
  intro hlt
  obtain ⟨e, hentry, hwake, hdue, hrest⟩ := h.timer hlt
  exact ⟨e, hentry, hwake, Nat.le_trans hdue hle, hrest⟩

theorem touch (h : WindowOk log messages hadTurn timers now touched w) (htable : timers.issued < 2 ^ 64 → timers.Inv)
    {key : TimerKey} {op : Timers.Op c M} (hop : ∀ e : Timers.Entry c M, op.Disturbs e ↔ key = e.key)
    (hstep : timers.step op = some timers') : WindowOk log messages hadTurn timers' now (touched ++ [key]) w := by
  refine ⟨h.since, h.order, h.left, h.covered, h.bound, ?_⟩
  intro hlt
  have hle := Timers.St.step_le hstep
  have hinv := htable (by omega)
  obtain ⟨-, hmem⟩ := (hinv.step hstep).2 hlt
  obtain ⟨e, hentry, hwake, hdue, hid, hkept, hgone⟩ := h.timer (by omega)
  refine ⟨e, hentry, hwake, hdue, Nat.le_trans hid hle, ?_, ?_⟩
  · intro hout
    rw [List.mem_append, not_or, List.mem_singleton] at hout
    exact (hmem e).mpr (.inl ⟨hkept hout.1, fun hd => hout.2 ((hop e).mp hd).symm⟩)
  · intro hin x hx heq
    rcases (hmem x).mp hx with ⟨hold, hquiet⟩ | hadd
    · by_cases htouched : e.key ∈ touched
      · exact hgone htouched x hold heq
      · have hkey : e.key = key := List.mem_singleton.mp ((List.mem_append.mp hin).resolve_left htouched)
        rw [List.inj_on_of_nodup_map hinv.distinct.ids hold (hkept htouched) heq] at hquiet
        exact hquiet ((hop e).mpr hkey.symm)
    · have hnew := hinv.adds_new hstep hlt hadd
      rw [heq] at hnew
      omega

end WindowOk

theorem timerIds_snoc (log : List (Handled M)) {e : Handled M} (he : ∀ id, e.source ≠ .timer id) :
    timerIds (log ++ [e]) = timerIds log := by
  unfold timerIds
  rw [List.filterMap_append]
  cases hs : e.source with
  | timer id => exact absurd hs (he id)
  | mailbox => simp [hs]
  | offload task => simp [hs]
  | continuation => simp [hs]

theorem new_timed (messages : List M) (accepting drainMessages : Bool) :
    (new (.queue messages accepting) drainMessages : ActorLoop c M).Timed :=
  ⟨⟨messages, accepting, rfl⟩, fun _ => Timers.St.inv_new, nofun, rfl, fun _ h => by rcases h with h | h <;> cases h⟩

namespace Timed

theorem plain (h : s.Timed) {s' : ActorLoop c M} (hphase : s'.phase.plain = true)
    (hqueue : ∃ messages accepting, s'.mailbox = .queue messages accepting) (htimers : s'.timers = s.timers)
    (hlog : timerIds s'.log = timerIds s.log) : s'.Timed := by
  refine ⟨hqueue, htimers ▸ h.table, fun wake hp => ?_, ?_, fun w hp => ?_⟩
  · rw [hp] at hphase
    cases hphase
  · rw [hlog, htimers]
    exact h.fired
  · rcases hp with hp | hp <;> rw [hp] at hphase <;> cases hphase

theorem leave (h : s.Timed) : s.leave.Timed := by
  obtain ⟨messages, accepting, hm⟩ := h.queue
  refine h.plain ?_ ⟨messages, false, ?_⟩ rfl rfl
  · cases hd : s.drainMessages <;> simp [ActorLoop.leave, hd, LoopPhase.plain]
  · simp [ActorLoop.leave, hm, MailboxReceiver.closeExternal]

theorem queue_recv (h : s.Timed) {mailbox' : MailboxReceiver M} {m : M} (hr : s.mailbox.tryRecv = (mailbox', some m)) :
    ∃ messages accepting, mailbox' = .queue messages accepting := by
  obtain ⟨messages, accepting, hm⟩ := h.queue
  rw [hm] at hr
  cases messages with
  | nil => cases hr
  | cons x rest =>
    cases hr
    exact ⟨rest, accepting, rfl⟩

theorem handle (h : s.Timed) (source : Source) (m : M) {resume : Resume c M} (hsource : ∀ id, source ≠ .timer id)
    (hresume : (LoopPhase.handling resume).plain = true) (hadTurn : Bool) (offloads : Offloads M)
    (mailbox : MailboxReceiver M) (continuations : List M)
    (hqueue : ∃ messages accepting, mailbox = .queue messages accepting) :
    Timed { s.handle source m resume with
      continuationHadTurn := hadTurn, offloads := offloads, mailbox := mailbox, continuations := continuations } :=
  h.plain hresume hqueue rfl (timerIds_snoc s.log hsource)

theorem inWindow (h : s.Timed) (source : Source) (m : M) (w : Window c M) (hsource : ∀ id, source ≠ .timer id)
    (hadTurn : Bool) (offloads : Offloads M) (mailbox : MailboxReceiver M) (continuations : List M)
    (hqueue : ∃ messages accepting, mailbox = .queue messages accepting)
    (hw : WindowOk (s.log ++ [⟨source, m, s.mailbox.messages.isEmpty, s.stopped⟩]) mailbox.messages hadTurn s.timers s.now
      s.touched w) :
    Timed { s.handle source m (.window w) with
      continuationHadTurn := hadTurn, offloads := offloads, mailbox := mailbox, continuations := continuations } := by
  have hids := timerIds_snoc s.log (e := ⟨source, m, s.mailbox.messages.isEmpty, s.stopped⟩) hsource
  refine ⟨hqueue, h.table, nofun, hids.trans h.fired, fun w' hp => ?_⟩
  · rcases hp with hp | hp
    · cases hp
    · cases hp
      exact hw

theorem takeContinuation (h : s.Timed) : s.takeContinuation.Timed := by
  unfold ActorLoop.takeContinuation
  split
  next m rest hc => exact h.handle .continuation m nofun rfl true s.offloads s.mailbox rest h.queue
  · refine ⟨h.queue, h.table, fun wake hp => ?_, h.fired, fun w hp => ?_⟩
    · have hnext : LoopPhase.waiting s.timers.table.nextWake = .waiting (some wake) := hp
      exact LoopPhase.waiting.inj hnext
    · rcases hp with hp | hp <;> cases hp

theorem receive (h : s.Timed) (hi : s.Inv) (hphase : s.phase = .receive) : s.receive.Timed := by
  obtain ⟨_, hsound⟩ := hi.head (by rw [hphase]; rfl)
  unfold ActorLoop.receive
  by_cases hstop : s.stopping = true
  · rw [if_pos hstop]
    exact h.leave
  rw [if_neg hstop]
  by_cases hshut : s.shutdown = true
  · rw [if_pos hshut]
    exact h.leave
  rw [if_neg hshut]
  by_cases hturn : s.continuationHadTurn = true
  · rw [if_pos hturn]
    have hd := joinReady_delivered s.offloads s.mailbox s.offloads.finished hsound
    unfold tryDelivery
    generalize joinReady s.offloads s.mailbox s.offloads.finished = d at hd
    generalize s.offloads.finished = l at hd
    cases hd with
    | offload gone rest task m hgone => exact h.handle (.offload task) m nofun rfl false _ s.mailbox s.continuations h.queue
    | mailbox m mailbox' hgone hrecv => exact h.handle .mailbox m nofun rfl false _ mailbox' s.continuations (h.queue_recv hrecv)
    | empty hgone hempty =>
      have h' : Timed { s with offloads := { s.offloads with finished := [] } } :=
        ⟨h.queue, h.table, h.waits, h.fired, h.window⟩
      exact h'.takeContinuation
    | panic _ _ => exact h.plain rfl h.queue rfl rfl
  · rw [if_neg hturn]
    exact h.takeContinuation

theorem joinNext (h : s.Timed) {resume : Resume c M} (hresume : (LoopPhase.handling resume).plain = true) (hadTurn : Bool)
    {again : LoopPhase c M} (hagain : again = s.phase ∨ again.plain = true) : (s.joinNext resume hadTurn again).Timed := by
  unfold ActorLoop.joinNext
  split
  · exact h
  · split
    next task m _ => exact h.handle (.offload task) m nofun hresume hadTurn _ s.mailbox s.continuations h.queue
    · rcases hagain with rfl | hplain
      · exact ⟨h.queue, h.table, h.waits, h.fired, h.window⟩
      · exact h.plain hplain h.queue rfl rfl
    · exact h.plain rfl h.queue rfl rfl

theorem waited (h : s.Timed) {wake : Timers.Wake c} (hphase : s.phase = .waiting (some wake)) :
    ∃ e ∈ s.timers.table.entries, e.wake = wake ∧ s.timers.table.entries.find? (·.wake = wake) = some e := by
  obtain ⟨e, hleast, hwake⟩ := Option.map_eq_some_iff.mp (h.waits wake hphase)
  have he := (Timers.Table.earliest_least hleast).1
  cases hf : s.timers.table.entries.find? (·.wake = wake) with
  | none => exact absurd hwake (of_decide_eq_false (Bool.not_eq_true _ ▸ List.find?_eq_none.mp hf e he))
  | some x =>
    have hx := List.find?_some hf
    exact ⟨x, List.mem_of_find?_eq_some hf, of_decide_eq_true hx, rfl⟩

/-- An elapsed timer is selected: nothing has been handled yet. -/
theorem openWindow (h : s.Timed) {wake : Timers.Wake c} (hphase : s.phase = .waiting (some wake)) (hdue : wake.deadline ≤ s.now) :
    (s.openWindow wake).Timed := by
  have hwaits : ∀ wake', (s.openWindow wake).phase ≠ .waiting (some wake') := by
    intro wake' hp
    cases hp
  refine ⟨h.queue, h.table, fun wake' hp => absurd hp (hwaits wake'), h.fired, fun w hp => ?_⟩
  have hw : (s.openWindow wake).phase = .window w := by
    rcases hp with hp | hp
    · exact hp
    · cases hp
  obtain ⟨e, he, hwake, hfind⟩ := h.waited hphase
  have hmail : fromMailbox s.log s.log.length = [] := by simp [fromMailbox]
  cases hw
  refine ⟨Nat.le_refl _, ⟨[], ?_⟩, fun _ => ?_, ?_, ?_, fun hlt => ⟨e, hfind, hwake, hwake ▸ hdue,
    (h.table hlt).issued e he, fun _ => he, fun hin => absurd hin List.not_mem_nil⟩⟩
  · show fromMailbox s.log s.log.length ++ s.mailbox.messages = s.mailbox.messages ++ []
    rw [hmail, List.nil_append, List.append_nil]
  · show (fromMailbox s.log s.log.length).length + s.mailbox.messages.length = s.mailbox.messages.length
    rw [hmail, List.length_nil, Nat.zero_add]
  · show s.mailbox.messages.length ≤ _ + s.mailbox.messages.length
    exact Nat.le_add_left ..
  · show others s.log s.log.length + s.mailbox.messages.length + _ ≤ s.mailbox.messages.length + 1 + turns s.log s.log.length
    have hnone : others s.log s.log.length = 0 := by simp [others]
    rw [hnone]
    split <;> omega

theorem wait (h : s.Timed) {timer : Option (Timers.Wake c)} (hphase : s.phase = .waiting timer) (pick : Pick) :
    (s.wait timer pick).Timed := by
  unfold ActorLoop.wait
  by_cases hshut : s.shutdown = true
  · rw [if_pos hshut]
    exact h.leave
  rw [if_neg hshut]
  cases pick with
  | timer =>
    cases timer with
    | none => exact h
    | some wake =>
      by_cases hdue : wake.deadline ≤ s.now
      · simp only [if_pos hdue]
        exact h.openWindow hphase hdue
      · simp only [if_neg hdue]
        exact h
  | mailbox =>
    rcases s.mailbox.tryRecv_cases with ⟨_, hnone⟩ | ⟨m, mailbox', hsome, _⟩
    · simp only [hnone]
      exact h
    · simp only [hsome]
      exact h.handle .mailbox m nofun rfl false s.offloads mailbox' s.continuations (h.queue_recv hsome)
  | offload => exact h.joinNext rfl false (.inl rfl)

end Timed

/-- The timer's turn: its message is next exactly if no handler has touched its key. -/
structure After (s : ActorLoop c M) (w : Window c M) (s' : ActorLoop c M) : Prop where
  /-- No timer has this id any more, and none will. -/
  gone : w.timer.id.toNat ≤ s'.timers.issued ∧ ∀ x ∈ s'.timers.table.entries, x.id ≠ w.timer.id
  fires : ∃ e, w.entry = some e ∧
    (e.key ∉ s.touched → s'.phase = .handling .receive ∧
      s'.log = s.log ++ [⟨.timer w.timer.id, e.message, s.mailbox.messages.isEmpty, s.stopped⟩]) ∧
    (e.key ∈ s.touched → s'.phase = .receive ∧ s'.log = s.log)

/-- What is known when the window `w` is over, and what the loop then does. -/
structure Over (s : ActorLoop c M) (w : Window c M) (s' : ActorLoop c M) : Prop where
  queued : w.queued <+: fromMailbox s.log w.since
  bound : others s.log w.since ≤ w.queued.length + 1 + turns s.log w.since
  after : After s w s'

/-- The loop broke off: an offload panicked, or an interval came to the end of the clock. -/
structure Broke (s s' : ActorLoop c M) : Prop where
  failed : s'.phase = .failed
  cause : (∃ task, (task, .panicked) ∈ s.offloads.finished) ∨ c.horizon < s.now.nanos + farFuture.asNanos

namespace Timed

theorem fire (h : s.Timed) (w : Window c M) : (s.fire w).Timed := by
  have hnext : ∀ {table delivered}, s.timers.table.takeFired s.now w.timer = some (table, delivered) →
      (s.timers.taken w.timer table delivered).issued < 2 ^ 64 → (s.timers.taken w.timer table delivered).Inv := by
    intro table delivered htake hlt
    have hle := Timers.St.taken_le s.timers w.timer table delivered
    exact (((h.table (by omega)).step (Timers.St.step_take htake)).2 hlt).1
  unfold ActorLoop.fire
  split
  · exact h.plain rfl h.queue rfl rfl
  next table m htake =>
    refine ⟨h.queue, hnext htake, nofun, ?_, fun w' hp => by rcases hp with hp | hp <;> cases hp⟩
    show timerIds (s.log ++ [_]) = (s.timers.fired ++ [w.timer]).map _
    rw [List.map_append, ← h.fired]
    exact List.filterMap_append ..
  next table htake =>
    exact ⟨h.queue, hnext htake, nofun, h.fired, fun w' hp => by rcases hp with hp | hp <;> cases hp⟩

/-- The window is over: the timer's message is next, unless its key has been touched. -/
theorem fire_after (h : s.Timed) {w : Window c M} (hw : s.timers.issued < 2 ^ 64 → Pending s.timers s.now s.touched w)
    (hlt : (s.fire w).timers.issued < 2 ^ 64) : Broke s (s.fire w) ∨ After s w (s.fire w) := by
  cases htake : s.timers.table.takeFired s.now w.timer with
  | none =>
    have hfire : s.fire w = { s with phase := .failed } := by
      unfold ActorLoop.fire
      rw [htake]
    rw [hfire]
    refine .inl ⟨rfl, .inr (Nat.lt_of_not_le fun hfar => ?_)⟩
    obtain ⟨r, hr⟩ := Timers.Table.takeFired_some hfar w.timer
    rw [htake] at hr
    cases hr
  | some r =>
    obtain ⟨table, delivered⟩ := r
    have htimers : (s.fire w).timers = s.timers.taken w.timer table delivered := by
      unfold ActorLoop.fire
      rw [htake]
      cases delivered with
      | none => rfl
      | some m => rfl
    have hle := Timers.St.taken_le s.timers w.timer table delivered
    rw [← htimers] at hle
    have hinv := h.table (by omega)
    have hstep : s.timers.step (.takeFired s.now w.timer) = some (s.fire w).timers := by
      rw [htimers]
      exact Timers.St.step_take htake
    obtain ⟨-, hmem⟩ := (hinv.step hstep).2 hlt
    obtain ⟨e, hentry, hwake, hdue, hid, hkept, hgone⟩ := hw (by omega)
    have hwid : w.timer.id = e.id := congrArg Timers.Wake.id hwake.symm
    refine .inr ⟨⟨?_, fun x hx => ?_⟩, e, hentry, fun hout => ?_, fun hin => ?_⟩
    · rw [hwid]
      exact Nat.le_trans hid hle
    · rw [hwid]
      intro heq
      rcases (hmem x).mp hx with ⟨hold, hquiet⟩ | hadd
      · by_cases htouched : e.key ∈ s.touched
        · exact hgone htouched x hold heq
        · rw [List.inj_on_of_nodup_map hinv.distinct.ids hold (hkept htouched) heq] at hquiet
          exact hquiet ⟨hwake.symm, hdue⟩
      · have hnew := hinv.adds_new hstep hlt hadd
        rw [heq] at hnew
        omega
    · rw [← hwake] at htake
      have hmessage := Timers.Table.takeFired_message hinv.distinct (hkept hout) hdue htake
      subst hmessage
      unfold ActorLoop.fire
      rw [← hwake, htake]
      exact ⟨rfl, rfl⟩
    · have hnone : s.timers.table.takeFired s.now w.timer = some (s.timers.table, none) :=
        Timers.Table.takeFired_early fun x hx hxw =>
          absurd ((congrArg Timers.Wake.id hxw).trans hwid) (hgone hin x hx)
      unfold ActorLoop.fire
      rw [hnone]
      exact ⟨rfl, rfl⟩

theorem windowTurn (h : s.Timed) {w : Window c M}
    (hw : WindowOk s.log s.mailbox.messages s.continuationHadTurn s.timers s.now s.touched w) :
    (s.windowTurn w).Timed ∧ ((s.windowTurn w).timers.issued < 2 ^ 64 →
      (∃ n, (s.windowTurn w).phase = .handling (.window { w with queuedBeforeFire := n })) ∨ Broke s (s.windowTurn w) ∨
      Over s w (s.windowTurn w)) := by
  unfold ActorLoop.windowTurn
  split
  next m rest hc =>
    exact ⟨h.inWindow .continuation m w nofun true s.offloads s.mailbox rest h.queue (hw.continuation rfl),
      fun _ => .inl ⟨w.queuedBeforeFire, rfl⟩⟩
  · by_cases hq : 0 < w.queuedBeforeFire
    · rw [if_pos hq]
      rcases s.mailbox.tryRecv_cases with ⟨hempty, _⟩ | ⟨m, mailbox', hsome, hm⟩
      · exact absurd hempty (hw.messages_ne hq)
      · simp only [hsome]
        exact ⟨h.inWindow .mailbox m _ nofun false s.offloads mailbox' s.continuations (h.queue_recv hsome)
          (hw.counted hq rfl hm), fun _ => .inl ⟨_, rfl⟩⟩
    · rw [if_neg hq]
      have hbound := hw.bound
      refine ⟨h.fire w, fun hlt => .inr ((h.fire_after hw.timer hlt).imp_right fun hafter => ?_)⟩
      exact ⟨hw.queued_prefix hq, by omega, hafter⟩

theorem window_turn (h : s.Timed) (hi : s.Inv) {w : Window c M} (hphase : s.phase = .window w) (hshut : s.shutdown = false) :
    (s.window w).Timed ∧ ((s.window w).timers.issued < 2 ^ 64 →
      (∃ n, (s.window w).phase = .handling (.window { w with queuedBeforeFire := n })) ∨ Broke s (s.window w) ∨
      Over s w (s.window w)) := by
  obtain ⟨_, hsound⟩ := hi.inside (by rw [hphase]; rfl)
  have hw := h.window w (.inl hphase)
  unfold ActorLoop.window
  rw [if_neg (by rw [hshut]; nofun)]
  by_cases hturn : s.continuationHadTurn = true
  · rw [if_pos hturn]
    by_cases hq : 0 < w.queuedBeforeFire
    · rw [if_pos hq]
      rcases s.mailbox.tryRecv_cases with ⟨hempty, _⟩ | ⟨m, mailbox', hsome, hm⟩
      · exact absurd hempty (hw.messages_ne hq)
      · simp only [hsome]
        exact ⟨h.inWindow .mailbox m _ nofun false s.offloads mailbox' s.continuations (h.queue_recv hsome)
          (hw.counted hq rfl hm), fun _ => .inl ⟨_, rfl⟩⟩
    · rw [if_neg hq]
      have hw' := hw
      rw [hturn] at hw'
      have hd := joinReady_delivered s.offloads s.mailbox s.offloads.finished hsound
      unfold tryDelivery
      generalize joinReady s.offloads s.mailbox s.offloads.finished = d at hd
      generalize hfin : s.offloads.finished = l at hd
      cases hd with
      | offload gone rest task m hgone =>
        exact ⟨h.inWindow (.offload task) m w nofun false _ s.mailbox s.continuations h.queue
          (hw'.delivered hq nofun (.inr ⟨nofun, rfl⟩)), fun _ => .inl ⟨w.queuedBeforeFire, rfl⟩⟩
      | mailbox m mailbox' hgone hrecv =>
        exact ⟨h.inWindow .mailbox m w nofun false _ mailbox' s.continuations (h.queue_recv hrecv)
          (hw'.delivered hq nofun (.inl ⟨rfl, MailboxReceiver.tryRecv_some hrecv⟩)), fun _ => .inl ⟨w.queuedBeforeFire, rfl⟩⟩
      | empty hgone hempty =>
        have h' : Timed { s with offloads := { s.offloads with finished := [] } } :=
          ⟨h.queue, h.table, h.waits, h.fired, h.window⟩
        obtain ⟨htimed, hgo⟩ := h'.windowTurn hw
        refine ⟨htimed, fun hlt => (hgo hlt).imp_right (.imp (fun hbroke => ⟨hbroke.failed, hbroke.cause.imp_left nofun⟩) ?_)⟩
        exact fun hover => ⟨hover.queued, hover.bound, hover.after.gone, hover.after.fires⟩
      | panic task hin => exact ⟨h.plain rfl h.queue rfl rfl, fun _ => .inr (.inl ⟨rfl, .inl ⟨task, hfin ▸ hin⟩⟩)⟩
  · rw [if_neg hturn]
    exact h.windowTurn hw

theorem window_step (h : s.Timed) (hi : s.Inv) {w : Window c M} (hphase : s.phase = .window w) : (s.window w).Timed := by
  cases hshut : s.shutdown with
  | false => exact (h.window_turn hi hphase hshut).1
  | true =>
    unfold ActorLoop.window
    rw [if_pos hshut]
    exact h.leave

theorem drain (h : s.Timed) (hi : s.Inv) (hphase : s.phase = .draining) : s.drain.Timed := by
  obtain ⟨_, queued, tasks, n, _, hdr⟩ := hi.drain (by rw [hphase]; rfl)
  have hdel := joinReady_delivered s.offloads s.mailbox s.offloads.finished hdr.sound
  unfold ActorLoop.drain tryDelivery
  generalize joinReady s.offloads s.mailbox s.offloads.finished = d at hdel
  generalize s.offloads.finished = l at hdel
  cases hdel with
  | offload gone rest task m hgone =>
    exact h.handle (.offload task) m nofun rfl s.continuationHadTurn _ s.mailbox s.continuations h.queue
  | mailbox m mailbox' hgone hrecv =>
    exact h.handle .mailbox m nofun rfl s.continuationHadTurn _ mailbox' s.continuations (h.queue_recv hrecv)
  | empty hgone hempty =>
    dsimp only
    split
    · exact h.plain rfl h.queue rfl rfl
    · exact h.plain rfl h.queue rfl rfl
  | panic _ _ => exact h.plain rfl h.queue rfl rfl

theorem drainWait (h : s.Timed) (pick : Pick) : (s.drainWait pick).Timed := by
  unfold ActorLoop.drainWait
  cases pick with
  | timer => exact h
  | mailbox =>
    rcases s.mailbox.tryRecv_cases with ⟨_, hnone⟩ | ⟨m, mailbox', hsome, _⟩
    · simp only [hnone]
      exact h
    · simp only [hsome]
      exact h.handle .mailbox m nofun rfl s.continuationHadTurn s.offloads mailbox' s.continuations (h.queue_recv hsome)
  | offload => exact h.joinNext rfl s.continuationHadTurn (.inr rfl)

theorem poll (h : s.Timed) (hi : s.Inv) (pick : Pick) : (s.poll pick).Timed := by
  unfold ActorLoop.poll
  split
  next hp => exact h.receive hi hp
  next timer hp => exact h.wait hp pick
  next w hp => exact h.window_step hi hp
  next hp => exact h.drain hi hp
  next hp => exact h.drainWait pick
  · exact h

theorem returned (h : s.Timed) (ok : Bool) : (s.returned ok).Timed := by
  have hplain : ∀ p : LoopPhase c M, p.plain = true → ∀ stopping stopped : Bool, Timed { s with phase := p, stopping, stopped } :=
    fun p hp _ _ => h.plain hp h.queue rfl rfl
  unfold ActorLoop.returned
  cases hp : s.phase with
  | onStart => cases ok <;> exact hplain _ rfl _ _
  | handling resume =>
    cases resume with
    | receive => cases ok <;> exact hplain _ rfl _ _
    | window w =>
      cases ok with
      | false => exact hplain _ rfl _ _
      | true =>
        by_cases hstop : s.stopRequested = true
        · simp only [if_true, if_pos hstop]
          exact hplain _ rfl _ _
        · simp only [if_true, if_neg hstop]
          refine ⟨h.queue, h.table, nofun, h.fired, fun w' hw => ?_⟩
          have hsame : LoopPhase.window w = .window w' := hw.resolve_right nofun
          cases hsame
          exact h.window w (.inr hp)
    | draining => cases ok <;> exact hplain _ rfl _ _
  | onStop => cases ok <;> exact hplain _ rfl _ _
  | receive => exact h
  | waiting timer => exact h
  | window w => exact h
  | draining => exact h
  | drainWaiting => exact h
  | finished => exact h
  | failed => exact h

theorem arrive (h : s.Timed) {messages late : List M} {accepting : Bool} (hm : s.mailbox = .queue messages accepting) :
    Timed { s with mailbox := .queue (messages ++ late) accepting } := by
  refine ⟨⟨_, _, rfl⟩, h.table, h.waits, h.fired, fun w hp => ?_⟩
  have hw := h.window w hp
  rw [hm] at hw
  exact hw.arrive late

theorem setTimer (h : s.Timed) {key : TimerKey} {op : Timers.Op c M}
    (hop : ∀ e : Timers.Entry c M, op.Disturbs e ↔ key = e.key)
    (hfired : ∀ {timers}, s.timers.step op = some timers → timers.fired = s.timers.fired) : (s.setTimer key op).Timed := by
  unfold ActorLoop.setTimer
  by_cases hh : s.hooked = true
  · rw [if_pos hh]
    split
    next timers hstep =>
      have hle := Timers.St.step_le hstep
      refine ⟨h.queue, fun hlt => ?_, fun wake hp => ?_, ?_, fun w hp => (h.window w hp).touch h.table hop hstep⟩
      · have hlt : timers.issued < 2 ^ 64 := hlt
        exact (((h.table (by omega)).step hstep).2 hlt).1
      · have hp' : s.phase = .waiting (some wake) := hp
        unfold hooked at hh
        rw [hp'] at hh
        cases hh
      · show timerIds s.log = timers.fired.map _
        rw [hfired hstep]
        exact h.fired
    · exact h.plain rfl h.queue rfl rfl
  · rw [if_neg hh]
    exact h

theorem step (h : s.Timed) (hi : s.Inv) (a : LoopAction c M) : (s.step a).Timed := by
  obtain ⟨messages, accepting, hm⟩ := h.queue
  have hsame : ∀ (offloads : Offloads M) (continuations : List M) (stopRequested shutdown : Bool),
      Timed { s with offloads, continuations, stopRequested, shutdown } :=
    fun _ _ _ _ => ⟨h.queue, h.table, h.waits, h.fired, h.window⟩
  unfold ActorLoop.step
  cases a with
  | poll pick => exact h.poll hi pick
  | send m =>
    simp only [hm, MailboxReceiver.send]
    split
    · exact h.arrive hm
    · rw [← hm]
      exact hsame _ _ _ _
  | land m =>
    simp only [hm, MailboxReceiver.land]
    exact h.arrive hm
  | cancelShutdown => exact hsame _ _ _ _
  | tick d => exact ⟨h.queue, h.table, h.waits, h.fired, fun w hp => (h.window w hp).tick s.now.le_checkedAdd_getD⟩
  | finish task result =>
    cases result with
    | completed m => exact hsame _ _ _ _
    | panicked => exact hsame _ _ _ _
    | aborted =>
      dsimp only
      split
      · exact hsame _ _ _ _
      · exact h
  | dropGuard task => exact hsame _ _ _ _
  | continueWith m =>
    dsimp only
    split
    · exact hsame _ _ _ _
    · exact h
  | stop =>
    dsimp only
    split
    · exact hsame _ _ _ _
    · exact h
  | setTimeout key m delay =>
    refine h.setTimer (fun _ => Iff.rfl) fun hstep => ?_
    obtain ⟨t, -, rfl⟩ := Option.map_eq_some_iff.mp hstep
    rfl
  | setInterval key m period =>
    refine h.setTimer (fun _ => Iff.rfl) fun hstep => ?_
    obtain ⟨t, -, rfl⟩ := Option.map_eq_some_iff.mp hstep
    rfl
  | clearTimer key =>
    refine h.setTimer (fun _ => Iff.rfl) fun hstep => ?_
    cases hstep
    rfl
  | offload =>
    dsimp only
    split
    · exact hsame _ _ _ _
    · exact h
  | done ok => exact h.returned ok

theorem run (messages : List M) (accepting drainMessages : Bool) (actions : List (LoopAction c M)) :
    (run (.queue messages accepting) drainMessages actions).Timed := by
  unfold ActorLoop.run
  generalize hs : new (.queue messages accepting) drainMessages = s
  have h : s.Timed := hs ▸ new_timed messages accepting drainMessages
  have hi : s.Inv := hs ▸ new_inv _ drainMessages
  clear hs
  induction actions generalizing s with
  | nil => exact h
  | cons a actions ih => exact ih _ (h.step hi a) (hi.step a)

end Timed

end ActorLoop

end Kokage.Actor

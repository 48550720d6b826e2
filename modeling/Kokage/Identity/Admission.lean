/-
  Kokage.Identity.Admission — a nested supervisor on its way into a dynamic scope
  (`supervisor/handle.rs`: `PendingSupervisorChild`, `ControlEndpoint::send`,
  `add_child_spec`; `supervisor/owner.rs`: `Supervisor::drop`).

  `add_child_spec` owns the spec until it has found the scope's endpoint, the command owns
  it from then on: while its sender waits for room, in the channel, and in the handler. Each
  owner makes the reserved identity terminal when it is dropped with the spec still in it.
  The handler alone takes the spec out, and then inserts it (`admitted_or_terminal`).

  `Control` is one incarnation of the scope with its command channel, the calls under way
  and the bindings of the nested identities. A caller may drop its future at any await; the
  incarnation may go at any time, and drops what is left in the channel.
-/

import Kokage.Identity.Channels
import Kokage.Supervisor.Refusals

namespace Kokage.Identity

open Kokage.Lib Kokage.Supervisor SupervisorRuntime

/-! ## State -/

/-- A call of `add_child_spec` with a nested supervisor. -/
structure Call where
  child : ChildDefinition
  identity : Nat
  kind_eq : child.kind = .supervisor identity
  reply : Nat

def Call.command (c : Call) : SupervisorCommand := .addNested c.child (by rw [c.kind_eq]; rfl) c.reply

structure Control where
  machine : Machine
  capacity : Nat
  /-- The scope's binding is the one of this incarnation. -/
  bound : Bool
  /-- The receiver was dropped with the incarnation. -/
  gone : Bool
  /-- The calls under way, and whether the command is being sent. -/
  calls : List (Call × Bool)
  stable : Nat → StableBindingState
  /-- Every call there was. -/
  made : List Call

def terminalize (stable : Nat → StableBindingState) (identity : Nat) : Nat → StableBindingState :=
  Function.update stable identity (stable identity).makeTerminal

/-- What a command that is dropped does to the identity in it. -/
def dropCommand (stable : Nat → StableBindingState) : SupervisorCommand → Nat → StableBindingState
  | .addNested child _ _ =>
    match child.kind with
    | .supervisor identity => terminalize stable identity
    | .task => stable
  | .addChild _ _ _ | .removeChild _ _ _ => stable

/-- What the runtime does to the bindings of nested identities. -/
def heed (bound : Bool) (stable : Nat → StableBindingState) : Notice → Nat → StableBindingState
  | .terminal identity => terminalize stable identity
  | .retire _ identity => if bound then terminalize stable identity else stable
  | _ => stable

def addsNested : Input → Bool
  | .env (.submit (.addNested _ _ _)) => true
  | _ => false

inductive Admission where
  /-- The runtime's own steps, and the commands of other calls. -/
  | run (i : Input)
  | call (c : Call)
  /-- `control_endpoint`. -/
  | endpoint (n : Nat)
  /-- There is room for the command. -/
  | hand (n : Nat)
  /-- `SendError`. -/
  | refuse (n : Nat)
  /-- The caller drops the future. -/
  | cancel (n : Nat)
  | bind
  | unbind
  | vanish
  /-- An incarnation of a nested identity binds or goes. -/
  | bindNested (identity doneRx : Nat)
  | releaseNested (identity epoch : Nat)

namespace Control

def start (c : SupervisorConfig) (b : Binding) (capacity : Nat) : Control where
  machine := Supervisor.start c b
  capacity := capacity
  bound := false
  gone := false
  calls := []
  stable := (Supervisor.start c b).rt.notices.foldl (heed false) fun _ => .new
  made := []

/-- A call ends with the spec dropped. -/
def drop (s : Control) (n : Nat) (c : Call) : Control :=
  { s with calls := s.calls.eraseIdx n, stable := terminalize s.stable c.identity }

def absorb (s : Control) (m : Machine) : Control :=
  { s with
    machine := m
    stable := (m.rt.notices.drop s.machine.rt.notices.length).foldl (heed s.bound) s.stable }

def step (s : Control) : Admission → Option Control
  | .run i => if s.gone || addsNested i then none else some (s.absorb (Supervisor.step s.machine i))
  | .call c =>
    -- a spec is moved into one call
    if s.made.any (·.identity = c.identity) then none
    else some { s with calls := s.calls ++ [(c, false)], made := s.made ++ [c] }
  | .endpoint n =>
    match s.calls[n]? with
    | some (c, false) => some (if s.bound then { s with calls := s.calls.set n (c, true) } else s.drop n c)
    | _ => none
  | .hand n =>
    match s.calls[n]? with
    | some (c, true) =>
      if !s.gone && s.machine.rt.accepts && s.machine.rt.commandRx.length < s.capacity then
        some { s with calls := s.calls.eraseIdx n, machine := Supervisor.step s.machine (.env (.submit c.command)) }
      else none
    | _ => none
  | .refuse n =>
    match s.calls[n]? with
    | some (c, true) => if s.gone || s.machine.rt.commandsClosed then some (s.drop n c) else none
    | _ => none
  | .cancel n =>
    match s.calls[n]? with
    | some (c, _) => some (s.drop n c)
    | none => none
  | .bind => some { s with bound := true }
  | .unbind => some { s with bound := false }
  | .vanish =>
    if s.gone then none
    else some { s with gone := true, stable := s.machine.rt.commandRx.foldl dropCommand s.stable }
  | .bindNested identity doneRx =>
    let b := s.stable identity
    if b.terminal then none
    else some { s with stable := Function.update s.stable identity (b.allocate.commit b.nextBindingEpoch doneRx) }
  | .releaseNested identity epoch =>
    some { s with stable := Function.update s.stable identity ((s.stable identity).release epoch) }

/-! ## Accounting -/

/-- The caller still has the call. -/
def Holds (s : Control) (c : Call) : Prop := ∃ sending, (c, sending) ∈ s.calls

/-- The command is in the channel. -/
def Queued (s : Control) (c : Call) : Prop := s.gone = false ∧ c.command ∈ s.machine.rt.commandRx

def Admitted (s : Control) (c : Call) : Prop := .insertNested c.child.id c.identity ∈ s.machine.rt.notices

def Accounted (s : Control) (c : Call) : Prop :=
  s.Holds c ∨ s.Queued c ∨ s.Admitted c ∨ (s.stable c.identity).terminal = true

structure Inv (s : Control) : Prop where
  machine : s.machine.Inv
  made : ∀ c ∈ s.made, s.Accounted c
  told : ∀ identity, .terminal identity ∈ s.machine.rt.notices → (s.stable identity).terminal = true

end Control

section Terminal

variable {stable stable' : Nat → StableBindingState} {i : Nat}

theorem terminalize_self : (terminalize stable i i).terminal = true := by
  simp [terminalize, StableBindingState.makeTerminal]

/-- Nothing makes a terminal identity live again. -/
def Stays (stable stable' : Nat → StableBindingState) : Prop := ∀ i, (stable i).terminal = true → (stable' i).terminal = true

theorem stays_update {b : StableBindingState} (h : (stable i).terminal = true → b.terminal = true) :
    Stays stable (Function.update stable i b) := by
  intro j hj
  by_cases hij : j = i
  · subst hij
    rw [Function.update_self]
    exact h hj
  · rw [Function.update_of_ne hij]
    exact hj

theorem stays_terminalize : Stays stable (terminalize stable i) := stays_update fun _ => rfl

theorem stays_foldl {α : Type} {f : (Nat → StableBindingState) → α → Nat → StableBindingState}
    (hf : ∀ stable a, Stays stable (f stable a)) (as : List α) (stable : Nat → StableBindingState) :
    Stays stable (as.foldl f stable) := by
  induction as generalizing stable with
  | nil => exact fun _ h => h
  | cons a as ih => exact fun i h => ih (f stable a) i (hf stable a i h)

theorem stays_heed (bound : Bool) (stable : Nat → StableBindingState) (n : Notice) : Stays stable (heed bound stable n) := by
  unfold heed
  split
  · exact stays_terminalize
  · split
    · exact stays_terminalize
    · exact fun _ h => h
  · exact fun _ h => h

theorem stays_dropCommand (stable : Nat → StableBindingState) (c : SupervisorCommand) : Stays stable (dropCommand stable c) := by
  unfold dropCommand
  split
  · split
    · exact stays_terminalize
    · exact fun _ h => h
  · exact fun _ h => h
  · exact fun _ h => h

theorem heeded (bound : Bool) (ns : List Notice) (hn : .terminal i ∈ ns) (stable : Nat → StableBindingState) :
    (ns.foldl (heed bound) stable i).terminal = true := by
  induction ns generalizing stable with
  | nil => cases hn
  | cons n ns ih =>
    rcases List.mem_cons.mp hn with h | h
    · subst h
      exact stays_foldl (stays_heed bound) ns _ i terminalize_self
    · exact ih h _

theorem dropped {c : Call} {cs : List SupervisorCommand} (hc : c.command ∈ cs) (stable : Nat → StableBindingState) :
    (cs.foldl dropCommand stable c.identity).terminal = true := by
  induction cs generalizing stable with
  | nil => cases hc
  | cons x cs ih =>
    rcases List.mem_cons.mp hc with h | h
    · subst h
      have hdrop : dropCommand stable c.command = terminalize stable c.identity := by
        simp [dropCommand, Call.command, c.kind_eq]
      rw [List.foldl_cons, hdrop]
      exact stays_foldl stays_dropCommand cs _ _ terminalize_self
    · exact ih h _

end Terminal

/-! ## Steps -/

namespace Control

variable {s s' : Control} {n : Nat} {c : Call}

theorem Accounted.of_le (h : s.Accounted c) (hcalls : ∀ sending, (c, sending) ∈ s.calls → s'.Accounted c)
    (hqueue : s.Queued c → s'.Accounted c) (hnotices : s.machine.rt.notices <+: s'.machine.rt.notices)
    (hstable : Stays s.stable s'.stable) : s'.Accounted c := by
  rcases h with ⟨sending, h⟩ | h | h | h
  · exact hcalls sending h
  · exact hqueue h
  · exact .inr (.inr (.inl (hnotices.subset h)))
  · exact .inr (.inr (.inr (hstable _ h)))

theorem mem_eraseIdx_or {α : Type} {xs : List α} {x y : α} {n : Nat} (hn : xs[n]? = some y) (hx : x ∈ xs) :
    x = y ∨ x ∈ xs.eraseIdx n := by
  obtain ⟨k, hk⟩ := List.mem_iff_getElem?.mp hx
  by_cases hkn : k = n
  · subst hkn
    left
    rw [hn] at hk
    exact (Option.some.inj hk).symm
  · exact .inr (List.mem_eraseIdx_iff_getElem?.mpr ⟨k, hkn, hk⟩)

theorem Inv.drop {sending : Bool} (h : s.Inv) (hc : s.calls[n]? = some (c, sending)) : (s.drop n c).Inv where
  machine := h.machine
  made c' hc' := by
    refine (h.made c' hc').of_le (fun sending' hmem => ?_) (fun hq => .inr (.inl hq)) List.prefix_rfl stays_terminalize
    rcases mem_eraseIdx_or hc hmem with heq | hmem
    · cases heq
      exact .inr (.inr (.inr terminalize_self))
    · exact .inl ⟨sending', hmem⟩
  told i hi := stays_terminalize i (h.told i hi)

/-- What a step of the machine makes of the commands in its queue. -/
theorem step_queue {m : Machine} (i : Input) (hinv : m.Inv) :
    m.rt.notices <+: (Supervisor.step m i).rt.notices ∧ ∀ x ∈ m.rt.commandRx,
      x ∈ (Supervisor.step m i).rt.commandRx ∨ x.Handled (Supervisor.step m i).rt.notices := by
  cases i with
  | env e =>
    have hw := @env_works (fun _ => True) m.rt e
    exact ⟨hw.notices_le, hw.queue⟩
  | wake w =>
    have hw := wake_works w hinv
    exact ⟨hw.notices_le, hw.queue⟩

theorem Inv.run (h : s.Inv) (i : Input) : (s.absorb (Supervisor.step s.machine i)).Inv := by
  obtain ⟨⟨new, hnew⟩, hqueue⟩ := step_queue i h.machine
  have hstays : Stays s.stable (s.absorb (Supervisor.step s.machine i)).stable := stays_foldl (stays_heed s.bound) _ _
  have htold : ∀ j, .terminal j ∈ (Supervisor.step s.machine i).rt.notices →
      ((s.absorb (Supervisor.step s.machine i)).stable j).terminal = true := by
    intro j hj
    rw [← hnew] at hj
    rcases List.mem_append.mp hj with hj | hj
    · exact hstays j (h.told j hj)
    · refine heeded s.bound _ ?_ _
      rw [← hnew, List.drop_left]
      exact hj
  refine ⟨(step_inv i h.machine).1, fun c hc => ?_, htold⟩
  refine (h.made c hc).of_le (fun sending hmem => .inl ⟨sending, hmem⟩) (fun hq => ?_) ⟨new, hnew⟩ hstays
  rcases hqueue _ hq.2 with hx | hx
  · exact .inr (.inl ⟨hq.1, hx⟩)
  · rcases hx c.identity c.kind_eq with hx | hx
    · exact .inr (.inr (.inl hx))
    · exact .inr (.inr (.inr (htold _ hx)))

theorem Inv.hand (h : s.Inv) (hc : s.calls[n]? = some (c, true)) (hgone : s.gone = false) (hacc : s.machine.rt.accepts = true) :
    Inv { s with calls := s.calls.eraseIdx n, machine := Supervisor.step s.machine (.env (.submit c.command)) } := by
  have hrt : (Supervisor.step s.machine (.env (.submit c.command))).rt =
      { s.machine.rt with commandRx := s.machine.rt.commandRx ++ [c.command] } := by
    show s.machine.rt.env (.submit c.command) = _
    unfold SupervisorRuntime.env
    simp only
    rw [if_pos hacc]
  have hqueue : (Supervisor.step s.machine (.env (.submit c.command))).rt.commandRx =
      s.machine.rt.commandRx ++ [c.command] := by rw [hrt]
  have hnotices : (Supervisor.step s.machine (.env (.submit c.command))).rt.notices = s.machine.rt.notices := by rw [hrt]
  refine ⟨(step_inv (.env (.submit c.command)) h.machine).1, fun c' hc' => ?_, fun j hj => h.told j (hnotices ▸ hj)⟩
  refine (h.made c' hc').of_le (fun sending hmem => ?_) (fun hq => ?_) (hnotices ▸ List.prefix_rfl) fun _ h => h
  · rcases mem_eraseIdx_or hc hmem with heq | hmem
    · cases heq
      exact .inr (.inl ⟨hgone, hqueue ▸ List.mem_append_right _ (List.mem_singleton_self _)⟩)
    · exact .inl ⟨sending, hmem⟩
  · exact .inr (.inl ⟨hq.1, hqueue ▸ List.mem_append_left _ hq.2⟩)

theorem Inv.vanish (h : s.Inv) : Inv { s with gone := true, stable := s.machine.rt.commandRx.foldl dropCommand s.stable } where
  machine := h.machine
  made c hc :=
    (h.made c hc).of_le (fun sending hmem => .inl ⟨sending, hmem⟩) (fun hq => .inr (.inr (.inr (dropped hq.2 _))))
      List.prefix_rfl (stays_foldl stays_dropCommand _ _)
  told i hi := stays_foldl stays_dropCommand _ _ i (h.told i hi)

theorem Inv.call (h : s.Inv) (c : Call) : Inv { s with calls := s.calls ++ [(c, false)], made := s.made ++ [c] } where
  machine := h.machine
  made c' hc' := by
    rcases List.mem_append.mp hc' with hc' | hc'
    · exact (h.made c' hc').of_le (fun sending hmem => .inl ⟨sending, List.mem_append_left _ hmem⟩)
        (fun hq => .inr (.inl hq)) List.prefix_rfl fun _ h => h
    · rw [List.mem_singleton.mp hc']
      exact .inl ⟨false, List.mem_append_right _ (List.mem_singleton_self _)⟩
  told := h.told

theorem Inv.send (h : s.Inv) (hc : s.calls[n]? = some (c, false)) : Inv { s with calls := s.calls.set n (c, true) } where
  machine := h.machine
  made c' hc' := by
    refine (h.made c' hc').of_le (fun sending hmem => ?_) (fun hq => .inr (.inl hq)) List.prefix_rfl fun _ h => h
    obtain ⟨k, hk⟩ := List.mem_iff_getElem?.mp hmem
    by_cases hkn : k = n
    · subst hkn
      rw [hc] at hk
      cases hk
      refine .inl ⟨true, List.mem_iff_getElem?.mpr ⟨k, ?_⟩⟩
      rw [List.getElem?_set_self (List.getElem?_eq_some_iff.mp hc).1]
    · refine .inl ⟨sending, List.mem_iff_getElem?.mpr ⟨k, ?_⟩⟩
      rw [List.getElem?_set_ne (Ne.symm hkn)]
      exact hk
  told := h.told

theorem Inv.nested (h : s.Inv) {i : Nat} {b : StableBindingState} (hb : (s.stable i).terminal = true → b.terminal = true) :
    Inv { s with stable := Function.update s.stable i b } where
  machine := h.machine
  made c hc :=
    (h.made c hc).of_le (fun sending hmem => .inl ⟨sending, hmem⟩) (fun hq => .inr (.inl hq)) List.prefix_rfl (stays_update hb)
  told j hj := stays_update hb j (h.told j hj)

theorem release_terminal {b : StableBindingState} {epoch : Nat} (h : b.terminal = true) : (b.release epoch).terminal = true := by
  unfold StableBindingState.release
  split
  · exact h
  · exact h

theorem inv_step {a : Admission} (h : s.Inv) (hs : step s a = some s') : s'.Inv := by
  cases a with
  | run i =>
    simp only [step] at hs
    split at hs
    · cases hs
    · cases hs
      exact h.run i
  | call c =>
    simp only [step] at hs
    split at hs
    · cases hs
    · cases hs
      exact h.call c
  | endpoint n =>
    simp only [step] at hs
    split at hs
    · rename_i c hc
      cases hs
      by_cases hb : s.bound = true
      · rw [if_pos hb]
        exact h.send hc
      · rw [if_neg hb]
        exact h.drop hc
    · cases hs
  | hand n =>
    simp only [step] at hs
    split at hs
    · rename_i c hc
      split at hs
      · rename_i hroom
        cases hs
        have hroom := (Bool.and_eq_true_iff.mp (Bool.and_eq_true_iff.mp hroom).1)
        exact h.hand hc (by simpa using hroom.1) hroom.2
      · cases hs
    · cases hs
  | refuse n =>
    simp only [step] at hs
    split at hs
    · rename_i c hc
      split at hs
      · cases hs
        exact h.drop hc
      · cases hs
    · cases hs
  | cancel n =>
    simp only [step] at hs
    split at hs
    · rename_i c sending hc
      cases hs
      exact h.drop hc
    · cases hs
  | bind =>
    cases hs
    exact ⟨h.machine, h.made, h.told⟩
  | unbind =>
    cases hs
    exact ⟨h.machine, h.made, h.told⟩
  | vanish =>
    simp only [step] at hs
    split at hs
    · cases hs
    · cases hs
      exact h.vanish
  | bindNested identity doneRx =>
    simp only [step] at hs
    split at hs
    · cases hs
    · rename_i hlive
      cases hs
      exact h.nested fun ht => absurd ht hlive
  | releaseNested identity epoch =>
    cases hs
    exact h.nested release_terminal

theorem reach_inv {c : SupervisorConfig} {b : Binding} {capacity : Nat} (h : Reach step (start c b capacity) s) : s.Inv := by
  refine h.invariant ⟨run_inv c b [], fun c hc => ?_, fun i hi => heeded false _ hi _⟩ fun _ _ _ => inv_step
  exact absurd hc List.not_mem_nil

end Control

/-! ## Results -/

/-- A refused command changes nothing but its answer, and errors come only from refused
    commands while the run goes on; a call that adds a nested supervisor is under way, in the
    channel, admitted, or its identity is terminal; a removal that expects a lineage leaves
    every other membership alone, and whoever is being removed was asked for. -/
theorem refused_commands_change_nothing :
    (∀ (rt rt' : SupervisorRuntime) (command : SupervisorCommand) (new : List Notice),
      handleCommand command rt = (.ok (), rt') → rt'.notices = rt.notices ++ new → (∃ n ∈ new, n.Errs) →
        ∃ e, rt' = { rt with notices := rt.notices ++ command.refusal e }) ∧
    (∀ (c : SupervisorConfig) (b : Binding) (inputs : List Input) (w : Wake) (n : Notice),
      (wake (run (start c b) inputs) w).phase.leaving = false → n.Errs → n ∈ (wake (run (start c b) inputs) w).rt.notices →
        n ∈ (run (start c b) inputs).rt.notices ∨ ∃ x ∈ commandsHandled (run (start c b) inputs) w, Reports x n) ∧
    (∀ (c : SupervisorConfig) (b : Binding) (capacity : Nat) (s : Control), Reach Control.step (.start c b capacity) s →
      ∀ call ∈ s.made, s.Accounted call) ∧
    (∀ (c : SupervisorConfig) (b : Binding) (inputs : List Input) (w : Wake) (rt : SupervisorRuntime) (id : String)
      (expected reply : Nat), (.removeChild id (some expected) reply, rt) ∈ commandsHandled (run (start c b) inputs) w →
        ∀ key e, rt.children.get key = some e → e.lineage ≠ expected →
          Leaves rt (handleCommand (.removeChild id (some expected) reply) rt).2 key e) ∧
    ∀ (c : SupervisorConfig) (b : Binding) (inputs : List Input) (key : ChildKey) (e : ChildEntry) (p : PendingRemoval),
      (run (start c b) inputs).rt.children.get key = some e → e.pendingRemoval = some p →
        Asked inputs p.reply e.id e.lineage := by
  refine ⟨fun rt rt' command new => handleCommand_refused, fun c b inputs w n hstay herr => ?_, ?_, ?_, ?_⟩
  · exact wake_errs w (run_inv c b inputs) hstay herr
  · exact fun c b capacity s hs => (Control.reach_inv hs).made
  · intro c b inputs w rt id expected reply hx key e he hne
    have hinv := run_inv c b inputs
    have hstaff := (run_staffed inputs (run_inv c b []) (start_staffed c b).1).1
    exact leaves_removeChild (commandsHandled_serving w hinv hstaff _ hx) he hne
  · exact fun c b inputs key e p => parked_asked c b inputs

/-- A second child of the same name is refused. -/
def addTwice : List Input :=
  [.env (.submit (.addChild abortedChild abortedChild_isTask 0)), .wake .command]

theorem refused_commands_change_nothing_duplicate :
    ∃ e, (handleCommand (.addChild abortedChild abortedChild_isTask 1) (run (start (oneChild .dynamic) rootBinding) addTwice).rt).2 =
      { (run (start (oneChild .dynamic) rootBinding) addTwice).rt with
        notices := (run (start (oneChild .dynamic) rootBinding) addTwice).rt.notices ++
          (SupervisorCommand.addChild abortedChild abortedChild_isTask 1).refusal e } :=
  refused_commands_change_nothing.1 _ _ (.addChild abortedChild abortedChild_isTask 1)
    [.addReply 1 (.error (.rejected (.duplicateChildId "a")))] (by rfl) (by rfl) ⟨_, .head _, trivial⟩

/-- A child with ten milliseconds to stop. -/
def gracefulChild : ChildDefinition := { id := "a", shutdownPolicy := .graceful (millis 10), shutdownIsDefault := false }

/-- Its removal is accepted, and it stops only after its grace. -/
def overrunRemoval : List Input :=
  [.env (.submit (.removeChild "a" none 1)), .wake .command, .env (.tick (millis 11)), .wake .deadline, .wake .resumed,
    .env (.conclude 1 (.returned .ok)), .env (.settle 1), .wake (.joined 1)]

/-- The removal of the child is answered with an error although the child is gone and the
    supervisor runs on. -/
theorem overrun_removal_changes :
    (run (start (oneChild .dynamic) rootBinding) [.env (.submit (.addChild gracefulChild rfl 0)), .wake .command]).rt.childOrder =
      [1] ∧
    (run (start (oneChild .dynamic) rootBinding)
      ([.env (.submit (.addChild gracefulChild rfl 0)), .wake .command] ++ overrunRemoval)).rt.childOrder = [] ∧
    (run (start (oneChild .dynamic) rootBinding)
      ([.env (.submit (.addChild gracefulChild rfl 0)), .wake .command] ++ overrunRemoval)).rt.desk.replies =
        [(1, .error (.failed (.shutdownTimedOut "a")), some ⟨[], [], [("a", 0)], []⟩)] ∧
    (run (start (oneChild .dynamic) rootBinding)
      ([.env (.submit (.addChild gracefulChild rfl 0)), .wake .command] ++ overrunRemoval)).phase = .main :=
  ⟨by rfl, by rfl, by rfl, by rfl⟩

end Kokage.Identity

/-
  Kokage.Supervisor.Refusals — commands that are answered with an error.

  `add_child` and `add_nested` check the id, the restart policy and the id map before they
  write anything; `remove_child` refuses an unknown id, another lineage than the expected
  one, and a removal already under way. A refused command leaves its answer and, for a
  nested supervisor, the terminal identity its guard drops; nothing else changes
  (`handleCommand_refused`). No other code answers with an error while the run goes on,
  except that an accepted removal whose child outlived its grace is reported so
  (`wake_errs`). Whoever is being removed was named by a removal with its id, and with its
  lineage if the removal expected one (`parked_asked`).
-/

import Kokage.Supervisor.Writes

namespace Kokage.Supervisor

open Kokage.Lib SupervisorRuntime

/-! ## One command -/

/-- What is left of a refused command. -/
def SupervisorCommand.refusal (e : ControlError) : SupervisorCommand → List Notice
  | .addChild _ _ reply => [.addReply reply (.error e)]
  | .removeChild _ _ reply => [.removeReply reply (.error e) none]
  | .addNested child _ reply =>
    match child.kind with
    | .supervisor identity => [.terminal identity, .addReply reply (.error e)]
    | .task => [.addReply reply (.error e)]

section Command

variable {rt rt' : SupervisorRuntime} {new : List Notice}

theorem Works.not_errs (hw : Works (· ≠ .refusal) rt rt') (hn : rt'.notices = rt.notices ++ new) : ∀ n ∈ new, ¬ n.Errs := by
  obtain ⟨new', hn', hq⟩ := hw.notices
  rw [hn] at hn'
  rw [List.append_cancel_left hn']
  exact fun n hm he => hq n hm he rfl

/-- An insertion fails only with the run. -/
theorem installChild_exit {d : ChildDefinition} {nested : Option StableChannels} {failure : CommandFailure}
    (h : installChild d nested rt = (.error failure, rt')) : failure.exit ≠ none := by
  unfold installChild at h
  rw [Act.run_get_bind] at h
  simp only [Act.run_modify_bind] at h
  rw [Act.run_bind] at h
  generalize hout : Act.mapError CommandFailure.ofExit _ _ = out at h
  obtain ⟨r, rt₁⟩ := out
  cases r with
  | ok _ => cases h
  | error e =>
    cases h
    unfold Act.mapError at hout
    split at hout
    · cases hout
    · cases hout
      exact nofun

/-- An accepted addition reports no error while the run goes on. -/
theorem installed_quiet {d : ChildDefinition} {nested : Option StableChannels} {reply : Nat}
    (h : completeCommand reply (installChild d nested) rt = (.ok (), rt')) (hn : rt'.notices = rt.notices ++ new) :
    ∀ n ∈ new, ¬ n.Errs := by
  have hw := (@installChild_writes (· ≠ .refusal) rt d nested).1
  unfold completeCommand at h
  cases hout : installChild d nested rt with
  | mk r rt₁ =>
    rw [hout] at h hw
    cases r with
    | ok lineage =>
      cases h
      exact (hw.trans (writes_notify (n := .addReply reply (.ok lineage)) fun h => False.elim h)).not_errs hn
    | error failure =>
      obtain ⟨error, exit⟩ := failure
      cases exit with
      | none => exact absurd rfl (installChild_exit hout)
      | some e => cases h

/-- A command whose handler reports an error, with the run going on, has changed nothing
    else. -/
theorem handleCommand_refused {command : SupervisorCommand} (h : handleCommand command rt = (.ok (), rt'))
    (hn : rt'.notices = rt.notices ++ new) (herr : ∃ n ∈ new, n.Errs) :
    ∃ e, rt' = { rt with notices := rt.notices ++ command.refusal e } := by
  obtain ⟨n, hnew, herr⟩ := herr
  cases command with
  | addChild child isTask reply =>
    cases hcheck : rt.checkAddition (child.applyDefaults rt.cfg.defaultChildRestart rt.cfg.defaultChildShutdown) with
    | error e =>
      have heq : handleCommand (.addChild child isTask reply) rt = (.ok (), rt.notify (.addReply reply (.error e))) := by
        unfold handleCommand completeCommand addChild
        simp only [Act.run_get_bind, hcheck]
        rfl
      rw [heq] at h
      cases h
      exact ⟨e, rfl⟩
    | ok _ =>
      have heq : handleCommand (.addChild child isTask reply) rt = completeCommand reply
          (installChild (child.applyDefaults rt.cfg.defaultChildRestart rt.cfg.defaultChildShutdown) none) rt := by
        unfold handleCommand completeCommand addChild
        simp only [Act.run_get_bind, hcheck]
      rw [heq] at h
      exact absurd herr (installed_quiet h hn n hnew)
  | addNested child isNested reply =>
    obtain ⟨identity, hk⟩ : ∃ identity, child.kind = .supervisor identity := by
      cases hk : child.kind with
      | task =>
        rw [hk] at isNested
        cases isNested
      | supervisor identity => exact ⟨identity, rfl⟩
    cases hcheck : rt.checkAddition (child.applyDefaults rt.cfg.defaultChildRestart rt.cfg.defaultChildShutdown) with
    | error e =>
      have heq : handleCommand (.addNested child isNested reply) rt =
          (.ok (), (rt.notify (.terminal identity)).notify (.addReply reply (.error e))) := by
        unfold handleCommand completeCommand
        simp only [addNested_eq hk, hcheck]
      rw [heq] at h
      cases h
      refine ⟨e, ?_⟩
      simp only [SupervisorCommand.refusal, hk, notify, List.append_assoc]
      rfl
    | ok _ =>
      have heq : handleCommand (.addNested child isNested reply) rt = completeCommand reply (installChild
          (child.applyDefaults rt.cfg.defaultChildRestart rt.cfg.defaultChildShutdown) (some ⟨identity, false⟩)) rt := by
        unfold handleCommand completeCommand
        simp only [addNested_eq hk, hcheck]
      rw [heq] at h
      exact absurd herr (installed_quiet h hn n hnew)
  | removeChild id expectedLineage reply =>
    have hr := @removeChild_removal rt rt id expectedLineage reply rfl rfl
    have hout : removeChild id expectedLineage reply rt = (.ok (), rt') := h
    rw [hout] at hr
    generalize hq : ((.ok (), rt') : Except ExitReason Unit × SupervisorRuntime) = out at hr
    cases hr with
    | @refused x hok _ =>
      cases hq
      cases x with
      | ok _ => exact absurd rfl hok
      | error e => exact ⟨e, rfl⟩
    | @begun key e he _ _ hm =>
      have hw := (writes_beginRemoval (A := (· ≠ .refusal)) (by simp) reply he hm).trans
        (stopRemoved_writes key e.lineage e.runtime.state.isActive e.runtime.definition.shutdownPolicy.isAbort).1
      rw [← hq] at hw
      exact absurd herr (hw.not_errs hn n hnew)

end Command

/-! ## Runs -/

section Runs

variable {rt rt' : SupervisorRuntime} {m : Machine}

/-- The errors a handler reports. -/
def Reports (x : SupervisorCommand × SupervisorRuntime) (n : Notice) : Prop :=
  ∃ new, (handleCommand x.1 x.2).2.notices = x.2.notices ++ new ∧ n ∈ new

theorem reports_of_mem {command : SupervisorCommand} {n : Notice} (hn : n ∈ (handleCommand command rt).2.notices) :
    n ∈ rt.notices ∨ Reports (command, rt) n := by
  obtain ⟨new, hnew, -⟩ := (@handleCommand_writes (fun _ => True) rt trivial trivial command).1.notices
  rw [hnew] at hn
  exact (List.mem_append.mp hn).imp_right fun h => ⟨new, hnew, h⟩

/-- Every error in a batch of commands is reported by one of the handlers. -/
theorem batch_errs {n : Notice} (commands : List SupervisorCommand) (rt : SupervisorRuntime)
    (hn : n ∈ (drainDeadlineCommandBatch commands rt).2.notices) :
    n ∈ rt.notices ∨ ∃ x ∈ batchHandled commands rt, Reports x n := by
  induction commands generalizing rt with
  | nil =>
    left
    unfold drainDeadlineCommandBatch at hn
    rw [Act.run_get_bind] at hn
    split at hn
    · exact hn
    · simp only [Act.run_modify] at hn
      split at hn
      · exact hn
      · exact hn
  | cons command rest ih =>
    unfold drainDeadlineCommandBatch at hn
    rw [Act.run_get_bind] at hn
    unfold batchHandled
    split at hn
    · rename_i hdown
      exact .inl hn
    · rename_i hdown
      rw [if_neg hdown]
      simp only [Act.run_modify_bind] at hn
      change n ∈ ((handleCommand command >>= fun _ => drainDeadlineCommandBatch rest) { rt with commandRx := rest }).2.notices
        at hn
      rw [Act.run_bind] at hn
      have hmem := @reports_of_mem { rt with commandRx := rest } command n
      simp only
      generalize handleCommand command { rt with commandRx := rest } = q at hn hmem ⊢
      obtain ⟨r, rt₁⟩ := q
      have hfirst : n ∈ rt₁.notices → n ∈ rt.notices ∨ Reports (command, { rt with commandRx := rest }) n := hmem
      cases r with
      | error _ => exact (hfirst hn).imp_right fun h => ⟨_, List.mem_cons_self .., h⟩
      | ok _ =>
        rcases ih _ hn with h | ⟨x, hx, h⟩
        · exact (hfirst h).imp_right fun h => ⟨_, List.mem_cons_self .., h⟩
        · exact .inr ⟨x, List.mem_cons_of_mem _ hx, h⟩

/-- While the run goes on, every error is reported by the handler of a command. -/
theorem wake_errs {n : Notice} (w : Wake) (hinv : m.Inv) (hstay : (wake m w).phase.leaving = false) (herr : n.Errs)
    (hn : n ∈ (wake m w).rt.notices) : n ∈ m.rt.notices ∨ ∃ x ∈ commandsHandled m w, Reports x n := by
  by_cases hnone : commandsHandled m w = []
  · have hw := (wake_turns (A := (· ≠ .refusal)) (fun _ h => h) w (fun h => absurd hnone h) hinv).stays hstay
    obtain ⟨new, hnew, hq⟩ := hw.notices
    rw [hnew] at hn
    rcases List.mem_append.mp hn with h | h
    · exact .inl h
    · exact absurd rfl (hq n h herr)
  · obtain ⟨rt, phase⟩ := m
    cases phase with
    | main =>
      cases w with
      | command =>
        unfold commandsHandled at hnone ⊢
        simp only at hnone ⊢
        split at hnone
        · rename_i command rest hopen hc
          have hwake : wake ⟨rt, .main⟩ .command = continueMain (handleCommand command) { rt with commandRx := rest } := by
            show wakeMain rt .command = _
            unfold wakeMain
            rw [hopen, hc]
          have hmem := @reports_of_mem { rt with commandRx := rest } command n
          rw [hwake] at hstay hn
          unfold continueMain at hstay hn
          generalize handleCommand command { rt with commandRx := rest } = q at hn hmem hstay
          obtain ⟨r, rt₁⟩ := q
          cases r with
          | ok _ => exact (hmem hn).imp_right fun h => ⟨_, List.mem_singleton_self _, h⟩
          | error reason =>
            simp only at hstay
            rw [exitWith_leaving] at hstay
            cases hstay
        · exact absurd rfl hnone
      | _ => exact absurd rfl hnone
    | deadlineYield =>
      by_cases hw : w = .resumed
      · subst hw
        have hturn := (deadlines_turns (A := (· ≠ .refusal)) (fun _ h => h) hinv.books hinv.phase.1 hinv.phase.2).stays hstay
        obtain ⟨new, hnew, hq⟩ := hturn.notices
        change n ∈ (deadlineBatch rt).rt.notices at hn
        rw [hnew] at hn
        rcases List.mem_append.mp hn with h | h
        · exact batch_errs rt.commandRx rt h
        · exact absurd rfl (hq n h herr)
      · cases w with
        | resumed => exact absurd rfl hw
        | _ => exact absurd rfl hnone
    | drain p k => exact absurd (by unfold commandsHandled; rfl) hnone
    | exited r => exact absurd (by unfold commandsHandled; rfl) hnone

/-- What every handler finds: the books in order, in a scope that takes commands. -/
structure Serving (rt : SupervisorRuntime) : Prop where
  books : rt.ledger.Books
  open_ : rt.ledger.Open
  dynamic : rt.cfg.kind = .dynamic

theorem batchHandled_cons {command : SupervisorCommand} {rest : List SupervisorCommand} (hdown : ¬ rt.shutdownRequested = true) :
    batchHandled (command :: rest) rt = (command, { rt with commandRx := rest }) ::
      match handleCommand command { rt with commandRx := rest } with
      | (.ok (), rt) => batchHandled rest rt
      | (.error _, _) => [] := by
  rw [batchHandled]
  exact if_neg hdown

theorem Serving.handled {command : SupervisorCommand} (h : Serving rt) : Serving (handleCommand command rt).2 := by
  have hlead := handleCommand_leads command h.open_
  have hw := (@handleCommand_writes (fun _ => True) rt trivial trivial command).1.cfg
  exact ⟨Ledger.path_books hlead h.books, leads_open (fun _ => Commands.not_shutdown) hlead h.open_,
    (congrArg RuntimeMeta.kind hw).trans h.dynamic⟩

theorem batchHandled_serving (commands : List SupervisorCommand) (hs : Serving rt) :
    ∀ x ∈ batchHandled commands rt, Serving x.2 := by
  induction commands generalizing rt with
  | nil => exact fun x hx => absurd hx List.not_mem_nil
  | cons command rest ih =>
    intro x hx
    by_cases hdown : rt.shutdownRequested = true
    · rw [batchHandled, if_pos hdown] at hx
      cases hx
    · rw [batchHandled_cons hdown] at hx
      have hs₀ : Serving { rt with commandRx := rest } := ⟨hs.books, hs.open_, hs.dynamic⟩
      have hs₁ := @Serving.handled _ command hs₀
      rcases List.mem_cons.mp hx with rfl | hx
      · exact hs₀
      · generalize handleCommand command { rt with commandRx := rest } = q at hx hs₁
        obtain ⟨r, rt₁⟩ := q
        cases r with
        | error _ => cases hx
        | ok _ => exact ih hs₁ x hx

theorem commandsHandled_serving (w : Wake) (hinv : m.Inv) (hs : m.Staffed) : ∀ x ∈ commandsHandled m w, Serving x.2 := by
  intro x hx
  have hd : m.rt.commandRx ≠ [] → m.rt.cfg.kind = .dynamic := by
    intro hc
    cases hk : m.rt.cfg.kind with
    | dynamic => rfl
    | ordered => exact absurd (hs.static hk).commands_eq hc
  obtain ⟨rt, phase⟩ := m
  cases phase with
  | main =>
    cases w with
    | command =>
      unfold commandsHandled at hx
      simp only at hx
      split at hx
      · rename_i command rest _ hc
        rw [List.mem_singleton.mp hx]
        exact ⟨hinv.books, hinv.phase.1, hd (hc ▸ List.cons_ne_nil _ _)⟩
      · cases hx
    | _ => cases hx
  | deadlineYield =>
    cases w with
    | resumed =>
      change x ∈ batchHandled rt.commandRx rt at hx
      by_cases hc : rt.commandRx = []
      · rw [hc] at hx
        cases hx
      · exact batchHandled_serving rt.commandRx ⟨hinv.books, hinv.phase.1, hd hc⟩ x hx
    | _ => cases hx
  | drain p k =>
    unfold commandsHandled at hx
    cases hx
  | exited r =>
    unfold commandsHandled at hx
    cases hx

end Runs

/-! ## Removals -/

namespace SupervisorRuntime

variable {rt rt' : SupervisorRuntime} {key key' : ChildKey} {e : ChildEntry}

/-- The entry and its task are as they were. -/
def Leaves (rt rt' : SupervisorRuntime) (key : ChildKey) (e : ChildEntry) : Prop :=
  rt'.children.get key = some e ∧ ∀ t ∈ rt.joinSet, e.runtime.abortHandle = some t.id → t ∈ rt'.joinSet

theorem Leaves.trans {rt'' : SupervisorRuntime} (h : Leaves rt rt' key e) (h' : Leaves rt' rt'' key e) : Leaves rt rt'' key e :=
  ⟨h'.1, fun t ht ha => h'.2 t (h.2 t ht ha) ha⟩

theorem SparesAll.leaves (h : SparesAll key' rt rt') (hne : key ≠ key') (he : rt.children.get key = some e) :
    Leaves rt rt' key e :=
  ⟨(h.others key hne).trans he, fun _ ht _ => h.joinSet_eq ▸ ht⟩

theorem leaves_of_eq (he : rt.children.get key = some e) (hc : rt'.children = rt.children) (hj : rt'.joinSet = rt.joinSet) :
    Leaves rt rt' key e :=
  ⟨hc ▸ he, fun _ ht _ => hj ▸ ht⟩

/-- Another child's task is aborted. -/
theorem leaves_abortChild (hne : key ≠ key') (he : rt.children.get key = some e)
    (htask : ∀ t, rt.abortHandleOf key' = some t → e.runtime.abortHandle ≠ some t) : Leaves rt (rt.abortChild key') key e := by
  have hedit : (rt.abortChild key').children.get key = some e := by
    unfold abortChild
    simp only
    split
    · exact (Slab.get_modify_ne _ _ hne).trans he
    · exact (Slab.get_modify_ne _ _ hne).trans he
  refine ⟨hedit, fun t ht ha => ?_⟩
  unfold abortChild
  simp only
  split
  · rename_i task htk
    have hid : t.id ≠ task := by
      rintro rfl
      exact htask t.id htk ha
    refine List.mem_map.mpr ⟨t, ht, ?_⟩
    rw [if_neg hid]
  · exact ht

/-- In a dynamic scope nobody is started in the place of the child that leaves. -/
theorem leaves_detachStartMember (key' : ChildKey) (lineage : Nat) (hg : rt.startGate = none) (he : rt.children.get key = some e) :
    ∃ rt', detachStartMember key' lineage rt = (.ok (), rt') ∧ Leaves rt rt' key e := by
  have hclear : (rt.removeStartSequenceMember key' lineage).1 = false ∧
      (rt.removeStartSequenceMember key' lineage).2.children = rt.children ∧
      (rt.removeStartSequenceMember key' lineage).2.joinSet = rt.joinSet := by
    unfold removeStartSequenceMember
    unfold startGate at hg
    cases hs : rt.startSequence with
    | none => exact ⟨rfl, rfl, rfl⟩
    | some s =>
      have hgate : s.gate = none := by
        rw [hs] at hg
        exact hg
      exact ⟨by simp [hgate], rfl, rfl⟩
  have hready : ∀ rt : SupervisorRuntime, (rt.startupMemberRemoved key' lineage).children = rt.children ∧
      (rt.startupMemberRemoved key' lineage).joinSet = rt.joinSet := by
    intro rt
    unfold startupMemberRemoved startupMemberReady
    split
    · exact ⟨rfl, rfl⟩
    · unfold completeEmptyStartupGate
      split <;> exact ⟨rfl, rfl⟩
  unfold detachStartMember
  rw [Act.run_get_bind]
  generalize rt.removeStartSequenceMember key' lineage = q at hclear
  obtain ⟨cleared, rt'⟩ := q
  obtain ⟨hc, hch, hj⟩ := hclear
  cases hc
  exact ⟨rt'.startupMemberRemoved key' lineage, rfl, leaves_of_eq he ((hready rt').1.trans hch) ((hready rt').2.trans hj)⟩

/-- The child that is removed is stopped, and no other. -/
theorem leaves_stopRemoved {lineage : Nat} {active abort : Bool} (hg : rt.startGate = none) (hne : key ≠ key')
    (he : rt.children.get key = some e) (htask : ∀ t, rt.abortHandleOf key' = some t → e.runtime.abortHandle ≠ some t) :
    Leaves rt (stopRemoved key' lineage active abort rt).2 key e := by
  have hcancel : Leaves rt (rt.cancelChild key') key e :=
    SparesAll.leaves ⟨fun k hk => Slab.get_modify_ne _ _ hk, rfl⟩ hne he
  have hcg : (rt.cancelChild key').startGate = none := hg
  have hag : (rt.abortChild key').startGate = none := by
    unfold abortChild
    simp only
    split
    · exact hg
    · exact hg
  unfold stopRemoved
  cases active with
  | true =>
    cases abort with
    | true =>
      obtain ⟨rt₁, hrun, hl⟩ := leaves_detachStartMember key' lineage hag (leaves_abortChild hne he htask).1
      have hend : Leaves rt rt₁ key e := (leaves_abortChild hne he htask).trans hl
      simp only [if_true, Act.run_modify_bind]
      rw [Act.run_bind, hrun]
      exact hend
    | false =>
      obtain ⟨rt₁, hrun, hl⟩ := leaves_detachStartMember key' lineage hcg hcancel.1
      have hend : Leaves rt rt₁ key e := hcancel.trans hl
      show Leaves rt ((detachStartMember key' lineage >>= fun _ => (pure () : RuntimeM Unit)) (rt.cancelChild key')).2 key e
      rw [Act.run_bind, hrun]
      exact hend
  | false =>
    obtain ⟨rt₁, hrun, hl⟩ := leaves_detachStartMember key' lineage hg he
    have hend : Leaves rt (rt₁.finalizeRemovedChild key' false) key e :=
      hl.trans ((spares_finalizeRemovedChild false).leaves hne hl.1)
    show Leaves rt ((detachStartMember key' lineage >>= fun _ => Act.modify (·.finalizeRemovedChild key' false)) rt).2 key e
    rw [Act.run_bind, hrun]
    exact hend

/-- A removal that expects a lineage leaves every other membership alone. -/
theorem leaves_removeChild {id : String} {expected reply : Nat} (hs : Serving rt) (he : rt.children.get key = some e)
    (hne : e.lineage ≠ expected) : Leaves rt (removeChild id (some expected) reply rt).2 key e := by
  have hr := @removeChild_removal rt rt id (some expected) reply rfl rfl
  generalize removeChild id (some expected) reply rt = out at hr
  cases hr with
  | refused _ _ => exact leaves_of_eq he rfl rfl
  | @begun key' e' he' _ hexp _ =>
    have hexp : expected = e'.lineage := hexp expected rfl
    have hkey : key ≠ key' := by
      rintro rfl
      rw [he] at he'
      cases he'
      exact hne hexp.symm
    have hbegin : Leaves rt (rt.beginRemoval key' reply).publishSnapshot key e :=
      SparesAll.leaves ⟨fun k hk => Slab.get_modify_ne _ _ hk, rfl⟩ hkey he
    refine hbegin.trans (leaves_stopRemoved (hs.open_.gate hs.dynamic) hkey hbegin.1 fun t ht ha => ?_)
    have ht : e'.runtime.abortHandle = some t := by
      obtain ⟨x, hx, hxt⟩ := Option.bind_eq_some_iff.mp ht
      have hx : (rt.children.modify key' _).get key' = some x := hx
      rw [Slab.get_modify, if_pos rfl, he'] at hx
      cases hx
      exact hxt
    have h₁ := hs.books.task_record key e.member t (ledger_get he) ha
    have h₂ := hs.books.task_record key' e'.member t (ledger_get he') ht
    have heq : (⟨key, e.lineage, e.runtime.generation⟩ : TaskMeta) = ⟨key', e'.lineage, e'.runtime.generation⟩ :=
      Option.some.inj (h₁.symm.trans h₂)
    exact hkey (congrArg TaskMeta.key heq)

end SupervisorRuntime

/-- A removal of this membership was submitted. -/
def Asked (inputs : List Input) (reply : Nat) (id : String) (lineage : Nat) : Prop :=
  ∃ expected, .env (.submit (.removeChild id expected reply)) ∈ inputs ∧ ∀ l, expected = some l → l = lineage

section Asked

variable {m : Machine} {reply lineage : Nat} {id : String}

theorem closed_targets {rt : SupervisorRuntime} {failure : Option SupervisorError}
    (h : (rt.closed failure).desk.Targets reply id lineage) : rt.desk.Targets reply id lineage := by
  rcases h with ⟨key, s, p, hs, hp, -⟩ | ⟨expected, hc, hl⟩
  · rw [closed_silent key s hs] at hp
    cases hp
  · rw [closed_desk] at hc
    exact .inr ⟨expected, hc, hl⟩

theorem Goes.targets {late : Prop} {rt : SupervisorRuntime} (h : Goes late rt m) (ht : m.rt.desk.Targets reply id lineage) :
    rt.desk.Targets reply id lineage := by
  cases h with
  | awaits hk _ _ => exact hk.1.targets ht
  | fails _ hk => exact hk.1.targets (closed_targets ht)
  | returns _ hk _ => exact hk.1.targets (closed_targets ht)

theorem wake_targets (w : Wake) (hinv : m.Inv) (hs : m.Staffed) (ht : (wake m w).rt.desk.Targets reply id lineage) :
    m.rt.desk.Targets reply id lineage := by
  by_cases hne : ∀ r, m.phase ≠ .exited r
  · rcases wake_goes w hinv hs hne with hg | ⟨-, rt₁, result, heq, hk, -⟩
    · exact hg.targets ht
    · rw [heq] at ht
      exact hk.1.targets (closed_targets ht)
  · obtain ⟨rt, phase⟩ := m
    cases phase with
    | exited result => exact ht
    | _ => exact absurd nofun hne

theorem env_targets (e : EnvStep) (ht : (m.rt.env e).desk.Targets reply id lineage) :
    m.rt.desk.Targets reply id lineage ∨ Asked [.env e] reply id lineage := by
  by_cases he : ∃ c, e = .submit c
  · obtain ⟨c, rfl⟩ := he
    unfold env at ht
    simp only at ht
    split at ht
    · rcases ht with h | ⟨expected, hc, hl⟩
      · exact .inl (.inl h)
      · rcases List.mem_append.mp hc with hc | hc
        · exact .inl (.inr ⟨expected, hc, hl⟩)
        · rw [← List.mem_singleton.mp hc]
          exact .inr ⟨expected, List.mem_singleton_self _, hl⟩
    · exact .inl ht
  · exact .inl ((@env_tends m.rt e fun c hc => he ⟨c, hc⟩).toAttends.targets ht)

theorem run_targets (inputs : List Input) : ∀ {m : Machine}, m.Inv → m.Staffed →
    (run m inputs).rt.desk.Targets reply id lineage → m.rt.desk.Targets reply id lineage ∨ Asked inputs reply id lineage := by
  induction inputs with
  | nil => exact fun _ _ ht => .inl ht
  | cons i is ih =>
    intro m hinv hs ht
    have hasked : ∀ js, js ⊆ i :: is → Asked js reply id lineage → Asked (i :: is) reply id lineage := by
      rintro js hjs ⟨expected, hmem, hl⟩
      exact ⟨expected, hjs hmem, hl⟩
    rcases ih (step_inv i hinv).1 (step_staffed i hinv hs).1 ht with ht | hask
    · cases i with
      | env e =>
        refine (env_targets e ht).imp_right (hasked _ ?_)
        intro x hx
        rw [List.mem_singleton.mp hx]
        exact List.mem_cons_self ..
      | wake w => exact .inl (wake_targets w hinv hs ht)
    · exact .inr (hasked is (List.subset_cons_self ..) hask)

/-- Whoever is being removed was named by a removal, with its lineage if that expected one. -/
theorem parked_asked (c : SupervisorConfig) (b : Binding) (inputs : List Input) {key : ChildKey} {e : ChildEntry}
    {p : PendingRemoval} (he : (run (start c b) inputs).rt.children.get key = some e) (hp : e.pendingRemoval = some p) :
    Asked inputs p.reply e.id e.lineage := by
  have ht : (run (start c b) inputs).rt.desk.Targets p.reply e.id e.lineage :=
    Desk.Targets.of_slot (s := e.slot) (desk_get he) hp
  rcases run_targets inputs (run_inv c b []) (start_staffed c b).1 ht with ht | h
  · exact absurd ((start_goes c b).targets ht) (new_unasked c b).1.not_targets
  · exact h

end Asked

end Kokage.Supervisor

/-
  Kokage.Lib.Act — fallible actions on a mutable state.

  An action returns a value or an error and the state it left; the state written before
  a failure survives it, as with `?` in a method taking `&mut self`. `Runs R m s Q` says
  where `m` leads from `s`: along the preorder `R` in any case, into `Q` when it
  succeeds. `Ends m s Q E` says how it ends: in `Q` when it succeeds, in `E` when it
  fails. For both there is one rule for each way actions are put together.
-/

import Mathlib.Order.Defs.Unbundled

namespace Kokage.Lib

def Act (σ ε α : Type) : Type := σ → Except ε α × σ

namespace Act

variable {σ ε α β : Type}

def pure (a : α) : Act σ ε α := fun s => (.ok a, s)

def bind (m : Act σ ε α) (k : α → Act σ ε β) : Act σ ε β := fun s =>
  match m s with
  | (.ok a, s') => k a s'
  | (.error e, s') => (.error e, s')

instance : Monad (Act σ ε) where
  pure := pure
  bind := bind

def get : Act σ ε σ := fun s => (.ok s, s)

def modify (f : σ → σ) : Act σ ε Unit := fun s => (.ok (), f s)

def fail (e : ε) : Act σ ε α := fun s => (.error e, s)

/-- The same action with its error converted (`From` at a `?`). -/
def mapError {ε' : Type} (f : ε → ε') (m : Act σ ε α) : Act σ ε' α := fun s =>
  match m s with
  | (.ok a, s') => (.ok a, s')
  | (.error e, s') => (.error (f e), s')

/-- A `for` loop whose body may fail. -/
def forEach : List α → (α → Act σ ε Unit) → Act σ ε Unit
  | [], _ => pure ()
  | a :: as, f => bind (f a) fun _ => forEach as f

/-! ## Running actions -/

@[simp] theorem run_pure (a : α) (s : σ) : (Pure.pure a : Act σ ε α) s = (.ok a, s) := rfl

@[simp] theorem run_get (s : σ) : (get : Act σ ε σ) s = (.ok s, s) := rfl

@[simp] theorem run_modify (f : σ → σ) (s : σ) : (modify f : Act σ ε Unit) s = (.ok (), f s) := rfl

@[simp] theorem run_fail (e : ε) (s : σ) : (fail e : Act σ ε α) s = (.error e, s) := rfl

theorem run_bind (m : Act σ ε α) (k : α → Act σ ε β) (s : σ) :
    (m >>= k) s = match m s with
      | (.ok a, s') => k a s'
      | (.error e, s') => (.error e, s') := rfl

@[simp] theorem run_get_bind (k : σ → Act σ ε β) (s : σ) : (get >>= k) s = k s s := rfl

@[simp] theorem run_modify_bind (f : σ → σ) (k : Unit → Act σ ε β) (s : σ) :
    (modify f >>= k) s = k () (f s) := rfl

@[simp] theorem run_pure_bind (a : α) (k : α → Act σ ε β) (s : σ) :
    ((Pure.pure a : Act σ ε α) >>= k) s = k a s := rfl

@[simp] theorem run_fail_bind (e : ε) (k : α → Act σ ε β) (s : σ) :
    ((fail e : Act σ ε α) >>= k) s = (.error e, s) := rfl

theorem run_mapError {ε' : Type} (f : ε → ε') (m : Act σ ε α) (s : σ) :
    (mapError f m s).2 = (m s).2 := by
  unfold mapError
  split <;> simp_all

/-- A loop of updates is a fold. -/
theorem run_forEach_modify (f : α → σ → σ) : ∀ (as : List α) (s : σ),
    forEach as (fun a => (modify (f a) : Act σ ε Unit)) s = (.ok (), as.foldl (fun s a => f a s) s)
  | [], _ => rfl
  | a :: as, s => run_forEach_modify f as (f a s)

/-- A loop whose body does nothing. -/
theorem run_forEach_still {f : α → Act σ ε Unit} {s : σ} : ∀ {as : List α}, (∀ a ∈ as, f a s = (.ok (), s)) →
    forEach as f s = (.ok (), s)
  | [], _ => rfl
  | a :: as, h => by
    show bind (f a) (fun _ => forEach as f) s = _
    unfold bind
    rw [h a (List.mem_cons_self ..)]
    exact run_forEach_still fun b hb => h b (List.mem_cons_of_mem _ hb)

/-! ## Where actions lead -/

/-- From `s`, the action leads along `R` whether it succeeds or fails, and where it
    succeeds `Q` holds of its value and the state it left. -/
def Runs (R : σ → σ → Prop) (m : Act σ ε α) (s : σ) (Q : α → σ → Prop) : Prop :=
  R s (m s).2 ∧ ∀ a s', m s = (.ok a, s') → Q a s'

section Runs

variable {R : σ → σ → Prop} {m : Act σ ε α} {k : α → Act σ ε β} {s : σ} {Q Q' : α → σ → Prop} {S : β → σ → Prop}

theorem Runs.weaken (h : Runs R m s Q) (hQ : ∀ a s', Q a s' → Q' a s') : Runs R m s Q' :=
  ⟨h.1, fun a s' e => hQ a s' (h.2 a s' e)⟩

/-- The relation may be weakened too. -/
theorem Runs.mono {R' : σ → σ → Prop} (h : Runs R m s Q) (hR : ∀ s', R s s' → R' s s') : Runs R' m s Q :=
  ⟨hR _ h.1, h.2⟩

/-- What the relation gives of a state, a result has too. -/
theorem Runs.keeps {I : σ → Prop} (h : Runs R m s Q) (hI : ∀ s', R s s' → I s') : Runs R m s fun a s' => Q a s' ∧ I s' := by
  refine ⟨h.1, fun a s' hm => ⟨h.2 a s' hm, hI s' ?_⟩⟩
  have hR := h.1
  rw [hm] at hR
  exact hR

theorem runs_get {k : σ → Act σ ε β} (h : Runs R (k s) s S) : Runs R (get >>= k) s S := h

theorem runs_modify {f : σ → σ} {Q : Unit → σ → Prop} (hR : R s (f s)) (hQ : Q () (f s)) :
    Runs R (modify f : Act σ ε Unit) s Q := by
  refine ⟨hR, ?_⟩
  rintro a s' ⟨⟩
  exact hQ

theorem runs_pure [Std.Refl R] {a : α} (h : Q a s) : Runs R (Pure.pure a : Act σ ε α) s Q := by
  refine ⟨refl_of R s, ?_⟩
  rintro a' s' ⟨⟩
  exact h

theorem runs_fail [Std.Refl R] {e : ε} : Runs R (fail e : Act σ ε α) s Q := by
  refine ⟨refl_of R s, ?_⟩
  rintro a' s' ⟨⟩

theorem runs_bind [IsTrans σ R] (hm : Runs R m s Q) (hk : ∀ a s', R s s' → Q a s' → Runs R (k a) s' S) :
    Runs R (m >>= k) s S := by
  obtain ⟨hR, hQ⟩ := hm
  unfold Runs
  rw [run_bind]
  split
  · rename_i a s' h
    rw [h] at hR
    obtain ⟨hR', hS⟩ := hk a s' hR (hQ a s' h)
    exact ⟨trans_of R hR hR', hS⟩
  · rename_i e s' h
    rw [h] at hR
    refine ⟨hR, ?_⟩
    rintro a' s'' ⟨⟩

theorem runs_modify_bind [IsTrans σ R] {f : σ → σ} {k : Unit → Act σ ε β} (hR : R s (f s)) (h : Runs R (k ()) (f s) S) :
    Runs R (modify f >>= k) s S :=
  ⟨trans_of R hR h.1, h.2⟩

/-- The loop rule: `I` speaks of the elements still to come. -/
theorem runs_forEach [Std.Refl R] [IsTrans σ R] {f : α → Act σ ε Unit} {I : List α → σ → Prop}
    (hf : ∀ a rest s, I (a :: rest) s → Runs R (f a) s fun _ => I rest) :
    ∀ (as : List α) (s : σ), I as s → Runs R (forEach as f) s fun _ => I []
  | [], _, h => runs_pure h
  | a :: as, s, h => runs_bind (hf a as s h) fun _ s' _ h' => runs_forEach hf as s' h'

theorem runs_mapError {ε' : Type} {f : ε → ε'} (h : Runs R m s Q) : Runs R (mapError f m) s Q := by
  refine ⟨by rw [run_mapError]; exact h.1, ?_⟩
  intro a s' e
  refine h.2 a s' ?_
  unfold mapError at e
  split at e
  · rename_i a' s'' h'
    cases e
    exact h'
  · cases e

end Runs

/-! ## How actions end -/

/-- From `s`, the action succeeds into `Q` or fails into `E`. -/
def Ends (m : Act σ ε α) (s : σ) (Q : α → σ → Prop) (E : σ → Prop) : Prop :=
  match m s with
  | (.ok a, s') => Q a s'
  | (.error _, s') => E s'

section Ends

variable {m : Act σ ε α} {k : α → Act σ ε β} {s s' : σ} {Q Q' : α → σ → Prop} {S : β → σ → Prop} {E E' : σ → Prop}

theorem ends_ok {a : α} (h : m s = (.ok a, s')) (hQ : Q a s') : Ends m s Q E := by
  unfold Ends
  rw [h]
  exact hQ

theorem ends_error {e : ε} (h : m s = (.error e, s')) (hE : E s') : Ends m s Q E := by
  unfold Ends
  rw [h]
  exact hE

theorem Ends.cases (h : Ends m s Q E) :
    (∃ a s', m s = (.ok a, s') ∧ Q a s') ∨ ∃ e s', m s = (.error e, s') ∧ E s' := by
  unfold Ends at h
  split at h
  · rename_i a s' hm
    exact .inl ⟨a, s', hm, h⟩
  · rename_i e s' hm
    exact .inr ⟨e, s', hm, h⟩

theorem Ends.weaken (h : Ends m s Q E) (hQ : ∀ a s', Q a s' → Q' a s') (hE : ∀ s', E s' → E' s') : Ends m s Q' E' := by
  obtain ⟨a, s', hm, h⟩ | ⟨e, s', hm, h⟩ := h.cases
  · exact ends_ok hm (hQ a s' h)
  · exact ends_error hm (hE s' h)

theorem Ends.and {P : α → σ → Prop} (h : Ends m s Q E) (hP : ∀ a s', m s = (.ok a, s') → P a s') :
    Ends m s (fun a s' => Q a s' ∧ P a s') E := by
  obtain ⟨a, s', hm, h⟩ | ⟨e, s', hm, h⟩ := h.cases
  · exact ends_ok hm ⟨h, hP a s' hm⟩
  · exact ends_error hm h

theorem ends_get {k : σ → Act σ ε β} (h : Ends (k s) s S E) : Ends (get >>= k) s S E := h

theorem ends_modify_bind {f : σ → σ} {k : Unit → Act σ ε β} (h : Ends (k ()) (f s) S E) : Ends (modify f >>= k) s S E := h

theorem ends_bind (hm : Ends m s Q E) (hk : ∀ a s', Q a s' → Ends (k a) s' S E) : Ends (m >>= k) s S E := by
  obtain ⟨a, s', hm, h⟩ | ⟨e, s', hm, h⟩ := hm.cases
  · have hb : (m >>= k) s = k a s' := by rw [run_bind, hm]
    unfold Ends
    rw [hb]
    exact hk a s' h
  · have hb : (m >>= k) s = (.error e, s') := by rw [run_bind, hm]
    exact ends_error hb h

/-- The loop rule: `I` speaks of the elements still to come. -/
theorem ends_forEach {f : α → Act σ ε Unit} {I : List α → σ → Prop}
    (hf : ∀ a rest s, I (a :: rest) s → Ends (f a) s (fun _ => I rest) E) :
    ∀ (as : List α) (s : σ), I as s → Ends (forEach as f) s (fun _ => I []) E
  | [], _, h => ends_ok rfl h
  | a :: as, s, h => ends_bind (hf a as s h) fun _ s' h' => ends_forEach hf as s' h'

end Ends

/-! ## What actions keep -/

/-- `I` holds where the action stops, whether it succeeds or fails. -/
def Keeps (m : Act σ ε α) (s : σ) (I : σ → Prop) : Prop := I (m s).2

section Keeps

variable {m : Act σ ε α} {k : α → Act σ ε β} {s s' : σ} {I J : σ → Prop}

theorem keeps_ok {a : α} (h : m s = (.ok a, s')) (hI : I s') : Keeps m s I := by
  unfold Keeps
  rw [h]
  exact hI

theorem Keeps.ok {a : α} (h : Keeps m s I) (hm : m s = (.ok a, s')) : I s' := by
  unfold Keeps at h
  rwa [hm] at h

theorem Keeps.weaken (h : Keeps m s I) (hIJ : ∀ s', I s' → J s') : Keeps m s J := hIJ _ h

theorem Ends.keeps {Q : α → σ → Prop} {E : σ → Prop} (h : Ends m s Q E) (hQ : ∀ a s', Q a s' → I s') (hE : ∀ s', E s' → I s') :
    Keeps m s I := by
  obtain ⟨a, s', hm, h⟩ | ⟨e, s', hm, h⟩ := h.cases
  · exact keeps_ok hm (hQ a s' h)
  · unfold Keeps
    rw [hm]
    exact hE s' h

theorem Keeps.ends {Q : α → σ → Prop} (h : Keeps m s I) (hQ : ∀ a s', m s = (.ok a, s') → I s' → Q a s') : Ends m s Q I := by
  unfold Keeps at h
  cases hm : m s with
  | mk r s' =>
    rw [hm] at h
    cases r with
    | ok a => exact ends_ok hm (hQ a s' hm h)
    | error e => exact ends_error hm h

theorem Ends.of_ok {a : α} {Q : α → σ → Prop} {E : σ → Prop} (h : Ends m s Q E) (hm : m s = (.ok a, s')) : Q a s' := by
  unfold Ends at h
  rwa [hm] at h

theorem keeps_get {k : σ → Act σ ε β} (h : Keeps (k s) s I) : Keeps (get >>= k) s I := h

theorem keeps_modify {f : σ → σ} (h : I (f s)) : Keeps (modify f : Act σ ε Unit) s I := h

theorem keeps_modify_bind {f : σ → σ} {k : Unit → Act σ ε β} (h : Keeps (k ()) (f s) I) : Keeps (modify f >>= k) s I := h

theorem keeps_pure {a : α} (h : I s) : Keeps (Pure.pure a : Act σ ε α) s I := h

theorem keeps_fail {e : ε} (h : I s) : Keeps (fail e : Act σ ε α) s I := h

theorem keeps_bind (hm : Keeps m s I) (hk : ∀ a s', m s = (.ok a, s') → Keeps (k a) s' I) : Keeps (m >>= k) s I := by
  unfold Keeps at hm ⊢
  rw [run_bind]
  split
  · rename_i a s' h
    exact hk a s' h
  · rename_i e s' h
    rwa [h] at hm

theorem keeps_mapError {ε' : Type} {f : ε → ε'} (h : Keeps m s I) : Keeps (mapError f m) s I := by
  unfold Keeps
  rw [run_mapError]
  exact h

end Keeps

end Act

end Kokage.Lib

/-
  Kokage.Actor.Timers — the timer table in the source's words (`actor/context.rs`:
  `TimerTable`).

  Ids are 64-bit words that wrap past zero, and deadlines are instants of a clock that
  ends, so an operation fails where the source panics. The table does not remember the
  wakes it has handed out: `take_fired` recognises a stale one by its id and deadline.

  `St` is a table with two counts of its history: how many ids it has issued, and the wakes
  whose messages it has delivered. An operation disturbs an entry if it replaces or clears
  its key or fires it; `step_mem` says that an operation keeps the entries it does not
  disturb and adds at most one, under a new id. From this follows what holds in every run
  that issues fewer than `2^64` ids.
-/

import Mathlib.Data.List.Nodup
import Mathlib.Data.List.Perm.Basic
import Kokage.Actor.Interval

namespace Kokage.Actor

abbrev TimerKey := String

/-- `Vec::swap_remove`: the last element takes the place of the removed one. -/
def swapRemove {α : Type} (l : List α) (i : Nat) : List α :=
  match l.getLast? with
  | none => []
  | some last => (l.set i last).dropLast

theorem swapRemove_perm {α : Type} {l : List α} {i : Nat} (h : i < l.length) : l.Perm (l[i] :: swapRemove l i) := by
  refine (List.getElem_cons_eraseIdx_perm h).symm.trans (List.Perm.cons _ ?_)
  obtain ⟨init, last, rfl⟩ : ∃ init last, l = init ++ [last] := by
    have hne : l ≠ [] := fun hl => by simp [hl] at h
    exact ⟨l.dropLast, l.getLast hne, (List.dropLast_append_getLast hne).symm⟩
  simp only [swapRemove, List.getLast?_concat]
  rw [List.length_append, List.length_singleton] at h
  by_cases hi : i < init.length
  · rw [List.set_append_left _ _ hi, List.dropLast_concat, List.eraseIdx_append_of_lt_length hi]
    exact (List.perm_append_singleton last _).trans (List.set_perm_cons_eraseIdx hi last).symm
  · have hlast : i = init.length := by omega
    subst hlast
    simp [List.eraseIdx_append_of_length_le]

theorem swapRemove_nodup {α β : Type} {label : α → β} {l : List α} {i : Nat} {x : α} (hl : (l.map label).Nodup)
    (hx : l[i]? = some x) :
    ((swapRemove l i).map label).Nodup ∧ ∀ e, e ∈ swapRemove l i ↔ e ∈ l ∧ label e ≠ label x := by
  obtain ⟨hi, hget⟩ := List.getElem?_eq_some_iff.mp hx
  have hperm := swapRemove_perm hi
  rw [hget] at hperm
  have hlabels : ((x :: swapRemove l i).map label).Nodup := (hperm.map _).nodup_iff.mp hl
  rw [List.map_cons, List.nodup_cons] at hlabels
  refine ⟨hlabels.2, fun e => ⟨fun he => ?_, fun ⟨he, hne⟩ => ?_⟩⟩
  · refine ⟨hperm.mem_iff.mpr (List.mem_cons_of_mem _ he), fun heq => hlabels.1 ?_⟩
    exact heq ▸ List.mem_map_of_mem he
  · rcases List.mem_cons.mp (hperm.mem_iff.mp he) with heq | he
    · exact absurd (by rw [heq]) hne
    · exact he

namespace Timers

open Kokage.Lib.Time

variable {c : Clock} {M : Type}

structure Wake (c : Clock) where
  id : UInt64
  deadline : Instant c
  deriving DecidableEq

/-- The period of an interval; `insert_interval` makes none of length zero. -/
structure Repeat where
  period : Duration
  ne_zero : period ≠ .zero
  deriving DecidableEq

structure Entry (c : Clock) (M : Type) where
  id : UInt64
  key : TimerKey
  deadline : Instant c
  message : M
  again : Option Repeat

def Entry.wake (e : Entry c M) : Wake c := ⟨e.id, e.deadline⟩

structure Table (c : Clock) (M : Type) where
  entries : List (Entry c M)
  nextId : UInt64

namespace Table

def new : Table c M := ⟨[], 1⟩

/-- `next_id`, without the id it returns. -/
def issue (t : Table c M) : Table c M := { t with nextId := max (t.nextId + 1) 1 }

/-- The new entry takes the next id. -/
def push (t : Table c M) (key : TimerKey) (deadline : Instant c) (message : M) (again : Option Repeat) : Table c M :=
  { t.issue with entries := t.entries ++ [⟨t.nextId, key, deadline, message, again⟩] }

def clear (t : Table c M) (key : TimerKey) : Table c M :=
  match t.entries.findIdx? (·.key = key) with
  | some index => { t with entries := swapRemove t.entries index }
  | none => t

def insertEntry (t : Table c M) (now : Instant c) (key : TimerKey) (message : M) (delay : Duration) (again : Option Repeat) :
    Option (Table c M) := do
  let deadline ← deadlineAfter now delay
  some ((t.clear key).push key deadline message again)

def insert (t : Table c M) (now : Instant c) (key : TimerKey) (message : M) (delay : Duration) : Option (Table c M) :=
  t.insertEntry now key message delay none

def insertInterval (t : Table c M) (now : Instant c) (key : TimerKey) (message : M) (period : Duration) : Option (Table c M) :=
  if h : period = .zero then some (t.clear key) else t.insertEntry now key message period (some ⟨period, h⟩)

/-- `min_by_key`: the first of the entries with the least deadline. -/
def earliest : List (Entry c M) → Option (Entry c M)
  | [] => none
  | e :: rest =>
    match earliest rest with
    | none => some e
    | some m => if e.deadline ≤ m.deadline then some e else some m

def nextWake (t : Table c M) : Option (Wake c) := (earliest t.entries).map Entry.wake

def takeFired (t : Table c M) (now : Instant c) (wake : Wake c) : Option (Table c M × Option M) :=
  match t.entries.findIdx? (fun e => e.id = wake.id && e.deadline = wake.deadline) with
  | none => some (t, none)
  | some index =>
    match t.entries[index]? with
    | none => some (t, none)
    | some entry =>
      if now < entry.deadline then some (t, none)
      else
        let t' := { t with entries := swapRemove t.entries index }
        match entry.again with
        | none => some (t', some entry.message)
        | some again => do
          let deadline ← nextIntervalDeadline now entry.deadline again.period
          some (t'.push entry.key deadline entry.message (some again), some entry.message)

end Table

/-! ## Runs -/

inductive Op (c : Clock) (M : Type) where
  | insert (now : Instant c) (key : TimerKey) (message : M) (delay : Duration)
  | insertInterval (now : Instant c) (key : TimerKey) (message : M) (period : Duration)
  | clear (key : TimerKey)
  | nextWake
  | takeFired (now : Instant c) (wake : Wake c)

structure St (c : Clock) (M : Type) where
  table : Table c M
  /-- How many entries were pushed; a push changes the next id, and nothing else does. -/
  issued : Nat
  /-- The wakes whose messages were delivered. -/
  fired : List (Wake c)

namespace St

def new : St c M := ⟨.new, 0, []⟩

/-- After a `take_fired` for the wake. -/
def taken (s : St c M) (wake : Wake c) (t : Table c M) (delivered : Option M) : St c M :=
  ⟨t, if t.nextId = s.table.nextId then s.issued else s.issued + 1, if delivered.isSome then s.fired ++ [wake] else s.fired⟩

def step (s : St c M) : Op c M → Option (St c M)
  | .insert now key message delay => (s.table.insert now key message delay).map fun t => ⟨t, s.issued + 1, s.fired⟩
  | .insertInterval now key message period =>
    (s.table.insertInterval now key message period).map fun t => ⟨t, if period = .zero then s.issued else s.issued + 1, s.fired⟩
  | .clear key => some { s with table := s.table.clear key }
  | .nextWake => some s
  | .takeFired now wake => (s.table.takeFired now wake).map fun (t, delivered) => s.taken wake t delivered

def run (ops : List (Op c M)) : Option (St c M) := ops.foldlM step new

end St

/-- Replaces, clears or fires the entry. -/
def Op.Disturbs (e : Entry c M) : Op c M → Prop
  | .insert _ key _ _ | .insertInterval _ key _ _ | .clear key => key = e.key
  | .nextWake => False
  | .takeFired now wake => wake = e.wake ∧ e.deadline ≤ now

/-- The clock has a far future at the time of the operation. -/
def Op.Timely : Op c M → Prop
  | .insert now _ _ _ | .insertInterval now _ _ _ | .takeFired now _ => now.nanos + farFuture.asNanos ≤ c.horizon
  | .clear _ | .nextWake => True

instance (op : Op c M) : Decidable op.Timely :=
  match op with
  | .insert now _ _ _ | .insertInterval now _ _ _ | .takeFired now _ =>
    inferInstanceAs (Decidable (now.nanos + farFuture.asNanos ≤ c.horizon))
  | .clear _ | .nextWake => inferInstanceAs (Decidable True)

/-! ## The ids -/

theorem wrap_toNat (x : UInt64) : (max (x + 1) 1).toNat = if x.toNat + 1 < 2 ^ 64 then x.toNat + 1 else 1 := by
  have hx := x.toNat_lt
  have hsum : (x + 1).toNat = (x.toNat + 1) % 2 ^ 64 := UInt64.toNat_add x 1
  have hmax : max (x + 1) 1 = if x + 1 ≤ 1 then 1 else x + 1 := rfl
  have hone : (1 : UInt64).toNat = 1 := rfl
  rw [hmax]
  by_cases hle : x + 1 ≤ 1
  · rw [if_pos hle]
    rw [UInt64.le_iff_toNat_le] at hle
    split <;> omega
  · rw [if_neg hle]
    rw [UInt64.le_iff_toNat_le] at hle
    split <;> omega

theorem wrap_ne (x : UInt64) : max (x + 1) 1 ≠ x := by
  intro h
  have heq := congrArg UInt64.toNat h
  rw [wrap_toNat] at heq
  split at heq <;> omega

/-! ## The table -/

namespace Table

variable {t : Table c M} {now : Instant c} {key : TimerKey} {message : M} {again : Option Repeat}

/-- One entry for a key, and one for an id. -/
structure Distinct (t : Table c M) : Prop where
  ids : (t.entries.map (·.id)).Nodup
  keys : (t.entries.map (·.key)).Nodup

/-- What is left of `t` once the entries in `gone` were taken out. -/
structure Removal (t t' : Table c M) (gone : Entry c M → Prop) : Prop where
  nextId : t'.nextId = t.nextId
  distinct : t'.Distinct
  mem : ∀ e, e ∈ t'.entries ↔ e ∈ t.entries ∧ ¬ gone e

theorem clear_removal (h : t.Distinct) (key : TimerKey) : Removal t (t.clear key) (·.key = key) := by
  unfold clear
  cases hf : t.entries.findIdx? (·.key = key) with
  | none =>
    refine ⟨rfl, h, ?_⟩
    intro e
    refine ⟨fun he => ⟨he, ?_⟩, And.left⟩
    have hno := List.findIdx?_eq_none_iff.mp hf e he
    exact of_decide_eq_false hno
  | some i =>
    obtain ⟨hi, hkey, -⟩ := List.findIdx?_eq_some_iff_getElem.mp hf
    have hx : t.entries[i]? = some t.entries[i] := List.getElem?_eq_getElem hi
    have hkey : t.entries[i].key = key := of_decide_eq_true hkey
    obtain ⟨hkeys, hmem⟩ := swapRemove_nodup h.keys hx
    refine ⟨rfl, ⟨(swapRemove_nodup h.ids hx).1, hkeys⟩, ?_⟩
    intro e
    rw [hmem, hkey]

theorem takeFired_early {wake : Wake c} (h : ∀ e ∈ t.entries, e.wake = wake → now < e.deadline) :
    t.takeFired now wake = some (t, none) := by
  unfold takeFired
  cases hf : t.entries.findIdx? (fun e => e.id = wake.id && e.deadline = wake.deadline) with
  | none => rfl
  | some i =>
    obtain ⟨hi, hat, -⟩ := List.findIdx?_eq_some_iff_getElem.mp hf
    have hx : t.entries[i]? = some t.entries[i] := List.getElem?_eq_getElem hi
    obtain ⟨hid, hdeadline⟩ := Bool.and_eq_true_iff.mp hat
    have hwake : t.entries[i].wake = wake := by
      unfold Entry.wake
      rw [of_decide_eq_true hid, of_decide_eq_true hdeadline]
    simp only [hx, if_pos (h _ (List.getElem_mem hi) hwake)]

theorem takeFired_some (hfar : now.nanos + farFuture.asNanos ≤ c.horizon) (wake : Wake c) : ∃ r, t.takeFired now wake = some r := by
  unfold takeFired
  split
  · exact ⟨_, rfl⟩
  · split
    · exact ⟨_, rfl⟩
    · split
      · exact ⟨_, rfl⟩
      · rename_i e _ hlate
        simp only
        split
        · exact ⟨_, rfl⟩
        · rename_i again _
          obtain ⟨deadline, hnext, -⟩ := nextIntervalDeadline_next (Nat.le_of_not_lt hlate) again.ne_zero hfar
          exact ⟨_, bind_of_some hnext⟩

/-- The entry of the wake is due: it goes, and an interval comes back under the next id. -/
theorem takeFired_due (h : t.Distinct) {e : Entry c M} (he : e ∈ t.entries) (hdue : e.deadline ≤ now) :
    ∃ t', Removal t t' (· = e) ∧ t.takeFired now e.wake = match e.again with
      | none => some (t', some e.message)
      | some again => (nextIntervalDeadline now e.deadline again.period).bind fun deadline =>
        some (t'.push e.key deadline e.message (some again), some e.message) := by
  unfold takeFired
  cases hf : t.entries.findIdx? (fun x => x.id = e.wake.id && x.deadline = e.wake.deadline) with
  | none =>
    have hno := List.findIdx?_eq_none_iff.mp hf e he
    simp [Entry.wake] at hno
  | some i =>
    obtain ⟨hi, hat, -⟩ := List.findIdx?_eq_some_iff_getElem.mp hf
    have hid : t.entries[i].id = e.id := of_decide_eq_true (Bool.and_eq_true_iff.mp hat).1
    have hsame : t.entries[i] = e := List.inj_on_of_nodup_map h.ids (List.getElem_mem hi) he hid
    have hx : t.entries[i]? = some e := by rw [List.getElem?_eq_getElem hi, hsame]
    obtain ⟨hids, hmem⟩ := swapRemove_nodup h.ids hx
    have hlate : ¬ now < e.deadline := Nat.not_lt_of_le hdue
    refine ⟨{ t with entries := swapRemove t.entries i }, ⟨rfl, ⟨hids, (swapRemove_nodup h.keys hx).1⟩, ?_⟩, ?_⟩
    · intro x
      rw [hmem]
      constructor
      · rintro ⟨hin, hne⟩
        exact ⟨hin, fun heq => hne (by rw [heq])⟩
      · rintro ⟨hin, hne⟩
        exact ⟨hin, fun heq => hne (List.inj_on_of_nodup_map h.ids hin he heq)⟩
    · simp only [hx, if_neg hlate]
      rfl

theorem takeFired_message (h : t.Distinct) {e : Entry c M} (he : e ∈ t.entries) (hdue : e.deadline ≤ now) {t' : Table c M}
    {delivered : Option M} (htake : t.takeFired now e.wake = some (t', delivered)) : delivered = some e.message := by
  obtain ⟨_, -, hdue'⟩ := takeFired_due h he hdue
  rw [hdue'] at htake
  cases hagain : e.again with
  | none =>
    rw [hagain] at htake
    cases htake
    rfl
  | some again =>
    rw [hagain] at htake
    obtain ⟨deadline, -, heq⟩ := Option.bind_eq_some_iff.mp htake
    cases heq
    rfl

theorem mem_push {deadline : Instant c} {e : Entry c M} :
    e ∈ (t.push key deadline message again).entries ↔ e ∈ t.entries ∨ e = ⟨t.nextId, key, deadline, message, again⟩ := by
  show e ∈ t.entries ++ [_] ↔ _
  rw [List.mem_append, List.mem_singleton]

theorem earliest_none {l : List (Entry c M)} (h : earliest l = none) : l = [] := by
  cases l with
  | nil => rfl
  | cons e rest =>
    unfold earliest at h
    split at h
    · cases h
    · split at h <;> cases h

theorem earliest_least {l : List (Entry c M)} {e : Entry c M} (h : earliest l = some e) :
    e ∈ l ∧ ∀ x ∈ l, e.deadline ≤ x.deadline := by
  induction l generalizing e with
  | nil => cases h
  | cons y rest ih =>
    unfold earliest at h
    cases hrest : earliest rest with
    | none =>
      rw [hrest] at h
      cases h
      rw [earliest_none hrest]
      exact ⟨List.mem_cons_self, fun x hx => by rw [List.mem_singleton.mp hx]; exact Nat.le_refl _⟩
    | some m =>
      rw [hrest] at h
      obtain ⟨hm, hleast⟩ := ih hrest
      by_cases hle : y.deadline ≤ m.deadline
      · simp only [if_pos hle] at h
        cases h
        refine ⟨List.mem_cons_self, ?_⟩
        intro x hx
        rcases List.mem_cons.mp hx with rfl | hx
        · exact Nat.le_refl _
        · exact Nat.le_trans hle (hleast x hx)
      · simp only [if_neg hle] at h
        cases h
        refine ⟨List.mem_cons_of_mem _ hm, ?_⟩
        intro x hx
        rcases List.mem_cons.mp hx with rfl | hx
        · exact Nat.le_of_lt (Nat.lt_of_not_le hle)
        · exact hleast x hx

end Table

/-! ## One operation -/

/-- The operation adds the entry, under the next id. -/
def Op.Adds (s : St c M) (e : Entry c M) : Op c M → Prop
  | .insert now key message delay => ∃ deadline, deadlineAfter now delay = some deadline ∧
    e = ⟨s.table.nextId, key, deadline, message, none⟩
  | .insertInterval now key message period => ∃ h deadline, deadlineAfter now period = some deadline ∧
    e = ⟨s.table.nextId, key, deadline, message, some ⟨period, h⟩⟩
  | .clear _ | .nextWake => False
  | .takeFired now wake => ∃ old ∈ s.table.entries, old.wake = wake ∧ old.deadline ≤ now ∧ ∃ again deadline,
    old.again = some again ∧ nextIntervalDeadline now old.deadline again.period = some deadline ∧
    e = ⟨s.table.nextId, old.key, deadline, old.message, some again⟩

namespace St

variable {s s' : St c M} {op : Op c M}

/-- The ids of a table that has issued fewer than all. -/
structure Inv (s : St c M) : Prop where
  distinct : s.table.Distinct
  issued : ∀ e ∈ s.table.entries, e.id.toNat ≤ s.issued
  next : s.issued + 1 < 2 ^ 64 → s.table.nextId.toNat = s.issued + 1
  once : (s.fired.map (·.id)).Nodup
  gone : ∀ w ∈ s.fired, w.id.toNat ≤ s.issued ∧ ∀ e ∈ s.table.entries, e.id ≠ w.id

theorem inv_new : (new : St c M).Inv where
  distinct := ⟨List.nodup_nil, List.nodup_nil⟩
  issued := nofun
  next := fun _ => rfl
  once := List.nodup_nil
  gone := nofun

theorem Inv.remove (h : s.Inv) {t : Table c M} {gone : Entry c M → Prop} (hr : Table.Removal s.table t gone) :
    Inv { s with table := t } where
  distinct := hr.distinct
  issued := fun e he => h.issued e ((hr.mem e).mp he).1
  next := by
    intro hlt
    rw [← h.next hlt]
    exact congrArg UInt64.toNat hr.nextId
  once := h.once
  gone := fun w hw => ⟨(h.gone w hw).1, fun e he => (h.gone w hw).2 e ((hr.mem e).mp he).1⟩

/-- A key that has no entry gets one, under an id that was never used. -/
theorem Inv.push (h : s.Inv) (hlt : s.issued + 1 < 2 ^ 64) {key : TimerKey} (hkey : ∀ e ∈ s.table.entries, e.key ≠ key)
    (deadline : Instant c) (message : M) (again : Option Repeat) :
    Inv ⟨s.table.push key deadline message again, s.issued + 1, s.fired⟩ := by
  have hnext := h.next hlt
  have hnew : ∀ e ∈ s.table.entries, e.id ≠ s.table.nextId := by
    intro e he heq
    have hle := h.issued e he
    rw [heq] at hle
    omega
  refine ⟨⟨?_, ?_⟩, ?_, ?_, h.once, ?_⟩
  · show ((s.table.entries ++ [_]).map _).Nodup
    rw [List.map_append, List.nodup_append]
    refine ⟨h.distinct.ids, List.nodup_singleton _, ?_⟩
    intro a ha b hb heq
    obtain ⟨e, he, rfl⟩ := List.mem_map.mp ha
    exact hnew e he (heq.trans (List.mem_singleton.mp hb))
  · show ((s.table.entries ++ [_]).map _).Nodup
    rw [List.map_append, List.nodup_append]
    refine ⟨h.distinct.keys, List.nodup_singleton _, ?_⟩
    intro a ha b hb heq
    obtain ⟨e, he, rfl⟩ := List.mem_map.mp ha
    exact hkey e he (heq.trans (List.mem_singleton.mp hb))
  · intro e he
    show e.id.toNat ≤ s.issued + 1
    rcases Table.mem_push.mp he with he | rfl
    · exact Nat.le_succ_of_le (h.issued e he)
    · exact Nat.le_of_eq hnext
  · intro hlt'
    show (max (s.table.nextId + 1) 1).toNat = _
    rw [wrap_toNat, hnext, if_pos hlt']
  · intro w hw
    obtain ⟨hle, hne⟩ := h.gone w hw
    refine ⟨Nat.le_succ_of_le hle, ?_⟩
    intro e he
    rcases Table.mem_push.mp he with he | rfl
    · exact hne e he
    · intro heq
      change s.table.nextId = w.id at heq
      rw [← heq] at hle
      omega

theorem Inv.fire (h : s.Inv) {t : Table c M} {e : Entry c M} (he : e ∈ s.table.entries) (hr : Table.Removal s.table t (· = e)) :
    Inv ⟨t, s.issued, s.fired ++ [e.wake]⟩ := by
  have hout := h.remove hr
  refine ⟨hout.distinct, hout.issued, hout.next, ?_, ?_⟩
  · show ((s.fired ++ [e.wake]).map _).Nodup
    rw [List.map_append, List.nodup_append]
    refine ⟨h.once, List.nodup_singleton _, ?_⟩
    intro a ha b hb heq
    obtain ⟨w, hw, rfl⟩ := List.mem_map.mp ha
    exact (h.gone w hw).2 e he ((List.mem_singleton.mp hb).symm.trans heq.symm)
  · intro w hw
    rcases List.mem_append.mp hw with hw | hw
    · exact hout.gone w hw
    · rw [List.mem_singleton.mp hw]
      refine ⟨h.issued e he, ?_⟩
      intro x hx heq
      obtain ⟨hin, hne⟩ := (hr.mem x).mp hx
      exact hne (List.inj_on_of_nodup_map h.distinct.ids hin he heq)

/-- The table, the ids and the log after `take_fired`. -/
theorem step_take {now : Instant c} {wake : Wake c} {t : Table c M} {delivered : Option M}
    (h : s.table.takeFired now wake = some (t, delivered)) : s.step (.takeFired now wake) = some (s.taken wake t delivered) :=
  congrArg (Option.map _) h

theorem step_early {now : Instant c} {wake : Wake c} (h : ∀ e ∈ s.table.entries, e.wake = wake → now < e.deadline) :
    s.step (.takeFired now wake) = some s := by
  rw [step_take (Table.takeFired_early h)]
  unfold taken
  rw [if_pos rfl]
  rfl

theorem step_once (h : s.Inv) {now : Instant c} {e : Entry c M} (he : e ∈ s.table.entries) (hdue : e.deadline ≤ now)
    (hagain : e.again = none) : ∃ t, Table.Removal s.table t (· = e) ∧
      s.table.takeFired now e.wake = some (t, some e.message) ∧
      s.step (.takeFired now e.wake) = some ⟨t, s.issued, s.fired ++ [e.wake]⟩ := by
  obtain ⟨t, hr, htake⟩ := Table.takeFired_due h.distinct he hdue
  rw [hagain] at htake
  refine ⟨t, hr, htake, ?_⟩
  rw [step_take htake]
  unfold taken
  rw [if_pos hr.nextId]
  rfl

theorem step_again (h : s.Inv) {now deadline : Instant c} {e : Entry c M} (he : e ∈ s.table.entries) (hdue : e.deadline ≤ now)
    {again : Repeat} (hagain : e.again = some again) (hnext : nextIntervalDeadline now e.deadline again.period = some deadline) :
    ∃ t, Table.Removal s.table t (· = e) ∧
      s.table.takeFired now e.wake = some (t.push e.key deadline e.message (some again), some e.message) ∧
      s.step (.takeFired now e.wake) =
        some ⟨t.push e.key deadline e.message (some again), s.issued + 1, s.fired ++ [e.wake]⟩ := by
  obtain ⟨t, hr, htake⟩ := Table.takeFired_due h.distinct he hdue
  rw [hagain] at htake
  have htake := htake.trans (bind_of_some hnext)
  refine ⟨t, hr, htake, ?_⟩
  have hissued : (t.push e.key deadline e.message (some again)).nextId ≠ s.table.nextId := by
    rw [← hr.nextId]
    exact wrap_ne t.nextId
  rw [step_take htake]
  unfold taken
  rw [if_neg hissued]
  rfl

/-- An interval that fires has a next deadline, or `take_fired` panics. -/
theorem step_next (h : s.Inv) {now : Instant c} {e : Entry c M} (he : e ∈ s.table.entries) (hdue : e.deadline ≤ now)
    {again : Repeat} (hagain : e.again = some again) (hstep : s.step (.takeFired now e.wake) = some s') :
    ∃ deadline, nextIntervalDeadline now e.deadline again.period = some deadline := by
  obtain ⟨t, -, htake⟩ := Table.takeFired_due h.distinct he hdue
  rw [hagain] at htake
  obtain ⟨r, hr, -⟩ := Option.map_eq_some_iff.mp hstep
  obtain ⟨deadline, hnext, -⟩ := Option.bind_eq_some_iff.mp (htake.symm.trans hr)
  exact ⟨deadline, hnext⟩

theorem step_insert (s : St c M) (now : Instant c) (key : TimerKey) (message : M) (delay : Duration) :
    s.step (.insert now key message delay) = (deadlineAfter now delay).map fun deadline =>
      ⟨(s.table.clear key).push key deadline message none, s.issued + 1, s.fired⟩ := by
  show Option.map _ ((deadlineAfter now delay).bind _) = _
  cases deadlineAfter now delay with
  | none => rfl
  | some deadline => rfl

theorem step_interval (s : St c M) (now : Instant c) (key : TimerKey) (message : M) {period : Duration} (h : period ≠ .zero) :
    s.step (.insertInterval now key message period) = (deadlineAfter now period).map fun deadline =>
      ⟨(s.table.clear key).push key deadline message (some ⟨period, h⟩), s.issued + 1, s.fired⟩ := by
  have hinsert : s.table.insertInterval now key message period = s.table.insertEntry now key message period (some ⟨period, h⟩) :=
    dif_neg h
  show Option.map _ (s.table.insertInterval now key message period) = _
  rw [hinsert, if_neg h]
  show Option.map _ ((deadlineAfter now period).bind _) = _
  cases deadlineAfter now period with
  | none => rfl
  | some deadline => rfl

theorem step_some (hop : op.Timely) : ∃ s', s.step op = some s' := by
  cases op with
  | insert now key message delay =>
    obtain ⟨deadline, hd⟩ := deadlineAfter_some delay hop
    rw [step_insert, hd]
    exact ⟨_, rfl⟩
  | insertInterval now key message period =>
    by_cases hp : period = .zero
    · exact ⟨_, congrArg (Option.map _) (dif_pos hp)⟩
    · obtain ⟨deadline, hd⟩ := deadlineAfter_some period hop
      rw [step_interval s now key message hp, hd]
      exact ⟨_, rfl⟩
  | clear key => exact ⟨_, rfl⟩
  | nextWake => exact ⟨_, rfl⟩
  | takeFired now wake =>
    obtain ⟨⟨t, delivered⟩, htake⟩ := Table.takeFired_some hop wake
    exact ⟨_, step_take htake⟩

/-- The key is armed anew; the other entries stay. -/
theorem Inv.arm (h : s.Inv) (hlt : s.issued + 1 < 2 ^ 64) (key : TimerKey) (deadline : Instant c) (message : M)
    (again : Option Repeat) :
    Inv ⟨(s.table.clear key).push key deadline message again, s.issued + 1, s.fired⟩ ∧
      ∀ e, e ∈ ((s.table.clear key).push key deadline message again).entries ↔
        (e ∈ s.table.entries ∧ ¬ key = e.key) ∨ e = ⟨s.table.nextId, key, deadline, message, again⟩ := by
  have hr := Table.clear_removal h.distinct key
  refine ⟨(h.remove hr).push hlt (fun e he => ((hr.mem e).mp he).2) deadline message again, ?_⟩
  intro e
  rw [Table.mem_push, hr.mem, hr.nextId, eq_comm]

theorem Inv.disarm (h : s.Inv) (key : TimerKey) : Inv { s with table := s.table.clear key } ∧
    ∀ e, e ∈ (s.table.clear key).entries ↔ e ∈ s.table.entries ∧ ¬ key = e.key := by
  have hr := Table.clear_removal h.distinct key
  refine ⟨h.remove hr, ?_⟩
  intro e
  rw [hr.mem, eq_comm]

/-- The entry a wake fires is the one that produced it. -/
theorem Inv.fires_iff (h : s.Inv) {x e : Entry c M} {now : Instant c} (hx : x ∈ s.table.entries) (hdue : x.deadline ≤ now)
    (he : e ∈ s.table.entries) : (x.wake = e.wake ∧ e.deadline ≤ now) ↔ e = x := by
  constructor
  · rintro ⟨hwake, -⟩
    exact List.inj_on_of_nodup_map h.distinct.ids he hx (congrArg Wake.id hwake.symm)
  · rintro rfl
    exact ⟨rfl, hdue⟩

theorem Inv.take (h : s.Inv) {now : Instant c} {x : Entry c M} (hx : x ∈ s.table.entries) (hdue : x.deadline ≤ now)
    (hstep : s.step (.takeFired now x.wake) = some s') :
    s.issued ≤ s'.issued ∧ (s'.issued < 2 ^ 64 → s'.Inv ∧
      ∀ e, e ∈ s'.table.entries ↔ (e ∈ s.table.entries ∧ e ≠ x) ∨ Op.Adds s e (.takeFired now x.wake)) := by
  cases hagain : x.again with
  | none =>
    obtain ⟨t, hr, -, hs⟩ := step_once h hx hdue hagain
    rw [hs] at hstep
    cases hstep
    refine ⟨Nat.le_refl _, fun _ => ⟨h.fire hx hr, ?_⟩⟩
    intro e
    refine (hr.mem e).trans ⟨.inl, ?_⟩
    rintro (hkept | ⟨old, hold, hwake, hdue', again, deadline, hagain', -⟩)
    · exact hkept
    · rw [(h.fires_iff hx hdue hold).mp ⟨hwake.symm, hdue'⟩, hagain] at hagain'
      cases hagain'
  | some again =>
    obtain ⟨deadline, hnext⟩ := step_next h hx hdue hagain hstep
    obtain ⟨t, hr, -, hs⟩ := step_again h hx hdue hagain hnext
    rw [hs] at hstep
    cases hstep
    refine ⟨Nat.le_succ _, fun hlt => ⟨?_, ?_⟩⟩
    · refine (h.fire hx hr).push hlt ?_ deadline x.message (some again)
      intro e he hkey
      obtain ⟨hin, hne⟩ := (hr.mem e).mp he
      exact hne (List.inj_on_of_nodup_map h.distinct.keys hin hx hkey)
    · intro e
      refine Table.mem_push.trans (or_congr (hr.mem e) ?_)
      rw [hr.nextId]
      constructor
      · intro heq
        exact ⟨x, hx, rfl, hdue, again, deadline, hagain, hnext, heq⟩
      · rintro ⟨old, hold, hwake, hdue', again', deadline', hagain', hnext', heq⟩
        rw [(h.fires_iff hx hdue hold).mp ⟨hwake.symm, hdue'⟩] at hagain' hnext' heq
        rw [hagain] at hagain'
        cases hagain'
        rw [hnext] at hnext'
        cases hnext'
        exact heq

/-- What an operation does to the entries: those it disturbs go, one may come. -/
theorem Inv.step (h : s.Inv) (hstep : s.step op = some s') : s.issued ≤ s'.issued ∧
    (s'.issued < 2 ^ 64 → s'.Inv ∧
      ∀ e, e ∈ s'.table.entries ↔ (e ∈ s.table.entries ∧ ¬ op.Disturbs e) ∨ op.Adds s e) := by
  cases op with
  | insert now key message delay =>
    rw [step_insert] at hstep
    obtain ⟨deadline, hd, rfl⟩ := Option.map_eq_some_iff.mp hstep
    refine ⟨Nat.le_succ _, fun hlt => ?_⟩
    obtain ⟨hinv, hmem⟩ := h.arm hlt key deadline message none
    refine ⟨hinv, fun e => (hmem e).trans (or_congr_right ?_)⟩
    constructor
    · intro heq
      exact ⟨deadline, hd, heq⟩
    · rintro ⟨deadline', hd', heq⟩
      rw [hd] at hd'
      cases hd'
      exact heq
  | insertInterval now key message period =>
    by_cases hp : period = .zero
    · have hclear : s.step (.insertInterval now key message period) = some ⟨s.table.clear key, s.issued, s.fired⟩ := by
        show Option.map _ (s.table.insertInterval now key message period) = _
        rw [show s.table.insertInterval now key message period = some (s.table.clear key) from dif_pos hp, if_pos hp]
        rfl
      rw [hclear] at hstep
      cases hstep
      obtain ⟨hinv, hmem⟩ := h.disarm key
      exact ⟨Nat.le_refl _, fun _ => ⟨hinv, fun e => (hmem e).trans ⟨.inl, fun hor => hor.elim id fun ⟨hne, _⟩ => absurd hp hne⟩⟩⟩
    · rw [step_interval s now key message hp] at hstep
      obtain ⟨deadline, hd, rfl⟩ := Option.map_eq_some_iff.mp hstep
      refine ⟨Nat.le_succ _, fun hlt => ?_⟩
      obtain ⟨hinv, hmem⟩ := h.arm hlt key deadline message (some ⟨period, hp⟩)
      refine ⟨hinv, fun e => (hmem e).trans (or_congr_right ?_)⟩
      constructor
      · intro heq
        exact ⟨hp, deadline, hd, heq⟩
      · rintro ⟨_, deadline', hd', heq⟩
        rw [hd] at hd'
        cases hd'
        exact heq
  | clear key =>
    cases hstep
    obtain ⟨hinv, hmem⟩ := h.disarm key
    exact ⟨Nat.le_refl _, fun _ => ⟨hinv, fun e => (hmem e).trans ⟨.inl, fun hor => hor.elim id nofun⟩⟩⟩
  | nextWake =>
    cases hstep
    exact ⟨Nat.le_refl _, fun _ => ⟨h, fun e => ⟨fun he => .inl ⟨he, nofun⟩, fun hor => hor.elim And.left nofun⟩⟩⟩
  | takeFired now wake =>
    by_cases hdue : ∃ x ∈ s.table.entries, x.wake = wake ∧ x.deadline ≤ now
    · obtain ⟨x, hx, rfl, hdue⟩ := hdue
      obtain ⟨hle, hrest⟩ := h.take hx hdue hstep
      refine ⟨hle, fun hlt => ⟨(hrest hlt).1, fun e => ((hrest hlt).2 e).trans (or_congr_left ?_)⟩⟩
      exact and_congr_right fun he => not_congr (h.fires_iff hx hdue he).symm
    · have hearly : s.step (.takeFired now wake) = some s :=
        step_early fun e he hw => Nat.lt_of_not_le fun hle => hdue ⟨e, he, hw, hle⟩
      rw [hearly] at hstep
      cases hstep
      refine ⟨Nat.le_refl _, fun _ => ⟨h, fun e => ⟨fun he => .inl ⟨he, fun hd => hdue ⟨e, he, hd.1.symm, hd.2⟩⟩, ?_⟩⟩⟩
      rintro (⟨he, -⟩ | ⟨old, hold, hwake, hd, -⟩)
      · exact he
      · exact absurd ⟨old, hold, hwake, hd⟩ hdue

/-! ## Every run -/

theorem taken_le (s : St c M) (wake : Wake c) (t : Table c M) (delivered : Option M) : s.issued ≤ (s.taken wake t delivered).issued := by
  unfold taken
  simp only
  split <;> omega

theorem step_le (hstep : s.step op = some s') : s.issued ≤ s'.issued := by
  cases op with
  | insert now key message delay =>
    obtain ⟨t, -, rfl⟩ := Option.map_eq_some_iff.mp hstep
    exact Nat.le_succ _
  | insertInterval now key message period =>
    obtain ⟨t, -, rfl⟩ := Option.map_eq_some_iff.mp hstep
    simp only
    split <;> omega
  | clear key =>
    cases hstep
    exact Nat.le_refl _
  | nextWake =>
    cases hstep
    exact Nat.le_refl _
  | takeFired now wake =>
    obtain ⟨⟨t, delivered⟩, -, rfl⟩ := Option.map_eq_some_iff.mp hstep
    exact taken_le s wake t delivered

theorem run_le {ops : List (Op c M)} (hrun : ops.foldlM step s = some s') : s.issued ≤ s'.issued := by
  induction ops generalizing s with
  | nil =>
    cases hrun
    exact Nat.le_refl _
  | cons op ops ih =>
    obtain ⟨s₁, hstep, hrest⟩ := Option.bind_eq_some_iff.mp hrun
    exact Nat.le_trans (step_le hstep) (ih hrest)

theorem run_some {ops : List (Op c M)} (hops : ∀ op ∈ ops, op.Timely) (s : St c M) : ∃ s', ops.foldlM step s = some s' := by
  induction ops generalizing s with
  | nil => exact ⟨s, rfl⟩
  | cons op ops ih =>
    obtain ⟨s₁, hstep⟩ := step_some (s := s) (hops op List.mem_cons_self)
    obtain ⟨s', hrest⟩ := ih (fun op hop => hops op (List.mem_cons_of_mem _ hop)) s₁
    exact ⟨s', (bind_of_some hstep).trans hrest⟩

theorem adds_id {e : Entry c M} (h : op.Adds s e) : e.id = s.table.nextId := by
  cases op with
  | insert now key message delay =>
    obtain ⟨deadline, -, rfl⟩ := h
    rfl
  | insertInterval now key message period =>
    obtain ⟨_, deadline, -, rfl⟩ := h
    rfl
  | clear key => cases h
  | nextWake => cases h
  | takeFired now wake =>
    obtain ⟨old, -, -, -, again, deadline, -, -, rfl⟩ := h
    rfl

theorem Inv.adds_lt {e : Entry c M} (h : s.Inv) (hstep : s.step op = some s') (hadd : op.Adds s e) : s.issued < s'.issued := by
  cases op with
  | insert now key message delay =>
    rw [step_insert] at hstep
    obtain ⟨deadline, -, rfl⟩ := Option.map_eq_some_iff.mp hstep
    exact Nat.lt_succ_self _
  | insertInterval now key message period =>
    obtain ⟨hp, -⟩ := hadd
    rw [step_interval s now key message hp] at hstep
    obtain ⟨deadline, -, rfl⟩ := Option.map_eq_some_iff.mp hstep
    exact Nat.lt_succ_self _
  | clear key => cases hadd
  | nextWake => cases hadd
  | takeFired now wake =>
    obtain ⟨old, hold, rfl, hdue, again, deadline, hagain, hnext, -⟩ := hadd
    obtain ⟨t, -, -, hs⟩ := step_again h hold hdue hagain hnext
    rw [hs] at hstep
    cases hstep
    exact Nat.lt_succ_self _

theorem Inv.adds_new {e : Entry c M} (h : s.Inv) (hstep : s.step op = some s') (hlt : s'.issued < 2 ^ 64) (hadd : op.Adds s e) :
    s.issued < e.id.toNat := by
  have hmore := h.adds_lt hstep hadd
  have hnext := h.next (by omega)
  rw [adds_id hadd]
  omega

/-- An entry that was issued before the run is still there after it exactly when nothing
    disturbed it: what the run adds has other ids. -/
theorem Inv.run {ops : List (Op c M)} (h : s.Inv) (hrun : ops.foldlM St.step s = some s')
    (hlt : s'.issued < 2 ^ 64) : s'.Inv ∧ ∀ e : Entry c M, e.id.toNat ≤ s.issued →
      (e ∈ s'.table.entries ↔ e ∈ s.table.entries ∧ ∀ op ∈ ops, ¬ op.Disturbs e) := by
  induction ops generalizing s with
  | nil =>
    cases hrun
    exact ⟨h, fun e _ => ⟨fun he => ⟨he, nofun⟩, And.left⟩⟩
  | cons op ops ih =>
    obtain ⟨s₁, hstep, hrest⟩ := Option.bind_eq_some_iff.mp hrun
    have hle := run_le hrest
    obtain ⟨hissued, hspec⟩ := h.step hstep
    obtain ⟨h₁, hmem⟩ := hspec (by omega)
    obtain ⟨h', hkept⟩ := ih h₁ hrest
    refine ⟨h', ?_⟩
    intro e hid
    rw [hkept e (by omega), hmem e]
    have hold : ¬ op.Adds s e := by
      intro hadd
      have hnew := h.adds_new hstep (by omega) hadd
      omega
    constructor
    · rintro ⟨hin | hadd, hquiet⟩
      · refine ⟨hin.1, ?_⟩
        intro op' hop'
        rcases List.mem_cons.mp hop' with rfl | hop'
        · exact hin.2
        · exact hquiet op' hop'
      · exact absurd hadd hold
    · rintro ⟨hin, hquiet⟩
      exact ⟨.inl ⟨hin, hquiet op List.mem_cons_self⟩, fun op' hop' => hquiet op' (List.mem_cons_of_mem _ hop')⟩

end St

/-- `e` was in the table during the run, and `since` followed. -/
def Armed (ops since : List (Op c M)) (e : Entry c M) : Prop :=
  ∃ before s, ops = before ++ since ∧ St.run before = some s ∧ e ∈ s.table.entries

/-- The interval `e` comes back as `next` when it fires: whole periods later, and after now;
    or at a saturated instant, where the clock has none of these. -/
structure Rearmed (e next : Entry c M) (again : Repeat) (now : Instant c) : Prop where
  key : next.key = e.key
  message : next.message = e.message
  repeats : next.again = some again
  after : now < next.deadline
  deadline : (∃ k, 1 ≤ k ∧ next.deadline.nanos = e.deadline.nanos + k * again.period.asNanos) ∨
    (next.deadline.nanos = now.nanos + farFuture.asNanos ∨ (2 ^ 64 - 1) * nanosPerSec ≤ next.deadline.nanos) ∧
      ∀ k, now.nanos < e.deadline.nanos + k * again.period.asNanos → c.horizon < e.deadline.nanos + k * again.period.asNanos

/-- After `ops`, `take_fired` delivers the message of `e` and takes it out of the table. A
    one-shot timer is gone; an interval is back under an id that was never used. -/
def Fires (ops : List (Op c M)) (s : St c M) (e : Entry c M) (now : Instant c) : Prop :=
  ∃ t, s.table.takeFired now e.wake = some (t, some e.message) ∧ match e.again with
    | none => ∀ x, x ∈ t.entries ↔ x ∈ s.table.entries ∧ x.key ≠ e.key
    | some again => ∃ next, (∀ x, x ∈ t.entries ↔ (x ∈ s.table.entries ∧ x.key ≠ e.key) ∨ x = next) ∧
      Rearmed e next again now ∧ (s.issued + 1 < 2 ^ 64 → ∀ since x, Armed ops since x → x.id ≠ next.id)

section Runs

variable {ops since : List (Op c M)} {s : St c M} {e : Entry c M} {now : Instant c}

theorem Armed.split (harmed : Armed ops since e) (hrun : St.run ops = some s)
    (hlt : s.issued < 2 ^ 64) : ∃ s₀ : St c M, s₀.Inv ∧ e ∈ s₀.table.entries ∧ s₀.issued ≤ s.issued ∧
      ∀ x : Entry c M, x.id.toNat ≤ s₀.issued → (x ∈ s.table.entries ↔ x ∈ s₀.table.entries ∧ ∀ op ∈ since, ¬ op.Disturbs x) := by
  obtain ⟨before, s₀, rfl, hbefore, he⟩ := harmed
  have hrest : since.foldlM St.step s₀ = some s := by
    unfold St.run at hrun hbefore
    rw [List.foldlM_append, hbefore] at hrun
    exact hrun
  have hle := St.run_le hrest
  obtain ⟨h₀, -⟩ := St.inv_new.run hbefore (by omega)
  exact ⟨s₀, h₀, he, hle, (h₀.run hrest hlt).2⟩

theorem Armed.mem_iff (harmed : Armed ops since e) (hrun : St.run ops = some s)
    (hlt : s.issued < 2 ^ 64) : e ∈ s.table.entries ↔ ∀ op ∈ since, ¬ op.Disturbs e := by
  obtain ⟨s₀, h₀, he, -, hmem⟩ := harmed.split hrun hlt
  rw [hmem e (h₀.issued e he)]
  exact and_iff_right he

theorem Armed.id_le (harmed : Armed ops since e) (hrun : St.run ops = some s)
    (hlt : s.issued < 2 ^ 64) : e.id.toNat ≤ s.issued := by
  obtain ⟨s₀, h₀, he, hle, -⟩ := harmed.split hrun hlt
  exact Nat.le_trans (h₀.issued e he) hle

theorem Armed.eq (harmed : Armed ops since e) (hrun : St.run ops = some s)
    (hlt : s.issued < 2 ^ 64) {x : Entry c M} (hx : x ∈ s.table.entries) (hid : x.id = e.id) : x = e := by
  obtain ⟨s₀, h₀, he, -, hmem⟩ := harmed.split hrun hlt
  have hold := ((hmem x (hid ▸ h₀.issued e he)).mp hx).1
  exact List.inj_on_of_nodup_map h₀.distinct.ids hold he hid

theorem rearmed {again : Repeat} {deadline : Instant c} {id : UInt64} (hdue : e.deadline ≤ now)
    (hfar : now.nanos + farFuture.asNanos ≤ c.horizon) (hnext : nextIntervalDeadline now e.deadline again.period = some deadline) :
    Rearmed e ⟨id, e.key, deadline, e.message, some again⟩ again now := by
  have hpos : 0 < again.period.asNanos := Nat.pos_of_ne_zero fun h => again.ne_zero (Duration.ext h)
  obtain ⟨next, hsome, hlater, hcases⟩ := nextIntervalDeadline_next hdue again.ne_zero hfar
  rw [hnext] at hsome
  cases hsome
  obtain ⟨⟨k, hk, heq, -⟩, hleast⟩ := upcoming_least hdue hpos
  refine ⟨rfl, rfl, rfl, hlater, ?_⟩
  rcases hcases with hexact | ⟨hbeyond, hsat⟩
  · exact .inl ⟨k, hk, hexact.trans heq⟩
  · refine .inr ⟨hsat, ?_⟩
    intro j hj
    by_cases hzero : j = 0
    · subst hzero
      have hle : e.deadline.nanos ≤ now.nanos := hdue
      omega
    · exact Nat.lt_of_lt_of_le hbeyond (hleast ⟨j, Nat.pos_of_ne_zero hzero, rfl, hj⟩)

theorem fires_of_mem (h : s.Inv) (hnew : ∀ since x, Armed ops since x → x.id.toNat ≤ s.issued) (he : e ∈ s.table.entries)
    (hdue : e.deadline ≤ now) (hfar : now.nanos + farFuture.asNanos ≤ c.horizon) : Fires ops s e now := by
  have hother : ∀ x ∈ s.table.entries, ¬ x = e ↔ x.key ≠ e.key := by
    intro x hx
    refine not_congr ⟨fun heq => by rw [heq], fun hkey => ?_⟩
    exact List.inj_on_of_nodup_map h.distinct.keys hx he hkey
  unfold Fires
  cases hagain : e.again with
  | none =>
    obtain ⟨t, hr, htake, -⟩ := St.step_once h he hdue hagain
    refine ⟨t, htake, ?_⟩
    intro x
    exact (hr.mem x).trans (and_congr_right (hother x))
  | some again =>
    obtain ⟨deadline, hnext, -⟩ := nextIntervalDeadline_next hdue again.ne_zero hfar
    obtain ⟨t, hr, htake, -⟩ := St.step_again h he hdue hagain hnext
    refine ⟨_, htake, ⟨t.nextId, e.key, deadline, e.message, some again⟩, ?_, rearmed hdue hfar hnext, ?_⟩
    · intro x
      exact Table.mem_push.trans (or_congr_left ((hr.mem x).trans (and_congr_right (hother x))))
    · intro hlt since x hx heq
      have hle := hnew since x hx
      rw [heq, hr.nextId, h.next hlt] at hle
      omega

end Runs

/-- Every run that issues fewer than `2^64` ids, at times whose far future the clock has. Keys
    and ids are distinct, the next wake is a least one, an id names one entry in the whole run
    and is delivered at most once; and an entry that was armed at some point fires exactly
    when nothing has replaced, cleared or fired it since and its deadline has passed. -/
theorem timer_table_run (ops : List (Op c M)) (htimes : ∀ op ∈ ops, op.Timely) :
    ∃ s, St.run ops = some s ∧ (s.issued < 2 ^ 64 →
      s.table.Distinct ∧
      (s.table.nextWake = none → s.table.entries = []) ∧
      (∀ wake, s.table.nextWake = some wake →
        ∃ e ∈ s.table.entries, e.wake = wake ∧ ∀ x ∈ s.table.entries, e.deadline ≤ x.deadline) ∧
      (s.fired.map (·.id)).Nodup ∧
      ∀ since e, Armed ops since e → (∀ x ∈ s.table.entries, x.id = e.id → x = e) ∧
        ∀ now : Instant c, now.nanos + farFuture.asNanos ≤ c.horizon →
          ((∀ op ∈ since, ¬ op.Disturbs e) ∧ e.deadline ≤ now → Fires ops s e now) ∧
          (¬ ((∀ op ∈ since, ¬ op.Disturbs e) ∧ e.deadline ≤ now) → s.table.takeFired now e.wake = some (s.table, none))) := by
  obtain ⟨s, hrun⟩ := St.run_some htimes St.new
  refine ⟨s, hrun, ?_⟩
  intro hlt
  obtain ⟨h, -⟩ := St.inv_new.run hrun hlt
  refine ⟨h.distinct, ?_, ?_, h.once, ?_⟩
  · intro hnone
    exact Table.earliest_none (Option.map_eq_none_iff.mp hnone)
  · intro wake hwake
    obtain ⟨e, he, rfl⟩ := Option.map_eq_some_iff.mp hwake
    obtain ⟨hmem, hleast⟩ := Table.earliest_least he
    exact ⟨e, hmem, rfl, hleast⟩
  · intro since e harmed
    refine ⟨fun x hx hid => harmed.eq hrun hlt hx hid, ?_⟩
    intro now hfar
    constructor
    · rintro ⟨hquiet, hdue⟩
      have he := (harmed.mem_iff hrun hlt).mpr hquiet
      exact fires_of_mem h (fun since x hx => hx.id_le hrun hlt) he hdue hfar
    · intro hno
      apply Table.takeFired_early
      intro x hx hwake
      have heq := harmed.eq hrun hlt hx (congrArg Wake.id hwake)
      subst heq
      have hquiet := (harmed.mem_iff hrun hlt).mp hx
      exact Nat.lt_of_not_le fun hdue => hno ⟨hquiet, hdue⟩

/-- An interval and a one-shot timer; the wake of the one-shot timer is used twice. -/
def twoTimers : List (Op Clock.signed Nat) :=
  [.insertInterval ⟨0, by decide⟩ "tick" 7 ⟨10, by decide⟩, .insert ⟨0, by decide⟩ "once" 8 ⟨5, by decide⟩, .nextWake,
    .takeFired ⟨6, by decide⟩ ⟨2, ⟨5, by decide⟩⟩, .takeFired ⟨6, by decide⟩ ⟨2, ⟨5, by decide⟩⟩,
    .takeFired ⟨25, by decide⟩ ⟨1, ⟨10, by decide⟩⟩]

/-- Each is delivered once, and the interval is armed again. -/
theorem timer_table_run_two : ∃ s, St.run twoTimers = some s ∧ s.issued = 3 ∧ s.fired.map (·.id) = [2, 1] ∧ s.table.Distinct := by
  have htimes : ∀ op ∈ twoTimers, op.Timely := by decide
  obtain ⟨s, hrun, hspec⟩ := timer_table_run twoTimers htimes
  have hvalue : (St.run twoTimers).map (fun s => (s.issued, s.fired.map (·.id))) = some (3, [2, 1]) := by decide
  rw [hrun] at hvalue
  have hpair := Option.some.inj hvalue
  have hissued : s.issued = 3 := congrArg Prod.fst hpair
  exact ⟨s, hrun, hissued, congrArg Prod.snd hpair, (hspec (by rw [hissued]; decide)).1⟩

end Timers

end Kokage.Actor

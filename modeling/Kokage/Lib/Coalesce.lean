/-
  Kokage.Lib.Coalesce — a stream of events that may be delivered with gaps, each gap a
  marker that says how many events it stands for.

  `Covers es items` says that `items` accounts for the whole history `es`, in order: an
  event stands for itself and a marker for as many events as it counts. Nothing is
  accounted for twice and nothing is left over, so what covers a history has no proper
  prefix that covers it too (`Covers.nothing_left`).
-/

import Mathlib.Data.List.Basic

namespace Kokage.Lib

inductive Item (E : Type) where
  | event (e : E)
  | lagged (dropped : Nat)
  deriving DecidableEq, Repr

namespace Item

variable {E : Type}

def isLagged : Item E → Bool
  | event _ => false
  | lagged _ => true

def event? : Item E → Option E
  | event e => some e
  | lagged _ => none

end Item

inductive Covers {E : Type} : List E → List (Item E) → Prop
  | nil : Covers [] []
  | event {es : List E} {items : List (Item E)} (e : E) : Covers es items → Covers (e :: es) (.event e :: items)
  | lagged {es : List E} {items : List (Item E)} (gone : List E) : gone ≠ [] → Covers es items →
      Covers (gone ++ es) (.lagged gone.length :: items)

namespace Covers

variable {E : Type} {es es' : List E} {items items' : List (Item E)}

theorem append (h : Covers es items) (h' : Covers es' items') : Covers (es ++ es') (items ++ items') := by
  induction h with
  | nil => exact h'
  | event e _ ih => exact .event e ih
  | lagged gone hne _ ih =>
    rw [List.append_assoc]
    exact .lagged gone hne ih

theorem singleton (e : E) : Covers [e] [.event e] := .event e .nil

/-- A covered history splits where its items do. -/
theorem split : ∀ {items : List (Item E)} {es : List E}, Covers es (items ++ items') →
    ∃ front back, es = front ++ back ∧ Covers front items ∧ Covers back items'
  | [], es, h => ⟨[], es, rfl, .nil, h⟩
  | i :: items, _, h => by
    cases h with
    | event e h =>
      obtain ⟨front, back, rfl, hf, hb⟩ := split h
      exact ⟨e :: front, back, rfl, .event e hf, hb⟩
    | lagged gone hne h =>
      obtain ⟨front, back, rfl, hf, hb⟩ := split h
      exact ⟨gone ++ front, back, (List.append_assoc ..).symm, .lagged gone hne hf, hb⟩

/-- Changing the covering of the tail of a history. -/
theorem replace_right {items'' : List (Item E)} (h : Covers es (items ++ items'))
    (hr : ∀ {back : List E}, Covers back items' → Covers (back ++ es') items'') :
    Covers (es ++ es') (items ++ items'') := by
  obtain ⟨front, back, rfl, hf, hb⟩ := split h
  rw [List.append_assoc]
  exact hf.append (hr hb)

theorem eq_nil (h : Covers es []) : es = [] := by
  cases h
  rfl

theorem ne_nil (h : Covers es items) (hne : items ≠ []) : es ≠ [] := by
  cases h with
  | nil => exact absurd rfl hne
  | event e _ => exact List.cons_ne_nil _ _
  | lagged gone hg _ =>
    intro hnil
    exact hg (List.append_eq_nil_iff.mp hnil).1

/-- How many events an item list stands for is how many it covers. -/
theorem length_eq {es' : List E} (h : Covers es items) (h' : Covers es' items) : es.length = es'.length := by
  induction h generalizing es' with
  | nil => rw [h'.eq_nil]
  | event e _ ih =>
    cases h' with
    | event _ h' => rw [List.length_cons, List.length_cons, ih h']
  | @lagged es items gone hne _ ih =>
    generalize hn : gone.length = n at h'
    cases h' with
    | lagged gone' _ h' => rw [List.length_append, List.length_append, hn, ih h']

/-- What covers a history leaves nothing for further items to stand for. -/
theorem nothing_left (h : Covers es (items ++ items')) (hfull : Covers es items) : items' = [] := by
  obtain ⟨front, back, rfl, hf, hb⟩ := split h
  have hlen := hfull.length_eq hf
  rw [List.length_append] at hlen
  by_contra hne
  have hpos := List.length_pos_iff.mpr (hb.ne_nil hne)
  omega

/-- The events told one by one are events of the history, in order. -/
theorem sublist (h : Covers es items) : (items.filterMap Item.event?).Sublist es := by
  induction h with
  | nil => exact List.Sublist.refl _
  | event e _ ih => exact ih.cons_cons e
  | lagged gone _ _ ih => exact ih.trans (List.sublist_append_right _ _)

/-- Without markers the items are the history. -/
theorem eq_events (h : Covers es (es'.map .event)) : es = es' := by
  induction es' generalizing es with
  | nil => exact h.eq_nil
  | cons e es' ih =>
    cases h with
    | event _ h => rw [ih h]

end Covers

/-! ## The latest events -/

/-- `items` accounts for `es` and tells at least the last `k` events one by one. -/
def Recent {E : Type} (k : Nat) (es : List E) (items : List (Item E)) : Prop :=
  ∃ pre front suf, es = pre ++ suf ∧ items = front ++ suf.map .event ∧ Covers pre front ∧ (pre = [] ∨ k ≤ suf.length)

namespace Recent

variable {E : Type} {k : Nat} {es back : List E} {items queue : List (Item E)}

theorem of_events (es : List E) : Recent k es (es.map .event) := ⟨[], [], es, rfl, rfl, .nil, .inl rfl⟩

theorem snoc (h : Recent k es items) (e : E) : Recent k (es ++ [e]) (items ++ [.event e]) := by
  obtain ⟨pre, front, suf, rfl, rfl, hc, hk⟩ := h
  refine ⟨pre, front, suf ++ [e], by simp, by simp, hc, hk.imp_right fun hk => ?_⟩
  rw [List.length_append]
  omega

theorem events_of_unlagged (h : ∀ i ∈ queue, i.isLagged = false) : ∃ es : List E, queue = es.map .event := by
  induction queue with
  | nil => exact ⟨[], rfl⟩
  | cons i queue ih =>
    obtain ⟨es, rfl⟩ := ih fun j hj => h j (List.mem_cons_of_mem _ hj)
    cases i with
    | event e => exact ⟨e :: es, rfl⟩
    | lagged n => cases h _ (List.mem_cons_self ..)

/-- The items end in a queue of which at most the front is a marker. -/
theorem of_queue (hfront : Covers es items) (hback : Covers back queue) (hf : ∀ i ∈ queue.tail, i.isLagged = false)
    (hk : k < queue.length) : Recent k (es ++ back) (items ++ queue) := by
  cases queue with
  | nil => cases hk
  | cons i rest =>
    obtain ⟨suf, rfl⟩ := events_of_unlagged hf
    obtain ⟨pre, suf', rfl, hpre, hsuf⟩ := Covers.split (show Covers back ([i] ++ suf.map .event) from hback)
    obtain rfl := hsuf.eq_events
    refine ⟨es ++ pre, items ++ [i], suf', by simp, by simp, hfront.append hpre, .inr ?_⟩
    rw [List.length_cons, List.length_map] at hk
    omega

/-- A property of one of the last `k` events is found among the items. -/
theorem findSome {β : Type} {f : E → Option β} (h : Recent k es items)
    (hlate : ∀ pre e suf, es = pre ++ e :: suf → (f e).isSome = true → (∀ e' ∈ suf, f e' = none) → suf.length < k) :
    (items.filterMap Item.event?).reverse.findSome? f = es.reverse.findSome? f := by
  obtain ⟨pre, front, suf, rfl, rfl, hc, hk⟩ := h
  have hsuf : (suf.map Item.event).filterMap Item.event? = suf := by
    rw [List.filterMap_map]
    exact List.filterMap_some
  rw [List.filterMap_append, hsuf, List.reverse_append, List.reverse_append, List.findSome?_append, List.findSome?_append]
  cases hs : suf.reverse.findSome? f with
  | some b => rfl
  | none =>
    have hnone : ∀ e ∈ suf, f e = none := fun e he => List.findSome?_eq_none_iff.mp hs e (List.mem_reverse.mpr he)
    -- nothing before the last `k` events has the property either
    have hpre : ∀ e ∈ pre, f e = none := by
      refine fun e he => List.findSome?_eq_none_iff.mp ?_ e (List.mem_reverse.mpr he)
      rcases hk with rfl | hk
      · rfl
      · cases hp : pre.reverse.findSome? f with
        | none => rfl
        | some b =>
          obtain ⟨l₁, e, l₂, hsplit, hb, hl₁⟩ := List.findSome?_eq_some_iff.mp hp
          have hpre : pre = l₂.reverse ++ e :: l₁.reverse := by
            rw [← List.reverse_reverse pre, hsplit]
            simp
          have hlt := hlate l₂.reverse e (l₁.reverse ++ suf) (by rw [hpre]; simp) (by rw [hb]; rfl) fun e' he' => by
            rcases List.mem_append.mp he' with he' | he'
            · exact hl₁ e' (List.mem_reverse.mp he')
            · exact hnone e' he'
          rw [List.length_append] at hlt
          omega
    have hfront : ∀ e ∈ front.filterMap Item.event?, f e = none := fun e he => hpre e (hc.sublist.subset he)
    rw [List.findSome?_eq_none_iff.mpr fun e he => hpre e (List.mem_reverse.mp he),
      List.findSome?_eq_none_iff.mpr fun e he => hfront e (List.mem_reverse.mp he)]

end Recent

end Kokage.Lib

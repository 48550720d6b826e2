/-
  Kokage.Supervisor.Succession — memberships that share an id follow one another.

  An id is free for a new child once its membership is removed, and a follower that knows
  children by their id tells the memberships apart by lineage: what carries a lower one is
  late and is passed over. `Newest` is what makes that right: of one id, later snapshots and
  events never carry a lower lineage than earlier ones did.
-/

import Kokage.Supervisor.Readiness

namespace Kokage.Supervisor

open Kokage.Lib Ledger SupervisorRuntime

theorem mem_word {log : List ChildEvent} {id : String} {lineage : Nat} {k : ChildEventKind} :
    k ∈ word log id lineage ↔ ∃ e ∈ log, e.childId = id ∧ e.lineage = lineage ∧ e.kind = k := by
  unfold word
  simp [and_assoc]

theorem upTo_mono {log : List ChildEvent} {n n' : Nat} (h : n ≤ n') {id : String} {lineage : Nat} {k : ChildEventKind}
    (hk : k ∈ word (upTo log n) id lineage) : k ∈ word (upTo log n') id lineage := by
  obtain ⟨e, he, hmine⟩ := mem_word.mp hk
  obtain ⟨hin, hle⟩ := List.mem_filter.mp he
  have hle := of_decide_eq_true hle
  exact mem_word.mpr ⟨e, List.mem_filter.mpr ⟨hin, decide_eq_true (by omega)⟩, hmine⟩

theorem upTo_sub {log : List ChildEvent} {n : Nat} {id : String} {lineage : Nat} {k : ChildEventKind}
    (hk : k ∈ word (upTo log n) id lineage) : k ∈ word log id lineage := by
  obtain ⟨e, he, hmine⟩ := mem_word.mp hk
  exact mem_word.mpr ⟨e, (List.mem_filter.mp he).1, hmine⟩

namespace Ledger

variable {L L' : Ledger} {l : Label} {static : List (String × Nat)}

/-- What was told or shown of an id is not of a later membership than its present one. -/
structure Newest (L : Ledger) : Prop where
  told : ∀ e ∈ L.log, e.lineage < L.nextLineage ∧ ∀ k m, L.members.get k = some m → m.id = e.childId → e.lineage ≤ m.lineage
  rows : ∀ s ∈ L.published, ∀ c ∈ s.children,
    c.lineage < L.nextLineage ∧ ∀ k m, L.members.get k = some m → m.id = c.id → c.lineage ≤ m.lineage
  shown : ∀ s ∈ L.published, ∀ e ∈ L.log, e.seq ≤ s.lifecycleSeq → ∀ c ∈ s.children, c.id = e.childId → e.lineage ≤ c.lineage
  single : ∀ s ∈ L.published, ∀ c ∈ s.children, ∀ c' ∈ s.children, c.id = c'.id → c.lineage = c'.lineage
  follows : L.published.Pairwise fun s s' => ∀ c ∈ s.children, ∀ c' ∈ s'.children, c.id = c'.id → c.lineage ≤ c'.lineage

theorem Change.id_eq {key : ChildKey} {m m' : Member} (h : Change L l key m m') : m'.id = m.id := by
  cases h <;> rfl

/-- A lineage known of an id stays known of it: the members only change, or are new. -/
theorem step_older {id : String} {lineage : Nat} (hs : Step l L L') (hb : L.Books)
    (h : lineage < L.nextLineage ∧ ∀ k m, L.members.get k = some m → m.id = id → lineage ≤ m.lineage) :
    lineage < L'.nextLineage ∧ ∀ k m, L'.members.get k = some m → m.id = id → lineage ≤ m.lineage := by
  refine ⟨Nat.lt_of_lt_of_le h.1 (step_nextLineage hs), fun k m' hm' hid => ?_⟩
  rcases step_change hs hb hm' with ⟨m, hm, hc⟩ | hf
  · rw [hc.lineage]
    exact h.2 k m hm (hc.id_eq.symm.trans hid)
  · rw [hf.lineage_eq]
    exact Nat.le_of_lt h.1

/-- The row of a child in a snapshot of the ledger. -/
theorem shown_member {s : SupervisorSnapshot} {c : ChildSnapshot} (hrows : s.rows = L.rows) (hc : c ∈ s.children) :
    ∃ k m, L.members.get k = some m ∧ m.id = c.id ∧ m.lineage = c.lineage ∧ m.view = c.state := by
  have hrow : (c.id, c.lineage, c.generation, c.state) ∈ L.rows := hrows ▸ List.mem_map.mpr ⟨c, hc, rfl⟩
  obtain ⟨k, -, hk⟩ := List.mem_filterMap.mp hrow
  obtain ⟨m, hm, he⟩ := Option.map_eq_some_iff.mp hk
  simp only [Prod.mk.injEq] at he
  exact ⟨k, m, hm, he.1, he.2.1, he.2.2.2⟩

theorem Books.same_id (hb : L.Books) {k k' : ChildKey} {m m' : Member} (hm : L.members.get k = some m)
    (hm' : L.members.get k' = some m') (hid : m.id = m'.id) : m = m' := by
  have hk := (hb.byId_iff m.id k).mpr ⟨m, hm, rfl⟩
  rw [(hb.byId_iff m.id k').mpr ⟨m', hm', hid.symm⟩] at hk
  cases hk
  exact Option.some.inj (hm.symm.trans hm')

/-- An event is about the present membership of its id, or about one that has just left. -/
theorem step_event {e : ChildEvent} (hs : Step l L L') (hb : L.Books) (hlog : L'.log = L.log ++ [e]) :
    e.lineage < L'.nextLineage ∧ ∀ k m, L'.members.get k = some m → m.id = e.childId → e.lineage ≤ m.lineage := by
  have hb' := step_books hs hb
  -- the member that the event names is there afterwards
  have hnamed : ∀ {key : ChildKey} {m : Member} {d : LifecycleEventDraft} {kind : ChildEventKind} {n : Nat},
      L'.members.get key = some m → d.For m kind → L'.log = L.log ++ [d.at n] →
      e.lineage < L'.nextLineage ∧ ∀ k m, L'.members.get k = some m → m.id = e.childId → e.lineage ≤ m.lineage := by
    intro key m d kind n hm hd hlog'
    have he : e = d.at n := List.singleton_inj.mp (List.append_cancel_left (hlog.symm.trans hlog'))
    have hid : e.childId = m.id := he ▸ hd.childId_eq
    have hl : e.lineage = m.lineage := he ▸ hd.lineage_eq
    refine ⟨hl ▸ hb'.lineage_lt key m hm, fun k m' hm' hid' => ?_⟩
    exact Nat.le_of_eq (hl.trans (congrArg Member.lineage (hb'.same_id hm hm' (hid.symm.trans hid'.symm))))
  have hself : ∀ {L₁ : Ledger} {key : ChildKey} (m : Member), (L₁.put key m).members.get key = some m := by
    intro L₁ key m
    rw [get_put, if_pos rfl]
  have hno : L'.log = L.log → e.lineage < L'.nextLineage ∧
      ∀ k m, L'.members.get k = some m → m.id = e.childId → e.lineage ≤ m.lineage := by
    intro hsame
    rw [hsame] at hlog
    simp at hlog
  cases hs with
  | announced hget hd => exact hnamed hget hd rfl
  | added _ _ _ hd => exact hnamed (by exact Slab.get_insertAt_self ..) hd rfl
  | @spawnedReady _ key m task d _ _ _ _ _ _ hd =>
    exact @hnamed key (m.spawn task) d _ _ (Slab.get_insertAt_self ..) ⟨hd.1, hd.2, hd.3⟩ rfl
  | received _ _ _ _ _ hd => exact hnamed (hself _) ⟨hd.1, hd.2, hd.3⟩ rfl
  | exited _ _ hd => exact hnamed (hself _) ⟨hd.1, hd.2, hd.3⟩ rfl
  | scheduled hget _ hd => exact hnamed hget hd rfl
  | @removed _ key m d hget hd =>
    have he : e = d.at (L.seq + 1) := List.singleton_inj.mp (List.append_cancel_left hlog.symm)
    have hid : e.childId = m.id := he ▸ hd.childId_eq
    have hl : e.lineage = m.lineage := he ▸ hd.lineage_eq
    refine ⟨hl ▸ hb.lineage_lt key m hget, fun k m' hm' hid' => ?_⟩
    have hm' : (L.members.remove key).get k = some m' := hm'
    rw [Slab.get_remove] at hm'
    split at hm'
    · cases hm'
    · exact Nat.le_of_eq (hl.trans (congrArg Member.lineage (hb.same_id hget hm' (hid.symm.trans hid'.symm))))
  | _ => exact hno rfl

theorem step_newest (hs : Step l L L') (hb : L.Books) (hrec : L.Recorded static) (h : L.Newest) : L'.Newest := by
  have htold : ∀ e ∈ L.log, e.lineage < L'.nextLineage ∧
      ∀ k m, L'.members.get k = some m → m.id = e.childId → e.lineage ≤ m.lineage := fun e he => step_older hs hb (h.told e he)
  have hrows : ∀ s ∈ L.published, ∀ c ∈ s.children, c.lineage < L'.nextLineage ∧
      ∀ k m, L'.members.get k = some m → m.id = c.id → c.lineage ≤ m.lineage := fun s hs' c hc => step_older hs hb (h.rows s hs' c hc)
  rcases step_log hs with ⟨hlog, -, hpub⟩ | ⟨s, hseq, hsrows, rfl⟩ | ⟨e, he, hlog, -, hpub⟩
  · refine ⟨?_, ?_, ?_, ?_, ?_⟩
    · rw [hlog]
      exact htold
    · rw [hpub]
      exact hrows
    · rw [hpub, hlog]
      exact h.shown
    · rw [hpub]
      exact h.single
    · rw [hpub]
      exact h.follows
  · -- a snapshot shows the present memberships
    have hnew : ∀ {s'}, s' ∈ L.published ++ [s] → s' ∈ L.published ∨ s' = s := fun hs' =>
      (List.mem_append.mp hs').imp_right List.mem_singleton.mp
    refine ⟨h.told, fun s' hs' c hc => ?_, fun s' hs' e he hle c hc hid => ?_, fun s' hs' c hc c' hc' hid => ?_,
      List.pairwise_append.mpr ⟨h.follows, List.pairwise_singleton .., fun s₁ hs₁ s₂ hs₂ c hc c' hc' hid => ?_⟩⟩
    · rcases hnew hs' with hs' | rfl
      · exact h.rows s' hs' c hc
      · obtain ⟨k, m, hm, hid, hl, -⟩ := shown_member hsrows hc
        refine ⟨hl ▸ hb.lineage_lt k m hm, fun k' m' hm' hid' => ?_⟩
        exact Nat.le_of_eq (hl.symm.trans (congrArg Member.lineage (hb.same_id hm hm' (hid.trans hid'.symm))))
    · rcases hnew hs' with hs' | rfl
      · exact h.shown s' hs' e he hle c hc hid
      · obtain ⟨k, m, hm, hmid, hl, -⟩ := shown_member hsrows hc
        rw [← hl]
        exact (h.told e he).2 k m hm (hmid.trans hid)
    · rcases hnew hs' with hs' | rfl
      · exact h.single s' hs' c hc c' hc' hid
      · obtain ⟨k, m, hm, hmid, hl, -⟩ := shown_member hsrows hc
        obtain ⟨k', m', hm', hmid', hl', -⟩ := shown_member hsrows hc'
        rw [← hl, ← hl', hb.same_id hm hm' (hmid.trans (hid.trans hmid'.symm))]
    · obtain rfl := List.mem_singleton.mp hs₂
      obtain ⟨k, m, hm, hmid, hl, -⟩ := shown_member hsrows hc'
      rw [← hl]
      exact (h.rows s₁ hs₁ c hc).2 k m hm (hmid.trans hid.symm)
  · refine ⟨fun e' he' => ?_, ?_, fun s hs' e' he' hle => ?_, ?_, ?_⟩
    · rw [hlog] at he'
      rcases List.mem_append.mp he' with he' | he'
      · exact htold e' he'
      · rw [List.mem_singleton.mp he']
        exact step_event hs hb hlog
    · rw [hpub]
      exact hrows
    · rw [hpub] at hs'
      rw [hlog] at he'
      rcases List.mem_append.mp he' with he' | he'
      · exact h.shown s hs' e' he' hle
      · have := (hrec.shown s hs').1
        rw [List.mem_singleton.mp he'] at hle
        omega
    · rw [hpub]
      exact h.single
    · rw [hpub]
      exact h.follows

end Ledger

theorem run_newest (c : SupervisorConfig) (b : Binding) (inputs : List Input) : (run (start c b) inputs).rt.ledger.Newest := by
  have h : (run (start c b) inputs).rt.ledger.Recorded (c.static b) ∧ (run (start c b) inputs).rt.ledger.Newest := by
    refine run_keeps_all (I := fun L => L.Recorded (c.static b) ∧ L.Newest) c b (fun hblank => ⟨blank_recorded c b, ?_⟩)
      (fun hs hb h => ⟨step_recorded hs hb h.1, step_newest hs hb h.1 h.2⟩) inputs
    have hlog := hblank.log_eq
    have hpub := hblank.published_eq
    refine ⟨?_, ?_, ?_, ?_, ?_⟩
    · rw [hlog]
      intro e he
      cases he
    · rw [hpub]
      intro s hs
      cases hs
    · rw [hpub]
      intro s hs
      cases hs
    · rw [hpub]
      intro s hs
      cases hs
    · rw [hpub]
      exact List.Pairwise.nil
  exact h.2

end Kokage.Supervisor

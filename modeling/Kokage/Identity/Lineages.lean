/-
  Kokage.Identity.Lineages — lineages across the incarnations of one stable identity
  (`supervisor/handle.rs`: `bind_prepared`; `runtime/supervision.rs`:
  `SupervisorRuntime::new`; `supervisor/lifecycle.rs`: `next_lineage`, `observe_lineage`).

  `bind_prepared` mints a lineage for every static child and publishes them in the shared
  snapshot; `SupervisorRuntime::new` reads them back from there later, on its own task.

  - `lineages_unshared`: if every runtime reads the snapshot before a replacement has
    bound, each static child has the lineage its own bind minted, and no two memberships
    of any incarnations share one.
  - `lineages_shared`: a runtime that starts after its replacement has bound takes the
    replacement's lineages.
-/

import Kokage.Identity.Fence
import Mathlib.Data.List.Nodup

namespace Kokage.Identity

open Kokage.Lib Kokage.Supervisor

/-- The lineages an incarnation has taken from the allocator. -/
def Incarnation.issued (inc : Incarnation) : List Nat :=
  inc.minted.map (·.2) ++ (inc.members.filter (!·.static)).map (·.lineage)

/-- The memberships of the static children, as the bind minted them. -/
def Incarnation.statics (inc : Incarnation) : List Membership := inc.minted.map fun (id, l) => ⟨id, l, true⟩

def pairs (rows : List ChildSnapshot) : List (String × Nat) := rows.map fun c => (c.id, c.lineage)

/-- Every membership so far: the static ones as minted, then the added ones. -/
def Incarnation.Entered (inc : Incarnation) : Prop :=
  ∃ added, inc.members = inc.statics ++ added ∧ ∀ m ∈ added, m.static = false

/-- Where an incarnation is, the lineages it knows are the ones it minted. -/
def Incarnation.OwnAt (children : List ChildDefinition) (inc : Incarnation) : Stage → Prop
  | .binding todo rows _ =>
    inc.minted.map (·.1) ++ todo.map (·.id) = children.map (·.id) ∧ pairs rows = inc.minted ∧ inc.members = []
  | .bound => inc.minted.map (·.1) = children.map (·.id) ∧ inc.members = []
  | .reading lineages | .reconciled lineages _ =>
    inc.minted.map (·.1) = children.map (·.id) ∧ lineages = inc.minted ∧ inc.members = []
  | .running _ => inc.Entered
  | .ended => inc.members = [] ∨ inc.Entered

theorem Incarnation.Entered.lineages {inc : Incarnation} (h : inc.Entered) : inc.members.map (·.lineage) = inc.issued := by
  obtain ⟨added, hm, ha⟩ := h
  have hs : inc.statics.filter (!·.static) = [] := by
    rw [List.filter_eq_nil_iff]
    intro m hm
    obtain ⟨p, -, rfl⟩ := List.mem_map.mp hm
    simp
  have hf : added.filter (!·.static) = added := List.filter_eq_self.mpr fun m hm => by simp [ha m hm]
  rw [issued, hm, List.filter_append, hs, hf, List.nil_append, List.map_append]
  simp [statics, Function.comp_def]

namespace World

variable {d : Declaration} {s s' : World} {a : Action} {i j : Nat} {inc inc' x : Incarnation} {rt : Runtime}

structure Minted (d : Declaration) (s : World) : Prop where
  bounded : ∀ (i : Nat) (inc : Incarnation), s.incarnations[i]? = some inc → ∀ l ∈ inc.issued, l < s.channels.nextLineage
  nodup : ∀ (i : Nat) (inc : Incarnation), s.incarnations[i]? = some inc → inc.issued.Nodup
  disjoint : ∀ (i j : Nat) (inc inc' : Incarnation), s.incarnations[i]? = some inc → s.incarnations[j]? = some inc' →
    ∀ l ∈ inc.issued, l ∈ inc'.issued → i = j
  own : ∀ (i : Nat) (inc : Incarnation), s.incarnations[i]? = some inc → inc.OwnAt (d.children i) inc.stage
  named : ∀ i, s.channels.binding.names i = true → s.channels.attached.bindingEpoch = i
  published : ∀ (inc : Incarnation), s.incarnations[s.channels.attached.bindingEpoch]? = some inc →
    inc.stage = .bound → pairs s.channels.snapshot.children = inc.minted

theorem start_minted : (start d).Minted d := by
  constructor <;> simp [start, StableBindingState.new, StableBindingState.names]

/-- A step that binds nobody and publishes nothing. -/
structure Steady (s s' : World) : Prop where
  epoch : s'.channels.attached.bindingEpoch = s.channels.attached.bindingEpoch
  named : ∀ i, s'.channels.binding.names i = true → s.channels.binding.names i = true
  snapshot : s'.channels.snapshot = s.channels.snapshot
  next : s.channels.nextLineage ≤ s'.channels.nextLineage

theorem Minted.of_incarnations (hm : s.Minted d) (hs : Steady s s') (hset : s'.incarnations = s.incarnations) :
    s'.Minted d where
  bounded i inc h l hl := Nat.lt_of_lt_of_le (hm.bounded i inc (hset ▸ h) l hl) hs.next
  nodup i inc h := hm.nodup i inc (hset ▸ h)
  disjoint i j inc inc' h h' := hm.disjoint i j inc inc' (hset ▸ h) (hset ▸ h')
  own i inc h := hm.own i inc (hset ▸ h)
  named i h := hs.epoch.trans (hm.named i (hs.named i h))
  published inc h hb := by
    rw [hs.snapshot]
    exact hm.published inc (by rw [← hs.epoch, ← hset]; exact h) hb

theorem Minted.update (hm : s.Minted d) (hs : Steady s s') (hinc : s.incarnations[i]? = some inc)
    (hset : s'.incarnations = s.incarnations.set i inc')
    (hissued : ∀ l ∈ inc'.issued, l ∈ inc.issued ∨ (s.channels.nextLineage ≤ l ∧ l < s'.channels.nextLineage))
    (hnodup : inc'.issued.Nodup) (hown : inc'.OwnAt (d.children i) inc'.stage) (hb : inc'.stage ≠ .bound) :
    s'.Minted d where
  bounded j x h l hl := by
    rw [hset, set_get hinc] at h
    rcases h with ⟨rfl, rfl⟩ | ⟨-, h⟩
    · rcases hissued l hl with hl | ⟨-, hl⟩
      · exact Nat.lt_of_lt_of_le (hm.bounded j inc hinc l hl) hs.next
      · exact hl
    · exact Nat.lt_of_lt_of_le (hm.bounded j x h l hl) hs.next
  nodup j x h := by
    rw [hset, set_get hinc] at h
    rcases h with ⟨rfl, rfl⟩ | ⟨-, h⟩
    · exact hnodup
    · exact hm.nodup j x h
  disjoint j k x y hx hy l hl hl' := by
    rw [hset, set_get hinc] at hx hy
    rcases hx with ⟨rfl, rfl⟩ | ⟨hne, hx⟩
    · rcases hy with ⟨rfl, -⟩ | ⟨-, hy⟩
      · rfl
      · rcases hissued l hl with hl | ⟨hl, -⟩
        · exact hm.disjoint _ _ _ _ hinc hy l hl hl'
        · exact absurd (hm.bounded k y hy l hl') (Nat.not_lt.mpr hl)
    · rcases hy with ⟨rfl, rfl⟩ | ⟨-, hy⟩
      · rcases hissued l hl' with hl' | ⟨hl', -⟩
        · exact hm.disjoint _ _ _ _ hx hinc l hl hl'
        · exact absurd (hm.bounded j x hx l hl) (Nat.not_lt.mpr hl')
      · exact hm.disjoint j k x y hx hy l hl hl'
  own j x h := by
    rw [hset, set_get hinc] at h
    rcases h with ⟨rfl, rfl⟩ | ⟨-, h⟩
    · exact hown
    · exact hm.own j x h
  named j h := hs.epoch.trans (hm.named j (hs.named j h))
  published x h hx := by
    rw [hset, set_get hinc, hs.epoch] at h
    rw [hs.snapshot]
    rcases h with ⟨-, rfl⟩ | ⟨-, h⟩
    · exact absurd hx hb
    · exact hm.published x h hx

theorem Minted.goes (hm : s.Minted d) (hs : Steady s s') (hinc : s.incarnations[i]? = some inc)
    (hset : s'.incarnations = s.incarnations.set i inc') (hissued : inc'.issued = inc.issued)
    (hown : inc'.OwnAt (d.children i) inc'.stage) (hb : inc'.stage ≠ .bound) : s'.Minted d :=
  hm.update hs hinc hset (fun _ hl => .inl (hissued ▸ hl)) (hissued ▸ hm.nodup i inc hinc) hown hb

theorem bind_minted (hm : s.Minted d) (g : Nat) : (s.bind d g).Minted d := by
  have hget : ∀ {j : Nat} {x : Incarnation}, (s.bind d g).incarnations[j]? = some x → s.incarnations[j]? = some x ∨
      (x.issued = [] ∧ x.OwnAt (d.children j) x.stage ∧ x.stage ≠ .bound) := by
    intro j x h
    simp only [bind, List.getElem?_append] at h
    split at h
    · exact .inl h
    · obtain ⟨hj, rfl⟩ := List.getElem?_eq_some_iff.mp h
      simp only [List.length_singleton] at hj
      obtain rfl : j = s.incarnations.length := by omega
      simp [Incarnation.issued, Incarnation.OwnAt, pairs]
  constructor
  case bounded =>
    intro j x h l hl
    rcases hget h with h | ⟨hx, -⟩
    · exact hm.bounded j x h l hl
    · simp [hx] at hl
  case nodup =>
    intro j x h
    rcases hget h with h | ⟨hx, -⟩
    · exact hm.nodup j x h
    · simp [hx]
  case disjoint =>
    intro j k x y hx hy l hl hl'
    rcases hget hx with hx | ⟨hx, -⟩
    · rcases hget hy with hy | ⟨hy, -⟩
      · exact hm.disjoint j k x y hx hy l hl hl'
      · simp [hy] at hl'
    · simp [hx] at hl
  case own =>
    intro j x h
    rcases hget h with h | ⟨-, hx, -⟩
    · exact hm.own j x h
    · exact hx
  case named => exact hm.named
  case published =>
    intro x h hb
    rcases hget h with h | ⟨-, -, hx⟩
    · exact hm.published x h hb
    · exact absurd hb hx

theorem mint_minted {child : ChildDefinition} {todo : List ChildDefinition} {rows : List ChildSnapshot}
    {prepared : List AttachedChild} (hm : s.Minted d) (hinc : s.incarnations[i]? = some inc)
    (hst : inc.stage = .binding (child :: todo) rows prepared) :
    (s.mint i inc child todo rows prepared).Minted d := by
  have hown := hm.own i inc hinc
  simp only [hst, Incarnation.OwnAt] at hown
  obtain ⟨hids, hrows, hmem⟩ := hown
  have hbound := hm.bounded i inc hinc
  have hnodup := hm.nodup i inc hinc
  simp only [Incarnation.issued, hmem, List.filter_nil, List.map_nil, List.append_nil] at hbound hnodup
  refine hm.update ⟨rfl, fun _ h => h, rfl, Nat.le_succ _⟩ hinc rfl ?_ ?_ ?_ (by simp)
  · intro l hl
    simp only [Incarnation.issued, hmem, List.filter_nil, List.map_nil, List.append_nil, List.map_append, List.map_cons,
      List.mem_append, List.mem_singleton] at hl ⊢
    rcases hl with hl | rfl
    · exact .inl hl
    · exact .inr ⟨Nat.le_refl _, Nat.lt_succ_self _⟩
  · simp only [Incarnation.issued, hmem, List.filter_nil, List.map_nil, List.append_nil, List.map_append, List.map_cons]
    refine List.nodup_append.mpr ⟨hnodup, by simp, ?_⟩
    intro a ha b hb
    have := hbound a ha
    simp only [List.mem_singleton] at hb
    omega
  · refine ⟨?_, ?_, hmem⟩
    · simpa using hids
    · simp [pairs, ← hrows, initialRow]

theorem commit_minted {rows : List ChildSnapshot} {prepared : List AttachedChild} (hm : s.Minted d)
    (hinc : s.incarnations[i]? = some inc) (hst : inc.stage = .binding [] rows prepared) :
    (s.commit d i inc rows prepared).Minted d := by
  have hown := hm.own i inc hinc
  simp only [hst, Incarnation.OwnAt, List.map_nil, List.append_nil] at hown
  obtain ⟨hids, hrows, hmem⟩ := hown
  unfold commit
  split
  case isFalse => exact hm.goes ⟨rfl, fun _ h => h, rfl, Nat.le_refl _⟩ hinc rfl rfl (.inl hmem) (by simp)
  case isTrue =>
  -- all but the binding and the snapshot is as if the incarnation had only left the lock
  have hgone : Minted d { s with incarnations := s.incarnations.set i { inc with stage := .ended } } :=
    hm.goes ⟨rfl, fun _ h => h, rfl, Nat.le_refl _⟩ hinc rfl rfl (.inl hmem) (by simp)
  have hback : ∀ {j : Nat} {x : Incarnation},
      (s.incarnations.set i { inc with stage := .bound })[j]? = some x →
      ∃ y, (s.incarnations.set i { inc with stage := .ended })[j]? = some y ∧ y.issued = x.issued := by
    intro j x h
    rcases (set_get hinc).mp h with ⟨rfl, rfl⟩ | ⟨hne, h⟩
    · exact ⟨_, (set_get hinc).mpr (.inl ⟨rfl, rfl⟩), rfl⟩
    · exact ⟨x, (set_get hinc).mpr (.inr ⟨hne, h⟩), rfl⟩
  constructor
  case bounded =>
    intro j x h l hl
    obtain ⟨y, hy, he⟩ := hback h
    exact hgone.bounded j y hy l (he ▸ hl)
  case nodup =>
    intro j x h
    obtain ⟨y, hy, he⟩ := hback h
    exact he ▸ hgone.nodup j y hy
  case disjoint =>
    intro j k x x' h h' l hl hl'
    obtain ⟨y, hy, he⟩ := hback h
    obtain ⟨y', hy', he'⟩ := hback h'
    exact hgone.disjoint j k y y' hy hy' l (he ▸ hl) (he' ▸ hl')
  case own =>
    intro j x h
    rcases (set_get hinc).mp h with ⟨rfl, rfl⟩ | ⟨-, h⟩
    · exact ⟨hids, hmem⟩
    · exact hm.own j x h
  case named =>
    intro j h
    simpa [StableBindingState.commit, StableBindingState.names] using h
  case published =>
    intro x h _
    rcases (set_get hinc).mp h with ⟨-, rfl⟩ | ⟨hne, -⟩
    · exact hrows
    · exact absurd rfl hne

/-! ## `SupervisorRuntime::new` -/

theorem lookup_of_mem {ls : List (String × Nat)} {p : String × Nat} (h : p ∈ ls) (hn : (ls.map (·.1)).Nodup) :
    ls.lookup p.1 = some p.2 := by
  induction ls with
  | nil => cases h
  | cons q ls ih =>
    simp only [List.map_cons, List.nodup_cons] at hn
    rcases List.mem_cons.mp h with rfl | h
    · exact List.lookup_cons_self
    · have hne : p.1 ≠ q.1 := fun e => hn.1 (e ▸ List.mem_map_of_mem h)
      rw [List.lookup_cons, beq_eq_false_iff_ne.mpr hne]
      exact ih h hn.2

theorem staticEntries_pairs {lineages : List (String × Nat)} (identities : NestedChannels) :
    ∀ (cs : List ChildDefinition) (ls : List (String × Nat)), ls.map (·.1) = cs.map (·.id) →
      (∀ p ∈ ls, lineages.reverse.lookup p.1 = some p.2) →
      ∃ es, staticEntries lineages identities cs = some es ∧ es.map (fun e => (e.row.id, e.row.lineage)) = ls := by
  intro cs
  induction cs with
  | nil =>
    intro ls h _
    obtain rfl : ls = [] := by simpa using h
    exact ⟨[], rfl, rfl⟩
  | cons c cs ih =>
    intro ls h hl
    cases ls with
    | nil => simp at h
    | cons p ls =>
      simp only [List.map_cons, List.cons.injEq] at h
      obtain ⟨es, he, hes⟩ := ih ls h.2 fun q hq => hl q (List.mem_cons_of_mem _ hq)
      have hp := hl p List.mem_cons_self
      rw [h.1] at hp
      refine ⟨_, by simp only [staticEntries, hp, he]; rfl, ?_⟩
      rw [List.map_cons, hes]
      simp [initialRow, ← h.1]

theorem create_minted {lineages : List (String × Nat)} {identities : NestedChannels} (hm : s.Minted d)
    (hinc : s.incarnations[i]? = some inc) (hst : inc.stage = .reconciled lineages identities) :
    (s.create d i inc lineages identities).Minted d := by
  have hown := hm.own i inc hinc
  simp only [hst, Incarnation.OwnAt] at hown
  obtain ⟨hids, rfl, hmem⟩ := hown
  have hkeys : (inc.minted.reverse.map (·.1)).Nodup := by
    rw [List.map_reverse, hids]
    exact List.nodup_reverse.mpr (d.nodup i)
  obtain ⟨es, he, hes⟩ := staticEntries_pairs identities (d.children i) inc.minted hids fun p hp =>
    lookup_of_mem (List.mem_reverse.mpr hp) hkeys
  have hstat : es.map (fun e => (⟨e.row.id, e.row.lineage, true⟩ : Membership)) = inc.statics := by
    rw [Incarnation.statics, ← hes, List.map_map]
    rfl
  have hnext : ∀ (es : List Entry) (n : Nat), n ≤ es.foldl (fun next e => max next (e.row.lineage + 1)) n := by
    intro es
    induction es with
    | nil => exact fun n => Nat.le_refl n
    | cons e es ih => exact fun n => Nat.le_trans (Nat.le_max_left ..) (ih _)
  rw [create, he]
  refine hm.goes ⟨rfl, fun _ h => h, rfl, hnext es _⟩ hinc rfl ?_ ⟨[], ?_, by simp⟩ (by simp)
  · simp only [Incarnation.issued, hstat, hmem]
    congr 1
    rw [List.filter_nil, List.filter_eq_nil_iff.mpr]
    intro m h
    obtain ⟨p, -, rfl⟩ := List.mem_map.mp h
    simp
  · simp [hstat, Incarnation.statics]

theorem addChild_minted {child : ChildDefinition} (hm : s.Minted d) (hinc : s.incarnations[i]? = some inc)
    (hst : inc.stage = .running rt) : (s.addChild i inc rt child).Minted d := by
  have hown := hm.own i inc hinc
  simp only [hst, Incarnation.OwnAt] at hown
  obtain ⟨added, hmem, hadd⟩ := hown
  have hissued : Incarnation.issued { inc with
      members := inc.members ++ [⟨child.id, s.channels.nextLineage, false⟩] } =
      inc.issued ++ [s.channels.nextLineage] := by
    simp [Incarnation.issued]
  refine hm.update ⟨rfl, fun _ h => h, rfl, Nat.le_succ _⟩ hinc rfl ?_ ?_ ?_ (by simp)
  · intro l hl
    rcases List.mem_append.mp (hissued ▸ hl) with hl | hl
    · exact .inl hl
    · simp only [List.mem_singleton] at hl
      exact .inr ⟨by omega, by simp only [addChild]; omega⟩
  · show (Incarnation.issued { inc with members := _ }).Nodup
    rw [hissued]
    refine List.nodup_append.mpr ⟨hm.nodup i inc hinc, by simp, ?_⟩
    intro a ha b hb
    have := hm.bounded i inc hinc a ha
    simp only [List.mem_singleton] at hb
    omega
  · refine ⟨added ++ [⟨child.id, s.channels.nextLineage, false⟩], ?_, ?_⟩
    · simp [hmem, Incarnation.statics]
    · intro m h
      rcases List.mem_append.mp h with h | h
      · exact hadd m h
      · simp only [List.mem_singleton] at h
        rw [h]

theorem running_minted (hm : s.Minted d) (hs : Steady s s') (hinc : s.incarnations[i]? = some inc)
    (hst : inc.stage = .running rt) {rt' : Runtime} (hset : s'.incarnations =
      s.incarnations.set i { inc with stage := .running rt' }) : s'.Minted d := by
  have hown := hm.own i inc hinc
  simp only [hst, Incarnation.OwnAt] at hown
  exact hm.goes hs hinc hset rfl hown (by simp)

theorem publishSnapshot_minted {v : SupervisorSnapshot} (hm : s.Minted d) (hinc : s.incarnations[i]? = some inc)
    (hst : inc.stage = .running rt) :
    ((s.setRuntime i inc { rt with view := none }).publishSnapshot i v).Minted d := by
  have hq : (s.setRuntime i inc { rt with view := none }).Minted d :=
    running_minted hm ⟨rfl, fun _ h => h, rfl, Nat.le_refl _⟩ hinc hst rfl
  unfold publishSnapshot
  split
  case isFalse => exact hq
  case isTrue ho =>
  split
  · refine { hq with published := fun x hx hb => ?_ }
    -- the owner of the binding is the one the view names, and it runs
    simp only [StableBindingState.owned, Bool.and_eq_true] at ho
    have he : s.channels.attached.bindingEpoch = i := hm.named i ho.2
    rcases (set_get hinc).mp hx with ⟨-, rfl⟩ | ⟨hne, -⟩
    · cases hb
    · exact absurd he hne
  · exact { hq with }

theorem dropGuard_minted (hm : s.Minted d) (i : Nat) : (s.dropGuard i).Minted d := by
  unfold dropGuard
  split
  case isFalse => exact hm
  case isTrue hn =>
  refine hm.of_incarnations ⟨?_, fun j h => ?_, rfl, Nat.le_refl _⟩ rfl
  · simp only [AttachedChildrenView.invalidate]
    split <;> rfl
  · simp only [StableBindingState.release, hn, if_true] at h
    simp [StableBindingState.names] at h

/-! ## Runs -/

/-- A runtime reads the snapshot while its own bind is the latest. -/
def readsOwn (s : World) : Action → Bool
  | .readLineages i => s.channels.attached.bindingEpoch = i
  | _ => true

theorem step_minted (hm : s.Minted d) (hk : s.readsOwn a = true) (h : step d s a = some s') : s'.Minted d := by
  cases step_moves h with
  | refused => exact hm
  | bind g => exact bind_minted hm g
  | mint hinc hst => exact mint_minted hm hinc hst
  | commit hinc hst => exact commit_minted hm hinc hst
  | readLineages hinc hst =>
    have hown := hm.own _ _ hinc
    simp only [hst, Incarnation.OwnAt] at hown
    simp only [readsOwn, decide_eq_true_eq] at hk
    have hpub := hm.published _ (hk ▸ hinc) hst
    exact hm.goes ⟨rfl, fun _ h => h, rfl, Nat.le_refl _⟩ hinc rfl rfl ⟨hown.1, hpub, hown.2⟩ (by simp)
  | reconcile hinc hst =>
    have hown := hm.own _ _ hinc
    simp only [hst, Incarnation.OwnAt] at hown
    exact hm.goes ⟨rfl, fun _ h => h, rfl, Nat.le_refl _⟩ hinc rfl rfl hown (by simp)
  | create hinc hst => exact create_minted hm hinc hst
  | work hinc hst | stop _ hinc hst | restart hinc hst | insertNested hinc hst | viewSnapshot hinc hst =>
    exact running_minted hm ⟨rfl, fun _ h => h, rfl, Nat.le_refl _⟩ hinc hst rfl
  | emit => exact hm.of_incarnations ⟨rfl, fun _ h => h, rfl, Nat.le_refl _⟩ rfl
  | addChild hinc hst => exact addChild_minted hm hinc hst
  | @remove i inc rt id e hinc hst =>
    rcases remove_cases s i inc rt id e with h | ⟨-, nested, closed, h⟩
    · rw [h]
      exact running_minted hm ⟨rfl, fun _ h => h, rfl, Nat.le_refl _⟩ hinc hst rfl
    · rw [h]
      exact running_minted hm ⟨rfl, fun _ h => h, rfl, Nat.le_refl _⟩ hinc hst rfl
  | publishView | terminalView | terminalSnapshot | terminalCascade =>
    exact hm.of_incarnations ⟨rfl, fun _ h => h, rfl, Nat.le_refl _⟩ rfl
  | publishNoView => exact hm
  | publishSnapshot _ hinc hst => exact publishSnapshot_minted hm hinc hst
  | finish hinc hst =>
    have hown := hm.own _ _ hinc
    refine hm.goes ⟨rfl, fun _ h => h, rfl, Nat.le_refl _⟩ hinc rfl rfl ?_ (by simp)
    revert hown
    cases hs : Incarnation.stage _ with
    | binding => exact absurd hs (hst _ _ _)
    | bound => exact fun hown => .inl hown.2
    | reading => exact fun hown => .inl hown.2.2
    | reconciled => exact fun hown => .inl hown.2.2
    | running => exact fun hown => .inr hown
    | ended => exact id
  | dropGuard => exact dropGuard_minted hm _
  | terminalBinding =>
    refine hm.of_incarnations ⟨rfl, fun _ h => ?_, rfl, Nat.le_refl _⟩ rfl
    simp [StableBindingState.makeTerminal, StableBindingState.names] at h
  | hide =>
    refine hm.of_incarnations ⟨?_, fun _ h => h, rfl, Nat.le_refl _⟩ rfl
    simp only [AttachedChildrenView.invalidate]
    split <;> rfl

/-- The memberships of all incarnations, past and present. -/
structure Unshared (s : World) : Prop where
  /-- A runtime uses for a static child the lineage its own bind minted. -/
  own : ∀ (i : Nat) (inc : Incarnation), s.incarnations[i]? = some inc → ∀ m ∈ inc.members, m.static = true →
    (m.id, m.lineage) ∈ inc.minted
  /-- No two memberships share a lineage. -/
  distinct : ∀ (i j p q : Nat) (inc inc' : Incarnation) (m m' : Membership), s.incarnations[i]? = some inc →
    s.incarnations[j]? = some inc' → inc.members[p]? = some m → inc'.members[q]? = some m' →
    m.lineage = m'.lineage → i = j ∧ p = q

theorem Minted.entered (hm : s.Minted d) (hinc : s.incarnations[i]? = some inc) (h : inc.members ≠ []) :
    inc.Entered := by
  have hown := hm.own i inc hinc
  revert hown
  cases inc.stage with
  | binding => exact fun hown => absurd hown.2.2 h
  | bound => exact fun hown => absurd hown.2 h
  | reading => exact fun hown => absurd hown.2.2 h
  | reconciled => exact fun hown => absurd hown.2.2 h
  | running => exact id
  | ended => exact fun hown => hown.resolve_left h

theorem Minted.issued_at (hm : s.Minted d) (hinc : s.incarnations[i]? = some inc) {p : Nat} {m : Membership}
    (h : inc.members[p]? = some m) : inc.issued[p]? = some m.lineage := by
  have he := hm.entered hinc (by intro e; simp [e] at h)
  rw [← he.lineages, List.getElem?_map, h]
  rfl

theorem Minted.unshared (hm : s.Minted d) : s.Unshared where
  own i inc hinc m h hs := by
    obtain ⟨added, hmem, hadd⟩ := hm.entered hinc (List.ne_nil_of_mem h)
    rcases List.mem_append.mp (hmem ▸ h) with h | h
    · obtain ⟨p, hp, rfl⟩ := List.mem_map.mp h
      exact hp
    · simp [hadd m h] at hs
  distinct i j p q inc inc' m m' hinc hinc' hp hq hl := by
    have hp := hm.issued_at hinc hp
    have hq := hm.issued_at hinc' hq
    obtain rfl : i = j :=
      hm.disjoint i j inc inc' hinc hinc' m.lineage (List.mem_of_getElem? hp) (hl ▸ List.mem_of_getElem? hq)
    obtain rfl : inc = inc' := by simpa [hinc] using hinc'
    refine ⟨rfl, (List.getElem?_inj (List.getElem?_eq_some_iff.mp hp).1 (hm.nodup i inc hinc)).mp ?_⟩
    rw [hp, hq, hl]

/-- In every run in which no replacement binds between an incarnation's bind and the read
    of its `SupervisorRuntime::new`, lineages are never shared. -/
theorem lineages_unshared (d : Declaration) (s : World)
    (h : Reach (within (fun s a => s.readsOwn a = true) (step d)) (start d) s) : s.Unshared := by
  refine (h.invariant start_minted fun s a s' hm hs => ?_).unshared
  obtain ⟨hk, hs⟩ := within_eq_some.mp hs
  exact step_minted hm hk hs

/-- A nested ordered scope with one task. -/
def solo : Declaration where
  kind := .ordered
  strategy := .oneForOne
  root := false
  children _ := [{ id := "a" }]
  nodup _ := by simp

theorem lineages_unshared_replaced : ∃ s, replay (within (fun s a => s.readsOwn a = true) (step solo)) (start solo)
    [.bind 0, .mint 0, .commit 0, .readLineages 0, .reconcile 0, .create 0, .dropGuard 0, .bind 0, .mint 1,
      .commit 1, .readLineages 1, .reconcile 1, .create 1] = some s ∧ s.Unshared := by
  have hs : replay (within (fun s a => s.readsOwn a = true) (step solo)) (start solo)
    [.bind 0, .mint 0, .commit 0, .readLineages 0, .reconcile 0, .create 0, .dropGuard 0, .bind 0, .mint 1,
      .commit 1, .readLineages 1, .reconcile 1, .create 1] = some _ := rfl
  exact ⟨_, hs, lineages_unshared solo _ (Reach.of_replay hs)⟩

/-- The runtime of the first incarnation starts after its replacement has bound: both run
    their task `a` under the lineage the replacement minted. -/
theorem lineages_shared : ∃ s, Reach (step solo) (start solo) s ∧ ¬s.Unshared := by
  have hs : replay (step solo) (start solo)
    [.bind 0, .mint 0, .commit 0, .dropGuard 0, .bind 0, .mint 1, .commit 1, .readLineages 1, .reconcile 1,
      .create 1, .readLineages 0, .reconcile 0, .create 0] = some _ := rfl
  refine ⟨_, Reach.of_replay hs, fun h => ?_⟩
  have := (h.distinct 0 1 0 0 _ _ _ _ rfl rfl rfl rfl rfl).1
  cases this

end World

/-! ## The first bind -/

namespace World

variable {d : Declaration} {s s' : World} {a : Action} {i : Nat} {inc inc' : Incarnation}

/-- The ids of the first incarnation's static children with their positions. -/
def positions (d : Declaration) : List (String × Nat) := ((d.children 0).map (·.id)).zipIdx

/-- While the first incarnation is inside `bind_prepared` nobody else takes a lineage. -/
structure Positional (d : Declaration) (s : World) : Prop where
  unbound : s.incarnations = [] → s.channels.nextLineage = 0
  binding : ∀ (inc : Incarnation) (todo : List ChildDefinition) (rows : List ChildSnapshot)
    (prepared : List AttachedChild), s.incarnations[0]? = some inc → inc.stage = .binding todo rows prepared →
    s.lock.isSome = true ∧ s.incarnations.length = 1 ∧ s.channels.nextLineage = inc.minted.length ∧
      inc.minted ++ (todo.map (·.id)).zipIdx inc.minted.length = positions d
  bound : ∀ inc : Incarnation, s.incarnations[0]? = some inc → inc.stage.isBinding = false → inc.minted = positions d

theorem start_positional : (start d).Positional d := by
  constructor <;> simp [start]

theorem Positional.same (hp : s.Positional d) (hi : s'.incarnations = s.incarnations) (hl : s'.lock = s.lock)
    (hn : s'.channels.nextLineage = s.channels.nextLineage) : s'.Positional d where
  unbound h := by
    rw [hn]
    exact hp.unbound (hi ▸ h)
  binding inc todo rows prepared h hst := by
    rw [hl, hi, hn]
    exact hp.binding inc todo rows prepared (hi ▸ h) hst
  bound inc h := hp.bound inc (hi ▸ h)

theorem Positional.goes (hp : s.Positional d) (hinc : s.incarnations[i]? = some inc) (hst : inc.stage.isBinding = false)
    (hset : s'.incarnations = s.incarnations.set i inc') (hm : inc'.minted = inc.minted)
    (hst' : inc'.stage.isBinding = false) : s'.Positional d where
  unbound h := by
    rw [hset, List.set_eq_nil_iff] at h
    simp [h] at hinc
  binding x todo rows prepared h hx := by
    rw [hset, set_get hinc] at h
    rcases h with ⟨-, rfl⟩ | ⟨hne, h⟩
    · simp [hx, Stage.isBinding] at hst'
    · obtain ⟨-, hlen, -⟩ := hp.binding x todo rows prepared h hx
      have hi : i < s.incarnations.length := (List.getElem?_eq_some_iff.mp hinc).1
      omega
  bound x h hx := by
    rw [hset, set_get hinc] at h
    rcases h with ⟨rfl, rfl⟩ | ⟨-, h⟩
    · exact hm.trans (hp.bound inc hinc hst)
    · exact hp.bound x h hx

theorem bind_positional (hp : s.Positional d) (hl : s.lock = none) (g : Nat) : (s.bind d g).Positional d := by
  cases hinc : s.incarnations with
  | nil =>
    obtain ⟨generation, prepared, hone⟩ : ∃ generation prepared,
        (s.bind d g).incarnations = [⟨generation, .binding (d.children 0) [] prepared, [], []⟩] := by
      simp only [bind, hinc, List.nil_append, List.length_nil]
      exact ⟨_, _, rfl⟩
    constructor
    case unbound =>
      intro h
      simp [hone] at h
    case binding =>
      intro x todo rows prepared hx hst
      rw [hone] at hx
      cases hx
      cases hst
      refine ⟨rfl, by simp [hone], hp.unbound hinc, ?_⟩
      simp [positions]
    case bound =>
      intro x hx hst
      rw [hone] at hx
      cases hx
      cases hst
  | cons y ys =>
    have hfirst : (s.bind d g).incarnations[0]? = some y := by simp [bind, hinc]
    have hy : s.incarnations[0]? = some y := by simp [hinc]
    -- the lock is free, so the first incarnation has left `bind_prepared`
    have hst : y.stage.isBinding = false := by
      cases hs : y.stage with
      | binding todo rows prepared =>
        obtain ⟨hlock, -⟩ := hp.binding y todo rows prepared hy hs
        simp [hl] at hlock
      | _ => rfl
    constructor
    case unbound =>
      intro h
      simp [bind, hinc] at h
    case binding =>
      intro x todo rows prepared hx hs
      rw [hfirst] at hx
      cases hx
      simp [hs, Stage.isBinding] at hst
    case bound =>
      intro x hx _
      rw [hfirst] at hx
      cases hx
      exact hp.bound y hy hst

theorem mint_positional {child : ChildDefinition} {todo : List ChildDefinition} {rows : List ChildSnapshot}
    {prepared : List AttachedChild} (hp : s.Positional d) (hinc : s.incarnations[i]? = some inc)
    (hst : inc.stage = .binding (child :: todo) rows prepared) :
    (s.mint i inc child todo rows prepared).Positional d := by
  have hi : i < s.incarnations.length := (List.getElem?_eq_some_iff.mp hinc).1
  constructor
  case unbound =>
    intro h
    rw [mint, List.set_eq_nil_iff] at h
    simp [h] at hi
  case binding =>
    intro x todo' rows' prepared' hx hs
    rw [mint, set_get hinc] at hx
    rcases hx with ⟨rfl, rfl⟩ | ⟨hne, hx⟩
    · obtain ⟨hlock, hlen, hnext, hall⟩ := hp.binding inc _ _ _ hinc hst
      cases hs
      refine ⟨hlock, by simpa [mint] using hlen, by simp [mint, hnext], ?_⟩
      rw [← hall, hnext]
      simp [List.zipIdx_cons]
    · obtain ⟨-, hlen, -⟩ := hp.binding x _ _ _ hx hs
      omega
  case bound =>
    intro x hx hs
    rw [mint, set_get hinc] at hx
    rcases hx with ⟨-, rfl⟩ | ⟨-, hx⟩
    · cases hs
    · exact hp.bound x hx hs

theorem commit_positional {rows : List ChildSnapshot} {prepared : List AttachedChild} (hp : s.Positional d)
    (hinc : s.incarnations[i]? = some inc) (hst : inc.stage = .binding [] rows prepared) :
    (s.commit d i inc rows prepared).Positional d := by
  have hi : i < s.incarnations.length := (List.getElem?_eq_some_iff.mp hinc).1
  obtain ⟨stage, hset, hnot⟩ : ∃ stage : Stage,
      (s.commit d i inc rows prepared).incarnations = s.incarnations.set i { inc with stage := stage } ∧
        stage.isBinding = false := by
    unfold commit
    split
    · exact ⟨.bound, rfl, rfl⟩
    · exact ⟨.ended, rfl, rfl⟩
  constructor
  case unbound =>
    intro h
    rw [hset, List.set_eq_nil_iff] at h
    simp [h] at hi
  case binding =>
    intro x todo' rows' prepared' hx hs
    rw [hset, set_get hinc] at hx
    rcases hx with ⟨-, rfl⟩ | ⟨hne, hx⟩
    · simp only at hs
      simp [hs, Stage.isBinding] at hnot
    · obtain ⟨-, hlen, -⟩ := hp.binding x _ _ _ hx hs
      omega
  case bound =>
    intro x hx hs
    rw [hset, set_get hinc] at hx
    rcases hx with ⟨rfl, rfl⟩ | ⟨-, hx⟩
    · obtain ⟨-, -, -, hall⟩ := hp.binding inc _ _ _ hinc hst
      simpa using hall
    · exact hp.bound x hx hs

theorem step_positional (hp : s.Positional d) (h : step d s a = some s') : s'.Positional d := by
  cases step_moves h with
  | refused => exact hp
  | bind g hl => exact bind_positional hp hl g
  | mint hinc hst => exact mint_positional hp hinc hst
  | commit hinc hst => exact commit_positional hp hinc hst
  | readLineages hinc hst | reconcile hinc hst | work hinc hst | stop _ hinc hst | restart hinc hst
  | insertNested hinc hst | viewSnapshot hinc hst | addChild hinc hst =>
    exact hp.goes hinc (by simp [hst, Stage.isBinding]) rfl rfl rfl
  | @create i inc lineages identities hinc hst =>
    have hnot : inc.stage.isBinding = false := by simp [hst, Stage.isBinding]
    unfold create
    split
    · exact hp.goes hinc hnot rfl rfl rfl
    · exact hp.goes hinc hnot rfl rfl rfl
  | @remove i inc rt id e hinc hst =>
    have hnot : inc.stage.isBinding = false := by simp [hst, Stage.isBinding]
    rcases remove_cases s i inc rt id e with h | ⟨-, nested, closed, h⟩
    · rw [h]
      exact hp.goes hinc hnot rfl rfl rfl
    · rw [h]
      exact hp.goes hinc hnot rfl rfl rfl
  | @publishSnapshot i inc rt v _ hinc hst =>
    have hnot : inc.stage.isBinding = false := by simp [hst, Stage.isBinding]
    unfold publishSnapshot
    split
    · split
      · exact hp.goes hinc hnot rfl rfl rfl
      · exact hp.goes hinc hnot rfl rfl rfl
    · exact hp.goes hinc hnot rfl rfl rfl
  | finish hinc hst =>
    refine hp.goes hinc ?_ rfl rfl rfl
    cases hs : Incarnation.stage _ with
    | binding => exact absurd hs (hst _ _ _)
    | _ => rfl
  | dropGuard =>
    unfold dropGuard
    split
    · exact hp.same rfl rfl rfl
    · exact hp
  | emit | publishView | terminalBinding | terminalView | terminalSnapshot | terminalCascade | hide =>
    exact hp.same rfl rfl rfl
  | publishNoView => exact hp

theorem first_bind_positions (h : Reach (step d) (start d) s) (hinc : s.incarnations[0]? = some inc)
    (hst : inc.stage.isBinding = false) : inc.minted = positions d :=
  (h.invariant start_positional fun _ _ _ hp hs => step_positional hp hs).bound inc hinc hst

end World

end Kokage.Identity

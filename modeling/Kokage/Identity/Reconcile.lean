/-
  Kokage.Identity.Reconcile — `reconcile_stable_identities` over the identities themselves
  (`runtime/supervision.rs`; `supervisor/owner.rs`: `stable_channels`;
  `supervisor/handle.rs`: `statically_configured`, `claim_edge`, `terminal`).

  `Identity.Channels` keeps the static flag of an identity in the map that holds it. Here
  it is what it is in the source, a cell of the identity: a definition that claims its own
  edge changes what every later lookup of that identity sees, and `terminal` of a parent
  reaches the descendants.

  `reconcile_stable_identities_exact`: the result has the ids of the supervisor children,
  static identities are kept and stay live, the map is the result, all others are terminal
  with their descendants, and a second call changes nothing. A map may hold an identity
  once only, and no two of its identities share a descendant: a `Supervisor` is moved
  into the one edge that claims it. `reconcile_agrees`: the maps of `Identity.Channels`
  come out the same.
-/

import Mathlib.Data.Finmap
import Mathlib.Logic.Function.Basic
import Kokage.Identity.Channels
import Kokage.Tree.Lower

namespace Kokage.Identity.Reconcile

open Kokage.Supervisor

/-! ## Identities -/

inductive EdgeKind where
  | unclaimed
  | static
  | dynamic
  deriving DecidableEq, Repr

/-- The cells of all identities. -/
structure Heap where
  edgeKind : Nat → EdgeKind
  /-- Of the `Supervisor` that owns the identity. -/
  terminalizeOnDrop : Nat → Bool
  terminal : Nat → Bool
  /-- An identity with its nested identities. -/
  tree : Nat → Tree.Channels
  root : ∀ i, (tree i).identity = i

namespace Heap

def staticallyConfigured (h : Heap) (i : Nat) : Bool := h.edgeKind i = .static

def claimEdge (h : Heap) (i : Nat) (staticallyConfigured : Bool) : Heap :=
  { h with edgeKind := Function.update h.edgeKind i (if staticallyConfigured then .static else .dynamic) }

/-- `Supervisor::stable_channels`. -/
def stableChannels (h : Heap) (i : Nat) (staticallyConfigured : Bool) : Heap :=
  { h.claimEdge i staticallyConfigured with
    terminalizeOnDrop := Function.update h.terminalizeOnDrop i false }

/-- `StableSupervisorChannels::terminal`. -/
def close (h : Heap) (i : Nat) : Heap :=
  { h with terminal := fun j => h.terminal j || decide (j ∈ (h.tree i).terminal) }

variable {h : Heap} {i j : Nat}

theorem staticallyConfigured_stableChannels :
    (h.stableChannels i true).staticallyConfigured j = (decide (j = i) || h.staticallyConfigured j) := by
  by_cases hj : j = i
  · subst hj
    simp [stableChannels, claimEdge, staticallyConfigured]
  · simp [stableChannels, claimEdge, staticallyConfigured, hj]

theorem mem_tree : i ∈ (h.tree i).terminal := by
  have hr := h.root i
  generalize h.tree i = t at hr ⊢
  cases t with
  | mk identity nested =>
    simp only [Tree.Channels.identity] at hr
    subst hr
    simp [Tree.Channels.terminal]

theorem closeAll_staticallyConfigured (closed : List Nat) :
    (closed.foldl close h).staticallyConfigured = h.staticallyConfigured := by
  induction closed generalizing h with
  | nil => rfl
  | cons i closed ih => exact ih (h := h.close i)

theorem closeAll_terminal (closed : List Nat) :
    (closed.foldl close h).terminal j = true ↔
      h.terminal j = true ∨ ∃ i ∈ closed, j ∈ (h.tree i).terminal := by
  induction closed generalizing h with
  | nil => simp
  | cons i closed ih =>
    rw [List.foldl_cons, ih]
    simp [close, or_assoc]

end Heap

/-! ## The pass -/

/-- `NestedChannels`, and the map that is returned. -/
abbrev Identities := AList fun _ : String => Nat

/-- What the loop over the definitions threads. -/
structure Pass where
  heap : Heap
  channels : Identities
  identities : Identities
  displaced : List Nat

structure Reconciled where
  heap : Heap
  channels : Identities
  identities : Identities
  /-- The identities that `terminal` was called on, in order. -/
  closed : List Nat

def reconcileChild (p : Pass) (child : ChildDefinition) : Pass :=
  match child.kind with
  | .task => p
  | .supervisor own =>
    match (p.channels.lookup child.id).filter p.heap.staticallyConfigured with
    | some stable => { p with identities := p.identities.insert child.id stable }
    | none =>
      { heap := p.heap.stableChannels own true
        channels := p.channels.insert child.id own
        identities := p.identities.insert child.id own
        displaced := p.displaced ++ (p.channels.lookup child.id).toList }

/-- Removes the ids and collects what was under them. -/
def removeOrphaned : List String → Identities → List Nat × Identities
  | [], m => ([], m)
  | id :: ids, m =>
    let (orphaned, rest) := removeOrphaned ids (m.erase id)
    ((m.lookup id).toList ++ orphaned, rest)

def orphanedIds (p : Pass) : List String := p.channels.keys.filter fun id => id ∉ p.identities

def reconcileStableIdentities (children : List ChildDefinition) (h : Heap) (m : Identities) : Reconciled :=
  let p := children.foldl reconcileChild ⟨h, m, ∅, []⟩
  let (orphaned, channels) := removeOrphaned (orphanedIds p) p.channels
  let closed := orphaned ++ p.displaced
  ⟨closed.foldl Heap.close p.heap, channels, p.identities, closed⟩

/-- No identity is under two ids, and none is below two of the map's identities. -/
def Owned (h : Heap) (m : Identities) : Prop :=
  ∀ id i id' i', m.lookup id = some i → m.lookup id' = some i' → id ≠ id' →
    List.Disjoint (h.tree i).terminal (h.tree i').terminal

/-- A supervisor child has the id. -/
def Declares (children : List ChildDefinition) (id : String) : Prop :=
  ∃ child ∈ children, child.id = id ∧ child.kind.isSupervisor = true

variable {children done : List ChildDefinition} {child : ChildDefinition} {h : Heap} {m : Identities} {p : Pass}
  {id : String} {i : Nat}

theorem declares_concat : Declares (done ++ [child]) id ↔
    Declares done id ∨ (child.id = id ∧ child.kind.isSupervisor = true) := by
  simp only [Declares, List.mem_append, List.mem_singleton]
  constructor
  · rintro ⟨c, hc | rfl, hid⟩
    · exact .inl ⟨c, hc, hid⟩
    · exact .inr hid
  · rintro (⟨c, hc, hid⟩ | hid)
    · exact ⟨c, .inl hc, hid⟩
    · exact ⟨child, .inr rfl, hid⟩

theorem lookup_removeOrphaned (ids : List String) :
    (removeOrphaned ids m).2.lookup id = if id ∈ ids then none else m.lookup id := by
  induction ids generalizing m with
  | nil => simp [removeOrphaned]
  | cons a ids ih =>
    simp only [removeOrphaned, ih, List.mem_cons]
    by_cases ha : id = a
    · subst ha
      simp
    · simp [ha, AList.lookup_erase_ne ha]

theorem mem_removeOrphaned (ids : List String) :
    i ∈ (removeOrphaned ids m).1 ↔ ∃ id ∈ ids, m.lookup id = some i := by
  induction ids generalizing m with
  | nil => simp [removeOrphaned]
  | cons a ids ih =>
    simp only [removeOrphaned, List.mem_append, Option.mem_toList, ih]
    constructor
    · rintro (ha | ⟨id, hid, hi⟩)
      · exact ⟨a, List.mem_cons_self, ha⟩
      · by_cases hne : id = a
        · subst hne
          simp at hi
        · rw [AList.lookup_erase_ne hne] at hi
          exact ⟨id, List.mem_cons_of_mem a hid, hi⟩
    · rintro ⟨id, hid, hi⟩
      by_cases hne : id = a
      · subst hne
        exact .inl hi
      · refine .inr ⟨id, (List.mem_cons.mp hid).resolve_left hne, ?_⟩
        rw [AList.lookup_erase_ne hne]
        exact hi

/-! ## What holds after every definition -/

structure Reconciling (h : Heap) (m : Identities) (done : List ChildDefinition) (p : Pass) : Prop where
  tree : p.heap.tree = h.tree
  terminal : p.heap.terminal = h.terminal
  static : ∀ i, h.staticallyConfigured i = true → p.heap.staticallyConfigured i = true
  named : ∀ id, (p.identities.lookup id).isSome = true ↔ Declares done id
  shown : ∀ id i, p.identities.lookup id = some i →
    p.channels.lookup id = some i ∧ p.heap.staticallyConfigured i = true
  rest : ∀ id, p.identities.lookup id = none → p.channels.lookup id = m.lookup id
  kept : ∀ id i, m.lookup id = some i → h.staticallyConfigured i = true → p.channels.lookup id = some i
  displaced : ∀ i ∈ p.displaced, ∃ id, m.lookup id = some i ∧ h.staticallyConfigured i = false
  replaced : ∀ id i, m.lookup id = some i → p.channels.lookup id = some i ∨ i ∈ p.displaced

theorem Reconciling.start : Reconciling h m [] ⟨h, m, ∅, []⟩ where
  tree := rfl
  terminal := rfl
  static := fun _ hs => hs
  named := by simp [Declares]
  shown := by simp
  rest := fun _ _ => rfl
  kept := fun _ _ hi _ => hi
  displaced := by simp
  replaced := fun _ _ hi => .inl hi

theorem Reconciling.task (hp : Reconciling h m done p) (hk : child.kind = .task) :
    Reconciling h m (done ++ [child]) p :=
  { hp with
    named := by
      intro id
      rw [hp.named id, declares_concat, hk]
      simp [ChildKind.isSupervisor] }

theorem Reconciling.named_insert (hp : Reconciling h m done p) (hk : child.kind.isSupervisor = true) (stable : Nat)
    (id : String) : ((p.identities.insert child.id stable).lookup id).isSome = true ↔ Declares (done ++ [child]) id := by
  rw [declares_concat, ← hp.named id]
  by_cases hid : id = child.id
  · subst hid
    simp [hk]
  · have hid' : child.id ≠ id := fun e => hid e.symm
    simp [AList.lookup_insert_ne hid, hid']

theorem Reconciling.reuse (hp : Reconciling h m done p) (hk : child.kind.isSupervisor = true) {stable : Nat}
    (hstable : p.channels.lookup child.id = some stable) (hstatic : p.heap.staticallyConfigured stable = true) :
    Reconciling h m (done ++ [child]) { p with identities := p.identities.insert child.id stable } :=
  { hp with
    named := hp.named_insert hk stable
    shown := by
      intro id i hi
      by_cases hid : id = child.id
      · subst hid
        simp only [AList.lookup_insert, Option.some.injEq] at hi
        subst hi
        exact ⟨hstable, hstatic⟩
      · rw [AList.lookup_insert_ne hid] at hi
        exact hp.shown id i hi
    rest := by
      intro id hn
      by_cases hid : id = child.id
      · subst hid
        simp at hn
      · rw [AList.lookup_insert_ne hid] at hn
        exact hp.rest id hn }

/-- An id whose identity is not reused has none in the result yet: those are static. -/
theorem Reconciling.fresh (hp : Reconciling h m done p)
    (hf : (p.channels.lookup id).filter p.heap.staticallyConfigured = none) : p.identities.lookup id = none := by
  cases hi : p.identities.lookup id with
  | none => rfl
  | some i =>
    obtain ⟨hc, hs⟩ := hp.shown id i hi
    simp [hc, hs] at hf

theorem Reconciling.claim (hp : Reconciling h m done p) (hk : child.kind.isSupervisor = true) (own : Nat)
    (hf : (p.channels.lookup child.id).filter p.heap.staticallyConfigured = none) :
    Reconciling h m (done ++ [child])
      { heap := p.heap.stableChannels own true
        channels := p.channels.insert child.id own
        identities := p.identities.insert child.id own
        displaced := p.displaced ++ (p.channels.lookup child.id).toList } := by
  have hgrow : ∀ i, p.heap.staticallyConfigured i = true →
      (p.heap.stableChannels own true).staticallyConfigured i = true := by
    intro i hi
    simp [Heap.staticallyConfigured_stableChannels, hi]
  have hold : p.channels.lookup child.id = m.lookup child.id := hp.rest child.id (hp.fresh hf)
  -- what this child displaces was dynamic from the start: flags are only ever set
  have hdyn : ∀ i, p.channels.lookup child.id = some i → h.staticallyConfigured i = false := by
    intro i hi
    cases hs : h.staticallyConfigured i with
    | false => rfl
    | true => simp [hi, hp.static i hs] at hf
  exact
    { tree := hp.tree
      terminal := hp.terminal
      static := fun i hi => hgrow i (hp.static i hi)
      named := hp.named_insert hk own
      shown := by
        intro id i hi
        by_cases hid : id = child.id
        · subst hid
          simp only [AList.lookup_insert, Option.some.injEq] at hi
          subst hi
          simp [Heap.staticallyConfigured_stableChannels]
        · rw [AList.lookup_insert_ne hid] at hi
          obtain ⟨hc, hs⟩ := hp.shown id i hi
          rw [AList.lookup_insert_ne hid]
          exact ⟨hc, hgrow i hs⟩
      rest := by
        intro id hn
        by_cases hid : id = child.id
        · subst hid
          simp at hn
        · rw [AList.lookup_insert_ne hid] at hn ⊢
          exact hp.rest id hn
      kept := by
        intro id i hi hs
        by_cases hid : id = child.id
        · subst hid
          rw [hdyn i (hold.trans hi)] at hs
          cases hs
        · rw [AList.lookup_insert_ne hid]
          exact hp.kept id i hi hs
      displaced := by
        intro i hi
        rcases List.mem_append.mp hi with hi | hi
        · exact hp.displaced i hi
        · have hi' : p.channels.lookup child.id = some i := by simpa using hi
          exact ⟨child.id, hold ▸ hi', hdyn i hi'⟩
      replaced := by
        intro id i hi
        by_cases hid : id = child.id
        · subst hid
          exact .inr (List.mem_append_right _ (by simp [hold, hi]))
        · rw [AList.lookup_insert_ne hid]
          rcases hp.replaced id i hi with hc | hd
          · exact .inl hc
          · exact .inr (List.mem_append_left _ hd) }

theorem Reconciling.next (hp : Reconciling h m done p) (child : ChildDefinition) :
    Reconciling h m (done ++ [child]) (reconcileChild p child) := by
  unfold reconcileChild
  split
  case h_1 hk => exact hp.task hk
  case h_2 own hk =>
    have hsup : child.kind.isSupervisor = true := by simp [hk, ChildKind.isSupervisor]
    split
    case h_1 stable hf =>
      obtain ⟨hc, hs⟩ := Option.filter_eq_some_iff.mp hf
      exact hp.reuse hsup hc hs
    case h_2 hf => exact hp.claim hsup own hf

theorem Reconciling.fold (hp : Reconciling h m done p) (children : List ChildDefinition) :
    Reconciling h m (done ++ children) (children.foldl reconcileChild p) := by
  induction children generalizing done p with
  | nil => simpa using hp
  | cons child children ih => simpa using ih (hp.next child)

/-! ## The whole pass -/

/-- The loop of a call. -/
def loop (children : List ChildDefinition) (h : Heap) (m : Identities) : Pass :=
  children.foldl reconcileChild ⟨h, m, ∅, []⟩

theorem reconciling_loop (children : List ChildDefinition) (h : Heap) (m : Identities) :
    Reconciling h m children (loop children h m) :=
  Reconciling.start.fold children

theorem mem_orphanedIds : id ∈ orphanedIds p ↔ (p.channels.lookup id).isSome = true ∧ p.identities.lookup id = none := by
  rw [orphanedIds, List.mem_filter, ← AList.mem_keys, AList.lookup_isSome, AList.lookup_eq_none]
  simp

theorem mem_closed : i ∈ (reconcileStableIdentities children h m).closed ↔
    (∃ id, (loop children h m).identities.lookup id = none ∧ m.lookup id = some i) ∨
      i ∈ (loop children h m).displaced := by
  have hp := reconciling_loop children h m
  have horph : i ∈ (removeOrphaned (orphanedIds (loop children h m)) (loop children h m).channels).1 ↔
      ∃ id, (loop children h m).identities.lookup id = none ∧ m.lookup id = some i := by
    rw [mem_removeOrphaned]
    constructor
    · rintro ⟨id, hid, hi⟩
      obtain ⟨-, hn⟩ := mem_orphanedIds.mp hid
      exact ⟨id, hn, hp.rest id hn ▸ hi⟩
    · rintro ⟨id, hn, hi⟩
      have hc : (loop children h m).channels.lookup id = some i := (hp.rest id hn).trans hi
      exact ⟨id, mem_orphanedIds.mpr ⟨by simp [hc], hn⟩, hc⟩
  rw [← horph]
  exact List.mem_append

theorem lookup_channels (id : String) : (reconcileStableIdentities children h m).channels.lookup id =
    (reconcileStableIdentities children h m).identities.lookup id := by
  have hp := reconciling_loop children h m
  have hl : (reconcileStableIdentities children h m).channels.lookup id =
      if id ∈ orphanedIds (loop children h m) then none else (loop children h m).channels.lookup id :=
    lookup_removeOrphaned _
  have hi : (reconcileStableIdentities children h m).identities = (loop children h m).identities := rfl
  rw [hl, hi]
  cases hid : (loop children h m).identities.lookup id with
  | some i =>
    have hno : id ∉ orphanedIds (loop children h m) := by simp [mem_orphanedIds, hid]
    rw [if_neg hno]
    exact (hp.shown id i hid).1
  | none =>
    split
    case isTrue => rfl
    case isFalse hno => simpa [mem_orphanedIds, hid] using hno

theorem terminal_iff (j : Nat) : (reconcileStableIdentities children h m).heap.terminal j = true ↔
    h.terminal j = true ∨ ∃ i ∈ (reconcileStableIdentities children h m).closed, j ∈ (h.tree i).terminal := by
  have hp := reconciling_loop children h m
  have hheap : (reconcileStableIdentities children h m).heap =
      (reconcileStableIdentities children h m).closed.foldl Heap.close (loop children h m).heap := rfl
  rw [hheap, Heap.closeAll_terminal, hp.terminal, hp.tree]

theorem kept_live (howned : Owned h m) (hid : Declares children id) (hi : m.lookup id = some i)
    (hs : h.staticallyConfigured i = true) (hlive : h.terminal i = false) :
    (reconcileStableIdentities children h m).heap.terminal i = false := by
  have hp := reconciling_loop children h m
  rw [← Bool.not_eq_true, terminal_iff]
  rintro (ht | ⟨c, hc, hic⟩)
  · rw [hlive] at ht
    cases ht
  · rcases mem_closed.mp hc with ⟨id', hn, hc⟩ | hd
    · have hne : id ≠ id' := by
        intro e
        subst e
        have hsome := (hp.named id).mpr hid
        rw [hn] at hsome
        cases hsome
      exact howned id i id' c hi hc hne Heap.mem_tree hic
    · obtain ⟨id', hc, hdyn⟩ := hp.displaced c hd
      by_cases hne : id = id'
      · subst hne
        rw [hi] at hc
        cases hc
        rw [hs] at hdyn
        cases hdyn
      · exact howned id i id' c hi hc hne Heap.mem_tree hic

/-- Where every supervisor child has a static identity the loop changes the result only. -/
theorem fold_settled (hset : ∀ id, Declares children id →
      ∃ i, p.channels.lookup id = some i ∧ p.heap.staticallyConfigured i = true) :
    (children.foldl reconcileChild p).heap = p.heap ∧
      (children.foldl reconcileChild p).channels = p.channels ∧
      (children.foldl reconcileChild p).displaced = p.displaced := by
  induction children generalizing p with
  | nil => exact ⟨rfl, rfl, rfl⟩
  | cons child children ih =>
    have hrest : ∀ id, Declares children id →
        ∃ i, p.channels.lookup id = some i ∧ p.heap.staticallyConfigured i = true := by
      intro id ⟨c, hc, hid⟩
      exact hset id ⟨c, List.mem_cons_of_mem child hc, hid⟩
    rw [List.foldl_cons]
    cases hk : child.kind with
    | task =>
      have heq : reconcileChild p child = p := by simp [reconcileChild, hk]
      rw [heq]
      exact ih hrest
    | supervisor own =>
      obtain ⟨i, hi, hs⟩ := hset child.id ⟨child, List.mem_cons_self, rfl, by simp [hk, ChildKind.isSupervisor]⟩
      have heq : reconcileChild p child = { p with identities := p.identities.insert child.id i } := by
        have hf : (p.channels.lookup child.id).filter p.heap.staticallyConfigured = some i :=
          Option.filter_eq_some_iff.mpr ⟨hi, hs⟩
        simp only [reconcileChild, hk, hf]
      rw [heq]
      exact ih hrest

theorem reconcile_settled (hset : ∀ id, Declares children id →
      ∃ i, m.lookup id = some i ∧ h.staticallyConfigured i = true)
    (honly : ∀ id i, m.lookup id = some i → Declares children id) :
    (reconcileStableIdentities children h m).closed = [] ∧
      (reconcileStableIdentities children h m).heap = h ∧
      ∀ id, (reconcileStableIdentities children h m).identities.lookup id = m.lookup id := by
  have hp := reconciling_loop children h m
  obtain ⟨hheap, hchannels, hdisplaced⟩ :=
    fold_settled (p := ⟨h, m, ∅, []⟩) hset
  have hclosed : (reconcileStableIdentities children h m).closed = [] := by
    rw [List.eq_nil_iff_forall_not_mem]
    intro i hi
    rcases mem_closed.mp hi with ⟨id, hn, hi⟩ | hd
    · have hsome := (hp.named id).mpr (honly id i hi)
      rw [hn] at hsome
      cases hsome
    · have hnil : (loop children h m).displaced = [] := hdisplaced
      rw [hnil] at hd
      cases hd
  refine ⟨hclosed, ?_, ?_⟩
  · have hr : (reconcileStableIdentities children h m).heap =
        (reconcileStableIdentities children h m).closed.foldl Heap.close (loop children h m).heap := rfl
    rw [hr, hclosed]
    exact hheap
  · intro id
    have hch : (loop children h m).channels = m := hchannels
    cases hid : (loop children h m).identities.lookup id with
    | some i =>
      have hm := (hp.shown id i hid).1
      rw [hch] at hm
      exact hid.trans hm.symm
    | none =>
      refine hid.trans ?_
      cases hm : m.lookup id with
      | none => rfl
      | some i =>
        have hsome := (hp.named id).mpr (honly id i hm)
        rw [hid] at hsome
        cases hsome

theorem reconcile_stable_identities_exact (children : List ChildDefinition) (h : Heap) (m : Identities)
    (howned : Owned h m) (hlive : ∀ id i, m.lookup id = some i → h.terminal i = false) :
    let r := reconcileStableIdentities children h m
    let again := reconcileStableIdentities children r.heap r.channels
    (∀ id, id ∈ r.identities ↔ ∃ child ∈ children, child.id = id ∧ child.kind.isSupervisor = true) ∧
      (∀ id i, id ∈ r.identities → m.lookup id = some i → h.staticallyConfigured i = true →
        r.identities.lookup id = some i ∧ r.heap.terminal i = false) ∧
      r.channels.toFinmap = r.identities.toFinmap ∧
      (∀ id i, m.lookup id = some i → (∀ id', r.identities.lookup id' ≠ some i) →
        ∀ j ∈ (h.tree i).terminal, r.heap.terminal j = true) ∧
      again.identities.toFinmap = r.identities.toFinmap ∧ again.closed = [] ∧ again.heap = r.heap := by
  intro r again
  have hp := reconciling_loop children h m
  have hids : r.identities = (loop children h m).identities := rfl
  have hmem : ∀ id, id ∈ r.identities ↔ Declares children id := by
    intro id
    rw [← AList.lookup_isSome, hids]
    exact hp.named id
  have hstatic : ∀ i, r.heap.staticallyConfigured i = (loop children h m).heap.staticallyConfigured i :=
    fun i => congrFun (Heap.closeAll_staticallyConfigured r.closed) i
  -- the second call finds a static identity under every id, and no other id
  have hset : ∀ id, Declares children id →
      ∃ i, r.channels.lookup id = some i ∧ r.heap.staticallyConfigured i = true := by
    intro id hid
    obtain ⟨i, hi⟩ := Option.isSome_iff_exists.mp ((hp.named id).mpr hid)
    exact ⟨i, (lookup_channels id).trans hi, (hstatic i).trans (hp.shown id i hi).2⟩
  have honly : ∀ id i, r.channels.lookup id = some i → Declares children id := by
    intro id i hi
    have hi' : r.identities.lookup id = some i := (lookup_channels id).symm.trans hi
    exact (hmem id).mp (AList.lookup_isSome.mp (by rw [hi']; rfl))
  have hagain : again.closed = [] ∧ again.heap = r.heap ∧
      ∀ id, again.identities.lookup id = r.channels.lookup id := reconcile_settled hset honly
  refine ⟨hmem, ?_, Finmap.ext_lookup fun id => ?_, ?_, Finmap.ext_lookup fun id => ?_, hagain.1, hagain.2.1⟩
  · intro id i hid hi hs
    refine ⟨?_, kept_live howned ((hmem id).mp hid) hi hs (hlive id i hi)⟩
    obtain ⟨j, hj⟩ := Option.isSome_iff_exists.mp (AList.lookup_isSome.mpr hid)
    have hij : some j = some i := (hp.shown id j hj).1.symm.trans (hp.kept id i hi hs)
    exact hj.trans hij
  · rw [Finmap.lookup_toFinmap, Finmap.lookup_toFinmap]
    exact lookup_channels id
  · intro id i hi hnot j hj
    refine (terminal_iff j).mpr (.inr ⟨i, ?_, hj⟩)
    rcases hp.replaced id i hi with hc | hd
    · refine mem_closed.mpr (.inl ⟨id, ?_, hi⟩)
      cases hid : (loop children h m).identities.lookup id with
      | none => rfl
      | some k =>
        have hki : some k = some i := (hp.shown id k hid).1.symm.trans hc
        exact absurd (hid.trans hki) (hnot id)
    · exact mem_closed.mpr (.inr hd)
  · rw [Finmap.lookup_toFinmap, Finmap.lookup_toFinmap]
    exact (hagain.2.2 id).trans (lookup_channels id)

/-- A static identity, a dynamic one in the way of a static child, and a dynamic one with a
    nested identity of its own. -/
def retained : Heap where
  edgeKind i := if i = 0 then .static else if i = 1 ∨ i = 2 then .dynamic else .unclaimed
  terminalizeOnDrop _ := true
  terminal _ := false
  tree i := if i = 2 then .mk 2 [("leaf", .mk 3 [])] else .mk i []
  root i := by
    split
    case isTrue h => exact h.symm
    case isFalse => rfl

def retainedChannels : Identities := ⟨[⟨"reused", 0⟩, ⟨"collision", 1⟩, ⟨"orphaned", 2⟩], by simp [List.NodupKeys]⟩

def reconfigured : List ChildDefinition :=
  [{ id := "reused", kind := .supervisor 10 }, { id := "collision", kind := .supervisor 11 }]

theorem reconcile_stable_identities_retained :
    let r := reconcileStableIdentities reconfigured retained retainedChannels
    Owned retained retainedChannels ∧
      r.identities.lookup "reused" = some 0 ∧ r.heap.terminal 0 = false ∧ r.heap.terminal 3 = true := by
  intro r
  have hentries : ∀ id i, retainedChannels.lookup id = some i →
      (id = "reused" ∧ i = 0) ∨ (id = "collision" ∧ i = 1) ∨ (id = "orphaned" ∧ i = 2) := by
    intro id i hi
    simpa [retainedChannels] using AList.mem_lookup_iff.mp hi
  have howned : Owned retained retainedChannels := by
    intro id i id' i' hi hi' hne
    rcases hentries id i hi with ⟨rfl, rfl⟩ | ⟨rfl, rfl⟩ | ⟨rfl, rfl⟩ <;>
      rcases hentries id' i' hi' with ⟨rfl, rfl⟩ | ⟨rfl, rfl⟩ | ⟨rfl, rfl⟩ <;>
      first
      | exact absurd rfl hne
      | simp [retained, Tree.Channels.terminal, Tree.terminalAll]
  obtain ⟨hkeys, hkept, -, hclosed, -⟩ := reconcile_stable_identities_exact reconfigured retained retainedChannels
    howned (fun _ _ _ => rfl)
  obtain ⟨hreused, hlive⟩ := hkept "reused" 0 ((hkeys "reused").mpr (by decide)) rfl rfl
  refine ⟨howned, hreused, hlive, hclosed "orphaned" 2 rfl ?_ 3 (by decide)⟩
  intro id' he
  have hid' := (hkeys id').mp (AList.lookup_isSome.mp (by rw [he]; rfl))
  simp only [reconfigured, List.mem_cons, List.not_mem_nil, or_false] at hid'
  obtain ⟨child, rfl | rfl, rfl, -⟩ := hid'
  · exact absurd he (by decide)
  · exact absurd he (by decide)

/-! ## The maps that keep the flag -/

/-- The entry that `Identity.Channels` has for an identity. -/
def flagged (h : Heap) (i : Nat) : StableChannels := ⟨i, h.staticallyConfigured i⟩

theorem flagged_stableChannels {own : Nat} (hi : i = own → h.staticallyConfigured own = true) :
    flagged (h.stableChannels own true) i = flagged h i := by
  by_cases ho : i = own
  · subst ho
    simp [flagged, Heap.staticallyConfigured_stableChannels, hi rfl]
  · simp [flagged, Heap.staticallyConfigured_stableChannels, ho]

theorem get_filter (q : String → Bool) (n : NestedChannels) (id : String) :
    NestedChannels.get (n.filter fun e => q e.1) id = if q id = true then n.get id else none := by
  unfold NestedChannels.get
  induction n with
  | nil => simp
  | cons e n ih =>
    obtain ⟨a, c⟩ := e
    by_cases ha : id = a
    · subst ha
      by_cases hq : q id = true
      · simp [hq]
      · simp only [hq] at ih
        simpa [hq] using ih
    · have hb : (id == a) = false := by simpa using ha
      by_cases hq : q a = true
      · simpa [List.filter_cons, hq, List.lookup_cons, hb] using ih
      · simpa [List.filter_cons, hq, List.lookup_cons, hb] using ih

theorem get_insert (n : NestedChannels) (a : String) (c : StableChannels) (id : String) :
    (n.insert a c).get id = if id = a then some c else n.get id := by
  have hr : (n.remove a).get id = if decide (id ≠ a) = true then n.get id else none :=
    get_filter (fun b => decide (b ≠ a)) n id
  have happ : (n.insert a c).get id = ((n.remove a).get id).or (List.lookup id [(a, c)]) := List.lookup_append
  rw [happ, hr]
  by_cases h : id = a
  · subst h
    simp
  · have hb : (id == a) = false := by simpa using h
    simp [h, List.lookup_cons, hb]

/-- The two passes at the same definition. -/
structure Agrees (todo : List ChildDefinition) (p : Pass) (r : Identity.Reconciled) : Prop where
  channels : ∀ id, r.channels.get id = (p.channels.lookup id).map (flagged p.heap)
  identities : ∀ id, r.identities.get id = (p.identities.lookup id).map (flagged p.heap)
  shown : ∀ id i, p.identities.lookup id = some i → p.channels.lookup id = some i
  /-- A definition's own identity is in the map as a static one only. -/
  own : ∀ child ∈ todo, ∀ i, child.kind = .supervisor i → ∀ id, p.channels.lookup id = some i →
    p.heap.staticallyConfigured i = true

variable {todo : List ChildDefinition} {r : Identity.Reconciled}

theorem Agrees.reuse (ha : Agrees (child :: todo) p r) {stable : Nat} (hc : p.channels.lookup child.id = some stable) :
    Agrees todo { p with identities := p.identities.insert child.id stable }
      { r with identities := r.identities.insert child.id (flagged p.heap stable) } where
  channels := ha.channels
  identities := by
    intro id
    rw [get_insert, ha.identities id]
    by_cases hid : id = child.id
    · subst hid
      simp
    · simp [hid, AList.lookup_insert_ne hid]
  shown := by
    intro id i hi
    by_cases hid : id = child.id
    · subst hid
      rw [AList.lookup_insert] at hi
      exact hc.trans hi
    · rw [AList.lookup_insert_ne hid] at hi
      exact ha.shown id i hi
  own := fun c hc => ha.own c (List.mem_cons_of_mem child hc)

theorem Agrees.claim (ha : Agrees (child :: todo) p r) {own : Nat} (hk : child.kind = .supervisor own) :
    Agrees todo
      { heap := p.heap.stableChannels own true
        channels := p.channels.insert child.id own
        identities := p.identities.insert child.id own
        displaced := p.displaced ++ (p.channels.lookup child.id).toList }
      { channels := r.channels.insert child.id ⟨own, true⟩
        identities := r.identities.insert child.id ⟨own, true⟩
        closed := r.closed ++ (r.channels.get child.id).toList } := by
  have hnew : flagged (p.heap.stableChannels own true) own = ⟨own, true⟩ := by
    simp [flagged, Heap.staticallyConfigured_stableChannels]
  -- an entry that is there already keeps its flag: it is not this definition's, or static
  have hold : ∀ id, (p.channels.lookup id).map (flagged (p.heap.stableChannels own true)) =
      (p.channels.lookup id).map (flagged p.heap) := by
    intro id
    cases hi : p.channels.lookup id with
    | none => rfl
    | some i =>
      have hflag : i = own → p.heap.staticallyConfigured own = true := by
        intro e
        subst e
        exact ha.own child List.mem_cons_self i hk id hi
      simp [flagged_stableChannels hflag]
  have hshown : ∀ id, (p.identities.lookup id).map (flagged (p.heap.stableChannels own true)) =
      (p.identities.lookup id).map (flagged p.heap) := by
    intro id
    cases hi : p.identities.lookup id with
    | none => rfl
    | some i => simpa [ha.shown id i hi] using hold id
  exact
    { channels := by
        intro id
        rw [get_insert, ha.channels id, ← hold id]
        by_cases hid : id = child.id
        · subst hid
          simp [hnew]
        · simp [hid, AList.lookup_insert_ne hid]
      identities := by
        intro id
        rw [get_insert, ha.identities id]
        by_cases hid : id = child.id
        · subst hid
          simp [hnew]
        · simp [hid, AList.lookup_insert_ne hid, hshown id]
      shown := by
        intro id i hi
        by_cases hid : id = child.id
        · subst hid
          rw [AList.lookup_insert] at hi ⊢
          exact hi
        · rw [AList.lookup_insert_ne hid] at hi ⊢
          exact ha.shown id i hi
      own := by
        intro c hc i hi id hl
        rw [Heap.staticallyConfigured_stableChannels]
        by_cases hid : id = child.id
        · subst hid
          rw [AList.lookup_insert] at hl
          cases hl
          simp
        · rw [AList.lookup_insert_ne hid] at hl
          simp [ha.own c (List.mem_cons_of_mem child hc) i hi id hl] }

theorem Agrees.next (ha : Agrees (child :: todo) p r) :
    Agrees todo (reconcileChild p child) (Identity.reconcileChild r child) := by
  have htask : child.kind = .task → Agrees todo p r := fun _ =>
    { ha with own := fun c hc => ha.own c (List.mem_cons_of_mem child hc) }
  unfold reconcileChild Identity.reconcileChild
  cases hk : child.kind with
  | task => exact htask hk
  | supervisor own =>
    have hf : (r.channels.get child.id).filter (·.staticallyConfigured) =
        ((p.channels.lookup child.id).filter p.heap.staticallyConfigured).map (flagged p.heap) := by
      rw [ha.channels child.id]
      cases p.channels.lookup child.id with
      | none => rfl
      | some i => cases hs : p.heap.staticallyConfigured i <;> simp [Option.filter_some, flagged, hs]
    simp only [hf]
    cases hc : (p.channels.lookup child.id).filter p.heap.staticallyConfigured with
    | none => exact ha.claim hk
    | some stable => exact ha.reuse (Option.filter_eq_some_iff.mp hc).1

theorem Agrees.fold (ha : Agrees todo p r) :
    Agrees [] (todo.foldl reconcileChild p) (todo.foldl Identity.reconcileChild r) := by
  induction todo generalizing p r with
  | nil => exact ha
  | cons child todo ih => exact ih ha.next

/-- The pass over maps with flags returns the same identities and leaves the same map. -/
theorem reconcile_agrees (n : NestedChannels) (hn : ∀ id, n.get id = (m.lookup id).map (flagged h))
    (hown : ∀ child ∈ children, ∀ i, child.kind = .supervisor i → ∀ id, m.lookup id = some i →
      h.staticallyConfigured i = true) (id : String) :
    let r := reconcileStableIdentities children h m
    (Identity.reconcileStableIdentities children n).identities.get id = (r.identities.lookup id).map (flagged r.heap) ∧
      (Identity.reconcileStableIdentities children n).channels.get id =
        (r.channels.lookup id).map (flagged r.heap) := by
  intro r
  have ha : Agrees [] (loop children h m) (children.foldl Identity.reconcileChild ⟨n, [], []⟩) :=
    Agrees.fold ⟨hn, fun _ => rfl, by simp, hown⟩
  have hflag : flagged r.heap = flagged (loop children h m).heap := by
    funext i
    have hs := congrFun (Heap.closeAll_staticallyConfigured (h := (loop children h m).heap) r.closed) i
    exact congrArg (StableChannels.mk i) hs
  have hids := ha.identities id
  rw [← hflag] at hids
  refine ⟨hids, ?_⟩
  have hch : (Identity.reconcileStableIdentities children n).channels.get id = _ :=
    get_filter (fun a => ((children.foldl Identity.reconcileChild ⟨n, [], []⟩).identities.get a).isSome) _ id
  have hr : r.channels.lookup id = (loop children h m).identities.lookup id := lookup_channels id
  rw [hch, hids, hr]
  cases hid : (loop children h m).identities.lookup id with
  | none => simp
  | some i =>
    simp only [Option.map_some, Option.isSome_some, if_true]
    rw [ha.channels id, ha.shown id i hid, hflag]
    rfl

end Kokage.Identity.Reconcile

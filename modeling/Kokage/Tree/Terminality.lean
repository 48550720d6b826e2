/-
  Kokage.Tree.Terminality — which reserved identities a failed lowering makes terminal.

  When lowering fails, the scopes on the way down to the error have builders that drop.
  Each reaches, through its map, the declarations already pushed into it; scopes built
  below those are reached by their own maps; scopes not yet lowered drop with their
  reservations. The one way to be missed is to share the id of a later sibling scope in a
  builder that is never finished: the later one takes the entry in the map, and the
  earlier one was claimed, so nothing makes it terminal. `ScopeNode.loses` is that
  condition, on the declaration alone, and `failed_spawn_terminal_iff` says that it is
  the only one.
-/

import Kokage.Tree.Lower

namespace Kokage.Tree

open Kokage.Lib Kokage.Supervisor

/-! ## Which trees fail, and which lose an identity -/

/-- The definition a declared child is lowered to. -/
def SupervisionChild.declared (config : ScopeConfig) : SupervisionChild → ChildDefinition
  | .actor node => actorDefinition config node
  | .task definition => definition
  | .scope id node restart shutdown => scopeDefinition id node.config.reservation restart shutdown

/-- What `build` checks of an ordered scope. -/
def checkBuild (config : ScopeConfig) (definitions : List ChildDefinition) : Except BuildError Unit := do
  config.defaultChildRestart.validate
  OrderedSupervisorBuilder.validateChildren [] definitions

def isError {α : Type} : Except BuildError α → Bool
  | .ok _ => false
  | .error _ => true

mutual

/-- The scope has a setting that lowering rejects, in it or below it. -/
def ScopeNode.fails : ScopeNode → Bool
  | .dynamic config => isError (checkCapacity config) || isError config.defaultChildRestart.validate
  | .ordered config children =>
    isError (checkCapacity config) || failsIn children || isError (checkBuild config (children.map (·.declared config)))

def failsIn : List SupervisionChild → Bool
  | [] => false
  | child :: rest => child.fails || failsIn rest

def SupervisionChild.fails : SupervisionChild → Bool
  | .actor node => isError node.validate
  | .task _ => false
  | .scope _ node _ _ => node.fails

end

mutual

/-- On the way down to the first error, some scope has two scope children of one id among
    those before the error. -/
def ScopeNode.loses : ScopeNode → Bool
  | .dynamic _ => false
  | .ordered config children => !isError (checkCapacity config) && losesIn [] children

/-- The same of one scope's children, when the scopes of ids `lowered` come before them. -/
def losesIn (lowered : List String) : List SupervisionChild → Bool
  | [] => !decide lowered.Nodup
  | .actor node :: rest => if isError node.validate then !decide lowered.Nodup else losesIn lowered rest
  | .task _ :: rest => losesIn lowered rest
  | .scope id node _ _ :: rest =>
    if node.fails then !decide lowered.Nodup || node.loses else losesIn (lowered ++ [id]) rest

end

/-! ## The map of nested identities -/

def keys (map : List (String × Channels)) : List String := map.map (·.1)

theorem terminalAll_append : ∀ (xs ys : List (String × Channels)), terminalAll (xs ++ ys) = terminalAll xs ++ terminalAll ys
  | [], _ => rfl
  | (_, c) :: xs, ys => by
    rw [List.cons_append, terminalAll, terminalAll, terminalAll_append xs ys, List.append_assoc]

theorem Channels.identity_mem (c : Channels) : c.identity ∈ c.terminal := by
  cases c with
  | mk identity nested =>
    unfold Channels.terminal
    exact List.mem_cons_self ..

theorem mem_terminalAll {map : List (String × Channels)} {x : Nat} :
    x ∈ terminalAll map ↔ ∃ entry ∈ map, x ∈ entry.2.terminal := by
  induction map with
  | nil => simp [terminalAll]
  | cons entry rest ih =>
    obtain ⟨key, c⟩ := entry
    rw [terminalAll, List.mem_append, ih]
    simp

/-- Without a `key` in the map, an insertion only adds. -/
theorem insertNested_of_new {map : List (String × Channels)} {key : String} (h : key ∉ keys map) (c : Channels) :
    insertNested map key c = map ++ [(key, c)] := by
  unfold insertNested
  congr 1
  refine List.filter_eq_self.mpr ?_
  intro entry he
  have hne : entry.1 ≠ key := by
    intro heq
    exact h (List.mem_map.mpr ⟨entry, he, heq⟩)
  simpa using hne

/-- An insertion over a `key` loses everything its old entry reached. -/
theorem insertNested_loses {map : List (String × Channels)} {key : String} (h : key ∈ keys map)
    (hnodup : (terminalAll map).Nodup) : ∃ x ∈ terminalAll map, x ∉ terminalAll (map.filter fun entry => entry.1 ≠ key) := by
  obtain ⟨entry, he, hkey⟩ := List.mem_map.mp h
  refine ⟨entry.2.identity, mem_terminalAll.mpr ⟨entry, he, entry.2.identity_mem⟩, ?_⟩
  intro hin
  obtain ⟨other, hother, hx⟩ := mem_terminalAll.mp hin
  obtain ⟨hmem, hne⟩ := List.mem_filter.mp hother
  have hdiff : entry ≠ other := by
    intro heq
    subst heq
    simp [hkey] at hne
  -- two entries of the map would share an identity
  obtain ⟨before, after, rfl⟩ := List.append_of_mem he
  rw [terminalAll_append, terminalAll] at hnodup
  have hmine : entry.2.identity ∈ entry.2.terminal := entry.2.identity_mem
  rcases List.mem_append.mp hmem with hb | ha
  · have hb : entry.2.identity ∈ terminalAll before := mem_terminalAll.mpr ⟨other, hb, hx⟩
    exact List.disjoint_of_nodup_append hnodup hb (List.mem_append_left _ hmine)
  · rcases List.mem_cons.mp ha with heq | ha
    · exact hdiff heq.symm
    · have ha : entry.2.identity ∈ terminalAll after := mem_terminalAll.mpr ⟨other, ha, hx⟩
      exact List.disjoint_of_nodup_append (List.Nodup.of_append_right hnodup) hmine ha

theorem keys_insertNested (map : List (String × Channels)) (key : String) (c : Channels) (k : String) :
    k ∈ keys (insertNested map key c) ↔ k ∈ keys map ∨ k = key := by
  unfold insertNested keys
  rw [List.map_append, List.mem_append]
  by_cases hk : k = key
  · simp [hk]
  · constructor
    · intro h
      rcases h with h | h
      · obtain ⟨entry, he, rfl⟩ := List.mem_map.mp h
        exact .inl (List.mem_map.mpr ⟨entry, (List.mem_filter.mp he).1, rfl⟩)
      · simp [hk] at h
    · intro h
      rcases h with h | h
      · obtain ⟨entry, he, rfl⟩ := List.mem_map.mp h
        exact .inl (List.mem_map.mpr ⟨entry, List.mem_filter.mpr ⟨he, by simpa using hk⟩, rfl⟩)
      · exact absurd h hk

/-! ## Drops -/

theorem dropAll_eq_nil {children : List ChildSpec} : dropAll children = [] ↔ ∀ c ∈ children, c.drop = [] := by
  induction children with
  | nil => simp [dropAll]
  | cons c rest ih =>
    rw [dropAll, List.append_eq_nil_iff, ih]
    simp

/-- A claimed declaration whose children are claimed does nothing when it drops. -/
theorem claim_drop (d : ChildDefinition) {s : BuiltSupervisor} (h : dropAll s.children = []) :
    (ChildSpec.supervisor d s).claim.drop = [] := by
  obtain ⟨children, channels, flag⟩ := s
  have h : dropAll children = [] := h
  simpa [ChildSpec.claim, BuiltSupervisor.claim, ChildSpec.drop, BuiltSupervisor.drop] using h

theorem claim_drop_of_drop {c : ChildSpec} (h : c.drop = []) : c.claim.drop = [] := by
  cases c with
  | task d => exact h
  | supervisor d s =>
    obtain ⟨children, channels, flag⟩ := s
    rw [ChildSpec.drop, BuiltSupervisor.drop, List.append_eq_nil_iff] at h
    exact claim_drop d h.2

theorem claim_definition (c : ChildSpec) : c.claim.definition = c.definition := by
  cases c <;> rfl

theorem childSpec_definitions (b : OrderedSupervisorBuilder) (c : ChildSpec) :
    (b.childSpec c).children.map (·.definition) = b.children.map (·.definition) ++ [c.definition] := by
  simp [OrderedSupervisorBuilder.childSpec, claim_definition]

theorem prepareChild_claim (map : List (String × Channels)) (c : ChildSpec) : prepareChild map c.claim = prepareChild map c := by
  cases c with
  | task d => rfl
  | supervisor d s =>
    obtain ⟨children, channels, flag⟩ := s
    rfl

theorem prepareNestedChannels_map {f : ChildSpec → ChildSpec} (hf : ∀ map c, prepareChild map (f c) = prepareChild map c)
    (children : List ChildSpec) : prepareNestedChannels (children.map f) = prepareNestedChannels children := by
  unfold prepareNestedChannels
  rw [List.foldl_map]
  congr 1
  funext map c
  exact hf map c

theorem prepareNestedChannels_snoc (children : List ChildSpec) (c : ChildSpec) :
    prepareNestedChannels (children ++ [c]) = prepareChild (prepareNestedChannels children) c := by
  simp [prepareNestedChannels]

/-! ## A builder and what it reaches -/

/-- The builder has taken in scopes of ids `lowered`, whose identities are `ids`. Its map
    reaches them all exactly when the ids are different. -/
structure Holds (b : OrderedSupervisorBuilder) (lowered : List String) (ids : List Nat) : Prop where
  nested_eq : b.nested = prepareNestedChannels b.children
  drops : dropAll b.children = []
  keys_iff : ∀ k, k ∈ keys b.nested ↔ k ∈ lowered
  nodup : (terminalAll b.nested).Nodup
  within : ∀ x ∈ terminalAll b.nested, x ∈ ids
  complete_iff : (∀ x ∈ ids, x ∈ terminalAll b.nested) ↔ lowered.Nodup

namespace Holds

variable {b : OrderedSupervisorBuilder} {lowered : List String} {ids : List Nat}

theorem reserved (config : ScopeConfig) (identity : Nat) : Holds (.reserved config identity) [] [] where
  nested_eq := rfl
  drops := rfl
  keys_iff := by
    intro k
    rfl
  nodup := List.nodup_nil
  within := by
    intro x hx
    cases hx
  complete_iff := by simp

/-- What dropping the builder makes terminal. -/
theorem drop_eq (h : Holds b lowered ids) : b.drop = b.identity :: terminalAll b.nested := by
  unfold OrderedSupervisorBuilder.drop
  rw [h.drops, List.append_nil, Channels.terminal]

theorem childSpec_nested_eq (h : Holds b lowered ids) (c : ChildSpec) :
    (b.childSpec c).nested = prepareChild b.nested c := by
  show prepareNestedChannels (b.children ++ [c]) = _
  rw [prepareNestedChannels_snoc, h.nested_eq]

theorem childSpec_consistent (h : Holds b lowered ids) {c : ChildSpec} (hc : c.claim.drop = []) :
    (b.childSpec c).nested = prepareNestedChannels (b.childSpec c).children ∧ dropAll (b.childSpec c).children = [] := by
  refine ⟨(prepareNestedChannels_map prepareChild_claim _).symm, dropAll_eq_nil.mpr ?_⟩
  intro c' hc'
  obtain ⟨c'', hmem, rfl⟩ := List.mem_map.mp hc'
  rcases List.mem_append.mp hmem with hmem | hmem
  · exact claim_drop_of_drop (dropAll_eq_nil.mp h.drops c'' hmem)
  · rw [List.mem_singleton.mp hmem]
    exact hc

theorem task (h : Holds b lowered ids) (d : ChildDefinition) : Holds (b.childSpec (.task d)) lowered ids := by
  have hn := h.childSpec_nested_eq (.task d)
  have hn : (b.childSpec (.task d)).nested = b.nested := hn
  obtain ⟨hnested, hdrops⟩ := h.childSpec_consistent (c := .task d) rfl
  refine ⟨hnested, hdrops, ?_, ?_, ?_, ?_⟩
  · rw [hn]
    exact h.keys_iff
  · rw [hn]
    exact h.nodup
  · rw [hn]
    exact h.within
  · rw [hn]
    exact h.complete_iff

/-- A scope is taken in whose identities `own` are new. -/
theorem scope (h : Holds b lowered ids) (d : ChildDefinition) {s : BuiltSupervisor} {own : List Nat}
    (hdrop : dropAll s.children = []) (hnodup : s.channels.terminal.Nodup)
    (hown : ∀ x, x ∈ s.channels.terminal ↔ x ∈ own) (hnew : ∀ x ∈ own, x ∉ ids) :
    Holds (b.childSpec (.supervisor d s)) (lowered ++ [d.id]) (ids ++ own) := by
  have hn : (b.childSpec (.supervisor d s)).nested = insertNested b.nested d.id s.channels :=
    h.childSpec_nested_eq (.supervisor d s)
  obtain ⟨hnested, hdrops⟩ := h.childSpec_consistent (claim_drop d hdrop)
  -- the map reaches what is left of it and the new scope
  have hall : terminalAll (insertNested b.nested d.id s.channels) =
      terminalAll (b.nested.filter fun entry => entry.1 ≠ d.id) ++ s.channels.terminal := by
    unfold insertNested
    rw [terminalAll_append, terminalAll, terminalAll, List.append_nil]
  have hkept : ∀ x ∈ terminalAll (b.nested.filter fun entry => entry.1 ≠ d.id), x ∈ terminalAll b.nested := by
    intro x hx
    obtain ⟨entry, he, hx⟩ := mem_terminalAll.mp hx
    exact mem_terminalAll.mpr ⟨entry, (List.mem_filter.mp he).1, hx⟩
  have hsub : (terminalAll (b.nested.filter fun entry => entry.1 ≠ d.id)).Sublist (terminalAll b.nested) := by
    have : ∀ map : List (String × Channels),
        (terminalAll (map.filter fun entry => entry.1 ≠ d.id)).Sublist (terminalAll map) := by
      intro map
      induction map with
      | nil => exact List.Sublist.refl _
      | cons entry rest ih =>
        rw [List.filter_cons]
        split
        · rw [terminalAll, terminalAll]
          exact (List.Sublist.refl _).append ih
        · rw [terminalAll]
          exact ih.trans (List.sublist_append_right ..)
    exact this b.nested
  refine ⟨hnested, hdrops, ?_, ?_, ?_, ?_⟩
  · intro k
    rw [hn, keys_insertNested, h.keys_iff, List.mem_append, List.mem_singleton]
  · rw [hn, hall]
    refine List.Nodup.append (h.nodup.sublist hsub) hnodup ?_
    intro x hx hx'
    exact hnew x ((hown x).mp hx') (h.within x (hkept x hx))
  · rw [hn, hall]
    intro x hx
    rcases List.mem_append.mp hx with hx | hx
    · exact List.mem_append_left _ (h.within x (hkept x hx))
    · exact List.mem_append_right _ ((hown x).mp hx)
  · rw [hn]
    have hconcat : (lowered ++ [d.id]).Nodup ↔ d.id ∉ lowered ∧ lowered.Nodup := by
      rw [← List.concat_eq_append]
      exact List.nodup_concat ..
    rw [hconcat]
    by_cases hkey : d.id ∈ lowered
    · -- the old entry is gone, and with it what only it reached
      obtain ⟨x, hx, hgone⟩ := insertNested_loses ((h.keys_iff d.id).mpr hkey) h.nodup
      have hx' : x ∈ ids := h.within x hx
      refine iff_of_false ?_ (fun hand => hand.1 hkey)
      intro hcover
      have := hcover x (List.mem_append_left _ hx')
      rw [hall] at this
      rcases List.mem_append.mp this with hin | hin
      · exact hgone hin
      · exact hnew x ((hown x).mp hin) hx'
    · have hfresh : d.id ∉ keys b.nested := fun hk => hkey ((h.keys_iff d.id).mp hk)
      rw [insertNested_of_new hfresh, terminalAll_append, terminalAll, terminalAll, List.append_nil, ← h.complete_iff]
      constructor
      · intro hcover
        refine ⟨hkey, fun x hx => ?_⟩
        rcases List.mem_append.mp (hcover x (List.mem_append_left _ hx)) with hin | hin
        · exact hin
        · exact absurd hx (hnew x ((hown x).mp hin))
      · intro ⟨_, hcover⟩ x hx
        rcases List.mem_append.mp hx with hx | hx
        · exact List.mem_append_left _ (hcover x hx)
        · exact List.mem_append_right _ ((hown x).mpr hx)

end Holds

/-! ## What a lowering did -/

/-- Lowering took the identities `own` out of the reservations and ended none. -/
structure Lowered (own : List Nat) (s s' : Lowering) : Prop where
  terminated_eq : s'.terminated = s.terminated
  reservations_iff : ∀ x, x ∈ s'.reservations ↔ x ∈ s.reservations ∧ x ∉ own
  nodup : s'.reservations.Nodup

theorem Lowered.refl {s : Lowering} (h : s.reservations.Nodup) : Lowered [] s s where
  terminated_eq := rfl
  reservations_iff := by simp
  nodup := h

theorem Lowered.trans {own own' : List Nat} {s s' s'' : Lowering} (h : Lowered own s s') (h' : Lowered own' s' s'') :
    Lowered (own ++ own') s s'' where
  terminated_eq := h'.terminated_eq.trans h.terminated_eq
  reservations_iff := by
    intro x
    rw [h'.reservations_iff, h.reservations_iff, List.mem_append, not_or, and_assoc]
  nodup := h'.nodup

/-- Lowering failed and ended `ended`, all of its own. What it had not taken is still
    reserved, and nothing of `own` is missed exactly when `lost` is false. -/
structure Failed (own : List Nat) (lost : Bool) (s s' : Lowering) (ended : List Nat) : Prop where
  terminated_eq : s'.terminated = s.terminated ++ ended
  ended_own : ∀ x ∈ ended, x ∈ own
  reservations_subset : ∀ x ∈ s'.reservations, x ∈ s.reservations
  others_stay : ∀ x ∈ s.reservations, x ∉ own → x ∈ s'.reservations
  covered_iff : (∀ x ∈ own, x ∈ s'.reservations ∨ x ∈ ended) ↔ lost = false

theorem Failed.nothing (s : Lowering) : Failed [] false s s [] where
  terminated_eq := (List.append_nil _).symm
  ended_own := by
    intro x hx
    cases hx
  reservations_subset := fun _ hx => hx
  others_stay := fun _ hx _ => hx
  covered_iff := by simp

/-- The lowering of a child with identities `own` failed, and the builder it was moved
    into drops. The identities `rest` of later children are not touched. -/
theorem Holds.failed {b : OrderedSupervisorBuilder} {lowered : List String} {ids own ended : List Nat} {lost : Bool}
    {s s' : Lowering} (h : Holds b lowered ids) (hf : Failed own lost s s' ended) (rest : List Nat)
    (hnodup : (b.identity :: ids ++ (own ++ rest)).Nodup) (hrest : ∀ x ∈ rest, x ∈ s.reservations)
    (hids : ∀ x ∈ ids, x ∉ s.reservations) :
    Failed (b.identity :: ids ++ (own ++ rest)) (!decide lowered.Nodup || lost) s (s'.terminate b.drop)
      (ended ++ b.drop) := by
  obtain ⟨hnb, hnr, hdisj⟩ := List.nodup_append'.mp hnodup
  obtain ⟨hself, -⟩ := List.nodup_cons.mp hnb
  obtain ⟨-, -, hsep⟩ := List.nodup_append'.mp hnr
  rw [h.drop_eq]
  refine ⟨?_, ?_, hf.reservations_subset, ?_, ?_⟩
  · show s'.terminated ++ _ = _
    rw [hf.terminated_eq, List.append_assoc]
  · intro x hx
    rcases List.mem_append.mp hx with hx | hx
    · have := hf.ended_own x hx
      simp [this]
    · rcases List.mem_cons.mp hx with rfl | hx
      · simp
      · have := h.within x hx
        simp [this]
  · intro x hx hne
    refine hf.others_stay x hx fun hown => hne ?_
    simp [hown]
  · rw [Bool.or_eq_false_iff, Bool.not_eq_false', decide_eq_true_iff, ← h.complete_iff, ← hf.covered_iff]
    constructor
    · intro hcover
      refine ⟨fun x hx => ?_, fun x hx => ?_⟩
      · -- an identity taken in is in no reservation and not in the failed child
        rcases hcover x (by simp [hx]) with hin | hin
        · exact absurd (hf.reservations_subset x hin) (hids x hx)
        · rcases List.mem_append.mp hin with hin | hin
          · have := hf.ended_own x hin
            exact absurd (List.mem_append_left rest this) (hdisj (List.mem_cons_of_mem _ hx))
          · rcases List.mem_cons.mp hin with rfl | hin
            · exact absurd hx hself
            · exact hin
      · rcases hcover x (by simp [hx]) with hin | hin
        · exact .inl hin
        · rcases List.mem_append.mp hin with hin | hin
          · exact .inr hin
          · have hb : x ∈ b.identity :: ids := by
              rcases List.mem_cons.mp hin with rfl | hin
              · exact List.mem_cons_self ..
              · exact List.mem_cons_of_mem _ (h.within x hin)
            exact absurd (List.mem_append_left rest hx) (hdisj hb)
    · intro ⟨hcover, hchild⟩ x hx
      simp only [List.cons_append, List.mem_cons, List.mem_append] at hx
      rcases hx with rfl | hx | hx | hx
      · exact .inr (List.mem_append_right _ (List.mem_cons_self ..))
      · exact .inr (List.mem_append_right _ (List.mem_cons_of_mem _ (hcover x hx)))
      · rcases hchild x hx with hin | hin
        · exact .inl hin
        · exact .inr (List.mem_append_left _ hin)
      · exact .inl (hf.others_stay x (hrest x hx) fun hown => hsep hown hx)

/-- Two stretches of a lowering: the first went well, the second failed. -/
theorem Failed.after {own all ended : List Nat} {lost : Bool} {s s' s'' : Lowering} (hl : Lowered own s s')
    (hsub : ∀ x ∈ own, x ∈ all) (hf : Failed all lost s' s'' ended) : Failed all lost s s'' ended where
  terminated_eq := by rw [hf.terminated_eq, hl.terminated_eq]
  ended_own := hf.ended_own
  reservations_subset := fun x hx => ((hl.reservations_iff x).mp (hf.reservations_subset x hx)).1
  others_stay := by
    intro x hx hne
    exact hf.others_stay x ((hl.reservations_iff x).mpr ⟨hx, fun hown => hne (hsub x hown)⟩) hne
  covered_iff := hf.covered_iff

/-! ## Lowering, scope by scope -/

def scopeIds : List SupervisionChild → List String
  | [] => []
  | .scope id _ _ _ :: rest => id :: scopeIds rest
  | _ :: rest => scopeIds rest

/-- What lowering a scope comes to. -/
def NodeSpec (n : ScopeNode) (s : Lowering) : Except BuildError BuiltSupervisor × Lowering → Prop
  | (.ok sup, s') => n.fails = false ∧ sup.channels.identity = n.config.reservation ∧ sup.channels.terminal.Nodup ∧
      (∀ x, x ∈ sup.channels.terminal ↔ x ∈ n.identities) ∧ dropAll sup.children = [] ∧ Lowered n.identities s s'
  | (.error _, s') => n.fails = true ∧ ∃ ended, Failed n.identities n.loses s s' ended

/-- What lowering the rest of a scope's children into its builder comes to. -/
def ChildrenSpec (config : ScopeConfig) (b : OrderedSupervisorBuilder) (lowered : List String) (ids : List Nat)
    (children : List SupervisionChild) (s : Lowering) : Except BuildError OrderedSupervisorBuilder × Lowering → Prop
  | (.ok b', s') => failsIn children = false ∧ losesIn lowered children = !decide (lowered ++ scopeIds children).Nodup ∧
      Holds b' (lowered ++ scopeIds children) (ids ++ identitiesOf children) ∧
      (b'.identity = b.identity ∧ b'.defaultChildRestart = b.defaultChildRestart) ∧
      b'.children.map (·.definition) = b.children.map (·.definition) ++ children.map (·.declared config) ∧
      Lowered (identitiesOf children) s s'
  | (.error _, s') => failsIn children = true ∧
      ∃ ended, Failed (b.identity :: ids ++ identitiesOf children) (losesIn lowered children) s s' ended

theorem ChildrenSpec.task {config : ScopeConfig} {b : OrderedSupervisorBuilder} {lowered : List String} {ids : List Nat}
    {child : SupervisionChild} {rest : List SupervisionChild} {s : Lowering}
    {r : Except BuildError OrderedSupervisorBuilder × Lowering} (hids : child.identities = []) (hfails : child.fails = false)
    (hscopes : scopeIds (child :: rest) = scopeIds rest) (hloses : losesIn lowered (child :: rest) = losesIn lowered rest)
    (h : ChildrenSpec config (b.childSpec (.task (child.declared config))) lowered ids rest s r) :
    ChildrenSpec config b lowered ids (child :: rest) s r := by
  have hi : identitiesOf (child :: rest) = identitiesOf rest := by rw [identitiesOf, hids, List.nil_append]
  have hf : failsIn (child :: rest) = failsIn rest := by rw [failsIn, hfails, Bool.false_or]
  obtain ⟨r, s'⟩ := r
  cases r with
  | error e =>
    obtain ⟨hfail, ended, hended⟩ := h
    refine ⟨hf.trans hfail, ended, ?_⟩
    rw [hi, hloses]
    exact hended
  | ok b' =>
    obtain ⟨hok, hl, hholds, hsame, hdefs, hlow⟩ := h
    refine ⟨hf.trans hok, ?_, ?_, hsame, ?_, ?_⟩
    · rw [hloses, hscopes]
      exact hl
    · rw [hscopes, hi]
      exact hholds
    · rw [hdefs, childSpec_definitions, List.append_assoc]
      rfl
    · rw [hi]
      exact hlow

theorem run_lowerChildren_cons (config : ScopeConfig) (b : OrderedSupervisorBuilder) (child : SupervisionChild)
    (rest : List SupervisionChild) (s : Lowering) :
    lowerChildren config b (child :: rest) s =
      match child.lower config b s with
      | (.ok b', s') => lowerChildren config b' rest s'
      | (.error e, s') => (.error e, s') := by
  rw [lowerChildren, Act.run_bind]
  generalize child.lower config b s = r
  obtain ⟨r, s'⟩ := r
  cases r <;> rfl

/-- Taking the scope's own reservation. -/
theorem takeReservation_lowered {config : ScopeConfig} {s : Lowering} (hn : s.reservations.Nodup)
    (hr : config.reservation ∈ s.reservations) :
    ∃ s', takeReservation config s = (.ok config.reservation, s') ∧ Lowered [config.reservation] s s' := by
  refine ⟨_, if_pos hr, rfl, ?_, hn.erase _⟩
  intro x
  show x ∈ s.reservations.erase config.reservation ↔ _
  rw [hn.mem_erase_iff, List.mem_singleton, and_comm]

/-- What a scope's `build` accepts has different ids. -/
theorem validateChildren_nodup : ∀ {definitions : List ChildDefinition} {seen : List String},
    OrderedSupervisorBuilder.validateChildren seen definitions = .ok () →
    (definitions.map (·.id)).Nodup ∧ ∀ d ∈ definitions, d.id ∉ seen
  | [], _, _ => ⟨List.nodup_nil, fun _ hd => absurd hd List.not_mem_nil⟩
  | d :: rest, seen, h => by
    rw [OrderedSupervisorBuilder.validateChildren] at h
    by_cases hempty : d.id = ""
    · rw [if_pos hempty] at h
      cases h
    · rw [if_neg hempty] at h
      cases hv : d.restart.validate with
      | error e =>
        rw [hv] at h
        cases h
      | ok _ =>
        rw [hv] at h
        by_cases hseen : d.id ∈ seen
        · simp only [hseen, if_true] at h
          cases h
        · simp only [hseen, if_false] at h
          obtain ⟨hnodup, hnew⟩ := @validateChildren_nodup rest (d.id :: seen) h
          refine ⟨?_, ?_⟩
          · rw [List.map_cons, List.nodup_cons]
            refine ⟨?_, hnodup⟩
            intro hm
            obtain ⟨d', hd', hid⟩ := List.mem_map.mp hm
            exact hnew d' hd' (by rw [hid]; exact List.mem_cons_self ..)
          · intro d' hd'
            rcases List.mem_cons.mp hd' with rfl | hd'
            · exact hseen
            · exact fun hm => hnew d' hd' (List.mem_cons_of_mem _ hm)

theorem scopeIds_sublist (config : ScopeConfig) : ∀ children : List SupervisionChild,
    (scopeIds children).Sublist ((children.map (·.declared config)).map (·.id))
  | [] => List.Sublist.refl _
  | .actor _ :: rest => (scopeIds_sublist config rest).cons _
  | .task _ :: rest => (scopeIds_sublist config rest).cons _
  | .scope _ _ _ _ :: rest => (scopeIds_sublist config rest).cons_cons _

theorem lift_ok {α : Type} {x : Except BuildError α} {a : α} (h : x = .ok a) (s : Lowering) : lift x s = (.ok a, s) := by
  subst h
  rfl

theorem lift_error {α : Type} {x : Except BuildError α} {e : BuildError} (h : x = .error e) (s : Lowering) :
    lift x s = (.error e, s) := by
  subst h
  rfl

theorem prepareChild_mapDefinition {f : ChildDefinition → ChildDefinition} (hf : ∀ d, (f d).id = d.id)
    (map : List (String × Channels)) (c : ChildSpec) : prepareChild map (c.mapDefinition f) = prepareChild map c := by
  cases c with
  | task d => rfl
  | supervisor d s =>
    show insertNested map (f d).id s.channels = _
    rw [hf]
    rfl

theorem mapDefinition_drop (f : ChildDefinition → ChildDefinition) (c : ChildSpec) : (c.mapDefinition f).drop = c.drop := by
  cases c <;> rfl

/-- The supervisor of a builder that reaches everything it took in. -/
theorem Holds.built {b : OrderedSupervisorBuilder} {lowered : List String} {ids : List Nat} (h : Holds b lowered ids)
    (hself : b.identity ∉ ids) (hlowered : lowered.Nodup) :
    b.built.channels.identity = b.identity ∧ b.built.channels.terminal.Nodup ∧
    (∀ x, x ∈ b.built.channels.terminal ↔ x ∈ b.identity :: ids) ∧ dropAll b.built.children = [] := by
  have hnested : b.built.channels = .mk b.identity b.nested := by
    show Channels.mk b.identity (prepareNestedChannels _) = _
    have hid : ∀ d : ChildDefinition, (d.applyDefaults b.defaultChildRestart b.defaultChildShutdown).id = d.id :=
      fun _ => rfl
    rw [prepareNestedChannels_map (prepareChild_mapDefinition hid), h.nested_eq]
  rw [hnested, Channels.terminal]
  refine ⟨rfl, ?_, ?_, ?_⟩
  · exact List.nodup_cons.mpr ⟨fun hin => hself (h.within _ hin), h.nodup⟩
  · intro x
    rw [List.mem_cons, List.mem_cons]
    constructor
    · intro hx
      exact hx.imp_right (h.within x)
    · intro hx
      exact hx.imp_right (h.complete_iff.mpr hlowered x)
  · refine dropAll_eq_nil.mpr ?_
    intro c hc
    obtain ⟨c', hc', rfl⟩ := List.mem_map.mp hc
    obtain ⟨c'', hc'', rfl⟩ := List.mem_map.mp hc'
    refine claim_drop_of_drop ?_
    rw [mapDefinition_drop]
    exact dropAll_eq_nil.mp h.drops c'' hc''

/-- The end of an ordered scope: its children are in the builder. -/
theorem build_spec {config : ScopeConfig} {children : List SupervisionChild} {b : OrderedSupervisorBuilder} {s : Lowering}
    (hholds : Holds b (scopeIds children) (identitiesOf children)) (hnodup : (b.identity :: identitiesOf children).Nodup)
    (hrestart : b.defaultChildRestart = config.defaultChildRestart)
    (hdefs : b.children.map (·.definition) = children.map (·.declared config))
    (hids : ∀ x ∈ identitiesOf children, x ∉ s.reservations) :
    match b.build s with
    | (.ok sup, s') => isError (checkBuild config (children.map (·.declared config))) = false ∧
        sup.channels.identity = b.identity ∧ sup.channels.terminal.Nodup ∧
        (∀ x, x ∈ sup.channels.terminal ↔ x ∈ b.identity :: identitiesOf children) ∧
        dropAll sup.children = [] ∧ s' = s
    | (.error _, s') => isError (checkBuild config (children.map (·.declared config))) = true ∧
        ∃ ended, Failed (b.identity :: identitiesOf children) (!decide (scopeIds children).Nodup) s s' ended := by
  have hcheck : b.validate = checkBuild config (children.map (·.declared config)) := by
    unfold OrderedSupervisorBuilder.validate checkBuild
    rw [hrestart, hdefs]
  rw [← hcheck]
  unfold OrderedSupervisorBuilder.build
  rw [Act.run_bind, dropping]
  cases hv : b.validate with
  | error e =>
    rw [lift_error rfl]
    refine ⟨rfl, b.drop, ?_⟩
    have hf := hholds.failed (Failed.nothing s) [] (by simpa using hnodup) (by nofun) hids
    simpa using hf
  | ok u =>
    rw [lift_ok rfl]
    -- the ids were checked, so the map has an entry for each of them
    have hscopes : (scopeIds children).Nodup := by
      rw [hcheck] at hv
      unfold checkBuild at hv
      cases hr : config.defaultChildRestart.validate with
      | error e =>
        rw [hr] at hv
        cases hv
      | ok _ =>
        rw [hr] at hv
        exact (validateChildren_nodup hv).1.sublist (scopeIds_sublist config children)
    obtain ⟨hid, hnd, hmem, hdrop⟩ := hholds.built (List.nodup_cons.mp hnodup).1 hscopes
    exact ⟨rfl, hid, hnd, hmem, hdrop, rfl⟩

/-- The capacity check comes before anything is taken. -/
theorem capacity_spec {n : ScopeNode} {s : Lowering} {e : BuildError} (hc : checkCapacity n.config = .error e)
    (hin : ∀ x ∈ n.identities, x ∈ s.reservations) : NodeSpec n s (n.lower s) := by
  have hlower : n.lower s = (.error e, s) := by
    cases n with
    | dynamic config =>
      have hc : checkCapacity config = .error e := hc
      rw [ScopeNode.lower, Act.run_bind, lift_error hc]
    | ordered config children =>
      have hc : checkCapacity config = .error e := hc
      rw [ScopeNode.lower, Act.run_bind, lift_error hc]
  have hverdict : n.fails = true ∧ n.loses = false := by
    cases n with
    | dynamic config =>
      have hc : checkCapacity config = .error e := hc
      simp [ScopeNode.fails, ScopeNode.loses, hc, isError]
    | ordered config children =>
      have hc : checkCapacity config = .error e := hc
      simp [ScopeNode.fails, ScopeNode.loses, hc, isError]
  rw [hlower]
  refine ⟨hverdict.1, [], (List.append_nil _).symm, by nofun, fun _ hx => hx, fun _ hx _ => hx, ?_⟩
  rw [hverdict.2]
  exact iff_of_true (fun x hx => .inl (hin x hx)) rfl

theorem dynamic_spec {config : ScopeConfig} {s : Lowering} (hc : checkCapacity config = .ok ())
    (hs : s.reservations.Nodup) (hin : config.reservation ∈ s.reservations) :
    NodeSpec (.dynamic config) s ((ScopeNode.dynamic config).lower s) := by
  obtain ⟨s', htake, hlow⟩ := takeReservation_lowered hs hin
  have hids : (ScopeNode.dynamic config).identities = [config.reservation] := by rw [ScopeNode.identities]
  rw [ScopeNode.lower, Act.run_bind, lift_ok hc]
  simp only [Act.run_bind, htake, buildDynamic, dropping]
  cases hv : config.defaultChildRestart.validate with
  | error e =>
    rw [lift_error rfl]
    refine ⟨by simp [ScopeNode.fails, hv, isError], [config.reservation], ?_⟩
    rw [hids]
    refine ⟨by rw [← hlow.terminated_eq]; rfl, fun _ hx => hx, ?_, ?_, ?_⟩
    · exact fun x hx => ((hlow.reservations_iff x).mp hx).1
    · exact fun x hx hne => (hlow.reservations_iff x).mpr ⟨hx, hne⟩
    · exact iff_of_true (fun _ hx => .inr hx) (by rw [ScopeNode.loses])
  | ok _ =>
    rw [lift_ok rfl]
    refine ⟨by simp [ScopeNode.fails, hc, hv, isError], rfl, ?_, ?_, rfl, ?_⟩
    · simp [BuiltSupervisor.channels, Channels.terminal, terminalAll]
    · intro x
      simp [BuiltSupervisor.channels, Channels.terminal, terminalAll, hids]
    · rw [hids]
      exact hlow

theorem run_lower_ordered {config : ScopeConfig} {children : List SupervisionChild} {s s' : Lowering} {identity : Nat}
    (hc : checkCapacity config = .ok ()) (htake : takeReservation config s = (.ok identity, s')) :
    (ScopeNode.ordered config children).lower s =
      match lowerChildren config (.reserved config identity) children s' with
      | (.ok b, s'') => b.build s''
      | (.error e, s'') => (.error e, s'') := by
  rw [ScopeNode.lower, Act.run_bind, lift_ok hc]
  simp only [Act.run_bind, htake]
  generalize lowerChildren config (.reserved config identity) children s' = r
  obtain ⟨r, s''⟩ := r
  cases r <;> rfl

mutual

theorem node_spec : ∀ (n : ScopeNode) (s : Lowering), s.reservations.Nodup → n.identities.Nodup →
    (∀ x ∈ n.identities, x ∈ s.reservations) → NodeSpec n s (n.lower s)
  | .dynamic config, s, hs, _, hin => by
    cases hc : checkCapacity config with
    | error e => exact capacity_spec hc hin
    | ok u => exact dynamic_spec hc hs (hin config.reservation (by simp [ScopeNode.identities]))
  | .ordered config children, s, hs, hn, hin => by
    cases hc : checkCapacity config with
    | error e => exact capacity_spec hc hin
    | ok u =>
      have hown : (ScopeNode.ordered config children).identities = config.reservation :: identitiesOf children := by
        rw [ScopeNode.identities]
      have hloses : (ScopeNode.ordered config children).loses = losesIn [] children := by
        simp [ScopeNode.loses, hc, isError]
      rw [hown] at hn hin
      have hfresh : config.reservation ∉ identitiesOf children := (List.nodup_cons.mp hn).1
      obtain ⟨s₁, htake, hlow⟩ := takeReservation_lowered hs (hin config.reservation (List.mem_cons_self ..))
      have hin₁ : ∀ x ∈ identitiesOf children, x ∈ s₁.reservations := by
        intro x hx
        refine (hlow.reservations_iff x).mpr ⟨hin x (List.mem_cons_of_mem _ hx), ?_⟩
        intro heq
        rw [List.mem_singleton.mp heq] at hx
        exact hfresh hx
      have hspec := children_spec config children (.reserved config config.reservation) [] [] s₁ hlow.nodup
        (.reserved config config.reservation) hn hin₁ (by nofun)
      rw [run_lower_ordered hc htake]
      cases hr : lowerChildren config (.reserved config config.reservation) children s₁ with
      | mk r s₂ =>
        rw [hr] at hspec
        cases r with
        | error e =>
          obtain ⟨hfail, ended, hended⟩ := hspec
          refine ⟨by simp [ScopeNode.fails, hfail], ended, ?_⟩
          rw [hloses, hown]
          exact .after hlow (by simp) hended
        | ok b =>
          obtain ⟨hok, hlost, hholds, ⟨hid, hrestart⟩, hdefs, hlow'⟩ := hspec
          have hid : b.identity = config.reservation := hid
          have hbuild := build_spec (s := s₂) hholds (by rw [hid]; exact hn) hrestart hdefs
            (fun x hx hres => ((hlow'.reservations_iff x).mp hres).2 hx)
          have hall : Lowered (config.reservation :: identitiesOf children) s s₂ := hlow.trans hlow'
          show NodeSpec _ s (b.build s₂)
          cases hb : b.build s₂ with
          | mk r' s₃ =>
            rw [hb] at hbuild
            cases r' with
            | error e =>
              obtain ⟨hfail, ended, hended⟩ := hbuild
              refine ⟨by simp [ScopeNode.fails, hfail], ended, ?_⟩
              rw [hloses, hlost, hown]
              rw [hid] at hended
              exact .after hall (fun _ hx => hx) hended
            | ok sup =>
              obtain ⟨hcheck, hident, hnd, hmem, hdrop, rfl⟩ := hbuild
              refine ⟨?_, hident.trans hid, hnd, ?_, hdrop, ?_⟩
              · rw [ScopeNode.fails, hc, hok, hcheck]
                rfl
              · rw [hown, ← hid]
                exact hmem
              · rw [hown]
                exact hall

theorem children_spec (config : ScopeConfig) : ∀ (children : List SupervisionChild) (b : OrderedSupervisorBuilder)
    (lowered : List String) (ids : List Nat) (s : Lowering), s.reservations.Nodup → Holds b lowered ids →
    (b.identity :: ids ++ identitiesOf children).Nodup → (∀ x ∈ identitiesOf children, x ∈ s.reservations) →
    (∀ x ∈ ids, x ∉ s.reservations) → ChildrenSpec config b lowered ids children s (lowerChildren config b children s)
  | [], b, lowered, ids, s, hs, hholds, _, _, _ => by
    rw [lowerChildren]
    refine ⟨by rw [failsIn], by simp [losesIn, scopeIds], ?_, ⟨rfl, rfl⟩, by simp, ?_⟩
    · simpa [scopeIds, identitiesOf] using hholds
    · simpa [identitiesOf] using Lowered.refl hs
  | .task d :: rest, b, lowered, ids, s, hs, hholds, hn, hin, hids => by
    have hi : identitiesOf (.task d :: rest) = identitiesOf rest := by
      rw [identitiesOf, SupervisionChild.identities, List.nil_append]
    rw [hi] at hn hin
    rw [run_lowerChildren_cons, SupervisionChild.lower]
    refine ChildrenSpec.task (by rw [SupervisionChild.identities]) (by rw [SupervisionChild.fails]) rfl (by rw [losesIn]) ?_
    exact children_spec config rest (b.childSpec (.task d)) lowered ids s hs (hholds.task d) hn hin hids
  | .actor a :: rest, b, lowered, ids, s, hs, hholds, hn, hin, hids => by
    have hi : identitiesOf (.actor a :: rest) = identitiesOf rest := by
      rw [identitiesOf, SupervisionChild.identities, List.nil_append]
    rw [run_lowerChildren_cons, SupervisionChild.lower, Act.run_bind, dropping]
    cases hv : a.validate with
    | error e =>
      rw [lift_error rfl]
      have hf := hholds.failed (Failed.nothing s) (identitiesOf rest) (by rw [hi] at hn; exact hn)
        (by rw [hi] at hin; exact hin) hids
      refine ⟨by simp [failsIn, SupervisionChild.fails, hv, isError], b.drop, ?_⟩
      rw [hi, losesIn, hv]
      simpa [isError] using hf
    | ok u =>
      rw [lift_ok rfl]
      rw [hi] at hn hin
      refine ChildrenSpec.task (by rw [SupervisionChild.identities]) (by rw [SupervisionChild.fails, hv]; rfl) rfl
        (by rw [losesIn, hv]; rfl) ?_
      exact children_spec config rest (b.childSpec (.task (actorDefinition config a))) lowered ids s hs (hholds.task _) hn
        hin hids
  | .scope id node restart shutdown :: rest, b, lowered, ids, s, hs, hholds, hn, hin, hids => by
    have hi : identitiesOf (.scope id node restart shutdown :: rest) = node.identities ++ identitiesOf rest := by
      rw [identitiesOf, SupervisionChild.identities]
    rw [hi] at hn hin
    have hsplit : (b.identity :: (ids ++ node.identities) ++ identitiesOf rest).Nodup := by
      simpa [List.append_assoc] using hn
    obtain ⟨hnb, hnr, hdisj⟩ := List.nodup_append'.mp hn
    obtain ⟨hnode, -, hsep⟩ := List.nodup_append'.mp hnr
    have hspec := node_spec node s hs hnode fun x hx => hin x (List.mem_append_left _ hx)
    rw [run_lowerChildren_cons, SupervisionChild.lower, Act.run_bind, dropping]
    cases hr : node.lower s with
    | mk r s₁ =>
      rw [hr] at hspec
      cases r with
      | error e =>
        obtain ⟨hfail, ended, hended⟩ := hspec
        refine ⟨by simp [failsIn, SupervisionChild.fails, hfail], ended ++ b.drop, ?_⟩
        rw [hi, losesIn, if_pos hfail]
        exact hholds.failed hended (identitiesOf rest) hn (fun x hx => hin x (List.mem_append_right _ hx)) hids
      | ok sup =>
        obtain ⟨hok, hident, hnd, hmem, hdrop, hlow⟩ := hspec
        have hnotfail : (if node.fails then !decide lowered.Nodup || node.loses else losesIn (lowered ++ [id]) rest) =
            losesIn (lowered ++ [id]) rest := by
          rw [hok]
          rfl
        have hnew : ∀ x ∈ node.identities, x ∉ ids := fun x hx hx' =>
          hdisj (List.mem_cons_of_mem _ hx') (List.mem_append_left _ hx)
        have hholds' := hholds.scope (scopeDefinition id sup.channels.identity restart shutdown) hdrop hnd hmem hnew
        have hrest := children_spec config rest _ (lowered ++ [id]) (ids ++ node.identities) s₁ hlow.nodup hholds' hsplit
          (fun x hx => (hlow.reservations_iff x).mpr ⟨hin x (List.mem_append_right _ hx), fun hx' => hsep hx' hx⟩)
          (by
            intro x hx hres
            obtain ⟨hres, hout⟩ := (hlow.reservations_iff x).mp hres
            rcases List.mem_append.mp hx with hx | hx
            · exact hids x hx hres
            · exact hout hx)
        show ChildrenSpec config b lowered ids _ s (lowerChildren config _ rest s₁)
        generalize lowerChildren config _ rest s₁ = r at hrest ⊢
        obtain ⟨r, s₂⟩ := r
        cases r with
        | error e =>
          obtain ⟨hfail, ended, hended⟩ := hrest
          refine ⟨by simp [failsIn, hfail], ended, ?_⟩
          rw [hi, losesIn, hnotfail, List.cons_append, ← List.append_assoc]
          refine .after hlow ?_ hended
          intro x hx
          simp [hx]
        | ok b' =>
          obtain ⟨hok', hlost, hholds'', ⟨hid, hrestart⟩, hdefs, hlow'⟩ := hrest
          refine ⟨by simp [failsIn, SupervisionChild.fails, hok, hok'], ?_, ?_, ⟨hid, hrestart⟩, ?_, ?_⟩
          · rw [losesIn, hnotfail, hlost, List.append_assoc]
            rfl
          · rw [hi, scopeIds]
            simpa [List.append_assoc] using hholds''
          · rw [hdefs, childSpec_definitions, List.append_assoc, hident]
            rfl
          · rw [hi]
            exact hlow.trans hlow'

end

/-! ## Failed spawns -/

/-- After a failed spawn every identity reserved in the tree is terminal, exactly when no
    scope on the way down to the error has two scope children of one id before it. -/
theorem failed_spawn_terminal_iff (t : IdentityTree) (e : BuildError) (l : Lowering) (h : t.intoParts = (.error e, l)) :
    (∀ x ∈ t.node.identities, x ∈ l.terminated) ↔ t.node.loses = false := by
  have hspec := node_spec t.node ⟨t.reservations, t.reservations.foldr max 0 + 1, []⟩ t.nodup
    (t.reserved.nodup_iff.mp t.nodup) (fun x hx => t.reserved.mem_iff.mpr hx)
  unfold IdentityTree.intoParts at h
  cases hr : t.node.lower ⟨t.reservations, t.reservations.foldr max 0 + 1, []⟩ with
  | mk r s =>
    rw [hr] at h hspec
    cases r with
    | ok sup => cases h
    | error e' =>
      cases h
      obtain ⟨-, ended, hended⟩ := hspec
      have hall : ∀ x, x ∈ s.terminated ++ s.reservations ↔ x ∈ s.reservations ∨ x ∈ ended := by
        intro x
        rw [hended.terminated_eq, List.nil_append, List.mem_append, or_comm]
      rw [← hended.covered_iff]
      exact forall₂_congr fun x _ => hall x

def plainConfig (reservation : Nat) : ScopeConfig := ⟨.oneForOne, .default, .default, 64, reservation⟩

/-- A dynamic subtree `a`, and after it the given child. -/
def withSubtree (child : SupervisionChild) : ScopeNode :=
  .ordered (plainConfig 0) [.scope "a" (.dynamic (plainConfig 1)) none none, child]

/-- A task takes the id of the subtree before it. -/
def shadowedByTask : IdentityTree := ⟨withSubtree (.task { id := "a" }), [0, 1], by decide, by decide⟩

theorem failed_spawn_terminal_shadowedByTask :
    shadowedByTask.intoParts = (.error (.duplicateChildId "a"), ⟨[], 2, [0, 1]⟩) ∧
    ∀ x ∈ shadowedByTask.node.identities, x ∈ [0, 1] := by
  have h : shadowedByTask.intoParts = (.error (.duplicateChildId "a"), ⟨[], 2, [0, 1]⟩) := rfl
  exact ⟨h, (failed_spawn_terminal_iff shadowedByTask _ _ h).mpr rfl⟩

/-- Another subtree takes it. -/
def shadowedBySubtree : IdentityTree :=
  ⟨withSubtree (.scope "a" (.dynamic (plainConfig 2)) none none), [0, 1, 2], by decide, by decide⟩

theorem failed_spawn_leaves_handle :
    shadowedBySubtree.intoParts = (.error (.duplicateChildId "a"), ⟨[], 3, [0, 2]⟩) ∧
    1 ∈ shadowedBySubtree.node.identities ∧ 1 ∉ [0, 2] := ⟨rfl, by decide, by decide⟩

end Kokage.Tree

import StackKeeper.Proofs.Stack.Precedence

/-!
# What overrides change

Each key of the merged configuration has the entry of the highest layer that has the key. The updates
are the whole difference to the project's own configuration and nothing more, so once they are written
the same layers have nothing left to change.
-/

namespace StackKeeper.Config

variable {l : Layers} {c merged : Config} {k : String} {v : ConfigValue}

/-- The highest layer with the key has the entry, which is as secret as that layer is. -/
inductive Layers.Settles (l : Layers) (k : String) : ConfigValue → Prop
  | resolvedSecret {s : String} (h : l.resolvedSecrets.get? k = some s) : l.Settles k ⟨s, true⟩
  | resolvedConfig {s : String} (h₁ : l.resolvedSecrets.get? k = none)
      (h : l.resolvedConfig.get? k = some s) : l.Settles k ⟨s, false⟩
  | secret {s : String} (h₁ : l.resolvedSecrets.get? k = none) (h₂ : l.resolvedConfig.get? k = none)
      (h : l.secrets.get? k = some s) : l.Settles k ⟨s, true⟩
  | config {s : String} (h₁ : l.resolvedSecrets.get? k = none) (h₂ : l.resolvedConfig.get? k = none)
      (h₃ : l.secrets.get? k = none) (h : l.config.get? k = some s) : l.Settles k ⟨s, false⟩
  | checkedIn {v : ConfigValue} (h₁ : l.resolvedSecrets.get? k = none)
      (h₂ : l.resolvedConfig.get? k = none) (h₃ : l.secrets.get? k = none)
      (h₄ : l.config.get? k = none) (h : l.checkedIn.get? k = some v) : l.Settles k v

/-- A layer above the project's own configuration has the key. -/
def Layers.Overrides (l : Layers) (k : String) : Prop :=
  ∃ layer ∈ [l.config, l.secrets, l.resolvedConfig, l.resolvedSecrets], layer.contains k

/-! ## The merged configuration -/

/-- What the layers above the project's own configuration have of a key. -/
def Layers.override? (l : Layers) (k : String) : Option ConfigValue := lookup? l.overrides.reverse k

theorem merge_get?_eq (l : Layers) (k : String) :
    (merge l).get? k = (l.override? k).or (l.checkedIn.get? k) := by
  simp only [merge, Layers.override?, Layers.overrides, List.foldl_cons, List.foldl_nil,
    Dict.get?_union, List.reverse_cons, List.reverse_nil, List.nil_append, List.cons_append,
    lookup?_cons, Option.or_assoc]
  rfl

theorem override?_eq (l : Layers) (k : String) : l.override? k =
    ((l.resolvedSecrets.get? k).map (⟨·, true⟩)).or
      (((l.resolvedConfig.get? k).map (⟨·, false⟩)).or
        (((l.secrets.get? k).map (⟨·, true⟩)).or ((l.config.get? k).map (⟨·, false⟩)))) := by
  simp only [Layers.override?, Layers.overrides, List.reverse_cons, List.reverse_nil,
    List.nil_append, List.cons_append, lookup?_cons, ofLayer, Dict.get?_map]
  rw [show lookup? [] k = none from rfl, Option.or_none]

theorem merge_get?_eq_some_iff : (merge l).get? k = some v ↔ l.Settles k v := by
  simp only [merge_get?_eq, override?_eq, Option.or_assoc, Option.or_eq_some_iff,
    Option.map_eq_some_iff, Option.map_eq_none_iff]
  constructor
  · rintro (⟨s, h, rfl⟩ | ⟨h₁, ⟨s, h, rfl⟩ | ⟨h₂, ⟨s, h, rfl⟩ | ⟨h₃, ⟨s, h, rfl⟩ | ⟨h₄, h⟩⟩⟩⟩)
    · exact .resolvedSecret h
    · exact .resolvedConfig h₁ h
    · exact .secret h₁ h₂ h
    · exact .config h₁ h₂ h₃ h
    · exact .checkedIn h₁ h₂ h₃ h₄ h
  · intro h
    cases h with
    | resolvedSecret h => simp [h]
    | resolvedConfig h₁ h => simp [h₁, h]
    | secret h₁ h₂ h => simp [h₁, h₂, h]
    | config h₁ h₂ h₃ h => simp [h₁, h₂, h₃, h]
    | checkedIn h₁ h₂ h₃ h₄ h => simp [h₁, h₂, h₃, h₄, h]

theorem overrides_of_override? (h : l.override? k = some v) : l.Overrides k := by
  have hmem : ∀ layer ∈ l.overrides, layer.contains k → l.Overrides k := by
    intro layer hl hk
    simp only [Layers.overrides, ofLayer, List.mem_cons, List.not_mem_nil, or_false] at hl
    rcases hl with rfl | rfl | rfl | rfl
    all_goals
      rw [Dict.contains_map] at hk
      exact ⟨_, by simp, hk⟩
  obtain ⟨layer, hl, hk⟩ := List.exists_of_findSome?_eq_some h
  exact hmem layer (List.mem_reverse.1 hl) (by rw [Dict.contains, hk]; rfl)

/-- To lay the same layers over what they came to changes nothing. -/
theorem merge_merge (l : Layers) : merge { l with checkedIn := merge l } = merge l := by
  apply Dict.ext_get?
  intro k
  rw [merge_get?_eq, merge_get?_eq]
  change (l.override? k).or ((l.override? k).or (l.checkedIn.get? k)) = _
  rw [← Option.or_assoc, Option.or_self]

/-! ## The updates -/

theorem updates_get?_eq_some_iff :
    (updates c merged).get? k = some v ↔ merged.get? k = some v ∧ c.get? k ≠ some v := by
  simp [updates, Dict.get?_filter, Option.filter_eq_some_iff]

theorem updates_self (c : Config) : updates c c = ∅ := by
  apply Dict.ext_get?
  intro k
  cases h : (updates c c).get? k with
  | none => rfl
  | some v =>
    obtain ⟨hv, hne⟩ := updates_get?_eq_some_iff.1 h
    exact absurd hv hne

/-- The updates are enough, if the merged configuration has no key less. -/
theorem union_updates (h : ∀ k, merged.get? k = none → c.get? k = none) :
    c.union (updates c merged) = merged := by
  apply Dict.ext_get?
  intro k
  rw [Dict.get?_union]
  cases hm : merged.get? k with
  | none =>
    have hu : (updates c merged).get? k = none := by
      apply Option.eq_none_iff_forall_ne_some.2
      intro v hv
      cases hm.symm.trans (updates_get?_eq_some_iff.1 hv).1
    rw [hu, h k hm, Option.or_none]
  | some v =>
    by_cases hc : c.get? k = some v
    · have hu : (updates c merged).get? k = none := by
        apply Option.eq_none_iff_forall_ne_some.2
        intro w hw
        obtain ⟨hv, hne⟩ := updates_get?_eq_some_iff.1 hw
        rw [hm] at hv
        exact hne (hv ▸ hc)
      rw [hu, hc, Option.none_or]
    · rw [updates_get?_eq_some_iff.2 ⟨hm, hc⟩, Option.some_or]

theorem get?_of_union_eq {u : Config} (hu : c.union u = merged)
    (hv : (updates c merged).get? k = some v) : u.get? k = some v := by
  obtain ⟨hm, hne⟩ := updates_get?_eq_some_iff.1 hv
  rw [← hu, Dict.get?_union] at hm
  cases hk : u.get? k with
  | none =>
    rw [hk, Option.none_or] at hm
    exact absurd hm hne
  | some w => rwa [hk, Option.some_or] at hm

theorem checkedIn_get?_eq_none (h : (merge l).get? k = none) : l.checkedIn.get? k = none := by
  rw [merge_get?_eq, Option.or_eq_none_iff] at h
  exact h.2

theorem overrides_of_updates (h : (updates l.checkedIn (merge l)).get? k = some v) :
    l.Overrides k := by
  obtain ⟨hm, hne⟩ := updates_get?_eq_some_iff.1 h
  rw [merge_get?_eq] at hm
  cases ho : l.override? k with
  | some w => exact overrides_of_override? ho
  | none =>
    rw [ho, Option.none_or] at hm
    exact absurd hm hne

/-- Every key comes to the entry of its highest layer. The updates give exactly that, have no entry
that the project has already, no key that is not overridden, and no entry that could be left out. With
the same layers there is nothing to update afterwards. -/
theorem updates_exact (l : Layers) :
    (∀ k v, (merge l).get? k = some v ↔ l.Settles k v) ∧
    l.checkedIn.union (updates l.checkedIn (merge l)) = merge l ∧
    (∀ k v, (updates l.checkedIn (merge l)).get? k = some v →
      l.checkedIn.get? k ≠ some v ∧ l.Overrides k ∧
        ∀ u : Config, l.checkedIn.union u = merge l → u.get? k = some v) ∧
    merge { l with checkedIn := merge l } = merge l ∧
    updates (merge l) (merge { l with checkedIn := merge l }) = ∅ := by
  refine ⟨fun k v => merge_get?_eq_some_iff, ?_, ?_, merge_merge l, ?_⟩
  · apply union_updates
    intro k
    exact checkedIn_get?_eq_none
  · intro k v hv
    refine ⟨(updates_get?_eq_some_iff.1 hv).2, overrides_of_updates hv, ?_⟩
    intro u hu
    exact get?_of_union_eq hu hv
  · rw [merge_merge]
    exact updates_self (merge l)

end StackKeeper.Config

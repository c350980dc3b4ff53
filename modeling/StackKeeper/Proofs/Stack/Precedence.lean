import StackKeeper.Proofs.Dict
import StackKeeper.Stack.Config

/-!
# Precedence of configuration layers

The engine knows every key under one name: a key without a colon belongs to the project. So a layer
can name a key in two spellings, and what the engine has in the end depends on which spellings are
written, and in which order. The highest layer that names a key decides, unless a lower layer has the
key in the other spelling, and that spelling is written last, or alone.
-/

namespace StackKeeper.Config

variable {project k k' q : String} {v : ConfigValue} {layer : Config} {layers : List Config}
  {l : Layers}

/-! ## Spellings -/

/-- The engine's name for a key. -/
def qualify (project key : String) : String :=
  if ':' ∈ key.toList then key else project ++ ":" ++ key

theorem qualify_of_mem (hk : ':' ∈ k.toList) : qualify project k = k := if_pos hk

theorem qualify_of_not_mem (hk : ':' ∉ k.toList) : qualify project k = project ++ ":" ++ k :=
  if_neg hk

/-- A key has two spellings at most: its own name, and a short one. -/
theorem eq_or_eq_of_qualify {k₁ k₂ : String} (hk : qualify project k = q)
    (hk₁ : qualify project k₁ = q) (hk₂ : qualify project k₂ = q) (hne : k₁ ≠ k₂) :
    k = k₁ ∨ k = k₂ := by
  have hlong : ∀ {a b}, qualify project a = q → qualify project b = q → ':' ∈ a.toList →
      ':' ∈ b.toList → a = b := by
    intro a b ha hb hma hmb
    rw [qualify_of_mem hma] at ha
    rw [qualify_of_mem hmb] at hb
    exact ha.trans hb.symm
  have hshort : ∀ {a b}, qualify project a = q → qualify project b = q → ':' ∉ a.toList →
      ':' ∉ b.toList → a = b := by
    intro a b ha hb hma hmb
    rw [qualify_of_not_mem hma] at ha
    rw [qualify_of_not_mem hmb] at hb
    exact (String.append_right_inj _).1 (ha.trans hb.symm)
  by_cases h₁ : ':' ∈ k₁.toList
  · have h₂ : ':' ∉ k₂.toList := fun h₂ => hne (hlong hk₁ hk₂ h₁ h₂)
    by_cases h : ':' ∈ k.toList
    · exact .inl (hlong hk hk₁ h h₁)
    · exact .inr (hshort hk hk₂ h h₂)
  · have h₂ : ':' ∈ k₂.toList := by
      by_cases h₂ : ':' ∈ k₂.toList
      · exact h₂
      · exact absurd (hshort hk₁ hk₂ h₁ h₂) hne
    by_cases h : ':' ∈ k.toList
    · exact .inr (hlong hk hk₂ h h₂)
    · exact .inl (hshort hk hk₁ h h₁)

/-! ## Layers -/

/-- All layers, the highest first. -/
def Layers.descending (l : Layers) : List Config := (l.checkedIn :: l.overrides).reverse

/-- A layer has an entry for a key, in one of its spellings. -/
def Names (project : String) (layer : Config) (q : String) (v : ConfigValue) : Prop :=
  ∃ k, qualify project k = q ∧ layer.get? k = some v

/-- The entry is that of the highest layer that names the key, and none if no layer does. -/
inductive Governs (project q : String) : List Config → Option ConfigValue → Prop
  | nowhere : Governs project q [] none
  | here {layer : Config} {layers : List Config} {v : ConfigValue} (hv : Names project layer q v) :
      Governs project q (layer :: layers) (some v)
  | lower {layer : Config} {layers : List Config} {x : Option ConfigValue}
      (hnone : ∀ v, ¬Names project layer q v) (hx : Governs project q layers x) :
      Governs project q (layer :: layers) x

/-- How many layers stand above the highest one that has a key in this spelling. -/
def rank (layers : List Config) (k : String) : Nat := layers.findIdx fun layer => layer.contains k

/-- The entry of the highest layer that has a key in this spelling. -/
def lookup? (layers : List Config) (k : String) : Option ConfigValue :=
  layers.findSome? fun layer => layer.get? k

theorem lookup?_cons (layer : Config) (layers : List Config) (k : String) :
    lookup? (layer :: layers) k = (layer.get? k).or (lookup? layers k) := by
  unfold lookup?
  rw [List.findSome?_cons]
  cases layer.get? k <;> rfl

theorem merge_get? (l : Layers) (k : String) : (merge l).get? k = lookup? l.descending k := by
  simp only [merge, Layers.descending, Layers.overrides, List.foldl_cons, List.foldl_nil,
    Dict.get?_union, List.reverse_cons, List.reverse_nil, List.nil_append, List.cons_append,
    lookup?_cons]
  rw [show lookup? [] k = none from rfl, Option.or_none]

theorem rank_cons (layer : Config) (layers : List Config) (k : String) :
    rank (layer :: layers) k = if (layer.get? k).isSome then 0 else rank layers k + 1 := by
  unfold rank
  rw [List.findIdx_cons]
  unfold Dict.contains
  cases layer.get? k <;> rfl

theorem rank_le_of_lookup?_eq_none (hnone : lookup? layers k' = none) (k : String) :
    rank layers k ≤ rank layers k' := by
  induction layers with
  | nil => exact Nat.le_refl _
  | cons layer layers ih =>
    rw [lookup?_cons, Option.or_eq_none_iff] at hnone
    rw [rank_cons, rank_cons, hnone.1]
    split
    · exact Nat.zero_le _
    · exact Nat.succ_le_succ (ih hnone.2)

theorem get?_eq_none_of_lookup? (hnone : lookup? layers k = none) (hl : layer ∈ layers) :
    layer.get? k = none :=
  List.findSome?_eq_none_iff.1 hnone layer hl

theorem governs_cons_of_none {x : Option ConfigValue} (hnone : ∀ v, ¬Names project layer q v) :
    Governs project q (layer :: layers) x ↔ Governs project q layers x := by
  constructor
  · intro hx
    cases hx with
    | here hv => exact absurd hv (hnone _)
    | lower _ hx => exact hx
  · exact .lower hnone

theorem get?_eq_none_of_not_names (hnone : ∀ v, ¬Names project layer q v)
    (hk : qualify project k = q) : layer.get? k = none :=
  Option.eq_none_iff_forall_ne_some.2 fun v hv => hnone v ⟨k, hk, hv⟩

theorem governs_none_iff :
    Governs project q layers none ↔ ∀ k, qualify project k = q → lookup? layers k = none := by
  induction layers with
  | nil => exact ⟨fun _ _ _ => rfl, fun _ => .nowhere⟩
  | cons layer layers ih =>
    constructor
    · intro hx k hk
      cases hx with
      | lower hnone hx =>
        rw [lookup?_cons, get?_eq_none_of_not_names hnone hk, Option.none_or]
        exact ih.1 hx k hk
    · intro h
      have hboth : ∀ k, qualify project k = q → layer.get? k = none ∧ lookup? layers k = none := by
        intro k hk
        have hk := h k hk
        rwa [lookup?_cons, Option.or_eq_none_iff] at hk
      refine .lower ?_ (ih.2 fun k hk => (hboth k hk).2)
      rintro v ⟨k, hk, hv⟩
      rw [(hboth k hk).1] at hv
      cases hv

/-- The spelling of the highest rank has the entry that governs. -/
theorem governs_some_iff :
    Governs project q layers (some v) ↔ ∃ k, qualify project k = q ∧ lookup? layers k = some v ∧
      ∀ k', qualify project k' = q → rank layers k ≤ rank layers k' := by
  induction layers with
  | nil =>
    constructor
    · intro hv
      cases hv
    · rintro ⟨k, -, hv, -⟩
      cases hv
  | cons layer layers ih =>
    by_cases hnone : ∀ v, ¬Names project layer q v
    · rw [governs_cons_of_none hnone, ih]
      -- a layer that does not name the key moves all its spellings down by one rank
      have hrank : ∀ {k}, qualify project k = q →
          rank (layer :: layers) k = rank layers k + 1 := by
        intro k hk
        rw [rank_cons, get?_eq_none_of_not_names hnone hk]
        rfl
      refine exists_congr fun k => and_congr_right fun hk => ?_
      rw [lookup?_cons, get?_eq_none_of_not_names hnone hk, Option.none_or, hrank hk]
      refine and_congr_right fun _ => forall_congr' fun k' => imp_congr_right fun hk' => ?_
      rw [hrank hk', Nat.add_le_add_iff_right]
    · constructor
      · intro hv
        cases hv with
        | lower hno _ => exact absurd hno hnone
        | here hv =>
          obtain ⟨k, hk, hv⟩ := hv
          refine ⟨k, hk, ?_, fun k' _ => ?_⟩
          · rw [lookup?_cons, hv, Option.some_or]
          · rw [rank_cons, hv]
            exact Nat.zero_le _
      · rintro ⟨k, hk, hv, hmin⟩
        obtain ⟨v', hv'⟩ := Classical.not_forall.1 hnone
        obtain ⟨k', hk', hv'⟩ := Classical.not_not.1 hv'
        have hle := hmin k' hk'
        rw [rank_cons, rank_cons, hv'] at hle
        cases hget : layer.get? k with
        | some w =>
          rw [lookup?_cons, hget, Option.some_or] at hv
          exact .here ⟨k, hk, hget.trans hv⟩
        | none =>
          rw [hget] at hle
          exact absurd hle (by simp)

/-! ## What the engine has in the end -/

/-- The engine's configuration after it was told to set some pairs, one after the other. -/
def assign (project : String) (c : Config) (pairs : List (String × ConfigValue)) : Config :=
  pairs.foldl (fun c e => c.insert (qualify project e.1) e.2) c

theorem get?_assign (project : String) (c : Config) (pairs : List (String × ConfigValue))
    (q : String) : (assign project c pairs).get? q =
      (((pairs.filter (qualify project ·.1 = q)).getLast?).map (·.2)).or (c.get? q) := by
  induction pairs generalizing c with
  | nil => rfl
  | cons e pairs ih =>
    unfold assign at ih ⊢
    rw [List.foldl_cons, ih, Dict.get?_insert]
    by_cases hq : qualify project e.1 = q
    · rw [List.filter_cons_of_pos (by simpa using hq), if_pos hq, List.getLast?_cons]
      cases (pairs.filter (qualify project ·.1 = q)).getLast? <;> rfl
    · rw [List.filter_cons_of_neg (by simpa using hq), if_neg hq]

theorem get?_assign_cases (project : String) (c u : Config) (q : String) :
    ((∀ k, qualify project k = q → u.get? k = none) ∧
      (assign project c u.entries).get? q = c.get? q) ∨
    ∃ k v, qualify project k = q ∧ u.get? k = some v ∧
      (assign project c u.entries).get? q = some v ∧
      ∀ k', qualify project k' = q → u.contains k' → k' ≤ k := by
  rw [get?_assign]
  have hmem : ∀ {k v}, u.get? k = some v → qualify project k = q →
      (k, v) ∈ u.entries.filter (qualify project ·.1 = q) := fun hv hk =>
    List.mem_filter.2 ⟨Dict.get?_eq_some_iff.1 hv, by simpa using hk⟩
  cases hlast : (u.entries.filter (qualify project ·.1 = q)).getLast? with
  | none =>
    refine .inl ⟨fun k hk => ?_, rfl⟩
    refine Option.eq_none_iff_forall_ne_some.2 fun v hv => ?_
    have hm := hmem hv hk
    rw [List.getLast?_eq_none_iff.1 hlast] at hm
    cases hm
  | some e =>
    obtain ⟨k, v⟩ := e
    obtain ⟨before, heq⟩ := List.getLast?_eq_some_iff.1 hlast
    have hm : (k, v) ∈ u.entries.filter (qualify project ·.1 = q) := by
      rw [heq]
      exact List.mem_append_right _ List.mem_cons_self
    obtain ⟨hm, hk⟩ := List.mem_filter.1 hm
    refine .inr ⟨k, v, by simpa using hk, Dict.get?_eq_some_iff.2 hm, rfl, fun k' hk' hc => ?_⟩
    obtain ⟨v', hv'⟩ := Option.isSome_iff_exists.1 hc
    have hordered := u.ordered.filter (fun e => decide (qualify project e.1 = q))
    have hm' := hmem hv' hk'
    rw [heq] at hordered hm'
    rcases List.mem_append.1 hm' with hm' | hm'
    -- entries are set in the order of their keys, so the last one set has the largest key
    · have hlt := (List.pairwise_append.1 hordered).2.2 _ hm' _ List.mem_cons_self
      exact String.not_lt.1 fun h => String.lt_irrefl _ (String.lt_trans h hlt)
    · obtain rfl := congrArg Prod.fst (List.mem_singleton.1 hm')
      exact String.le_refl _

/-- What an attempt writes. -/
def Layers.written (l : Layers) : Config := updates l.checkedIn (merge l)

/-- A key has an entry in a high layer, and another one in a lower layer in the other spelling. The
lower one is written, and the higher one is not written, or earlier. -/
def Overruled (project : String) (l : Layers) (q : String) : Prop :=
  ∃ k k', qualify project k = q ∧ qualify project k' = q ∧
    rank l.descending k' < rank l.descending k ∧ (merge l).get? k ≠ (merge l).get? k' ∧
    l.written.contains k ∧ (l.written.contains k' → k' < k)

theorem written_get? (l : Layers) (k : String) :
    l.written.get? k = ((merge l).get? k).filter fun v => l.checkedIn.get? k != some v :=
  Dict.get?_filter _ _ _

theorem merge_get?_of_written (hv : l.written.get? k = some v) : (merge l).get? k = some v := by
  rw [written_get?] at hv
  exact (Option.filter_eq_some_iff.1 hv).1

/-- The project's own configuration has long names only. -/
def Qualified (c : Config) : Prop := ∀ k, c.contains k → ':' ∈ k.toList

theorem get?_of_not_written (hq : Qualified l.checkedIn) (hk : qualify project k = q)
    (hnone : l.written.get? k = none) (hv : (merge l).get? k = some v) :
    k = q ∧ l.checkedIn.get? q = some v := by
  rw [written_get?, hv, Option.filter_eq_none_iff] at hnone
  have hold : l.checkedIn.get? k = some v := by simpa using hnone v rfl
  have hcolon : ':' ∈ k.toList := hq k (by rw [Dict.contains, hold]; rfl)
  obtain rfl : k = q := (qualify_of_mem hcolon).symm.trans hk
  exact ⟨rfl, hold⟩

/-- Nothing is written if the project has the only entry, or the same one. -/
theorem governs_of_not_written (hq : Qualified l.checkedIn)
    (hnone : ∀ k, qualify project k = q → l.written.get? k = none) :
    Governs project q l.descending (l.checkedIn.get? q) := by
  have hunnamed : ∀ {k}, qualify project k = q → k ≠ q → lookup? l.descending k = none := by
    intro k hk hne
    refine Option.eq_none_iff_forall_ne_some.2 fun v hv => hne ?_
    rw [← merge_get?] at hv
    exact (get?_of_not_written hq hk (hnone k hk) hv).1
  cases hold : l.checkedIn.get? q with
  | none =>
    refine governs_none_iff.2 fun k hk => Option.eq_none_iff_forall_ne_some.2 fun v hv => ?_
    rw [← merge_get?] at hv
    obtain ⟨rfl, hv⟩ := get?_of_not_written hq hk (hnone k hk) hv
    rw [hold] at hv
    cases hv
  | some v =>
    have hlong : qualify project q = q := qualify_of_mem (hq q (by rw [Dict.contains, hold]; rfl))
    have hmerged : lookup? l.descending q = some v := by
      cases hl : lookup? l.descending q with
      | none =>
        have hchecked : l.checkedIn ∈ l.descending := List.mem_reverse.2 List.mem_cons_self
        rw [get?_eq_none_of_lookup? hl hchecked] at hold
        cases hold
      | some w =>
        rw [← merge_get?] at hl
        exact ((get?_of_not_written hq hlong (hnone q hlong) hl).2.symm.trans hold)
    refine governs_some_iff.2 ⟨q, hlong, hmerged, fun k hk => ?_⟩
    by_cases hkq : k = q
    · exact Nat.le_of_eq (congrArg _ hkq.symm)
    · exact rank_le_of_lookup?_eq_none (hunnamed hk hkq) q

/-- What is written last governs, unless it overrules the other spelling. -/
theorem governs_of_written (hk : qualify project k = q) (hv : l.written.get? k = some v)
    (hlast : ∀ k', qualify project k' = q → l.written.contains k' → k' ≤ k) :
    Governs project q l.descending (some v) ↔ ¬Overruled project l q := by
  have hmerged := merge_get?_of_written hv
  have hwritten : l.written.contains k := by rw [Dict.contains, hv]; rfl
  rw [governs_some_iff]
  simp only [← merge_get?]
  constructor
  · rintro ⟨k₀, hk₀, hv₀, hmin⟩ ⟨k₁, k', hk₁, hk', hrank, hne, hc, hearlier⟩
    have hdiff : k₁ ≠ k' := fun h => Nat.lt_irrefl _ (h ▸ hrank)
    have hmin₀ : k₀ = k' := by
      rcases eq_or_eq_of_qualify hk₀ hk₁ hk' hdiff with h | h
      · exact absurd (hmin k' hk') (Nat.not_le.2 (h ▸ hrank))
      · exact h
    rcases eq_or_eq_of_qualify hk hk₁ hk' hdiff with rfl | rfl
    · exact hne (hmerged.trans (hmin₀ ▸ hv₀).symm)
    · exact absurd (hlast k₁ hk₁ hc) (String.not_le.2 (hearlier hwritten))
  · intro hno
    by_cases hmin : ∀ k', qualify project k' = q → rank l.descending k ≤ rank l.descending k'
    · exact ⟨k, hk, hmerged, hmin⟩
    · obtain ⟨k', hnot⟩ := Classical.not_forall.1 hmin
      obtain ⟨hk', hrank⟩ := Classical.not_imp.1 hnot
      have hrank := Nat.not_le.1 hrank
      have hdiff : k' ≠ k := fun h => Nat.lt_irrefl _ (h ▸ hrank)
      have hearlier : l.written.contains k' → k' < k := fun hc =>
        Decidable.byContradiction fun hlt =>
          hdiff (String.le_antisymm (hlast k' hk' hc) (String.not_lt.1 hlt))
      have hsame : (merge l).get? k = (merge l).get? k' := Decidable.byContradiction fun hne =>
        hno ⟨k, k', hk, hk', hrank, hne, hwritten, hearlier⟩
      refine ⟨k', hk', hsame ▸ hmerged, fun k₂ hk₂ => ?_⟩
      rcases eq_or_eq_of_qualify hk₂ hk' hk hdiff with rfl | rfl
      · exact Nat.le_refl _
      · exact Nat.le_of_lt hrank

/-- After an attempt has written its configuration, the engine has the entry of the highest layer for
a key, unless it is overruled by a lower one. -/
theorem governs_assign_iff (project : String) (hq : Qualified l.checkedIn) (q : String) :
    Governs project q l.descending
      ((assign project l.checkedIn l.written.entries).get? q) ↔ ¬Overruled project l q := by
  rcases get?_assign_cases project l.checkedIn l.written q with
    ⟨hnone, heq⟩ | ⟨k, v, hk, hv, heq, hlast⟩
  · rw [heq]
    refine iff_of_true (governs_of_not_written hq hnone) ?_
    rintro ⟨k, -, hk, -, -, -, hc, -⟩
    rw [Dict.contains, hnone k hk] at hc
    cases hc
  · rw [heq]
    exact governs_of_written hk hv hlast

end StackKeeper.Config

import StackKeeper.Json.Basic

/-!
# The shape of JSON values

How deep a value is nested, which numbers are in it, and what stays of that when its members are put
into key order. A value in key order is made of values in key order, and looking up a member does
not depend on the order as long as no name stands twice.
-/

namespace StackKeeper.Json

variable {v w : Json} {k name : String} {members : List (String × Json)} {items : List Json}
  {m : String × Json}

/-! ## Nesting and numbers -/

mutual

/-- How many arrays and objects are open at once at most. -/
def depth : Json → Nat
  | .array items => depthItems items + 1
  | .object members => depthMembers members + 1
  | _ => 0

def depthItems : List Json → Nat
  | [] => 0
  | v :: rest => max v.depth (depthItems rest)

def depthMembers : List (String × Json) → Nat
  | [] => 0
  | (_, v) :: rest => max v.depth (depthMembers rest)

end

mutual

def numbers : Json → List Number
  | .number n => [n]
  | .array items => numbersItems items
  | .object members => numbersMembers members
  | _ => []

def numbersItems : List Json → List Number
  | [] => []
  | v :: rest => v.numbers ++ numbersItems rest

def numbersMembers : List (String × Json) → List Number
  | [] => []
  | (_, v) :: rest => v.numbers ++ numbersMembers rest

end

theorem depthItems_le {n : Nat} : depthItems items ≤ n ↔ ∀ v ∈ items, v.depth ≤ n := by
  induction items with
  | nil => exact iff_of_true (Nat.zero_le n) (List.forall_mem_nil _)
  | cons v items ih => rw [depthItems, Nat.max_le, ih, List.forall_mem_cons]

theorem depthMembers_le {n : Nat} : depthMembers members ≤ n ↔ ∀ m ∈ members, m.2.depth ≤ n := by
  induction members with
  | nil => exact iff_of_true (Nat.zero_le n) (List.forall_mem_nil _)
  | cons m members ih => rw [depthMembers, Nat.max_le, ih, List.forall_mem_cons]

theorem mem_numbersItems {n : Number} : n ∈ numbersItems items ↔ ∃ v ∈ items, n ∈ v.numbers := by
  induction items with
  | nil => simp [numbersItems]
  | cons v items ih =>
    simp only [numbersItems, List.mem_append, ih, List.mem_cons, exists_eq_or_imp]

theorem mem_numbersMembers {n : Number} :
    n ∈ numbersMembers members ↔ ∃ m ∈ members, n ∈ m.2.numbers := by
  induction members with
  | nil => simp [numbersMembers]
  | cons m members ih =>
    simp only [numbersMembers, List.mem_append, ih, List.mem_cons, exists_eq_or_imp]

/-! ## Key order -/

/-- Members in key order, no name twice. -/
def Ascending (members : List (String × Json)) : Prop := members.Pairwise fun a b => a.1 < b.1

theorem canonicalItems_eq (items : List Json) : canonicalItems items = items.map canonical := by
  induction items with
  | nil => rfl
  | cons v items ih => rw [canonicalItems, ih, List.map_cons]

theorem canonicalMembers_eq (members : List (String × Json)) :
    canonicalMembers members = members.map fun m => (m.1, m.2.canonical) := by
  induction members with
  | nil => rfl
  | cons m members ih => rw [canonicalMembers, ih, List.map_cons]

theorem mem_addMember {l : List (String × Json)} (h : m ∈ addMember k v l) :
    m = (k, v) ∨ m ∈ l := by
  induction l with
  | nil => exact .inl (List.mem_singleton.1 h)
  | cons a l ih =>
    rw [addMember] at h
    split at h
    · exact List.mem_cons.1 h
    · split at h
      · exact .inr h
      · rcases List.mem_cons.1 h with rfl | h
        · exact .inr List.mem_cons_self
        · exact (ih h).imp_right (List.mem_cons_of_mem _)

theorem mem_of_mem_sortMembers (h : m ∈ sortMembers members) : m ∈ members := by
  induction members with
  | nil => exact h
  | cons a members ih =>
    rcases mem_addMember h with rfl | h
    · exact List.mem_cons_self
    · exact List.mem_cons_of_mem _ (ih h)

theorem ascending_addMember {l : List (String × Json)} (hl : Ascending l) :
    Ascending (addMember k v l) := by
  induction l with
  | nil => exact List.pairwise_singleton _ _
  | cons a l ih =>
    obtain ⟨hhead, htail⟩ := List.pairwise_cons.1 hl
    rw [addMember]
    split
    next hlt =>
      refine List.pairwise_cons.2 ⟨fun m hm => ?_, hl⟩
      rcases List.mem_cons.1 hm with rfl | hm
      · exact hlt
      · exact String.lt_trans hlt (hhead m hm)
    next hnot =>
      split
      · exact hl
      next hne =>
        refine List.pairwise_cons.2 ⟨fun m hm => ?_, ih htail⟩
        rcases mem_addMember hm with rfl | hm
        · exact Decidable.byContradiction fun hn =>
            hne (String.le_antisymm (String.not_lt.1 hn) (String.not_lt.1 hnot))
        · exact hhead m hm

theorem ascending_sortMembers (members : List (String × Json)) :
    Ascending (sortMembers members) := by
  induction members with
  | nil => exact .nil
  | cons m members ih => exact ascending_addMember ih

theorem sortMembers_of_ascending (h : Ascending members) : sortMembers members = members := by
  induction members with
  | nil => rfl
  | cons m members ih =>
    obtain ⟨hhead, htail⟩ := List.pairwise_cons.1 h
    change addMember m.1 m.2 (sortMembers members) = _
    rw [ih htail]
    cases members with
    | nil => rfl
    | cons a members => exact if_pos (hhead a List.mem_cons_self)

mutual

theorem canonical_canonical : ∀ v : Json, v.canonical.canonical = v.canonical
  | .null | .bool _ | .number _ | .string _ => rfl
  | .array items => by
    have hitems : ∀ w ∈ canonicalItems items, w.canonical = w := canonical_of_mem_items items
    rw [canonical, canonical, canonicalItems_eq (canonicalItems items), List.map_congr_left hitems,
      List.map_id']
  | .object members => by
    have hmembers : ∀ m ∈ sortMembers (canonicalMembers members), (m.1, m.2.canonical) = m :=
      fun m hm => Prod.ext rfl (canonical_of_mem_members members m (mem_of_mem_sortMembers hm))
    rw [canonical, canonical, canonicalMembers_eq (sortMembers _), List.map_congr_left hmembers,
      List.map_id', sortMembers_of_ascending (ascending_sortMembers _)]

theorem canonical_of_mem_items : ∀ (items : List Json), ∀ w ∈ canonicalItems items, w.canonical = w
  | v :: items, w, hw => by
    rcases List.mem_cons.1 hw with rfl | hw
    · exact canonical_canonical v
    · exact canonical_of_mem_items items w hw

theorem canonical_of_mem_members :
    ∀ (members : List (String × Json)), ∀ m ∈ canonicalMembers members, m.2.canonical = m.2
  | (_, v) :: members, m, hm => by
    rcases List.mem_cons.1 hm with rfl | hm
    · exact canonical_canonical v
    · exact canonical_of_mem_members members m hm

end

/-! ## What key order keeps -/

mutual

theorem depth_canonical_le : ∀ v : Json, v.canonical.depth ≤ v.depth
  | .null | .bool _ | .number _ | .string _ => Nat.le_refl _
  | .array items => Nat.succ_le_succ (depth_canonicalItems_le items)
  | .object members => by
    refine Nat.succ_le_succ (depthMembers_le.2 fun m hm => ?_)
    have hall := depth_canonicalMembers_le members
    exact depthMembers_le.1 hall m (mem_of_mem_sortMembers hm)

theorem depth_canonicalItems_le :
    ∀ items : List Json, depthItems (canonicalItems items) ≤ depthItems items
  | [] => Nat.le_refl _
  | v :: items => by
    have hv := depth_canonical_le v
    have hitems := depth_canonicalItems_le items
    simp only [canonicalItems, depthItems]
    omega

theorem depth_canonicalMembers_le :
    ∀ members : List (String × Json), depthMembers (canonicalMembers members) ≤ depthMembers members
  | [] => Nat.le_refl _
  | (_, v) :: members => by
    have hv := depth_canonical_le v
    have hmembers := depth_canonicalMembers_le members
    simp only [canonicalMembers, depthMembers]
    omega

end

mutual

theorem numbers_canonical_subset : ∀ v : Json, v.canonical.numbers ⊆ v.numbers
  | .null | .bool _ | .number _ | .string _ => List.Subset.refl _
  | .array items => numbers_canonicalItems_subset items
  | .object members => by
    intro n hn
    obtain ⟨m, hm, hn⟩ := mem_numbersMembers.1 hn
    exact numbers_canonicalMembers_subset members
      (mem_numbersMembers.2 ⟨m, mem_of_mem_sortMembers hm, hn⟩)

theorem numbers_canonicalItems_subset :
    ∀ items : List Json, numbersItems (canonicalItems items) ⊆ numbersItems items
  | [] => List.Subset.refl _
  | v :: items => by
    intro n hn
    rcases List.mem_append.1 hn with hn | hn
    · exact List.mem_append_left _ (numbers_canonical_subset v hn)
    · exact List.mem_append_right _ (numbers_canonicalItems_subset items hn)

theorem numbers_canonicalMembers_subset : ∀ members : List (String × Json),
    numbersMembers (canonicalMembers members) ⊆ numbersMembers members
  | [] => List.Subset.refl _
  | (_, v) :: members => by
    intro n hn
    rcases List.mem_append.1 hn with hn | hn
    · exact List.mem_append_left _ (numbers_canonical_subset v hn)
    · exact List.mem_append_right _ (numbers_canonicalMembers_subset members hn)

end

theorem canonical_of_mem_array (hv : (Json.array items).canonical = .array items) (hw : w ∈ items) :
    w.canonical = w := by
  have hitems : canonicalItems items = items := Json.array.inj hv
  exact canonical_of_mem_items items w (hitems.symm ▸ hw)

theorem canonical_of_mem_object (hv : (Json.object members).canonical = .object members)
    (hm : m ∈ members) : m.2.canonical = m.2 := by
  have hmembers : sortMembers (canonicalMembers members) = members := Json.object.inj hv
  exact canonical_of_mem_members members m (mem_of_mem_sortMembers (hmembers.symm ▸ hm))

/-! ## Looking up -/

theorem member?_cons (k : String) (m : String × Json) (members : List (String × Json)) :
    member? k (m :: members) = if m.1 = k then some m.2 else member? k members := rfl

@[simp] theorem member?_append (k : String) (l l' : List (String × Json)) :
    member? k (l ++ l') = (member? k l).or (member? k l') := by
  induction l with
  | nil => rfl
  | cons m l ih =>
    rw [List.cons_append, member?_cons, member?_cons, ih]
    split <;> rfl

theorem member?_eq_none_iff : member? k members = none ↔ k ∉ members.map (·.1) := by
  induction members with
  | nil => simp [member?]
  | cons m members ih =>
    rw [member?_cons, List.map_cons, List.mem_cons, not_or, ← ih]
    by_cases hk : m.1 = k
    · simp [hk]
    · simp [hk, Ne.symm hk]

theorem member?_eq_some_iff (h : (members.map (·.1)).Nodup) :
    member? k members = some v ↔ (k, v) ∈ members := by
  induction members with
  | nil => simp [member?]
  | cons m members ih =>
    obtain ⟨hhead, htail⟩ := List.nodup_cons.1 h
    rw [member?_cons, List.mem_cons]
    by_cases hk : m.1 = k
    · subst hk
      rw [if_pos rfl]
      constructor
      · intro hv
        exact .inl (Prod.ext rfl (Option.some.inj hv).symm)
      · rintro (heq | hm)
        · rw [← heq]
        · exact absurd (List.mem_map_of_mem hm) hhead
    · rw [if_neg hk, ih htail]
      constructor
      · exact .inr
      · rintro (rfl | hm)
        · exact absurd rfl hk
        · exact hm

theorem Ascending.nodup (h : Ascending members) : (members.map (·.1)).Nodup := by
  refine List.pairwise_map.2 (h.imp fun hlt heq => ?_)
  rw [heq] at hlt
  exact String.lt_irrefl _ hlt

theorem mem_addMember_of_mem {l : List (String × Json)} (h : m ∈ l) : m ∈ addMember k v l := by
  induction l with
  | nil => cases h
  | cons a l ih =>
    rw [addMember]
    split
    · exact List.mem_cons_of_mem _ h
    · split
      · exact h
      · rcases List.mem_cons.1 h with rfl | h
        · exact List.mem_cons_self
        · exact List.mem_cons_of_mem _ (ih h)

theorem self_mem_addMember {l : List (String × Json)} (h : k ∉ l.map (·.1)) :
    (k, v) ∈ addMember k v l := by
  induction l with
  | nil => exact List.mem_cons_self
  | cons a l ih =>
    rw [List.map_cons, List.mem_cons, not_or] at h
    rw [addMember]
    split
    · exact List.mem_cons_self
    · rw [if_neg h.1]
      exact List.mem_cons_of_mem _ (ih h.2)

theorem mem_sortMembers_iff (h : (members.map (·.1)).Nodup) :
    m ∈ sortMembers members ↔ m ∈ members := by
  refine ⟨mem_of_mem_sortMembers, fun hm => ?_⟩
  induction members with
  | nil => cases hm
  | cons a members ih =>
    obtain ⟨hhead, htail⟩ := List.nodup_cons.1 h
    rcases List.mem_cons.1 hm with rfl | hm
    · refine self_mem_addMember fun hmem => hhead ?_
      obtain ⟨b, hb, heq⟩ := List.mem_map.1 hmem
      have hname := List.mem_map_of_mem (f := (·.1)) (mem_of_mem_sortMembers hb)
      rwa [heq] at hname
    · exact mem_addMember_of_mem (ih htail hm)

theorem member?_sortMembers (h : (members.map (·.1)).Nodup) (k : String) :
    member? k (sortMembers members) = member? k members := by
  refine Option.ext fun v => ?_
  rw [member?_eq_some_iff (ascending_sortMembers members).nodup, member?_eq_some_iff h,
    mem_sortMembers_iff h]

theorem member?_map (f : Json → Json) (k : String) (members : List (String × Json)) :
    member? k (members.map fun m => (m.1, f m.2)) = (member? k members).map f := by
  induction members with
  | nil => rfl
  | cons m members ih =>
    rw [List.map_cons, member?_cons, member?_cons, ih]
    split <;> rfl

/-- The members of an object in key order. -/
def ordered (members : List (String × Json)) : List (String × Json) :=
  sortMembers (canonicalMembers members)

theorem member?_ordered (h : (members.map (·.1)).Nodup) (k : String) :
    member? k (ordered members) = (member? k members).map canonical := by
  have hnames : ((canonicalMembers members).map (·.1)).Nodup := by
    rw [canonicalMembers_eq, List.map_map]
    exact h
  rw [ordered, member?_sortMembers hnames, canonicalMembers_eq, member?_map]

theorem mem_ordered (h : m ∈ ordered members) : ∃ m' ∈ members, (m'.1, m'.2.canonical) = m := by
  have hm := mem_of_mem_sortMembers h
  rw [canonicalMembers_eq] at hm
  exact List.mem_map.1 hm

end StackKeeper.Json

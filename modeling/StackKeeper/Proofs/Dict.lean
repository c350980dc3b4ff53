import StackKeeper.Dict

/-!
# Looking up in dictionaries

The entries of a dictionary are what can be looked up in it. Every operation is known by what is
found under each key afterwards.
-/

namespace StackKeeper.Dict

variable {α β : Type} {d e : Dict α} {k : String} {v : α}

def find (l : List (String × α)) (k : String) : Option α := (l.find? (·.1 == k)).map (·.2)

theorem find_cons (a : String × α) (l : List (String × α)) (k : String) :
    find (a :: l) k = if a.1 = k then some a.2 else find l k := by
  unfold find
  by_cases hk : a.1 = k
  · rw [List.find?_cons_of_pos (by simpa using hk), if_pos hk]
    rfl
  · rw [List.find?_cons_of_neg (by simpa using hk), if_neg hk]

theorem find_eq_some_iff {l : List (String × α)} (h : (l.map (·.1)).Nodup) :
    find l k = some v ↔ (k, v) ∈ l := by
  induction l with
  | nil => simp [find]
  | cons a l ih =>
    obtain ⟨hhead, hrest⟩ := List.nodup_cons.1 h
    rw [find_cons, List.mem_cons]
    by_cases hk : a.1 = k
    · rw [if_pos hk]
      constructor
      · intro heq
        exact .inl (Prod.ext hk.symm (Option.some.inj heq).symm)
      · rintro (rfl | hm)
        · rfl
        · exact absurd (List.mem_map_of_mem (f := (·.1)) hm) (hk ▸ hhead)
    · rw [if_neg hk, ih hrest]
      constructor
      · exact .inr
      · rintro (rfl | hm)
        · exact absurd rfl hk
        · exact hm

theorem nodup_keys (d : Dict α) : (d.entries.map (·.1)).Nodup := by
  rw [List.Nodup, List.pairwise_map]
  exact d.ordered.imp fun hlt => String.ne_of_lt hlt

theorem get?_eq_some_iff : d.get? k = some v ↔ (k, v) ∈ d.entries :=
  find_eq_some_iff d.nodup_keys

theorem find_insertEntry (l : List (String × α)) (k k' : String) (v : α) :
    find (insertEntry k v l) k' = if k = k' then some v else find l k' := by
  induction l with
  | nil => exact find_cons (k, v) [] k'
  | cons a l ih =>
    obtain ⟨k₁, v₁⟩ := a
    rw [insertEntry]
    split
    · exact find_cons (k, v) _ k'
    · split
      next heq =>
        rw [find_cons, find_cons]
        dsimp only
        split
        · rfl
        · rw [if_neg (heq ▸ ‹_›)]
      next hne =>
        rw [find_cons, find_cons, ih]
        dsimp only
        split
        next hk' => rw [if_neg (hk' ▸ hne)]
        next => rfl

theorem get?_insert (d : Dict α) (k k' : String) (v : α) :
    (d.insert k v).get? k' = if k = k' then some v else d.get? k' :=
  find_insertEntry d.entries k k' v

theorem find_eq_none {l : List (String × α)} (h : ∀ a ∈ l, a.1 ≠ k) : find l k = none := by
  induction l with
  | nil => rfl
  | cons a l ih =>
    rw [find_cons, if_neg (h a List.mem_cons_self), ih fun b hb => h b (List.mem_cons_of_mem _ hb)]

theorem get?_foldl_insert {l : List (String × α)} (h : (l.map (·.1)).Nodup) (d : Dict α)
    (k : String) :
    (l.foldl (fun d a => d.insert a.1 a.2) d).get? k = (find l k).or (d.get? k) := by
  induction l generalizing d with
  | nil => rfl
  | cons a l ih =>
    obtain ⟨hhead, hrest⟩ := List.nodup_cons.1 h
    rw [List.foldl_cons, ih hrest, get?_insert, find_cons]
    by_cases hk : a.1 = k
    · have hnone : find l k = none := find_eq_none fun b hb heq =>
        hhead (List.mem_map.2 ⟨b, hb, heq.trans hk.symm⟩)
      rw [if_pos hk, if_pos hk, hnone]
      rfl
    · rw [if_neg hk, if_neg hk]

theorem get?_union (d e : Dict α) (k : String) : (d.union e).get? k = (e.get? k).or (d.get? k) :=
  get?_foldl_insert e.nodup_keys d k

theorem get?_filter (p : String → α → Bool) (d : Dict α) (k : String) :
    (d.filter p).get? k = (d.get? k).filter (p k) := by
  ext v
  rw [get?_eq_some_iff, Option.filter_eq_some_iff, get?_eq_some_iff]
  exact List.mem_filter

theorem find_map (f : α → β) (l : List (String × α)) (k : String) :
    find (l.map fun e => (e.1, f e.2)) k = (find l k).map f := by
  induction l with
  | nil => rfl
  | cons a l ih =>
    rw [List.map_cons, find_cons, find_cons, ih]
    by_cases hk : a.1 = k
    · simp only [if_pos hk, Option.map_some]
    · simp only [if_neg hk]

theorem get?_map (f : α → β) (d : Dict α) (k : String) : (d.map f).get? k = (d.get? k).map f :=
  find_map f d.entries k

theorem contains_map (f : α → β) (d : Dict α) (k : String) :
    (d.map f).contains k = d.contains k := by
  rw [contains, get?_map, Option.isSome_map, contains]

theorem ext_get? (h : ∀ k, d.get? k = e.get? k) : d = e := by
  have hasymm : ∀ a b : String × α, a.1 < b.1 → b.1 < a.1 → a = b :=
    fun a b hab hba => absurd hba (String.lt_asymm hab)
  have hmem : ∀ a, a ∈ d.entries ↔ a ∈ e.entries := by
    intro a
    rw [← get?_eq_some_iff, ← get?_eq_some_iff, h]
  have hnodup : ∀ d : Dict α, d.entries.Nodup := by
    intro d
    apply d.ordered.imp
    intro a b hlt heq
    exact String.lt_irrefl _ (heq ▸ hlt)
  apply ext
  apply List.Perm.eq_of_pairwise (fun a b _ _ => hasymm a b) d.ordered e.ordered
  exact (List.perm_ext_iff_of_nodup (hnodup d) (hnodup e)).2 hmem

theorem insertEntry_last {l : List (String × α)} (h : ∀ e ∈ l, e.1 < k) :
    insertEntry k v l = l ++ [(k, v)] := by
  induction l with
  | nil => rfl
  | cons a l ih =>
    have hlt := h a List.mem_cons_self
    have hne : k ≠ a.1 := fun heq => String.lt_irrefl k (heq ▸ hlt)
    have hnot : ¬k < a.1 := fun hgt => String.lt_irrefl k (String.lt_trans hgt hlt)
    rw [insertEntry, if_neg hnot, if_neg hne, ih fun e he => h e (List.mem_cons_of_mem _ he),
      List.cons_append]

theorem foldl_insert_entries (l : List (String × α)) (d : Dict α)
    (h : (d.entries ++ l).Pairwise fun a b => a.1 < b.1) :
    (l.foldl (fun d e => d.insert e.1 e.2) d).entries = d.entries ++ l := by
  induction l generalizing d with
  | nil => exact (List.append_nil _).symm
  | cons a l ih =>
    have hlast : (d.insert a.1 a.2).entries = d.entries ++ [a] :=
      insertEntry_last fun e he => (List.pairwise_append.1 h).2.2 e he a List.mem_cons_self
    rw [List.foldl_cons, ih, hlast, List.append_assoc]
    · rfl
    · rwa [hlast, List.append_assoc]

theorem ofList_entries (d : Dict α) : ofList d.entries = d :=
  ext ((foldl_insert_entries d.entries empty d.ordered).trans (List.nil_append _))

theorem mem_of_mem_foldl_insert {e : String × α} (l : List (String × α)) (d : Dict α)
    (he : e ∈ (l.foldl (fun d e => d.insert e.1 e.2) d).entries) : e ∈ d.entries ∨ e ∈ l := by
  induction l generalizing d with
  | nil => exact .inl he
  | cons a l ih =>
    rcases ih _ he with he | he
    · rcases mem_insertEntry he with rfl | he
      · exact .inr List.mem_cons_self
      · exact .inl he
    · exact .inr (List.mem_cons_of_mem _ he)

theorem mem_of_mem_ofList {e : String × α} {l : List (String × α)} (he : e ∈ (ofList l).entries) :
    e ∈ l :=
  (mem_of_mem_foldl_insert l empty he).resolve_left List.not_mem_nil

/-! ## Listed entries -/

theorem get?_ofList {l : List (String × α)} (h : (l.map (·.1)).Nodup) (k : String) :
    (ofList l).get? k = find l k := by
  rw [ofList, get?_foldl_insert h]
  exact Option.or_none

theorem ofList_of_perm {l : List (String × α)} (h : l.Perm d.entries) : ofList l = d := by
  have hnodup : (l.map (·.1)).Nodup := (h.map _).nodup_iff.2 d.nodup_keys
  refine ext_get? fun k => Option.ext fun v => ?_
  rw [get?_ofList hnodup, find_eq_some_iff hnodup, get?_eq_some_iff, h.mem_iff]

theorem union_ofList {l : List (String × α)} (h : (l.map (·.1)).Nodup) (d : Dict α) :
    d.union (ofList l) = l.foldl (fun d e => d.insert e.1 e.2) d := by
  refine ext_get? fun k => ?_
  rw [get?_union, get?_ofList h, get?_foldl_insert h]

/-! ## Layers -/

theorem empty_union (d : Dict α) : union ∅ d = d := ofList_entries d

theorem union_assoc (d e f : Dict α) : (d.union e).union f = d.union (e.union f) := by
  refine ext_get? fun k => ?_
  rw [get?_union, get?_union, get?_union, get?_union, Option.or_assoc]

/-- Layers may be put together before they override. -/
theorem foldl_union (l : List (Dict α)) (d : Dict α) :
    l.foldl union d = d.union (l.foldl union ∅) := by
  induction l generalizing d with
  | nil => rfl
  | cons e l ih =>
    rw [List.foldl_cons, List.foldl_cons, ih, ih (union ∅ e), union_assoc, empty_union]

theorem get?_foldl_union_eq_some_iff {l : List (Dict α)} :
    (l.foldl union d).get? k = some v ↔
      (∃ before e after, l = before ++ e :: after ∧ e.get? k = some v ∧
        ∀ x ∈ after, x.get? k = none) ∨
      d.get? k = some v ∧ ∀ x ∈ l, x.get? k = none := by
  induction l generalizing d with
  | nil => simp
  | cons e l ih =>
    rw [List.foldl_cons, ih, get?_union]
    constructor
    · rintro (⟨before, x, after, rfl, hx, hafter⟩ | ⟨hfound, hnone⟩)
      · exact .inl ⟨e :: before, x, after, rfl, hx, hafter⟩
      · cases he : e.get? k with
        | none =>
          rw [he] at hfound
          exact .inr ⟨hfound, List.forall_mem_cons.2 ⟨he, hnone⟩⟩
        | some w =>
          rw [he] at hfound
          exact .inl ⟨[], e, l, rfl, he.trans hfound, hnone⟩
    · rintro (⟨before, x, after, hl, hx, hafter⟩ | ⟨hd, hnone⟩)
      · cases before with
        | nil =>
          obtain ⟨rfl, rfl⟩ := List.cons.inj hl
          exact .inr ⟨by rw [hx, Option.some_or], hafter⟩
        | cons b before =>
          obtain ⟨-, rfl⟩ := List.cons.inj hl
          exact .inl ⟨before, x, after, rfl, hx, hafter⟩
      · obtain ⟨he, hnone⟩ := List.forall_mem_cons.1 hnone
        exact .inr ⟨by rw [he, Option.none_or, hd], hnone⟩

theorem get?_foldl_union_map_eq_some_iff {l : List β} {f : β → Dict α} :
    ((l.map f).foldl union ∅).get? k = some v ↔
      ∃ before b after, l = before ++ b :: after ∧ (f b).get? k = some v ∧
        ∀ x ∈ after, (f x).get? k = none := by
  rw [get?_foldl_union_eq_some_iff]
  constructor
  · rintro (⟨before, e, after, hl, he, hafter⟩ | ⟨hempty, -⟩)
    · obtain ⟨l₁, l₂, rfl, rfl, htail⟩ := List.map_eq_append_iff.1 hl
      obtain ⟨b, l₃, rfl, rfl, rfl⟩ := List.map_eq_cons_iff.1 htail
      exact ⟨l₁, b, l₃, rfl, he, List.forall_mem_map.1 hafter⟩
    · cases hempty
  · rintro ⟨before, b, after, rfl, hb, hafter⟩
    refine .inl ⟨before.map f, f b, after.map f, ?_, hb, List.forall_mem_map.2 hafter⟩
    rw [List.map_append, List.map_cons]

end StackKeeper.Dict

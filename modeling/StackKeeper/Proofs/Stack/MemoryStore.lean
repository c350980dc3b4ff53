import StackKeeper.Proofs.Lists
import StackKeeper.Stack.Store

/-!
# Stores in memory

What a store gives for a key is what was put under it last.
-/

namespace StackKeeper.Stack.MemoryStore

variable {s s' : MemoryStore} {k k' : Key} {stack : Stack} {status : Status}

theorem get_put (s : MemoryStore) (k : Key) (stack : Stack) :
    (s.put k stack).get k = .ok stack := by
  simp [get, put]

theorem get_put_of_ne (s : MemoryStore) (stack : Stack) (hne : k' ≠ k) :
    (s.put k stack).get k' = s.get k' := by
  unfold get put
  rw [List.lookup_cons, beq_false_of_ne hne, lookup_filter (p := (· != k)) (bne_iff_ne.2 hne)]

theorem get_insert (s : MemoryStore) (stack : Stack) : (s.insert stack).get stack.key = .ok stack :=
  get_put s stack.key stack

/-- Every stack stands under its own key. -/
def InPlace (s : MemoryStore) : Prop := ∀ k stack, s.get k = .ok stack → stack.key = k

theorem inPlace_empty : empty.InPlace := by
  intro k stack hs
  cases hs

theorem InPlace.put (hs : s.InPlace) (stack : Stack) : (s.put stack.key stack).InPlace := by
  intro k held hh
  by_cases hk : k = stack.key
  · subst hk
    rw [get_put] at hh
    rw [Except.ok.inj hh]
  · rw [get_put_of_ne s stack hk] at hh
    exact hs k held hh

theorem updateStatus_eq_ok_iff : s.updateStatus k status = .ok s' ↔
    ∃ stack, s.get k = .ok stack ∧ s' = s.put k { stack with status := some status } := by
  unfold updateStatus
  cases s.get k with
  | ok stack =>
    constructor
    · intro hs
      exact ⟨stack, rfl, (Except.ok.inj hs).symm⟩
    · rintro ⟨stack', ⟨⟩, rfl⟩
      rfl
  | error e =>
    constructor
    · intro hs
      cases hs
    · rintro ⟨stack, ⟨⟩, -⟩

/-! ## Keys -/

theorem get_of_not_mem (hk : k ∉ s.entries.map (·.1)) : s.get k = .error (missing k) := by
  unfold get
  cases hlookup : s.entries.lookup k with
  | none => rfl
  | some stack => exact absurd (List.mem_map.2 ⟨_, mem_of_lookup hlookup, rfl⟩) hk

theorem mem_keys_iff : k ∈ s.entries.map (·.1) ↔ ∃ stack, s.get k = .ok stack := by
  constructor
  · intro hk
    unfold get
    cases hlookup : s.entries.lookup k with
    | none =>
      obtain ⟨e, he, heq⟩ := List.mem_map.1 hk
      have hne := List.lookup_eq_none_iff.1 hlookup e he
      rw [heq] at hne
      simp at hne
    | some stack => exact ⟨stack, rfl⟩
  · rintro ⟨stack, hget⟩
    by_cases hk : k ∈ s.entries.map (·.1)
    · exact hk
    · rw [get_of_not_mem hk] at hget
      cases hget

theorem nodup_put (hs : (s.entries.map (·.1)).Nodup) (k : Key) (stack : Stack) :
    ((s.put k stack).entries.map (·.1)).Nodup := by
  have hrest : ((s.entries.filter (·.1 != k)).map (·.1)).Nodup :=
    hs.sublist (List.filter_sublist.map _)
  have hnot : k ∉ (s.entries.filter (·.1 != k)).map (·.1) := by
    intro hk
    obtain ⟨e, he, heq⟩ := List.mem_map.1 hk
    have hne := (List.mem_filter.1 he).2
    rw [heq] at hne
    simp at hne
  exact List.nodup_cons.2 ⟨hnot, hrest⟩

theorem mem_keys_put : k' ∈ (s.put k stack).entries.map (·.1) ↔
    k' = k ∨ k' ∈ s.entries.map (·.1) := by
  rw [mem_keys_iff, mem_keys_iff]
  by_cases hk : k' = k
  · subst hk
    exact iff_of_true ⟨stack, get_put s k' stack⟩ (.inl rfl)
  · rw [get_put_of_ne s stack hk]
    simp [hk]

end StackKeeper.Stack.MemoryStore

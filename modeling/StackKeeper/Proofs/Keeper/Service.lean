import StackKeeper.Proofs.Attempt.Closure
import StackKeeper.Proofs.Keeper.Reconcile
import StackKeeper.Proofs.Stack.MemoryStore

/-!
# Stores at the service of keepers

A store in memory that replies to what keepers ask about it. All other requests leave it as it is,
whoever replies.
-/

namespace StackKeeper.Stack.MemoryStore

open Attempt (isRecord)

/-- An exchange in which the store takes its part. -/
inductive Serves : MemoryStore → Exchange Surroundings → MemoryStore → Prop where
  | load (s : MemoryStore) (k : Key) : Serves s ⟨.load k, s.get k⟩ s
  | save {s s' : MemoryStore} {k : Key} {status : Status}
      (hs : s.updateStatus k status = .ok s') : Serves s ⟨.save k status, .ok ()⟩ s'
  | refuse {s : MemoryStore} {k : Key} {status : Status} {e : Error}
      (hs : s.updateStatus k status = .error e) : Serves s ⟨.save k status, .error e⟩ s
  | elsewhere (s : MemoryStore) {e : Exchange Surroundings} (he : isRecord e.request = false) :
      Serves s e s

inductive ServesAll : MemoryStore → Transcript Surroundings → MemoryStore → Prop where
  | nil (s : MemoryStore) : ServesAll s [] s
  | cons {s s' s'' : MemoryStore} {e : Exchange Surroundings} {h : Transcript Surroundings}
      (he : Serves s e s') (hh : ServesAll s' h s'') : ServesAll s (e :: h) s''

variable {s s' : MemoryStore} {k : Key} {stack : Stack} {status : Status}
  {e : Exchange Surroundings} {h h' : Transcript Surroundings}

theorem Serves.eq_of_load {reply : Except Error Stack} (hs : Serves s ⟨.load k, reply⟩ s') :
    s' = s ∧ reply = s.get k := by
  cases hs with
  | load => exact ⟨rfl, rfl⟩
  | elsewhere he => cases he

theorem Serves.eq_of_elsewhere (hs : Serves s e s') (he : isRecord e.request = false) :
    s' = s := by
  cases hs <;> first | rfl | cases he

theorem Serves.eq_of_save {reply : Except Error Unit} (hs : Serves s ⟨.save k status, reply⟩ s')
    (hk : s.get k = .ok stack) :
    s' = s.put k { stack with status := some status } ∧ reply = .ok () := by
  cases hs with
  | save hs =>
    obtain ⟨stack', hk', rfl⟩ := updateStatus_eq_ok_iff.1 hs
    rw [hk] at hk'
    cases hk'
    exact ⟨rfl, rfl⟩
  | refuse hs =>
    rw [updateStatus_eq_ok_iff.2 ⟨stack, hk, rfl⟩] at hs
    cases hs
  | elsewhere he => cases he

theorem ServesAll.cons_inv (hs : ServesAll s (e :: h) s') :
    ∃ s₁, Serves s e s₁ ∧ ServesAll s₁ h s' := by
  cases hs with
  | cons he hh => exact ⟨_, he, hh⟩

theorem ServesAll.split (hs : ServesAll s (h ++ h') s') :
    ∃ s₁, ServesAll s h s₁ ∧ ServesAll s₁ h' s' := by
  induction h generalizing s with
  | nil => exact ⟨s, .nil s, hs⟩
  | cons e h ih =>
    obtain ⟨s₁, he, hh⟩ := hs.cons_inv
    obtain ⟨s₂, hh, hh'⟩ := ih hh
    exact ⟨s₂, .cons he hh, hh'⟩

theorem servesAll_of_elsewhere (s : MemoryStore) (he : ∀ e ∈ h, isRecord e.request = false) :
    ServesAll s h s := by
  induction h with
  | nil => exact .nil s
  | cons e h ih =>
    exact .cons (.elsewhere s (he e List.mem_cons_self)) (ih fun e hm => he e (.tail _ hm))

theorem ServesAll.append {s₁ : MemoryStore} (hs : ServesAll s h s₁) (hs' : ServesAll s₁ h' s') :
    ServesAll s (h ++ h') s' := by
  induction hs with
  | nil => exact hs'
  | cons he _ ih => exact .cons he (ih hs')

theorem ServesAll.eq_of_elsewhere (hs : ServesAll s h s')
    (he : ∀ e ∈ h, isRecord e.request = false) : s' = s := by
  induction hs with
  | nil => rfl
  | cons hs _ ih =>
    rw [ih fun e hm => he e (List.mem_cons_of_mem _ hm)]
    exact hs.eq_of_elsewhere (he _ List.mem_cons_self)

end StackKeeper.Stack.MemoryStore

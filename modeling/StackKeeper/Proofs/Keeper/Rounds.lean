import StackKeeper.Keeper.Rounds
import StackKeeper.Proofs.Attempt.Closure

/-!
# What rounds save

Every status that is saved while a stack is pursued is a record on the stack as it was loaded last,
by one attempt for that stack.
-/

namespace StackKeeper.Keeper

open Attempt (isRecord)
open Surroundings (asks_ask_bind_iff)

/-- The exchanges end with one attempt for a stack that was loaded under the key, with its outcome,
and with the time. -/
def Attempted (k : Keeper) (key : Stack.Key) (h : Transcript Surroundings) (loaded : Stack)
    (outcome : Attempt.Outcome) (now : Timestamp) : Prop :=
  ∃ before mode h₁, modeFor loaded = some mode ∧
    (Attempt.run loaded mode k.resolver k.attemptLimit).Ends h₁ (some outcome) ∧
    h = before ++ ⟨.load key, .ok loaded⟩ :: (h₁ ++ [⟨.now, now⟩])

/-- Whatever is saved is the record of an attempt that has just ended. -/
def Warranted (k : Keeper) (key : Stack.Key) (h : Transcript Surroundings)
    (r : Surroundings.Request) : Prop :=
  ∀ key' status, r = .save key' status → ∃ loaded outcome now,
    k.Attempted key h loaded outcome now ∧ key' = loaded.key ∧
      status = .record loaded.status outcome now

variable {k : Keeper} {key : Stack.Key}

theorem warranted_of_not_isRecord {h : Transcript Surroundings} {r : Surroundings.Request}
    (hr : isRecord r = false) : k.Warranted key h r := by
  rintro key' status rfl
  cases hr

theorem settle_warranted {loaded : Stack} {mode : Attempt.Mode} {outcome : Attempt.Outcome}
    {h₁ : Transcript Surroundings} (before : Transcript Surroundings)
    (hm : modeFor loaded = some mode)
    (he : (Attempt.run loaded mode k.resolver k.attemptLimit).Ends h₁ (some outcome)) :
    (k.settle loaded mode outcome).Asks (k.Warranted key)
      (before ++ ⟨.load key, .ok loaded⟩ :: h₁) := by
  refine asks_ask_bind_iff.2 ⟨warranted_of_not_isRecord rfl, fun now => ?_⟩
  refine asks_ask_bind_iff.2 ⟨?_, fun _ => trivial⟩
  rintro key' status ⟨⟩
  refine ⟨loaded, outcome, now, ⟨before, mode, h₁, hm, he, ?_⟩, rfl, rfl⟩
  rw [List.append_assoc, List.cons_append]

theorem reconcileKey_warranted (k : Keeper) (key : Stack.Key) (h₀ : Transcript Surroundings) :
    (k.reconcileKey key).Asks (k.Warranted key) h₀ := by
  refine asks_ask_bind_iff.2 ⟨?_, fun reply => ?_⟩
  · rintro key' status ⟨⟩
  · cases reply with
    | error e => trivial
    | ok loaded =>
      dsimp only
      unfold reconcile
      cases hm : modeFor loaded with
      | none => trivial
      | some mode =>
        -- The attempt saves nothing itself; its outcome decides what is saved after it.
        refine (Dialogue.asks_bind _ _ _).2 ⟨?_, Dialogue.ensures_iff.2 fun h₁ o he => ?_⟩
        · exact (Attempt.run_apart loaded mode _ _ _).mono fun _ _ => warranted_of_not_isRecord
        · cases o with
          | none => trivial
          | some outcome =>
            rw [List.append_assoc, List.singleton_append]
            exact settle_warranted h₀ hm he

theorem pursue_warranted (k : Keeper) (key : Stack.Key) (patience : Nat) (allowed : Option Nat)
    (h₀ : Transcript Surroundings) : (k.pursue key patience allowed).Asks (k.Warranted key) h₀ := by
  induction patience generalizing allowed h₀ with
  | zero => trivial
  | succ patience ih =>
    refine (Dialogue.asks_bind _ _ _).2
      ⟨k.reconcileKey_warranted key h₀, Dialogue.ensures_iff.2 fun h₁ r _ => ?_⟩
    cases r with
    | error e => trivial
    | ok reconciled =>
      dsimp only
      cases reconciled.requeueAfter with
      | none => trivial
      | some delay =>
        dsimp only
        split
        · trivial
        · refine asks_ask_bind_iff.2 ⟨warranted_of_not_isRecord rfl, fun reply => ?_⟩
          cases reply with
          | error i => trivial
          | ok u => exact ih _ _

end StackKeeper.Keeper

import StackKeeper.Keeper.Reconcile
import StackKeeper.Proofs.Attempt.Steps

/-!
# What reconciling exchanges

The transcripts of a reconciliation: that of its attempt, and, unless this was cancelled, one record
of how it ended.
-/

namespace StackKeeper.Keeper

open Surroundings (ends_ask_bind_iff)

variable {k : Keeper} {stack : Stack} {mode : Attempt.Mode} {key : Stack.Key}
  {h : Transcript Surroundings} {r : Except Error Reconciled}

theorem settle_ends_iff {outcome : Attempt.Outcome} :
    (k.settle stack mode outcome).Ends h r ↔ ∃ (now : Timestamp) (reply : Except Error Unit),
      h = [⟨.now, now⟩, ⟨.save stack.key (.record stack.status outcome now), reply⟩] ∧
      r = reply.map fun () => ⟨actionOf mode, .record stack.status outcome now,
        some outcome.verdict, outcome.error, k.requeueAfter stack outcome.verdict⟩ := by
  constructor
  · intro he
    obtain ⟨now, h₁, rfl, hs⟩ := ends_ask_bind_iff.1 he
    dsimp only at hs
    obtain ⟨reply, h₂, rfl, hd⟩ := ends_ask_bind_iff.1 hs
    obtain ⟨rfl, rfl⟩ := Dialogue.ends_done_iff.1 hd
    exact ⟨now, reply, rfl, rfl⟩
  · rintro ⟨now, reply, rfl, rfl⟩
    exact ends_ask_bind_iff.2 ⟨now, _, rfl, ends_ask_bind_iff.2 ⟨reply, [], rfl, .stay _⟩⟩

theorem reconcile_ends_iff (hm : modeFor stack = some mode) :
    (k.reconcile stack).Ends h r ↔ ∃ h₁ h₂ o, h = h₁ ++ h₂ ∧
      (Attempt.run stack mode k.resolver k.attemptLimit).Ends h₁ o ∧
      match o with
      | none => h₂ = [] ∧ r = .error .cancelled
      | some outcome => (k.settle stack mode outcome).Ends h₂ r := by
  unfold reconcile
  rw [hm]
  refine Dialogue.ends_bind_iff.trans ?_
  refine exists_congr fun h₁ => exists_congr fun h₂ => exists_congr fun o => ?_
  refine and_congr_right fun _ => and_congr_right fun _ => ?_
  cases o with
  | none => exact Dialogue.ends_done_iff.trans (and_congr_right fun _ => eq_comm)
  | some outcome => exact Iff.rfl

theorem reconcile_released (hm : modeFor stack = none) :
    k.reconcile stack = .done (.ok (letGo stack)) := by
  unfold reconcile
  rw [hm]

theorem reconcileKey_ends_iff :
    (k.reconcileKey key).Ends h r ↔ ∃ (reply : Except Error Stack) (h' : Transcript Surroundings),
      h = ⟨.load key, reply⟩ :: h' ∧
      match reply with
      | .error e => h' = [] ∧ r = .error e
      | .ok stack => (k.reconcile stack).Ends h' r := by
  refine ends_ask_bind_iff.trans ?_
  refine exists_congr fun reply => exists_congr fun h' => and_congr_right fun _ => ?_
  cases reply with
  | error e => exact Dialogue.ends_done_iff.trans (and_congr_right fun _ => eq_comm)
  | ok stack => exact Iff.rfl

/-- A stack with a valid specification. -/
def sound : Stack :=
  { (default : Stack) with
    spec := { (default : Stack.Spec) with stack := "acme/app", projectRepo := "acme/app.git" } }

end StackKeeper.Keeper

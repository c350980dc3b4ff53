import StackKeeper.Console.Reconciliation
import StackKeeper.Proofs.Keeper.Dispatch
import StackKeeper.Proofs.Keeper.LastAttempt

/-!
# What the command reports

Every stack gets one line, and the command fails if and only if one of the stacks was neither let go
nor brought to a result by an attempt that succeeded. It counts the stacks of which that is so.
-/

namespace StackKeeper

open Keeper (Fate LastAttempt LetGo Worker Turn Turns Collects Reconciled Installation sound contested
  contesting)

variable {k : Keeper} {key : Stack.Key} {patience : Nat} {allowed : Option Nat}
  {keys : List Stack.Key} {h : Transcript Surroundings} {x : Except Error Reconciled}
  {ws : List Worker} {rs : List (Stack.Key × Except Error Reconciled)}

/-- The stack was let go, or there is a result and its last attempt succeeded. -/
def Keeper.Worker.Converges (k : Keeper) (w : Worker) : Prop :=
  LetGo w.key w.history ∨ (∃ r, w.rest = .done (some (.ok r))) ∧
    ∃ o, LastAttempt k w.key w.history o ∧ o.verdict = .succeeded

/-- The result is an error, or the stack was not let go and its last attempt did not succeed. -/
def Keeper.Worker.Fails (k : Keeper) (w : Worker) : Prop :=
  (∃ e, w.rest = .done (some (.error e))) ∨ ¬LetGo w.key w.history ∧
    ∃ o, LastAttempt k w.key w.history o ∧ o.verdict ≠ .succeeded

namespace Console

/-! ## One stack -/

theorem hasConverged_attempted {r : Reconciled} {o : Attempt.Outcome}
    (he : o.error = none ↔ o.verdict = .succeeded) (hv : r.verdict = some o.verdict)
    (hr : r.error = o.error) : hasConverged (.ok r) = true ↔ o.verdict = .succeeded := by
  have hs : o.verdict.isSuccess = true ↔ o.verdict = .succeeded := beq_iff_eq
  simp only [hasConverged, hv, hr, Bool.and_eq_true, hs, Option.isNone_iff_eq_none, he, and_self]

theorem hasConverged_iff (hf : Fate k key h x) : hasConverged x = true ↔
    LetGo key h ∨ (∃ r, x = .ok r) ∧ ∃ o, LastAttempt k key h o ∧ o.verdict = .succeeded := by
  cases hf with
  | letGo hl => simp [hl, hasConverged, Keeper.letGo]
  | failed hl e => simp [hl, hasConverged]
  | attempted hl ho he hv hr =>
    rw [hasConverged_attempted he hv hr]
    constructor
    · intro hs
      exact .inr ⟨⟨_, rfl⟩, _, ho, hs⟩
    · rintro (hl' | ⟨-, o', ho', hs⟩)
      · exact absurd hl' hl
      · rwa [ho.unique ho']

theorem hasConverged_eq_false_iff (hf : Fate k key h x) : hasConverged x = false ↔
    (∃ e, x = .error e) ∨ ¬LetGo key h ∧ ∃ o, LastAttempt k key h o ∧ o.verdict ≠ .succeeded := by
  cases hf with
  | letGo hl => simp [hl, hasConverged, Keeper.letGo]
  | failed hl e => simp [hasConverged]
  | attempted hl ho he hv hr =>
    rw [← Bool.not_eq_true, hasConverged_attempted he hv hr]
    constructor
    · intro hs
      exact .inr ⟨hl, _, ho, hs⟩
    · rintro (⟨e, he⟩ | ⟨-, o', ho', hs⟩)
      · cases he
      · rwa [ho.unique ho']

section Worker

variable {w : Worker} (hp : w.Pursues k patience allowed) (hx : w.rest = .done (some x))
include hp hx

theorem fate_of_rest : Fate k w.key w.history x := by
  rw [Worker.Pursues, hx] at hp
  exact Keeper.pursue_fate hp

theorem converges_iff : w.Converges k ↔ hasConverged x = true := by
  rw [hasConverged_iff (fate_of_rest hp hx), Worker.Converges, hx]
  simp

theorem fails_iff : w.Fails k ↔ hasConverged x = false := by
  rw [hasConverged_eq_false_iff (fate_of_rest hp hx), Worker.Fails, hx]
  simp

theorem not_fails_iff : ¬w.Fails k ↔ w.Converges k := by
  rw [fails_iff hp hx, converges_iff hp hx, Bool.not_eq_false]

end Worker

/-! ## All stacks -/

open Classical in
theorem countP_not_hasConverged (hc : Collects ws rs)
    (hp : ∀ w ∈ ws, w.Pursues k patience allowed) :
    (rs.countP fun r => !hasConverged r.2) = ws.countP fun w => w.Fails k := by
  induction hc with
  | nil => rfl
  | @cons key h x ws rs _ ih =>
    obtain ⟨hw, hp⟩ := List.forall_mem_cons.1 hp
    have heq : (!hasConverged x) = decide (Worker.Fails k ⟨key, h, .done (some x)⟩) := by
      rw [Bool.eq_iff_iff, Bool.not_eq_true', decide_eq_true_iff, fails_iff hw rfl]
    rw [List.countP_cons, List.countP_cons, ih hp, heq]

open Classical in
theorem countP_fails_eq_zero_iff (hc : Collects ws rs)
    (hp : ∀ w ∈ ws, w.Pursues k patience allowed) :
    (ws.countP fun w => w.Fails k) = 0 ↔ ∀ w ∈ ws, w.Converges k := by
  rw [List.countP_eq_zero]
  refine forall₂_congr fun w hw => ?_
  obtain ⟨x, hx⟩ := hc.exists_rest w hw
  rw [decide_eq_true_iff, not_fails_iff (hp w hw) hx]

theorem reconcile_ends {i : Installation} {texts : List String} {t t' : Transcript Host}
    {r : Option Ending} (hne : keys ≠ []) (hk : (keysOf i texts).Ends t (.ok keys))
    (he : (reconcile i k texts allowed patience).Ends (t ++ t') r) :
    ∃ results, (i.pursueAll k patience allowed keys).Ends t' results ∧ r = results.map summary := by
  obtain ⟨t₁, t₂, found, heq, hk', hrest⟩ := Dialogue.ends_bind_iff.1 he
  obtain ⟨rfl, rfl⟩ := hk.append_inj hk' heq
  obtain rfl := List.append_cancel_left heq
  cases keys with
  | nil => exact absurd rfl hne
  | cons key keys =>
    obtain ⟨t₃, t₄, results, rfl, hresults, hdone⟩ := Dialogue.ends_bind_iff.1 hrest
    obtain ⟨rfl, rfl⟩ := Dialogue.ends_done_iff.1 hdone
    rw [List.append_nil]
    exact ⟨results, hresults, rfl⟩

/-- A stack that is marked for deletion and is not to be destroyed. -/
def discarded : Stack :=
  { sound with metadata := { sound.metadata with deletionTimestamp := some default } }

/-- Everything works, and there are a sound stack and a discarded one. -/
def shelving : Behaviour Surroundings := fun h r =>
  match r with
  | .load key => .ok (if key.name = "app" then sound else discarded)
  | r => Surroundings.obliging h r

theorem exists_succeeded : ∃ h o, (Attempt.run sound .update default none).Ends h (some o) ∧
    o.verdict = .succeeded := by
  obtain ⟨o, ho, hv⟩ : ∃ o, (Attempt.run sound .update default none).result Surroundings.obliging
      [] = some o ∧ o.verdict = .succeeded := ⟨_, rfl, rfl⟩
  exact ⟨_, o, ho ▸ Dialogue.ends_transcript Surroundings.obliging _, hv⟩

theorem exists_conflict : ∃ h o, (Attempt.run contested .update default none).Ends h (some o) ∧
    o.verdict = .conflict := by
  obtain ⟨o, ho, hv⟩ : ∃ o, (Attempt.run contested .update default none).result contesting [] =
      some o ∧ o.verdict = .conflict := ⟨_, rfl, rfl⟩
  exact ⟨_, o, ho ▸ Dialogue.ends_transcript contesting _, hv⟩

def unwritable : Error := .io "Is a directory (os error 21)"

end Console

end StackKeeper

import StackKeeper.Proofs.Attempt.Cancellation
import StackKeeper.Proofs.Keeper.Reconcile

/-!
# Cancelling a reconciliation

A caller may cancel at any moment. From then on every step of the attempt is given up, so the
reconciliation ends as cancelled and records nothing. It goes wrong only where the attempt has no
step: an invalid specification is refused, and recorded, before anyone looks at the caller.
-/

namespace StackKeeper

namespace Surroundings

/-- Requests that are given up once the caller has cancelled. -/
def isStep (r : Request) : Bool := (giveUp? r .cancelled).isSome

/-- Someone who never replies that anything is cancelled. -/
def NeverCancels (b : Behaviour Surroundings) : Prop :=
  ∀ h r, ¬GivenUp .cancelled ⟨r, b h r⟩ ∧ ¬FailedWith .cancelled ⟨r, b h r⟩

theorem obliging_not_givenUp (i : Interruption) (h : Transcript Surroundings) (r : Request) :
    ¬GivenUp i ⟨r, obliging h r⟩ := by
  intro hg
  cases r with
  | look q => cases q <;> cases hg
  | engine c => cases c <;> cases hg
  | wait n => cases i <;> cases hg
  | _ => cases hg

theorem obliging_neverCancels : NeverCancels obliging := by
  refine fun h r => ⟨obliging_not_givenUp .cancelled h r, fun hf => ?_⟩
  cases r with
  | look q => cases q <;> cases hf
  | engine c => cases c <;> cases hf
  | _ => cases hf

/-- The same behaviour for a caller who cancels after `n` exchanges. -/
def cancelledFrom (b : Behaviour Surroundings) (n : Nat) : Behaviour Surroundings := fun h r =>
  if n ≤ h.length then (giveUp? r .cancelled).getD (b h r) else b h r

theorem givenUp_cancelledFrom (b : Behaviour Surroundings) {n : Nat}
    {h : Transcript Surroundings} {r : Request} (hs : isStep r) (hn : n ≤ h.length) :
    GivenUp .cancelled ⟨r, cancelledFrom b n h r⟩ := by
  obtain ⟨reply, hr⟩ := Option.isSome_iff_exists.1 hs
  rw [GivenUp, cancelledFrom, if_pos hn, hr]
  rfl

theorem cancelledFrom_eq {b : Behaviour Surroundings} {n : Nat} {h : Transcript Surroundings}
    {r : Request} (hr : ¬(isStep r ∧ n ≤ h.length)) : cancelledFrom b n h r = b h r := by
  unfold cancelledFrom
  split
  · cases hg : giveUp? r .cancelled with
    | none => rfl
    | some reply => exact absurd ⟨by rw [isStep, hg]; rfl, ‹_›⟩ hr
  · rfl

/-- Where a step would have been made after the caller cancelled, a step is given up. -/
theorem givenUp_of_step {α : Type} {b : Behaviour Surroundings} {n i : Nat}
    {e : Exchange Surroundings} (hn : n ≤ i) (hs : isStep e.request) (d : Dialogue Surroundings α)
    (h : Transcript Surroundings) (hi : h.length ≤ i) (he : (d.transcript b h)[i]? = some e) :
    ∃ e' ∈ d.transcript (cancelledFrom b n) h, GivenUp .cancelled e' := by
  induction d generalizing h with
  | done a =>
    rw [Dialogue.transcript, List.getElem?_eq_none hi] at he
    cases he
  | ask r next ih =>
    by_cases hr : isStep r ∧ n ≤ h.length
    · refine ⟨_, ?_, givenUp_cancelledFrom b hr.1 hr.2⟩
      exact (Dialogue.isPrefix_transcript _ (next _) _).subset (List.mem_append_right _ (by simp))
    -- as long as no step is given up, both transcripts are the same
    · have hlt : h.length < i := by
        refine Nat.lt_of_le_of_ne hi fun heq => hr ?_
        obtain ⟨t, ht⟩ := Dialogue.isPrefix_transcript b (next (b h r)) (h ++ [⟨r, b h r⟩])
        rw [Dialogue.transcript, ← ht, ← heq, List.append_assoc] at he
        simp only [List.singleton_append, Nat.le_refl, List.getElem?_append_right, Nat.sub_self,
          List.getElem?_cons_zero, Option.some.injEq] at he
        exact ⟨by rw [← he] at hs; exact hs, heq ▸ hn⟩
      rw [Dialogue.transcript, cancelledFrom_eq hr]
      refine ih _ _ ?_ he
      rw [List.length_append]
      exact hlt

end Surroundings

namespace Keeper

open Surroundings

variable {k : Keeper} {stack : Stack} {mode : Attempt.Mode} {h : Transcript Surroundings}
  {r : Except Error Reconciled}

def isSave : Request → Bool
  | .save .. => true
  | _ => false

theorem isRecord_of_isSave {r : Request} (hr : isSave r) : Attempt.isRecord r = true := by
  cases r <;> first | rfl | cases hr

/-- A reconciliation in which a request was given up for the caller records nothing. -/
theorem reconcile_givenUp (hm : modeFor stack = some mode) (he : (k.reconcile stack).Ends h r)
    {e : Exchange Surroundings} (hmem : e ∈ h) (hg : GivenUp .cancelled e) :
    r = .error .cancelled ∧ ∀ e ∈ h, ¬isSave e.request := by
  obtain ⟨h₁, h₂, o, rfl, hrun, ho⟩ := (reconcile_ends_iff hm).1 he
  cases o with
  | none =>
    obtain ⟨rfl, rfl⟩ := ho
    rw [List.append_nil]
    refine ⟨rfl, fun e hmem hs => ?_⟩
    have ha := (Attempt.run_apart stack mode k.resolver k.attemptLimit []).of_ends hrun e hmem
    rw [isRecord_of_isSave hs] at ha
    cases ha
  | some outcome =>
    -- an attempt with an outcome was not given up, and its record cannot be
    obtain ⟨now, reply, rfl, -⟩ := settle_ends_iff.1 ho
    rcases List.mem_append.1 hmem with hmem | hmem
    · cases Attempt.run_givenUp hrun hmem hg
    · simp only [List.mem_cons, List.not_mem_nil, or_false] at hmem
      rcases hmem with rfl | rfl <;> cases hg

theorem reconcile_not_cancelled (hm : modeFor stack = some mode)
    (he : (k.reconcile stack).Ends h r)
    (hn : ∀ e ∈ h, ¬GivenUp .cancelled e ∧ ¬FailedWith .cancelled e) : r ≠ .error .cancelled := by
  rintro rfl
  obtain ⟨h₁, h₂, o, rfl, hrun, ho⟩ := (reconcile_ends_iff hm).1 he
  cases o with
  | none =>
    obtain ⟨e, hmem, hc⟩ := Attempt.run_cancelled hrun
    have hne := hn e (List.mem_append_left h₂ hmem)
    exact hc.elim hne.1 hne.2
  | some outcome =>
    obtain ⟨now, reply, rfl, hr⟩ := settle_ends_iff.1 ho
    cases reply with
    | ok u => cases hr
    | error e =>
      obtain rfl := Except.error.inj hr
      have hsave := hn _ (List.mem_append_right h₁ (List.mem_cons_of_mem _ List.mem_cons_self))
      exact hsave.2 rfl

theorem reconcile_of_invalid {e : Error} (hm : modeFor stack = some mode)
    (hv : stack.spec.validate = .error e) (he : (k.reconcile stack).Ends h r) :
    ∃ e ∈ h, isSave e.request := by
  obtain ⟨h₁, h₂, o, rfl, hrun, ho⟩ := (reconcile_ends_iff hm).1 he
  obtain ⟨rfl, rfl⟩ := Attempt.run_of_invalid hv hrun
  obtain ⟨now, reply, rfl, -⟩ := settle_ends_iff.1 ho
  exact ⟨_, List.mem_append_right _ (List.mem_cons_of_mem _ List.mem_cons_self), rfl⟩

theorem reconcile_of_valid (hm : modeFor stack = some mode) (hv : stack.spec.validate = .ok ())
    (he : (k.reconcile stack).Ends h r) : ∃ e ∈ h, isStep e.request := by
  obtain ⟨h₁, h₂, o, rfl, hrun, -⟩ := (reconcile_ends_iff hm).1 he
  obtain ⟨reply, hmem⟩ := Attempt.run_of_valid hv hrun
  exact ⟨_, List.mem_append_left h₂ hmem, rfl⟩

/-- Cancelling before the last step was over leads to no record and to nothing but the error of the
cancellation, if and only if the specification is valid. Without it that error does not occur, even
where an attempt runs out of time. -/
theorem reconcile_cancelled_iff (k : Keeper) (stack : Stack) (b : Behaviour Surroundings)
    (hmode : modeFor stack ≠ none) (hb : NeverCancels b) :
    (∀ n, (n = 0 ∨ ∃ i e, n ≤ i ∧ ((k.reconcile stack).transcript b [])[i]? = some e ∧
        isStep e.request) →
      ((k.reconcile stack).result (cancelledFrom b n) [] = .error .cancelled ∧
        (∀ e ∈ (k.reconcile stack).transcript (cancelledFrom b n) [], ¬isSave e.request) ↔
      stack.spec.validate = .ok ())) ∧
    (k.reconcile stack).result b [] ≠ .error .cancelled := by
  obtain ⟨mode, hm⟩ := Option.ne_none_iff_exists'.1 hmode
  have hends := fun b => Dialogue.ends_transcript b (k.reconcile stack)
  refine ⟨fun n hn => ⟨fun hc => ?_, fun hv => ?_⟩, ?_⟩
  · cases hv : stack.spec.validate with
    | ok u => rfl
    | error err =>
      obtain ⟨e, hmem, hs⟩ := reconcile_of_invalid hm hv (hends (cancelledFrom b n))
      exact absurd hs (hc.2 e hmem)
  · have hstep : ∃ i e, n ≤ i ∧ ((k.reconcile stack).transcript b [])[i]? = some e ∧
        isStep e.request := by
      rcases hn with rfl | hn
      · obtain ⟨e, hmem, hs⟩ := reconcile_of_valid hm hv (hends b)
        obtain ⟨i, hi⟩ := List.mem_iff_getElem?.1 hmem
        exact ⟨i, e, Nat.zero_le i, hi, hs⟩
      · exact hn
    obtain ⟨i, e, hle, hi, hs⟩ := hstep
    obtain ⟨e', hmem, hg⟩ := givenUp_of_step hle hs (k.reconcile stack) [] (Nat.zero_le i) hi
    exact reconcile_givenUp hm (hends _) hmem hg
  · refine reconcile_not_cancelled hm (hends b) ?_
    exact Dialogue.forall_mem_transcript
      (P := fun e => ¬GivenUp .cancelled e ∧ ¬FailedWith .cancelled e) hb _

def overspecified : Stack :=
  { sound with spec := { sound.spec with branch := some "main", commit := some "c0ffee" } }

/-- The caller may cancel before the start as well as when the engine is about to update. -/
theorem reconcile_sound_cancelled :
    modeFor sound ≠ none ∧ NeverCancels obliging ∧
    ((default : Keeper).reconcile sound).result (cancelledFrom obliging 0) [] =
      .error .cancelled ∧
    (((default : Keeper).reconcile sound).transcript obliging [])[13]? =
      some ⟨.engine .update, .ok (.ok (default : Engine.Summary))⟩ ∧
    ((default : Keeper).reconcile sound).result (cancelledFrom obliging 13) [] =
      .error .cancelled ∧
    ∀ e ∈ ((default : Keeper).reconcile sound).transcript (cancelledFrom obliging 13) [],
      ¬isSave e.request := by
  have hm : modeFor sound ≠ none := by decide
  have hv : sound.spec.validate = .ok () := by rfl
  have hupdate : (((default : Keeper).reconcile sound).transcript obliging [])[13]? =
      some ⟨.engine .update, .ok (.ok (default : Engine.Summary))⟩ := by rfl
  have hc := reconcile_cancelled_iff default sound obliging hm obliging_neverCancels
  obtain ⟨hstart, -⟩ := (hc.1 0 (.inl rfl)).2 hv
  obtain ⟨hr, hn⟩ := (hc.1 13 (.inr ⟨13, _, Nat.le_refl 13, hupdate, rfl⟩)).2 hv
  exact ⟨hm, obliging_neverCancels, hstart, hupdate, hr, hn⟩

/-- A stack whose specification is invalid fails, on record, although its caller had cancelled
before. -/
theorem overspecified_not_cancelled :
    NeverCancels obliging ∧ modeFor overspecified ≠ none ∧
    ((default : Keeper).reconcile overspecified).result (cancelledFrom obliging 0) [] ≠
      .error .cancelled ∧
    ∃ e ∈ ((default : Keeper).reconcile overspecified).transcript (cancelledFrom obliging 0) [],
      isSave e.request := by
  have hm : modeFor overspecified = some .update := by rfl
  have hv : overspecified.spec.validate =
      .error (.config "branch and commit are mutually exclusive") := by rfl
  have he := Dialogue.ends_transcript (cancelledFrom obliging 0)
    ((default : Keeper).reconcile overspecified)
  have hr : ∃ reconciled, ((default : Keeper).reconcile overspecified).result
      (cancelledFrom obliging 0) [] = .ok reconciled := ⟨_, rfl⟩
  obtain ⟨reconciled, hr⟩ := hr
  refine ⟨obliging_neverCancels, hm ▸ nofun, ?_, reconcile_of_invalid hm hv he⟩
  rw [hr]
  nofun

end Keeper

end StackKeeper

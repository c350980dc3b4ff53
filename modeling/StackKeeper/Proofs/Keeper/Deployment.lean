import StackKeeper.Proofs.Attempt.Readiness
import StackKeeper.Proofs.Keeper.Cancellation

/-!
# What becomes of an update that went through

Once the engine has updated a stack, an attempt only reads the outputs. The update is recorded as a
success if that reading comes to an end, well or badly. If the attempt runs out of time before, it
counts as failed, and the record does not tell of the commit that stands deployed.
-/

namespace StackKeeper

open Stack
open Surroundings (Raced GivenUp)

namespace Attempt

variable {stack : Stack} {mode : Mode} {resolver : Resolver} {limit : Option Nat}
  {h : Transcript Surroundings} {o : Option Outcome} {s : Engine.Summary} {p p' : Progress}

theorem Concluded.reads {r : Except Stop Outcome} (hc : Concluded p mode h p' r)
    (hu : ⟨.engine .update, .ok (.ok s)⟩ ∈ h) :
    ∃ reply : Raced (Except Error Outputs), ⟨.engine .getOutputs, reply⟩ ∈ h ∧
      r = (settleRun (c := .getOutputs) reply).map fun x =>
        p'.outcome (.converged .succeeded) .succeeded (Step.outputsChange x) none := by
  cases hc with
  | stopped hs =>
    have hx := List.mem_singleton.1 hu
    cases mode <;> cases hx
    cases hs
  | refused he =>
    have hx := List.mem_singleton.1 hu
    cases mode <;> cases hx
  | @unread _ reply s hs =>
    refine ⟨reply, List.mem_cons_of_mem _ List.mem_cons_self, ?_⟩
    rw [hs]
    rfl
  | @updated _ reply hr =>
    refine ⟨.ok reply, List.mem_cons_of_mem _ List.mem_cons_self, ?_⟩
    have hs : settleRun (c := .getOutputs) (.ok reply) = .ok reply := settleRun_ok hr
    exact (congrArg (Except.map fun x => (p.linked _).outcome (.converged .succeeded) .succeeded
      (Step.outputsChange x) none) hs).symm
  | destroyed =>
    have hx := List.mem_singleton.1 hu
    cases hx

/-- After an update that went through, all depends on what becomes of reading the outputs. -/
theorem run_reads (he : (run stack mode resolver limit).Ends h o)
    (hu : ⟨.engine .update, .ok (.ok s)⟩ ∈ h) :
    ∃ (reply : Raced (Except Error Outputs)) (p : Progress), ⟨.engine .getOutputs, reply⟩ ∈ h ∧
      o = outcome? limit p ((settleRun (c := .getOutputs) reply).map fun x =>
        p.outcome (.converged .succeeded) .succeeded (Step.outputsChange x) none) := by
  obtain ⟨h₁, h₂, h₃, p₁, p, x, rfl, hready, hb, hend⟩ := run_stages he
  have hu : ⟨.engine .update, .ok (.ok s)⟩ ∈ h₂ := by
    rcases List.mem_cons.1 hu with hu | hu
    · cases hu
    · rcases List.mem_append.1 hu with hu | hu
      · rcases List.mem_append.1 hu with hu | hu
        · cases hready.undecided _ hu
        · exact hu
      · cases (hb _ hu).1
  rcases hend with ⟨rfl, -⟩ | ⟨r, hc, rfl⟩
  · cases hu
  · obtain ⟨reply, hm, rfl⟩ := hc.reads hu
    refine ⟨reply, p, ?_, rfl⟩
    exact List.mem_cons_of_mem _ (List.mem_append_left _ (List.mem_append_right _ hm))

theorem run_checksOut (he : (run stack mode resolver limit).Ends h o)
    (hu : ⟨.engine .update, .ok (.ok s)⟩ ∈ h) : ∃ commit, ChecksOut h commit := by
  obtain ⟨checkout, environment, updates, ho⟩ :=
    (run_ends_orderly stack mode resolver limit).of_ends he
  have hd : dealings h ≠ [] := List.ne_nil_of_mem (List.mem_filter.2 ⟨hu, rfl⟩)
  obtain ⟨revision, credentials, g₀, g₁, g₂, after, -, -, -, -, rfl, -⟩ := ho.prepared hd
  refine ⟨checkout.commit, ⟨stack.spec.projectRepo, revision, stack.spec.repoDir, credentials⟩,
    checkout, ?_, rfl⟩
  simp only [List.mem_append, List.mem_cons, true_or, or_true]

theorem record_of_succeeded {out : Outcome} {commit : String} (hv : out.verdict = .succeeded)
    (hc : out.commit = some commit) (previous : Option Status) (now : Timestamp) :
    (Status.record previous out now).lastSuccessfulCommit = some commit := by
  unfold Status.record Status.lastSuccessfulCommit
  rw [hv, hc]
  rfl

theorem record_of_failed {out : Outcome} (hv : out.verdict = .failed) (previous : Option Status)
    (now : Timestamp) : (Status.record previous out now).lastSuccessfulCommit =
      previous.bind (·.lastSuccessfulCommit) := by
  unfold Status.record
  rw [hv]
  rfl

/-- An update that went through is recorded with its commit, whatever becomes of reading the
outputs, but for two ends of it. If the attempt runs out of time it has failed, and the record keeps
the commit of an earlier success. If the engine itself calls the reading cancelled there is no
record. -/
theorem run_deployed (stack : Stack) (mode : Mode) (resolver : Resolver) (limit : Option Nat)
    {h : Transcript Surroundings} {o : Option Outcome} {s : Engine.Summary}
    (he : (run stack mode resolver limit).Ends h o)
    (hu : ⟨.engine .update, .ok (.ok s)⟩ ∈ h) (hc : ∀ x ∈ h, ¬GivenUp .cancelled x) :
    ∃ (commit : String) (reply : Raced (Except Error Outputs)),
      ChecksOut h commit ∧ ⟨.engine .getOutputs, reply⟩ ∈ h ∧
      ((∃ out, o = some out ∧ out.verdict = .succeeded ∧ out.commit = some commit ∧
          ∀ previous now,
            (Status.record previous out now).lastSuccessfulCommit = some commit) ↔
        reply ≠ .error .overdue ∧ reply ≠ .ok (.error .cancelled)) ∧
      (reply = .error .overdue → ∃ out, o = some out ∧ out.verdict = .failed ∧
        out.error = some (overdueError (limit.getD 0)) ∧
        ∀ previous now, (Status.record previous out now).lastSuccessfulCommit =
          previous.bind (·.lastSuccessfulCommit)) ∧
      (reply = .ok (.error .cancelled) → o = none) := by
  obtain ⟨commit, hcommit⟩ := run_checksOut he hu
  obtain ⟨reply, p, hm, ho⟩ := run_reads he hu
  refine ⟨commit, reply, hcommit, hm, ⟨?_, fun hr => ?_⟩, ?_, ?_⟩
  · rintro ⟨out, rfl, hv, -⟩
    constructor
    · rintro rfl
      cases ho
      cases hv
    · rintro rfl
      cases ho
  -- nobody cancels and time is left, so the reading has its reply
  · obtain ⟨x, rfl⟩ : ∃ x, reply = .ok x := by
      match reply with
      | .ok x => exact ⟨x, rfl⟩
      | .error .overdue => exact absurd rfl hr.1
      | .error .cancelled => exact absurd rfl (hc _ hm)
    have hx : x ≠ .error .cancelled := fun hx => hr.2 (congrArg _ hx)
    have hs : settleRun (c := .getOutputs) (.ok x) = .ok x := settleRun_ok hx
    replace ho := ho.trans (congrArg (fun r => outcome? limit p (Except.map _ r)) hs)
    have hcom := (run_succeeded (ho ▸ he) rfl).2.1 commit hcommit
    exact ⟨_, ho, rfl, hcom, record_of_succeeded rfl hcom⟩
  · rintro rfl
    exact ⟨_, ho, rfl, rfl, record_of_failed rfl⟩
  · rintro rfl
    exact ho

end Attempt

namespace Keeper

open Attempt
open Surroundings (obliging obliging_not_givenUp obliging_neverCancels)

theorem run_deployed_sound : ∃ h out, (run sound .update default none).Ends h (some out) ∧
    ⟨.engine .update, .ok (.ok (default : Engine.Summary))⟩ ∈ h ∧
    (∀ x ∈ h, ¬GivenUp .cancelled x) ∧ out.verdict = .succeeded ∧
    ∃ commit, ChecksOut h commit ∧ out.commit = some commit := by
  have he := Dialogue.ends_transcript obliging (run sound .update default none)
  have hu : ⟨.engine .update, .ok (.ok (default : Engine.Summary))⟩ ∈
      (run sound .update default none).transcript obliging [] :=
    List.mem_of_getElem? (i := 13) rfl
  have hc := fun i => Dialogue.forall_mem_transcript (P := fun x => ¬GivenUp i x)
    (obliging_not_givenUp i) (run sound .update default none)
  have hf := Dialogue.forall_mem_transcript (P := fun x => ¬Surroundings.FailedWith .cancelled x)
    (fun h r => (obliging_neverCancels h r).2) (run sound .update default none)
  obtain ⟨commit, reply, hcommit, hm, hiff, -, -⟩ := run_deployed _ _ _ _ he hu (hc .cancelled)
  obtain ⟨out, ho, hv, hcom, -⟩ := hiff.2 ⟨by rintro rfl; exact hc .overdue _ hm rfl,
    by rintro rfl; exact hf _ hm rfl⟩
  exact ⟨_, out, ho ▸ he, hu, hc .cancelled, hv, commit, hcommit, hcom⟩

/-- Everything works, but reading the outputs takes longer than the attempt may. -/
def dawdling : Behaviour Surroundings := fun h r =>
  match r with
  | .engine .getOutputs => .error .overdue
  | r => obliging h r

theorem dawdling_not_cancelled (h : Transcript Surroundings) (r : Surroundings.Request) :
    ¬GivenUp .cancelled ⟨r, dawdling h r⟩ := by
  intro hg
  cases r with
  | look q => cases q <;> cases hg
  | engine c => cases c <;> cases hg
  | _ => cases hg

/-- An update that went through is recorded as a failure of an attempt that was not cancelled. -/
theorem deployed_not_recorded : ∃ h out, (run sound .update default (some 5000)).Ends h (some out) ∧
    ⟨.engine .update, .ok (.ok (default : Engine.Summary))⟩ ∈ h ∧
    (∀ x ∈ h, ¬GivenUp .cancelled x) ∧ out.verdict = .failed ∧
    out.error = some (.engineFailed "attempt timed out after 5s") ∧
    ∀ now, (Status.record none out now).lastSuccessfulCommit = none := by
  have he := Dialogue.ends_transcript dawdling (run sound .update default (some 5000))
  have hu : ⟨.engine .update, .ok (.ok (default : Engine.Summary))⟩ ∈
      (run sound .update default (some 5000)).transcript dawdling [] :=
    List.mem_of_getElem? (i := 13) rfl
  have hc := Dialogue.forall_mem_transcript (P := fun x => ¬GivenUp .cancelled x)
    dawdling_not_cancelled (run sound .update default (some 5000))
  obtain ⟨out, ho, hv, herr⟩ : ∃ out, (run sound .update default (some 5000)).result dawdling [] =
      some out ∧ out.verdict = .failed ∧
      out.error = some (.engineFailed "attempt timed out after 5s") := ⟨_, rfl, rfl, rfl⟩
  exact ⟨_, out, ho ▸ he, hu, hc, hv, herr, fun now => record_of_failed hv none now⟩

end Keeper

end StackKeeper

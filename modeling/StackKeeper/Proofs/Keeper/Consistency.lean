import StackKeeper.Proofs.Attempt.Failure
import StackKeeper.Proofs.Keeper.Reconcile

/-!
# What outcomes say

The parts of an outcome agree with each other and with what was exchanged: phase, error, outputs and
permalink, and the verdict, which only the engine's own answer to the update or to the destruction
tells from a plain failure. A conflict is the one verdict after which a keeper tries again, and only
for a stack that asks for it.
-/

namespace StackKeeper

open Stack

namespace Attempt

/-- The update or the destruction itself came to the error. -/
def Rejected (h : Transcript Surroundings) (e : Error) : Prop :=
  ∃ mode, ⟨.engine (decisive mode), .ok (.error e)⟩ ∈ h

/-- An outcome agrees with itself, and with what the attempt exchanged. -/
structure Consistent (stack : Stack) (mode : Mode) (resolver : Resolver)
    (h : Transcript Surroundings) (o : Outcome) : Prop where
  phase : o.phase =
    if mode = .destroy ∧ o.verdict = .succeeded then .destroyed else .converged o.verdict
  error : o.error = none ↔ o.verdict = .succeeded
  cleared : o.outputs = .clear ↔ o.phase = .destroyed
  replaced : ∀ outputs, o.outputs = .replace outputs → mode = .update ∧ o.verdict = .succeeded
  permalink : o.permalink = lastLink h
  conflict : o.verdict = .conflict ↔ ∃ text, Rejected h (.engineConflict text)
  pending : o.verdict = .pendingOperations ↔ ∃ text, Rejected h (.enginePendingOperations text)
  missing : o.verdict = .notFound ↔ ∃ text, Rejected h (.notFound text)
  /-- Whatever kind of error a step before the verdict failed with. -/
  early : ∀ e, FailsEarly stack resolver h e → o.verdict = .failed ∧ o.error = some e

/-- The last exchanges with the engine, and the outcome they lead to. -/
inductive Ending (p : Progress) : Mode → Transcript Surroundings → Outcome → Prop where
  | failed {mode : Mode} {h : Transcript Surroundings} {e : Error}
      (hh : ∀ e, Rejected h e → e = .cancelled) :
      Ending p mode h (p.outcome (.converged .failed) .failed .keep (some e))
  | refused {mode : Mode} {e : Error} :
      Ending p mode [⟨.engine (decisive mode), .ok (.error e)⟩]
        (p.outcome (.converged (.ofError e)) (.ofError e) .keep (some e))
  | updated {summary : Engine.Summary} {reply : Except Error Outputs} :
      Ending p .update [⟨.engine .update, .ok (.ok summary)⟩, ⟨.engine .getOutputs, .ok reply⟩]
        (p.outcome (.converged .succeeded) .succeeded (Step.outputsChange reply) none)
  | destroyed {summary : Engine.Summary} :
      Ending p .destroy [⟨.engine .destroy, .ok (.ok summary)⟩]
        (p.outcome .destroyed .succeeded .clear none)

section Endings

variable {stack : Stack} {mode : Mode} {resolver : Resolver} {limit : Option Nat}
  {h h' h₁ h₂ : Transcript Surroundings} {o : Outcome} {p p' : Progress} {e : Error}

theorem outcome?_error_eq_some {s : Stop} (ho : outcome? limit p (.error s) = some o) :
    ∃ e, o = p.outcome (.converged .failed) .failed .keep (some e) := by
  obtain ⟨e, -, rfl⟩ := Option.map_eq_some_iff.1 ho
  exact ⟨e, rfl⟩

theorem Concluded.permalink {r : Except Stop Outcome} (hc : Concluded p mode h p' r) :
    p'.permalink = (lastLink h).or p.permalink := by
  cases hc with
  | @stopped _ reply s hs =>
    rw [lastLink_singleton]
    cases mode <;> match reply with
      | .ok (.ok a) => cases hs
      | .ok (.error e) => rfl
      | .error i => rfl
  | refused he =>
    rw [lastLink_singleton]
    cases mode <;> rfl
  | unread hs =>
    rw [lastLink_cons, lastLink_singleton]
    rfl
  | updated hr =>
    rw [lastLink_cons, lastLink_singleton]
    rfl
  | destroyed =>
    rw [lastLink_singleton]
    rfl

theorem rejected_append : Rejected (h ++ h') e ↔ Rejected h e ∨ Rejected h' e := by
  simp only [Rejected, List.mem_append, exists_or]

theorem not_rejected_of_undecided (hn : ∀ x ∈ h, isClosing x.request = false) : ¬Rejected h e := by
  rintro ⟨mode, hm⟩
  have hc := hn _ hm
  cases mode <;> cases hc

theorem rejected_singleton {reply : Surroundings.Raced (decisive mode).Reply} :
    Rejected [⟨.engine (decisive mode), reply⟩] e ↔ reply = .ok (.error e) := by
  constructor
  · rintro ⟨mode', hm⟩
    have heq := List.mem_singleton.1 hm
    cases mode <;> cases mode' <;> cases heq <;> rfl
  · rintro rfl
    exact ⟨mode, List.mem_singleton_self _⟩

theorem not_rejected_of_succeeded {c : Engine.Call} {a : c.Answer} :
    ¬Rejected [⟨.engine c, .ok (.ok a)⟩] e := by
  rintro ⟨mode, hm⟩
  have heq := List.mem_singleton.1 hm
  cases mode <;> cases heq

theorem not_rejected_getOutputs {reply : Surroundings.Raced (Except Error Outputs)} :
    ¬Rejected [⟨.engine .getOutputs, reply⟩] e := by
  rintro ⟨mode, hm⟩
  have heq := List.mem_singleton.1 hm
  cases mode <;> cases heq

theorem Concluded.ending {r : Except Stop Outcome} (hc : Concluded p mode h p' r)
    (ho : outcome? limit p' r = some o) : Ending p' mode h o := by
  cases hc with
  | stopped hs =>
    obtain ⟨err, rfl⟩ := outcome?_error_eq_some ho
    refine .failed fun e he => ?_
    -- an error that is none of a cancellation would have been an outcome
    rw [rejected_singleton.1 he] at hs
    cases e <;> first | rfl | cases hs
  | refused he =>
    obtain rfl := Option.some.inj ho
    exact .refused
  | unread hs =>
    obtain ⟨err, rfl⟩ := outcome?_error_eq_some ho
    refine .failed fun e he => ?_
    rcases rejected_append (h := [_]).1 he with he | he
    · exact absurd he not_rejected_of_succeeded
    · exact absurd he not_rejected_getOutputs
  | updated hr =>
    obtain rfl := Option.some.inj ho
    exact .updated
  | destroyed =>
    obtain rfl := Option.some.inj ho
    exact .destroyed

/-- An outcome is that of an ending, whatever else was exchanged. -/
theorem run_ending (he : (run stack mode resolver limit).Ends h (some o)) :
    ∃ h₁ h₂ h₃ p, h = h₁ ++ (h₂ ++ h₃) ∧ (∀ x ∈ h₁, isClosing x.request = false) ∧
      (∀ x ∈ h₃, isClosing x.request = false) ∧ p.permalink = lastLink h ∧
      Ending p mode h₂ o := by
  obtain ⟨h₁, h₂, h₃, p₁, p, x, rfl, hready, hb, hend⟩ := run_stages he
  have hl₁ : p₁.permalink = lastLink h₁ := hready.permalink.trans Option.or_none
  have hlink : lastLink (⟨.start limit, ()⟩ :: (h₁ ++ h₂ ++ h₃)) = lastLink (h₁ ++ h₂) := by
    rw [lastLink_cons, lastLink_append, lastLink_eq_none fun x hx => (hb x hx).2]
    exact Option.or_none
  have hc₁ : ∀ x ∈ ⟨.start limit, ()⟩ :: h₁, isClosing x.request = false := by
    intro x hx
    rcases List.mem_cons.1 hx with rfl | hx
    · rfl
    · exact hready.undecided x hx
  refine ⟨_, h₂, h₃, p, by rw [List.append_assoc, List.cons_append], hc₁,
    fun x hx => (hb x hx).1, ?_⟩
  rw [hlink]
  rcases hend with ⟨rfl, rfl, s, ho⟩ | ⟨r, hc, ho⟩
  · obtain ⟨e, rfl⟩ := outcome?_error_eq_some ho.symm
    rw [List.append_nil]
    exact ⟨hl₁, .failed fun e ⟨mode, hm⟩ => nomatch hm⟩
  · refine ⟨?_, hc.ending ho.symm⟩
    rw [hc.permalink, hl₁, lastLink_append]

theorem Ending.verdict_eq_iff {v : Verdict} (he : Ending p mode h o) (hs : v ≠ .succeeded)
    (hf : v ≠ .failed) : o.verdict = v ↔ ∃ e, Rejected h e ∧ .ofError e = v := by
  cases he with
  | failed hh =>
    refine ⟨fun hv => absurd hv.symm hf, ?_⟩
    rintro ⟨e, hr, rfl⟩
    rw [hh e hr] at hf
    exact absurd rfl hf
  | @refused _ err =>
    refine ⟨fun hv => ⟨err, rejected_singleton.2 rfl, hv⟩, ?_⟩
    rintro ⟨e, hr, rfl⟩
    cases rejected_singleton.1 hr
    rfl
  | updated =>
    refine ⟨fun hv => absurd hv.symm hs, ?_⟩
    rintro ⟨e, hr, -⟩
    rcases rejected_append (h := [_]).1 hr with hr | hr
    · exact absurd hr not_rejected_of_succeeded
    · exact absurd hr not_rejected_getOutputs
  | destroyed =>
    refine ⟨fun hv => absurd hv.symm hs, ?_⟩
    rintro ⟨e, hr, -⟩
    exact absurd hr not_rejected_of_succeeded

/-- A verdict other than success and plain failure is the engine's own, and names the kind of its
error. -/
theorem run_verdict_eq_iff {v : Verdict} {kind : String → Error}
    (he : (run stack mode resolver limit).Ends h (some o)) (hs : v ≠ .succeeded) (hf : v ≠ .failed)
    (hk : ∀ e, Verdict.ofError e = v ↔ ∃ text, e = kind text) :
    o.verdict = v ↔ ∃ text, Rejected h (kind text) := by
  obtain ⟨h₁, h₂, h₃, p, rfl, hu₁, hu₃, -, hend⟩ := run_ending he
  have hframe : ∀ e, Rejected (h₁ ++ (h₂ ++ h₃)) e ↔ Rejected h₂ e := by
    intro e
    have hn₁ : ¬Rejected h₁ e := not_rejected_of_undecided hu₁
    have hn₃ : ¬Rejected h₃ e := not_rejected_of_undecided hu₃
    rw [rejected_append, rejected_append]
    exact ⟨fun hr => (hr.resolve_left hn₁).resolve_right hn₃, fun hr => .inr (.inl hr)⟩
  simp only [hend.verdict_eq_iff hs hf, hframe, hk]
  constructor
  · rintro ⟨_, hr, text, rfl⟩
    exact ⟨text, hr⟩
  · rintro ⟨text, hr⟩
    exact ⟨kind text, hr, text, rfl⟩

theorem run_early (he : (run stack mode resolver limit).Ends h (some o))
    (hf : FailsEarly stack resolver h e) : o.verdict = .failed ∧ o.error = some e := by
  obtain ⟨p, ho⟩ := run_failsEarly he hf
  obtain ⟨err, hs, rfl⟩ := Option.map_eq_some_iff.1 ho.symm
  have heq : err = e := by
    cases e <;> cases hs <;> rfl
  exact ⟨rfl, congrArg some heq⟩

theorem run_consistent (he : (run stack mode resolver limit).Ends h (some o)) :
    Consistent stack mode resolver h o := by
  obtain ⟨h₁, h₂, h₃, p, -, -, -, hlink, hend⟩ := run_ending he
  have hconflict : o.verdict = .conflict ↔ ∃ text, Rejected h (.engineConflict text) :=
    run_verdict_eq_iff he nofun nofun fun e => by cases e <;> simp [Verdict.ofError]
  have hpending : o.verdict = .pendingOperations ↔
      ∃ text, Rejected h (.enginePendingOperations text) :=
    run_verdict_eq_iff he nofun nofun fun e => by cases e <;> simp [Verdict.ofError]
  have hmissing : o.verdict = .notFound ↔ ∃ text, Rejected h (.notFound text) :=
    run_verdict_eq_iff he nofun nofun fun e => by cases e <;> simp [Verdict.ofError]
  refine ⟨?_, ?_, ?_, ?_, ?_, hconflict, hpending, hmissing, fun e hf => run_early he hf⟩
  · cases hend with
    | failed => exact (if_neg nofun).symm
    | refused => exact (if_neg fun hd => ofError_ne_succeeded _ hd.2).symm
    | updated => rfl
    | destroyed => rfl
  · cases hend with
    | failed => exact ⟨nofun, nofun⟩
    | refused => exact ⟨nofun, fun hv => absurd hv (ofError_ne_succeeded _)⟩
    | updated => exact ⟨fun _ => rfl, fun _ => rfl⟩
    | destroyed => exact ⟨fun _ => rfl, fun _ => rfl⟩
  · cases hend with
    | @updated _ reply => cases reply <;> exact ⟨nofun, nofun⟩
    | destroyed => exact ⟨fun _ => rfl, fun _ => rfl⟩
    | _ => exact ⟨nofun, nofun⟩
  · cases hend with
    | updated => exact fun _ _ => ⟨rfl, rfl⟩
    | _ => nofun
  · cases hend <;> exact hlink

end Endings

end Attempt

namespace Keeper

variable {k : Keeper} {stack : Stack} {mode : Attempt.Mode} {h : Transcript Surroundings}
  {o : Attempt.Outcome}

theorem requeueAfter_eq_some_iff {v : Verdict} {d : Nat} : k.requeueAfter stack v = some d ↔
    d = k.retryInterval ∧ v = .conflict ∧ stack.spec.retryOnUpdateConflict = true := by
  have hr : v.isRetryable = true ↔ v = .conflict := beq_iff_eq
  unfold requeueAfter
  rw [Option.ite_none_right_eq_some, Bool.and_eq_true, hr, Option.some.injEq, and_comm, eq_comm]

/-- Every outcome is consistent, and a reconciliation asks for another attempt exactly after a
conflict, if the stack wants that. -/
theorem outcome_consistent (k : Keeper) (stack : Stack) (mode : Attempt.Mode)
    {h : Transcript Surroundings} {o : Attempt.Outcome}
    (he : (Attempt.run stack mode k.resolver k.attemptLimit).Ends h (some o)) :
    Attempt.Consistent stack mode k.resolver h o ∧
    (modeFor stack = some mode → ∀ h' done, (k.reconcile stack).Ends (h ++ h') (.ok done) →
      ∀ d, done.requeueAfter = some d ↔ d = k.retryInterval ∧ o.verdict = .conflict ∧
        stack.spec.retryOnUpdateConflict = true) := by
  refine ⟨Attempt.run_consistent he, fun hm h' done hr d => ?_⟩
  obtain ⟨h₁, h₂, o', heq, he', hs⟩ := (reconcile_ends_iff hm).1 hr
  obtain ⟨rfl, rfl⟩ := he.append_inj he' heq
  obtain ⟨now, reply, -, hdone⟩ := settle_ends_iff.1 hs
  cases reply with
  | error e => cases hdone
  | ok u =>
    obtain rfl := Except.ok.inj hdone
    exact requeueAfter_eq_some_iff

/-- A stack that wants another attempt after a conflict. -/
def contested : Stack := { sound with spec := { sound.spec with retryOnUpdateConflict := true } }

/-- Everything works, but somebody else is updating the stack. -/
def contesting : Behaviour Surroundings := fun h r =>
  match r with
  | .engine .update => .ok (.error (.engineConflict "another update is in progress"))
  | r => Surroundings.obliging h r

theorem outcome_consistent_contested :
    let k : Keeper := ⟨default, 30000, none⟩
    ∃ h o h' done, (Attempt.run contested .update k.resolver k.attemptLimit).Ends h (some o) ∧
      modeFor contested = some .update ∧ (k.reconcile contested).Ends (h ++ h') (.ok done) ∧
      o.verdict = .conflict ∧ done.requeueAfter = some 30000 := by
  intro k
  have hm : modeFor contested = some .update := rfl
  have he := Dialogue.ends_transcript contesting
    (Attempt.run contested .update k.resolver k.attemptLimit)
  obtain ⟨o, ho, hv⟩ : ∃ o, (Attempt.run contested .update k.resolver k.attemptLimit).result
      contesting [] = some o ∧ o.verdict = .conflict := ⟨_, rfl, rfl⟩
  rw [ho] at he
  have hs : (k.settle contested .update o).Ends _ (.ok _) :=
    settle_ends_iff.2 ⟨default, .ok (), rfl, rfl⟩
  have hr := (reconcile_ends_iff hm).2 ⟨_, _, _, rfl, he, hs⟩
  obtain ⟨-, hretry⟩ := outcome_consistent k contested .update he
  refine ⟨_, o, _, _, he, hm, hr, hv, ?_⟩
  exact (hretry hm _ _ hr 30000).2 ⟨rfl, hv, rfl⟩

end Keeper

end StackKeeper

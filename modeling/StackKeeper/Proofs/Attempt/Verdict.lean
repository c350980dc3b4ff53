import StackKeeper.Proofs.Attempt.Outcome

/-!
# The engine's verdict

When an attempt is ready it asks the engine for its verdict: it has the stack updated, or destroyed.
`Concluded` lists every way this can go, with the exchanges that are made. A whole attempt stops
before that, or its transcript ends with these exchanges and the release of what was checked out.
-/

namespace StackKeeper.Attempt

open Stack
open Surroundings (Raced)

def decisive : Mode → Engine.Call
  | .update => .update
  | .destroy => .destroy

def isClosing : Surroundings.Request → Bool
  | .engine .update => true
  | .engine .getOutputs => true
  | .engine .destroy => true
  | _ => false

/-- The permalink of a run takes the place of older ones. -/
def Progress.linked (p : Progress) (s : Engine.Summary) : Progress :=
  { p with permalink := s.permalink.or p.permalink }

/-- How an attempt that is ready goes on, by the exchanges it makes. -/
inductive Concluded (p : Progress) :
    Mode → Transcript Surroundings → Progress → Except Stop Outcome → Prop where
  /-- No verdict: the run was given up, or failed as cancelled. -/
  | stopped {mode : Mode} {reply : Raced (decisive mode).Reply} {s : Stop}
      (hs : settleRun reply = .error s) :
      Concluded p mode [⟨.engine (decisive mode), reply⟩] p (.error s)
  | refused {mode : Mode} {e : Error} (he : e ≠ .cancelled) :
      Concluded p mode [⟨.engine (decisive mode), .ok (.error e)⟩] p
        (.ok (p.outcome (.converged (.ofError e)) (.ofError e) .keep (some e)))
  /-- Updated, but stopped before the outputs were read. -/
  | unread {summary : Engine.Summary} {reply : Raced (Except Error Outputs)} {s : Stop}
      (hs : settleRun (c := .getOutputs) reply = .error s) :
      Concluded p .update [⟨.engine .update, .ok (.ok summary)⟩, ⟨.engine .getOutputs, reply⟩]
        (p.linked summary) (.error s)
  | updated {summary : Engine.Summary} {reply : Except Error Outputs}
      (hr : reply ≠ .error .cancelled) :
      Concluded p .update
        [⟨.engine .update, .ok (.ok summary)⟩, ⟨.engine .getOutputs, .ok reply⟩]
        (p.linked summary) (.ok ((p.linked summary).outcome (.converged .succeeded) .succeeded
          (Step.outputsChange reply) none))
  | destroyed {summary : Engine.Summary} :
      Concluded p .destroy [⟨.engine .destroy, .ok (.ok summary)⟩] (p.linked summary)
        (.ok ((p.linked summary).outcome .destroyed .succeeded .clear none))

theorem settleRun_ok {c : Engine.Call} {x : c.Reply} (hx : x ≠ .error .cancelled) :
    settleRun (.ok x) = .ok x := by
  match x with
  | .ok a => rfl
  | .error e => cases e <;> first | rfl | exact absurd rfl hx

theorem settleRun_cases {c : Engine.Call} (reply : Raced c.Reply) :
    (∃ s, settleRun reply = .error s) ∨ ∃ x : c.Reply, reply = .ok x ∧ x ≠ .error .cancelled := by
  match reply with
  | .error i => exact .inl ⟨_, rfl⟩
  | .ok (.ok a) => exact .inr ⟨_, rfl, nofun⟩
  | .ok (.error e) =>
    by_cases he : e = .cancelled
    · subst he
      exact .inl ⟨_, rfl⟩
    · exact .inr ⟨_, rfl, fun hx => he (Except.error.inj hx)⟩

theorem converge_concluded (mode : Mode) (p : Progress) :
    (Step.converge mode).Ensures (Concluded p mode) [] p := by
  cases mode with
  | update =>
    refine (Step.ensures_bind _ _).2 ((Step.ensures_engineRun .update).2 fun reply => ?_)
    rcases settleRun_cases reply with ⟨s, hs⟩ | ⟨x, rfl, hx⟩
    · rw [hs]
      exact .stopped hs
    · rw [settleRun_ok hx]
      cases x with
      | error e => exact .refused fun he => hx (congrArg _ he)
      | ok summary =>
        refine (Step.ensures_bind _ _).2 ((Step.ensures_keepPermalink summary).2 ?_)
        refine (Step.ensures_bind _ _).2 ((Step.ensures_engineRun .getOutputs).2 fun reply => ?_)
        rcases settleRun_cases reply with ⟨s, hs⟩ | ⟨x, rfl, hx⟩
        · rw [hs]
          exact .unread hs
        · rw [settleRun_ok hx]
          exact .updated hx
  | destroy =>
    refine (Step.ensures_bind _ _).2 ((Step.ensures_engineRun .destroy).2 fun reply => ?_)
    rcases settleRun_cases reply with ⟨s, hs⟩ | ⟨x, rfl, hx⟩
    · rw [hs]
      exact .stopped hs
    · rw [settleRun_ok hx]
      cases x with
      | error e => exact .refused fun he => hx (congrArg _ he)
      | ok summary => exact .destroyed

theorem Concluded.closing {p p' : Progress} {mode : Mode} {h : Transcript Surroundings}
    {r : Except Stop Outcome} (hc : Concluded p mode h p' r) :
    ∀ x ∈ h, isClosing x.request := by
  have hd : isClosing (.engine (decisive mode)) := by cases mode <;> rfl
  cases hc <;> simp_all [isClosing]

end StackKeeper.Attempt

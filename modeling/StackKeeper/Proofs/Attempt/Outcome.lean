import StackKeeper.Proofs.Attempt.CallOrder
import StackKeeper.Proofs.Attempt.Closure

/-!
# What outcomes rest on

The outcome of an attempt agrees with what was exchanged. If it is a success, its commit is the one
that was checked out, and it replaces or clears the outputs exactly if they were read or the stack
was destroyed. In any other case it keeps them.
-/

namespace StackKeeper.Attempt

open Stack

/-- The source was handed out at a commit. -/
def ChecksOut (h : Transcript Surroundings) (commit : String) : Prop :=
  ∃ source checkout, ⟨.prepare source, .ok (.ok checkout)⟩ ∈ h ∧ checkout.commit = commit

def ReadsOutputs (h : Transcript Surroundings) (outputs : Outputs) : Prop :=
  ⟨.engine .getOutputs, .ok (.ok outputs)⟩ ∈ h

def Destroys (h : Transcript Surroundings) : Prop :=
  ∃ s : Engine.Summary, ⟨.engine .destroy, .ok (.ok s)⟩ ∈ h

/-- The verdict and the outputs of an outcome are what the engine's last replies lead to. -/
def Justified (mode : Mode) (h : Transcript Surroundings) (o : Outcome) : Prop :=
  o.verdict ≠ .succeeded ∧ o.outputs = .keep ∨
  o.verdict = .succeeded ∧
    match mode with
    | .update => ∃ reply, ⟨.engine .getOutputs, .ok reply⟩ ∈ h ∧
        o.outputs = Step.outputsChange reply
    | .destroy => Destroys h ∧ o.outputs = .clear

/-! ## Progress -/

/-- A step that does not change the commit that is worked on. -/
def KeepsCommit {α : Type} (m : Step α) : Prop :=
  ∀ p, m.Ensures (fun _ p' _ => p'.commit = p.commit) [] p

theorem keepsCommit_closed : Closed fun _ m => KeepsCommit m where
  pure := fun _ _ => rfl
  bind := fun hm hf p => Step.Ensures.seq (hm p)
    (fun _ p' a hp => (hf a p').mono fun _ _ _ hp' => hp'.trans hp) fun _ _ _ hp => hp
  ofExcept := fun _ _ => (Step.ensures_ofExcept _).2 rfl
  search := fun _ p => (Step.search_gives _ p).mono fun _ _ _ hp => hp.1 ▸ rfl
  get := fun _ => rfl
  keepPermalink := fun _ _ => rfl
  advance := fun _ _ _ => (Step.ensures_advance _ _).2 rfl
  openEngine := fun _ _ _ => (Step.ensures_openEngine _ _).2 fun _ => rfl
  engine := fun c _ => (Step.ensures_engine c).2 fun _ => rfl
  engineRun := fun c _ => (Step.ensures_engineRun c).2 fun _ => rfl

/-! ## The end of an attempt -/

section Concludes

variable {mode : Mode} {h : Transcript Surroundings} {o : Outcome}

theorem Justified.mono (hj : Justified mode h o) {h' : Transcript Surroundings}
    (hs : ∀ e ∈ h, e ∈ h') : Justified mode h' o := by
  rcases hj with hj | ⟨hv, hj⟩
  · exact .inl hj
  · refine .inr ⟨hv, ?_⟩
    cases mode with
    | update =>
      obtain ⟨reply, hm, ho⟩ := hj
      exact ⟨reply, hs _ hm, ho⟩
    | destroy =>
      obtain ⟨⟨s, hm⟩, ho⟩ := hj
      exact ⟨⟨s, hs _ hm⟩, ho⟩

/-- A step whose outcome is justified, and is about the commit that is worked on. -/
def Concludes (mode : Mode) (m : Step Outcome) : Prop :=
  ∀ p, m.Ensures (fun h p' r => ∀ o, r = .ok o → Justified mode h o ∧ o.commit = p'.commit) [] p

theorem concludes_bind {α : Type} {m : Step α} {f : α → Step Outcome}
    (hf : ∀ a, Concludes mode (f a)) : Concludes mode (m >>= f) := by
  intro p
  refine Step.Ensures.skip (fun h₁ p a => ?_) (fun h₁ p s o ho => ?_)
  · refine (hf a p).mono fun h₂ p' r hr o ho => ?_
    exact ⟨(hr o ho).1.mono fun _ => List.mem_append_right h₁, (hr o ho).2⟩
  · cases ho

theorem ofError_ne_succeeded (e : Error) : Verdict.ofError e ≠ .succeeded := by
  cases e <;> nofun

theorem concludes_refused (e : Error) : Concludes mode (Step.refused e) := by
  rintro p o ⟨⟩
  exact ⟨.inl ⟨ofError_ne_succeeded e, rfl⟩, rfl⟩

theorem concludes_converge (mode : Mode) : Concludes mode (Step.converge mode) := by
  cases mode with
  | update =>
    refine concludes_bind fun reply => ?_
    cases reply with
    | error e => exact concludes_refused e
    | ok s =>
      refine concludes_bind fun _ p => ?_
      refine (Step.ensures_bind _ _).2 ((Step.ensures_engineRun .getOutputs).2 fun reply => ?_)
      cases hr : settleRun reply with
      | error s =>
        intro o ho
        cases ho
      | ok x =>
        rintro o ⟨⟩
        refine ⟨.inr ⟨rfl, x, ?_, rfl⟩, rfl⟩
        rw [← eq_of_settleRun_eq_ok hr]
        exact List.mem_singleton_self _
  | destroy =>
    intro p
    refine (Step.ensures_bind _ _).2 ((Step.ensures_engineRun .destroy).2 fun reply => ?_)
    cases hr : settleRun reply with
    | error s =>
      intro o ho
      cases ho
    | ok x =>
      cases x with
      | error e =>
        rintro o ⟨⟩
        exact ⟨.inl ⟨ofError_ne_succeeded e, rfl⟩, rfl⟩
      | ok s =>
        rintro o ⟨⟩
        refine ⟨.inr ⟨rfl, ⟨s, ?_⟩, rfl⟩, rfl⟩
        rw [← eq_of_settleRun_eq_ok hr]
        exact List.mem_singleton_self _

theorem concludes_proceed (spec : Spec) (mode : Mode) (resolver : Resolver)
    (environment : Dict String) (checkout : Checkout) :
    Concludes mode (Step.proceed spec mode resolver environment checkout) := by
  unfold Step.proceed
  iterate 7 refine concludes_bind fun _ => ?_
  exact concludes_converge mode

end Concludes

/-! ## Whole attempts -/

def isPrepare : Surroundings.Request → Bool
  | .prepare _ => true
  | _ => false

theorem covers_not_isPrepare : Covers (isPrepare · = false) :=
  ⟨rfl, fun _ => rfl, fun _ _ => rfl, fun _ => rfl, fun _ => rfl⟩

/-- A step whose outcome is justified, and is about the one commit that was checked out. -/
def Resolves (mode : Mode) (m : Step Outcome) : Prop :=
  ∀ p, m.Ensures (fun h _ r => ∀ o, r = .ok o → Justified mode h o ∧
    ∃ commit, ChecksOut h commit ∧ (∀ c, ChecksOut h c → c = commit) ∧ o.commit = some commit) [] p

section Whole

variable {mode : Mode} {h : Transcript Surroundings}

theorem checksOut_frame (h₀ h' : Transcript Surroundings)
    (hq₀ : ∀ e ∈ h₀, isPrepare e.request = false) (hq' : ∀ e ∈ h', isPrepare e.request = false)
    (commit : String) : ChecksOut (h₀ ++ (h ++ h')) commit ↔ ChecksOut h commit := by
  constructor
  · rintro ⟨source, checkout, hm, hc⟩
    rcases List.mem_append.1 hm with hm | hm
    · cases hq₀ _ hm
    · rcases List.mem_append.1 hm with hm | hm
      · exact ⟨source, checkout, hm, hc⟩
      · cases hq' _ hm
  · rintro ⟨source, checkout, hm, hc⟩
    exact ⟨source, checkout, List.mem_append_right h₀ (List.mem_append_left h' hm), hc⟩

theorem resolves_bind {α : Type} {m : Step α} {f : α → Step Outcome}
    (hm : Makes (isPrepare · = false) m) (hf : ∀ a, Resolves mode (f a)) :
    Resolves mode (m >>= f) := by
  intro p
  refine Step.Ensures.seq (hm.ensures p) (fun h₁ p a hq => ?_) (fun h₁ p s _ o ho => ?_)
  · refine (hf a p).mono fun h₂ p' r hr o ho => ?_
    obtain ⟨hj, commit, hc, hu, hoc⟩ := hr o ho
    have hiff := checksOut_frame (h := h₂) h₁ [] hq (by simp)
    rw [List.append_nil] at hiff
    exact ⟨hj.mono fun _ => List.mem_append_right h₁, commit, (hiff commit).2 hc,
      fun c hc' => hu c ((hiff c).1 hc'), hoc⟩
  · cases ho

theorem resolves_checkOut_bind {r : SourceRequest} {f : Checkout → Step Outcome}
    (hf : ∀ c, Concludes mode (f c)) (hk : ∀ c, KeepsCommit (f c))
    (hm : ∀ c, Makes (isPrepare · = false) (f c)) : Resolves mode (Step.checkOut r >>= f) := by
  intro p
  refine Step.Ensures.seq (P := fun h p' x => ∀ c, x = .ok c →
    h = [⟨.prepare r, .ok (.ok c)⟩] ∧ p'.commit = some c.commit) ?_ (fun h₁ p c hc => ?_)
    (fun h₁ p s _ o ho => ?_)
  · refine (Step.ensures_checkOut r).2 ⟨fun c c' hc => ?_, fun reply s hs c hc => ?_⟩
    · cases hc
      exact ⟨rfl, rfl⟩
    · cases hc
  · obtain ⟨rfl, hp⟩ := hc c rfl
    refine (((hf c p).and (hk c p)).and ((hm c).ensures p)).mono fun h₂ p' x hx o ho => ?_
    obtain ⟨⟨hj, hpc⟩, hq⟩ := hx
    obtain ⟨hj, hoc⟩ := hj o ho
    refine ⟨hj.mono fun _ => List.mem_append_right _, c.commit, ⟨r, c, List.mem_cons_self, rfl⟩, ?_, ?_⟩
    · rintro _ ⟨source, checkout, hmem, rfl⟩
      rcases List.mem_cons.1 hmem with heq | hmem
      · cases heq
        rfl
      · cases hq _ hmem
    · rw [hoc, hpc, hp]
  · cases ho

theorem resolves_drive (stack : Stack) (mode : Mode) (resolver : Resolver) :
    Resolves mode (Step.drive stack mode resolver) := by
  have hC := covers_not_isPrepare.closed
  refine resolves_bind (makes_ofExcept _) fun _ => resolves_bind (makes_ofExcept _) fun _ => ?_
  refine resolves_bind (hC.search (Environment.neverCancels_build _ _ _))
    fun environment => ?_
  refine resolves_bind (hC.search (Credentials.neverCancels_resolve _ _ _))
    fun credentials => ?_
  exact resolves_checkOut_bind (fun c => concludes_proceed _ _ _ _ c)
    (fun c => keepsCommit_closed.proceed _ _ c) (fun c => hC.proceed _ _ c)

variable {stack : Stack} {resolver : Resolver} {limit : Option Nat} {o : Outcome}

/-- Nothing but an outcome of the engine is a success. -/
theorem run_outcome (he : (run stack mode resolver limit).Ends h (some o)) :
    o.verdict ≠ .succeeded ∧ o.outputs = .keep ∨ Justified mode h o ∧
      ∃ commit, ChecksOut h commit ∧ (∀ c, ChecksOut h c → c = commit) ∧ o.commit = some commit := by
  obtain ⟨h₁, h₂, r, p, rfl, hd, hb, ho⟩ := run_ends_iff.1 he
  cases r with
  | ok o' =>
    obtain rfl := Option.some.inj ho
    obtain ⟨hj, commit, hc, hu, hoc⟩ := (resolves_drive stack mode resolver _).of_ends hd o rfl
    have hb₂ : ∀ e ∈ h₂, isPrepare e.request = false := by
      intro e hm
      obtain ⟨checkout, hr⟩ := giveBack_ends hb e hm
      rw [hr]
      rfl
    have hiff := checksOut_frame (h := h₁) [⟨.start limit, ()⟩] h₂ (by simp [isPrepare]) hb₂
    refine .inr ⟨hj.mono fun e hm => ?_, commit, ?_, fun c hc' => hu c ((hiff c).1 hc'), hoc⟩
    · exact List.mem_cons_of_mem _ (List.mem_append_left h₂ hm)
    · exact (hiff commit).2 hc
  | error s =>
    obtain ⟨e, -, rfl⟩ := Option.map_eq_some_iff.1 ho.symm
    exact .inl ⟨nofun, rfl⟩

theorem run_not_succeeded (he : (run stack mode resolver limit).Ends h (some o))
    (hv : o.verdict ≠ .succeeded) : o.outputs = .keep := by
  rcases run_outcome he with ho | ⟨ho | ho, -⟩
  · exact ho.2
  · exact ho.2
  · exact absurd ho.1 hv

theorem run_succeeded (he : (run stack mode resolver limit).Ends h (some o))
    (hv : o.verdict = .succeeded) :
    (∃ commit, ChecksOut h commit) ∧ (∀ commit, ChecksOut h commit → o.commit = some commit) ∧
      (∀ outputs, ReadsOutputs h outputs ↔ o.outputs = .replace outputs) ∧
      (Destroys h ↔ o.outputs = .clear) := by
  rcases run_outcome he with ho | ⟨ho | ⟨-, hj⟩, commit, hc, hu, hoc⟩
  · exact absurd hv ho.1
  · exact absurd hv ho.1
  · refine ⟨⟨commit, hc⟩, fun c hc' => (hu c hc').symm ▸ hoc, ?_⟩
    obtain ⟨checkout, environment, updates, hord⟩ :=
      (run_ends_orderly stack mode resolver limit).of_ends he
    cases mode with
    | update =>
      obtain ⟨reply, hm, ho⟩ := hj
      refine ⟨fun outputs => ⟨fun hr => ?_, fun hr => ?_⟩, fun ⟨s, hd⟩ => ?_, fun hr => ?_⟩
      · cases hord.unique hr hm rfl rfl
        exact ho
      · rw [ho] at hr
        cases reply <;> cases hr
        exact hm
      · have hd := hord.converging (mem_engineCalls_of_mem hd rfl) (by decide)
        simp [converging] at hd
      · rw [ho] at hr
        cases reply <;> cases hr
    | destroy =>
      obtain ⟨hd, ho⟩ := hj
      refine ⟨fun outputs => ⟨fun hr => ?_, fun hr => ?_⟩, fun _ => ho, fun _ => hd⟩
      · have hr := hord.converging (mem_engineCalls_of_mem hr rfl) (by decide)
        simp [converging] at hr
      · rw [ho] at hr
        cases hr

end Whole

end StackKeeper.Attempt

import StackKeeper.Proofs.Attempt.Readiness

/-!
# Failing before the verdict

All that can fail before the engine's verdict, read off a transcript. An attempt in which it does
fails, with the very error.
-/

namespace StackKeeper.Attempt

open Stack
open Surroundings (Raced watched)

variable {α β : Type}

/-- The transcript begins with a search that came to the error. -/
def Fails (t : Lookup.Search α) (h : Transcript Surroundings) (e : Error) : Prop :=
  ∃ h₁ h₂, h = ⟨.checkpoint, .ok ()⟩ :: (h₁ ++ h₂) ∧ (watched t.run).Ends h₁ (.ok (.error e))

/-- The transcript begins with the first search, and with the second one if that gave something. One
of them came to the error. -/
def PairFails (t₁ : Lookup.Search α) (t₂ : Lookup.Search β) (h : Transcript Surroundings)
    (e : Error) : Prop :=
  Fails t₁ h e ∨ ∃ h₁ h₂ a, h = h₁ ++ h₂ ∧ Gives t₁ h₁ a ∧ Fails t₂ h₂ e

/-- Something before the engine's verdict failed with the error. -/
inductive FailsEarly (stack : Stack) (resolver : Resolver) (h : Transcript Surroundings)
    (e : Error) : Prop where
  | specification (hv : stack.spec.validate = .error e)
  /-- The environment or the credentials were not found. -/
  | values {limit : Option Nat} {h' : Transcript Surroundings} (hh : h = ⟨.start limit, ()⟩ :: h')
      (hf : PairFails (Environment.build stack.spec stack.key.namespace resolver)
        (Credentials.resolve stack.spec resolver stack.key.namespace) h' e)
  /-- Values that the configuration refers to were not found. -/
  | configuration {checkedIn : Config} {before after : Transcript Surroundings}
      (hh : h = before ++ ⟨.engine .getConfig, .ok (.ok checkedIn)⟩ :: after)
      (hf : PairFails (resolver.resolveAll stack.spec.configRefs)
        (resolver.resolveAll stack.spec.secretRefs) after e)
  /-- The source or the engine refused a request. -/
  | refused {x : Exchange Surroundings} (hx : x ∈ h) (hr : Refuses e x)

/-! ## Searches -/

section Searches

variable {t₁ : Lookup.Search α} {t₂ : Lookup.Search β} {p p' : Progress}
  {h h' : Transcript Surroundings} {e : Error}

theorem search_fails {r : Except Stop α} (he : ((Step.search t₁).run.run p).Ends h (r, p'))
    (hf : Fails t₁ (h ++ h') e) : r = .error (.failed e) := by
  obtain ⟨w, w', heq, hw⟩ := hf
  rcases Step.search_cases he with ⟨i, rfl, -⟩ | ⟨h₁, x, rfl, hx, rfl⟩
  · cases heq
  · obtain ⟨-, rfl⟩ := hx.append_inj hw (List.cons.inj heq).2
    rfl

theorem search_gave {r : Except Stop α} {g g' : Transcript Surroundings} {a : α}
    (he : ((Step.search t₁).run.run p).Ends h (r, p')) (hg : Gives t₁ g a)
    (heq : h ++ h' = g ++ g') : h' = g' ∧ r = .ok a := by
  obtain ⟨w, rfl, hw⟩ := hg
  rcases Step.search_cases he with ⟨i, rfl, -⟩ | ⟨h₁, x, rfl, hx, rfl⟩
  · cases heq
  · obtain ⟨rfl, rfl⟩ := hx.append_inj hw (List.cons.inj heq).2
    exact ⟨List.append_cancel_left heq, rfl⟩

theorem pair_fails {γ : Type} {f : α → β → Step γ} {r : Except Stop γ}
    (he : ((Step.search t₁ >>= fun a => Step.search t₂ >>= f a).run.run p).Ends h (r, p'))
    (hf : PairFails t₁ t₂ (h ++ h') e) : r = .error (.failed e) := by
  obtain ⟨h₁, h₂, x, p₁, rfl, he₁, he₂⟩ := Step.ends_bind_iff.1 he
  rw [List.append_assoc] at hf
  rcases hf with hf | ⟨g₁, g₂, a, heq, hg, hf⟩
  · obtain rfl := search_fails he₁ hf
    exact he₂.2.1
  · obtain ⟨rfl, rfl⟩ := search_gave he₁ hg heq
    obtain ⟨h₃, h₄, y, p₂, rfl, he₃, he₄⟩ := Step.ends_bind_iff.1 he₂
    rw [List.append_assoc] at hf
    obtain rfl := search_fails he₃ hf
    exact he₄.2.1

end Searches

/-! ## Coming to the configuration -/

namespace Step

def write (updates : Config) : Step Unit :=
  if updates.entries.isEmpty then pure () else engine (.updateConfig updates)

def conclude (spec : Spec) (mode : Mode) (updates : Config) : Step Outcome := do
  write updates
  advance spec.stack .configApplied
  refresh spec
  converge mode

/-- The steps of an attempt from where it reads the configuration. -/
def readOn (spec : Spec) (mode : Mode) (resolver : Resolver) : Step Outcome := do
  let checkedIn : Config ← engine .getConfig
  let config ← search (resolver.resolveAll spec.configRefs)
  let secrets ← search (resolver.resolveAll spec.secretRefs)
  conclude spec mode (Config.updates checkedIn (Config.merge
    ⟨checkedIn, spec.config, spec.secrets, config, secrets⟩))

theorem configure_bind (spec : Spec) (mode : Mode) (resolver : Resolver) :
    (configure spec resolver >>= fun _ => advance spec.stack .configApplied >>= fun _ =>
      refresh spec >>= fun _ => converge mode) =
    engine (.selectStack spec.stack spec.secretsProvider) >>= fun _ =>
      readOn spec mode resolver := by
  unfold configure configUpdates
  rw [bind_assoc]
  refine (bind_assoc (m := Step) _ _ _).trans (bind_congr fun _ => ?_)
  refine (bind_assoc (m := Step) _ _ _).trans (bind_congr fun checkedIn => ?_)
  refine (bind_assoc (m := Step) _ _ _).trans (bind_congr fun config => ?_)
  refine (bind_assoc (m := Step) _ _ _).trans (bind_congr fun secrets => ?_)
  exact pure_bind (m := Step) (Config.updates checkedIn _) _

end Step

/-- One step comes to another one, and does not read the configuration before. -/
def ComesTo (k m : Step α) : Prop :=
  ∃ m₀ : Step Unit, Makes (· ≠ .engine .getConfig) m₀ ∧ m = m₀ >>= fun _ => k

theorem comesTo_refl (k : Step α) : ComesTo k k :=
  ⟨pure (), makes_pure (), (pure_bind () fun _ => k).symm⟩

theorem ComesTo.bind {k : Step α} {m : Step β} {f : β → Step α}
    (hm : Makes (· ≠ .engine .getConfig) m) (hf : ∀ b, ComesTo k (f b)) :
    ComesTo k (m >>= f) := by
  obtain ⟨m₀, hm₀⟩ := Classical.axiomOfChoice hf
  refine ⟨m >>= m₀, hm.bind fun b => (hm₀ b).1, ?_⟩
  rw [bind_assoc]
  exact bind_congr fun b => (hm₀ b).2

theorem drive_comesTo (stack : Stack) (mode : Mode) (resolver : Resolver) :
    ComesTo (Step.readOn stack.spec mode resolver) (Step.drive stack mode resolver) := by
  refine .bind (makes_ofExcept _) fun _ => .bind (makes_ofExcept _) fun revision => ?_
  refine .bind (makes_search nofun (fun _ => nofun) _) fun environment => ?_
  refine .bind (makes_search nofun (fun _ => nofun) _) fun credentials => ?_
  refine .bind (makes_checkOut nofun) fun checkout => .bind (makes_openEngine nofun) fun _ => ?_
  refine .bind (makes_engine nofun) fun _ => .bind (makes_engine nofun) fun _ => ?_
  refine .bind (makes_advance (fun _ => nofun) _ _) fun _ => ?_
  rw [Step.configure_bind]
  exact .bind (makes_engine nofun) fun _ => comesTo_refl _

/-! ## Whole attempts -/

section Whole

variable {stack : Stack} {mode : Mode} {resolver : Resolver} {limit : Option Nat}
  {h : Transcript Surroundings} {o : Option Outcome} {e : Error}

theorem PairFails.eq_cons {t₁ : Lookup.Search α} {t₂ : Lookup.Search β}
    (hf : PairFails t₁ t₂ h e) : ∃ h', h = ⟨.checkpoint, .ok ()⟩ :: h' := by
  rcases hf with ⟨h₁, h₂, rfl, -⟩ | ⟨h₁, h₂, a, rfl, ⟨h₃, rfl, -⟩, -⟩
  · exact ⟨_, rfl⟩
  · exact ⟨_, rfl⟩

theorem drive_eq_of_valid {revision : Revision} (hv : stack.spec.validate = .ok ())
    (hr : stack.spec.revision = .ok revision) :
    Step.drive stack mode resolver =
      Step.search (Environment.build stack.spec stack.key.namespace resolver) >>= fun environment =>
        Step.search (Credentials.resolve stack.spec resolver stack.key.namespace) >>=
          fun credentials =>
            Step.checkOut ⟨stack.spec.projectRepo, revision, stack.spec.repoDir, credentials⟩ >>=
              Step.proceed stack.spec mode resolver environment := by
  simp only [Step.drive, hv, hr, Step.ofExcept, pure_bind]

/-- A release is no search, so a failure after it is none of the attempt. -/
theorem drive_values {p p' : Progress} {r : Except Stop Outcome} {h' : Transcript Surroundings}
    (he : ((Step.drive stack mode resolver).run.run p).Ends h (r, p'))
    (hb : ∀ x ∈ h', ∃ checkout, x.request = .release checkout)
    (hf : PairFails (Environment.build stack.spec stack.key.namespace resolver)
      (Credentials.resolve stack.spec resolver stack.key.namespace) (h ++ h') e) :
    r = .error (.failed e) := by
  cases hv : stack.spec.validate with
  | error err =>
    obtain ⟨rfl, -⟩ := (drive_of_invalid hv p).of_ends he
    obtain ⟨w, rfl⟩ := hf.eq_cons
    obtain ⟨checkout, hc⟩ := hb _ List.mem_cons_self
    cases hc
  | ok u =>
    obtain ⟨revision, hr⟩ := Spec.revision_of_valid hv
    rw [drive_eq_of_valid hv hr] at he
    exact pair_fails he hf

theorem readOn_ends {p p' : Progress} {r : Except Stop Outcome}
    (he : ((Step.readOn stack.spec mode resolver).run.run p).Ends h (r, p')) :
    ∃ reply h', h = ⟨.engine .getConfig, reply⟩ :: h' ∧
      ∀ checkedIn h'' e, reply = .ok (.ok checkedIn) →
        PairFails (resolver.resolveAll stack.spec.configRefs)
          (resolver.resolveAll stack.spec.secretRefs) (h' ++ h'') e → r = .error (.failed e) := by
  obtain ⟨h₁, h₂, x, p₁, rfl, he₁, he₂⟩ := Step.ends_bind_iff.1 he
  obtain ⟨-, reply, rfl, rfl⟩ := (Step.engine_exchange .getConfig p).of_ends he₁
  refine ⟨reply, h₂, rfl, ?_⟩
  rintro checkedIn h'' e rfl hf
  exact pair_fails he₂ hf

/-- The configuration is read once, so what follows its exchange is what the attempt does with
it. -/
theorem run_configuration {checkedIn : Config} {before after : Transcript Surroundings}
    {p p' : Progress} {r : Except Stop Outcome} {h' : Transcript Surroundings}
    (he : (run stack mode resolver limit).Ends (⟨.start limit, ()⟩ :: (h ++ h')) o)
    (hd : ((Step.drive stack mode resolver).run.run p).Ends h (r, p'))
    (hb : ∀ x ∈ h', ∃ checkout, x.request = .release checkout)
    (hh : ⟨.start limit, ()⟩ :: (h ++ h') =
      before ++ ⟨.engine .getConfig, .ok (.ok checkedIn)⟩ :: after)
    (hf : PairFails (resolver.resolveAll stack.spec.configRefs)
      (resolver.resolveAll stack.spec.secretRefs) after e) : r = .error (.failed e) := by
  obtain ⟨m₀, hm₀, heq⟩ := drive_comesTo stack mode resolver
  rw [heq] at hd
  obtain ⟨g₁, g₂, x, p₁, rfl, he₁, he₂⟩ := Step.ends_bind_iff.1 hd
  cases x with
  | error s =>
    obtain ⟨rfl, -⟩ := he₂
    have hmem : ⟨.engine .getConfig, .ok (.ok checkedIn)⟩ ∈
        ⟨.start limit, ()⟩ :: (g₁ ++ [] ++ h') :=
      hh ▸ List.mem_append_right before List.mem_cons_self
    rw [List.append_nil] at hmem
    rcases List.mem_cons.1 hmem with hmem | hmem
    · cases hmem
    -- the step stopped before it read the configuration, and a release does not read it
    · rcases List.mem_append.1 hmem with hmem | hmem
      · exact absurd rfl ((hm₀ [] p).of_ends he₁ _ hmem)
      · obtain ⟨checkout, hc⟩ := hb _ hmem
        cases hc
  | ok u =>
    obtain ⟨reply, g₃, rfl, hr⟩ := readOn_ends he₂
    obtain ⟨checkout, environment, updates, ho⟩ :=
      (run_ends_orderly stack mode resolver limit).of_ends he
    have hsplit : ⟨.start limit, ()⟩ :: (g₁ ++ ⟨.engine .getConfig, reply⟩ :: g₃ ++ h') =
        (⟨.start limit, ()⟩ :: g₁) ++ ⟨.engine .getConfig, reply⟩ :: (g₃ ++ h') := by
      simp only [List.append_assoc, List.cons_append]
    obtain ⟨-, hx, rfl⟩ := ho.once hsplit hh rfl rfl
    cases hx
    exact hr checkedIn h' e rfl hf

theorem isClosing_of_isEarly {q : Surroundings.Request} (hq : isEarly q) : isClosing q = false := by
  cases q with
  | engine c => cases c <;> first | rfl | cases hq
  | _ => rfl

theorem drive_refused {p p' : Progress} {r : Except Stop Outcome} {x : Exchange Surroundings}
    (hd : ((Step.drive stack mode resolver).run.run p).Ends h (r, p')) (hx : x ∈ h)
    (hr : Refuses e x) : r = .error (.failed e) := by
  rw [Step.drive_eq] at hd
  obtain ⟨h₁, h₂, y, p₁, rfl, he₁, he₂⟩ := Step.ends_bind_iff.1 hd
  have hready := ready_readied he₁
  cases y with
  | error s =>
    obtain ⟨rfl, rfl, -⟩ := he₂
    rw [List.append_nil] at hx
    cases hready.refused x hx e hr
    rfl
  | ok u =>
    rcases List.mem_append.1 hx with hx | hx
    · cases hready.refused x hx e hr
    · have hc := ((converge_concluded mode p₁).of_ends he₂).closing x hx
      rw [isClosing_of_isEarly hr.1] at hc
      cases hc

/-- An attempt ends with the failure of any step before the engine's verdict. -/
theorem run_failsEarly (he : (run stack mode resolver limit).Ends h o)
    (hf : FailsEarly stack resolver h e) : ∃ p, o = outcome? limit p (.error (.failed e)) := by
  obtain ⟨h₁, h₂, r, p, rfl, hd, hb, rfl⟩ := run_ends_iff.1 he
  have hb := giveBack_ends hb
  refine ⟨p, congrArg (outcome? limit p) ?_⟩
  cases hf with
  | specification hv =>
    obtain ⟨-, -, rfl⟩ := (drive_of_invalid hv _).of_ends hd
    rfl
  | values hh hf =>
    obtain ⟨-, rfl⟩ := List.cons.inj hh
    exact drive_values hd hb hf
  | configuration hh hf => exact run_configuration he hd hb hh hf
  | refused hx hr =>
    rcases List.mem_cons.1 hx with rfl | hx
    · cases hr.1
    · rcases List.mem_append.1 hx with hx | hx
      · exact drive_refused hd hx hr
      · obtain ⟨checkout, hc⟩ := hb _ hx
        have hq := hr.1
        rw [hc] at hq
        cases hq

end Whole

end StackKeeper.Attempt

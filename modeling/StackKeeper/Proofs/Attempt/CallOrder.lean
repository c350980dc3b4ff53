import StackKeeper.Proofs.Attempt.Steps

/-!
# The order of engine calls

Whatever is replied, an attempt asks the engine for the calls of a fixed plan, in order and without
a gap, and goes on to the next one only when the last one has succeeded. The plan depends on the
specification, on the mode, and on which entries of the configuration differ.
-/

namespace StackKeeper.Attempt

open Stack
open Surroundings (isSearch)

/-- Requests that concern the engine: to open it, and every call to it. -/
def isDealing : Surroundings.Request → Bool
  | .openEngine .. => true
  | .engine _ => true
  | _ => false

/-- What was exchanged about the engine. A request that was interrupted may have reached it. -/
def dealings (h : Transcript Surroundings) : Transcript Surroundings :=
  h.filter (isDealing ·.request)

def Succeeded : Exchange Surroundings → Prop
  | ⟨.openEngine .., reply⟩ => reply = .ok (.ok ())
  | ⟨.engine c, reply⟩ => ∃ a : c.Answer, reply = .ok (.ok a)
  | _ => True

def engineCall? : Surroundings.Request → Option Engine.Call
  | .engine c => some c
  | _ => none

def engineCalls (h : Transcript Surroundings) : List Engine.Call :=
  h.filterMap (engineCall? ·.request)

/-! ## Plans -/

def writing (updates : Config) : List Surroundings.Request :=
  if updates.entries.isEmpty then [] else [.engine (.updateConfig updates)]

def refreshing (spec : Spec) : List Surroundings.Request :=
  if spec.refresh then [.engine (.refresh spec.expectNoRefreshChanges)] else []

def converging : Mode → List Surroundings.Request
  | .update => [.engine .update, .engine .getOutputs]
  | .destroy => [.engine .destroy]

/-- Up to the reading of the configuration, the plan does not depend on it. -/
def opening (spec : Spec) (checkout : Checkout) (environment : Dict String) :
    List Surroundings.Request :=
  [.openEngine checkout spec, .engine (.setEnvironment environment), .engine .installDependencies,
    .engine (.selectStack spec.stack spec.secretsProvider), .engine .getConfig]

/-- All that is asked of the engine by an attempt that nothing stops. -/
def plan (spec : Spec) (mode : Mode) (checkout : Checkout) (environment : Dict String)
    (updates : Config) : List Surroundings.Request :=
  opening spec checkout environment ++
    (writing updates ++ (refreshing spec ++ converging mode))

def place : Engine.Call → Nat
  | .setEnvironment _ => 0
  | .installDependencies => 1
  | .selectStack .. => 2
  | .getConfig => 3
  | .updateConfig _ => 4
  | .refresh _ => 5
  | .update => 6
  | .getOutputs => 7
  | .destroy => 8

/-- Before anything of the engine, the specification was found valid, the environment and the
credentials were found, and the source was handed out. -/
def Prepared (stack : Stack) (resolver : Resolver) (checkout : Checkout)
    (environment : Dict String) (h : Transcript Surroundings) : Prop :=
  ∃ revision credentials h₀ h₁ h₂ after,
    stack.spec.validate = .ok () ∧ stack.spec.revision = .ok revision ∧
    Gives (Environment.build stack.spec stack.key.namespace resolver) h₁ environment ∧
    Gives (Credentials.resolve stack.spec resolver stack.key.namespace) h₂ credentials ∧
    h = h₀ ++ (h₁ ++ (h₂ ++ ⟨.prepare ⟨stack.spec.projectRepo, revision, stack.spec.repoDir,
      credentials⟩, .ok (.ok checkout)⟩ :: after)) ∧
    dealings h = dealings after

/-- The updates are those entries of the merged configuration that the engine did not have. -/
def Configured (spec : Spec) (resolver : Resolver) (updates : Config)
    (h : Transcript Surroundings) : Prop :=
  ∃ checkedIn resolvedConfig resolvedSecrets before h₁ h₂ after,
    h = before ++ ⟨.engine .getConfig, .ok (.ok checkedIn)⟩ :: (h₁ ++ (h₂ ++ after)) ∧
    Gives (resolver.resolveAll spec.configRefs) h₁ resolvedConfig ∧
    Gives (resolver.resolveAll spec.secretRefs) h₂ resolvedSecrets ∧
    updates = Config.updates checkedIn (Config.merge
      ⟨checkedIn, spec.config, spec.secrets, resolvedConfig, resolvedSecrets⟩)

/-- What was asked of the engine, up to some moment of an attempt. -/
structure Orderly (stack : Stack) (mode : Mode) (resolver : Resolver) (checkout : Checkout)
    (environment : Dict String) (updates : Config) (h : Transcript Surroundings) : Prop where
  planned : (dealings h).map (·.request) <+: plan stack.spec mode checkout environment updates
  /-- Only the last request may have failed, or been interrupted. -/
  succeeded : ∀ e ∈ (dealings h).dropLast, Succeeded e
  prepared : dealings h ≠ [] → Prepared stack resolver checkout environment h
  /-- Whatever comes after the configuration was read depends on it. -/
  configured : (opening stack.spec checkout environment).length < (dealings h).length →
    Configured stack.spec resolver updates h

/-! ## Stages of a plan -/

/-- All requests of a list were made, and succeeded. -/
def Done (l : List Surroundings.Request) (h : Transcript Surroundings) : Prop :=
  (dealings h).map (·.request) = l ∧ ∀ e ∈ dealings h, Succeeded e

/-- All requests of a list were made, but the last one need not have succeeded. -/
def Cut (l : List Surroundings.Request) (h : Transcript Surroundings) : Prop :=
  (dealings h).map (·.request) = l ∧ ∀ e ∈ (dealings h).dropLast, Succeeded e

theorem dealings_append (h₁ h₂ : Transcript Surroundings) :
    dealings (h₁ ++ h₂) = dealings h₁ ++ dealings h₂ := List.filter_append ..

theorem dealings_cons {e : Exchange Surroundings} (hq : isDealing e.request)
    (h : Transcript Surroundings) : dealings (e :: h) = e :: dealings h :=
  List.filter_cons_of_pos hq

theorem dealings_eq_nil_of_search {h : Transcript Surroundings}
    (hs : ∀ e ∈ h, isSearch e.request) : dealings h = [] := by
  refine List.filter_eq_nil_iff.2 fun e he => ?_
  have hq := hs e he
  obtain ⟨r, reply⟩ := e
  cases r <;> simp_all [isSearch, isDealing]

section Stages

variable {l l' : List Surroundings.Request} {h h' : Transcript Surroundings}

theorem done_nil (hq : dealings h = []) : Done [] h := by
  simp [Done, hq]

theorem Done.cut (hd : Done l h) : Cut l h :=
  ⟨hd.1, fun e he => hd.2 e (List.dropLast_subset _ he)⟩

theorem Cut.length (hc : Cut l h) : (dealings h).length = l.length := by
  rw [← hc.1, List.length_map]

theorem Done.append (hd : Done l h) (hd' : Done l' h') : Done (l ++ l') (h ++ h') := by
  refine ⟨?_, fun e he => ?_⟩
  · rw [dealings_append, List.map_append, hd.1, hd'.1]
  · rw [dealings_append] at he
    exact (List.mem_append.1 he).elim (hd.2 e) (hd'.2 e)

theorem Done.append_cut (hd : Done l h) (hc : Cut l' h') : Cut (l ++ l') (h ++ h') := by
  refine ⟨?_, fun e he => ?_⟩
  · rw [dealings_append, List.map_append, hd.1, hc.1]
  · rw [dealings_append, List.dropLast_append] at he
    split at he
    · exact hd.2 e (List.dropLast_subset _ he)
    · exact (List.mem_append.1 he).elim (hd.2 e) (hc.2 e)

theorem done_open (checkout : Checkout) (spec : Spec) :
    Done [.openEngine checkout spec] [⟨.openEngine checkout spec, .ok (.ok ())⟩] := by
  refine ⟨rfl, fun e he => ?_⟩
  obtain rfl := List.mem_singleton.1 he
  rfl

theorem done_engine (c : Engine.Call) (a : c.Answer) :
    Done [.engine c] [⟨.engine c, .ok (.ok a)⟩] := by
  refine ⟨rfl, fun e he => ?_⟩
  obtain rfl := List.mem_singleton.1 he
  exact ⟨a, rfl⟩

theorem cut_singleton {e : Exchange Surroundings} (he : isDealing e.request) :
    Cut [e.request] [e] := by
  simp [Cut, dealings, he]

end Stages

/-! ## Steps -/

/-- A step that makes the requests of a list, or stops on the way. -/
def Calls {α : Type} (l : List Surroundings.Request) (m : Step α) : Prop :=
  ∀ p, m.Ensures (fun h _ r =>
    match r with
    | .ok _ => Done l h
    | .error _ => ∃ l₀, l₀ <+: l ∧ Cut l₀ h) [] p

/-- A step that makes the requests of a list, but may end before that in any way. -/
def MayCall {α : Type} (l : List Surroundings.Request) (m : Step α) : Prop :=
  ∀ p, m.Ensures (fun h _ _ => ∃ l₀, l₀ <+: l ∧ Cut l₀ h) [] p

section Steps

variable {α β : Type} {l l' : List Surroundings.Request}

theorem Calls.bind_may {m : Step β} {f : β → Step α} (hm : Calls l m)
    (hf : ∀ a, MayCall l' (f a)) : MayCall (l ++ l') (m >>= f) := by
  intro p
  refine Step.Ensures.seq (hm p) (fun h₁ p a hd => ?_) (fun h₁ p s hc => ?_)
  · refine (hf a p).mono fun h₂ p r hc => ?_
    obtain ⟨l₀, hl, hc⟩ := hc
    exact ⟨l ++ l₀, (List.prefix_append_right_inj l).2 hl, Done.append_cut hd hc⟩
  · obtain ⟨l₀, hl, hc⟩ := hc
    exact ⟨l₀, hl.trans (List.prefix_append l l'), hc⟩

theorem Calls.bind {m : Step β} {f : β → Step α} (hm : Calls l m) (hf : ∀ a, Calls l' (f a)) :
    Calls (l ++ l') (m >>= f) := by
  intro p
  refine Step.Ensures.seq (hm p) (fun h₁ p a hd => ?_) (fun h₁ p s hc => ?_)
  · refine (hf a p).mono fun h₂ p r hc => ?_
    cases r with
    | ok b => exact Done.append hd hc
    | error s =>
      obtain ⟨l₀, hl, hc⟩ := hc
      exact ⟨l ++ l₀, (List.prefix_append_right_inj l).2 hl, Done.append_cut hd hc⟩
  · obtain ⟨l₀, hl, hc⟩ := hc
    exact ⟨l₀, hl.trans (List.prefix_append l l'), hc⟩

theorem Calls.ite {b : Prop} [Decidable b] {m m' : Step α} (hm : Calls l m) (hm' : Calls l' m') :
    Calls (if b then l else l') (if b then m else m') := by
  split
  · exact hm
  · exact hm'

theorem calls_pure (a : α) : Calls [] (pure a : Step α) := fun _ => done_nil rfl

theorem calls_openEngine (checkout : Checkout) (spec : Spec) :
    Calls [.openEngine checkout spec] (Step.openEngine checkout spec) := by
  intro p
  refine (Step.ensures_openEngine checkout spec).2 fun reply => ?_
  match reply with
  | .ok (.ok ()) => exact done_open checkout spec
  | .ok (.error e) => exact ⟨_, List.prefix_rfl, cut_singleton rfl⟩
  | .error i => exact ⟨_, List.prefix_rfl, cut_singleton rfl⟩

theorem calls_engine (c : Engine.Call) : Calls [.engine c] (Step.engine c) := by
  intro p
  refine (Step.ensures_engine c).2 fun reply => ?_
  match reply with
  | .ok (.ok a) => exact done_engine c a
  | .ok (.error e) => exact ⟨_, List.prefix_rfl, cut_singleton rfl⟩
  | .error i => exact ⟨_, List.prefix_rfl, cut_singleton rfl⟩

theorem calls_search (t : Lookup.Search α) : Calls [] (Step.search t) := by
  intro p
  refine (Step.search_gives t p).mono fun h p r hr => ?_
  have hd : Done [] h := done_nil (dealings_eq_nil_of_search hr.2.1)
  cases r with
  | ok a => exact hd
  | error s => exact ⟨[], List.prefix_rfl, hd.cut⟩

theorem calls_advance (stack : String) (target : Phase) : Calls [] (Step.advance stack target) := by
  intro p
  exact (Step.ensures_advance stack target).2 (done_nil rfl)

theorem calls_keepPermalink (s : Engine.Summary) : Calls [] (Step.keepPermalink s) :=
  fun _ => done_nil rfl

theorem calls_refresh (spec : Spec) : Calls (refreshing spec) (Step.refresh spec) :=
  Calls.ite ((calls_engine (.refresh spec.expectNoRefreshChanges)).bind fun s =>
    (calls_keepPermalink s).bind fun _ => calls_advance _ _) (calls_pure ())

theorem mayCall_converge (mode : Mode) : MayCall (converging mode) (Step.converge mode) := by
  intro p
  cases mode with
  | update =>
    have hstop : ∀ reply, ∃ l₀, l₀ <+: converging .update ∧ Cut l₀ [⟨.engine .update, reply⟩] :=
      fun reply => ⟨[.engine .update], ⟨[.engine .getOutputs], rfl⟩, cut_singleton rfl⟩
    refine (Step.ensures_bind _ _).2 ((Step.ensures_engineRun .update).2 fun reply => ?_)
    match reply with
    | .error i => exact hstop _
    | .ok (.error e) => cases e <;> exact hstop _
    | .ok (.ok s) =>
      have hdone : ∀ reply', ∃ l₀, l₀ <+: converging .update ∧
          Cut l₀ ([⟨.engine .update, .ok (.ok s)⟩] ++ [⟨.engine .getOutputs, reply'⟩]) :=
        fun reply' => ⟨_, List.prefix_rfl, (done_engine .update s).append_cut (cut_singleton rfl)⟩
      refine (Step.ensures_bind _ _).2 ((Step.ensures_keepPermalink s).2 ?_)
      refine (Step.ensures_bind _ _).2 ((Step.ensures_engineRun .getOutputs).2 fun reply' => ?_)
      match reply' with
      | .error i => exact hdone _
      | .ok (.error e) => cases e <;> exact hdone _
      | .ok (.ok o) => exact hdone _
  | destroy =>
    have hdone : ∀ reply, ∃ l₀, l₀ <+: converging .destroy ∧ Cut l₀ [⟨.engine .destroy, reply⟩] :=
      fun reply => ⟨_, List.prefix_rfl, cut_singleton rfl⟩
    refine (Step.ensures_bind _ _).2 ((Step.ensures_engineRun .destroy).2 fun reply => ?_)
    match reply with
    | .error i => exact hdone _
    | .ok (.error e) => cases e <;> exact hdone _
    | .ok (.ok s) => exact hdone _

end Steps

/-! ## The configuration -/

/-- A step that makes the requests `known`, and then others that depend on the updates of the
configuration. It may end before that in any way. -/
def MayConfigure {α : Type} (spec : Spec) (resolver : Resolver)
    (known : List Surroundings.Request) (rest : Config → List Surroundings.Request)
    (m : Step α) : Prop :=
  ∀ p, m.Ensures (fun h _ _ => ∃ updates l, l <+: known ++ rest updates ∧ Cut l h ∧
    (known.length < l.length → Configured spec resolver updates h)) [] p

section Configuration

variable {α β : Type} {spec : Spec} {resolver : Resolver} {l known : List Surroundings.Request}
  {rest : Config → List Surroundings.Request}

theorem Configured.append {updates : Config} {h : Transcript Surroundings}
    (hc : Configured spec resolver updates h) (h₀ h' : Transcript Surroundings) :
    Configured spec resolver updates (h₀ ++ (h ++ h')) := by
  obtain ⟨checkedIn, config, secrets, before, h₁, h₂, after, rfl, hg₁, hg₂, hu⟩ := hc
  exact ⟨checkedIn, config, secrets, h₀ ++ before, h₁, h₂, after ++ h',
    by simp only [List.append_assoc, List.cons_append], hg₁, hg₂, hu⟩

theorem Calls.bind_mayConfigure {m : Step β} {f : β → Step α} (hm : Calls l m)
    (hf : ∀ a, MayConfigure spec resolver known rest (f a)) :
    MayConfigure spec resolver (l ++ known) rest (m >>= f) := by
  intro p
  refine Step.Ensures.seq (hm p) (fun h₁ p a hd => ?_) (fun h₁ p s hc => ?_)
  · refine (hf a p).mono fun h₂ p r hc => ?_
    obtain ⟨updates, l₀, hl, hc, hu⟩ := hc
    refine ⟨updates, l ++ l₀, ?_, Done.append_cut hd hc, fun hlt => ?_⟩
    · rw [List.append_assoc]
      exact (List.prefix_append_right_inj l).2 hl
    · rw [List.length_append, List.length_append] at hlt
      have hu := (hu (by omega)).append h₁ []
      rwa [List.append_nil] at hu
  · obtain ⟨l₀, hl, hc⟩ := hc
    refine ⟨default, l₀, ?_, hc, fun hlt => ?_⟩
    · rw [List.append_assoc]
      exact hl.trans (List.prefix_append l _)
    · have hle := hl.length_le
      rw [List.length_append] at hlt
      omega

theorem calls_configUpdates :
    Calls [.engine (.selectStack spec.stack spec.secretsProvider), .engine .getConfig]
      (Step.configUpdates spec resolver) :=
  (calls_engine _).bind fun _ => (calls_engine _).bind fun _ => (calls_search _).bind fun _ =>
    (calls_search _).bind fun _ => calls_pure _

theorem configUpdates_configured (p : Progress) :
    (Step.configUpdates spec resolver).Ensures
      (fun h _ r => ∀ updates, r = .ok updates → Configured spec resolver updates h) [] p := by
  unfold Step.configUpdates
  refine Step.Ensures.seq (Step.engine_exchange (.selectStack spec.stack spec.secretsProvider) p)
    (fun h₁ p _ _ => ?_) (fun _ _ _ _ => nofun)
  refine Step.Ensures.seq (Step.engine_exchange .getConfig p) (fun h₂ p checkedIn hg => ?_)
    (fun _ _ _ _ => nofun)
  refine Step.Ensures.seq (Step.search_gives _ p) (fun h₃ p config hc => ?_)
    (fun _ _ _ _ => nofun)
  refine Step.Ensures.seq (Step.search_gives _ p) (fun h₄ p secrets hs => ?_)
    (fun _ _ _ _ => nofun)
  obtain ⟨-, reply, rfl, hr⟩ := hg
  obtain rfl := settle_eq_ok_iff.1 hr.symm
  rintro updates ⟨⟩
  exact ⟨checkedIn, config, secrets, h₁, h₃, h₄, [], rfl, hc.2.2 _ rfl, hs.2.2 _ rfl, rfl⟩

theorem calls_write (updates : Config) :
    Calls (writing updates)
      (if updates.entries.isEmpty then pure () else Step.engine (.updateConfig updates) :
        Step Unit) :=
  Calls.ite (calls_pure ()) (calls_engine (.updateConfig updates))

theorem mayConfigure_configure_bind {f : Unit → Step α} (hf : ∀ a, MayCall l (f a)) :
    MayConfigure spec resolver
      [.engine (.selectStack spec.stack spec.secretsProvider), .engine .getConfig]
      (fun updates => writing updates ++ l) (Step.configure spec resolver >>= f) := by
  intro p
  unfold Step.configure
  rw [bind_assoc]
  refine Step.Ensures.seq ((calls_configUpdates p).and (configUpdates_configured p))
    (fun h₁ p updates hu => ?_) (fun h₁ p s hu => ?_)
  · have hc := hu.2 updates rfl
    refine ((calls_write updates).bind_may hf p).mono fun h₂ p r hr => ?_
    obtain ⟨l₀, hl, hcut⟩ := hr
    exact ⟨updates, _ ++ l₀, (List.prefix_append_right_inj _).2 hl, hu.1.append_cut hcut,
      fun _ => hc.append [] h₂⟩
  · obtain ⟨l₀, hl, hcut⟩ := hu.1
    refine ⟨default, l₀, hl.trans (List.prefix_append _ _), hcut, fun hlt => ?_⟩
    exact absurd hl.length_le (Nat.not_le.2 hlt)

theorem mayConfigure_proceed (mode : Mode) (environment : Dict String) (checkout : Checkout) :
    MayConfigure spec resolver (opening spec checkout environment)
      (fun updates => writing updates ++ (refreshing spec ++ converging mode))
      (Step.proceed spec mode resolver environment checkout) := by
  refine (calls_openEngine checkout spec).bind_mayConfigure fun _ => ?_
  refine (calls_engine (.setEnvironment environment)).bind_mayConfigure fun _ => ?_
  refine (calls_engine .installDependencies).bind_mayConfigure fun _ => ?_
  refine (calls_advance spec.stack .dependenciesInstalled).bind_mayConfigure fun _ => ?_
  refine mayConfigure_configure_bind fun _ => ?_
  refine (calls_advance spec.stack .configApplied).bind_may fun _ => ?_
  exact (calls_refresh spec).bind_may fun _ => mayCall_converge mode

end Configuration

/-! ## Whole attempts -/

section Whole

variable {stack : Stack} {mode : Mode} {resolver : Resolver} {checkout : Checkout}
  {environment : Dict String} {updates : Config} {h : Transcript Surroundings}

theorem orderly_of_idle (hq : dealings h = []) :
    ∃ checkout environment updates,
      Orderly stack mode resolver checkout environment updates h :=
  ⟨default, default, default, by simp [hq], by simp [hq], fun hne => absurd hq hne,
    fun hlt => by simp [hq] at hlt⟩

theorem Orderly.frame (ho : Orderly stack mode resolver checkout environment updates h)
    (h₀ h' : Transcript Surroundings) (hq₀ : dealings h₀ = []) (hq' : dealings h' = []) :
    Orderly stack mode resolver checkout environment updates (h₀ ++ (h ++ h')) := by
  have hd : dealings (h₀ ++ (h ++ h')) = dealings h := by
    rw [dealings_append, dealings_append, hq₀, hq', List.nil_append, List.append_nil]
  refine ⟨hd ▸ ho.planned, hd ▸ ho.succeeded, fun hne => ?_, fun hlt => ?_⟩
  · obtain ⟨revision, credentials, h₁, h₂, h₃, after, hv, hr, hg₂, hg₃, rfl, ha⟩ :=
      ho.prepared (hd ▸ hne)
    refine ⟨revision, credentials, h₀ ++ h₁, h₂, h₃, after ++ h', hv, hr, hg₂, hg₃, ?_, ?_⟩
    · simp only [List.append_assoc, List.cons_append]
    · rw [hd, ha, dealings_append, hq', List.append_nil]
  · exact (ho.configured (hd ▸ hlt)).append h₀ h'

theorem drive_orderly (p : Progress) :
    (Step.drive stack mode resolver).Ensures (fun h _ _ => ∃ checkout environment updates,
      Orderly stack mode resolver checkout environment updates h) [] p := by
  unfold Step.drive
  refine (Step.ensures_bind _ _).2 ((Step.ensures_ofExcept _).2 ?_)
  cases hv : stack.spec.validate with
  | error e => exact orderly_of_idle rfl
  | ok u =>
    refine (Step.ensures_bind _ _).2 ((Step.ensures_ofExcept _).2 ?_)
    cases hr : stack.spec.revision with
    | error e => exact orderly_of_idle rfl
    | ok revision =>
      refine Step.Ensures.seq (Step.search_gives _ p) (fun h₁ p environment hg₁ => ?_)
        (fun h₁ p s hs => orderly_of_idle (dealings_eq_nil_of_search hs.2.1))
      -- a search is no dealing with the engine, and neither is the checkout
      have hq₁ := dealings_eq_nil_of_search hg₁.2.1
      refine Step.Ensures.seq (Step.search_gives _ p) (fun h₂ p credentials hg₂ => ?_)
        (fun h₂ p s hs => orderly_of_idle ?_)
      · have hq₂ := dealings_eq_nil_of_search hg₂.2.1
        refine Step.Ensures.seq (Step.checkOut_exchange _ p) (fun h₃ p checkout hg₃ => ?_)
          (fun h₃ p s hs => orderly_of_idle ?_)
        · obtain ⟨reply, rfl, hg₃⟩ := hg₃
          obtain rfl := settle_eq_ok_iff.1 hg₃.symm
          refine (mayConfigure_proceed mode environment checkout p).mono fun h₄ p r hc => ?_
          obtain ⟨updates, l, hl, hc, hu⟩ := hc
          have hd : ∀ source, dealings (h₁ ++ (h₂ ++
              ([⟨.prepare source, .ok (.ok checkout)⟩] ++ h₄))) = dealings h₄ := by
            intro source
            rw [dealings_append, dealings_append, hq₁, hq₂]
            rfl
          refine ⟨checkout, environment, updates, ?_, ?_, fun _ => ?_, fun hlt => ?_⟩
          · rw [hd, hc.1]
            exact hl
          · rw [hd]
            exact hc.2
          · exact ⟨revision, credentials, [], h₁, h₂, h₄, hv, hr, hg₁.2.2 _ rfl, hg₂.2.2 _ rfl,
              rfl, hd _⟩
          · rw [hd, hc.length] at hlt
            have hcon := fun before => (hu hlt).append before []
            simp only [List.append_nil] at hcon
            rw [← List.append_assoc, ← List.append_assoc]
            exact hcon _
        · obtain ⟨reply, rfl, -⟩ := hs
          rw [dealings_append, dealings_append, hq₁, hq₂]
          rfl
      · rw [dealings_append, hq₁, dealings_eq_nil_of_search hs.2.1]
        rfl

/-- Only the last request may have failed: after a failed one, the engine is left alone. -/
theorem Orderly.idle_after (ho : Orderly stack mode resolver checkout environment updates h)
    {h₁ h₂ : Transcript Surroundings} {e : Exchange Surroundings} (heq : h = h₁ ++ e :: h₂)
    (hq : isDealing e.request) (hf : ¬Succeeded e) : dealings h₂ = [] := by
  cases hd₂ : dealings h₂ with
  | nil => rfl
  | cons e' t =>
    refine absurd (ho.succeeded e ?_) hf
    have hd : dealings h = dealings h₁ ++ e :: e' :: t := by
      rw [heq, dealings_append, dealings_cons hq, hd₂]
    rw [hd, List.dropLast_append_of_ne_nil (by simp), List.dropLast_cons_of_ne_nil (by simp)]
    simp

end Whole

/-! ## Calls in order -/

theorem engineCalls_eq (h : Transcript Surroundings) :
    engineCalls h = ((dealings h).map (·.request)).filterMap engineCall? := by
  unfold engineCalls dealings
  rw [List.filterMap_map, List.filterMap_filter]
  congr
  funext e
  obtain ⟨r, reply⟩ := e
  cases r <;> rfl

theorem plan_ascends (spec : Spec) (mode : Mode) (checkout : Checkout) (environment : Dict String)
    (updates : Config) :
    ((plan spec mode checkout environment updates).filterMap engineCall?).Pairwise
      (place · < place ·) := by
  unfold plan opening writing refreshing
  cases mode <;> split <;> split <;> simp [converging, List.filterMap_cons, engineCall?, place]

theorem mem_converging_of_mem_plan {spec : Spec} {mode : Mode} {checkout : Checkout}
    {environment : Dict String} {updates : Config} {c : Engine.Call}
    (hc : .engine c ∈ plan spec mode checkout environment updates) (hp : 5 < place c) :
    .engine c ∈ converging mode := by
  unfold plan opening writing refreshing at hc
  rcases List.mem_append.1 hc with hc | hc
  · simp only [List.mem_cons, List.not_mem_nil, or_false, reduceCtorEq, false_or,
      Surroundings.Request.engine.injEq] at hc
    rcases hc with rfl | rfl | rfl | rfl <;> simp [place] at hp
  · rcases List.mem_append.1 hc with hc | hc
    · split at hc <;> simp at hc
      subst hc
      simp [place] at hp
    · rcases List.mem_append.1 hc with hc | hc
      · split at hc <;> simp at hc
        subst hc
        simp [place] at hp
      · exact hc

theorem mem_engineCalls {h : Transcript Surroundings} {c : Engine.Call} :
    c ∈ engineCalls h ↔ .engine c ∈ (dealings h).map (·.request) := by
  rw [engineCalls_eq, List.mem_filterMap]
  constructor
  · rintro ⟨r, hr, hc⟩
    cases r <;> cases hc
    exact hr
  · exact fun hc => ⟨_, hc, rfl⟩

theorem run_ends_orderly (stack : Stack) (mode : Mode) (resolver : Resolver) (limit : Option Nat) :
    (run stack mode resolver limit).Ensures (fun h _ => ∃ checkout environment updates,
      Orderly stack mode resolver checkout environment updates h) [] := by
  refine Dialogue.ensures_iff.2 fun h o he => ?_
  obtain ⟨h₁, h₂, r, p, rfl, hd, hg, -⟩ := run_ends_iff.1 he
  obtain ⟨checkout, environment, updates, ho⟩ :=
    (drive_orderly (Progress.initial stack.spec)).of_ends hd
  have hq₂ : dealings h₂ = [] := by
    refine List.filter_eq_nil_iff.2 fun e hm => ?_
    obtain ⟨c, hc⟩ := giveBack_ends hg e hm
    rw [hc]
    nofun
  exact ⟨checkout, environment, updates, ho.frame [⟨.start limit, ()⟩] h₂ rfl hq₂⟩

section Orderly

variable {stack : Stack} {mode : Mode} {resolver : Resolver} {checkout : Checkout}
  {environment : Dict String} {updates : Config} {h : Transcript Surroundings} {c : Engine.Call}

theorem Orderly.ascends (ho : Orderly stack mode resolver checkout environment updates h) :
    (engineCalls h).Pairwise (place · < place ·) := by
  rw [engineCalls_eq]
  exact (plan_ascends stack.spec mode checkout environment updates).sublist
    (ho.planned.filterMap engineCall?).sublist

theorem Orderly.converging (ho : Orderly stack mode resolver checkout environment updates h)
    (hc : c ∈ engineCalls h) (hp : 5 < place c) : .engine c ∈ converging mode :=
  mem_converging_of_mem_plan (ho.planned.subset (mem_engineCalls.1 hc)) hp

theorem mem_engineCalls_of_mem {e : Exchange Surroundings} (he : e ∈ h)
    (hc : e.request = .engine c) : c ∈ engineCalls h :=
  List.mem_filterMap.2 ⟨e, he, by rw [hc]; rfl⟩

theorem Orderly.once (ho : Orderly stack mode resolver checkout environment updates h)
    {l₁ l₂ m₁ m₂ : Transcript Surroundings} {e e' : Exchange Surroundings} (he : h = l₁ ++ e :: l₂)
    (he' : h = m₁ ++ e' :: m₂) (hc : e.request = .engine c) (hc' : e'.request = .engine c) :
    l₁ = m₁ ∧ e = e' ∧ l₂ = m₂ := by
  have hp := List.pairwise_filterMap.1 ho.ascends
  have hlt : ∀ {i j : Nat} {x y : Exchange Surroundings}, h[i]? = some x → h[j]? = some y →
      x.request = .engine c → y.request = .engine c → ¬i < j := by
    intro i j x y hx hy hcx hcy hlt
    obtain ⟨hi, rfl⟩ := List.getElem?_eq_some_iff.1 hx
    obtain ⟨hj, rfl⟩ := List.getElem?_eq_some_iff.1 hy
    refine absurd (List.pairwise_iff_getElem.1 hp i j hi hj hlt c ?_ c ?_) (Nat.lt_irrefl _)
    · rw [hcx]
      rfl
    · rw [hcy]
      rfl
  have hi : h[l₁.length]? = some e := by simp [he]
  have hj : h[m₁.length]? = some e' := by simp [he']
  have hlen : l₁.length = m₁.length :=
    Nat.le_antisymm (Nat.not_lt.1 (hlt hj hi hc' hc)) (Nat.not_lt.1 (hlt hi hj hc hc'))
  obtain ⟨rfl, ht⟩ := List.append_inj (he ▸ he') hlen
  exact ⟨rfl, List.cons.inj ht⟩

theorem Orderly.unique (ho : Orderly stack mode resolver checkout environment updates h)
    {e e' : Exchange Surroundings} (he : e ∈ h) (he' : e' ∈ h) (hc : e.request = .engine c)
    (hc' : e'.request = .engine c) : e = e' := by
  obtain ⟨l₁, l₂, hl⟩ := List.append_of_mem he
  obtain ⟨m₁, m₂, hm⟩ := List.append_of_mem he'
  exact (ho.once hl hm hc hc').2.1

end Orderly

/-- Whatever is replied, and whenever the attempt is interrupted, the engine is asked for what is
planned and no more. Each call is made at most once, and none after one that failed. In particular
a refresh that finds drift ends the attempt, and no mode leads to the call of the other one. -/
theorem run_orderly (stack : Stack) (mode : Mode) (resolver : Resolver) (limit : Option Nat)
    (b : Behaviour Surroundings) :
    let h := (run stack mode resolver limit).transcript b []
    (∃ checkout environment updates,
      Orderly stack mode resolver checkout environment updates h) ∧
    (engineCalls h).Pairwise (place · < place ·) ∧
    (∀ h₁ e h₂, h = h₁ ++ e :: h₂ → isDealing e.request → ¬Succeeded e → dealings h₂ = []) ∧
    (mode = .destroy → .update ∉ engineCalls h) ∧ (mode = .update → .destroy ∉ engineCalls h) := by
  intro h
  obtain ⟨checkout, environment, updates, ho⟩ :=
    (run_ends_orderly stack mode resolver limit).played b
  refine ⟨⟨checkout, environment, updates, ho⟩, ho.ascends, fun h₁ e h₂ => ho.idle_after, ?_, ?_⟩
  all_goals
    rintro rfl hc
    have hm := ho.converging hc (by decide)
    simp [converging] at hm

end StackKeeper.Attempt

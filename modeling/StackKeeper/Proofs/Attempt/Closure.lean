import StackKeeper.Proofs.Attempt.Steps
import StackKeeper.Proofs.Lookup.Cancellation
import StackKeeper.Proofs.Stack.Spec

/-!
# From the parts of an attempt to the whole

What holds of the parts that attempts are put together from, and of every sequence of such parts,
holds of whole attempts. An attempt gets ready, and converges then: what need not hold of the runs
of the engine holds at least of everything before them.
-/

namespace StackKeeper.Attempt

open Stack

namespace Step

/-- The steps of an attempt on a checkout before the engine's verdict. -/
def equip (spec : Spec) (resolver : Resolver) (environment : Dict String) (checkout : Checkout) :
    Step Unit := do
  openEngine checkout spec
  engine (.setEnvironment environment)
  engine .installDependencies
  advance spec.stack .dependenciesInstalled
  configure spec resolver
  advance spec.stack .configApplied
  refresh spec

def ready (stack : Stack) (resolver : Resolver) : Step Unit := do
  let spec := stack.spec
  let ns := stack.key.namespace
  ofExcept spec.validate
  let revision ← ofExcept spec.revision
  let environment ← search (Environment.build spec ns resolver)
  let credentials ← search (Credentials.resolve spec resolver ns)
  let checkout ← checkOut ⟨spec.projectRepo, revision, spec.repoDir, credentials⟩
  equip spec resolver environment checkout

theorem proceed_eq (spec : Spec) (mode : Mode) (resolver : Resolver) (environment : Dict String)
    (checkout : Checkout) : proceed spec mode resolver environment checkout =
      equip spec resolver environment checkout >>= fun _ => converge mode := by
  symm
  refine (bind_assoc _ _ _).trans (bind_congr fun _ => ?_)
  refine (bind_assoc _ _ _).trans (bind_congr fun _ => ?_)
  refine (bind_assoc _ _ _).trans (bind_congr fun _ => ?_)
  refine (bind_assoc _ _ _).trans (bind_congr fun _ => ?_)
  refine (bind_assoc _ _ _).trans (bind_congr fun _ => ?_)
  exact bind_assoc _ _ _

theorem drive_eq (stack : Stack) (mode : Mode) (resolver : Resolver) :
    drive stack mode resolver = ready stack resolver >>= fun _ => converge mode := by
  simp only [drive, ready, proceed_eq, bind_assoc]

end Step

def isSetup : Engine.Call → Bool
  | .setEnvironment _ => true
  | .installDependencies => true
  | .selectStack .. => true
  | .getConfig => true
  | .updateConfig _ => true
  | _ => false

/-- A property of all parts before the engine's verdict, which sequences inherit. -/
structure Preparatory (P : (α : Type) → Step α → Prop) : Prop where
  pure : ∀ {α : Type} (a : α), P α (pure a)
  bind : ∀ {α β : Type} {m : Step β} {f : β → Step α}, P β m → (∀ b, P α (f b)) → P α (m >>= f)
  ofExcept : ∀ {α : Type} {x : Except Error α}, ConfigOnly x → P α (Step.ofExcept x)
  search : ∀ {α : Type} {t : Lookup.Search α}, Lookup.NeverCancels t → P α (Step.search t)
  advance : ∀ stack target, P Unit (Step.advance stack target)
  openEngine : ∀ checkout spec, P Unit (Step.openEngine checkout spec)
  setup : ∀ c, isSetup c → P c.Answer (Step.engine c)
  refresh : ∀ expectNone, P Unit (Step.engine (.refresh expectNone) >>= Step.keepPermalink)

namespace Preparatory

variable {P : (α : Type) → Step α → Prop} (hP : Preparatory P) {spec : Spec} {resolver : Resolver}

include hP

omit hP in
theorem ite {α : Type} {b : Prop} [Decidable b] {m m' : Step α} (hm : P α m) (hm' : P α m') :
    P α (if b then m else m') := by
  split
  · exact hm
  · exact hm'

theorem configUpdates : P Config (Step.configUpdates spec resolver) := by
  refine hP.bind (hP.setup (.selectStack spec.stack spec.secretsProvider) rfl) fun _ => ?_
  refine hP.bind (hP.setup .getConfig rfl) fun checkedIn => ?_
  refine hP.bind (hP.search (resolver.neverCancels_resolveAll _)) fun config => ?_
  exact hP.bind (hP.search (resolver.neverCancels_resolveAll _)) fun secrets => hP.pure _

theorem configure : P Unit (Step.configure spec resolver) :=
  hP.bind hP.configUpdates fun updates => ite (hP.pure ()) (hP.setup (.updateConfig updates) rfl)

theorem refreshing : P Unit (Step.refresh spec) := by
  have hr := hP.bind (hP.refresh spec.expectNoRefreshChanges) fun _ =>
    hP.advance spec.stack .refreshed
  exact ite ((congrArg (P Unit) (bind_assoc _ _ _)).mp hr) (hP.pure ())

theorem equip (environment : Dict String) (checkout : Checkout) :
    P Unit (Step.equip spec resolver environment checkout) := by
  refine hP.bind (hP.openEngine checkout spec) fun _ => ?_
  refine hP.bind (hP.setup (.setEnvironment environment) rfl) fun _ => ?_
  refine hP.bind (hP.setup .installDependencies rfl) fun _ => ?_
  refine hP.bind (hP.advance spec.stack .dependenciesInstalled) fun _ => ?_
  refine hP.bind hP.configure fun _ => hP.bind (hP.advance spec.stack .configApplied) fun _ => ?_
  exact hP.refreshing

theorem ready (hc : ∀ r, P Checkout (Step.checkOut r)) (stack : Stack) :
    P Unit (Step.ready stack resolver) := by
  refine hP.bind (hP.ofExcept stack.spec.validate_configOnly) fun _ => ?_
  refine hP.bind (hP.ofExcept stack.spec.revision_configOnly) fun revision => ?_
  refine hP.bind (hP.search (Environment.neverCancels_build _ _ _)) fun environment => ?_
  refine hP.bind (hP.search (Credentials.neverCancels_resolve _ _ _)) fun credentials => ?_
  exact hP.bind (hc _) fun checkout => hP.equip environment checkout

end Preparatory

/-- A property of all parts, which sequences inherit. -/
structure Closed (P : (α : Type) → Step α → Prop) : Prop where
  pure : ∀ {α : Type} (a : α), P α (pure a)
  bind : ∀ {α β : Type} {m : Step β} {f : β → Step α}, P β m → (∀ b, P α (f b)) → P α (m >>= f)
  ofExcept : ∀ {α : Type} {x : Except Error α}, ConfigOnly x → P α (Step.ofExcept x)
  search : ∀ {α : Type} {t : Lookup.Search α}, Lookup.NeverCancels t → P α (Step.search t)
  get : P Progress Step.get
  keepPermalink : ∀ s, P Unit (Step.keepPermalink s)
  advance : ∀ stack target, P Unit (Step.advance stack target)
  openEngine : ∀ checkout spec, P Unit (Step.openEngine checkout spec)
  engine : ∀ c, P c.Answer (Step.engine c)
  engineRun : ∀ c, P c.Reply (Step.engineRun c)

namespace Closed

variable {P : (α : Type) → Step α → Prop} (hP : Closed P) {spec : Spec} {resolver : Resolver}

include hP

theorem preparatory : Preparatory P where
  pure := hP.pure
  bind := hP.bind
  ofExcept := hP.ofExcept
  search := hP.search
  advance := hP.advance
  openEngine := hP.openEngine
  setup := fun c _ => hP.engine c
  refresh := fun b => hP.bind (hP.engine (.refresh b)) hP.keepPermalink

theorem refused (e : Error) : P Outcome (Step.refused e) := hP.bind hP.get fun _ => hP.pure _

theorem converge (mode : Mode) : P Outcome (Step.converge mode) := by
  cases mode with
  | update =>
    refine hP.bind (hP.engineRun .update) fun reply => ?_
    cases reply with
    | error e => exact hP.refused e
    | ok s =>
      refine hP.bind (hP.keepPermalink s) fun _ => ?_
      exact hP.bind (hP.engineRun .getOutputs) fun _ => hP.bind hP.get fun _ => hP.pure _
  | destroy =>
    refine hP.bind (hP.engineRun .destroy) fun reply => ?_
    cases reply with
    | error e => exact hP.refused e
    | ok s => exact hP.bind (hP.keepPermalink s) fun _ => hP.bind hP.get fun _ => hP.pure _

theorem proceed (mode : Mode) (environment : Dict String) (checkout : Checkout) :
    P Outcome (Step.proceed spec mode resolver environment checkout) := by
  rw [Step.proceed_eq]
  exact hP.bind (hP.preparatory.equip environment checkout) fun _ => hP.converge mode

theorem drive (hc : ∀ r, P Checkout (Step.checkOut r)) (stack : Stack) (mode : Mode) :
    P Outcome (Step.drive stack mode resolver) := by
  rw [Step.drive_eq]
  exact hP.bind (hP.preparatory.ready hc stack) fun _ => hP.converge mode

end Closed

/-! ## Requests of an attempt -/

/-- A property of the requests that parts make. -/
structure Covers (A : Surroundings.Request → Prop) : Prop where
  checkpoint : A .checkpoint
  look : ∀ q, A (.look q)
  openEngine : ∀ checkout spec, A (.openEngine checkout spec)
  engine : ∀ c, A (.engine c)
  tell : ∀ e, A (.tell e)

def Makes (A : Surroundings.Request → Prop) {α : Type} (m : Step α) : Prop :=
  ∀ h p, (m.run.run p).Asks (fun _ => A) h

section Makes

variable {A : Surroundings.Request → Prop} {α β : Type}

theorem Makes.bind {m : Step β} {f : β → Step α} (hm : Makes A m) (hf : ∀ b, Makes A (f b)) :
    Makes A (m >>= f) := by
  intro h p
  rw [Step.run_bind, Dialogue.asks_bind]
  refine ⟨hm h p, Dialogue.ensures_iff.2 fun h' x _ => ?_⟩
  obtain ⟨r, p⟩ := x
  cases r with
  | ok b => exact hf b _ p
  | error s => trivial

theorem Makes.ensures {m : Step α} (hm : Makes A m) (p : Progress) :
    m.Ensures (fun h _ _ => ∀ e ∈ h, A e.request) [] p :=
  Dialogue.ensures_iff.2 fun _ _ he => (hm [] p).of_ends he

theorem makes_pure (a : α) : Makes A (pure a : Step α) := fun _ _ => trivial

theorem makes_stop (s : Stop) : Makes A (Step.stop s : Step α) := fun _ _ => trivial

theorem makes_modify (f : Progress → Progress) : Makes A (Step.modify f) := fun _ _ => trivial

theorem makes_ask {r : Surroundings.Request} (hr : A r) : Makes A (Step.ask r) :=
  fun _ _ => ⟨hr, fun _ => trivial⟩

theorem makes_ofExcept (x : Except Error α) : Makes A (Step.ofExcept x) := by
  cases x with
  | ok a => exact makes_pure a
  | error e => exact makes_stop _

theorem makes_ofRaced (reply : Surroundings.Raced α) : Makes A (Step.ofRaced reply) := by
  cases reply with
  | ok a => exact makes_pure a
  | error i => exact makes_stop _

theorem makes_settled (reply : Surroundings.Raced (Except Error α)) :
    Makes A (Step.settled reply) :=
  (makes_ofRaced reply).bind makes_ofExcept

theorem makes_search (hc : A .checkpoint) (hl : ∀ q, A (.look q)) (t : Lookup.Search α) :
    Makes A (Step.search t) := by
  refine (makes_ask hc).bind fun reply => (makes_ofRaced reply).bind fun _ => ?_
  refine Makes.bind (fun h p => ?_) makes_settled
  change (((Surroundings.watched t.run).bind _).bind _).Asks _ h
  rw [Dialogue.asks_bind, Dialogue.asks_bind]
  refine ⟨⟨(Surroundings.watched_asks t.run h).mono fun _ r hr => ?_,
    Dialogue.ensures_iff.2 fun _ _ _ => trivial⟩, Dialogue.ensures_iff.2 fun _ _ _ => trivial⟩
  cases r with
  | checkpoint => exact hc
  | look q => exact hl q
  | _ => cases hr

theorem makes_openEngine {checkout : Checkout} {spec : Spec} (ho : A (.openEngine checkout spec)) :
    Makes A (Step.openEngine checkout spec) :=
  (makes_ask ho).bind fun _ => makes_settled _

theorem makes_engine {c : Engine.Call} (hc : A (.engine c)) : Makes A (Step.engine c) :=
  (makes_ask hc).bind fun _ => makes_settled _

theorem makes_advance (ht : ∀ e, A (.tell e)) (stack : String) (target : Phase) :
    Makes A (Step.advance stack target) :=
  fun _ _ => ⟨ht _, fun _ => trivial⟩

theorem Covers.engineRun (hA : Covers A) (c : Engine.Call) : Makes A (Step.engineRun c) := by
  refine (makes_ask (hA.engine c)).bind fun reply => (makes_ofRaced _).bind fun reply => ?_
  split
  · exact makes_stop _
  · exact makes_pure _

theorem Covers.closed (hA : Covers A) : Closed fun _ m => Makes A m where
  pure := makes_pure
  bind := Makes.bind
  ofExcept := fun _ => makes_ofExcept _
  search := fun _ => makes_search hA.checkpoint hA.look _
  get := fun _ _ => trivial
  keepPermalink := fun _ => makes_modify _
  advance := makes_advance hA.tell
  openEngine := fun _ _ => makes_openEngine (hA.openEngine _ _)
  engine := fun c => makes_engine (hA.engine c)
  engineRun := hA.engineRun

theorem makes_checkOut {r : SourceRequest} (hr : A (.prepare r)) : Makes A (Step.checkOut r) :=
  (makes_ask hr).bind fun _ => (makes_settled _).bind fun _ => (makes_modify _).bind fun _ =>
    makes_pure _

end Makes

/-! ## The store -/

/-- Requests about what the store holds. -/
def isRecord : Surroundings.Request → Bool
  | .load _ => true
  | .save .. => true
  | _ => false

theorem covers_not_isRecord : Covers (isRecord · = false) :=
  ⟨rfl, fun _ => rfl, fun _ _ => rfl, fun _ => rfl, fun _ => rfl⟩

theorem Covers.drive {A : Surroundings.Request → Prop} (hA : Covers A) (hp : ∀ r, A (.prepare r))
    (stack : Stack) (mode : Mode) (resolver : Resolver) : Makes A (Step.drive stack mode resolver) :=
  hA.closed.drive (fun _ => makes_checkOut (hp _)) stack mode

/-- What holds of the requests of all parts, and of the start and the end, holds of all requests. -/
theorem Covers.run {A : Surroundings.Request → Prop} (hA : Covers A) (hs : ∀ l, A (.start l))
    (hp : ∀ r, A (.prepare r)) (hr : ∀ c, A (.release c)) (stack : Stack) (mode : Mode)
    (resolver : Resolver) (limit : Option Nat) (h : Transcript Surroundings) :
    (run stack mode resolver limit).Asks (fun _ => A) h := by
  refine Surroundings.asks_ask_bind_iff.2 ⟨hs _, fun _ => (Dialogue.asks_bind _ _ _).2 ⟨?_, ?_⟩⟩
  · exact hA.drive hp stack mode resolver _ _
  · refine Dialogue.ensures_iff.2 fun h' x _ => (Dialogue.asks_bind _ _ _).2 ⟨?_, ?_⟩
    · cases x.2.checkout with
      | none => trivial
      | some checkout => exact ⟨hr _, fun _ => trivial⟩
    · exact Dialogue.ensures_iff.2 fun _ _ _ => trivial

theorem run_apart (stack : Stack) (mode : Mode) (resolver : Resolver) (limit : Option Nat)
    (h : Transcript Surroundings) :
    (run stack mode resolver limit).Asks (fun _ r => isRecord r = false) h :=
  covers_not_isRecord.run (fun _ => rfl) (fun _ => rfl) (fun _ => rfl) stack mode resolver limit h

end StackKeeper.Attempt

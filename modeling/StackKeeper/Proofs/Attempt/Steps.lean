import StackKeeper.Attempt.Run
import StackKeeper.Proofs.Dialogue.Transcript

/-!
# Judging the steps of an attempt

`Step.Ensures` lifts the judgement of dialogues to steps: whatever is replied, the transcript, the
progress and the result are as they should be. One rule for each way to build a step, and one for
each named step, take the place of their definitions.
-/

namespace StackKeeper

open Attempt Stack

namespace Surroundings

def isSearch : Request → Bool
  | .checkpoint => true
  | .look _ => true
  | _ => false

/-- Someone with whom everything works. -/
def obliging : Behaviour Surroundings := fun _ r =>
  match r with
  | .start _ => ()
  | .checkpoint => .ok ()
  | .look (.secret _) => .ok (.ok ∅)
  | .look (.configMap _) => .ok (.ok ∅)
  | .look (.file _) => .ok (.ok "")
  | .prepare _ => .ok (.ok default)
  | .openEngine .. => .ok (.ok ())
  | .engine (.setEnvironment _) => .ok (.ok ())
  | .engine .installDependencies => .ok (.ok ())
  | .engine (.selectStack ..) => .ok (.ok ())
  | .engine .getConfig => .ok (.ok (default : Config))
  | .engine (.updateConfig _) => .ok (.ok ())
  | .engine (.refresh _) => .ok (.ok (default : Engine.Summary))
  | .engine .update => .ok (.ok (default : Engine.Summary))
  | .engine .getOutputs => .ok (.ok (default : Outputs))
  | .engine .destroy => .ok (.ok (default : Engine.Summary))
  | .release _ => .ok ()
  | .load _ => .ok (default : Stack)
  | .save .. => .ok ()
  | .now => (default : Timestamp)
  | .wait _ => .ok ()
  | .tell _ => ()

theorem ends_ask_bind_iff {α : Type} {r : Request} {f : Reply r → Dialogue Surroundings α}
    {h : Transcript Surroundings} {a : α} :
    (ask r >>= f).Ends h a ↔ ∃ reply h', h = ⟨r, reply⟩ :: h' ∧ (f reply).Ends h' a :=
  Dialogue.ends_ask_iff

theorem asks_ask_bind_iff {α : Type} {A : Transcript Surroundings → Request → Prop} {r : Request}
    {f : Reply r → Dialogue Surroundings α} {h : Transcript Surroundings} :
    (ask r >>= f).Asks A h ↔ A h r ∧ ∀ reply, (f reply).Asks A (h ++ [⟨r, reply⟩]) := Iff.rfl

theorem watched_asks {α : Type} (d : Dialogue Lookup α) (h : Transcript Surroundings) :
    (watched d).Asks (fun _ r => isSearch r) h := by
  induction d generalizing h with
  | done a => trivial
  | ask r next ih =>
    unfold watched Dialogue.Asks
    refine ⟨rfl, fun reply => ?_⟩
    cases reply with
    | error i => trivial
    | ok reply => exact ih reply _

end Surroundings

namespace Attempt

open Surroundings (Raced watched isSearch)

def settle {α : Type} : Raced (Except Error α) → Except Stop α
  | .ok (.ok a) => .ok a
  | .ok (.error e) => .error (.failed e)
  | .error i => .error (.interrupted i)

theorem settle_eq_ok_iff {α : Type} {reply : Raced (Except Error α)} {a : α} :
    settle reply = .ok a ↔ reply = .ok (.ok a) := by
  match reply with
  | .ok (.ok b) => simp [settle]
  | .ok (.error e) => simp [settle]
  | .error i => simp [settle]

def settleRun {c : Engine.Call} : Raced c.Reply → Except Stop c.Reply
  | .ok (.error .cancelled) => .error (.failed .cancelled)
  | .ok reply => .ok reply
  | .error i => .error (.interrupted i)

theorem eq_of_settleRun_eq_ok {c : Engine.Call} {reply : Raced c.Reply} {x : c.Reply}
    (hr : settleRun reply = .ok x) : reply = .ok x := by
  match reply with
  | .ok (.ok a) => exact congrArg Except.ok (Except.ok.inj hr)
  | .ok (.error e) => cases e <;> cases hr <;> rfl
  | .error i => cases hr

/-- The exchanges of a search that was not interrupted and gave `a`. -/
def Gives {α : Type} (t : Lookup.Search α) (h : Transcript Surroundings) (a : α) : Prop :=
  ∃ h', h = ⟨.checkpoint, .ok ()⟩ :: h' ∧ (watched t.run).Ends h' (.ok (.ok a))

namespace Step

variable {α β : Type} {h : Transcript Surroundings} {p : Progress}

/-- Whatever is replied to the step after the exchanges `h`, made with the progress `p`, its end
satisfies `Q`. -/
def Ensures (Q : Transcript Surroundings → Progress → Except Stop α → Prop) (m : Step α)
    (h : Transcript Surroundings) (p : Progress) : Prop :=
  (m.run.run p).Ensures (fun h x => Q h x.2 x.1) h

section Rules

variable {Q : Transcript Surroundings → Progress → Except Stop α → Prop}

theorem ensures_get {Q : Transcript Surroundings → Progress → Except Stop Progress → Prop} :
    get.Ensures Q h p ↔ Q h p (.ok p) := Iff.rfl

theorem ensures_modify {Q : Transcript Surroundings → Progress → Except Stop Unit → Prop}
    (f : Progress → Progress) : (modify f).Ensures Q h p ↔ Q h (f p) (.ok ()) := Iff.rfl

theorem ensures_ask (r : Surroundings.Request)
    {Q : Transcript Surroundings → Progress → Except Stop (Surroundings.Reply r) → Prop} :
    (ask r).Ensures Q h p ↔ ∀ reply, Q (h ++ [⟨r, reply⟩]) p (.ok reply) := Iff.rfl

theorem run_bind (m : Step β) (f : β → Step α) (p : Progress) :
    (m >>= f).run.run p = (m.run.run p).bind fun x =>
      match x.1 with
      | .ok a => (f a).run.run x.2
      | .error s => .done (.error s, x.2) := by
  change (m.run.run p).bind _ = _
  congr 1
  funext x
  obtain ⟨r, p⟩ := x
  cases r <;> rfl

/-- A transcript of a sequence ends where its first step stops, or goes on with its second one. -/
theorem ends_bind_iff {m : Step β} {f : β → Step α} {p' : Progress} {r : Except Stop α} :
    ((m >>= f).run.run p).Ends h (r, p') ↔ ∃ h₁ h₂ x p₁, h = h₁ ++ h₂ ∧
      (m.run.run p).Ends h₁ (x, p₁) ∧
      match x with
      | .ok b => ((f b).run.run p₁).Ends h₂ (r, p')
      | .error s => h₂ = [] ∧ r = .error s ∧ p' = p₁ := by
  rw [run_bind, Dialogue.ends_bind_iff]
  constructor
  · rintro ⟨h₁, h₂, ⟨x, p₁⟩, rfl, he₁, he₂⟩
    refine ⟨h₁, h₂, x, p₁, rfl, he₁, ?_⟩
    cases x with
    | ok u => exact he₂
    | error s =>
      obtain ⟨rfl, hr⟩ := Dialogue.ends_done_iff.1 he₂
      cases hr
      exact ⟨rfl, rfl, rfl⟩
  · rintro ⟨h₁, h₂, x, p₁, rfl, he₁, he₂⟩
    refine ⟨h₁, h₂, (x, p₁), rfl, he₁, ?_⟩
    cases x with
    | ok u => exact he₂
    | error s =>
      obtain ⟨rfl, rfl, rfl⟩ := he₂
      exact .stay _

theorem ensures_bind (m : Step β) (f : β → Step α) :
    (m >>= f).Ensures Q h p ↔ m.Ensures (fun h p r =>
      match r with
      | .ok a => (f a).Ensures Q h p
      | .error s => Q h p (.error s)) h p := by
  unfold Ensures
  rw [run_bind, Dialogue.ensures_bind]
  constructor
  all_goals
    intro hm
    refine hm.mono fun h x hx => ?_
    obtain ⟨r, p⟩ := x
    cases r <;> exact hx

theorem Ensures.mono {P : Transcript Surroundings → Progress → Except Stop α → Prop} {m : Step α}
    (hm : m.Ensures P h p) (hPQ : ∀ h p r, P h p r → Q h p r) : m.Ensures Q h p :=
  Dialogue.Ensures.mono hm fun h x => hPQ h x.2 x.1

theorem Ensures.and {P : Transcript Surroundings → Progress → Except Stop α → Prop} {m : Step α}
    (hP : m.Ensures P h p) (hQ : m.Ensures Q h p) :
    m.Ensures (fun h p r => P h p r ∧ Q h p r) h p :=
  Dialogue.Ensures.and hP hQ

/-- What the first step ensures has to suffice for the second one, or for stopping. -/
theorem Ensures.bind {P : Transcript Surroundings → Progress → Except Stop β → Prop} {m : Step β}
    {f : β → Step α} (hm : m.Ensures P h p)
    (hok : ∀ h p a, P h p (.ok a) → (f a).Ensures Q h p)
    (hstop : ∀ h p s, P h p (.error s) → Q h p (.error s)) : (m >>= f).Ensures Q h p := by
  refine (ensures_bind m f).2 (hm.mono fun h p r hr => ?_)
  cases r with
  | ok a => exact hok h p a hr
  | error s => exact hstop h p s hr

theorem Ensures.of_ends {m : Step α} (hm : m.Ensures Q [] p) {r : Except Stop α} {p' : Progress}
    (he : (m.run.run p).Ends h (r, p')) : Q h p' r :=
  Dialogue.Ensures.of_ends hm he

/-- Steps are judged by their own exchanges: those of the first step stand before those of the
second one. -/
theorem Ensures.seq {P : Transcript Surroundings → Progress → Except Stop β → Prop} {m : Step β}
    {f : β → Step α} (hm : m.Ensures P [] p)
    (hok : ∀ h₁ p a, P h₁ p (.ok a) → (f a).Ensures (fun h₂ => Q (h₁ ++ h₂)) [] p)
    (hstop : ∀ h₁ p s, P h₁ p (.error s) → Q h₁ p (.error s)) : (m >>= f).Ensures Q [] p := by
  refine Ensures.bind hm (fun h₁ p a ha => ?_) hstop
  refine Dialogue.ensures_iff.2 fun h₂ x he => ?_
  exact Dialogue.Ensures.of_ends (hok h₁ p a ha) he

theorem Ensures.skip {m : Step β} {f : β → Step α}
    (hok : ∀ h₁ p a, (f a).Ensures (fun h₂ => Q (h₁ ++ h₂)) [] p)
    (hstop : ∀ h₁ p s, Q h₁ p (.error s)) : (m >>= f).Ensures Q [] p := by
  have hm : m.Ensures (fun _ _ _ => True) [] p := Dialogue.ensures_iff.2 fun _ _ _ => True.intro
  exact hm.seq (fun h₁ p a _ => hok h₁ p a) fun h₁ p s _ => hstop h₁ p s

theorem ensures_ofExcept (x : Except Error α) :
    (ofExcept x).Ensures Q h p ↔ Q h p (x.mapError .failed) := by
  cases x <;> exact Iff.rfl

theorem ensures_ofRaced (reply : Raced α) :
    (ofRaced reply).Ensures Q h p ↔ Q h p (Except.mapError .interrupted reply) := by
  cases reply <;> exact Iff.rfl

theorem ensures_settled (reply : Raced (Except Error α)) :
    (settled reply).Ensures Q h p ↔ Q h p (settle reply) := by
  unfold settled
  rw [ensures_bind, ensures_ofRaced]
  cases reply with
  | error i => exact Iff.rfl
  | ok x => cases x <;> exact Iff.rfl

theorem ensures_lift (d : Dialogue Surroundings α) :
    Step.Ensures Q (ExceptT.lift (StateT.lift d)) h p ↔
      d.Ensures (fun h a => Q h p (.ok a)) h := by
  change ((d.bind fun a => .done (a, p)).bind fun x => .done (Except.ok x.1, x.2)).Ensures _ h ↔ _
  rw [Dialogue.ensures_bind, Dialogue.ensures_bind]
  exact Iff.rfl

theorem ensures_search (t : Lookup.Search α) :
    (search t).Ensures Q h p ↔
      (∀ i, Q (h ++ [⟨.checkpoint, .error i⟩]) p (.error (.interrupted i))) ∧
      (watched t.run).Ensures (fun h r => Q h p (settle r)) (h ++ [⟨.checkpoint, .ok ()⟩]) := by
  have hw : ∀ h : Transcript Surroundings,
      Step.Ensures Q (ExceptT.lift (StateT.lift (watched t.run)) >>= settled) h p ↔
        (watched t.run).Ensures (fun h r => Q h p (settle r)) h := by
    intro h
    rw [ensures_bind, ensures_lift]
    simp only [ensures_settled]
  unfold search
  rw [ensures_bind, ensures_ask]
  constructor
  · intro hs
    exact ⟨fun i => hs (.error i), (hw _).1 (hs (.ok ()))⟩
  · rintro ⟨herr, hok⟩ reply
    cases reply with
    | error i => exact herr i
    | ok u => exact (hw _).2 hok

theorem search_gives (t : Lookup.Search α) (p : Progress) :
    (search t).Ensures (fun h p' r => p' = p ∧ (∀ e ∈ h, isSearch e.request) ∧
      ∀ a, r = .ok a → Gives t h a) [] p := by
  refine (ensures_search t).2 ⟨fun i => ⟨rfl, by simp [isSearch], nofun⟩, ?_⟩
  refine Dialogue.ensures_iff.2 fun h₁ r he => ⟨rfl, fun e hm => ?_, fun a hr => ?_⟩
  · rcases List.mem_cons.1 hm with rfl | hm
    · rfl
    · exact Dialogue.Asks.of_ends (Surroundings.watched_asks t.run []) he e hm
  · exact ⟨h₁, rfl, settle_eq_ok_iff.1 hr ▸ he⟩

/-- A search is given up at once, or watched until it settles. -/
theorem search_cases {t : Lookup.Search α} {p' : Progress} {r : Except Stop α}
    (he : ((search t).run.run p).Ends h (r, p')) :
    (∃ i, h = [⟨.checkpoint, .error i⟩] ∧ r = .error (.interrupted i)) ∨
      ∃ h' x, h = ⟨.checkpoint, .ok ()⟩ :: h' ∧ (watched t.run).Ends h' x ∧ r = settle x := by
  refine Ensures.of_ends (Q := fun h _ r =>
    (∃ i, h = [⟨.checkpoint, .error i⟩] ∧ r = .error (.interrupted i)) ∨
      ∃ h' x, h = ⟨.checkpoint, .ok ()⟩ :: h' ∧ (watched t.run).Ends h' x ∧ r = settle x) ?_ he
  refine (ensures_search t).2 ⟨fun i => .inl ⟨i, rfl, rfl⟩, ?_⟩
  exact Dialogue.ensures_iff.2 fun h' x hw => .inr ⟨h', x, rfl, hw, rfl⟩

theorem ensures_openEngine (checkout : Checkout) (spec : Spec)
    {Q : Transcript Surroundings → Progress → Except Stop Unit → Prop} :
    (openEngine checkout spec).Ensures Q h p ↔
      ∀ reply : Raced (Except Error Unit),
        Q (h ++ [⟨.openEngine checkout spec, reply⟩]) p (settle reply) := by
  unfold openEngine
  rw [ensures_bind, ensures_ask]
  exact forall_congr' fun reply => ensures_settled reply

theorem ensures_engine (c : Engine.Call)
    {Q : Transcript Surroundings → Progress → Except Stop c.Answer → Prop} :
    (engine c).Ensures Q h p ↔
      ∀ reply : Raced c.Reply, Q (h ++ [⟨.engine c, reply⟩]) p (settle reply) := by
  unfold engine
  rw [ensures_bind, ensures_ask]
  exact forall_congr' fun reply => ensures_settled reply

theorem engine_exchange (c : Engine.Call) (p : Progress) :
    (engine c).Ensures (fun h p' r => p' = p ∧
      ∃ reply, h = [⟨.engine c, reply⟩] ∧ r = settle reply) [] p :=
  (ensures_engine c).2 fun reply => ⟨rfl, reply, rfl, rfl⟩

theorem ensures_keepPermalink {Q : Transcript Surroundings → Progress → Except Stop Unit → Prop}
    (s : Engine.Summary) : (keepPermalink s).Ensures Q h p ↔
      Q h { p with permalink := s.permalink.or p.permalink } (.ok ()) := Iff.rfl

theorem ensures_advance {Q : Transcript Surroundings → Progress → Except Stop Unit → Prop}
    (stack : String) (target : Phase) : (advance stack target).Ensures Q h p ↔
      Q (h ++ [⟨.tell (.transition stack p.phase.name target.name), ()⟩])
        { p with phase := target } (.ok ()) := by
  unfold advance
  rw [ensures_bind, ensures_get]
  simp only [ensures_bind, ensures_ask, ensures_modify]
  exact ⟨fun ha => ha (), fun ha _ => ha⟩

theorem ensures_checkOut {Q : Transcript Surroundings → Progress → Except Stop Checkout → Prop}
    (r : SourceRequest) : (checkOut r).Ensures Q h p ↔
      (∀ c, Q (h ++ [⟨.prepare r, .ok (.ok c)⟩])
        { p with commit := some c.commit, checkout := some c } (.ok c)) ∧
      ∀ reply s, settle reply = .error s → Q (h ++ [⟨.prepare r, reply⟩]) p (.error s) := by
  unfold checkOut
  simp only [ensures_bind, ensures_ask]
  constructor
  · intro hc
    refine ⟨fun c => hc (.ok (.ok c)), fun reply s hs => ?_⟩
    have hr := (ensures_settled reply).1 (hc reply)
    rwa [hs] at hr
  · rintro ⟨hok, hstop⟩ reply
    match reply with
    | .ok (.ok c) => exact hok c
    | .ok (.error e) => exact hstop (.ok (.error e)) _ rfl
    | .error i => exact hstop (.error i) _ rfl

theorem checkOut_exchange (r : SourceRequest) (p : Progress) :
    (checkOut r).Ensures (fun h _ x =>
      ∃ reply, h = [⟨.prepare r, reply⟩] ∧ x = settle reply) [] p :=
  (ensures_checkOut r).2 ⟨fun _ => ⟨_, rfl, rfl⟩, fun reply _ hs => ⟨reply, rfl, hs.symm⟩⟩

theorem ensures_engineRun (c : Engine.Call)
    {Q : Transcript Surroundings → Progress → Except Stop c.Reply → Prop} :
    (engineRun c).Ensures Q h p ↔
      ∀ reply : Raced c.Reply, Q (h ++ [⟨.engine c, reply⟩]) p (settleRun reply) := by
  unfold engineRun
  rw [ensures_bind, ensures_ask]
  refine forall_congr' fun reply => ?_
  match reply with
  | .error i => exact Iff.rfl
  | .ok (.ok a) => exact Iff.rfl
  | .ok (.error e) => cases e <;> exact Iff.rfl

end Rules

end Step

/-! ## Whole attempts -/

theorem giveBack_cases {c : Option Checkout} {h : Transcript Surroundings} {u : Unit}
    (hg : (giveBack c).Ends h u) :
    h = [] ∨ ∃ checkout reply, c = some checkout ∧ h = [⟨.release checkout, reply⟩] := by
  cases c with
  | none => exact .inl (Dialogue.ends_done_iff.1 hg).1
  | some checkout =>
    obtain ⟨reply, h', rfl, hd⟩ := Dialogue.ends_ask_iff.1 hg
    obtain ⟨rfl, -⟩ := Dialogue.ends_done_iff.1 hd
    exact .inr ⟨checkout, reply, rfl, rfl⟩

theorem giveBack_ends {c : Option Checkout} {h : Transcript Surroundings} {u : Unit}
    (hg : (giveBack c).Ends h u) : ∀ e ∈ h, ∃ checkout, e.request = .release checkout := by
  rcases giveBack_cases hg with rfl | ⟨checkout, reply, -, rfl⟩
  · simp
  · simp

/-- An attempt is its drive, between a start and a release. -/
theorem run_ends_iff {stack : Stack} {mode : Mode} {resolver : Resolver} {limit : Option Nat}
    {h : Transcript Surroundings} {o : Option Outcome} :
    (run stack mode resolver limit).Ends h o ↔ ∃ h₁ h₂ r p,
      h = ⟨.start limit, ()⟩ :: (h₁ ++ h₂) ∧
      ((Step.drive stack mode resolver).run.run (Progress.initial stack.spec)).Ends h₁ (r, p) ∧
      (giveBack p.checkout).Ends h₂ () ∧ o = outcome? limit p r := by
  constructor
  · intro he
    obtain ⟨u, h', rfl, ht⟩ := Surroundings.ends_ask_bind_iff.1 he
    obtain ⟨h₁, h₃, x, rfl, hd, ht⟩ := Dialogue.ends_bind_iff.1 ht
    obtain ⟨h₂, h₄, u', rfl, hg, ht⟩ := Dialogue.ends_bind_iff.1 ht
    obtain ⟨rfl, rfl⟩ := Dialogue.ends_done_iff.1 ht
    rw [List.append_nil]
    exact ⟨h₁, h₂, x.1, x.2, rfl, hd, hg, rfl⟩
  · rintro ⟨h₁, h₂, r, p, rfl, hd, hg, rfl⟩
    refine Surroundings.ends_ask_bind_iff.2 ⟨(), _, rfl, ?_⟩
    refine Dialogue.ends_bind_iff.2 ⟨h₁, h₂, _, rfl, hd, ?_⟩
    exact Dialogue.ends_bind_iff.2 ⟨h₂, [], (), by rw [List.append_nil], hg, .stay _⟩

end Attempt

end StackKeeper

import StackKeeper.Proofs.Attempt.Closure

/-!
# Attempts and cancellation

An attempt is cancelled if one of its requests was given up for its caller. There is no other way,
unless whoever replied failed with a cancellation. A request is made in any attempt whose
specification is valid, and in no other one.
-/

namespace StackKeeper

open Attempt Stack

namespace Surroundings

/-- The request was not made, or given up, because of the interruption. -/
def GivenUp (i : Interruption) (e : Exchange Surroundings) : Prop :=
  giveUp? e.request i = some e.reply

theorem givenUp_checkpoint {i : Interruption} {reply : Raced Unit} :
    GivenUp i ⟨.checkpoint, reply⟩ ↔ reply = .error i :=
  ⟨fun hg => (Option.some.inj hg).symm, fun hr => hr ▸ rfl⟩

theorem givenUp_look {i : Interruption} {q : Lookup.Request} {reply : Raced (Lookup.Reply q)} :
    GivenUp i ⟨.look q, reply⟩ ↔ reply = .error i :=
  ⟨fun hg => (Option.some.inj hg).symm, fun hr => hr ▸ rfl⟩

/-- Whoever replied failed with the error. -/
def FailedWith (err : Error) : Exchange Surroundings → Prop
  | ⟨.look (.secret _), reply⟩ => reply = .ok (.error err)
  | ⟨.look (.configMap _), reply⟩ => reply = .ok (.error err)
  | ⟨.prepare _, reply⟩ => reply = .ok (.error err)
  | ⟨.openEngine .., reply⟩ => reply = .ok (.error err)
  | ⟨.engine _, reply⟩ => reply = .ok (.error err)
  | ⟨.release _, reply⟩ => reply = .error err
  | ⟨.load _, reply⟩ => reply = .error err
  | ⟨.save .., reply⟩ => reply = .error err
  | _ => False

def looked (e : Exchange Lookup) : Exchange Surroundings := ⟨.look e.request, .ok e.reply⟩

theorem not_givenUp_looked (i : Interruption) (e : Exchange Lookup) : ¬GivenUp i (looked e) := by
  rw [looked, givenUp_look]
  nofun

theorem failedWith_looked {err : Error} {e : Exchange Lookup} (he : Lookup.FailedWith err e) :
    FailedWith err (looked e) := by
  obtain ⟨r, reply⟩ := e
  cases r with
  | secret name => exact congrArg Except.ok he
  | configMap name => exact congrArg Except.ok he
  | file path => cases he

theorem watched_ends {α : Type} {d : Dialogue Lookup α} {h : Transcript Surroundings}
    {r : Raced α} (he : (watched d).Ends h r) :
    (∃ a, ∃ l : Transcript Lookup, r = .ok a ∧ h = l.map looked ∧ d.Ends l a) ∨
      ∃ i, ∃ l : Transcript Lookup, ∃ q, r = .error i ∧
        h = l.map looked ++ [⟨.look q, .error i⟩] := by
  induction d generalizing h with
  | done a =>
    obtain ⟨rfl, rfl⟩ := Dialogue.ends_done_iff.1 he
    exact .inl ⟨a, [], rfl, rfl, .stay _⟩
  | ask q next ih =>
    unfold watched at he
    obtain ⟨reply, h', rfl, hr⟩ := Dialogue.ends_ask_iff.1 he
    cases reply with
    | error i =>
      obtain ⟨rfl, rfl⟩ := Dialogue.ends_done_iff.1 hr
      exact .inr ⟨i, [], q, rfl, rfl⟩
    | ok reply =>
      rcases ih reply hr with ⟨a, l, rfl, rfl, hd⟩ | ⟨i, l, q', rfl, rfl⟩
      · exact .inl ⟨a, ⟨q, reply⟩ :: l, rfl, rfl, Dialogue.ends_ask_iff.2 ⟨reply, l, rfl, hd⟩⟩
      · exact .inr ⟨i, ⟨q, reply⟩ :: l, q', rfl, rfl⟩

end Surroundings

namespace Attempt

open Surroundings (Raced GivenUp FailedWith looked)

/-- A step that stops for its caller exactly if a request was given up for him, and does not make
up a cancellation. -/
def Heeds {α : Type} (m : Step α) : Prop :=
  ∀ p, m.Ensures (fun h _ r =>
    (r = .error (.interrupted .cancelled) ↔ ∃ e ∈ h, GivenUp .cancelled e) ∧
    (r = .error (.failed .cancelled) → ∃ e ∈ h, FailedWith .cancelled e)) [] p

section Steps

variable {α β : Type}

theorem Heeds.bind {m : Step β} {f : β → Step α} (hm : Heeds m) (hf : ∀ b, Heeds (f b)) :
    Heeds (m >>= f) := by
  intro p
  refine Step.Ensures.seq (hm p) (fun h₁ p b hb => ?_) (fun h₁ p s hs => ?_)
  · refine (hf b p).mono fun h₂ p r hr => ⟨?_, fun hc => ?_⟩
    · rw [hr.1]
      constructor
      · rintro ⟨e, hm, he⟩
        exact ⟨e, List.mem_append_right h₁ hm, he⟩
      · rintro ⟨e, hm, he⟩
        rcases List.mem_append.1 hm with hm | hm
        · cases hb.1.2 ⟨e, hm, he⟩
        · exact ⟨e, hm, he⟩
    · obtain ⟨e, hm, he⟩ := hr.2 hc
      exact ⟨e, List.mem_append_right h₁ hm, he⟩
  · refine ⟨?_, fun hc => ?_⟩
    · rw [← hs.1]
      constructor <;> exact fun hc => congrArg Except.error (Except.error.inj hc)
    · exact hs.2 (congrArg Except.error (Except.error.inj hc))

theorem heeds_pure (a : α) : Heeds (pure a : Step α) := fun _ => ⟨by simp, nofun⟩

theorem heeds_ofExcept {x : Except Error α} (hx : x ≠ .error .cancelled) :
    Heeds (Step.ofExcept x) := by
  intro p
  refine (Step.ensures_ofExcept x).2 ?_
  cases x with
  | ok a =>
    change (Except.ok a = _ ↔ _) ∧ (Except.ok a = _ → _)
    exact ⟨by simp, nofun⟩
  | error e =>
    change (Except.error (Stop.failed e) = _ ↔ _) ∧ (Except.error (Stop.failed e) = _ → _)
    refine ⟨by simp, fun hc => ?_⟩
    cases hc
    exact absurd rfl hx

theorem heeds_exchange {m : Step α} (r : Surroundings.Request)
    (hm : ∀ p, m.Ensures (fun h _ x => ∃ reply, h = [⟨r, reply⟩] ∧
      (x = .error (.interrupted .cancelled) ↔ GivenUp .cancelled ⟨r, reply⟩) ∧
      (x = .error (.failed .cancelled) → FailedWith .cancelled ⟨r, reply⟩)) [] p) : Heeds m := by
  intro p
  refine (hm p).mono fun h p x hx => ?_
  obtain ⟨reply, rfl, hg, hf⟩ := hx
  simpa using And.intro hg hf

theorem settle_heeds {reply : Raced (Except Error α)} :
    (settle reply = .error (.interrupted .cancelled) ↔ some (.error .cancelled) = some reply) ∧
    (settle reply = .error (.failed .cancelled) → reply = .ok (.error .cancelled)) := by
  match reply with
  | .ok (.ok a) => simp [settle]
  | .ok (.error e) => simp [settle]
  | .error i => simp [settle, eq_comm]

theorem settleRun_heeds {c : Engine.Call} {reply : Raced c.Reply} :
    (settleRun reply = .error (.interrupted .cancelled) ↔ some (.error .cancelled) = some reply) ∧
    (settleRun reply = .error (.failed .cancelled) → reply = .ok (.error .cancelled)) := by
  match reply with
  | .ok (.ok a) => simp [settleRun]
  | .ok (.error e) => cases e <;> simp [settleRun]
  | .error i => simp [settleRun, eq_comm]

theorem heeds_checkOut (r : SourceRequest) : Heeds (Step.checkOut r) := by
  refine heeds_exchange (.prepare r) fun p => (Step.checkOut_exchange r p).mono fun h p x hx => ?_
  obtain ⟨reply, rfl, rfl⟩ := hx
  exact ⟨reply, rfl, settle_heeds⟩

theorem heeds_openEngine (checkout : Checkout) (spec : Spec) :
    Heeds (Step.openEngine checkout spec) :=
  heeds_exchange (.openEngine checkout spec) fun _ =>
    (Step.ensures_openEngine checkout spec).2 fun reply => ⟨reply, rfl, settle_heeds⟩

theorem heeds_engine (c : Engine.Call) : Heeds (Step.engine c) :=
  heeds_exchange (.engine c) fun _ =>
    (Step.ensures_engine c).2 fun reply => ⟨reply, rfl, settle_heeds⟩

theorem heeds_engineRun (c : Engine.Call) : Heeds (Step.engineRun c) :=
  heeds_exchange (.engine c) fun _ =>
    (Step.ensures_engineRun c).2 fun reply => ⟨reply, rfl, settleRun_heeds⟩

theorem heeds_advance (stack : String) (target : Phase) : Heeds (Step.advance stack target) := by
  intro p
  refine (Step.ensures_advance stack target).2 ⟨?_, nofun⟩
  simp [GivenUp, Surroundings.giveUp?]

theorem heeds_search {t : Lookup.Search α} (ht : Lookup.NeverCancels t) :
    Heeds (Step.search t) := by
  intro p
  refine (Step.ensures_search t).2 ⟨fun i => ?_, Dialogue.ensures_iff.2 fun h r he => ?_⟩
  · simp [Surroundings.givenUp_checkpoint]
  · rcases Surroundings.watched_ends he with ⟨x, l, rfl, rfl, hd⟩ | ⟨i, l, q, rfl, rfl⟩
    · refine ⟨?_, fun hx => ?_⟩
      · cases x <;> simp [settle, Surroundings.givenUp_checkpoint, Surroundings.not_givenUp_looked]
      · obtain rfl := Except.ok.inj (settle_heeds.2 hx)
        obtain ⟨e, hm, hf⟩ := ht l hd
        exact ⟨looked e, List.mem_append_right _ (List.mem_map_of_mem hm),
          Surroundings.failedWith_looked hf⟩
    · refine ⟨?_, fun hx => by cases hx⟩
      simp [settle, Surroundings.givenUp_checkpoint, Surroundings.not_givenUp_looked,
        Surroundings.givenUp_look]

theorem heeds_closed : Closed fun _ m => Heeds m where
  pure := heeds_pure
  bind := Heeds.bind
  ofExcept := fun hx => heeds_ofExcept hx.ne_cancelled
  search := heeds_search
  get := fun _ => ⟨by simp, nofun⟩
  keepPermalink := fun _ _ => ⟨by simp, nofun⟩
  advance := heeds_advance
  openEngine := heeds_openEngine
  engine := heeds_engine
  engineRun := heeds_engineRun

end Steps

/-! ## Whole attempts -/

section Whole

variable {stack : Stack} {mode : Mode} {resolver : Resolver} {limit : Option Nat}
  {h : Transcript Surroundings} {o : Option Outcome}

theorem outcome?_eq_none_iff {p : Progress} {r : Except Stop Outcome} :
    outcome? limit p r = none ↔
      r = .error (.interrupted .cancelled) ∨ r = .error (.failed .cancelled) := by
  match r with
  | .ok o => simp [outcome?]
  | .error (.interrupted i) => cases i <;> simp [outcome?, Stop.error?]
  | .error (.failed e) => cases e <;> simp [outcome?, Stop.error?]

theorem run_givenUp (he : (run stack mode resolver limit).Ends h o) {e : Exchange Surroundings}
    (hm : e ∈ h) (hg : GivenUp .cancelled e) : o = none := by
  obtain ⟨h₁, h₂, r, p, rfl, hd, hb, rfl⟩ := run_ends_iff.1 he
  refine outcome?_eq_none_iff.2 (.inl ?_)
  refine ((heeds_closed.drive heeds_checkOut stack mode _).of_ends hd).1.2 ⟨e, ?_, hg⟩
  rcases List.mem_cons.1 hm with rfl | hm
  · cases hg
  · rcases List.mem_append.1 hm with hm | hm
    · exact hm
    · obtain ⟨c, hc⟩ := giveBack_ends hb e hm
      obtain ⟨q, reply⟩ := e
      cases hc
      cases hg

theorem run_cancelled (he : (run stack mode resolver limit).Ends h none) :
    ∃ e ∈ h, GivenUp .cancelled e ∨ FailedWith .cancelled e := by
  obtain ⟨h₁, h₂, r, p, rfl, hd, hb, ho⟩ := run_ends_iff.1 he
  have hh := (heeds_closed.drive heeds_checkOut stack mode _).of_ends hd
  rcases outcome?_eq_none_iff.1 ho.symm with hr | hr
  · obtain ⟨e, hm, hg⟩ := hh.1.1 hr
    exact ⟨e, List.mem_cons_of_mem _ (List.mem_append_left _ hm), .inl hg⟩
  · obtain ⟨e, hm, hf⟩ := hh.2 hr
    exact ⟨e, List.mem_cons_of_mem _ (List.mem_append_left _ hm), .inr hf⟩

theorem drive_of_invalid {e : Error} (hv : stack.spec.validate = .error e) (p : Progress) :
    (Step.drive stack mode resolver).Ensures
      (fun h p' r => h = [] ∧ p' = p ∧ r = .error (.failed e)) [] p := by
  unfold Step.drive
  refine (Step.ensures_bind _ _).2 ((Step.ensures_ofExcept _).2 ?_)
  rw [hv]
  exact ⟨rfl, rfl, rfl⟩

theorem run_of_invalid {e : Error} (hv : stack.spec.validate = .error e)
    (he : (run stack mode resolver limit).Ends h o) :
    h = [⟨.start limit, ()⟩] ∧ o = some ((Progress.initial stack.spec).outcome
      (.converged .failed) .failed .keep (some e)) := by
  obtain ⟨h₁, h₂, r, p, rfl, hd, hb, rfl⟩ := run_ends_iff.1 he
  obtain ⟨rfl, rfl, rfl⟩ := (drive_of_invalid hv _).of_ends hd
  obtain ⟨rfl, -⟩ := Dialogue.ends_done_iff.1 hb
  obtain ⟨text, rfl⟩ := stack.spec.validate_configOnly e hv
  exact ⟨rfl, rfl⟩

theorem search_checks {α : Type} (t : Lookup.Search α) (p : Progress) :
    (Step.search t).Ensures (fun h _ _ => ∃ reply, ⟨.checkpoint, reply⟩ ∈ h) [] p := by
  refine (Step.ensures_search t).2 ⟨fun i => ⟨.error i, List.mem_singleton_self _⟩, ?_⟩
  exact Dialogue.ensures_iff.2 fun _ _ _ => ⟨.ok (), List.mem_cons_self⟩

theorem drive_of_valid (hv : stack.spec.validate = .ok ()) (p : Progress) :
    (Step.drive stack mode resolver).Ensures
      (fun h _ _ => ∃ reply, ⟨.checkpoint, reply⟩ ∈ h) [] p := by
  obtain ⟨revision, hr⟩ := Spec.revision_of_valid hv
  unfold Step.drive
  refine (Step.ensures_bind _ _).2 ((Step.ensures_ofExcept _).2 ?_)
  rw [hv]
  refine (Step.ensures_bind _ _).2 ((Step.ensures_ofExcept _).2 ?_)
  rw [hr]
  refine Step.Ensures.seq (search_checks _ p) (fun h₁ p environment hc => ?_) fun _ _ _ hc => hc
  obtain ⟨reply, hm⟩ := hc
  exact Dialogue.ensures_iff.2 fun h₂ _ _ => ⟨reply, List.mem_append_left h₂ hm⟩

theorem run_of_valid (hv : stack.spec.validate = .ok ())
    (he : (run stack mode resolver limit).Ends h o) : ∃ reply, ⟨.checkpoint, reply⟩ ∈ h := by
  obtain ⟨h₁, h₂, r, p, rfl, hd, hb, rfl⟩ := run_ends_iff.1 he
  obtain ⟨reply, hm⟩ := (drive_of_valid hv _).of_ends hd
  exact ⟨reply, List.mem_cons_of_mem _ (List.mem_append_left _ hm)⟩

end Whole

end Attempt

end StackKeeper

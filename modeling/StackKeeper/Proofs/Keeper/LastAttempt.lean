import StackKeeper.Proofs.Keeper.Consistency
import StackKeeper.Proofs.Keeper.Pursuit
import StackKeeper.Proofs.Lists

/-!
# Last attempts

However often a stack was tried, a pursuit has a result in one of three ways: the stack was let go in
the end, something other than an attempt failed, or the result tells how the last attempt ended.
-/

namespace StackKeeper.Keeper

open Attempt (isStart run_starts)

variable {k : Keeper} {key : Stack.Key} {patience : Nat} {allowed : Option Nat} {round : Round}
  {h h₁ before t : Transcript Surroundings} {x : Except Error Reconciled} {o o' : Attempt.Outcome}
  {loaded : Stack} {mode : Attempt.Mode}

/-! ## Rounds -/

inductive Went (k : Keeper) (key : Stack.Key) : Round → Prop where
  | unloaded (e : Error) : Went k key ⟨[⟨.load key, .error e⟩], .error e⟩
  | letGo {loaded : Stack} (hm : modeFor loaded = none) :
      Went k key ⟨[⟨.load key, .ok loaded⟩], .ok (letGo loaded)⟩
  | cancelled {loaded : Stack} {mode : Attempt.Mode} {h : Transcript Surroundings}
      (hm : modeFor loaded = some mode)
      (he : (Attempt.run loaded mode k.resolver k.attemptLimit).Ends h none) :
      Went k key ⟨⟨.load key, .ok loaded⟩ :: h, .error .cancelled⟩
  | attempted {loaded : Stack} {mode : Attempt.Mode} {h : Transcript Surroundings}
      {o : Attempt.Outcome} (hm : modeFor loaded = some mode)
      (he : (Attempt.run loaded mode k.resolver k.attemptLimit).Ends h (some o)) (now : Timestamp)
      (saved : Except Error Unit) :
      Went k key ⟨⟨.load key, .ok loaded⟩ :: (h ++ [⟨.now, now⟩,
          ⟨.save loaded.key (.record loaded.status o now), saved⟩]),
        saved.map fun () => ⟨actionOf mode, .record loaded.status o now, some o.verdict, o.error,
          k.requeueAfter loaded o.verdict⟩⟩

theorem Round.of_iff_went : round.Of k key ↔ Went k key round := by
  constructor
  · intro ho
    obtain ⟨exchanges, result⟩ := round
    obtain ⟨reply, h, heq, hr⟩ := reconcileKey_ends_iff.1 ho
    obtain rfl : exchanges = _ := heq
    cases reply with
    | error e =>
      obtain ⟨rfl, rfl⟩ : h = [] ∧ result = .error e := hr
      exact .unloaded e
    | ok loaded =>
      have hr : (k.reconcile loaded).Ends h result := hr
      cases hm : modeFor loaded with
      | none =>
        rw [reconcile_released hm] at hr
        obtain ⟨rfl, rfl⟩ := Dialogue.ends_done_iff.1 hr
        exact .letGo hm
      | some mode =>
        obtain ⟨h₁, h₂, o, rfl, hrun, hend⟩ := (reconcile_ends_iff hm).1 hr
        cases o with
        | none =>
          obtain ⟨rfl, rfl⟩ := hend
          rw [List.append_nil]
          exact .cancelled hm hrun
        | some o =>
          obtain ⟨now, saved, rfl, rfl⟩ := settle_ends_iff.1 hend
          exact .attempted hm hrun now saved
  · intro hw
    cases hw with
    | unloaded e => exact reconcileKey_ends_iff.2 ⟨.error e, [], rfl, rfl, rfl⟩
    | @letGo loaded hm =>
      have hr : (k.reconcile loaded).Ends [] (.ok (Keeper.letGo loaded)) := by
        rw [reconcile_released hm]
        exact .stay _
      exact reconcileKey_ends_iff.2 ⟨.ok loaded, [], rfl, hr⟩
    | @cancelled loaded mode h hm he =>
      refine reconcileKey_ends_iff.2 ⟨.ok loaded, h, rfl, ?_⟩
      exact (reconcile_ends_iff hm).2 ⟨h, [], none, (List.append_nil h).symm, he, rfl, rfl⟩
    | @attempted loaded mode h o hm he now saved =>
      refine reconcileKey_ends_iff.2 ⟨.ok loaded, _, rfl, ?_⟩
      refine (reconcile_ends_iff hm).2 ⟨h, _, some o, rfl, he, ?_⟩
      exact settle_ends_iff.2 ⟨now, saved, rfl, rfl⟩

/-! ## What was exchanged last -/

def isLoad : Surroundings.Request → Bool
  | .load _ => true
  | _ => false

/-- The last attempt that was made ended with the outcome. -/
def LastAttempt (k : Keeper) (key : Stack.Key) (h : Transcript Surroundings)
    (o : Attempt.Outcome) : Prop :=
  ∃ before loaded mode h₁ after, h = before ++ ⟨.load key, .ok loaded⟩ :: (h₁ ++ after) ∧
    modeFor loaded = some mode ∧
    (Attempt.run loaded mode k.resolver k.attemptLimit).Ends h₁ (some o) ∧
    ∀ e ∈ after, isStart e.request = false

/-- The stack that was loaded last was let go. -/
def LetGo (key : Stack.Key) (h : Transcript Surroundings) : Prop :=
  ∃ before loaded, h = before ++ [⟨.load key, .ok loaded⟩] ∧ modeFor loaded = none

theorem run_not_isLoad {r : Option Attempt.Outcome}
    (he : (Attempt.run loaded mode k.resolver k.attemptLimit).Ends h r) :
    ∀ e ∈ h, isLoad e.request = false := by
  have hcovers : Attempt.Covers (isLoad · = false) :=
    ⟨rfl, fun _ => rfl, fun _ _ => rfl, fun _ => rfl, fun _ => rfl⟩
  have hasks := hcovers.run (fun _ => rfl) (fun _ => rfl) (fun _ => rfl) loaded mode k.resolver
    k.attemptLimit []
  exact hasks.of_ends he

theorem LastAttempt.unique (ho : LastAttempt k key h o) (ho' : LastAttempt k key h o') : o = o' := by
  obtain ⟨before, loaded, mode, h₁, after, rfl, hm, he, ha⟩ := ho
  obtain ⟨before', loaded', mode', h₁', after', heq, hm', he', ha'⟩ := ho'
  obtain ⟨t, rfl, ht⟩ := run_starts he
  obtain ⟨t', rfl, ht'⟩ := run_starts he'
  have hnone : ∀ {t after : Transcript Surroundings}, (∀ e ∈ t, isStart e.request = false) →
      (∀ e ∈ after, isStart e.request = false) → ∀ e ∈ t ++ after, ¬isStart e.request = true := by
    intro t after ht ha e hm
    rw [List.forall_mem_append.2 ⟨ht, ha⟩ e hm]
    exact Bool.false_ne_true
  have hsplit : (before ++ [⟨.load key, .ok loaded⟩]) ++ ⟨.start k.attemptLimit, ()⟩ :: (t ++ after) =
      (before' ++ [⟨.load key, .ok loaded'⟩]) ++ ⟨.start k.attemptLimit, ()⟩ :: (t' ++ after') := by
    simpa using heq
  -- both parts begin at the last start
  obtain ⟨hbefore, -, hrest⟩ := append_cons_inj (p := fun e => isStart e.request = true) hsplit rfl rfl
    (hnone ht ha) (hnone ht' ha')
  obtain ⟨-, hload⟩ := List.append_inj' hbefore rfl
  obtain ⟨rfl⟩ : loaded = loaded' := by
    cases List.singleton_inj.1 hload
    rfl
  obtain rfl := Option.some.inj (hm.symm.trans hm')
  obtain ⟨-, ho⟩ := he.append_inj he' (congrArg (⟨.start k.attemptLimit, ()⟩ :: ·) hrest)
  exact Option.some.inj ho

theorem not_letGo_append (hne : t ≠ []) (ht : ∀ e ∈ t, isLoad e.request = false) :
    ¬LetGo key (before ++ t) := by
  rintro ⟨before', loaded, heq, -⟩
  rcases List.eq_nil_or_concat t with rfl | ⟨t, e, rfl⟩
  · exact hne rfl
  · rw [List.concat_eq_append, ← List.append_assoc] at heq
    obtain ⟨-, he⟩ := List.append_inj' heq rfl
    have hload := ht e (by simp)
    rw [List.singleton_inj.1 he] at hload
    cases hload

/-! ## Pursuits -/

/-- The three ways in which a pursuit has a result. -/
inductive Fate (k : Keeper) (key : Stack.Key) (h : Transcript Surroundings) :
    Except Error Reconciled → Prop where
  | letGo {loaded : Stack} (hl : LetGo key h) : Fate k key h (.ok (letGo loaded))
  | failed (hl : ¬LetGo key h) (e : Error) : Fate k key h (.error e)
  | attempted (hl : ¬LetGo key h) {o : Attempt.Outcome} (ho : LastAttempt k key h o)
      (he : o.error = none ↔ o.verdict = .succeeded) {r : Reconciled}
      (hv : r.verdict = some o.verdict) (hr : r.error = o.error) : Fate k key h (.ok r)

theorem Went.fate (hw : Went k key round) (before : Transcript Surroundings) :
    Fate k key (before ++ round.exchanges) round.result := by
  cases hw with
  | unloaded e =>
    apply Fate.failed
    rintro ⟨before', loaded, heq, -⟩
    obtain ⟨-, he⟩ := List.append_inj' heq rfl
    cases he
  | letGo hm => exact .letGo ⟨before, _, rfl, hm⟩
  | @cancelled loaded mode h hm he =>
    apply Fate.failed
    obtain ⟨t, rfl, -⟩ := run_starts he
    have hlast : ¬LetGo key ((before ++ [⟨.load key, .ok loaded⟩]) ++ ⟨.start _, ()⟩ :: t) :=
      not_letGo_append (List.cons_ne_nil _ t) (run_not_isLoad he)
    simpa using hlast
  | @attempted loaded mode h o hm he now saved =>
    have hlast : ¬LetGo key ((before ++ ⟨.load key, .ok loaded⟩ :: h) ++ [⟨.now, now⟩,
        ⟨.save loaded.key (.record loaded.status o now), saved⟩]) :=
      not_letGo_append (List.cons_ne_nil _ _) (by simp [isLoad])
    have hl : ¬LetGo key (before ++ ⟨.load key, .ok loaded⟩ :: (h ++ [⟨.now, now⟩,
        ⟨.save loaded.key (.record loaded.status o now), saved⟩])) := by
      simpa using hlast
    cases saved with
    | error e => exact .failed hl e
    | ok u =>
      refine .attempted hl ?_ (Attempt.run_consistent he).error rfl rfl
      exact ⟨before, loaded, mode, h, _, rfl, hm, he, by simp [isStart]⟩

theorem pursue_fate (he : (k.pursue key patience allowed).Ends h (some x)) : Fate k key h x := by
  obtain ⟨rounds, hc⟩ := pursue_ends_iff.1 he
  obtain ⟨h', rfl, hclose⟩ := hc.close
  cases hclose with
  | settled hn ho hl => exact (Round.of_iff_went.1 ho).fate _
  | cancelled hn ho hl hd =>
    apply Fate.failed
    rw [← List.append_assoc]
    exact not_letGo_append (List.cons_ne_nil _ _) (by simp [isLoad])

end StackKeeper.Keeper

import StackKeeper.Proofs.Attempt.Cancellation
import StackKeeper.Proofs.Attempt.Verdict

/-!
# Getting ready

Before the engine's verdict an attempt keeps the last permalink that was reported to it. The first
request that fails stops it with the very error it failed with, of whatever kind that is.
-/

namespace StackKeeper.Attempt

open Stack
open Surroundings (Raced FailedWith isSearch)

def linkOf : Raced (Except Error Engine.Summary) → Option String
  | .ok (.ok s) => s.permalink
  | _ => none

def reportedLink? : Exchange Surroundings → Option String
  | ⟨.engine (.refresh _), reply⟩ => linkOf reply
  | ⟨.engine .update, reply⟩ => linkOf reply
  | ⟨.engine .destroy, reply⟩ => linkOf reply
  | _ => none

/-- The permalink of the last run that reported one. -/
def lastLink (h : Transcript Surroundings) : Option String := (h.filterMap reportedLink?).getLast?

/-- Requests before the engine's verdict that are no lookups. -/
def isEarly : Surroundings.Request → Bool
  | .prepare _ => true
  | .openEngine .. => true
  | .engine c => place c < place .update
  | _ => false

/-- A request before the engine's verdict failed with the error. -/
def Refuses (e : Error) (x : Exchange Surroundings) : Prop := isEarly x.request ∧ FailedWith e x

theorem lastLink_append (h₁ h₂ : Transcript Surroundings) :
    lastLink (h₁ ++ h₂) = (lastLink h₂).or (lastLink h₁) := by
  unfold lastLink
  rw [List.filterMap_append, List.getLast?_append]

theorem lastLink_eq_none {h : Transcript Surroundings} (hn : ∀ x ∈ h, reportedLink? x = none) :
    lastLink h = none := by
  rw [lastLink, List.filterMap_eq_nil_iff.2 hn]
  rfl

theorem lastLink_singleton (x : Exchange Surroundings) : lastLink [x] = reportedLink? x := by
  unfold lastLink
  cases hx : reportedLink? x <;> simp [hx]

theorem lastLink_cons (x : Exchange Surroundings) (h : Transcript Surroundings) :
    lastLink (x :: h) = (lastLink h).or (reportedLink? x) := by
  rw [← List.singleton_append, lastLink_append, lastLink_singleton]

/-- What an attempt that gets ready has exchanged, and what has become of its progress. -/
structure Readied {α : Type} (p : Progress) (h : Transcript Surroundings) (p' : Progress)
    (r : Except Stop α) : Prop where
  undecided : ∀ x ∈ h, isClosing x.request = false
  permalink : p'.permalink = (lastLink h).or p.permalink
  /-- An error passes as it is. -/
  refused : ∀ x ∈ h, ∀ e, Refuses e x → r = .error (.failed e)

section Readied

variable {α β : Type} {p p₁ p' : Progress} {h₁ h₂ : Transcript Surroundings} {r : Except Stop α}

theorem Readied.append {b : β} (hr : Readied p h₁ p₁ (.ok b)) (hr' : Readied p₁ h₂ p' r) :
    Readied p (h₁ ++ h₂) p' r where
  undecided := fun x hx =>
    (List.mem_append.1 hx).elim (hr.undecided x) (hr'.undecided x)
  permalink := by
    rw [hr'.permalink, hr.permalink, lastLink_append, Option.or_assoc]
  refused := fun x hx e he => by
    rcases List.mem_append.1 hx with hx | hx
    · cases hr.refused x hx e he
    · exact hr'.refused x hx e he

theorem Readied.stop {s : Stop} (hr : Readied (α := β) p h₁ p' (.error s)) :
    Readied (α := α) p h₁ p' (.error s) where
  undecided := hr.undecided
  permalink := hr.permalink
  refused := fun x hx e he => by
    cases hr.refused x hx e he
    rfl

theorem readied_apart (hc : ∀ x ∈ h₁, isClosing x.request = false ∧ isEarly x.request = false ∧
    reportedLink? x = none) : Readied p h₁ p r where
  undecided := fun x hx => (hc x hx).1
  permalink := by
    rw [lastLink_eq_none fun x hx => (hc x hx).2.2]
    rfl
  refused := fun x hx e he => by
    have hq := he.1
    rw [(hc x hx).2.1] at hq
    cases hq

theorem readied_nil : Readied p [] p r := readied_apart (by simp)

theorem readied_single {x : Exchange Surroundings} (hc : isClosing x.request = false)
    (hl : p'.permalink = (reportedLink? x).or p.permalink)
    (hr : ∀ e, Refuses e x → r = .error (.failed e)) : Readied p [x] p' r where
  undecided := fun y hy => by
    obtain rfl := List.mem_singleton.1 hy
    exact hc
  permalink := by rw [lastLink_singleton, hl]
  refused := fun y hy => by
    obtain rfl := List.mem_singleton.1 hy
    exact hr

end Readied

/-- A step that does its share in getting ready. -/
def GetsReady {α : Type} (m : Step α) : Prop := ∀ p, m.Ensures (Readied p) [] p

theorem getsReady_bind {α β : Type} {m : Step β} {f : β → Step α} (hm : GetsReady m)
    (hf : ∀ b, GetsReady (f b)) : GetsReady (m >>= f) := by
  intro p
  refine Step.Ensures.seq (hm p) (fun h₁ p₁ b hr => ?_) (fun h₁ p₁ s hr => hr.stop)
  exact (hf b p₁).mono fun h₂ p₂ r hr' => hr.append hr'

theorem getsReady_search {α : Type} (t : Lookup.Search α) : GetsReady (Step.search t) := by
  intro p
  refine (Step.search_gives t p).mono fun h p' r hg => ?_
  obtain ⟨rfl, hs, -⟩ := hg
  refine readied_apart fun x hx => ?_
  have hq := hs x hx
  obtain ⟨q, reply⟩ := x
  cases q <;> first | exact ⟨rfl, rfl, rfl⟩ | cases hq

theorem getsReady_engine {c : Engine.Call} (hc : isSetup c) : GetsReady (Step.engine c) := by
  intro p
  refine (Step.ensures_engine c).2 fun reply => readied_single ?_ ?_ ?_
  · cases c <;> first | rfl | cases hc
  · cases c <;> first | rfl | cases hc
  · rintro e ⟨-, rfl⟩
    rfl

theorem getsReady_refresh (expectNone : Bool) :
    GetsReady (Step.engine (.refresh expectNone) >>= Step.keepPermalink) := by
  intro p
  refine (Step.ensures_bind _ _).2 ((Step.ensures_engine (.refresh expectNone)).2 fun reply => ?_)
  match reply with
  | .ok (.ok s) => exact readied_single rfl rfl fun e he => nomatch he.2
  | .ok (.error e) => exact readied_single rfl rfl (by rintro e ⟨-, ⟨⟩⟩; rfl)
  | .error i => exact readied_single rfl rfl fun e he => nomatch he.2

theorem getsReady_checkOut (r : SourceRequest) : GetsReady (Step.checkOut r) := by
  intro p
  refine (Step.ensures_checkOut r).2 ⟨fun c => ?_, fun reply s hs => ?_⟩
  · exact readied_single rfl rfl fun e he => nomatch he.2
  · refine readied_single rfl rfl ?_
    rintro e ⟨-, rfl⟩
    cases hs
    rfl

theorem getsReady_advance (stack : String) (target : Phase) :
    GetsReady (Step.advance stack target) := by
  intro p
  refine (Step.ensures_advance stack target).2 (readied_single rfl rfl fun e he => ?_)
  cases he.1

theorem getsReady_openEngine (checkout : Checkout) (spec : Spec) :
    GetsReady (Step.openEngine checkout spec) := by
  intro p
  refine (Step.ensures_openEngine checkout spec).2 fun reply => readied_single rfl rfl ?_
  rintro e ⟨-, rfl⟩
  rfl

theorem getsReady_preparatory : Preparatory fun _ m => GetsReady m where
  pure := fun _ _ => readied_nil
  bind := getsReady_bind
  ofExcept := fun _ _ => (Step.ensures_ofExcept _).2 readied_nil
  search := fun _ => getsReady_search _
  advance := getsReady_advance
  openEngine := getsReady_openEngine
  setup := fun _ => getsReady_engine
  refresh := getsReady_refresh

theorem ready_readied {stack : Stack} {resolver : Resolver} {p p' : Progress}
    {h : Transcript Surroundings} {r : Except Stop Unit}
    (he : ((Step.ready stack resolver).run.run p).Ends h (r, p')) : Readied p h p' r :=
  (getsReady_preparatory.ready getsReady_checkOut stack p).of_ends he

/-- An attempt gets ready or stops, goes on by what the engine replies, and releases in the end. -/
theorem run_stages {stack : Stack} {mode : Mode} {resolver : Resolver} {limit : Option Nat}
    {h : Transcript Surroundings} {o : Option Outcome}
    (he : (run stack mode resolver limit).Ends h o) :
    ∃ (h₁ h₂ h₃ : Transcript Surroundings) (p₁ p : Progress) (x : Except Stop Unit),
      h = ⟨.start limit, ()⟩ :: (h₁ ++ h₂ ++ h₃) ∧
      Readied (Progress.initial stack.spec) h₁ p₁ x ∧
      (∀ y ∈ h₃, isClosing y.request = false ∧ reportedLink? y = none) ∧
      ((h₂ = [] ∧ p = p₁ ∧ ∃ s, o = outcome? limit p (.error s)) ∨
        ∃ r, Concluded p₁ mode h₂ p r ∧ o = outcome? limit p r) := by
  obtain ⟨g, h₃, r, p, rfl, hd, hb, ho⟩ := run_ends_iff.1 he
  rw [Step.drive_eq] at hd
  obtain ⟨h₁, h₂, x, p₁, rfl, he₁, he₂⟩ := Step.ends_bind_iff.1 hd
  refine ⟨h₁, h₂, h₃, p₁, p, x, rfl, ready_readied he₁, fun y hy => ?_, ?_⟩
  · obtain ⟨checkout, hc⟩ := giveBack_ends hb y hy
    obtain ⟨q, reply⟩ := y
    cases hc
    exact ⟨rfl, rfl⟩
  · cases x with
    | error s =>
      obtain ⟨rfl, rfl, rfl⟩ := he₂
      exact .inl ⟨rfl, rfl, s, ho⟩
    | ok u => exact .inr ⟨r, (converge_concluded mode p₁).of_ends he₂, ho⟩

end StackKeeper.Attempt

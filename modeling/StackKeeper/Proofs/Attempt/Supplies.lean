import StackKeeper.Proofs.Attempt.Outcome
import StackKeeper.Proofs.Lists

/-!
# What an attempt works with

An attempt opens the engine on the source that was handed out to it, calls the engine that it has
opened, gives it the environment that it has built, and gives back nothing but its own source. All
of this it got in the course of its own exchanges.
-/

namespace StackKeeper.Attempt

open Stack
open Surroundings (isSearch)

def HandedOut (checkout : Checkout) (h : Transcript Surroundings) : Prop :=
  ∃ source, ⟨.prepare source, .ok (.ok checkout)⟩ ∈ h

def Opened (h : Transcript Surroundings) : Prop :=
  ∃ checkout spec, ⟨.openEngine checkout spec, .ok (.ok ())⟩ ∈ h

def Built (stack : Stack) (resolver : Resolver) (environment : Dict String)
    (h : Transcript Surroundings) : Prop :=
  ∃ before h' after, h = before ++ (h' ++ after) ∧
    Gives (Environment.build stack.spec stack.key.namespace resolver) h' environment

/-- After the exchanges, an attempt for the stack has all that the request needs. -/
def Supplied (stack : Stack) (resolver : Resolver) (h : Transcript Surroundings) :
    Surroundings.Request → Prop
  | .openEngine checkout spec => HandedOut checkout h ∧ spec = stack.spec
  | .engine (.setEnvironment environment) => Opened h ∧ Built stack resolver environment h
  | .engine _ => Opened h
  | .release checkout => HandedOut checkout h
  | .load _ => False
  | .wait _ => False
  | _ => True

variable {stack : Stack} {mode : Mode} {resolver : Resolver} {limit : Option Nat}
  {checkout : Checkout} {environment : Dict String} {updates : Config} {o : Option Outcome}
  {h h' h₁ h₂ : Transcript Surroundings} {e : Exchange Surroundings}

theorem HandedOut.mono (hc : HandedOut checkout h) (hs : h ⊆ h') : HandedOut checkout h' := by
  obtain ⟨source, hm⟩ := hc
  exact ⟨source, hs hm⟩

/-! ## The engine -/

/-- What is about the engine comes after everything that is not. -/
theorem exists_of_idle {front after : Transcript Surroundings}
    (heq : front ++ after = h₁ ++ e :: h₂) (hf : dealings front = []) (he : isDealing e.request) :
    ∃ t, h₁ = front ++ t := by
  rcases append_eq_append_cons heq with ⟨c, rfl, -⟩ | ⟨c, hc, -⟩
  · rw [dealings_append, dealings_cons he] at hf
    simp at hf
  · exact ⟨c, hc⟩

section Plan

variable {spec spec' : Spec} {checkout' : Checkout} {environment' : Dict String}

theorem mem_plan_iff {r : Surroundings.Request} : r ∈ plan spec mode checkout environment updates ↔
    r ∈ opening spec checkout environment ∨ r ∈ writing updates ∨ r ∈ refreshing spec ∨
      r ∈ converging mode := by
  simp only [plan, List.mem_append]

theorem openEngine_mem_plan
    (hm : .openEngine checkout' spec' ∈ plan spec mode checkout environment updates) :
    checkout' = checkout ∧ spec' = spec := by
  rcases mem_plan_iff.1 hm with hm | hm | hm | hm
  · simpa [opening] using hm
  · unfold writing at hm
    split at hm <;> simp at hm
  · unfold refreshing at hm
    split at hm <;> simp at hm
  · cases mode <;> simp [converging] at hm

theorem setEnvironment_mem_plan
    (hm : .engine (.setEnvironment environment') ∈ plan spec mode checkout environment updates) :
    environment' = environment := by
  rcases mem_plan_iff.1 hm with hm | hm | hm | hm
  · simpa [opening] using hm
  · unfold writing at hm
    split at hm <;> simp at hm
  · unfold refreshing at hm
    split at hm <;> simp at hm
  · cases mode <;> simp [converging] at hm

end Plan

section Orderly

variable (ho : Orderly stack mode resolver checkout environment updates h)
  (heq : h = h₁ ++ e :: h₂) (he : isDealing e.request)
include ho heq he

theorem Orderly.after_prepare : HandedOut checkout h₁ ∧ Built stack resolver environment h₁ := by
  have hne : dealings h ≠ [] := by
    rw [heq, dealings_append, dealings_cons he]
    simp
  obtain ⟨revision, credentials, t₀, t₁, t₂, after, -, -, hg, -, hh, hd⟩ := ho.prepared hne
  generalize SourceRequest.mk _ _ _ _ = source at hh
  have hfront : h = (t₀ ++ (t₁ ++ (t₂ ++ [⟨.prepare source, .ok (.ok checkout)⟩]))) ++ after := by
    rw [hh]
    simp only [List.append_assoc, List.singleton_append]
  rw [hfront, dealings_append, List.append_left_eq_self] at hd
  obtain ⟨t, rfl⟩ := exists_of_idle (hfront.symm.trans heq) hd he
  refine ⟨⟨source, by simp⟩, t₀, t₁, t₂ ++ ⟨.prepare source, .ok (.ok checkout)⟩ :: t, ?_, hg⟩
  simp only [List.append_assoc, List.singleton_append]

theorem Orderly.mem_plan : e.request ∈ plan stack.spec mode checkout environment updates := by
  refine ho.planned.subset (List.mem_map_of_mem ?_)
  rw [heq, dealings_append, dealings_cons he]
  simp

theorem Orderly.opened (hne : ∀ spec, e.request ≠ .openEngine checkout spec) : Opened h₁ := by
  have hd : dealings h = dealings h₁ ++ e :: dealings h₂ := by
    rw [heq, dealings_append, dealings_cons he]
  obtain ⟨rest, hrest⟩ := ho.planned
  have hsucceeded := ho.succeeded
  rw [hd] at hrest hsucceeded
  cases h₁' : dealings h₁ with
  | nil =>
    rw [h₁'] at hrest
    exact absurd (List.cons.inj hrest).1 (hne _)
  | cons x t =>
    rw [h₁'] at hrest hsucceeded
    have hx : x.request = .openEngine checkout stack.spec := (List.cons.inj hrest).1
    have hmem : x ∈ dealings h₁ := h₁' ▸ List.mem_cons_self
    have hlast : x ∈ (x :: t ++ e :: dealings h₂).dropLast := by
      rw [List.dropLast_append_of_ne_nil (List.cons_ne_nil _ _)]
      exact List.mem_append_left _ List.mem_cons_self
    have hs := hsucceeded x hlast
    obtain ⟨request, reply⟩ := x
    obtain rfl : request = _ := hx
    obtain rfl : reply = _ := hs
    exact ⟨checkout, stack.spec, (List.mem_filter.1 hmem).1⟩

theorem Orderly.supplied : Supplied stack resolver h₁ e.request := by
  have hopened := ho.opened heq he
  obtain ⟨hc, hb⟩ := ho.after_prepare heq he
  have hm := ho.mem_plan heq he
  clear ho heq
  obtain ⟨request, reply⟩ := e
  cases request with
  | openEngine checkout' spec =>
    obtain ⟨rfl, rfl⟩ := openEngine_mem_plan hm
    exact ⟨hc, rfl⟩
  | engine c =>
    have ho : Opened h₁ := hopened fun _ hr => by cases hr
    cases c with
    | setEnvironment environment' =>
      obtain rfl := setEnvironment_mem_plan hm
      exact ⟨ho, hb⟩
    | _ => exact ho
  | _ => cases he

end Orderly

/-! ## The checkout -/

/-- What is to be given back at the end was there before, or was handed out on the way. -/
def Keeps (p p' : Progress) (h : Transcript Surroundings) : Prop :=
  ∀ checkout ∈ p'.checkout, checkout ∈ p.checkout ∨ HandedOut checkout h

/-- A step that notes down no checkout but one that it is handed. -/
def Notes {α : Type} (m : Step α) : Prop := ∀ p, m.Ensures (fun h p' _ => Keeps p p' h) [] p

theorem keeps_of_eq {p p' : Progress} (heq : p'.checkout = p.checkout) : Keeps p p' h :=
  fun _ hc => .inl (heq ▸ hc)

theorem Keeps.append {p p₁ p' : Progress} (hk : Keeps p p₁ h₁) (hk' : Keeps p₁ p' h₂) :
    Keeps p p' (h₁ ++ h₂) := by
  intro checkout hc
  rcases hk' checkout hc with hc | hc
  · exact (hk checkout hc).imp_right fun hc => hc.mono (List.subset_append_left _ _)
  · exact .inr (hc.mono (List.subset_append_right _ _))

theorem notes_closed : Closed fun _ m => Notes m where
  pure := fun _ _ => keeps_of_eq rfl
  bind := fun hm hf p => Step.Ensures.seq (hm p)
    (fun _ p' b hk => (hf b p').mono fun _ _ _ hk' => hk.append hk') fun _ _ _ hk => hk
  ofExcept := fun _ _ => (Step.ensures_ofExcept _).2 (keeps_of_eq rfl)
  search := fun _ p => (Step.search_gives _ p).mono fun _ _ _ hp => keeps_of_eq (hp.1 ▸ rfl)
  get := fun _ => keeps_of_eq rfl
  keepPermalink := fun _ _ => keeps_of_eq rfl
  advance := fun _ _ _ => (Step.ensures_advance _ _).2 (keeps_of_eq rfl)
  openEngine := fun _ _ _ => (Step.ensures_openEngine _ _).2 fun _ => keeps_of_eq rfl
  engine := fun c _ => (Step.ensures_engine c).2 fun _ => keeps_of_eq rfl
  engineRun := fun c _ => (Step.ensures_engineRun c).2 fun _ => keeps_of_eq rfl

theorem notes_checkOut (r : SourceRequest) : Notes (Step.checkOut r) := by
  refine fun p => (Step.ensures_checkOut r).2 ⟨fun c c' hc => ?_, fun _ _ _ => keeps_of_eq rfl⟩
  obtain rfl := Option.some.inj hc
  exact .inr ⟨r, List.mem_singleton_self _⟩

/-! ## Whole attempts -/

/-- Requests that are not made for one attempt. -/
def isOutside : Surroundings.Request → Bool
  | .load _ => true
  | .save .. => true
  | .now => true
  | .wait _ => true
  | _ => false

def isRelease : Surroundings.Request → Bool
  | .release _ => true
  | _ => false

theorem covers_not_isOutside : Covers (isOutside · = false) :=
  ⟨rfl, fun _ => rfl, fun _ _ => rfl, fun _ => rfl, fun _ => rfl⟩

theorem covers_not_isRelease : Covers (isRelease · = false) :=
  ⟨rfl, fun _ => rfl, fun _ _ => rfl, fun _ => rfl, fun _ => rfl⟩

def isStart : Surroundings.Request → Bool
  | .start _ => true
  | _ => false

theorem covers_not_isStart : Covers (isStart · = false) :=
  ⟨rfl, fun _ => rfl, fun _ _ => rfl, fun _ => rfl, fun _ => rfl⟩

theorem run_starts (he : (run stack mode resolver limit).Ends h o) :
    ∃ t, h = ⟨.start limit, ()⟩ :: t ∧ ∀ e ∈ t, isStart e.request = false := by
  obtain ⟨h₁, h₂, r, p, rfl, hd, hg, -⟩ := run_ends_iff.1 he
  refine ⟨h₁ ++ h₂, rfl, List.forall_mem_append.2 ⟨?_, ?_⟩⟩
  · have hmakes := covers_not_isStart.drive (fun _ => rfl) stack mode resolver
    exact (hmakes.ensures _).of_ends hd
  · intro e hm
    obtain ⟨checkout, hr⟩ := giveBack_ends hg e hm
    rw [hr]
    rfl

/-- An exchange of an attempt is its start, one of its drive, or the release at its end. -/
theorem run_cases (he : (run stack mode resolver limit).Ends h o) (heq : h = h₁ ++ e :: h₂) :
    (h₁ = [] ∧ e = ⟨.start limit, ()⟩) ∨ ∃ t r p,
      ((Step.drive stack mode resolver).run.run (Progress.initial stack.spec)).Ends t (r, p) ∧
      ((∃ t₁ t₂, h₁ = ⟨.start limit, ()⟩ :: t₁ ∧ t = t₁ ++ e :: t₂) ∨
        (h₁ = ⟨.start limit, ()⟩ :: t ∧ h₂ = [] ∧ ∃ checkout reply, p.checkout = some checkout ∧
          e = ⟨.release checkout, reply⟩)) := by
  obtain ⟨t, t', r, p, rfl, hd, hg, -⟩ := run_ends_iff.1 he
  cases h₁ with
  | nil =>
    obtain ⟨rfl, -⟩ := List.cons.inj heq
    exact .inl ⟨rfl, rfl⟩
  | cons s h₁ =>
    obtain ⟨rfl, hrest⟩ := List.cons.inj heq
    refine .inr ⟨t, r, p, hd, ?_⟩
    rcases append_eq_append_cons hrest with ⟨c, rfl, -⟩ | ⟨c, rfl, hc⟩
    · exact .inl ⟨h₁, c, rfl, rfl⟩
    · rcases giveBack_cases hg with rfl | ⟨checkout, reply, hp, rfl⟩
      · simp at hc
      · cases c with
        | nil =>
          obtain ⟨rfl, rfl⟩ := List.cons.inj hc
          exact .inr ⟨by rw [List.append_nil], rfl, checkout, reply, hp, rfl⟩
        | cons y c => simp at hc

theorem handedOut_of_release {reply : Except Error Unit}
    (he : (run stack mode resolver limit).Ends h o)
    (heq : h = h₁ ++ ⟨.release checkout, reply⟩ :: h₂) : HandedOut checkout h₁ := by
  rcases run_cases he heq with ⟨-, hs⟩ | ⟨t, r, p, hd, ⟨t₁, t₂, rfl, rfl⟩ | ⟨rfl, -, c, _, hc, hr⟩⟩
  · cases hs
  · have hmakes := covers_not_isRelease.drive (fun _ => rfl) stack mode resolver
    cases (hmakes.ensures _).of_ends hd _ (List.mem_append_right t₁ List.mem_cons_self)
  · cases hr
    have hkeeps := (notes_closed.drive notes_checkOut stack mode _).of_ends hd
    obtain ⟨source, hm⟩ := (hkeeps _ hc).resolve_left nofun
    exact ⟨source, List.mem_cons_of_mem _ hm⟩

/-- Whatever is replied to an attempt, it works with nothing but what it got itself. -/
theorem run_supplied (he : (run stack mode resolver limit).Ends h o) (heq : h = h₁ ++ e :: h₂) :
    Supplied stack resolver h₁ e.request := by
  obtain ⟨checkout, environment, updates, ho⟩ :=
    (run_ends_orderly stack mode resolver limit).of_ends he
  have hapart := (covers_not_isOutside.run (fun _ => rfl) (fun _ => rfl) (fun _ => rfl) stack mode
    resolver limit []).of_ends he e (heq ▸ List.mem_append_right _ List.mem_cons_self)
  obtain ⟨request, reply⟩ := e
  cases request with
  | openEngine => exact ho.supplied heq rfl
  | engine => exact ho.supplied heq rfl
  | release => exact handedOut_of_release he heq
  | load => cases hapart
  | wait => cases hapart
  | _ => trivial

end StackKeeper.Attempt

import StackKeeper.Proofs.Attempt.Supplies
import StackKeeper.Proofs.Keeper.Cancellation

/-!
# Attempts that are to stop

A dialogue passes through time: every request is made at some moment, unless it is given up by then.
Once the caller has cancelled an attempt, or its time is over, nothing is called any more but the
source, once, to give back what it had handed out.
-/

namespace StackKeeper

open Surroundings (Request Reply giveUp? GivenUp)

/-! ## Dialogues on a clock -/

namespace Limits

/-- The work is to stop at the moment. At the very end of its time the work may still go on: it may
have its turn just before the clock has. -/
def Passed (l : Limits) (moment : Nat) : Interruption → Prop
  | .cancelled => ∃ c ∈ l.cancelledFrom, c ≤ moment
  | .overdue => ∃ d ∈ l.overdueFrom, d < moment

def after (l : Limits) (moment : Nat) : Request → Limits
  | .start limit => { l with overdueFrom := limit.map (moment + ·) }
  | _ => l

end Limits

structure Juncture (α : Type) where
  limits : Limits
  now : Nat
  rest : Dialogue Surroundings α

structure Happening where
  moment : Nat
  /-- A request that is not made has the reply of an interruption. -/
  made : Bool
  exchange : Exchange Surroundings

/-- What can happen next. No time is spent but on waiting for replies. -/
inductive Happens {α : Type} : Juncture α → Happening → Juncture α → Prop where
  | refused {l : Limits} {now : Nat} {r : Request} {next : Reply r → Dialogue Surroundings α}
      {i : Interruption} {reply : Reply r} (hi : l.interruption? now = some i)
      (hg : giveUp? r i = some reply) :
      Happens ⟨l, now, .ask r next⟩ ⟨now, false, r, reply⟩ ⟨l, now, next reply⟩
  | made {l : Limits} {now later : Nat} {r : Request} {next : Reply r → Dialogue Surroundings α}
      (hl : ∀ i, l.Passed now i → giveUp? r i = none) (reply : Reply r) (ht : now ≤ later) :
      Happens ⟨l, now, .ask r next⟩ ⟨now, true, r, reply⟩ ⟨l.after now r, later, next reply⟩

/-- All that happens on the way from one moment to another. -/
inductive Passes {α : Type} : Juncture α → List Happening → Juncture α → Prop where
  | stay (u : Juncture α) : Passes u [] u
  | happen {u u₁ u' : Juncture α} {x : Happening} {l : List Happening} (hx : Happens u x u₁)
      (hp : Passes u₁ l u') : Passes u (x :: l) u'

section Passing

variable {α : Type} {u u' u₁ : Juncture α} {x : Happening} {before after l : List Happening}

theorem Happens.leads (hx : Happens u x u') : u.rest.Leads [x.exchange] u'.rest := by
  cases hx with
  | refused hi hg => exact .exchange _ (.stay _)
  | made hl reply ht => exact .exchange _ (.stay _)

theorem Happens.limits (hx : Happens u x u') :
    u'.limits = if x.made then u.limits.after u.now x.exchange.request else u.limits := by
  cases hx <;> rfl

/-- What is made is nothing that had to be given up by then. -/
theorem Happens.unstopped (hx : Happens u x u') (hm : x.made = true) (i : Interruption)
    (hi : u.limits.Passed x.moment i) : giveUp? x.exchange.request i = none := by
  cases hx with
  | refused => cases hm
  | made hl reply ht => exact hl i hi

/-- What is not made has a reply that says so. -/
theorem Happens.givenUp (hx : Happens u x u') (hm : x.made = false) :
    ∃ i, GivenUp i x.exchange := by
  cases hx with
  | refused hi hg => exact ⟨_, hg⟩
  | made => cases hm

theorem Passes.append (hp : Passes u before u₁) (hp' : Passes u₁ after u') :
    Passes u (before ++ after) u' := by
  induction hp with
  | stay u => exact hp'
  | happen hx _ ih => exact .happen hx (ih hp')

theorem Passes.split (hp : Passes u (before ++ x :: after) u') :
    ∃ u₁ u₂, Passes u before u₁ ∧ Happens u₁ x u₂ ∧ Passes u₂ after u' := by
  induction before generalizing u with
  | nil =>
    cases hp with
    | happen hx hp => exact ⟨u, _, .stay u, hx, hp⟩
  | cons y before ih =>
    cases hp with
    | happen hy hp =>
      obtain ⟨u₁, u₂, hb, hx, ha⟩ := ih hp
      exact ⟨u₁, u₂, .happen hy hb, hx, ha⟩

theorem Passes.leads (hp : Passes u l u') : u.rest.Leads (l.map (·.exchange)) u'.rest := by
  induction hp with
  | stay u => exact .stay _
  | happen hx _ ih => exact hx.leads.append ih

theorem Passes.exists_ends (hp : Passes u l u') :
    ∃ rest a, u.rest.Ends (l.map (·.exchange) ++ rest) a :=
  ⟨_, _, hp.leads.append (Dialogue.ends_transcript Surroundings.obliging u'.rest)⟩

/-- The limits are set when an attempt starts, and at no other time. -/
theorem Passes.limits (hp : Passes u l u')
    (hs : ∀ x ∈ l, Attempt.isStart x.exchange.request = false) : u'.limits = u.limits := by
  induction hp with
  | stay u => rfl
  | @happen u u₁ u' x l hx _ ih =>
    obtain ⟨hr, hs⟩ := List.forall_mem_cons.1 hs
    have hafter : u.limits.after u.now x.exchange.request = u.limits := by
      obtain ⟨moment, made, request, reply⟩ := x
      cases request with
      | start limit => cases hr
      | _ => rfl
    rw [ih hs, hx.limits, hafter, ite_self]

end Passing

/-! ## Giving up -/

namespace Attempt

def Unhindered (h : Transcript Surroundings) : Prop := ∀ e ∈ h, ∀ i, ¬GivenUp i e

/-- A step in which whatever is given up comes last, and that does not go on from there. -/
def Halts {α : Type} (m : Step α) : Prop :=
  ∀ p, m.Ensures (fun h _ r => Unhindered h.dropLast ∧ ∀ a, r = .ok a → Unhindered h) [] p

section Steps

variable {α β : Type} {h h₁ h₂ : Transcript Surroundings}

theorem unhindered_nil : Unhindered [] := List.forall_mem_nil _

theorem Unhindered.append (hh₁ : Unhindered h₁) (hh₂ : Unhindered h₂) : Unhindered (h₁ ++ h₂) :=
  List.forall_mem_append.2 ⟨hh₁, hh₂⟩

theorem Unhindered.dropLast_append (hh₁ : Unhindered h₁) (hh₂ : Unhindered h₂.dropLast) :
    Unhindered (h₁ ++ h₂).dropLast := by
  rw [List.dropLast_append]
  split
  · exact fun e hm => hh₁ e (List.dropLast_subset _ hm)
  · exact hh₁.append hh₂

theorem unhindered_looked (l : Transcript Lookup) : Unhindered (l.map Surroundings.looked) := by
  intro e hm i
  obtain ⟨q, -, rfl⟩ := List.mem_map.1 hm
  exact Surroundings.not_givenUp_looked i q

theorem Halts.bind {m : Step β} {f : β → Step α} (hm : Halts m) (hf : ∀ b, Halts (f b)) :
    Halts (m >>= f) := by
  intro p
  apply Step.Ensures.seq (hm p)
  · intro h₁ p b hb
    have hh₁ := hb.2 b rfl
    apply (hf b p).mono
    intro h₂ p r hr
    exact ⟨hh₁.dropLast_append hr.1, fun a ha => hh₁.append (hr.2 a ha)⟩
  · intro h₁ p s hs
    exact ⟨hs.1, nofun⟩

theorem halts_exchange {m : Step α} (r : Request)
    (hm : ∀ p, m.Ensures (fun h _ x => ∃ reply, h = [⟨r, reply⟩] ∧
      ∀ a, x = .ok a → ∀ i, ¬GivenUp i ⟨r, reply⟩) [] p) : Halts m := by
  intro p
  apply (hm p).mono
  rintro h p x ⟨reply, rfl, hx⟩
  exact ⟨unhindered_nil, fun a ha => List.forall_mem_singleton.2 (hx a ha)⟩

theorem settle_halts {reply : Surroundings.Raced (Except Error α)} {a : α}
    (hr : settle reply = .ok a) (i : Interruption) : some (Except.error i) ≠ some reply := by
  rw [settle_eq_ok_iff.1 hr]
  nofun

theorem settleRun_halts {c : Engine.Call} {reply : Surroundings.Raced c.Reply} {a : c.Reply}
    (hr : settleRun reply = .ok a) (i : Interruption) : some (Except.error i) ≠ some reply := by
  rw [eq_of_settleRun_eq_ok hr]
  nofun

theorem halts_checkOut (r : SourceRequest) : Halts (Step.checkOut r) := by
  apply halts_exchange (.prepare r)
  intro p
  apply (Step.checkOut_exchange r p).mono
  rintro h p x ⟨reply, rfl, rfl⟩
  exact ⟨reply, rfl, fun _ => settle_halts⟩

theorem halts_search (t : Lookup.Search α) : Halts (Step.search t) := by
  intro p
  have hcheck : Unhindered [⟨.checkpoint, .ok ()⟩] := by
    refine List.forall_mem_singleton.2 fun i hg => ?_
    cases Surroundings.givenUp_checkpoint.1 hg
  refine (Step.ensures_search t).2 ⟨fun i => ⟨unhindered_nil, nofun⟩, ?_⟩
  refine Dialogue.ensures_iff.2 fun h r he => ?_
  rcases Surroundings.watched_ends he with ⟨x, l, rfl, rfl, -⟩ | ⟨i, l, q, rfl, rfl⟩
  · have hh := hcheck.append (unhindered_looked l)
    exact ⟨fun e hm => hh e (List.dropLast_subset _ hm), fun _ _ => hh⟩
  · refine ⟨?_, nofun⟩
    apply hcheck.dropLast_append
    rw [List.dropLast_concat]
    exact unhindered_looked l

theorem halts_closed : Closed fun _ m => Halts m where
  pure := fun _ _ => ⟨unhindered_nil, fun _ _ => unhindered_nil⟩
  bind := Halts.bind
  ofExcept := fun _ _ => (Step.ensures_ofExcept _).2 ⟨unhindered_nil, fun _ _ => unhindered_nil⟩
  search := fun _ => halts_search _
  get := fun _ => ⟨unhindered_nil, fun _ _ => unhindered_nil⟩
  keepPermalink := fun _ _ => ⟨unhindered_nil, fun _ _ => unhindered_nil⟩
  advance := fun _ _ _ => (Step.ensures_advance _ _).2
    ⟨unhindered_nil, fun _ _ => List.forall_mem_singleton.2 nofun⟩
  openEngine := fun checkout spec => halts_exchange (.openEngine checkout spec) fun _ =>
    (Step.ensures_openEngine checkout spec).2 fun reply => ⟨reply, rfl, fun _ => settle_halts⟩
  engine := fun c => halts_exchange (.engine c) fun _ =>
    (Step.ensures_engine c).2 fun reply => ⟨reply, rfl, fun _ => settle_halts⟩
  engineRun := fun c => halts_exchange (.engine c) fun _ =>
    (Step.ensures_engineRun c).2 fun reply => ⟨reply, rfl, fun _ => settleRun_halts⟩

end Steps

/-! ## Calls -/

/-- Requests that reach the secrets, the source or the engine. -/
def isCall : Request → Bool
  | .look _ => true
  | .prepare _ => true
  | .openEngine .. => true
  | .engine _ => true
  | .release _ => true
  | _ => false

theorem isRelease_of_isCall {r : Request} {i : Interruption} (hc : isCall r = true)
    (hg : giveUp? r i = none) : isRelease r = true := by
  cases r with
  | release => rfl
  | look => cases hg
  | prepare => cases hg
  | openEngine => cases hg
  | engine => cases hg
  | _ => cases hc

variable {stack : Stack} {mode : Mode} {resolver : Resolver} {limit : Option Nat}
  {h before after : Transcript Surroundings} {e : Exchange Surroundings} {o : Option Outcome}

/-- A release, and whatever comes after a request that was given up, is the end of an attempt. -/
theorem run_lastCall (he : (run stack mode resolver limit).Ends h o)
    (heq : h = before ++ e :: after) (hne : before ≠ [])
    (hl : isRelease e.request = true ∨ ∃ y ∈ before, ∃ i, GivenUp i y) :
    after = [] ∧ ∃ checkout, e.request = .release checkout ∧ HandedOut checkout before := by
  rcases run_cases he heq with ⟨hnil, -⟩ | ⟨t, r, p, hd, ⟨t₁, t₂, rfl, rfl⟩ | ⟨-, hafter, c, _, -, rfl⟩⟩
  · exact absurd hnil hne
  · -- the drive neither releases anything nor goes on after giving up
    exfalso
    rcases hl with hl | ⟨y, hm, i, hy⟩
    · have hmakes := covers_not_isRelease.drive (fun _ => rfl) stack mode resolver
      have hnot := (hmakes.ensures _).of_ends hd e (List.mem_append_right t₁ List.mem_cons_self)
      rw [hl] at hnot
      cases hnot
    · rcases List.mem_cons.1 hm with rfl | hm
      · cases hy
      · have hfree := ((halts_closed.drive halts_checkOut stack mode _).of_ends hd).1
        rw [List.dropLast_append_of_ne_nil (List.cons_ne_nil e t₂)] at hfree
        exact hfree y (List.mem_append_left _ hm) i hy
  · exact ⟨hafter, c, rfl, handedOut_of_release he heq⟩

/-! ## Whole attempts -/

section Whole

variable {l : Limits} {start : Nat} {before after : List Happening} {x : Happening}
  {u : Juncture (Option Outcome)}

/-- From its start on, the limits of an attempt are those of its caller and of its own time. -/
theorem run_limits (hp : Passes ⟨l, start, run stack mode resolver limit⟩ before u)
    (hne : before ≠ []) : u.limits = ⟨l.cancelledFrom, limit.map (start + ·)⟩ := by
  obtain ⟨rest, o, he⟩ := hp.exists_ends
  obtain ⟨t, ht, hstarts⟩ := run_starts he
  cases hp with
  | stay => exact absurd rfl hne
  | @happen _ _ _ s before hs hp =>
    obtain ⟨hfirst, rfl⟩ := List.cons.inj ht
    replace hfirst : s.exchange = ⟨.start limit, ()⟩ := hfirst
    have hmade : s.made = true := by
      cases hms : s.made with
      | true => rfl
      | false =>
        obtain ⟨i, hi⟩ := hs.givenUp hms
        rw [hfirst] at hi
        cases hi
    have hlater : ∀ y ∈ before, isStart y.exchange.request = false :=
      fun y hy => hstarts _ (List.mem_append_left _ (List.mem_map_of_mem hy))
    rw [hp.limits hlater, hs.limits, hmade, hfirst]
    rfl

/-- From the moment at which the caller cancels, after the time of the attempt is over, and after any
request was given up, the attempt calls nothing but the source, to release what it handed out. -/
theorem run_stops_calling
    (hp : Passes ⟨l, start, run stack mode resolver limit⟩ (before ++ x :: after) u)
    (hm : x.made = true) (hc : isCall x.exchange.request = true)
    (hs : (∃ c ∈ l.cancelledFrom, c ≤ x.moment) ∨ (∃ ms ∈ limit, start + ms < x.moment) ∨
      ∃ y ∈ before, ∃ i, GivenUp i y.exchange) :
    after = [] ∧ ∃ checkout, x.exchange.request = .release checkout ∧
      HandedOut checkout (before.map (·.exchange)) := by
  obtain ⟨rest, o, he⟩ := hp.exists_ends
  obtain ⟨t, ht, -⟩ := run_starts he
  obtain ⟨u₁, u₂, hb, hx, -⟩ := hp.split
  have hne : before ≠ [] := by
    rintro rfl
    obtain ⟨hfirst, -⟩ := List.cons.inj ht
    replace hfirst : x.exchange = ⟨.start limit, ()⟩ := hfirst
    rw [hfirst] at hc
    cases hc
  have hlast : isRelease x.exchange.request = true ∨
      ∃ y ∈ before.map (·.exchange), ∃ i, GivenUp i y := by
    have hstop : ∀ i, u₁.limits.Passed x.moment i → isRelease x.exchange.request = true :=
      fun i hi => isRelease_of_isCall hc (hx.unstopped hm i hi)
    rw [run_limits hb hne] at hstop
    rcases hs with hs | ⟨ms, hms, hlt⟩ | ⟨y, hy, i, hi⟩
    · exact .inl (hstop .cancelled hs)
    · exact .inl (hstop .overdue ⟨start + ms, Option.mem_map_of_mem _ hms, hlt⟩)
    · exact .inr ⟨y.exchange, List.mem_map_of_mem hy, i, hi⟩
  have heq : (before ++ x :: after).map (·.exchange) ++ rest =
      before.map (·.exchange) ++ x.exchange :: (after.map (·.exchange) ++ rest) := by simp
  obtain ⟨hafter, hrelease⟩ := run_lastCall he heq (by simpa using hne) hlast
  exact ⟨List.map_eq_nil_iff.1 (List.append_eq_nil_iff.1 hafter).1, hrelease⟩

end Whole

end Attempt

namespace Keeper

open Attempt

/-- An attempt that may take ten milliseconds has an engine that takes its time to open. -/
def belated : List Happening :=
  [⟨0, true, .start (some 10), ()⟩, ⟨0, true, .checkpoint, .ok ()⟩, ⟨0, true, .checkpoint, .ok ()⟩,
    ⟨0, true, .prepare ⟨"acme/app.git", .defaultBranch, none, none⟩, .ok (.ok default)⟩,
    ⟨4, true, .openEngine default sound.spec, .ok (.ok ())⟩,
    ⟨11, false, .engine (.setEnvironment ∅), .error .overdue⟩]

theorem run_stops_calling_belated : ∃ u,
    Passes ⟨.none, 0, run sound .update default (some 10)⟩
      (belated ++ [⟨11, true, .release default, .ok ()⟩]) u ∧
    HandedOut default (belated.map (·.exchange)) := by
  have hfree {now : Nat} {r : Request} (ht : now ≤ 10) (i : Interruption)
      (hi : (⟨none, some 10⟩ : Limits).Passed now i) : giveUp? r i = none := by
    cases i with
    | cancelled => simp [Limits.Passed] at hi
    | overdue => simp [Limits.Passed] at hi; omega
  obtain ⟨u, hp⟩ : ∃ u, Passes ⟨.none, 0, run sound .update default (some 10)⟩
      (belated ++ [⟨11, true, .release default, .ok ()⟩]) u := by
    exact ⟨_,
      .happen (.made (r := .start _) (fun _ _ => rfl) () (Nat.le_refl 0)) <|
      .happen (.made (r := .checkpoint) (hfree (Nat.zero_le 10)) (.ok ()) (Nat.le_refl 0)) <|
      .happen (.made (r := .checkpoint) (hfree (Nat.zero_le 10)) (.ok ()) (Nat.le_refl 0)) <|
      .happen (.made (r := .prepare _) (hfree (Nat.zero_le 10)) (.ok (.ok default)) (Nat.zero_le 4)) <|
      .happen (.made (r := .openEngine _ _) (hfree (by decide)) (.ok (.ok ())) (by decide)) <|
      .happen (.refused (r := .engine _) (i := .overdue) rfl rfl) <|
      .happen (.made (r := .release _) (fun i _ => rfl) (.ok ()) (Nat.le_refl 11)) (.stay _)⟩
  obtain ⟨-, checkout, hr, hc⟩ := run_stops_calling hp rfl rfl (.inr (.inl ⟨10, rfl, by decide⟩))
  cases hr
  exact ⟨u, hp, hc⟩

end Keeper

end StackKeeper

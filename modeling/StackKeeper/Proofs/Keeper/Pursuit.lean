import StackKeeper.Keeper.Rounds
import StackKeeper.Proofs.Attempt.Supplies
import StackKeeper.Proofs.Keeper.Service

/-!
# The course of a pursuit

A stack is pursued in rounds. Each but the last asks for another one, and is followed by the wait
that it asked for. The first round that asks for nothing is the last one, as is the first one that
no other may follow; its result is the result of all. Where a wait is given up, there is no further
round.
-/

namespace StackKeeper.Keeper

open Attempt (Covers Supplied)
open Stack (MemoryStore)
open Surroundings (asks_ask_bind_iff ends_ask_bind_iff)

structure Round where
  exchanges : Transcript Surroundings
  result : Except Error Reconciled

namespace Round

/-- The keeper can go through the round, if the replies are these. -/
def Of (k : Keeper) (key : Stack.Key) (round : Round) : Prop :=
  (k.reconcileKey key).Ends round.exchanges round.result

/-- The wait that the round asks for before another one. -/
def delay? (round : Round) : Option Nat :=
  match round.result with
  | .ok reconciled => reconciled.requeueAfter
  | .error _ => none

/-- No round follows this one, which is the `n`-th: it asks for none, or no more are allowed. -/
def IsLast (allowed : Option Nat) (n : Nat) (round : Round) : Prop :=
  round.delay? = none ∨ ∃ max ∈ allowed, max ≤ n

/-- The round, and the whole wait after it. -/
def waited (round : Round) : Transcript Surroundings :=
  round.exchanges ++ [⟨.wait (round.delay?.getD 0), .ok ()⟩]

end Round

/-- How a pursuit ends after so many rounds that were not the last. -/
inductive Close (k : Keeper) (key : Stack.Key) (patience : Nat) (allowed : Option Nat) (n : Nat) :
    Transcript Surroundings → Option (Except Error Reconciled) → Prop where
  | exhausted (hn : n = patience) : Close k key patience allowed n [] none
  | settled {round : Round} (hn : n < patience) (ho : round.Of k key)
      (hl : round.IsLast allowed (n + 1)) :
      Close k key patience allowed n round.exchanges (some round.result)
  | cancelled {round : Round} {delay : Nat} {i : Interruption} (hn : n < patience)
      (ho : round.Of k key) (hl : ¬round.IsLast allowed (n + 1)) (hd : round.delay? = some delay) :
      Close k key patience allowed n (round.exchanges ++ [⟨.wait delay, .error i⟩])
        (some (.error .cancelled))

/-- A whole pursuit: some rounds that were not the last, with their waits, and its end. -/
structure Course (k : Keeper) (key : Stack.Key) (patience : Nat) (allowed : Option Nat)
    (rounds : List Round) (h : Transcript Surroundings) (r : Option (Except Error Reconciled)) :
    Prop where
  made : ∀ round ∈ rounds, round.Of k key
  unsettled : ∀ i (round : Round), rounds[i]? = some round → ¬round.IsLast allowed (i + 1)
  close : ∃ h', h = rounds.flatMap Round.waited ++ h' ∧
    Close k key patience allowed rounds.length h' r

variable {k : Keeper} {key : Stack.Key} {patience n : Nat} {allowed : Option Nat} {round : Round}
  {rounds : List Round} {h : Transcript Surroundings} {r : Option (Except Error Reconciled)}

/-! ## One round -/

theorem isLastRound_iff : isLastRound allowed = true ↔ ∃ max ∈ allowed, max ≤ 1 := by
  cases allowed <;> simp [isLastRound]

theorem Round.isLast_pred :
    round.IsLast (allowed.map (· - 1)) n ↔ round.IsLast allowed (n + 1) := by
  cases allowed <;> simp [IsLast]

def afterWait (k : Keeper) (key : Stack.Key) (patience : Nat) (allowed : Option Nat) :
    Surroundings.Raced Unit → Dialogue Surroundings (Option (Except Error Reconciled))
  | .error _ => .done (some (.error .cancelled))
  | .ok () => k.pursue key patience (allowed.map (· - 1))

def rest (k : Keeper) (key : Stack.Key) (patience : Nat) (allowed : Option Nat) (round : Round) :
    Dialogue Surroundings (Option (Except Error Reconciled)) :=
  match round.delay? with
  | none => .done (some round.result)
  | some delay =>
    if isLastRound allowed then .done (some round.result)
    else .ask (.wait delay) (k.afterWait key patience allowed)

theorem pursue_succ (k : Keeper) (key : Stack.Key) (patience : Nat) (allowed : Option Nat) :
    k.pursue key (patience + 1) allowed =
      (k.reconcileKey key).bind fun x => k.rest key patience allowed ⟨[], x⟩ := by
  refine congrArg (Dialogue.bind _) (funext fun x => ?_)
  cases x with
  | error e => rfl
  | ok reconciled =>
    unfold rest Round.delay?
    dsimp only
    cases reconciled.requeueAfter with
    | none => rfl
    | some delay =>
      dsimp only
      refine ite_congr rfl (fun _ => rfl) fun _ => ?_
      refine congrArg (Dialogue.ask _) (funext fun reply => ?_)
      cases reply with
      | error i => rfl
      | ok u => rfl

theorem rest_of_isLast (hl : round.IsLast allowed 1) :
    k.rest key patience allowed round = .done (some round.result) := by
  unfold rest
  split
  · rfl
  next hd =>
    have hmax := hl.resolve_left fun hnone => by cases hd.symm.trans hnone
    exact if_pos (isLastRound_iff.2 hmax)

theorem rest_of_not_isLast {delay : Nat} (hl : ¬round.IsLast allowed 1)
    (hd : round.delay? = some delay) :
    k.rest key patience allowed round = .ask (.wait delay) (k.afterWait key patience allowed) := by
  unfold rest
  rw [hd]
  exact if_neg fun hlast => hl (.inr (isLastRound_iff.1 hlast))

/-- What follows a round that is the last one, and one that is not. -/
inductive Next (k : Keeper) (key : Stack.Key) (patience : Nat) (allowed : Option Nat)
    (round : Round) : Transcript Surroundings → Option (Except Error Reconciled) → Prop where
  | settled (hl : round.IsLast allowed 1) : Next k key patience allowed round [] (some round.result)
  | cancelled {delay : Nat} {i : Interruption} (hl : ¬round.IsLast allowed 1)
      (hd : round.delay? = some delay) :
      Next k key patience allowed round [⟨.wait delay, .error i⟩] (some (.error .cancelled))
  | again {delay : Nat} {h : Transcript Surroundings} {r : Option (Except Error Reconciled)}
      (hl : ¬round.IsLast allowed 1) (hd : round.delay? = some delay)
      (he : (k.pursue key patience (allowed.map (· - 1))).Ends h r) :
      Next k key patience allowed round (⟨.wait delay, .ok ()⟩ :: h) r

theorem Round.exists_delay (hl : ¬round.IsLast allowed n) : ∃ delay, round.delay? = some delay :=
  Option.ne_none_iff_exists'.1 fun hnone => hl (.inl hnone)

theorem rest_ends_iff :
    (k.rest key patience allowed round).Ends h r ↔ Next k key patience allowed round h r := by
  constructor
  · intro he
    by_cases hl : round.IsLast allowed 1
    · rw [rest_of_isLast hl] at he
      obtain ⟨rfl, rfl⟩ := Dialogue.ends_done_iff.1 he
      exact .settled hl
    · obtain ⟨delay, hd⟩ := Round.exists_delay hl
      rw [rest_of_not_isLast hl hd] at he
      obtain ⟨reply, h', rfl, hr⟩ := Dialogue.ends_ask_iff.1 he
      cases reply with
      | error i =>
        obtain ⟨rfl, rfl⟩ := Dialogue.ends_done_iff.1 hr
        exact .cancelled hl hd
      | ok u => exact .again hl hd hr
  · intro hn
    cases hn with
    | settled hl =>
      rw [rest_of_isLast hl]
      exact .stay _
    | cancelled hl hd =>
      rw [rest_of_not_isLast hl hd]
      exact Dialogue.ends_ask_iff.2 ⟨_, [], rfl, .stay _⟩
    | again hl hd he =>
      rw [rest_of_not_isLast hl hd]
      exact Dialogue.ends_ask_iff.2 ⟨_, _, rfl, he⟩

theorem pursue_ends_succ_iff : (k.pursue key (patience + 1) allowed).Ends h r ↔
    ∃ (round : Round) (h' : Transcript Surroundings), h = round.exchanges ++ h' ∧ round.Of k key ∧
      Next k key patience allowed round h' r := by
  rw [pursue_succ, Dialogue.ends_bind_iff]
  constructor
  · rintro ⟨h₁, h₂, x, rfl, ho, hr⟩
    have hr : (k.rest key patience allowed ⟨h₁, x⟩).Ends h₂ r := hr
    exact ⟨⟨h₁, x⟩, h₂, rfl, ho, rest_ends_iff.1 hr⟩
  · rintro ⟨⟨h₁, x⟩, h', rfl, ho, hn⟩
    have hr : (k.rest key patience allowed ⟨h₁, x⟩).Ends h' r := rest_ends_iff.2 hn
    exact ⟨h₁, h', x, rfl, ho, hr⟩

/-! ## All rounds -/

/-- After one round, the count of rounds and the limits are less by one. -/
theorem close_pred_iff : Close k key patience (allowed.map (· - 1)) n h r ↔
    Close k key (patience + 1) allowed (n + 1) h r := by
  constructor
  · rintro (hn | ⟨hn, ho, hl⟩ | ⟨hn, ho, hl, hd⟩)
    · exact .exhausted (congrArg _ hn)
    · exact .settled (Nat.succ_lt_succ hn) ho (Round.isLast_pred.1 hl)
    · exact .cancelled (Nat.succ_lt_succ hn) ho (fun h => hl (Round.isLast_pred.2 h)) hd
  · rintro (hn | ⟨hn, ho, hl⟩ | ⟨hn, ho, hl, hd⟩)
    · exact .exhausted (Nat.succ.inj hn)
    · exact .settled (Nat.lt_of_succ_lt_succ hn) ho (Round.isLast_pred.2 hl)
    · exact .cancelled (Nat.lt_of_succ_lt_succ hn) ho (fun h => hl (Round.isLast_pred.1 h)) hd

theorem course_nil_iff :
    Course k key patience allowed [] h r ↔ Close k key patience allowed 0 h r := by
  constructor
  · rintro ⟨-, -, h', rfl, hc⟩
    exact hc
  · intro hc
    refine ⟨List.forall_mem_nil _, fun i round hi => ?_, h, rfl, hc⟩
    rw [List.getElem?_nil] at hi
    cases hi

theorem course_cons_iff : Course k key (patience + 1) allowed (round :: rounds) h r ↔
    round.Of k key ∧ ¬round.IsLast allowed 1 ∧ ∃ h', h = round.waited ++ h' ∧
      Course k key patience (allowed.map (· - 1)) rounds h' r := by
  constructor
  · rintro ⟨hmade, hopen, h', rfl, hc⟩
    obtain ⟨ho, hmade⟩ := List.forall_mem_cons.1 hmade
    refine ⟨ho, hopen 0 round rfl, _, ?_, hmade, fun i next hi hl => ?_, h', rfl,
      close_pred_iff.2 hc⟩
    · rw [List.flatMap_cons, List.append_assoc]
    · exact hopen (i + 1) next hi (Round.isLast_pred.1 hl)
  · rintro ⟨ho, hl, _, rfl, hmade, hopen, h', rfl, hc⟩
    refine ⟨List.forall_mem_cons.2 ⟨ho, hmade⟩, fun i next hi => ?_, h', ?_, close_pred_iff.1 hc⟩
    · cases i with
      | zero =>
        obtain rfl := Option.some.inj hi
        exact hl
      | succ i => exact fun h => hopen i next hi (Round.isLast_pred.2 h)
    · rw [List.flatMap_cons, List.append_assoc]

theorem not_course_zero : ¬Course k key 0 allowed (round :: rounds) h r := by
  rintro ⟨-, -, h', -, hc⟩
  rcases hc with hn | ⟨hn, -, -⟩ | ⟨hn, -, -, -⟩ <;> cases hn

theorem Round.waited_eq {delay : Nat} (hd : round.delay? = some delay)
    (h : Transcript Surroundings) :
    round.waited ++ h = round.exchanges ++ ⟨.wait delay, .ok ()⟩ :: h := by
  rw [waited, hd, List.append_assoc]
  rfl

/-- Whatever is replied, a pursuit takes a course. -/
theorem pursue_ends_iff : (k.pursue key patience allowed).Ends h r ↔
    ∃ rounds, Course k key patience allowed rounds h r := by
  -- a round that is not the last one uses up one of the patience and one of those allowed
  induction patience generalizing allowed h with
  | zero =>
    refine Dialogue.ends_done_iff.trans ⟨?_, ?_⟩
    · rintro ⟨rfl, rfl⟩
      exact ⟨[], course_nil_iff.2 (.exhausted rfl)⟩
    · rintro ⟨rounds, hc⟩
      cases rounds with
      | nil => rcases course_nil_iff.1 hc with hn | ⟨hn, -, -⟩ | ⟨hn, -, -, -⟩ <;> simp at hn ⊢
      | cons round rounds => exact absurd hc not_course_zero
  | succ patience ih =>
    rw [pursue_ends_succ_iff]
    constructor
    · rintro ⟨round, h', rfl, ho, hn⟩
      rcases hn with hl | ⟨hl, hd⟩ | ⟨hl, hd, he⟩
      · refine ⟨[], course_nil_iff.2 ?_⟩
        rw [List.append_nil]
        exact .settled (Nat.succ_pos _) ho hl
      · exact ⟨[], course_nil_iff.2 (.cancelled (Nat.succ_pos _) ho hl hd)⟩
      · obtain ⟨rounds, hc⟩ := ih.1 he
        exact ⟨round :: rounds, course_cons_iff.2 ⟨ho, hl, _, (Round.waited_eq hd _).symm, hc⟩⟩
    · rintro ⟨rounds, hc⟩
      cases rounds with
      | nil =>
        rcases course_nil_iff.1 hc with hn | ⟨-, ho, hl⟩ | ⟨-, ho, hl, hd⟩
        · cases hn
        · exact ⟨_, [], (List.append_nil _).symm, ho, .settled hl⟩
        · exact ⟨_, _, rfl, ho, .cancelled hl hd⟩
      | cons round rounds =>
        obtain ⟨ho, hl, h', rfl, hrest⟩ := course_cons_iff.1 hc
        obtain ⟨delay, hd⟩ := Round.exists_delay hl
        exact ⟨round, _, Round.waited_eq hd _, ho, .again hl hd (ih.2 ⟨rounds, hrest⟩)⟩

/-! ## Rounds in turn -/

section Sequence

def stretch (rounds : Nat → Round) (n : Nat) : Transcript Surroundings :=
  ((List.range n).map rounds).flatMap Round.waited

variable {rounds : Nat → Round} (ho : ∀ i, (rounds i).Of k key)
  (hopen : ∀ i < n, ¬(rounds i).IsLast allowed (i + 1))
include ho hopen

theorem course_stretch (hc : Close k key patience allowed n h r) :
    Course k key patience allowed ((List.range n).map rounds) (stretch rounds n ++ h) r where
  made := by
    intro round hround
    obtain ⟨i, -, rfl⟩ := List.mem_map.1 hround
    exact ho i
  unsettled := by
    intro i round hi
    rw [List.getElem?_map] at hi
    obtain ⟨j, hj, rfl⟩ := Option.map_eq_some_iff.1 hi
    obtain ⟨hlt, rfl⟩ := List.getElem?_eq_some_iff.1 hj
    rw [List.length_range] at hlt
    rw [List.getElem_range]
    exact hopen i hlt
  close := ⟨h, rfl, by rwa [List.length_map, List.length_range]⟩

theorem pursue_last (hl : (rounds n).IsLast allowed (n + 1)) (hn : n < patience) :
    (k.pursue key patience allowed).Ends (stretch rounds n ++ (rounds n).exchanges)
      (some (rounds n).result) :=
  pursue_ends_iff.2 ⟨_, course_stretch ho hopen (.settled hn (ho n) hl)⟩

theorem pursue_cancelled {delay : Nat} (i : Interruption) (hl : ¬(rounds n).IsLast allowed (n + 1))
    (hd : (rounds n).delay? = some delay) (hn : n < patience) :
    (k.pursue key patience allowed).Ends
      (stretch rounds n ++ ((rounds n).exchanges ++ [⟨.wait delay, .error i⟩]))
      (some (.error .cancelled)) :=
  pursue_ends_iff.2 ⟨_, course_stretch ho hopen (.cancelled hn (ho n) hl hd)⟩

/-- Between two rounds the pursuit waits as long as the earlier one asked for. -/
theorem pursue_leads_wait {delay : Nat} (hl : ¬(rounds n).IsLast allowed (n + 1))
    (hd : (rounds n).delay? = some delay) (hn : n < patience) :
    ∃ next, (k.pursue key patience allowed).Leads (stretch rounds n ++ (rounds n).exchanges)
      (.ask (.wait delay) next) := by
  have he := pursue_cancelled ho hopen .cancelled hl hd hn
  rw [← List.append_assoc] at he
  obtain ⟨d, hd, hrest⟩ := Dialogue.Leads.split he
  cases hrest with
  | exchange => exact ⟨_, hd⟩

theorem pursue_exhausted : (k.pursue key n allowed).Ends (stretch rounds n) none :=
  pursue_ends_iff.2 ⟨_, List.append_nil _ ▸ course_stretch ho hopen (.exhausted rfl)⟩

end Sequence

/-! ## Rounds on their own -/

/-- The round starts from what was held then. It reconciles that stack, with a source, an engine
and an environment of its own, or fails as the store did. -/
def Round.StartsFrom (k : Keeper) (key : Stack.Key) (round : Round) (held : Except Error Stack) :
    Prop :=
  ∃ h, round.exchanges = ⟨.load key, held⟩ :: h ∧
    match held with
    | .error e => h = [] ∧ round.result = .error e
    | .ok stack => (k.reconcile stack).Ends h round.result ∧
        ∀ h₁ e h₂, h = h₁ ++ e :: h₂ → Supplied stack k.resolver h₁ e.request

theorem reconcile_supplied {stack : Stack} {x : Except Error Reconciled}
    (he : (k.reconcile stack).Ends h x) {h₁ h₂ : Transcript Surroundings}
    {e : Exchange Surroundings} (heq : h = h₁ ++ e :: h₂) :
    Supplied stack k.resolver h₁ e.request := by
  cases hm : modeFor stack with
  | none =>
    rw [reconcile_released hm] at he
    obtain ⟨rfl, -⟩ := Dialogue.ends_done_iff.1 he
    simp at heq
  | some mode =>
    obtain ⟨t₁, t₂, o, rfl, hrun, ht⟩ := (reconcile_ends_iff hm).1 he
    have hsettled : e ∈ t₂ → Supplied stack k.resolver h₁ e.request := by
      intro hmem
      cases o with
      | none =>
        rw [ht.1] at hmem
        cases hmem
      | some outcome =>
        obtain ⟨now, reply, rfl, -⟩ := settle_ends_iff.1 ht
        rcases List.mem_cons.1 hmem with rfl | hmem
        · trivial
        · obtain rfl := List.mem_singleton.1 hmem
          trivial
    rcases append_eq_append_cons heq with ⟨t, ht₁, -⟩ | ⟨t, -, ht₂⟩
    · exact Attempt.run_supplied hrun ht₁
    · exact hsettled (ht₂ ▸ List.mem_append_right _ List.mem_cons_self)

theorem Round.Of.startsFrom (ho : round.Of k key) : ∃ held, round.StartsFrom k key held := by
  obtain ⟨reply, h, heq, hr⟩ := reconcileKey_ends_iff.1 ho
  refine ⟨reply, h, heq, ?_⟩
  cases reply with
  | error e => exact hr
  | ok stack => exact ⟨hr, fun h₁ e h₂ => reconcile_supplied hr⟩

/-- A store replies to each exchange in turn, and anyone may have changed it in between. -/
def ServedBy (stores : Nat → MemoryStore) (h : Transcript Surroundings) : Prop :=
  ∀ (i : Nat) e, h[i]? = some e → ∃ store, (stores i).Serves e store

/-- Wherever a round stands, it starts from what the store holds at that time. -/
theorem Round.Of.startsFrom_held (ho : round.Of k key) {stores : Nat → MemoryStore}
    {before after : Transcript Surroundings}
    (hs : ServedBy stores (before ++ (round.exchanges ++ after))) :
    round.StartsFrom k key ((stores before.length).get key) := by
  obtain ⟨held, hr⟩ := ho.startsFrom
  obtain ⟨h, heq, -⟩ := id hr
  have hfirst : (before ++ (round.exchanges ++ after))[before.length]? =
      some ⟨.load key, held⟩ := by
    rw [List.getElem?_append_right (Nat.le_refl _), Nat.sub_self, heq]
    rfl
  obtain ⟨store, hserves⟩ := hs _ _ hfirst
  rw [← hserves.eq_of_load.2]
  exact hr

/-! ## Waits -/

def isWait : Surroundings.Request → Bool
  | .wait _ => true
  | _ => false

theorem covers_not_isWait : Covers (isWait · = false) :=
  ⟨rfl, fun _ => rfl, fun _ _ => rfl, fun _ => rfl, fun _ => rfl⟩

theorem reconcileKey_asks_no_wait (k : Keeper) (key : Stack.Key) (h : Transcript Surroundings) :
    (k.reconcileKey key).Asks (fun _ r => isWait r = false) h := by
  refine asks_ask_bind_iff.2 ⟨rfl, fun reply => ?_⟩
  cases reply with
  | error e => trivial
  | ok stack =>
    dsimp only
    unfold reconcile
    cases modeFor stack with
    | none => trivial
    | some mode =>
      refine (Dialogue.asks_bind _ _ _).2 ⟨?_, Dialogue.ensures_iff.2 fun h₁ o _ => ?_⟩
      · exact covers_not_isWait.run (fun _ => rfl) (fun _ => rfl) (fun _ => rfl) stack mode _ _ _
      · cases o with
        | none => trivial
        | some outcome => exact ⟨rfl, fun _ => ⟨rfl, fun _ => trivial⟩⟩

/-- Wherever a pursuit waits, it is over when the wait is given up. -/
theorem pursue_wait_given_up {delay : Nat}
    {next : Surroundings.Reply (.wait delay) →
      Dialogue Surroundings (Option (Except Error Reconciled))}
    (hl : (k.pursue key patience allowed).Leads h (.ask (.wait delay) next)) (i : Interruption) :
    next (.error i) = .done (some (.error .cancelled)) := by
  induction patience generalizing allowed h with
  | zero => cases hl
  | succ patience ih =>
    rw [pursue_succ] at hl
    rcases Dialogue.Leads.of_bind hl with ⟨next', hd⟩ | ⟨h₁, h₂, x, rfl, -, hx⟩
    · cases (k.reconcileKey_asks_no_wait key []).of_leads hd
    · by_cases hlast : Round.IsLast allowed 1 ⟨[], x⟩
      · rw [rest_of_isLast hlast] at hx
        cases hx
      · obtain ⟨delay, hdelay⟩ := Round.exists_delay hlast
        rw [rest_of_not_isLast hlast hdelay] at hx
        cases hx with
        | stay => rfl
        | exchange reply hrest =>
          cases reply with
          | error i => cases hrest
          | ok u => exact ih hrest

end StackKeeper.Keeper

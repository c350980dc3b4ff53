import StackKeeper.Proofs.Keeper.Consistency
import StackKeeper.Proofs.Keeper.Pursuit
import StackKeeper.Rehearsal.Timeline

/-!
# Waits between rounds

A task that waits between two rounds goes on when the time has passed, or as soon as its caller
cancels. Then the pursuit is over, without any further request.
-/

namespace StackKeeper.Rehearsal

open Keeper (Reconciled Round Session)
open Stack (MemoryStore)

variable {now start delay due c : Nat} {session : Session}

theorem forcedReply?_wait (session : Session) (now delay : Nat) :
    session.forcedReply? now (.wait delay) =
      if Limits.reached session.limits.cancelledFrom now then some (.error .cancelled)
      else none := by
  unfold Session.forcedReply? Limits.interruption?
  split
  · rfl
  · split <;> rfl

theorem forcedReply?_wait_early (hc : session.limits.cancelledFrom = some c) (hlt : now < c) :
    session.forcedReply? now (.wait delay) = none := by
  rw [forcedReply?_wait, hc]
  simp [Limits.reached, hlt]

theorem forcedReply?_wait_late (hc : session.limits.cancelledFrom = some c) (hle : c ≤ now) :
    session.forcedReply? now (.wait delay) = some (.error .cancelled) := by
  rw [forcedReply?_wait, hc]
  simp [Limits.reached, hle]

def Task.waitingUntil (key : Option Stack.Key) (session : Session) (delay due : Nat)
    (next : Surroundings.Reply (.wait delay) → Dialogue Surroundings Report) : Task :=
  ⟨key, session, .waiting (.wait delay) (.later due (.ok ())) next⟩

section Task

variable {key : Option Stack.Key}
  {next : Surroundings.Reply (.wait delay) → Dialogue Surroundings Report}

/-- Without a call to stop, the whole wait has to pass. -/
theorem waitingUntil_canGoOn (h : session.forcedReply? now (.wait delay) = none) :
    (Task.waitingUntil key session delay due next).canGoOn now = decide (due ≤ now) := by
  unfold Task.canGoOn Task.waitingUntil
  dsimp only
  rw [h]
  rfl

theorem waitingUntil_goOn {reply : Surroundings.Reply (.wait delay)} {report : Report}
    (h : session.forcedReply? now (.wait delay) = some reply) (hn : next reply = .done report)
    (w : Scene) : (Task.waitingUntil key session delay due next).goOn now w =
      (⟨key, session, .finished report⟩, w) := by
  unfold Task.goOn Task.waitingUntil
  dsimp only
  rw [h]
  dsimp only
  rw [hn]
  rfl

theorem walk_wait (w : Scene) (h : session.forcedReply? start (.wait delay) = none)
    (hd : 0 < delay) : walk start (.ask (.wait delay) next) session w =
      (.waiting (.wait delay) (.later (start + delay) (.ok ())) next, session, w) := by
  unfold walk
  rw [h]
  dsimp only
  rw [if_neg]
  · rfl
  · simp [Scene.begin, Pending.later, isDue]
    omega

theorem walk_wait_forced (w : Scene) {reply : Surroundings.Reply (.wait delay)} {report : Report}
    (h : session.forcedReply? start (.wait delay) = some reply) (hn : next reply = .done report) :
    walk start (.ask (.wait delay) next) session w = (.finished report, session, w) := by
  unfold walk
  rw [h]
  dsimp only
  rw [hn]
  rfl

end Task

/-! ## How a wait ends -/

/-- The task sleeps from `start` on: it cannot go on before a moment, and then it can. -/
structure Task.SleepsUntil (t : Task) (start moment : Nat) : Prop where
  sleeps : ∀ now, start ≤ now → now < moment → t.canGoOn now = false
  wakes : start < moment → moment ∈ t.moments ∧ t.canGoOn moment = true

/-- When it is called, the task is over, with nothing asked of anyone. -/
structure Task.StopsAt (t : Task) (start c : Nat) : Prop extends t.SleepsUntil start c where
  stops : ∀ now w, c ≤ now → t.goOn now w =
    ({ t with point := .finished (.kept (some (.error .cancelled))) }, w)

/-- When the moment has come, the task goes on with the dialogue. -/
structure Task.ResumesAt (t : Task) (start moment : Nat)
    (d : Dialogue Surroundings (Option (Except Error Reconciled))) : Prop
    extends t.SleepsUntil start moment where
  resumes : ∀ w, t.goOn moment w =
    (let x := walk moment (Report.kept <$> d) t.session w
     ({ t with point := x.1, session := x.2.1 }, x.2.2))

section Wait

variable {key : Option Stack.Key}
  {next : Surroundings.Reply (.wait delay) →
    Dialogue Surroundings (Option (Except Error Reconciled))}

theorem kept_ask {r : Surroundings.Request}
    (next : Surroundings.Reply r → Dialogue Surroundings (Option (Except Error Reconciled))) :
    Report.kept <$> Dialogue.ask (S := Surroundings) r next =
      .ask r fun reply => Report.kept <$> next reply := rfl

def waiter (key : Option Stack.Key) (start delay : Nat) (session : Session) (w : Scene)
    (next : Surroundings.Reply (.wait delay) →
      Dialogue Surroundings (Option (Except Error Reconciled))) : Task :=
  let x := walk start (Report.kept <$> Dialogue.ask (.wait delay) next) session w
  ⟨key, x.2.1, x.1⟩

theorem waiter_eq (w : Scene) (h : session.forcedReply? start (.wait delay) = none)
    (hd : 0 < delay) : waiter key start delay session w next =
      .waitingUntil key session delay (start + delay) fun reply => Report.kept <$> next reply := by
  unfold waiter
  rw [kept_ask, walk_wait w h hd]
  rfl

theorem waiter_stopsAt (w : Scene)
    (hn : next (.error .cancelled) = .done (some (.error .cancelled)))
    (hc : session.limits.cancelledFrom = some c) (hd : 0 < delay) (hlt : c < start + delay) :
    (waiter key start delay session w next).StopsAt start c := by
  have hdone : Report.kept <$> next (.error .cancelled) =
      .done (.kept (some (.error .cancelled))) := by
    rw [hn]
    rfl
  rcases Nat.lt_or_ge start c with hsc | hcs
  · rw [waiter_eq w (forcedReply?_wait_early hc hsc) hd]
    refine ⟨⟨fun now _ hnow => ?_, fun _ => ⟨?_, ?_⟩⟩, fun now w hnow => ?_⟩
    · rw [waitingUntil_canGoOn (forcedReply?_wait_early hc hnow)]
      exact decide_eq_false (by omega)
    · simp [Task.moments, Task.waitingUntil, Pending.later, Surroundings.giveUp?, hc]
    · unfold Task.canGoOn Task.waitingUntil
      dsimp only
      rw [forcedReply?_wait_late hc (Nat.le_refl c)]
      rfl
    · exact waitingUntil_goOn (forcedReply?_wait_late hc hnow) hdone w
  · have ht : waiter key start delay session w next =
        ⟨key, session, .finished (.kept (some (.error .cancelled)))⟩ := by
      unfold waiter
      rw [kept_ask, walk_wait_forced w (forcedReply?_wait_late hc hcs) hdone]
    rw [ht]
    exact ⟨⟨fun _ _ _ => rfl, fun h => by omega⟩, fun _ _ _ => rfl⟩

theorem waiter_resumesAt (w : Scene)
    (hc : ∀ c ∈ session.limits.cancelledFrom, start + delay < c) (hd : 0 < delay) :
    (waiter key start delay session w next).ResumesAt start (start + delay) (next (.ok ())) := by
  have hnone : ∀ now, now ≤ start + delay → session.forcedReply? now (.wait delay) = none := by
    intro now hnow
    cases h : session.limits.cancelledFrom with
    | none =>
      rw [forcedReply?_wait, h]
      rfl
    | some c => exact forcedReply?_wait_early h (Nat.lt_of_le_of_lt hnow (hc c h))
  rw [waiter_eq w (hnone start (Nat.le_add_right _ _)) hd]
  refine ⟨⟨fun now _ hnow => ?_, fun _ => ⟨?_, ?_⟩⟩, fun w => ?_⟩
  · rw [waitingUntil_canGoOn (hnone now (Nat.le_of_lt hnow))]
    exact decide_eq_false (by omega)
  · simp [Task.moments, Task.waitingUntil, Pending.later]
  · rw [waitingUntil_canGoOn (hnone _ (Nat.le_refl _))]
    exact decide_eq_true (Nat.le_refl _)
  · unfold Task.goOn Task.waitingUntil
    dsimp only
    rw [hnone _ (Nat.le_refl _)]
    rfl

end Wait

/-! ## Pursuits -/

section Pursuit

open Keeper (Course ServedBy contested contesting pursue_ends_iff pursue_exhausted pursue_last
  pursue_leads_wait pursue_wait_given_up stretch)

/-- A pursuit makes its rounds one after the other, the first of them that is the last one decides
it, and without such a round it goes on for as long as anyone has patience. Nothing else can
happen, but that a wait is given up. Each round starts from what the store holds by then, with
nothing of an earlier round, and each wait takes the time that was asked for, or ends when the
caller cancels. -/
theorem pursue_retries (k : Keeper) (key : Stack.Key) (allowed : Option Nat) :
    (∀ rounds : Nat → Round, (∀ i, (rounds i).Of k key) →
      ∀ n, (∀ i < n, ¬(rounds i).IsLast allowed (i + 1)) →
        (k.pursue key n allowed).Ends (stretch rounds n) none ∧
        ((rounds n).IsLast allowed (n + 1) → ∀ patience, n < patience →
          (k.pursue key patience allowed).Ends (stretch rounds n ++ (rounds n).exchanges)
            (some (rounds n).result))) ∧
    (∀ patience h r, (k.pursue key patience allowed).Ends h r ↔
      ∃ rounds, Course k key patience allowed rounds h r) ∧
    (∀ (round : Round) stores before after, round.Of k key →
      ServedBy stores (before ++ (round.exchanges ++ after)) →
        round.StartsFrom k key ((stores before.length).get key)) ∧
    ∀ patience h delay next, (k.pursue key patience allowed).Leads h (.ask (.wait delay) next) →
      0 < delay → ∀ owner start session w,
        (∀ c ∈ session.limits.cancelledFrom, c < start + delay →
          (waiter owner start delay session w next).StopsAt start c) ∧
        ((∀ c ∈ session.limits.cancelledFrom, start + delay < c) →
          (waiter owner start delay session w next).ResumesAt start (start + delay)
            (next (.ok ()))) := by
  refine ⟨fun rounds ho n hopen => ⟨pursue_exhausted ho hopen, fun hl patience hn => ?_⟩,
    fun patience h r => pursue_ends_iff, fun round stores before after ho hs => ?_,
    fun patience h delay next hl hd owner start session w => ⟨fun c hc hlt => ?_, fun hc => ?_⟩⟩
  · exact pursue_last ho hopen hl hn
  · exact ho.startsFrom_held hs
  · exact waiter_stopsAt w (pursue_wait_given_up hl .cancelled) hc hd hlt
  · exact waiter_resumesAt w hc hd

/-- A store replies to what is about it, and someone else to all other requests. -/
def attending (s : MemoryStore) (b : Behaviour Surroundings) : Behaviour Surroundings := fun h r =>
  match r with
  | .load key => s.get key
  | .save key status => (s.updateStatus key status).map fun _ => ()
  | r => b h r

theorem servedBy_attending (s : MemoryStore) (b : Behaviour Surroundings) {α : Type}
    (d : Dialogue Surroundings α) : ServedBy (fun _ => s) (d.transcript (attending s b) []) := by
  intro i e he
  refine Dialogue.forall_mem_transcript (P := fun e => ∃ store, s.Serves e store)
    (fun h r => ?_) d e (List.mem_of_getElem? he)
  cases r with
  | load key => exact ⟨s, .load s key⟩
  | save key status =>
    change ∃ store, s.Serves ⟨.save key status, (s.updateStatus key status).map fun _ => ()⟩ store
    cases hs : s.updateStatus key status with
    | ok s' => exact ⟨s', .save hs⟩
    | error e => exact ⟨s, .refuse hs⟩
  | _ => exact ⟨s, .elsewhere s rfl⟩

def roundAgainst (k : Keeper) (key : Stack.Key) (b : Behaviour Surroundings) : Round :=
  ⟨(k.reconcileKey key).transcript b [], (k.reconcileKey key).result b []⟩

theorem servedBy_roundAgainst (k : Keeper) (key : Stack.Key) (s : MemoryStore)
    (b : Behaviour Surroundings) :
    ServedBy (fun _ => s) (roundAgainst k key (attending s b)).exchanges :=
  servedBy_attending s b (k.reconcileKey key)

/-- The stack is contested in the first round only. -/
def contestedRounds (k : Keeper) (s : MemoryStore) : Nat → Round
  | 0 => roundAgainst k contested.key (attending s contesting)
  | _ + 1 => roundAgainst k contested.key (attending s Surroundings.obliging)

theorem contestedRounds_of (k : Keeper) (s : MemoryStore) :
    ∀ i, (contestedRounds k s i).Of k contested.key
  | 0 => Dialogue.ends_transcript _ _
  | _ + 1 => Dialogue.ends_transcript _ _

/-- A conflict, and another round half a minute later, unless the caller cancels before. -/
theorem pursue_retries_contested :
    let k : Keeper := ⟨default, 30000, none⟩
    let s := MemoryStore.empty.insert contested
    let rounds := contestedRounds k s
    (rounds 0).delay? = some 30000 ∧
      (k.pursue contested.key 2 none).Ends (stretch rounds 1 ++ (rounds 1).exchanges)
        (some (rounds 1).result) ∧
      (rounds 0).StartsFrom k contested.key (s.get contested.key) ∧
      ∃ h next, (k.pursue contested.key 1 none).Leads h (.ask (.wait 30000) next) ∧
        ∀ w, (waiter none 0 30000 ⟨⟨some 10, none⟩, default⟩ w next).StopsAt 0 10 ∧
          (waiter none 0 30000 ⟨⟨none, none⟩, default⟩ w next).ResumesAt 0 30000
            (next (.ok ())) := by
  intro k s rounds
  have ho : ∀ i, (rounds i).Of k contested.key := contestedRounds_of k s
  have hd : (rounds 0).delay? = some 30000 := rfl
  have hsettled : (rounds 1).delay? = none := rfl
  have hserved : ServedBy (fun _ => s) ([] ++ ((rounds 0).exchanges ++ [])) := by
    rw [List.nil_append, List.append_nil]
    exact servedBy_roundAgainst k contested.key s contesting
  clear_value rounds s
  have hopen : ∀ i < 1, ¬(rounds i).IsLast none (i + 1) := by
    intro i hi
    obtain rfl := Nat.lt_one_iff.1 hi
    rintro (hnone | ⟨max, hmax, -⟩)
    · cases hd.symm.trans hnone
    · cases hmax
  obtain ⟨hends, -, hstarts, hwaits⟩ := pursue_retries k contested.key none
  have hleads : ∃ next, (k.pursue contested.key 1 none).Leads _ (.ask (.wait 30000) next) :=
    pursue_leads_wait ho (fun i hi => by cases hi) (hopen 0 Nat.one_pos) hd Nat.one_pos
  obtain ⟨next, hl⟩ := hleads
  refine ⟨hd, (hends rounds ho 1 hopen).2 (.inl hsettled) 2 (by decide),
    hstarts (rounds 0) (fun _ => s) [] [] (ho 0) hserved, _, next, hl, fun w => ⟨?_, ?_⟩⟩
  · exact (hwaits 1 _ 30000 next hl (by decide) none 0 _ w).1 10 rfl (by decide)
  · exact (hwaits 1 _ 30000 next hl (by decide) none 0 _ w).2 nofun

end Pursuit

end StackKeeper.Rehearsal

import StackKeeper.Proofs.Keeper.Stopping
import StackKeeper.Proofs.Rehearsal.Crew

/-!
# How tasks pass through a rehearsal

What the tasks of a rehearsal ask, and when, is what their dialogues may ask on a clock: a task that
goes on is given up where it has to be, and makes no request that it would have to give up.
-/

namespace StackKeeper

open Surroundings (Request Reply giveUp?)

theorem Limits.reached_iff {moment : Option Nat} {now : Nat} :
    reached moment now = true ↔ ∃ c ∈ moment, c ≤ now := by
  simp [reached, Option.any_eq_true]

namespace Keeper.Session

variable {session : Session} {now : Nat} {r : Request}

theorem interruption_of_forced {reply : Reply r} (hf : session.forcedReply? now r = some reply) :
    ∃ i, session.limits.interruption? now = some i ∧ giveUp? r i = some reply :=
  Option.bind_eq_some_iff.1 hf

theorem unforced (hf : session.forcedReply? now r = none) (i : Interruption)
    (hi : session.limits.Passed now i) : giveUp? r i = none := by
  have hgive : ∀ i, session.limits.interruption? now = some i → giveUp? r i = none :=
    fun _ => Option.bind_eq_none_iff.1 hf _
  unfold Limits.interruption? at hgive
  by_cases hc : Limits.reached session.limits.cancelledFrom now = true
  · have hcancelled : giveUp? r .cancelled = none := hgive _ (if_pos hc)
    cases i with
    | cancelled => exact hcancelled
    | overdue => cases r <;> first | rfl | cases hcancelled
  · rw [if_neg hc] at hgive
    cases i with
    | cancelled => exact absurd (Limits.reached_iff.2 hi) hc
    | overdue =>
      obtain ⟨d, hmem, hlt⟩ := hi
      exact hgive _ (if_pos (Limits.reached_iff.2 ⟨d, hmem, Nat.le_of_lt hlt⟩))

end Keeper.Session

namespace Rehearsal

open Keeper (Session)

theorem Scene.begin_limits (w : Scene) (now : Nat) (session : Session) (r : Request) :
    (w.begin now session r).2.1.limits = session.limits.after now r := by
  cases r with
  | openEngine c spec =>
    unfold Scene.begin Scene.openEngine
    cases w.engine with
    | standIn e => rfl
    | scripted e => rfl
    | program name => dsimp only; split <;> rfl
  | engine c =>
    unfold Scene.begin Scene.callEngine
    cases w.engine <;> rfl
  | _ => rfl

/-- A task on the clock. While it waits, it stands at the moment at which it began to. -/
inductive Stands : Task → Nat → Juncture Report → Prop where
  | ready {key : Option Stack.Key} {session : Session} {now : Nat}
      {d : Dialogue Surroundings Report} :
      Stands ⟨key, session, .ready d⟩ now ⟨session.limits, now, d⟩
  | waiting {key : Option Stack.Key} {session : Session} {now since : Nat} {l : Limits} {r : Request}
      {pending : Pending (Reply r)} {next : Reply r → Dialogue Surroundings Report}
      (hl : ∀ i, l.Passed since i → giveUp? r i = none) (ha : session.limits = l.after since r)
      (ht : since ≤ now) :
      Stands ⟨key, session, .waiting r pending next⟩ now ⟨l, since, .ask r next⟩
  | finished {key : Option Stack.Key} {session : Session} {now since : Nat} {l : Limits}
      {report : Report} :
      Stands ⟨key, session, .finished report⟩ now ⟨l, since, .done report⟩

variable {t : Task} {now : Nat} {u : Juncture Report}

theorem Stands.later {moment : Nat} (hs : Stands t now u) (hgo : t.canGoOn now = false)
    (ht : now ≤ moment) : Stands t moment u := by
  cases hs with
  | ready => cases hgo
  | waiting hl ha hle => exact .waiting hl ha (Nat.le_trans hle ht)
  | finished => exact .finished

theorem walk_stands (now : Nat) (key : Option Stack.Key) (d : Dialogue Surroundings Report)
    (session : Session) (w : Scene) : ∃ l u, Passes ⟨session.limits, now, d⟩ l u ∧
      Stands ⟨key, (walk now d session w).2.1, (walk now d session w).1⟩ now u := by
  induction d generalizing session w with
  | done report => exact ⟨[], _, .stay _, .finished⟩
  | ask r next ih =>
    unfold walk
    split
    · rename_i reply hf
      obtain ⟨i, hi, hg⟩ := Session.interruption_of_forced hf
      obtain ⟨l, u, hp, hs⟩ := ih reply session w
      exact ⟨_, u, .happen (.refused hi hg) hp, hs⟩
    · rename_i hf
      have hlimits := w.begin_limits now session r
      dsimp only
      split
      · obtain ⟨l, u, hp, hs⟩ := ih ((w.begin now session r).1.reply (w.begin now session r).2.2).1
          (w.begin now session r).2.1 ((w.begin now session r).1.reply (w.begin now session r).2.2).2
        rw [hlimits] at hp
        exact ⟨_, u, .happen (.made (Session.unforced hf) _ (Nat.le_refl now)) hp, hs⟩
      · exact ⟨[], _, .stay _, .waiting (Session.unforced hf) hlimits (Nat.le_refl now)⟩

/-- A turn of a task is a passage of its dialogue. -/
theorem Stands.goOn (hs : Stands t now u) (w : Scene) :
    ∃ l u', Passes u l u' ∧ Stands (t.goOn now w).1 now u' := by
  cases hs with
  | ready => exact walk_stands now _ _ _ w
  | @waiting key session _ since _ r pending next hl ha ht =>
    unfold Task.goOn
    dsimp only
    split
    · rename_i reply hf
      obtain ⟨l, u', hp, hs⟩ := walk_stands now key (next reply) session w
      rw [ha] at hp
      exact ⟨_, u', .happen (.made hl reply ht) hp, hs⟩
    · obtain ⟨l, u', hp, hs⟩ := walk_stands now key (next (pending.reply w).1) session
        (pending.reply w).2
      rw [ha] at hp
      exact ⟨_, u', .happen (.made hl _ ht) hp, hs⟩
  | finished => exact ⟨[], _, .stay _, .finished⟩

/-! ## The whole stage -/

/-- A task that stands in one stage has passed on to where it stands in another one. -/
def PassesOn (s s' : Stage) : Prop :=
  ∀ t u, t ∈ s.tasks → Stands t s.now u →
    ∃ t' l u', t' ∈ s'.tasks ∧ t'.key = t.key ∧ Passes u l u' ∧ Stands t' s'.now u'

variable {s s' s'' : Stage}

theorem passesOn_refl (s : Stage) : PassesOn s s :=
  fun t u hm hs => ⟨t, [], u, hm, rfl, .stay u, hs⟩

theorem PassesOn.trans (hp : PassesOn s s') (hp' : PassesOn s' s'') : PassesOn s s'' := by
  intro t u hm hs
  obtain ⟨t₁, l, u₁, hm₁, hk₁, hl, hs₁⟩ := hp t u hm hs
  obtain ⟨t₂, l', u₂, hm₂, hk₂, hl', hs₂⟩ := hp' t₁ u₁ hm₁ hs₁
  exact ⟨t₂, l ++ l', u₂, hm₂, hk₂.trans hk₁, hl.append hl', hs₂⟩

theorem goOn_key (t : Task) (now : Nat) (w : Scene) : (t.goOn now w).1.key = t.key := by
  unfold Task.goOn
  dsimp only
  split
  · rfl
  · split <;> rfl
  · rfl

theorem turn_passesOn (ht : s.turn = some s') : PassesOn s s' := by
  obtain ⟨before, t, after, heq, -, rfl⟩ := turnIn_cases ht
  rw [List.reverse_nil, List.nil_append] at heq
  intro t' u hm hs
  have hothers : t' ∈ before.reverse ∨ t' ∈ after →
      t' ∈ before.reverse ++ (t.goOn s.now s.scene).1 :: after := by
    rintro (hm | hm) <;> simp [hm]
  rw [heq, List.mem_append, List.mem_cons] at hm
  rcases hm with hm | rfl | hm
  · exact ⟨t', [], u, hothers (.inl hm), rfl, .stay u, hs⟩
  · obtain ⟨l, u', hp, hs'⟩ := hs.goOn s.scene
    exact ⟨_, l, u', List.mem_append_right _ List.mem_cons_self, goOn_key _ _ _, hp, hs'⟩
  · exact ⟨t', [], u, hothers (.inr hm), rfl, .stay u, hs⟩

theorem canGoOn_of_turnIn {before tasks : List Task} (ht : s.turnIn before tasks = none) :
    ∀ t ∈ tasks, t.canGoOn s.now = false := by
  induction tasks generalizing before with
  | nil => exact List.forall_mem_nil _
  | cons t after ih =>
    unfold Stage.turnIn at ht
    split at ht
    · cases ht
    · rename_i hgo
      exact List.forall_mem_cons.2 ⟨eq_false_of_ne_true hgo, ih ht⟩

theorem lt_of_nextMoment {moment : Nat} (hm : s.nextMoment = some moment) : s.now < moment := by
  have hmem := List.min?_mem hm
  exact of_decide_eq_true (List.mem_filter.1 hmem).2

/-- However long a stage is left to itself, its tasks pass through the time as their dialogues may. -/
theorem awaitIn_passesOn (holds : Stage → Bool) (turns : Nat) (s : Stage) :
    PassesOn s (s.awaitIn holds turns) := by
  induction turns generalizing s with
  | zero => exact passesOn_refl s
  | succ turns ih =>
    unfold Stage.awaitIn
    split
    · exact passesOn_refl s
    · split
      · rename_i s₁ ht
        exact (turn_passesOn ht).trans (ih s₁)
      · rename_i ht
        split
        · rename_i moment hm
          have hnext : PassesOn s { s with now := moment } := by
            intro t u hmem hs
            have hgo := canGoOn_of_turnIn ht t hmem
            exact ⟨t, [], u, hmem, rfl, .stay u, hs.later hgo (Nat.le_of_lt (lt_of_nextMoment hm))⟩
          exact hnext.trans (ih _)
        · exact passesOn_refl s

end Rehearsal

end StackKeeper

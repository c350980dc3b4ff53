import StackKeeper.Proofs.Keeper.Crew
import StackKeeper.Rehearsal.Timeline

/-!
# Rehearsals as runs of crews

A rehearsal decides who has the next turn and what is replied. Whatever it decides, its dispatched
tasks with a store in memory do what a crew of workers can do as well.
-/

namespace StackKeeper.Rehearsal

open Attempt (isRecord)
open Keeper (Crew Reconciled Session Worker)
open Keeper.Crew (Run Step)
open Stack (MemoryStore)
open Surroundings (Request Reply)

/-! ## Requests and the store -/

/-- However long it takes, the reply leaves the store as it is then. -/
def Pending.Apart {α : Type} (p : Pending α) : Prop := ∀ w, (p.reply w).2.store = w.store

namespace Scene

variable {m : MemoryStore} {r : Request}

theorem prepare_apart (w : Scene) (now : Nat) (r : SourceRequest) :
    (w.prepare now r).2.store = w.store ∧ (w.prepare now r).1.Apart := by
  unfold prepare
  cases w.source <;> exact ⟨rfl, fun _ => rfl⟩

theorem release_apart (w : Scene) (now : Nat) (c : Checkout) :
    (w.release now c).2.store = w.store ∧ (w.release now c).1.Apart := by
  unfold release
  cases w.source <;> exact ⟨rfl, fun _ => rfl⟩

theorem openEngine_apart (w : Scene) (now : Nat) (session : Session) (c : Checkout) :
    (w.openEngine now session c).2.2.store = w.store ∧
      (w.openEngine now session c).1.Apart := by
  unfold openEngine
  cases w.engine with
  | standIn e => exact ⟨rfl, fun _ => rfl⟩
  | scripted e => exact ⟨rfl, fun _ => rfl⟩
  | program name =>
    dsimp only
    split
    · rename_i hp
      exact ⟨congrArg (fun x => x.2.store) hp.symm, fun _ => rfl⟩
    · rename_i hp
      exact ⟨congrArg (fun x => x.2.store) hp.symm, fun _ => rfl⟩

theorem standInReply_store (c : Engine.Call) (w : Scene) : (standInReply c w).2.store = w.store := by
  unfold standInReply
  split <;> rfl

theorem arrive_store (w : Scene) : w.arrive.2.store = w.store := by
  unfold arrive
  split <;> rfl

theorem callEngine_apart (w : Scene) (now : Nat) (session : Session) (c : Engine.Call) :
    (w.callEngine now session c).2.2.store = w.store ∧
      (w.callEngine now session c).1.Apart := by
  unfold callEngine
  cases w.engine with
  | standIn e =>
    dsimp only
    split
    · exact ⟨arrive_store _, standInReply_store c⟩
    · exact ⟨rfl, standInReply_store c⟩
  | scripted e => exact ⟨rfl, fun _ => rfl⟩
  | program name => exact ⟨rfl, fun _ => rfl⟩

theorem begin_apart (w : Scene) (now : Nat) (session : Session) (hr : isRecord r = false) :
    (w.begin now session r).2.2.store = w.store ∧ (w.begin now session r).1.Apart := by
  cases r with
  | prepare r => exact w.prepare_apart now r
  | release c => exact w.release_apart now c
  | openEngine c spec => exact w.openEngine_apart now session c
  | engine c => exact w.callEngine_apart now session c
  | load k => cases hr
  | save k status => cases hr
  | _ => exact ⟨rfl, fun _ => rfl⟩

/-- A request about the store is answered at once, and by the store. -/
theorem begin_record (w : Scene) (now : Nat) (session : Session) (hr : isRecord r = true)
    (hw : w.store = .memory m) :
    (w.begin now session r).1.pace = .atOnce ∧
    ∃ m', ((w.begin now session r).1.reply (w.begin now session r).2.2).2.store = .memory m' ∧
      m.Serves ⟨r, ((w.begin now session r).1.reply (w.begin now session r).2.2).1⟩ m' := by
  cases r with
  | load k =>
    refine ⟨rfl, m, ?_⟩
    simp only [begin, load, hw, Pending.ofReply]
    exact ⟨trivial, .load m k⟩
  | save k status =>
    refine ⟨rfl, ?_⟩
    simp only [begin, save, hw, Pending.ofReply]
    cases hs : m.updateStatus k status with
    | ok m' => exact ⟨m', rfl, .save hs⟩
    | error e => exact ⟨m, hw, .refuse hs⟩
  | _ => cases hr

end Scene

theorem isRecord_of_forced {now : Nat} {session : Session} {r : Request} {reply : Reply r}
    (hf : session.forcedReply? now r = some reply) : isRecord r = false := by
  obtain ⟨i, -, hg⟩ := Option.bind_eq_some_iff.1 hf
  cases r with
  | load k => cases hg
  | save k status => cases hg
  | _ => rfl

/-! ## Tasks and workers -/

/-- A task that has not ended, as a worker. While it waits, it waits for nothing about the store. -/
inductive Portrays : Task → Worker → Prop where
  | ready {key : Stack.Key} {session : Session} {h : Transcript Surroundings}
      {d : Dialogue Surroundings (Option (Except Error Reconciled))} :
      Portrays ⟨some key, session, .ready (Report.kept <$> d)⟩ ⟨key, h, d⟩
  | waiting {key : Stack.Key} {session : Session} {h : Transcript Surroundings} {r : Request}
      {next : Reply r → Dialogue Surroundings (Option (Except Error Reconciled))}
      {pending : Pending (Reply r)} (hr : isRecord r = false) (hp : pending.Apart) :
      Portrays ⟨some key, session, .waiting r pending fun reply => Report.kept <$> next reply⟩
        ⟨key, h, .ask r next⟩

/-- A task that had `d` ahead walked on to `x`, by exchanges that a worker can have with the store. -/
def Walks (key : Stack.Key) (d : Dialogue Surroundings (Option (Except Error Reconciled)))
    (m : MemoryStore) (x : Point × Session × Scene) : Prop :=
  ∃ h d' m', d.Leads h d' ∧ m.ServesAll h m' ∧ x.2.2.store = .memory m' ∧
    (Task.isFinished ⟨some key, x.2.1, x.1⟩ = true ∨
      ∀ h', Portrays ⟨some key, x.2.1, x.1⟩ ⟨key, h', d'⟩)

theorem Walks.cons {key : Stack.Key} {r : Request} {reply : Reply r}
    {next : Reply r → Dialogue Surroundings (Option (Except Error Reconciled))}
    {m m₁ : MemoryStore} {x : Point × Session × Scene} (he : m.Serves ⟨r, reply⟩ m₁)
    (hw : Walks key (next reply) m₁ x) : Walks key (.ask r next) m x := by
  obtain ⟨h, d', m', hl, hs, hx⟩ := hw
  exact ⟨⟨r, reply⟩ :: h, d', m', .exchange (S := Surroundings) reply hl, .cons he hs, hx⟩

theorem walk_walks (now : Nat) (key : Stack.Key)
    (d : Dialogue Surroundings (Option (Except Error Reconciled))) (session : Session)
    (scene : Scene) {m : MemoryStore} (hm : scene.store = .memory m) :
    Walks key d m (walk now (Report.kept <$> d) session scene) := by
  induction d generalizing session scene m with
  | done a => exact ⟨[], .done a, m, .stay _, .nil m, hm, .inl rfl⟩
  | ask r next ih =>
    change Walks key (.ask r next) m
      (walk now (.ask r fun reply => Report.kept <$> next reply) session scene)
    unfold walk
    split
    · rename_i reply hf
      exact .cons (.elsewhere m (isRecord_of_forced hf)) (ih reply session scene hm)
    · by_cases hr : isRecord r = false
      · obtain ⟨hstore, hapart⟩ := scene.begin_apart now session hr
        dsimp only
        split
        · exact .cons (.elsewhere m hr) (ih _ _ _ ((hapart _).trans (hstore.trans hm)))
        · exact ⟨[], _, m, .stay _, .nil m, hstore.trans hm, .inr fun h' => .waiting hr hapart⟩
      · -- The store does not keep anybody waiting, so the task walks on.
        obtain ⟨hpace, m', hstore, hserves⟩ := scene.begin_record now session (eq_true_of_ne_false hr) hm
        dsimp only
        rw [if_pos (by rw [hpace]; rfl)]
        exact .cons hserves (ih _ _ _ hstore)

theorem Portrays.key_eq {t : Task} {w : Worker} (hp : Portrays t w) : t.key = some w.key := by
  cases hp <;> rfl

theorem Portrays.not_finished {t : Task} {w : Worker} (hp : Portrays t w) : t.isFinished = false := by
  cases hp <;> rfl

theorem Portrays.goOn {t : Task} {w : Worker} (hp : Portrays t w) (now : Nat) (scene : Scene)
    {m : MemoryStore} (hm : scene.store = .memory m) :
    ∃ x, t.goOn now scene = (⟨some w.key, x.2.1, x.1⟩, x.2.2) ∧ Walks w.key w.rest m x := by
  cases hp with
  | ready => exact ⟨_, rfl, walk_walks now _ _ _ scene hm⟩
  | waiting hr hp =>
    unfold Task.goOn
    dsimp only
    split
    · exact ⟨_, rfl, .cons (.elsewhere m hr) (walk_walks now _ _ _ scene hm)⟩
    · exact ⟨_, rfl, .cons (.elsewhere m hr) (walk_walks now _ _ _ _ ((hp scene).trans hm))⟩

/-! ## The whole stage -/

/-- The tasks that have not ended are the workers, in the same order. -/
inductive Staffs : List Task → List Worker → Prop where
  | nil : Staffs [] []
  | works {t : Task} {w : Worker} {tasks : List Task} {workers : List Worker} (hp : Portrays t w)
      (hs : Staffs tasks workers) : Staffs (t :: tasks) (w :: workers)
  | ended {t : Task} {tasks : List Task} {workers : List Worker} (ht : t.isFinished = true)
      (hs : Staffs tasks workers) : Staffs (t :: tasks) workers

theorem Staffs.append {tasks tasks' : List Task} {workers workers' : List Worker}
    (hs : Staffs tasks workers) (hs' : Staffs tasks' workers') :
    Staffs (tasks ++ tasks') (workers ++ workers') := by
  induction hs with
  | nil => exact hs'
  | works hp _ ih => exact .works hp ih
  | ended ht _ ih => exact .ended ht ih

theorem Staffs.split {tasks tasks' : List Task} {workers : List Worker}
    (hs : Staffs (tasks ++ tasks') workers) : ∃ workers₁ workers₂,
      workers = workers₁ ++ workers₂ ∧ Staffs tasks workers₁ ∧ Staffs tasks' workers₂ := by
  induction tasks generalizing workers with
  | nil => exact ⟨[], workers, rfl, .nil, hs⟩
  | cons t tasks ih =>
    cases hs with
    | works hp hs =>
      obtain ⟨workers₁, workers₂, rfl, hs₁, hs₂⟩ := ih hs
      exact ⟨_ :: workers₁, workers₂, rfl, .works hp hs₁, hs₂⟩
    | ended ht hs =>
      obtain ⟨workers₁, workers₂, rfl, hs₁, hs₂⟩ := ih hs
      exact ⟨workers₁, workers₂, rfl, .ended ht hs₁, hs₂⟩

theorem Staffs.at_work {before after : List Task} {t : Task} {workers : List Worker}
    (hs : Staffs (before ++ t :: after) workers) (ht : t.isFinished = false) :
    ∃ workers₁ w workers₂, workers = workers₁ ++ w :: workers₂ ∧ Staffs before workers₁ ∧
      Portrays t w ∧ Staffs after workers₂ := by
  obtain ⟨workers₁, workers₂, rfl, hs₁, hs₂⟩ := hs.split
  cases hs₂ with
  | @works _ w _ workers₂ hp hs₂ => exact ⟨workers₁, w, workers₂, rfl, hs₁, hp, hs₂⟩
  | ended hf => rw [ht] at hf; cases hf

theorem Staffs.filter {tasks : List Task} {workers : List Worker} {key : Stack.Key}
    (hs : Staffs tasks workers) (hk : key ∉ workers.map Worker.key) :
    Staffs (tasks.filter (!Stage.isFor key ·)) workers := by
  induction hs with
  | nil => exact .nil
  | @works t w tasks workers hp _ ih =>
    rw [List.map_cons, List.mem_cons, not_or] at hk
    have hne : (!Stage.isFor key t) = true := by
      simp [Stage.isFor, hp.key_eq, Ne.symm hk.1]
    rw [List.filter_cons, if_pos hne]
    exact .works hp (ih hk.2)
  | @ended t tasks workers ht _ ih =>
    by_cases hf : (!Stage.isFor key t) = true
    · rw [List.filter_cons, if_pos hf]
      exact .ended ht (ih hk)
    · rw [List.filter_cons, if_neg hf]
      exact ih hk

theorem Staffs.map {tasks : List Task} {workers : List Worker} {f : Task → Task}
    (hs : Staffs tasks workers) (hf : ∀ t, (f t).isFinished = t.isFinished)
    (hp : ∀ t w, Portrays t w → Portrays (f t) w) : Staffs (tasks.map f) workers := by
  induction hs with
  | nil => exact .nil
  | works hw _ ih => exact .works (hp _ _ hw) ih
  | ended ht _ ih => exact .ended ((hf _).trans ht) ih

/-- A stage with a store in memory, all of whose tasks were dispatched, as a crew. -/
structure Depicts (s : Stage) (c : Crew) : Prop where
  store : s.scene.store = .memory c.store
  roster : s.roster = c.roster
  staff : Staffs s.tasks c.workers

theorem canGoOn_not_finished {t : Task} {now : Nat} (ht : t.canGoOn now = true) :
    t.isFinished = false := by
  obtain ⟨key, session, point⟩ := t
  cases point with
  | finished report => cases ht
  | _ => rfl

theorem turnIn_cases {s s' : Stage} {before tasks : List Task}
    (ht : s.turnIn before tasks = some s') : ∃ before' t after,
      before.reverse ++ tasks = before'.reverse ++ t :: after ∧ t.canGoOn s.now = true ∧
      s' = s.afterTurn before' after (t.goOn s.now s.scene).1 (t.goOn s.now s.scene).2 := by
  induction tasks generalizing before with
  | nil => cases ht
  | cons t after ih =>
    unfold Stage.turnIn at ht
    split at ht
    · rename_i hgo
      exact ⟨before, t, after, rfl, hgo, (Option.some.inj ht).symm⟩
    · obtain ⟨before', t', after', heq, hgo, hs'⟩ := ih ht
      refine ⟨before', t', after', ?_, hgo, hs'⟩
      rw [← heq, List.reverse_cons, List.append_assoc, List.singleton_append]

variable {k : Keeper} {s s' : Stage} {c : Crew} {key : Stack.Key}

/-- A turn is some exchanges of one worker, who then leaves if it has come to its end. -/
theorem Depicts.turn (hd : Depicts s c) (ht : s.turn = some s') :
    ∃ events c', Run k c events c' ∧ Depicts s' c' := by
  obtain ⟨before, t, after, heq, hgo, rfl⟩ := turnIn_cases ht
  have hstaff := hd.staff
  rw [List.reverse_nil, List.nil_append] at heq
  rw [heq] at hstaff
  obtain ⟨workers₁, w, workers₂, hw, hs₁, hp, hs₂⟩ := hstaff.at_work (canGoOn_not_finished hgo)
  obtain ⟨x, hx, h, d, m', hl, hserves, hstore, hend⟩ := hp.goOn s.now s.scene hd.store
  have hled := Run.led (k := k) workers₁ workers₂ hw hl hserves
  rw [hx]
  unfold Stage.afterTurn
  dsimp only
  rcases hend with hf | hp'
  · rw [if_pos hf, hd.roster]
    exact ⟨_, _, hled.step (.leave rfl), hstore, rfl, hs₁.append (.ended hf hs₂)⟩
  · rw [if_neg (Bool.eq_false_iff.1 (hp' []).not_finished)]
    exact ⟨_, _, hled, hstore, hd.roster, hs₁.append (.works (hp' _) hs₂)⟩

theorem Depicts.settleIn (hd : Depicts s c) (turns : Nat) :
    ∃ events c', Run k c events c' ∧ Depicts (s.settleIn turns) c' := by
  induction turns generalizing s c with
  | zero => exact ⟨[], c, .start, hd⟩
  | succ turns ih =>
    unfold Stage.settleIn
    split
    · rename_i s₁ ht
      obtain ⟨events, c₁, hr, hd₁⟩ := hd.turn ht
      obtain ⟨events', c', hr', hd'⟩ := ih hd₁
      exact ⟨_, c', hr.append hr', hd'⟩
    · exact ⟨[], c, .start, hd⟩

theorem Depicts.awaitIn (hd : Depicts s c) (holds : Stage → Bool) (turns : Nat) :
    ∃ events c', Run k c events c' ∧ Depicts (s.awaitIn holds turns) c' := by
  induction turns generalizing s c with
  | zero => exact ⟨[], c, .start, hd⟩
  | succ turns ih =>
    unfold Stage.awaitIn
    split
    · exact ⟨[], c, .start, hd⟩
    · split
      · rename_i s₁ ht
        obtain ⟨events, c₁, hr, hd₁⟩ := hd.turn ht
        obtain ⟨events', c', hr', hd'⟩ := ih hd₁
        exact ⟨_, c', hr.append hr', hd'⟩
      · split
        · rename_i moment hm
          have hd' : Depicts { s with now := moment } c := ⟨hd.store, hd.roster, hd.staff⟩
          exact ih hd'
        · exact ⟨[], c, .start, hd⟩

theorem Depicts.callOff (hd : Depicts s c) : Depicts s.callOff c := by
  refine ⟨hd.store, hd.roster, hd.staff.map (fun _ => rfl) fun t w hp => ?_⟩
  cases hp with
  | ready => exact .ready
  | waiting hr hp => exact .waiting hr hp

theorem letThrough_isFinished (t : Task) (arrival : Nat) :
    (t.letThrough arrival).isFinished = t.isFinished := by
  unfold Task.letThrough
  split
  · rename_i hpt
    split
    · simp [Task.isFinished, Task.report?, hpt]
    · rfl
  · rfl

theorem Portrays.letThrough {t : Task} {w : Worker} (hp : Portrays t w) (arrival : Nat) :
    Portrays (t.letThrough arrival) w := by
  cases hp with
  | ready => exact .ready
  | @waiting key session h r next pending hr ha =>
    obtain ⟨pace, reply⟩ := pending
    cases pace with
    | atGate a =>
      unfold Task.letThrough
      dsimp only
      split
      · exact .waiting hr ha
      · exact .waiting hr ha
    | _ => exact .waiting hr ha

theorem Depicts.openGate (hd : Depicts s c) : Depicts s.openGate c := by
  unfold Stage.openGate
  split
  · exact ⟨hd.store, hd.roster,
      hd.staff.map (letThrough_isFinished · _) fun _ _ hp => hp.letThrough _⟩
  · exact ⟨hd.store, hd.roster, hd.staff⟩

theorem Depicts.dispatchWithin (hd : Depicts s c) (hc : c.Coherent k) {limits : Limits}
    (hs : s.dispatchWithin limits key = some s') :
    ∃ c', Step s.keeper c (.dispatch key) c' ∧ Depicts s' c' := by
  refine ⟨_, .dispatch c key Stage.patience s.allowedRounds, ?_⟩
  unfold Stage.dispatchWithin at hs
  rw [hd.roster] at hs
  obtain ⟨roster, he, rfl⟩ := Option.map_eq_some_iff.1 hs
  have hk : key ∉ c.workers.map Worker.key := fun hk =>
    Keeper.Roster.not_contains_of_enter? he ((hc.listed key).2 hk)
  unfold Crew.dispatch
  rw [he]
  exact ⟨hd.store, rfl, (hd.staff.filter hk).append (.works .ready .nil)⟩

end StackKeeper.Rehearsal

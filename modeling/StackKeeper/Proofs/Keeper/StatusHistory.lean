import StackKeeper.Proofs.Attempt.Commit
import StackKeeper.Proofs.Keeper.Service

/-!
# The history behind a status

A stack is reconciled again and again, and its specification may be replaced in between. The status
then tells of the last attempt that had an outcome. Its successful commit and its outputs are older,
where that attempt was no success.
-/

namespace StackKeeper.Keeper

open Attempt (ChecksOut ReadsOutputs Destroys)
open Stack (MemoryStore Status)

/-- One reconciliation, and all that was exchanged in it. -/
structure Call where
  keeper : Keeper
  exchanges : Transcript Surroundings
  result : Except Error Reconciled

/-- The reconciliation was made with a store, which it left as another one. -/
structure Call.Runs (c : Call) (key : Stack.Key) (s s' : MemoryStore) : Prop where
  ends : (c.keeper.reconcileKey key).Ends c.exchanges c.result
  served : s.ServesAll c.exchanges s'

/-- The attempt for a stack had an outcome, which was recorded at a time. -/
def Call.Produces (c : Call) (key : Stack.Key) (stack : Stack) (o : Attempt.Outcome)
    (now : Timestamp) : Prop :=
  ∃ mode h reply, modeFor stack = some mode ∧
    (Attempt.run stack mode c.keeper.resolver c.keeper.attemptLimit).Ends h (some o) ∧
    c.exchanges = ⟨.load key, .ok stack⟩ :: (h ++
      [⟨.now, now⟩, ⟨.save stack.key (.record stack.status o now), reply⟩])

/-- What happens to one key of a store. Between two reconciliations everything may change, as long as
the status is carried over. -/
inductive History (key : Stack.Key) (s₀ : MemoryStore) : List Call → MemoryStore → Prop where
  | start : History key s₀ [] s₀
  | replace {calls : List Call} {s s' : MemoryStore} {stack stack' : Stack}
      (before : History key s₀ calls s) (hs : s.get key = .ok stack) (hs' : s'.get key = .ok stack')
      (hk : stack'.key = key) (hc : stack'.status = stack.status) : History key s₀ calls s'
  | call {calls : List Call} {s s' : MemoryStore} {c : Call} (before : History key s₀ calls s)
      (hc : c.Runs key s s') : History key s₀ (calls ++ [c]) s'

/-- The call had a property, and no later one had it. -/
def IsLast (P : Call → Prop) (calls : List Call) (c : Call) : Prop :=
  ∃ before after, calls = before ++ c :: after ∧ P c ∧ ∀ c' ∈ after, ¬P c'

theorem not_isLast_nil {P : Call → Prop} {c : Call} : ¬IsLast P [] c := by
  rintro ⟨before, after, heq, -⟩
  simp at heq

theorem isLast_concat {P : Call → Prop} {calls : List Call} {c c' : Call}
    (hl : IsLast P (calls ++ [c]) c') : P c ∧ c' = c ∨ ¬P c ∧ IsLast P calls c' := by
  obtain ⟨before, after, heq, hp, hn⟩ := hl
  rcases eq_of_concat_eq heq with ⟨-, rfl, -⟩ | ⟨after, rfl, rfl⟩
  · exact .inl ⟨hp, rfl⟩
  · refine .inr ⟨hn c (by simp), before, after, rfl, hp, fun x hx => hn x (by simp [hx])⟩

namespace Call

variable {c : Call} {key : Stack.Key} {stack stack' : Stack} {o o' : Attempt.Outcome}
  {now now' : Timestamp} {s s' : MemoryStore}

def HasOutcome (key : Stack.Key) (c : Call) : Prop := ∃ stack o now, c.Produces key stack o now

def Succeeds (key : Stack.Key) (c : Call) : Prop :=
  ∃ stack o now, c.Produces key stack o now ∧ o.verdict = .succeeded

/-- A successful update that read its outputs, or a successful destroy. -/
def SettlesOutputs (key : Stack.Key) (c : Call) : Prop :=
  c.Succeeds key ∧ ((∃ outputs, ReadsOutputs c.exchanges outputs) ∨ Destroys c.exchanges)

theorem Produces.unique (hp : c.Produces key stack o now) (hp' : c.Produces key stack' o' now') :
    o = o' ∧ now = now' := by
  obtain ⟨mode, h, reply, hm, he, heq⟩ := hp
  obtain ⟨mode', h', reply', hm', he', heq'⟩ := hp'
  rw [heq] at heq'
  obtain ⟨hl, ht⟩ := List.cons.inj heq'
  cases hl
  obtain ⟨rfl, hn⟩ := List.append_inj' ht rfl
  obtain rfl := Option.some.inj (hm.symm.trans hm')
  refine ⟨Option.some.inj (he.unique he'), ?_⟩
  cases (List.cons.inj hn).1
  rfl

theorem Produces.mem_save (hp : c.Produces key stack o now) :
    ∃ stack' e h, c.exchanges = ⟨.load key, .ok stack'⟩ :: h ∧ e ∈ h ∧
      Attempt.isRecord e.request = true := by
  obtain ⟨mode, h, reply, -, -, heq⟩ := hp
  exact ⟨stack, _, _, heq, List.mem_append_right h (List.mem_cons_of_mem _ List.mem_cons_self), rfl⟩

theorem not_hasOutcome {h : Transcript Surroundings}
    (heq : c.exchanges = ⟨.load key, .ok stack⟩ :: h)
    (hq : ∀ e ∈ h, Attempt.isRecord e.request = false) : ¬c.HasOutcome key := by
  rintro ⟨stack', o, now, hp⟩
  obtain ⟨stack'', e, h', heq', hm, he⟩ := hp.mem_save
  rw [heq] at heq'
  obtain ⟨-, rfl⟩ := List.cons.inj heq'
  rw [hq e hm] at he
  cases he

/-- A call either leaves the store alone, or records the outcome of an attempt for the stack that
stands there. -/
theorem Runs.cases (hc : c.Runs key s s') (hs : s.get key = .ok stack) (hk : stack.key = key) :
    ¬c.HasOutcome key ∧ s' = s ∨ ∃ o now, c.Produces key stack o now ∧
      s'.get key = .ok { stack with status := some (.record stack.status o now) } := by
  subst hk
  obtain ⟨reply, h, heq, hr⟩ := reconcileKey_ends_iff.1 hc.ends
  have hserved := hc.served
  rw [heq] at hserved
  obtain ⟨s₁, hload, hrest⟩ := hserved.cons_inv
  obtain ⟨rfl, rfl⟩ := hload.eq_of_load
  rw [hs] at hr heq
  dsimp only at hr
  cases hm : modeFor stack with
  | none =>
    rw [reconcile_released hm] at hr
    obtain ⟨rfl, -⟩ := Dialogue.ends_done_iff.1 hr
    exact .inl ⟨not_hasOutcome heq (by simp), hrest.eq_of_elsewhere (by simp)⟩
  | some mode =>
    obtain ⟨h₁, h₂, o, rfl, hrun, ho⟩ := (reconcile_ends_iff hm).1 hr
    have hq := (Attempt.run_apart stack mode _ _ []).of_ends hrun
    cases o with
    | none =>
      obtain ⟨rfl, -⟩ := ho
      rw [List.append_nil] at heq hrest
      exact .inl ⟨not_hasOutcome heq hq, hrest.eq_of_elsewhere hq⟩
    | some o =>
      obtain ⟨now, reply, rfl, -⟩ := settle_ends_iff.1 ho
      -- of all that was exchanged only the record concerns the store
      obtain ⟨s₁, hran, hsettled⟩ := hrest.split
      obtain rfl := hran.eq_of_elsewhere hq
      obtain ⟨s₂, hnow, hrecorded⟩ := hsettled.cons_inv
      obtain rfl := hnow.eq_of_elsewhere rfl
      obtain ⟨s₃, hsave, hend⟩ := hrecorded.cons_inv
      obtain rfl := hend.eq_of_elsewhere (by simp)
      obtain ⟨rfl, -⟩ := hsave.eq_of_save hs
      exact .inr ⟨o, now, ⟨mode, h₁, reply, hm, hrun, heq⟩, s₂.get_put stack.key _⟩

/-! ### What a record changes -/

theorem Produces.succeeds_iff (hp : c.Produces key stack o now) :
    c.Succeeds key ↔ o.verdict = .succeeded := by
  constructor
  · rintro ⟨stack', o', now', hp', hv⟩
    obtain ⟨rfl, -⟩ := hp.unique hp'
    exact hv
  · exact fun hv => ⟨stack, o, now, hp, hv⟩

theorem Produces.of_not_succeeds (hp : c.Produces key stack o now) (hn : ¬c.Succeeds key) :
    (Status.record stack.status o now).lastSuccessfulCommit =
      stack.status.bind (·.lastSuccessfulCommit) ∧
    (Status.record stack.status o now).outputs = stack.status.bind (·.outputs) := by
  rw [hp.succeeds_iff] at hn
  obtain ⟨mode, h, reply, hm, he, heq⟩ := hp
  have hs : o.verdict.isSuccess = false := by simpa [Stack.Verdict.isSuccess] using hn
  simp [Status.record, Status.lastSuccessfulCommit, hs, Attempt.run_not_succeeded he hn]

theorem Produces.of_succeeds (hp : c.Produces key stack o now) (hs : c.Succeeds key) :
    (∃ commit, ChecksOut c.exchanges commit) ∧ ∀ commit, ChecksOut c.exchanges commit →
      (Status.record stack.status o now).lastSuccessfulCommit = some commit := by
  rw [hp.succeeds_iff] at hs
  obtain ⟨mode, h, reply, hm, he, heq⟩ := hp
  have hiff : ∀ commit, ChecksOut c.exchanges commit ↔ ChecksOut h commit := by
    rw [heq]
    exact Attempt.checksOut_frame [_] _ (by simp [Attempt.isPrepare]) (by simp [Attempt.isPrepare])
  obtain ⟨⟨commit, hc⟩, hall, -⟩ := Attempt.run_succeeded he hs
  refine ⟨⟨commit, (hiff commit).2 hc⟩, fun commit hc => ?_⟩
  simp [Status.record, Status.lastSuccessfulCommit, Stack.Verdict.isSuccess, hs,
    hall commit ((hiff commit).1 hc)]

theorem Produces.outputs_of_succeeds (hp : c.Produces key stack o now) (hs : c.Succeeds key) :
    (∀ outputs, ReadsOutputs c.exchanges outputs ↔ o.outputs = .replace outputs) ∧
      (Destroys c.exchanges ↔ o.outputs = .clear) := by
  rw [hp.succeeds_iff] at hs
  obtain ⟨mode, h, reply, hm, he, heq⟩ := hp
  have hmem : ∀ (q : Engine.Call) (reply : Surroundings.Raced q.Reply),
      (⟨.engine q, reply⟩ : Exchange Surroundings) ∈ c.exchanges ↔ ⟨.engine q, reply⟩ ∈ h := by
    intro q reply
    rw [heq, List.mem_cons, List.mem_append]
    constructor
    · rintro (hm | hm | hm)
      · cases hm
      · exact hm
      · simp only [List.mem_cons, List.not_mem_nil, or_false] at hm
        rcases hm with hm | hm <;> cases hm
    · exact fun hm => .inr (.inl hm)
  obtain ⟨-, -, hr, hd⟩ := Attempt.run_succeeded he hs
  refine ⟨fun outputs => (hmem _ _).trans (hr outputs), Iff.trans ?_ hd⟩
  exact exists_congr fun _ => hmem _ _

theorem Produces.of_settles (hp : c.Produces key stack o now) (hs : c.SettlesOutputs key) :
    (∀ outputs, ReadsOutputs c.exchanges outputs →
      (Status.record stack.status o now).outputs = some outputs) ∧
    (Destroys c.exchanges → (Status.record stack.status o now).outputs = none) := by
  obtain ⟨hr, hd⟩ := hp.outputs_of_succeeds hs.1
  refine ⟨fun outputs hc => ?_, fun hc => ?_⟩
  · simp [Status.record, (hr outputs).1 hc]
  · simp [Status.record, hd.1 hc]

theorem Produces.of_not_settles (hp : c.Produces key stack o now) (hn : ¬c.SettlesOutputs key) :
    (Status.record stack.status o now).outputs = stack.status.bind (·.outputs) := by
  by_cases hs : c.Succeeds key
  · obtain ⟨hr, hd⟩ := hp.outputs_of_succeeds hs
    cases ho : o.outputs with
    | keep => simp [Status.record, ho]
    | replace outputs => exact absurd ⟨hs, .inl ⟨outputs, (hr outputs).2 ho⟩⟩ hn
    | clear => exact absurd ⟨hs, .inr (hd.2 ho)⟩ hn
  · exact (hp.of_not_succeeds hs).2

end Call

/-! ## Whole histories -/

/-- What a status tells of the calls that have led to it since an earlier one. -/
structure Tells (key : Stack.Key) (calls : List Call) (earlier later : Option Status) : Prop where
  untouched : (∀ c ∈ calls, ¬c.HasOutcome key) → later = earlier
  /-- The attempt itself is always the last one that had an outcome. -/
  attempted : ∀ c stack o now, IsLast (Call.HasOutcome key) calls c →
    c.Produces key stack o now → ∃ u, later.bind (·.lastUpdate) = some u ∧
      u.state = o.verdict.state ∧ u.lastAttemptedCommit = o.commit ∧
      u.permalink = o.permalink ∧ u.lastResyncTime = some now
  uncommitted : (∀ c ∈ calls, ¬c.Succeeds key) →
    later.bind (·.lastSuccessfulCommit) = earlier.bind (·.lastSuccessfulCommit)
  committed : ∀ c, IsLast (Call.Succeeds key) calls c → (∃ commit, ChecksOut c.exchanges commit) ∧
    ∀ commit, ChecksOut c.exchanges commit → later.bind (·.lastSuccessfulCommit) = some commit
  unsettled : (∀ c ∈ calls, ¬c.SettlesOutputs key) →
    later.bind (·.outputs) = earlier.bind (·.outputs)
  settled : ∀ c, IsLast (Call.SettlesOutputs key) calls c →
    (∀ outputs, ReadsOutputs c.exchanges outputs → later.bind (·.outputs) = some outputs) ∧
    (Destroys c.exchanges → later.bind (·.outputs) = none)

section Histories

variable {key : Stack.Key} {calls : List Call} {earlier : Option Status} {stack : Stack} {c : Call}
  {o : Attempt.Outcome} {now : Timestamp} {s₀ s s' : MemoryStore}

theorem tells_nil (key : Stack.Key) (status : Option Status) : Tells key [] status status where
  untouched := fun _ => rfl
  attempted := fun _ _ _ _ hl => absurd hl not_isLast_nil
  uncommitted := fun _ => rfl
  committed := fun _ hl => absurd hl not_isLast_nil
  unsettled := fun _ => rfl
  settled := fun _ hl => absurd hl not_isLast_nil

theorem Call.Succeeds.hasOutcome (hs : c.Succeeds key) : c.HasOutcome key := by
  obtain ⟨stack, o, now, hp, -⟩ := hs
  exact ⟨stack, o, now, hp⟩

theorem isLast_of_not {P : Call → Prop} {c' : Call} (hl : IsLast P (calls ++ [c]) c')
    (hn : ¬P c) : IsLast P calls c' := by
  rcases isLast_concat hl with ⟨hp, -⟩ | ⟨-, hl⟩
  · exact absurd hp hn
  · exact hl

theorem Tells.of_not_hasOutcome {later : Option Status} (ht : Tells key calls earlier later)
    (hn : ¬c.HasOutcome key) : Tells key (calls ++ [c]) earlier later where
  untouched := fun h => ht.untouched fun c hc => h c (List.mem_append_left _ hc)
  attempted := fun c stack o now hl => ht.attempted c stack o now (isLast_of_not hl hn)
  uncommitted := fun h => ht.uncommitted fun c hc => h c (List.mem_append_left _ hc)
  committed := fun c hl => ht.committed c (isLast_of_not hl fun hs => hn hs.hasOutcome)
  unsettled := fun h => ht.unsettled fun c hc => h c (List.mem_append_left _ hc)
  settled := fun c hl => ht.settled c (isLast_of_not hl fun hs => hn hs.1.hasOutcome)

theorem Tells.record (ht : Tells key calls earlier stack.status)
    (hp : c.Produces key stack o now) :
    Tells key (calls ++ [c]) earlier (some (.record stack.status o now)) where
  untouched := fun h => absurd ⟨stack, o, now, hp⟩ (h c (by simp))
  attempted := by
    intro c' stack' o' now' hl hp'
    rcases isLast_concat hl with ⟨-, rfl⟩ | ⟨hn, -⟩
    · obtain ⟨rfl, rfl⟩ := hp.unique hp'
      exact ⟨_, rfl, rfl, rfl, rfl, rfl⟩
    · exact absurd ⟨stack, o, now, hp⟩ hn
  uncommitted := by
    intro h
    refine (hp.of_not_succeeds (h c (by simp))).1.trans ?_
    exact ht.uncommitted fun c hc => h c (List.mem_append_left _ hc)
  committed := by
    intro c' hl
    rcases isLast_concat hl with ⟨hs, rfl⟩ | ⟨hn, hl⟩
    · exact hp.of_succeeds hs
    · obtain ⟨hex, hall⟩ := ht.committed c' hl
      exact ⟨hex, fun commit hc => (hp.of_not_succeeds hn).1.trans (hall commit hc)⟩
  unsettled := by
    intro h
    refine (hp.of_not_settles (h c (by simp))).trans ?_
    exact ht.unsettled fun c hc => h c (List.mem_append_left _ hc)
  settled := by
    intro c' hl
    rcases isLast_concat hl with ⟨hs, rfl⟩ | ⟨hn, hl⟩
    · exact hp.of_settles hs
    · obtain ⟨hr, hd⟩ := ht.settled c' hl
      have heq := hp.of_not_settles hn
      exact ⟨fun outputs hc => heq.trans (hr outputs hc), fun hc => heq.trans (hd hc)⟩

theorem History.tells {stack₀ : Stack} (hh : History key s₀ calls s)
    (h₀ : s₀.get key = .ok stack₀) (hk : stack₀.key = key) : ∃ stack, s.get key = .ok stack ∧
      stack.key = key ∧ Tells key calls stack₀.status stack.status := by
  induction hh with
  | start => exact ⟨stack₀, h₀, hk, tells_nil key stack₀.status⟩
  | replace before hs hs' hk' hc ih =>
    obtain ⟨stack, hs₁, -, ht⟩ := ih
    rw [hs] at hs₁
    cases hs₁
    exact ⟨_, hs', hk', hc ▸ ht⟩
  | call before hc ih =>
    obtain ⟨stack, hs, hk, ht⟩ := ih
    rcases hc.cases hs hk with ⟨hn, rfl⟩ | ⟨o, now, hp, hs'⟩
    · exact ⟨stack, hs, hk, ht.of_not_hasOutcome hn⟩
    · exact ⟨_, hs', hk, ht.record hp⟩

/-- After any history, the status tells of the last attempts that had an outcome, succeeded, and
settled the outputs. A further call that does not succeed leaves the successful commit and the
outputs as they are. -/
theorem status_tells {stack₀ : Stack} (h₀ : s₀.get key = .ok stack₀) (hk : stack₀.key = key)
    (hh : History key s₀ calls s) : ∃ stack, s.get key = .ok stack ∧
      Tells key calls stack₀.status stack.status ∧
      ∀ c s', Call.Runs c key s s' → ¬c.Succeeds key → ∃ stack', s'.get key = .ok stack' ∧
        stack'.status.bind (·.lastSuccessfulCommit) = stack.status.bind (·.lastSuccessfulCommit) ∧
        stack'.status.bind (·.outputs) = stack.status.bind (·.outputs) := by
  obtain ⟨stack, hs, hks, ht⟩ := hh.tells h₀ hk
  refine ⟨stack, hs, ht, fun c s' hc hn => ?_⟩
  rcases hc.cases hs hks with ⟨-, rfl⟩ | ⟨o, now, hp, hs'⟩
  · exact ⟨stack, hs, rfl, rfl⟩
  · exact ⟨_, hs', hp.of_not_succeeds hn⟩

end Histories

/-! ## An update, and one that fails -/

section Histories

variable {k : Keeper} {stack : Stack} {mode : Attempt.Mode} {h : Transcript Surroundings}
  {o : Attempt.Outcome} {s : MemoryStore} {b : Behaviour Surroundings}

/-- The call that consists of an attempt and the record of its outcome. -/
def Call.ofAttempt (k : Keeper) (stack : Stack) (mode : Attempt.Mode) (h : Transcript Surroundings)
    (o : Attempt.Outcome) (now : Timestamp) : Call where
  keeper := k
  exchanges := ⟨.load stack.key, .ok stack⟩ ::
    (h ++ [⟨.now, now⟩, ⟨.save stack.key (.record stack.status o now), .ok ()⟩])
  result := .ok ⟨actionOf mode, .record stack.status o now, some o.verdict, o.error,
    k.requeueAfter stack o.verdict⟩

theorem Call.produces_ofAttempt (hm : modeFor stack = some mode)
    (he : (Attempt.run stack mode k.resolver k.attemptLimit).Ends h (some o)) (now : Timestamp) :
    (Call.ofAttempt k stack mode h o now).Produces stack.key stack o now :=
  ⟨mode, h, .ok (), hm, he, rfl⟩

theorem Call.runs_ofAttempt (hm : modeFor stack = some mode)
    (he : (Attempt.run stack mode k.resolver k.attemptLimit).Ends h (some o))
    (hs : s.get stack.key = .ok stack) (now : Timestamp) :
    (Call.ofAttempt k stack mode h o now).Runs stack.key s
      (s.put stack.key { stack with status := some (.record stack.status o now) }) := by
  have hq := (Attempt.run_apart stack mode k.resolver k.attemptLimit []).of_ends he
  have hload : s.Serves ⟨.load stack.key, .ok stack⟩ s := hs ▸ .load s stack.key
  refine ⟨reconcileKey_ends_iff.2 ⟨.ok stack, _, rfl, ?_⟩, ?_⟩
  · refine (reconcile_ends_iff hm).2 ⟨h, _, some o, rfl, he, ?_⟩
    exact settle_ends_iff.2 ⟨now, .ok (), rfl, rfl⟩
  · refine .cons hload (.append (MemoryStore.servesAll_of_elsewhere s hq) ?_)
    refine .cons (.elsewhere s rfl) (.cons (.save ?_) (.nil _))
    exact MemoryStore.updateStatus_eq_ok_iff.2 ⟨stack, hs, rfl⟩

def updateOutcome (b : Behaviour Surroundings) (stack : Stack) : Attempt.Outcome :=
  ((Attempt.run stack .update default none).result b []).getD default

theorem updateOutcome_ends
    (hr : ((Attempt.run stack .update default none).result b []).isSome = true) :
    (Attempt.run stack .update default none).Ends
      ((Attempt.run stack .update default none).transcript b []) (some (updateOutcome b stack)) := by
  obtain ⟨o, ho⟩ := Option.isSome_iff_exists.1 hr
  have he := Dialogue.ends_transcript b (Attempt.run stack .update default none)
  rw [updateOutcome, ho]
  rwa [ho] at he

/-- The update of a stack where everybody behaves like `b`. -/
def Call.update (b : Behaviour Surroundings) (stack : Stack) : Call :=
  .ofAttempt default stack .update ((Attempt.run stack .update default none).transcript b [])
    (updateOutcome b stack) default

end Histories

def soundStore : MemoryStore := MemoryStore.empty.insert sound

theorem soundStore_get : soundStore.get sound.key = .ok sound := MemoryStore.empty.get_insert sound

def soundStatus : Status := .record sound.status (updateOutcome Surroundings.obliging sound) default

def soundUpdate : Call := .update Surroundings.obliging sound

/-- The stack after its first update. -/
def updated : Stack := { sound with status := some soundStatus }

def updatedStore : MemoryStore := soundStore.put sound.key updated

theorem updatedStore_get : updatedStore.get sound.key = .ok updated :=
  soundStore.get_put sound.key updated

theorem soundUpdate_runs : soundUpdate.Runs sound.key soundStore updatedStore :=
  Call.runs_ofAttempt rfl (updateOutcome_ends rfl) soundStore_get default

theorem soundUpdate_succeeds : soundUpdate.Succeeds sound.key :=
  ⟨sound, _, default, Call.produces_ofAttempt rfl (updateOutcome_ends rfl) default, rfl⟩

theorem soundHistory : History sound.key soundStore [soundUpdate] updatedStore :=
  History.start.call soundUpdate_runs

/-- The next update, for which the source cannot be had. -/
def sourcelessUpdate : Call := .update sourceless updated

def sourcelessStore : MemoryStore :=
  updatedStore.put sound.key
    { updated with status := some (.record updated.status (updateOutcome sourceless updated) default) }

theorem sourcelessUpdate_runs : sourcelessUpdate.Runs sound.key updatedStore sourcelessStore :=
  Call.runs_ofAttempt rfl (updateOutcome_ends rfl) updatedStore_get default

theorem sourcelessUpdate_not_succeeds : ¬sourcelessUpdate.Succeeds sound.key := by
  have hp : sourcelessUpdate.Produces sound.key updated (updateOutcome sourceless updated) default :=
    Call.produces_ofAttempt rfl (updateOutcome_ends rfl) default
  have hv : (updateOutcome sourceless updated).verdict = .failed := rfl
  rw [hp.succeeds_iff, hv]
  nofun

/-- The first update deploys a commit. The second one fails, and the store still names it. -/
theorem status_tells_soundUpdate : soundStore.get sound.key = .ok sound ∧
    History sound.key soundStore [soundUpdate] updatedStore ∧
    Tells sound.key [soundUpdate] sound.status (some soundStatus) ∧
    soundUpdate.Succeeds sound.key ∧ sourcelessUpdate.Runs sound.key updatedStore sourcelessStore ∧
    ¬sourcelessUpdate.Succeeds sound.key ∧
    ∃ stack, sourcelessStore.get sound.key = .ok stack ∧
      stack.status.bind (·.lastSuccessfulCommit) = soundStatus.lastSuccessfulCommit ∧
      stack.status.bind (·.outputs) = soundStatus.outputs := by
  obtain ⟨stack, hs, ht, hnext⟩ := status_tells soundStore_get rfl soundHistory
  obtain rfl : updated = stack := Except.ok.inj (updatedStore_get.symm.trans hs)
  have hlater := hnext sourcelessUpdate _ sourcelessUpdate_runs sourcelessUpdate_not_succeeds
  exact ⟨soundStore_get, soundHistory, ht, soundUpdate_succeeds, sourcelessUpdate_runs,
    sourcelessUpdate_not_succeeds, hlater⟩

end StackKeeper.Keeper

import Mathlib.Data.List.Nodup
import StackKeeper.Keeper.Roster
import StackKeeper.Proofs.Keeper.Rounds
import StackKeeper.Proofs.Keeper.StatusHistory

/-!
# Crews

Workers that are dispatched side by side share a roster and a store in memory. Their exchanges take
turns in any order, and each of them may stop at any moment. Since the roster keeps every stack to
one worker, no status is recorded on another one than the store holds.
-/

namespace StackKeeper.Keeper

open Attempt (isRecord)
open Stack (MemoryStore Status)

namespace Roster

variable {r r' : Roster} {key key' : Stack.Key}

theorem enter?_eq_none_iff : r.enter? key = none ↔ r.contains key = true := by
  unfold enter?
  split <;> simp_all

theorem not_contains_of_enter? (he : r.enter? key = some r') : ¬r.contains key = true := by
  intro hk
  rw [enter?_eq_none_iff.2 hk] at he
  cases he

theorem contains_enter? (he : r.enter? key = some r') :
    r'.contains key' = true ↔ key' = key ∨ r.contains key' = true := by
  unfold enter? at he
  split at he
  · cases he
  · obtain rfl := Option.some.inj he
    simp [contains]

theorem contains_leave :
    (r.leave key).contains key' = true ↔ r.contains key' = true ∧ key' ≠ key := by
  simp [leave, contains]

end Roster

structure Worker where
  key : Stack.Key
  history : Transcript Surroundings
  rest : Dialogue Surroundings (Option (Except Error Reconciled))

structure Crew where
  store : MemoryStore
  roster : Roster
  /-- Those that have started and not left yet. -/
  workers : List Worker

namespace Crew

def idle : Crew := ⟨.empty, .empty, []⟩

def dispatch (c : Crew) (k : Keeper) (key : Stack.Key) (patience : Nat) (allowed : Option Nat) :
    Option Worker × Crew :=
  match c.roster.enter? key with
  | none => (none, c)
  | some roster =>
    let w : Worker := ⟨key, [], k.pursue key patience allowed⟩
    (some w, { c with roster, workers := c.workers ++ [w] })

inductive Event where
  | insert (stack : Stack)
  | dispatch (key : Stack.Key)
  | exchange (key : Stack.Key) (e : Exchange Surroundings)
  | leave (key : Stack.Key)

/-- One step of a crew. A stack may be inserted again, as long as its status is carried over. Any
worker may have its next exchange, and any worker may leave: at its end, or cut off anywhere. As a
worker may be given any patience, the number of its rounds is not bounded. -/
inductive Step (k : Keeper) : Crew → Event → Crew → Prop where
  | insert {c : Crew} (stack : Stack)
      (hs : ∀ held, c.store.get stack.key = .ok held → stack.status = held.status) :
      Step k c (.insert stack) { c with store := c.store.insert stack }
  | dispatch (c : Crew) (key : Stack.Key) (patience : Nat) (allowed : Option Nat) :
      Step k c (.dispatch key) (c.dispatch k key patience allowed).2
  | exchange {c : Crew} (before after : List Worker) {key : Stack.Key}
      {h : Transcript Surroundings} {r : Surroundings.Request}
      {next : Surroundings.Reply r → Dialogue Surroundings (Option (Except Error Reconciled))}
      {reply : Surroundings.Reply r} {s : MemoryStore}
      (hw : c.workers = before ++ ⟨key, h, .ask r next⟩ :: after)
      (hs : c.store.Serves ⟨r, reply⟩ s) :
      Step k c (.exchange key ⟨r, reply⟩)
        { c with store := s, workers := before ++ ⟨key, h ++ [⟨r, reply⟩], next reply⟩ :: after }
  | leave {c : Crew} {before after : List Worker} {w : Worker}
      (hw : c.workers = before ++ w :: after) :
      Step k c (.leave w.key)
        { c with roster := c.roster.leave w.key, workers := before ++ after }

inductive Run (k : Keeper) (c : Crew) : List Event → Crew → Prop where
  | start : Run k c [] c
  | step {events : List Event} {event : Event} {c' c'' : Crew} (hr : Run k c events c')
      (hs : Step k c' event c'') : Run k c (events ++ [event]) c''

def Event.saved? (key : Stack.Key) : Event → Option Status
  | .exchange _ ⟨.save key' status, _⟩ => if key' = key then some status else none
  | _ => none

/-- Statuses that were recorded one on the other. -/
inductive Builds : Option Status → List Status → Option Status → Prop where
  | nil (status : Option Status) : Builds status [] status
  | record {status status' : Option Status} {statuses : List Status} (outcome : Attempt.Outcome)
      (now : Timestamp) (hb : Builds status statuses status') :
      Builds status (statuses ++ [.record status' outcome now])
        (some (.record status' outcome now))

end Crew

/-! ## What every step preserves -/

namespace Worker

variable {s s' : MemoryStore} {key : Stack.Key} {h : Transcript Surroundings}
  {rest rest' : Dialogue Surroundings (Option (Except Error Reconciled))}

/-- Where the worker has loaded its stack and saved nothing since, the store still holds the status
that it has loaded. -/
def UpToDate (w : Worker) (s : MemoryStore) : Prop :=
  ∀ before loaded after, w.history = before ++ ⟨.load w.key, .ok loaded⟩ :: after →
    (∀ e ∈ after, isRecord e.request = false) →
    loaded.key = w.key ∧ ∃ held, s.get w.key = .ok held ∧ held.status = loaded.status

theorem upToDate_start : UpToDate ⟨key, [], rest⟩ s := by
  intro before loaded after heq
  simp at heq

theorem UpToDate.mono {w : Worker} (hw : w.UpToDate s)
    (hs : ∀ held, s.get w.key = .ok held →
      ∃ held', s'.get w.key = .ok held' ∧ held'.status = held.status) : w.UpToDate s' := by
  intro before loaded after heq ha
  obtain ⟨hk, held, hh, hst⟩ := hw before loaded after heq ha
  obtain ⟨held', hh', hst'⟩ := hs held hh
  exact ⟨hk, held', hh', hst'.trans hst⟩

theorem upToDate_load (hs : s.InPlace) {key' : Stack.Key} :
    UpToDate ⟨key, h ++ [⟨.load key', s.get key'⟩], rest⟩ s := by
  intro before loaded after heq ha
  dsimp only at heq ⊢
  rcases eq_of_concat_eq heq with ⟨-, he, -⟩ | ⟨after, rfl, -⟩
  · injection he with hr hreply
    obtain rfl := Surroundings.Request.load.inj hr
    exact ⟨hs key' loaded hreply, loaded, hreply, rfl⟩
  · cases ha _ (List.mem_append_right after (List.mem_singleton_self _))

theorem upToDate_save {key' : Stack.Key} {status : Status} {reply : Except Error Unit} :
    UpToDate ⟨key, h ++ [⟨.save key' status, reply⟩], rest⟩ s := by
  intro before loaded after heq ha
  dsimp only at heq ⊢
  rcases eq_of_concat_eq heq with ⟨-, he, -⟩ | ⟨after, rfl, -⟩
  · cases he
  · cases ha _ (List.mem_append_right after (List.mem_singleton_self _))

theorem UpToDate.elsewhere {e : Exchange Surroundings} (hw : UpToDate ⟨key, h, rest⟩ s)
    (he : isRecord e.request = false) : UpToDate ⟨key, h ++ [e], rest'⟩ s := by
  intro before loaded after heq ha
  dsimp only at heq ⊢
  rcases eq_of_concat_eq heq with ⟨-, rfl, -⟩ | ⟨after, rfl, rfl⟩
  · cases he
  · exact hw before loaded after rfl fun e hm => ha e (List.mem_append_left _ hm)

end Worker

namespace Crew

theorem dispatch_store (c : Crew) (k : Keeper) (key : Stack.Key) (patience : Nat)
    (allowed : Option Nat) : (c.dispatch k key patience allowed).2.store = c.store := by
  unfold dispatch
  split <;> rfl

/-- The roster lists the workers, of whom there is one for a stack, and none has loaded a status that
the store no longer holds. -/
structure Coherent (k : Keeper) (c : Crew) : Prop where
  listed : ∀ key, c.roster.contains key = true ↔ key ∈ c.workers.map Worker.key
  alone : (c.workers.map Worker.key).Nodup
  inPlace : c.store.InPlace
  pursuing : ∀ w ∈ c.workers, ∃ patience allowed,
    (k.pursue w.key patience allowed).Leads w.history w.rest
  upToDate : ∀ w ∈ c.workers, w.UpToDate c.store

variable {k : Keeper} {c c' : Crew} {event : Event} {before after : List Worker} {w : Worker}
  {key : Stack.Key} {h : Transcript Surroundings} {s : MemoryStore} {held : Stack}

theorem coherent_idle : Coherent k idle where
  listed := by simp [idle, Roster.empty, Roster.contains]
  alone := List.nodup_nil
  inPlace := MemoryStore.inPlace_empty
  pursuing := by simp [idle]
  upToDate := by simp [idle]

theorem mem_split {w' : Worker} : w' ∈ before ++ w :: after ↔ w' = w ∨ w' ∈ before ++ after :=
  List.perm_middle.mem_iff.trans List.mem_cons

theorem Coherent.apart (hc : c.Coherent k) (hw : c.workers = before ++ w :: after) :
    w.key ∉ (before ++ after).map Worker.key ∧ ((before ++ after).map Worker.key).Nodup := by
  have ha := hc.alone
  rwa [hw, List.map_append, List.map_cons, List.nodup_middle, List.nodup_cons,
    ← List.map_append] at ha

theorem Coherent.others (hc : c.Coherent k) (hw : c.workers = before ++ w :: after) {w' : Worker}
    (hm : w' ∈ before ++ after) : w' ∈ c.workers ∧ w'.key ≠ w.key := by
  refine ⟨hw ▸ mem_split.2 (.inr hm), fun hk => ?_⟩
  exact (hc.apart hw).1 (hk ▸ List.mem_map_of_mem hm)

/-- What a worker is about to save is a record on the status that the store holds. -/
theorem Coherent.about_to_save (hc : c.Coherent k) (hw : w ∈ c.workers) {status : Status}
    {next : Except Error Unit → Dialogue Surroundings (Option (Except Error Reconciled))}
    (hr : w.rest = .ask (.save key status) next) :
    key = w.key ∧ ∃ held loaded outcome now, c.store.get w.key = .ok held ∧
      k.Attempted w.key w.history loaded outcome now ∧
      status = .record held.status outcome now := by
  obtain ⟨patience, allowed, hl⟩ := hc.pursuing w hw
  rw [hr] at hl
  obtain ⟨loaded, outcome, now, ha, hk, hst⟩ :=
    (k.pursue_warranted w.key patience allowed []).of_leads hl key status rfl
  rw [List.nil_append] at ha
  obtain ⟨before, mode, h₁, -, he, heq⟩ := id ha
  -- Since the stack was loaded, there was only the attempt, which leaves the store alone.
  have hq := (Attempt.run_apart loaded mode _ _ []).of_ends he
  obtain ⟨hkey, held, hheld, hstatus⟩ := hc.upToDate w hw before loaded _ heq fun e hm => by
    rcases List.mem_append.1 hm with hm | hm
    · exact hq e hm
    · obtain rfl := List.mem_singleton.1 hm
      rfl
  exact ⟨hk.trans hkey, held, loaded, outcome, now, hheld, ha, hstatus ▸ hst⟩

/-- What the exchange of a worker does to the store: nothing, or a record for its own stack. -/
theorem Coherent.exchange_cases (hc : c.Coherent k) {r : Surroundings.Request}
    {next : Surroundings.Reply r → Dialogue Surroundings (Option (Except Error Reconciled))}
    {reply : Surroundings.Reply r} (hw : ⟨key, h, .ask r next⟩ ∈ c.workers)
    (hs : c.store.Serves ⟨r, reply⟩ s) :
    (s = c.store ∧ ∀ key', (Event.exchange key ⟨r, reply⟩).saved? key' = none) ∨
    ∃ held outcome now, c.store.get key = .ok held ∧
      r = .save key (.record held.status outcome now) ∧
      s = c.store.put key { held with status := some (.record held.status outcome now) } := by
  cases r with
  | load key' => exact .inl ⟨hs.eq_of_load.1, fun _ => rfl⟩
  | save key' status =>
    obtain ⟨hk, held, -, outcome, now, hheld, -, rfl⟩ := hc.about_to_save hw rfl
    dsimp only at hk hheld
    subst hk
    exact .inr ⟨held, outcome, now, hheld, rfl, (hs.eq_of_save hheld).1⟩
  | _ => exact .inl ⟨hs.eq_of_elsewhere rfl, fun _ => rfl⟩

theorem Coherent.step_status (hc : c.Coherent k) (hs : Step k c event c')
    (hheld : c.store.get key = .ok held) : ∃ held', c'.store.get key = .ok held' ∧
      (event.saved? key = none ∧ held'.status = held.status ∨
        ∃ outcome now, event.saved? key = some (.record held.status outcome now) ∧
          held'.status = some (.record held.status outcome now)) := by
  cases hs with
  | insert stack hs =>
    by_cases hk : key = stack.key
    · subst hk
      exact ⟨stack, c.store.get_insert stack, .inl ⟨rfl, hs held hheld⟩⟩
    · exact ⟨held, (c.store.get_put_of_ne stack hk).trans hheld, .inl ⟨rfl, rfl⟩⟩
  | dispatch key' patience allowed =>
    exact ⟨held, by rwa [dispatch_store], .inl ⟨rfl, rfl⟩⟩
  | @exchange before after key' h r next reply s hw hs =>
    have hm : ⟨key', h, .ask r next⟩ ∈ c.workers := hw ▸ mem_split.2 (.inl rfl)
    rcases hc.exchange_cases hm hs with ⟨rfl, hn⟩ | ⟨held', outcome, now, hheld', rfl, rfl⟩
    · exact ⟨held, hheld, .inl ⟨hn key, rfl⟩⟩
    · by_cases hk : key' = key
      · subst hk
        obtain rfl := Except.ok.inj (hheld.symm.trans hheld')
        refine ⟨_, c.store.get_put key' _, .inr ⟨outcome, now, ?_, rfl⟩⟩
        simp [Event.saved?]
      · refine ⟨held, (c.store.get_put_of_ne _ (Ne.symm hk)).trans hheld, .inl ⟨?_, rfl⟩⟩
        simp [Event.saved?, hk]
  | leave hw => exact ⟨held, hheld, .inl ⟨rfl, rfl⟩⟩

theorem Coherent.carried (hc : c.Coherent k) (hs : Step k c event c')
    (hn : event.saved? key = none) (held : Stack) (hheld : c.store.get key = .ok held) :
    ∃ held', c'.store.get key = .ok held' ∧ held'.status = held.status := by
  obtain ⟨held', hheld', ⟨-, hst⟩ | ⟨outcome, now, he, -⟩⟩ := hc.step_status hs hheld
  · exact ⟨held', hheld', hst⟩
  · rw [hn] at he
    cases he

theorem Coherent.insert (hc : c.Coherent k) (stack : Stack)
    (hs : ∀ held, c.store.get stack.key = .ok held → stack.status = held.status) :
    Coherent k { c with store := c.store.insert stack } where
  listed := hc.listed
  alone := hc.alone
  inPlace := hc.inPlace.put stack
  pursuing := hc.pursuing
  upToDate := fun w hw => (hc.upToDate w hw).mono (hc.carried (.insert stack hs) rfl)

theorem Coherent.dispatch (hc : c.Coherent k) (key : Stack.Key) (patience : Nat)
    (allowed : Option Nat) : Coherent k (c.dispatch k key patience allowed).2 := by
  unfold Crew.dispatch
  split
  · exact hc
  · rename_i roster he
    constructor
    · intro key'
      rw [Roster.contains_enter? he, hc.listed key', List.map_append, List.mem_append]
      simp [or_comm]
    · rw [List.map_append, List.nodup_append]
      refine ⟨hc.alone, List.nodup_singleton _, fun a ha b hb => ?_⟩
      obtain rfl := List.mem_singleton.1 hb
      rintro rfl
      exact Roster.not_contains_of_enter? he ((hc.listed _).2 ha)
    · exact hc.inPlace
    · intro w hw
      rcases List.mem_append.1 hw with hw | hw
      · exact hc.pursuing w hw
      · obtain rfl := List.mem_singleton.1 hw
        exact ⟨patience, allowed, .stay _⟩
    · intro w hw
      rcases List.mem_append.1 hw with hw | hw
      · exact hc.upToDate w hw
      · obtain rfl := List.mem_singleton.1 hw
        exact Worker.upToDate_start

theorem Coherent.leave (hc : c.Coherent k) (hw : c.workers = before ++ w :: after) :
    Coherent k { c with roster := c.roster.leave w.key, workers := before ++ after } where
  listed := by
    intro key'
    rw [Roster.contains_leave, hc.listed, hw, List.mem_map, List.mem_map]
    constructor
    · rintro ⟨⟨w', hm, rfl⟩, hne⟩
      rcases mem_split.1 hm with rfl | hm
      · exact absurd rfl hne
      · exact ⟨w', hm, rfl⟩
    · rintro ⟨w', hm, rfl⟩
      exact ⟨⟨w', mem_split.2 (.inr hm), rfl⟩, (hc.others hw hm).2⟩
  alone := (hc.apart hw).2
  inPlace := hc.inPlace
  pursuing := fun w' hm => hc.pursuing w' (hc.others hw hm).1
  upToDate := fun w' hm => hc.upToDate w' (hc.others hw hm).1

theorem Coherent.upToDate_told (hc : c.Coherent k) {r : Surroundings.Request}
    {next : Surroundings.Reply r → Dialogue Surroundings (Option (Except Error Reconciled))}
    {reply : Surroundings.Reply r} (hw : ⟨key, h, .ask r next⟩ ∈ c.workers)
    (hs : c.store.Serves ⟨r, reply⟩ s) :
    Worker.UpToDate ⟨key, h ++ [⟨r, reply⟩], next reply⟩ s := by
  cases r with
  | load key' =>
    obtain ⟨rfl, rfl⟩ := hs.eq_of_load
    exact Worker.upToDate_load hc.inPlace
  | save key' status => exact Worker.upToDate_save
  | _ =>
    obtain rfl := hs.eq_of_elsewhere rfl
    exact (hc.upToDate _ hw).elsewhere rfl

theorem Coherent.exchange (hc : c.Coherent k) {r : Surroundings.Request}
    {next : Surroundings.Reply r → Dialogue Surroundings (Option (Except Error Reconciled))}
    {reply : Surroundings.Reply r} (hw : c.workers = before ++ ⟨key, h, .ask r next⟩ :: after)
    (hs : c.store.Serves ⟨r, reply⟩ s) :
    Coherent k { c with
      store := s, workers := before ++ ⟨key, h ++ [⟨r, reply⟩], next reply⟩ :: after } := by
  have hmem : ⟨key, h, .ask r next⟩ ∈ c.workers := hw ▸ mem_split.2 (.inl rfl)
  have hkeys : (before ++ ⟨key, h ++ [⟨r, reply⟩], next reply⟩ :: after).map Worker.key =
      c.workers.map Worker.key := by
    rw [hw]
    simp
  have hcases := hc.exchange_cases hmem hs
  constructor
  · intro key'
    rw [hkeys]
    exact hc.listed key'
  · rw [hkeys]
    exact hc.alone
  · rcases hcases with ⟨rfl, -⟩ | ⟨held, outcome, now, hheld, -, rfl⟩
    · exact hc.inPlace
    · obtain rfl := hc.inPlace key held hheld
      exact hc.inPlace.put { held with status := some (.record held.status outcome now) }
  · intro w' hm
    rcases mem_split.1 hm with rfl | hm
    · obtain ⟨patience, allowed, hl⟩ := hc.pursuing _ hmem
      exact ⟨patience, allowed, hl.snoc reply⟩
    · exact hc.pursuing w' (hc.others hw hm).1
  · intro w' hm
    rcases mem_split.1 hm with rfl | ho
    · exact hc.upToDate_told hmem hs
    · -- The others work on other stacks, whose status this exchange does not touch.
      obtain ⟨hm', hne⟩ := hc.others hw ho
      refine (hc.upToDate w' hm').mono (hc.carried (.exchange _ _ hw hs) ?_)
      rcases hcases with ⟨-, hn⟩ | ⟨held, outcome, now, -, rfl, -⟩
      · exact hn w'.key
      · simp [Event.saved?, hne.symm]

theorem Coherent.step (hc : c.Coherent k) (hs : Step k c event c') : c'.Coherent k := by
  cases hs with
  | insert stack hs => exact hc.insert stack hs
  | dispatch key patience allowed => exact hc.dispatch key patience allowed
  | exchange before after hw hs => exact hc.exchange hw hs
  | leave hw => exact hc.leave hw

/-! ## Whole runs -/

theorem Run.coherent {events : List Event} (hr : Run k c events c') (hc : c.Coherent k) :
    c'.Coherent k := by
  induction hr with
  | start => exact hc
  | step _ hs ih => exact ih.step hs

theorem Run.append {events events' : List Event} {c₁ : Crew} (hr : Run k c events c₁)
    (hr' : Run k c₁ events' c') : Run k c (events ++ events') c' := by
  induction hr' with
  | start => rwa [List.append_nil]
  | step _ hs ih => exact List.append_assoc _ _ _ ▸ ih.step hs

/-- A worker can have all those exchanges in a row that the store takes part in. -/
theorem Run.led (before after : List Worker) {h₀ : Transcript Surroundings}
    {d d' : Dialogue Surroundings (Option (Except Error Reconciled))}
    (hw : c.workers = before ++ ⟨key, h₀, d⟩ :: after) (hl : d.Leads h d')
    (hs : c.store.ServesAll h s) : Run k c (h.map (.exchange key))
      { c with store := s, workers := before ++ ⟨key, h₀ ++ h, d'⟩ :: after } := by
  induction hl generalizing c h₀ with
  | stay d =>
    cases hs
    rw [List.append_nil, ← hw]
    exact .start
  | @exchange r next reply h d rest ih =>
    obtain ⟨s₁, he, hs⟩ := hs.cons_inv
    have hfirst := Run.start.step (Step.exchange (k := k) before after hw he)
    have hrest := hfirst.append (ih rfl hs)
    simpa only [List.append_assoc, List.singleton_append, List.nil_append, List.map_cons] using hrest

theorem Run.builds {events : List Event} (hr : Run k c events c') (hc : c.Coherent k)
    (hheld : c.store.get key = .ok held) : ∃ held', c'.store.get key = .ok held' ∧
      Builds held.status (events.filterMap (Event.saved? key)) held'.status := by
  induction hr with
  | start => exact ⟨held, hheld, .nil _⟩
  | step hr hs ih =>
    obtain ⟨held₁, hheld₁, hb⟩ := ih
    obtain ⟨held₂, hheld₂, ⟨hn, hst⟩ | ⟨outcome, now, hsaved, hst⟩⟩ :=
      (hr.coherent hc).step_status hs hheld₁
    · refine ⟨held₂, hheld₂, ?_⟩
      rw [List.filterMap_append, List.filterMap_cons_none hn, List.filterMap_nil, List.append_nil,
        hst]
      exact hb
    · refine ⟨held₂, hheld₂, ?_⟩
      rw [List.filterMap_append, List.filterMap_cons_some hsaved, List.filterMap_nil, hst]
      exact hb.record outcome now

theorem Coherent.step_save (hc : c.Coherent k) {e : Exchange Surroundings}
    (hs : Step k c (.exchange key e) c') {key' : Stack.Key} {status : Status}
    (he : e.request = .save key' status) : key' = key ∧ ∃ w ∈ c.workers, w.key = key ∧
      ∃ held loaded outcome now, c.store.get key = .ok held ∧
        k.Attempted key w.history loaded outcome now ∧
        status = .record held.status outcome now ∧
        c'.store.get key = .ok { held with status := some status } := by
  cases hs with
  | @exchange before after _ h r next reply s hw hs =>
    obtain rfl : r = .save key' status := he
    have hmem : ⟨key, h, .ask (.save key' status) next⟩ ∈ c.workers := hw ▸ mem_split.2 (.inl rfl)
    obtain ⟨hk, held, loaded, outcome, now, hheld, ha, rfl⟩ := hc.about_to_save hmem rfl
    dsimp only at hk hheld ha
    subst hk
    obtain ⟨rfl, -⟩ := hs.eq_of_save hheld
    exact ⟨rfl, _, hmem, rfl, held, loaded, outcome, now, hheld, ha, rfl, c.store.get_put key' _⟩

/-- However its steps take turns, a crew has one worker for each key on its roster and no other
ones, and a key on the roster is not dispatched again. Whatever is saved is the outcome of an
attempt, recorded on the status that the store holds at that moment, so that all statuses saved for
a stack build on each other. -/
theorem run_exclusive_current {events : List Event} (hr : Run k idle events c) :
    (∀ key, c.roster.contains key = true ↔ ∃ w ∈ c.workers, w.key = key) ∧
    (c.workers.map Worker.key).Nodup ∧
    (∀ key patience allowed, c.roster.contains key = true →
      c.dispatch k key patience allowed = (none, c)) ∧
    (∀ key e c', Step k c (.exchange key e) c' → ∀ key' status, e.request = .save key' status →
      key' = key ∧ ∃ w ∈ c.workers, w.key = key ∧ ∃ held loaded outcome now,
        c.store.get key = .ok held ∧ k.Attempted key w.history loaded outcome now ∧
        status = .record held.status outcome now ∧
        c'.store.get key = .ok { held with status := some status }) ∧
    ∀ events' c' key held, Run k c events' c' → c.store.get key = .ok held →
      ∃ held', c'.store.get key = .ok held' ∧
        Builds held.status (events'.filterMap (Event.saved? key)) held'.status := by
  have hc := hr.coherent coherent_idle
  refine ⟨fun key => ?_, hc.alone, fun key patience allowed hk => ?_, ?_, ?_⟩
  · rw [hc.listed key, List.mem_map]
  · unfold dispatch
    rw [Roster.enter?_eq_none_iff.2 hk]
  · exact fun key e c' hs key' status he => hc.step_save hs he
  · exact fun events' c' key held hr' hheld => hr'.builds hc hheld

theorem run_exclusive_current_sound : ∃ events c c', Run default idle events c ∧
    Step default c (.exchange sound.key ⟨.save sound.key soundStatus, .ok ()⟩) c' ∧
    c.roster.contains sound.key = true ∧ c.dispatch default sound.key 1 none = (none, c) ∧
    ∃ held outcome now, c.store.get sound.key = .ok held ∧
      soundStatus = .record held.status outcome now ∧
      c'.store.get sound.key = .ok { held with status := some soundStatus } := by
  let w : Worker := ⟨sound.key, [], pursue default sound.key 1 none⟩
  let busy : Crew := ⟨soundStore, ⟨[sound.key]⟩, [w]⟩
  have hfree : ∀ held, MemoryStore.empty.get sound.key = .ok held → sound.status = held.status := by
    intro held hheld
    cases hheld
  have hbusy : Run default idle [.insert sound, .dispatch sound.key] busy :=
    (Run.start.step (.insert sound hfree)).step (.dispatch _ sound.key 1 none)
  let start : Transcript Surroundings := ⟨.load sound.key, .ok sound⟩ ::
    ((Attempt.run sound .update default none).transcript Surroundings.obliging [] ++
      [⟨.now, (default : Timestamp)⟩])
  have heq : soundUpdate.exchanges = start ++ [⟨.save sound.key soundStatus, .ok ()⟩] := by
    simp [soundUpdate, Call.update, Call.ofAttempt, soundStatus, start]
  obtain ⟨hends, hserved⟩ := soundUpdate_runs
  rw [heq] at hends hserved
  obtain ⟨d, hstart, hsave⟩ := (Dialogue.Leads.bind hends _).split
  obtain ⟨s, hs, hlast⟩ := hserved.split
  obtain ⟨s', hs', -⟩ := hlast.cons_inv
  cases hsave with
  | @exchange _ next _ _ _ _ =>
    let c : Crew := ⟨s, busy.roster, [⟨sound.key, start, .ask (.save sound.key soundStatus) next⟩]⟩
    have hled := Run.led (k := default) (c := busy) [] [] rfl hstart hs
    have hr : Run default idle _ c := hbusy.append hled
    have hstep : Step default c _ _ := .exchange [] [] rfl hs'
    obtain ⟨hroster, -, hrefused, hcurrent, -⟩ := run_exclusive_current hr
    have hlisted := (hroster sound.key).2 ⟨_, List.mem_cons_self, rfl⟩
    obtain ⟨-, -, -, -, held, -, outcome, now, hheld, -, hst, hheld'⟩ :=
      hcurrent sound.key _ _ hstep sound.key soundStatus rfl
    exact ⟨_, c, _, hr, hstep, hlisted, hrefused sound.key 1 none hlisted, held, outcome, now,
      hheld, hst, hheld'⟩

end Crew

end StackKeeper.Keeper

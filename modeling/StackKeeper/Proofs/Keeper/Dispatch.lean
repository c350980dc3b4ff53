import StackKeeper.Keeper.Installation
import StackKeeper.Proofs.Keeper.Crew
import StackKeeper.Proofs.Keeper.Pursuit

/-!
# Workers side by side

Workers for several stacks are started together, and their results are taken in the order of the
stacks. In between the workers have their exchanges in any order, with any replies. No order goes on
forever, and what a worker comes to depends on nothing but the replies to its own requests.
-/

namespace StackKeeper.Keeper

variable {k : Keeper} {patience : Nat} {allowed : Option Nat} {key : Stack.Key}
  {keys : List Stack.Key} {w : Worker} {ws ws' ws'' : List Worker}
  {rs : List (Stack.Key × Except Error Reconciled)} {h : Transcript Surroundings}
  {r : Option (Except Error Reconciled)}

def dispatchAll (k : Keeper) (patience : Nat) (allowed : Option Nat) (keys : List Stack.Key) :
    List Worker :=
  (Roster.empty.enterAll keys).1.map fun key => ⟨key, [], k.pursue key patience allowed⟩

/-- One of the workers has its next exchange. -/
inductive Turn : List Worker → List Worker → Prop where
  | exchange (before after : List Worker) (key : Stack.Key) (h : Transcript Surroundings)
      {r : Surroundings.Request}
      (next : Surroundings.Reply r → Dialogue Surroundings (Option (Except Error Reconciled)))
      (reply : Surroundings.Reply r) :
      Turn (before ++ ⟨key, h, .ask r next⟩ :: after)
        (before ++ ⟨key, h ++ [⟨r, reply⟩], next reply⟩ :: after)

inductive Turns (ws : List Worker) : List Worker → Prop where
  | start : Turns ws ws
  | step {ws' ws'' : List Worker} (hs : Turns ws ws') (ht : Turn ws' ws'') : Turns ws ws''

/-- The results of workers that have all come to an end, in their order. -/
inductive Collects : List Worker → List (Stack.Key × Except Error Reconciled) → Prop where
  | nil : Collects [] []
  | cons {key : Stack.Key} {h : Transcript Surroundings} {x : Except Error Reconciled}
      {ws : List Worker} {rs : List (Stack.Key × Except Error Reconciled)} (hs : Collects ws rs) :
      Collects (⟨key, h, .done (some x)⟩ :: ws) ((key, x) :: rs)

/-! ## Who is dispatched -/

theorem Roster.enterAll_eq {r : Roster} (hn : keys.Nodup)
    (hr : ∀ key ∈ keys, ¬r.contains key = true) : (r.enterAll keys).1 = keys := by
  induction keys generalizing r with
  | nil => rfl
  | cons key keys ih =>
    obtain ⟨hkey, hn⟩ := List.nodup_cons.1 hn
    have he : r.enter? key = some ⟨key :: r.keys⟩ := if_neg (hr key List.mem_cons_self)
    have hrest : ∀ key' ∈ keys, ¬Roster.contains ⟨key :: r.keys⟩ key' = true := by
      intro key' hm hc
      rcases (Roster.contains_enter? he).1 hc with rfl | hc
      · exact hkey hm
      · exact hr key' (List.mem_cons_of_mem key hm) hc
    rw [Roster.enterAll, he]
    exact congrArg (key :: ·) (ih hn hrest)

theorem map_key_dispatchAll (hn : keys.Nodup) :
    (k.dispatchAll patience allowed keys).map Worker.key = keys := by
  have hempty : ∀ key ∈ keys, ¬Roster.empty.contains key = true := by
    simp [Roster.empty, Roster.contains]
  rw [dispatchAll, Roster.enterAll_eq hn hempty, List.map_map]
  exact List.map_id keys

/-! ## Turns -/

theorem Turn.cons (w : Worker) (ht : Turn ws ws') : Turn (w :: ws) (w :: ws') := by
  cases ht with
  | exchange before after key h next reply => exact .exchange (w :: before) after key h next reply

theorem Turn.cases_cons (ht : Turn (w :: ws) ws') :
    (∃ r next reply, w.rest = .ask r next ∧
      ws' = ⟨w.key, w.history ++ [⟨r, reply⟩], next reply⟩ :: ws) ∨
    ∃ ws'', Turn ws ws'' ∧ ws' = w :: ws'' := by
  generalize hws : w :: ws = all at ht
  cases ht with
  | exchange before after key h next reply =>
    cases before with
    | nil =>
      obtain ⟨rfl, rfl⟩ := List.cons.inj hws
      exact .inl ⟨_, next, reply, rfl, rfl⟩
    | cons w' before =>
      obtain ⟨rfl, rfl⟩ := List.cons.inj hws
      exact .inr ⟨_, .exchange before after key h next reply, rfl⟩

theorem Turn.map_key (ht : Turn ws ws') : ws'.map Worker.key = ws.map Worker.key := by
  cases ht with
  | exchange => simp

theorem Turns.map_key (hs : Turns ws ws') : ws'.map Worker.key = ws.map Worker.key := by
  induction hs with
  | start => rfl
  | step _ ht ih => exact ht.map_key.trans ih

/-- The worker is where its own exchanges have led it. -/
def Worker.Pursues (k : Keeper) (patience : Nat) (allowed : Option Nat) (w : Worker) : Prop :=
  (k.pursue w.key patience allowed).Leads w.history w.rest

theorem pursues_of_mem_dispatchAll (hw : w ∈ k.dispatchAll patience allowed keys) :
    w.Pursues k patience allowed := by
  obtain ⟨key, -, rfl⟩ := List.mem_map.1 hw
  exact .stay _

theorem Turn.pursues (ht : Turn ws ws') (hp : ∀ w ∈ ws, w.Pursues k patience allowed) :
    ∀ w ∈ ws', w.Pursues k patience allowed := by
  cases ht with
  | exchange before after key h next reply =>
    simp only [List.forall_mem_append, List.forall_mem_cons] at hp ⊢
    obtain ⟨hbefore, hw, hafter⟩ := hp
    exact ⟨hbefore, Dialogue.Leads.snoc hw reply, hafter⟩

theorem Turns.pursues (hs : Turns ws ws') (hp : ∀ w ∈ ws, w.Pursues k patience allowed) :
    ∀ w ∈ ws', w.Pursues k patience allowed := by
  induction hs with
  | start => exact hp
  | step _ ht ih => exact ht.pursues ih

theorem acc_turn_cons (d : Dialogue Surroundings (Option (Except Error Reconciled)))
    (ha : Acc (fun ws' ws => Turn ws ws') ws) (key : Stack.Key) (h : Transcript Surroundings) :
    Acc (fun ws' ws => Turn ws ws') (⟨key, h, d⟩ :: ws) := by
  -- on what the first worker still asks, and within that on the turns of the others
  induction d generalizing ws h with
  | done r =>
    induction ha with
    | intro ws _ ih =>
      constructor
      intro ws' ht
      rcases ht.cases_cons with ⟨r, next, reply, hd, -⟩ | ⟨ws'', hrest, rfl⟩
      · cases hd
      · exact ih ws'' hrest
  | ask r next ihd =>
    induction ha with
    | intro ws hws ih =>
      constructor
      intro ws' ht
      rcases ht.cases_cons with ⟨r, next, reply, hd, rfl⟩ | ⟨ws'', hrest, rfl⟩
      · cases hd
        exact ihd reply (.intro ws hws) _
      · exact ih ws'' hrest

/-- No order of turns goes on forever. -/
theorem acc_turn (ws : List Worker) : Acc (fun ws' ws => Turn ws ws') ws := by
  induction ws with
  | nil =>
    constructor
    intro ws' ht
    generalize hws : ([] : List Worker) = all at ht
    cases ht with
    | exchange before => simp at hws
  | cons w ws ih => exact acc_turn_cons w.rest ih w.key w.history

theorem exists_done_of_not_turn (hn : ∀ ws', ¬Turn ws ws') (hw : w ∈ ws) :
    ∃ r, w.rest = .done r := by
  obtain ⟨key, h, d⟩ := w
  cases d with
  | done r => exact ⟨r, rfl⟩
  | ask r next =>
    obtain ⟨before, after, rfl⟩ := List.append_of_mem hw
    exact absurd (.exchange before after key h next (Surroundings.obliging [] r)) (hn _)

theorem not_turn_of_done (hd : ∀ w ∈ ws, ∃ r, w.rest = .done r) (ws' : List Worker) :
    ¬Turn ws ws' := by
  intro ht
  cases ht with
  | exchange before after key h next reply =>
    obtain ⟨r, hr⟩ := hd _ (List.mem_append_right before List.mem_cons_self)
    cases hr

/-! ## Results -/

/-- Each of the worker's rounds asked for another one that is allowed, and there were as many as
anyone looked at. -/
def Worker.AsksOn (k : Keeper) (patience : Nat) (allowed : Option Nat) (w : Worker) : Prop :=
  ∃ rounds : List Round, rounds.length = patience ∧ w.history = rounds.flatMap Round.waited ∧
    (∀ round ∈ rounds, round.Of k w.key) ∧
    ∀ i (round : Round), rounds[i]? = some round → ¬round.IsLast allowed (i + 1)

theorem Worker.Pursues.asksOn_iff (hp : w.Pursues k patience allowed)
    (hr : w.rest = .done r) : w.AsksOn k patience allowed ↔ r = none := by
  rw [Worker.Pursues, hr] at hp
  constructor
  · rintro ⟨rounds, hn, hh, hmade, hopen⟩
    have hclose : Close k w.key patience allowed rounds.length [] none := .exhausted hn
    have hnone : (k.pursue w.key patience allowed).Ends w.history none :=
      pursue_ends_iff.2 ⟨rounds, hmade, hopen, [], by rw [hh, List.append_nil], hclose⟩
    exact Dialogue.Ends.unique hp hnone
  · rintro rfl
    obtain ⟨rounds, hmade, hopen, h', hh, hclose⟩ := pursue_ends_iff.1 hp
    cases hclose with
    | exhausted hn => exact ⟨rounds, hn, by rw [hh, List.append_nil], hmade, hopen⟩

theorem not_asksOn {max : Nat} (hpos : 0 < patience) (hmax : max ≤ patience) :
    ¬w.AsksOn k patience (some max) := by
  rintro ⟨rounds, hn, -, -, hopen⟩
  have hlt : patience - 1 < rounds.length := by omega
  have hlast := hopen (patience - 1) _ (List.getElem?_eq_getElem hlt)
  rw [Nat.sub_add_cancel hpos] at hlast
  exact hlast (.inr ⟨max, rfl, hmax⟩)

/-- A worker that has its result would have come to it with more patience. -/
theorem Worker.Pursues.more {more : Nat} {x : Except Error Reconciled}
    (hp : w.Pursues k patience allowed) (hr : w.rest = .done (some x)) (hle : patience ≤ more) :
    w.Pursues k more allowed := by
  rw [Worker.Pursues, hr] at hp ⊢
  obtain ⟨rounds, hmade, hopen, h', hh, hclose⟩ := pursue_ends_iff.1 hp
  refine pursue_ends_iff.2 ⟨rounds, hmade, hopen, h', hh, ?_⟩
  cases hclose with
  | settled hn ho hl => exact .settled (Nat.lt_of_lt_of_le hn hle) ho hl
  | cancelled hn ho hl hd => exact .cancelled (Nat.lt_of_lt_of_le hn hle) ho hl hd

theorem Collects.map_fst (hc : Collects ws rs) : rs.map Prod.fst = ws.map Worker.key := by
  induction hc with
  | nil => rfl
  | cons _ ih => exact congrArg (_ :: ·) ih

theorem Collects.exists_rest (hc : Collects ws rs) : ∀ w ∈ ws, ∃ x, w.rest = .done (some x) := by
  induction hc with
  | nil => exact List.forall_mem_nil _
  | cons _ ih => exact List.forall_mem_cons.2 ⟨⟨_, rfl⟩, ih⟩

theorem exists_collects (hd : ∀ w ∈ ws, ∃ x, w.rest = .done (some x)) : ∃ rs, Collects ws rs := by
  induction ws with
  | nil => exact ⟨[], .nil⟩
  | cons w ws ih =>
    obtain ⟨⟨x, hx⟩, hd⟩ := List.forall_mem_cons.1 hd
    obtain ⟨rs, hc⟩ := ih hd
    obtain ⟨key, h, d⟩ := w
    obtain rfl := hx
    exact ⟨(key, x) :: rs, .cons hc⟩

/-- Where no worker can go on, there are the results exactly if nobody asks on. -/
theorem Turns.exists_collects_iff (hs : Turns (k.dispatchAll patience allowed keys) ws)
    (hn : ∀ ws', ¬Turn ws ws') :
    (∃ rs, Collects ws rs) ↔ ∀ w ∈ ws, ¬w.AsksOn k patience allowed := by
  have hp : ∀ w ∈ ws, w.Pursues k patience allowed :=
    hs.pursues fun w hw => pursues_of_mem_dispatchAll hw
  constructor
  · rintro ⟨rs, hc⟩ w hw
    obtain ⟨x, hx⟩ := hc.exists_rest w hw
    rw [(hp w hw).asksOn_iff hx]
    nofun
  · intro hasks
    refine exists_collects fun w hw => ?_
    obtain ⟨r, hr⟩ := exists_done_of_not_turn hn hw
    obtain ⟨x, rfl⟩ := Option.ne_none_iff_exists'.1 fun hnone =>
      hasks w hw (((hp w hw).asksOn_iff hr).2 hnone)
    exact ⟨x, hr⟩

/-! ## One after the other -/

theorem Turns.trans (hs : Turns ws ws') (hs' : Turns ws' ws'') : Turns ws ws'' := by
  induction hs' with
  | start => exact hs
  | step _ ht ih => exact .step ih ht

theorem Turns.cons (w : Worker) (hs : Turns ws ws') : Turns (w :: ws) (w :: ws') := by
  induction hs with
  | start => exact .start
  | step _ ht ih => exact .step ih (ht.cons w)

theorem Turns.of_leads {d d' : Dialogue Surroundings (Option (Except Error Reconciled))}
    (hd : d.Leads h d') (key : Stack.Key) (h₀ : Transcript Surroundings) (ws : List Worker) :
    Turns (⟨key, h₀, d⟩ :: ws) (⟨key, h₀ ++ h, d'⟩ :: ws) := by
  induction hd generalizing h₀ with
  | stay d =>
    rw [List.append_nil]
    exact .start
  | @exchange r next reply h d' _ ih =>
    have hfirst := Turn.exchange [] ws key h₀ next reply
    have hrest := ih (h₀ ++ [⟨r, reply⟩])
    rw [List.append_assoc, List.singleton_append] at hrest
    exact (Turns.step .start hfirst).trans hrest

theorem Turns.cons_of_leads {d d' : Dialogue Surroundings (Option (Except Error Reconciled))}
    (hd : d.Leads h d') (key : Stack.Key) (hs : Turns ws ws') :
    Turns (⟨key, [], d⟩ :: ws) (⟨key, h, d'⟩ :: ws') :=
  (Turns.of_leads hd key [] ws).trans (hs.cons ⟨key, h, d'⟩)

/-- Workers that come to their ends one after the other. -/
theorem exists_turns_collects (he : ∀ key x, (key, x) ∈ rs → ∃ h,
    (k.pursue key patience allowed).Ends h (some x)) :
    ∃ ws, Turns ((rs.map Prod.fst).map fun key => ⟨key, [], k.pursue key patience allowed⟩) ws ∧
      Collects ws rs := by
  induction rs with
  | nil => exact ⟨[], .start, .nil⟩
  | cons r rs ih =>
    obtain ⟨key, x⟩ := r
    obtain ⟨h, hend⟩ := he key x List.mem_cons_self
    obtain ⟨ws, hs, hc⟩ := ih fun key x hm => he key x (List.mem_cons_of_mem _ hm)
    exact ⟨⟨key, h, .done (some x)⟩ :: ws, hs.cons_of_leads hend key, .cons hc⟩

theorem dispatchAll_collects (hkeys : rs.map Prod.fst = (Roster.empty.enterAll keys).1)
    (he : ∀ key x, (key, x) ∈ rs → ∃ h, (k.pursue key patience allowed).Ends h (some x)) :
    ∃ ws, Turns (k.dispatchAll patience allowed keys) ws ∧ Collects ws rs := by
  rw [dispatchAll, ← hkeys]
  exact exists_turns_collects he

def Worker.result? (w : Worker) : Option (Stack.Key × Except Error Reconciled) :=
  match w.rest with
  | .done r => r.map (w.key, ·)
  | .ask .. => none

theorem Worker.result?_eq_some_iff {x : Except Error Reconciled} :
    w.result? = some (key, x) ↔ w.key = key ∧ w.rest = .done (some x) := by
  unfold result?
  cases w.rest with
  | done r => simp [Option.map_eq_some_iff, and_comm]
  | ask r next => simp

theorem collects_iff : Collects ws rs ↔ (ws.map Worker.result?).mapM id = some rs := by
  constructor
  · intro hc
    induction hc with
    | nil => rfl
    | cons _ ih => simp [Worker.result?, ih]
  · intro hrs
    induction ws generalizing rs with
    | nil =>
      cases hrs
      exact .nil
    | cons w ws ih =>
      rw [List.map_cons, List.mapM_cons] at hrs
      obtain ⟨⟨key, x⟩, hx, hrs⟩ := Option.bind_eq_some_iff.1 hrs
      obtain ⟨rs', hrs', hrs⟩ := Option.bind_eq_some_iff.1 hrs
      cases hrs
      obtain ⟨key', h, d⟩ := w
      obtain ⟨hkey, hrest⟩ := Worker.result?_eq_some_iff.1 hx
      dsimp only at hkey hrest
      subst hkey hrest
      exact .cons (ih hrs')

namespace Installation

variable {i : Installation} {t : Transcript Host}

theorem pursue_ends {r : Option (Except Error Reconciled)}
    (he : (i.pursue k patience allowed key).Ends t r) :
    ∃ h, (k.pursue key patience allowed).Ends h r := by
  obtain ⟨t₁, t₂, a, -, hrelay, ha⟩ := Dialogue.ends_bind_iff.1 he
  obtain ⟨-, rfl⟩ := Dialogue.ends_done_iff.1 ha
  exact Dialogue.ends_of_relayWith hrelay

theorem mapM_pursue_ends {l : List (Option (Stack.Key × Except Error Reconciled))}
    (he : (keys.mapM fun key => do
      return (← i.pursue k patience allowed key).map (key, ·)).Ends t l) :
    ∃ ws, Turns (keys.map fun key => ⟨key, [], k.pursue key patience allowed⟩) ws ∧
      (∀ w ∈ ws, ∃ r, w.rest = .done r) ∧ l = ws.map Worker.result? := by
  induction keys generalizing t l with
  | nil =>
    rw [List.mapM_nil] at he
    obtain ⟨-, rfl⟩ := Dialogue.ends_done_iff.1 he
    exact ⟨[], .start, List.forall_mem_nil _, rfl⟩
  | cons key keys ih =>
    rw [List.mapM_cons] at he
    obtain ⟨t₁, t₂, x, -, hx, hrest⟩ := Dialogue.ends_bind_iff.1 he
    obtain ⟨t₃, t₄, r, -, hr, hpair⟩ := Dialogue.ends_bind_iff.1 hx
    obtain ⟨-, rfl⟩ := Dialogue.ends_done_iff.1 hpair
    obtain ⟨t₅, t₆, l', -, hl, hdone⟩ := Dialogue.ends_bind_iff.1 hrest
    obtain ⟨-, rfl⟩ := Dialogue.ends_done_iff.1 hdone
    obtain ⟨h, hh⟩ := pursue_ends hr
    obtain ⟨ws, hs, hd, rfl⟩ := ih hl
    refine ⟨⟨key, h, .done r⟩ :: ws, hs.cons_of_leads hh key, ?_, rfl⟩
    exact List.forall_mem_cons.2 ⟨⟨r, rfl⟩, hd⟩

/-- The results on a machine, where the workers follow one another, are those of an order of turns
in which nobody is left to go on. -/
theorem pursueAll_ends {results : Option (List (Stack.Key × Except Error Reconciled))}
    (he : (i.pursueAll k patience allowed keys).Ends t results) :
    ∃ ws, Turns (k.dispatchAll patience allowed keys) ws ∧ (∀ ws', ¬Turn ws ws') ∧
      ∀ rs, results = some rs ↔ Collects ws rs := by
  obtain ⟨t₁, t₂, l, -, hl, hdone⟩ := Dialogue.ends_bind_iff.1 he
  obtain ⟨-, rfl⟩ := Dialogue.ends_done_iff.1 hdone
  obtain ⟨ws, hs, hd, rfl⟩ := mapM_pursue_ends hl
  exact ⟨ws, hs, not_turn_of_done hd, fun rs => collects_iff.symm⟩

end Installation

end StackKeeper.Keeper

import StackKeeper.Proofs.Stack.MemoryStore
import StackKeeper.Proofs.Stack.Updates

/-!
# A directory and a memory

A store in a directory answers like a store in memory that was loaded with its stacks, until a
status is recorded that is nested too deep for its manifest to be read back.
-/

namespace StackKeeper.Stack

open FileTree (follow)

/-! ## Calls and answers -/

structure View where
  key : Key
  spec : Spec
  status : Option Status
  isBeingDeleted : Bool

def view (s : Stack) : View := ⟨s.key, s.spec, s.status, s.isBeingDeleted⟩

inductive Call where
  | get (k : Key)
  | updateStatus (k : Key) (status : Status)
  | list

inductive Answer where
  | stack (result : Except Error View)
  | updated (result : Except Error Unit)
  | keys (result : Except Error (List Key))

def Call.key? : Call → Option Key
  | get k => some k
  | updateStatus k _ => some k
  | list => none

def FileStore.answer (s : FileStore) : Call → Host.Talk Answer
  | .get k => return .stack ((← s.get k).map view)
  | .updateStatus k status => return .updated (← s.updateStatus k status)
  | .list => return .keys (← s.list)

def MemoryStore.answer (s : MemoryStore) : Call → Answer × MemoryStore
  | .get k => (.stack ((s.get k).map view), s)
  | .updateStatus k status =>
    match s.updateStatus k status with
    | .ok s' => (.updated (.ok ()), s')
    | .error e => (.updated (.error e), s)
  | .list => (.keys (.ok s.list), s)

namespace MemoryStore

variable {s s' : MemoryStore} {k : Key} {status : Status}

theorem answer_of_ok (h : s.updateStatus k status = .ok s') :
    s.answer (.updateStatus k status) = (.updated (.ok ()), s') := by
  simp only [answer, h]

theorem answer_of_error {e : Error} (h : s.updateStatus k status = .error e) :
    s.answer (.updateStatus k status) = (.updated (.error e), s) := by
  simp only [answer, h]

end MemoryStore

def FileStore.answers (s : FileStore) : List Call → Rehearsal → List Answer
  | [], _ => []
  | c :: calls, m => (m.play (s.answer c)).1 :: s.answers calls (m.play (s.answer c)).2

def MemoryStore.answers : List Call → MemoryStore → List Answer
  | [], _ => []
  | c :: calls, s => (s.answer c).1 :: answers calls (s.answer c).2

/-! ## Loading -/

namespace FileStore

variable {s : FileStore} {k k' : Key} {m : Rehearsal} {stack : Stack} {store : MemoryStore}

/-- The directory of a store with manifests of stacks without floating-point numbers. -/
structure Holds (s : FileStore) (m : Rehearsal) : Prop extends s.StandsOn m where
  decodes : ∀ k ∈ s.keys m, ∃ stack, (m.play (s.get k)).1 = .ok stack ∧ stack.FloatFree

def loadAll (s : FileStore) (m : Rehearsal) (keys : List Key) (store : MemoryStore) : MemoryStore :=
  keys.foldl (fun store k =>
    match (m.play (s.get k)).1 with
    | .ok stack => store.insert stack
    | .error _ => store) store

/-- A store in memory, loaded with all stacks of a store in a directory. -/
def load (s : FileStore) (m : Rehearsal) : MemoryStore :=
  match (m.play s.list).1 with
  | .ok keys => s.loadAll m keys .empty
  | .error _ => .empty

theorem keeps_of_get (hget : (m.play (s.get k)).1 = .ok stack) (hfree : stack.FloatFree) :
    s.Keeps k stack := by
  rw [play_get] at hget
  unfold judged at hget
  split at hget
  · cases hget
  · cases hget
  · split at hget
    · exact (keeps_of_ofText hget hfree).1
    · cases hget

theorem load_eq (hs : s.StandsOn m) :
    s.load m = s.loadAll m ((s.keys m).mergeSort Key.le) .empty := by
  unfold load
  rw [play_list hs]

theorem nodup_loadAll {keys : List Key} (hstore : (store.entries.map (·.1)).Nodup) :
    ((s.loadAll m keys store).entries.map (·.1)).Nodup := by
  induction keys generalizing store with
  | nil => exact hstore
  | cons k keys ih =>
    unfold loadAll
    rw [List.foldl_cons]
    apply ih
    split
    · exact MemoryStore.nodup_put hstore _ _
    · exact hstore

theorem get_loadAll {keys : List Key}
    (hkeys : ∀ k ∈ keys, ∃ stack, (m.play (s.get k)).1 = .ok stack ∧ stack.FloatFree) (k : Key) :
    (s.loadAll m keys store).get k = if k ∈ keys then (m.play (s.get k)).1 else store.get k := by
  induction keys generalizing store with
  | nil => rfl
  | cons k' keys ih =>
    obtain ⟨stack, hget, hfree⟩ := hkeys k' List.mem_cons_self
    have hkey : stack.key = k' := (keeps_of_get hget hfree).key_eq
    have hstep : s.loadAll m (k' :: keys) store = s.loadAll m keys (store.put k' stack) := by
      unfold loadAll
      rw [List.foldl_cons, hget]
      change keys.foldl _ (store.put stack.key stack) = _
      rw [hkey]
    rw [hstep, ih fun k hk => hkeys k (List.mem_cons_of_mem _ hk)]
    by_cases hk : k = k'
    · subst hk
      rw [if_pos List.mem_cons_self, MemoryStore.get_put, hget]
      exact ite_self _
    · simp only [List.mem_cons, hk, false_or, MemoryStore.get_put_of_ne store stack hk]

/-! ## One call -/

theorem view_toSeconds (stack : Stack) : stack.toSeconds.view = stack.view := by
  simp [view, toSeconds, Metadata.toSeconds, Stack.key, isBeingDeleted]

/-- A call for whose key there is room, with a status that can be kept. -/
def Admitted (s : FileStore) (m : Rehearsal) : Call → Prop
  | .get k => s.Admits m k
  | .updateStatus k status => s.Admits m k ∧ status.Sound
  | .list => True

/-- A call that leaves the manifest of a key nested too deep to be read. -/
def Spoils (s : FileStore) (m : Rehearsal) : Call → Key → Prop
  | .updateStatus k status, k' => k' = k ∧ k ∈ s.keys m ∧ ¬status.Shallow
  | _, _ => False

/-- Both stores have the stacks that were there in the beginning, but some manifests are nested too
deep to be read. -/
structure Agrees (s : FileStore) (m₀ m : Rehearsal) (store : MemoryStore) (spoilt : Key → Prop) :
    Prop extends s.StandsOn m where
  admits : ∀ k, s.Admits m₀ k → s.Admits m k
  mem_keys : ∀ k, k ∈ s.keys m ↔ k ∈ s.keys m₀
  nodup : (store.entries.map (·.1)).Nodup
  mem_iff : ∀ k, k ∈ store.entries.map (·.1) ↔ k ∈ s.keys m₀
  readable : ∀ k held, s.Admits m₀ k → store.get k = .ok held → ¬spoilt k →
    ∃ stack, (m.play (s.get k)).1 = .ok stack ∧ s.Keeps k stack ∧ stack.view = held.view
  unreadable : ∀ k, s.Admits m₀ k → spoilt k →
    k ∈ s.keys m₀ ∧ (m.play (s.get k)).1 = .error (s.overfull k)

theorem play_answer_get (s : FileStore) (k : Key) (m : Rehearsal) :
    m.play (s.answer (.get k)) = (.stack ((m.play (s.get k)).1.map view), m) := by
  refine (play_bind _ _ m).trans ?_
  rw [play_get]
  rfl

theorem play_answer_updateStatus (s : FileStore) (k : Key) (status : Status) (m : Rehearsal) :
    m.play (s.answer (.updateStatus k status)) =
      (.updated (m.play (s.updateStatus k status)).1, (m.play (s.updateStatus k status)).2) :=
  play_bind _ _ m

theorem play_answer_list (hs : s.StandsOn m) :
    m.play (s.answer .list) = (.keys (.ok ((s.keys m).mergeSort Key.le)), m) := by
  refine (play_bind _ _ m).trans ?_
  rw [play_list hs]
  rfl

namespace Agrees

variable {m₀ : Rehearsal} {spoilt : Key → Prop} {c : Call} {status : Status} {held : Stack}
  {t : FileTree} {mode : Host.Mode}

section Answers

variable (ha : s.Agrees m₀ m store spoilt)
include ha

theorem list_eq : (s.keys m).mergeSort Key.le = store.list := by
  refine Key.mergeSort_eq (nodup_keys ha.toStandsOn) ha.nodup fun k => ?_
  rw [ha.mem_keys, ha.mem_iff]

variable (hk : s.Admits m₀ k)
include hk

theorem get_absent (habsent : k ∉ s.keys m₀) :
    (m.play (s.get k)).1 = .error (missing k) ∧ store.get k = .error (missing k) := by
  have hk' := ha.admits k hk
  constructor
  · apply get_of_absent ha.toStandsOn hk'
    by_cases hat : m.tree.at? (s.place m.here k) = none
    · exact hat
    · rw [hk'.place_eq] at hat
      have hmem := (mem_keys_iff ha.toStandsOn).2 ⟨hk'.nonempty, hat⟩
      exact absurd ((ha.mem_keys k).1 hmem) habsent
  · apply MemoryStore.get_of_not_mem
    rwa [ha.mem_iff]

theorem get_cases (hfree : ¬spoilt k) :
    (∃ stack held, (m.play (s.get k)).1 = .ok stack ∧ s.Keeps k stack ∧
      store.get k = .ok held ∧ stack.view = held.view ∧ k ∈ s.keys m₀) ∨
    (m.play (s.get k)).1 = .error (missing k) ∧ store.get k = .error (missing k) ∧
      k ∉ s.keys m₀ := by
  by_cases hmem : k ∈ s.keys m₀
  · obtain ⟨held, hheld⟩ := MemoryStore.mem_keys_iff.1 ((ha.mem_iff k).2 hmem)
    obtain ⟨stack, hget, hkeeps, hview⟩ := ha.readable k held hk hheld hfree
    exact .inl ⟨stack, held, hget, hkeeps, hheld, hview, hmem⟩
  · obtain ⟨hget, hheld⟩ := ha.get_absent hk hmem
    exact .inr ⟨hget, hheld, hmem⟩

theorem answer_ne (hspoilt : spoilt k) (hc : c.key? = some k) :
    (m.play (s.answer c)).1 ≠ (store.answer c).1 := by
  obtain ⟨hmem, hget⟩ := ha.unreadable k hk hspoilt
  obtain ⟨held, hheld⟩ := MemoryStore.mem_keys_iff.1 ((ha.mem_iff k).2 hmem)
  cases c with
  | get k' =>
    obtain rfl : k' = k := Option.some.inj hc
    rw [play_answer_get, hget]
    change Answer.stack _ ≠ Answer.stack ((store.get k').map view)
    rw [hheld]
    simp [Except.map]
  | updateStatus k' status =>
    obtain rfl : k' = k := Option.some.inj hc
    have hstore : store.updateStatus k' status = .ok (store.put k' (held.withStatus status)) :=
      MemoryStore.updateStatus_eq_ok_iff.2 ⟨held, hheld, rfl⟩
    rw [play_answer_updateStatus, play_updateStatus_error hget, MemoryStore.answer_of_ok hstore]
    simp
  | list => cases hc

end Answers

theorem update (ha : s.Agrees m₀ m store spoilt) (hk : s.Admits m₀ k) (hfree : ¬spoilt k)
    (hstatus : status.Sound) (hkeeps : s.Keeps k stack) (hheld : store.get k = .ok held)
    (hview : stack.view = held.view) (htouch : s.Touches m k t)
    (hat : t.at? (s.place m.here k) = some (.file (manifest (stack.withStatus status)) mode)) :
    s.Agrees m₀ { m with tree := t } (store.put k (held.withStatus status))
      fun k' => spoilt k' ∨ s.Spoils m₀ (.updateStatus k status) k' := by
  have hmem : k ∈ s.keys m₀ := (ha.mem_iff k).1 (MemoryStore.mem_keys_iff.2 ⟨held, hheld⟩)
  have hfits := hk.toFits
  have hs' := htouch.standsOn hfits ha.toStandsOn
  have hadmits : ∀ k', s.Admits m₀ k' → s.Admits { m with tree := t } k' :=
    fun k' hk' => htouch.admits hfits (ha.admits k' hk')
  -- other keys are as they were
  have hother : ∀ k', s.Admits m₀ k' → k' ≠ k →
      (({ m with tree := t } : Rehearsal).play (s.get k')).1 = (m.play (s.get k')).1 := by
    intro k' hk' hne
    exact get_congr ha.toStandsOn (ha.admits k' hk') hs' (hadmits k' hk') rfl
      (htouch.at?_place hfits hk'.toFits hne)
  obtain ⟨hshallow, hdeep⟩ := get_of_status hs' (hadmits k hk) hkeeps hstatus hat
  refine ⟨hs', hadmits, ?_, MemoryStore.nodup_put ha.nodup _ _, ?_, ?_, ?_⟩
  · intro k'
    rw [htouch.mem_keys_iff hfits ha.toStandsOn, ha.mem_keys]
  · intro k'
    rw [MemoryStore.mem_keys_put, ha.mem_iff]
    exact or_iff_right_of_imp fun heq => heq ▸ hmem
  · intro k' held' hk' hheld' hfree'
    obtain ⟨hold, hnew⟩ := not_or.1 hfree'
    by_cases hne : k' = k
    · have h : status.Shallow := by
        by_cases h : status.Shallow
        · exact h
        · exact absurd ⟨hne, hmem, h⟩ hnew
      rw [hne] at hheld' ⊢
      rw [MemoryStore.get_put] at hheld'
      rw [hshallow h, ← Except.ok.inj hheld']
      refine ⟨_, rfl, (hkeeps.withStatus hstatus).toSeconds, (view_toSeconds _).trans ?_⟩
      exact congrArg (fun v : View => { v with status := some status }) hview
    · rw [hother k' hk' hne]
      rw [MemoryStore.get_put_of_ne store _ hne] at hheld'
      exact ha.readable k' held' hk' hheld' hold
  · intro k' hk' hspoilt
    by_cases hne : k' = k
    · rw [hne] at hspoilt ⊢
      obtain ⟨-, -, h⟩ := hspoilt.resolve_left hfree
      exact ⟨hmem, hdeep h⟩
    · rw [hother k' hk' hne]
      exact ha.unreadable k' hk' (hspoilt.resolve_right fun h => hne h.1)

/-- A call on what is not spoilt has the same answer from both stores, and they go on alike. -/
theorem step (ha : s.Agrees m₀ m store spoilt) (hc : s.Admitted m₀ c)
    (hfree : ∀ k, c.key? = some k → ¬spoilt k) :
    (m.play (s.answer c)).1 = (store.answer c).1 ∧
      s.Agrees m₀ (m.play (s.answer c)).2 (store.answer c).2
        fun k => spoilt k ∨ s.Spoils m₀ c k := by
  cases c with
  | get k =>
    rw [play_answer_get]
    refine ⟨congrArg Answer.stack ?_, by simpa [Spoils, MemoryStore.answer] using ha⟩
    rcases ha.get_cases hc (hfree k rfl) with ⟨stack, held, hget, -, hheld, hview, -⟩ |
      ⟨hget, hheld, -⟩
    · rw [hget, hheld]
      exact congrArg Except.ok hview
    · rw [hget, hheld]
  | updateStatus k status =>
    obtain ⟨hk, hstatus⟩ := hc
    rw [play_answer_updateStatus]
    rcases ha.get_cases hk (hfree k rfl) with ⟨stack, held, hget, hkeeps, hheld, hview, hmem⟩ |
      ⟨hget, hheld, hmem⟩
    · obtain ⟨t, mode, hplay, htouch, hat⟩ :=
        play_updateStatus_ok ha.toStandsOn (ha.admits k hk) hget status
      have hstore : store.updateStatus k status = .ok (store.put k (held.withStatus status)) :=
        MemoryStore.updateStatus_eq_ok_iff.2 ⟨held, hheld, rfl⟩
      rw [hplay, MemoryStore.answer_of_ok hstore]
      exact ⟨rfl, ha.update hk (hfree k rfl) hstatus hkeeps hheld hview htouch hat⟩
    · have hstore : store.updateStatus k status = .error (missing k) := by
        unfold MemoryStore.updateStatus
        rw [hheld]
        rfl
      rw [play_updateStatus_error hget, MemoryStore.answer_of_error hstore]
      refine ⟨rfl, ?_⟩
      -- a status without a stack is refused, so it spoils no manifest
      have hsame : ∀ k', (spoilt k' ∨ s.Spoils m₀ (.updateStatus k status) k') = spoilt k' := by
        intro k'
        simp [Spoils, hmem]
      simpa only [hsame] using ha
  | list =>
    rw [play_answer_list ha.toStandsOn]
    refine ⟨?_, by simpa [Spoils, MemoryStore.answer] using ha⟩
    rw [ha.list_eq]
    rfl

/-- Along a run the answers are the same until a call comes to what is spoilt. -/
theorem run_iff {calls : List Call} (ha : s.Agrees m₀ m store spoilt)
    (hcalls : ∀ c ∈ calls, s.Admitted m₀ c) :
    s.answers calls m = store.answers calls ↔
      (∀ c ∈ calls, ∀ k, c.key? = some k → ¬spoilt k) ∧
        calls.Pairwise fun a b => ∀ k, b.key? = some k → ¬s.Spoils m₀ a k := by
  induction calls generalizing m store spoilt with
  | nil => simp [answers, MemoryStore.answers]
  | cons c calls ih =>
    have hc := hcalls c List.mem_cons_self
    have hrest : ∀ c ∈ calls, s.Admitted m₀ c := fun c hc => hcalls c (List.mem_cons_of_mem _ hc)
    rw [answers, MemoryStore.answers, List.cons.injEq, List.forall_mem_cons, List.pairwise_cons]
    -- what is spoilt only grows, so the answers part at the first call that comes to it
    by_cases hfree : ∀ k, c.key? = some k → ¬spoilt k
    · obtain ⟨hsame, hnext⟩ := ha.step hc hfree
      have hsplit : (∀ b ∈ calls, ∀ k, b.key? = some k → ¬(spoilt k ∨ s.Spoils m₀ c k)) ↔
          (∀ b ∈ calls, ∀ k, b.key? = some k → ¬spoilt k) ∧
            ∀ b ∈ calls, ∀ k, b.key? = some k → ¬s.Spoils m₀ c k := by
        grind
      rw [ih hnext hrest, hsplit, and_assoc, and_iff_right hsame, and_iff_right hfree]
    · refine iff_of_false (fun hsame => ?_) fun h => hfree h.1.1
      obtain ⟨k, hk⟩ := Classical.not_forall.1 hfree
      obtain ⟨hkey, hspoilt⟩ := Classical.not_imp.1 hk
      have hadmits : s.Admits m₀ k := by
        cases c with
        | get k' => exact Option.some.inj hkey ▸ hc
        | updateStatus k' status => exact Option.some.inj hkey ▸ hc.1
        | list => cases hkey
      exact ha.answer_ne hadmits (Classical.not_not.1 hspoilt) hkey hsame.1

end Agrees

/-! ## Runs -/

theorem Holds.agrees (hs : s.Holds m) : s.Agrees m m (s.load m) fun _ => False := by
  have hsorted : ∀ k, k ∈ (s.keys m).mergeSort Key.le ↔ k ∈ s.keys m :=
    fun k => List.mem_mergeSort
  have hload : ∀ k, (s.load m).get k =
      if k ∈ s.keys m then (m.play (s.get k)).1 else .error (missing k) := by
    intro k
    rw [load_eq hs.toStandsOn, get_loadAll fun k hk => hs.decodes k ((hsorted k).1 hk)]
    simp only [hsorted]
    rfl
  refine ⟨hs.toStandsOn, fun k hk => hk, fun k => Iff.rfl, ?_, ?_, ?_, nofun⟩
  · rw [load_eq hs.toStandsOn]
    exact nodup_loadAll .nil
  · intro k
    rw [MemoryStore.mem_keys_iff, hload]
    by_cases hk : k ∈ s.keys m
    · obtain ⟨stack, hget, -⟩ := hs.decodes k hk
      rw [if_pos hk]
      exact iff_of_true ⟨stack, hget⟩ hk
    · rw [if_neg hk]
      refine iff_of_false ?_ hk
      rintro ⟨stack, hget⟩
      cases hget
  · intro k held hk hheld _
    rw [hload] at hheld
    split at hheld
    next hmem =>
      obtain ⟨stack, hget, hfree⟩ := hs.decodes k hmem
      obtain rfl : stack = held := Except.ok.inj (hget.symm.trans hheld)
      exact ⟨stack, hget, keeps_of_get hget hfree, rfl⟩
    · cases hheld

/-- A store in a directory answers like one in memory that was loaded with its stacks, exactly until
a call comes to a key whose status was made too deep before. -/
theorem answers_eq_iff {calls : List Call} (hs : s.Holds m)
    (hcalls : ∀ c ∈ calls, s.Admitted m c) :
    s.answers calls m = (s.load m).answers calls ↔
      calls.Pairwise fun a b => ∀ k, b.key? = some k → ¬s.Spoils m a k := by
  rw [hs.agrees.run_iff hcalls]
  simp

/-! ## A machine with one manifest -/

def unseen : Stack where
  apiVersion := resourceKind.apiVersion
  kind := resourceKind.name
  metadata := { Metadata.empty with «namespace» := some "infra", name := some "app" }
  spec := default
  status := none

def bench : Rehearsal :=
  { (default : Rehearsal) with
    tree := ⟨[(["stacks"], .directory), (["stacks", "infra"], .directory),
      (["stacks", "infra", "app.json"], .file (manifest unseen) .default)]⟩ }

theorem keeps_unseen : shelf.Keeps ⟨"infra", "app"⟩ unseen where
  registered := by decide
  kind := rfl
  sound := ⟨⟨nofun, nofun, nofun, nofun, nofun⟩, nofun⟩
  placed := rfl

theorem mem_bench {l : Location} {x : FileTree.Thing} (h : bench.tree.at? l = some x)
    (hl : l ≠ []) : (l, x) ∈ bench.tree.things := by
  rw [FileTree.at?_eq_lookup _ hl] at h
  exact mem_of_lookup h

theorem standsOn_bench : shelf.StandsOn bench where
  wellFormed := by
    apply FileTree.wellFormed_of_things
    · decide
    · have hnames : ∀ n ∈ ["stacks", "infra", "app.json"], FileTree.IsName n := by
        simp only [List.forall_mem_cons]
        exact ⟨⟨by decide, by decide, by decide, by decide⟩,
          ⟨by decide, by decide, by decide, by decide⟩,
          ⟨by decide, by decide, by decide, by decide⟩, nofun⟩
      have hsub : ∀ e ∈ bench.tree.things, e.1 ⊆ ["stacks", "infra", "app.json"] := by
        simp [bench]
      exact fun e he n hn => hnames n (hsub e he hn)
    · simp only [bench, List.forall_mem_cons]
      exact ⟨rfl, rfl, rfl, nofun⟩
  root := rfl
  folders := by
    intro ns hfolder
    have hmem : (["stacks", ns], FileTree.Thing.directory) ∈ bench.tree.things :=
      mem_bench hfolder (by simp)
    obtain rfl : ns = "infra" := by simpa [bench] using hmem
    rfl

theorem admits_bench : shelf.Admits bench ⟨"infra", "app"⟩ := by
  refine ⟨⟨⟨by decide, by decide, by decide, by decide⟩, by decide, by decide, by decide, by decide,
    by decide, by decide⟩, ?_, ?_⟩
  · intro x hx
    have hfolder : bench.tree.at? ["stacks", "infra"] = some .directory := rfl
    exact Option.some.inj (hx.symm.trans hfolder)
  · have hdraft : bench.tree.at? (shelf.draftPlace bench.here ⟨"infra", "app"⟩) = none := rfl
    rw [hdraft]
    nofun

theorem holds_bench : shelf.Holds bench where
  toStandsOn := standsOn_bench
  decodes := by
    intro k hk
    obtain ⟨-, hat⟩ := (mem_keys_iff standsOn_bench).1 hk
    obtain ⟨x, hx⟩ := Option.ne_none_iff_exists'.1 hat
    have hmem : (["stacks", k.namespace, k.name ++ ".json"], x) ∈ bench.tree.things :=
      mem_bench hx (by simp)
    have hnames : k.namespace = "infra" ∧ k.name ++ ".json" = "app" ++ ".json" := by
      simp [bench] at hmem
      exact hmem.1
    obtain rfl : k = ⟨"infra", "app"⟩ := by
      rw [Key.mk.injEq]
      exact ⟨hnames.1, (String.append_left_inj _).1 hnames.2⟩
    have hget : (bench.play (shelf.get ⟨"infra", "app"⟩)).1 =
        shelf.ofText ⟨"infra", "app"⟩ (Json.pretty unseen.encode) :=
      get_of_manifest standsOn_bench admits_bench rfl
    rw [keeps_unseen.ofText_pretty nofun] at hget
    exact ⟨_, hget, nofun, nofun⟩

/-- A value within a number of lists. -/
def boxed : Nat → Json
  | 0 => .null
  | n + 1 => .array [boxed n]

@[simp] theorem depth_boxed (n : Nat) : (boxed n).depth = n := by
  induction n with
  | zero => rfl
  | succ n ih => simp [boxed, Json.depth, Json.depthItems, ih]

theorem canonical_boxed (n : Nat) : (boxed n).canonical = boxed n := by
  induction n with
  | zero => rfl
  | succ n ih => simp [boxed, Json.canonical, Json.canonicalItems, ih]

theorem numbers_boxed (n : Nat) : (boxed n).numbers = [] := by
  induction n with
  | zero => rfl
  | succ n ih => simp [boxed, Json.numbers, Json.numbersItems, ih]

def boxing (n : Nat) : Status := ⟨some ⟨[("x", boxed n)], by simp⟩, none⟩

theorem sound_boxing (n : Nat) : (boxing n).Sound := by
  constructor
  · simp [boxing, canonical_boxed]
  · simp [boxing, Json.Whole, numbers_boxed]
  · simp [boxing]

theorem shallow_boxing (n : Nat) : (boxing n).Shallow ↔ n ≤ 124 := by
  simp [boxing, Status.Shallow, Json.maxDepth]

def trial (n : Nat) : List Call :=
  [.updateStatus ⟨"infra", "app"⟩ (boxing n), .get ⟨"infra", "app"⟩, .list]

theorem admitted_trial (n : Nat) : ∀ c ∈ trial n, shelf.Admitted bench c := by
  simp only [trial, List.forall_mem_cons]
  exact ⟨⟨admits_bench, sound_boxing n⟩, admits_bench, trivial, nofun⟩

theorem answers_eq_boxing : shelf.Holds bench ∧ (∀ c ∈ trial 124, shelf.Admitted bench c) ∧
    shelf.answers (trial 124) bench = (shelf.load bench).answers (trial 124) := by
  refine ⟨holds_bench, admitted_trial 124, ?_⟩
  rw [answers_eq_iff holds_bench (admitted_trial 124)]
  have hshallow : (boxing 124).Shallow := (shallow_boxing 124).2 (Nat.le_refl 124)
  simp [trial, Spoils, hshallow]

theorem answers_ne_boxing : shelf.Holds bench ∧ (∀ c ∈ trial 125, shelf.Admitted bench c) ∧
    shelf.answers (trial 125) bench ≠ (shelf.load bench).answers (trial 125) := by
  refine ⟨holds_bench, admitted_trial 125, fun heq => ?_⟩
  obtain ⟨-, hpairwise⟩ := (holds_bench.agrees.run_iff (admitted_trial 125)).1 heq
  have hdeep : ¬(boxing 125).Shallow := fun h => absurd ((shallow_boxing 125).1 h) (by decide)
  have hmem : ⟨"infra", "app"⟩ ∈ shelf.keys bench := by
    rw [mem_keys_iff standsOn_bench]
    exact ⟨by decide, by decide⟩
  exact (List.pairwise_cons.1 hpairwise).1 _ List.mem_cons_self _ rfl ⟨rfl, hmem, hdeep⟩

end FileStore

end StackKeeper.Stack

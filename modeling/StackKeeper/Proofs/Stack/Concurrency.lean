import StackKeeper.Proofs.Stack.Refinement

/-!
# Updates that take turns

The updates of a store take turns, and each of them is over or stopped before the next one begins.
Whatever fails in between, a stack has the status of the last update whose manifest took its place:
that is what a reader finds at any moment, unless the status is nested too deep to be read.
-/

namespace StackKeeper

/-! ## Machines that fail -/

/-- What a machine can reply when its file operations can fail. A file that could not be moved is
where it was, one that could not be written can hold anything. -/
inductive Rehearsal.Replies (m : Rehearsal) :
    (r : Host.Request) → Host.Reply r → Rehearsal → Prop where
  | answered (r : Host.Request) : Replies m r (answer r m).1 (answer r m).2
  | unread (path : String) (fault : Host.Fault) : Replies m (.readFile path) (.error fault) m
  | unwritten (path : String) (content : Bytes) (mode : Host.Mode) (fault : Host.Fault) :
    Replies m (.writeFile path content mode) (.error fault) m
  | torn {path : String} {part : Bytes} {mode : Host.Mode} {t : FileTree} (content : Bytes)
    (fault : Host.Fault) (hw : m.tree.write m.here path part mode = .ok t) :
    Replies m (.writeFile path content mode) (.error fault) { m with tree := t }
  | unmoved (source target : String) (fault : Host.Fault) :
    Replies m (.rename source target) (.error fault) m

/-- A dialogue with a machine that can fail. -/
inductive Rehearsal.Plays {α : Type} : Rehearsal → Host.Talk α → α → Rehearsal → Prop where
  | done (m : Rehearsal) (a : α) : Plays m (.done a) a m
  | ask {m m' m'' : Rehearsal} {r : Host.Request} {next : Host.Reply r → Host.Talk α}
    {reply : Host.Reply r} {a : α} (hr : m.Replies r reply m') (hp : Plays m' (next reply) a m'') :
    Plays m (.ask r next) a m''

namespace Rehearsal

variable {m m' : Rehearsal} {path source target : String} {content : Bytes} {mode : Host.Mode}

theorem changed_cases (m : Rehearsal) (t : Except Host.Fault FileTree) :
    (∃ tree, t = .ok tree ∧ m.changed t = (.ok (), { m with tree })) ∨
      ∃ fault, t = .error fault ∧ m.changed t = (.error fault, m) := by
  cases t with
  | ok tree => exact .inl ⟨tree, rfl, rfl⟩
  | error fault => exact .inr ⟨fault, rfl, rfl⟩

theorem Replies.readFile_cases {reply : Except Host.Fault Bytes}
    (h : m.Replies (.readFile path) reply m') :
    m' = m ∧ (reply = m.tree.read m.here path ∨ ∃ fault, reply = .error fault) := by
  cases h with
  | answered => exact ⟨rfl, .inl rfl⟩
  | unread _ fault => exact ⟨rfl, .inr ⟨fault, rfl⟩⟩

theorem Replies.writeFile_cases {reply : Except Host.Fault Unit}
    (h : m.Replies (.writeFile path content mode) reply m') :
    (∃ t, reply = .ok () ∧ m.tree.write m.here path content mode = .ok t ∧
      m' = { m with tree := t }) ∨
    ∃ fault, reply = .error fault ∧ (m' = m ∨ ∃ part t, m.tree.write m.here path part mode = .ok t ∧
      m' = { m with tree := t }) := by
  cases h with
  | answered =>
    simp only [answer]
    rcases m.changed_cases (m.tree.write m.here path content mode) with ⟨t, hw, hc⟩ | ⟨fault, -, hc⟩
    · rw [hc]
      exact .inl ⟨t, rfl, hw, rfl⟩
    · rw [hc]
      exact .inr ⟨fault, rfl, .inl rfl⟩
  | unwritten _ _ _ fault => exact .inr ⟨fault, rfl, .inl rfl⟩
  | torn _ fault hw => exact .inr ⟨fault, rfl, .inr ⟨_, _, hw, rfl⟩⟩

theorem Replies.rename_cases {reply : Except Host.Fault Unit}
    (h : m.Replies (.rename source target) reply m') :
    (∃ t, reply = .ok () ∧ m.tree.rename m.here source target = .ok t ∧
      m' = { m with tree := t }) ∨ ∃ fault, reply = .error fault ∧ m' = m := by
  cases h with
  | answered =>
    simp only [answer]
    rcases m.changed_cases (m.tree.rename m.here source target) with ⟨t, hr, hc⟩ | ⟨fault, -, hc⟩
    · rw [hc]
      exact .inl ⟨t, rfl, hr, rfl⟩
    · rw [hc]
      exact .inr ⟨fault, rfl, rfl⟩
  | unmoved _ _ fault => exact .inr ⟨fault, rfl, rfl⟩

theorem plays_play {α : Type} (d : Host.Talk α) (m : Rehearsal) :
    m.Plays d (m.play d).1 (m.play d).2 := by
  induction d generalizing m with
  | done a => exact .done m a
  | ask r next ih => exact .ask (.answered r) (ih _ _)

end Rehearsal

namespace Stack

/-! ## Turns -/

/-- An update that has the lock of its store. -/
structure Turn where
  key : Key
  status : Status
  /-- What was in place of the manifest when the update got the lock. -/
  before : Option FileTree.Thing
  /-- What is left to do. -/
  rest : Host.Talk (Except Error Unit)

/-- A store in use. -/
structure Course where
  machine : Rehearsal
  turn : Option Turn
  /-- The updates whose manifests took their places, the last one first. -/
  landed : List (Key × Status)

def hasMoved : (r : Host.Request) → Host.Reply r → Bool
  | .rename _ _, .ok () => true
  | _, _ => false

namespace FileStore

/-- One step of a store in use. An update can be stopped whenever it has the lock. -/
inductive Step (s : FileStore) (m₀ : Rehearsal) : Course → Course → Prop where
  | start {σ : Course} {k : Key} {status : Status} (hfree : σ.turn = none)
    (hcall : s.Admitted m₀ (.updateStatus k status)) :
    Step s m₀ σ { σ with
      turn := some ⟨k, status, σ.machine.tree.at? (s.place σ.machine.here k),
        s.updateStatus k status⟩ }
  | exchange {σ : Course} {turn : Turn} {r : Host.Request}
    {next : Host.Reply r → Host.Talk (Except Error Unit)} {reply : Host.Reply r} {m' : Rehearsal}
    (hturn : σ.turn = some turn) (hrest : turn.rest = .ask r next)
    (hreply : σ.machine.Replies r reply m') :
    Step s m₀ σ ⟨m', some { turn with rest := next reply },
      if hasMoved r reply then (turn.key, turn.status) :: σ.landed else σ.landed⟩
  | leave (σ : Course) : Step s m₀ σ { σ with turn := none }

inductive Runs (s : FileStore) (m₀ : Rehearsal) (σ : Course) : Course → Prop where
  | refl : Runs s m₀ σ σ
  | step {σ' σ'' : Course} (hruns : Runs s m₀ σ σ') (hstep : s.Step m₀ σ' σ'') : Runs s m₀ σ σ''

theorem Runs.trans {s : FileStore} {m₀ : Rehearsal} {σ σ' σ'' : Course} (h : s.Runs m₀ σ σ')
    (h' : s.Runs m₀ σ' σ'') : s.Runs m₀ σ σ'' := by
  induction h' with
  | refl => exact h
  | step _ hstep ih => exact .step ih hstep

theorem runs_play (s : FileStore) (m₀ : Rehearsal) (k : Key) (status : Status)
    (before : Option FileTree.Thing) (d : Host.Talk (Except Error Unit)) (m : Rehearsal)
    (landed : List (Key × Status)) :
    ∃ landed', s.Runs m₀ ⟨m, some ⟨k, status, before, d⟩, landed⟩
      ⟨(m.play d).2, some ⟨k, status, before, .done (m.play d).1⟩, landed'⟩ := by
  induction d generalizing m landed with
  | done result => exact ⟨landed, .refl⟩
  | ask r next ih =>
    obtain ⟨landed', hruns⟩ := ih (Rehearsal.answer r m).1 (Rehearsal.answer r m).2
      (if hasMoved r (Rehearsal.answer r m).1 then (k, status) :: landed else landed)
    exact ⟨landed', Runs.trans (.step .refl (.exchange rfl rfl (.answered r))) hruns⟩

/-! ## What stands in place of a manifest -/

variable {s : FileStore} {m₀ : Rehearsal} {t t' : FileTree} {k k' : Key} {stack : Stack}
  {status : Status} {landed landed' : List (Key × Status)} {before : Option FileTree.Thing}

/-- A directory in which no stack that can be read has floating-point numbers. -/
structure Opens (s : FileStore) (m : Rehearsal) : Prop extends s.StandsOn m where
  floatFree : ∀ k stack, s.Admits m k → (m.play (s.get k)).1 = .ok stack → stack.FloatFree

/-- A stack that was there in the beginning, but for its status. -/
structure Derives (s : FileStore) (m₀ : Rehearsal) (k : Key) (stack : Stack) : Prop where
  keeps : s.Keeps k stack
  original : ∃ stack₀, (m₀.play (s.get k)).1 = .ok stack₀ ∧
    ∀ status, (stack.withStatus status).toSeconds = (stack₀.withStatus status).toSeconds

/-- What stands in place of a manifest after the last status that took its place. -/
def Shows (s : FileStore) (m₀ : Rehearsal) (k : Key) :
    Option Status → Option FileTree.Thing → Prop
  | none, x => x = m₀.tree.at? (s.place m₀.here k)
  | some status, x => ∃ stack mode, s.Derives m₀ k stack ∧ status.Sound ∧
      x = some (.file (manifest (stack.withStatus status)) mode)

/-- What a reader finds after the last status that took its place. -/
def Gives (s : FileStore) (m₀ : Rehearsal) (k : Key) : Option Status → Except Error Stack → Prop
  | none, answer => answer = (m₀.play (s.get k)).1
  | some status, answer => ∃ stack, (m₀.play (s.get k)).1 = .ok stack ∧
      (status.Shallow → answer = .ok (stack.withStatus status).toSeconds) ∧
      (¬status.Shallow → answer = .error (s.overfull k))

/-- The files of a store between two requests. -/
structure Steady (s : FileStore) (m₀ : Rehearsal) (t : FileTree) (landed : List (Key × Status)) :
    Prop extends s.StandsOn { m₀ with tree := t } where
  admits : ∀ k, s.Admits m₀ k → s.Admits { m₀ with tree := t } k
  shows : ∀ k, s.Admits m₀ k →
    s.Shows m₀ k (landed.lookup k) (t.at? (s.place m₀.here k))

theorem Holds.opens {m : Rehearsal} (hs : s.Holds m) : s.Opens m where
  toStandsOn := hs.toStandsOn
  floatFree := by
    intro k stack hk hget
    obtain ⟨x, hx, -⟩ := file_of_get hs.toStandsOn hk hget
    have hmem : k ∈ s.keys m := by
      rw [mem_keys_iff hs.toStandsOn, ← hk.place_eq, hx]
      exact ⟨hk.nonempty, nofun⟩
    obtain ⟨stack', hget', hfree⟩ := hs.decodes k hmem
    rw [hget] at hget'
    rwa [Except.ok.inj hget']

theorem Opens.derives (h₀ : s.Opens m₀) (hk : s.Admits m₀ k)
    (hget : (m₀.play (s.get k)).1 = .ok stack) : s.Derives m₀ k stack where
  keeps := keeps_of_get hget (h₀.floatFree k stack hk hget)
  original := ⟨stack, hget, fun _ => rfl⟩

theorem Derives.reread (hd : s.Derives m₀ k stack) (hstatus : status.Sound) :
    s.Derives m₀ k (stack.withStatus status).toSeconds where
  keeps := (hd.keeps.withStatus hstatus).toSeconds
  original := by
    obtain ⟨stack₀, hget, hsame⟩ := hd.original
    refine ⟨stack₀, hget, fun status' => ?_⟩
    rw [← hsame status']
    simp [withStatus, toSeconds]

namespace Steady

theorem get_of_landed (hs : s.Steady m₀ t landed) (hk : s.Admits m₀ k)
    (hd : s.Derives m₀ k stack) (hstatus : status.Sound) {mode : Host.Mode}
    (hat : t.at? (s.place m₀.here k) = some (.file (manifest (stack.withStatus status)) mode)) :
    (status.Shallow → (({ m₀ with tree := t } : Rehearsal).play (s.get k)).1 =
      .ok (stack.withStatus status).toSeconds) ∧
    (¬status.Shallow → (({ m₀ with tree := t } : Rehearsal).play (s.get k)).1 =
      .error (s.overfull k)) := by
  exact get_of_status hs.toStandsOn (hs.admits k hk) hd.keeps hstatus hat

variable (h₀ : s.Opens m₀) (hs : s.Steady m₀ t landed) (hk : s.Admits m₀ k)
include h₀ hs hk

theorem get_eq_original (hat : t.at? (s.place m₀.here k) = m₀.tree.at? (s.place m₀.here k)) :
    (({ m₀ with tree := t } : Rehearsal).play (s.get k)).1 = (m₀.play (s.get k)).1 :=
  get_congr h₀.toStandsOn hk hs.toStandsOn (hs.admits k hk) rfl hat

theorem gives : s.Gives m₀ k (landed.lookup k)
    (({ m₀ with tree := t } : Rehearsal).play (s.get k)).1 := by
  have hshows := hs.shows k hk
  cases hlast : landed.lookup k with
  | none =>
    rw [hlast] at hshows
    exact hs.get_eq_original h₀ hk hshows
  | some status =>
    rw [hlast] at hshows
    obtain ⟨stack, mode, hd, hstatus, hat⟩ := hshows
    obtain ⟨stack₀, hget, hsame⟩ := hd.original
    have hlanded := hs.get_of_landed hk hd hstatus hat
    rw [hsame status] at hlanded
    exact ⟨stack₀, hget, hlanded⟩

theorem derives (hget : (({ m₀ with tree := t } : Rehearsal).play (s.get k)).1 = .ok stack) :
    s.Derives m₀ k stack := by
  have hshows := hs.shows k hk
  cases hlast : landed.lookup k with
  | none =>
    rw [hlast] at hshows
    rw [hs.get_eq_original h₀ hk hshows] at hget
    exact h₀.derives hk hget
  | some status =>
    rw [hlast] at hshows
    obtain ⟨held, mode, hd, hstatus, hat⟩ := hshows
    obtain ⟨hshallow, hdeep⟩ := hs.get_of_landed hk hd hstatus hat
    by_cases h : status.Shallow
    · rw [hshallow h] at hget
      rw [← Except.ok.inj hget]
      exact hd.reread hstatus
    · rw [hdeep h] at hget
      cases hget

omit h₀ in
/-- A change of one manifest or its draft. -/
theorem touch (htouch : s.Touches { m₀ with tree := t } k t')
    (hshows : s.Shows m₀ k (landed'.lookup k) (t'.at? (s.place m₀.here k)))
    (hother : ∀ k', k' ≠ k → landed'.lookup k' = landed.lookup k') : s.Steady m₀ t' landed' := by
  have hfits := hk.toFits
  refine ⟨htouch.standsOn hfits hs.toStandsOn, ?_, ?_⟩
  · exact fun k' hk' => htouch.admits hfits (hs.admits k' hk')
  · intro k' hk'
    by_cases hne : k' = k
    · rw [hne]
      exact hshows
    · have hat : t'.at? (s.place m₀.here k') = t.at? (s.place m₀.here k') :=
        htouch.at?_place hfits hk'.toFits hne
      rw [hother k' hne, hat]
      exact hs.shows k' hk'

end Steady

/-! ## The course of an update -/

/-- How far an update has come. -/
inductive Underway (s : FileStore) (m₀ : Rehearsal) (t : FileTree) (landed : List (Key × Status))
    (k : Key) (status : Status) (before : Option FileTree.Thing) :
    Host.Talk (Except Error Unit) → Prop where
  | reading (hplace : t.at? (s.place m₀.here k) = before) :
    Underway s m₀ t landed k status before (s.updateStatus k status)
  | writing {stack : Stack} (hplace : t.at? (s.place m₀.here k) = before)
    (hget : (({ m₀ with tree := t } : Rehearsal).play (s.get k)).1 = .ok stack) :
    Underway s m₀ t landed k status before (s.put k (stack.withStatus status))
  | moving {stack : Stack} {mode : Host.Mode} (hplace : t.at? (s.place m₀.here k) = before)
    (hfile : ∃ x, before = some x ∧ x ≠ .directory) (hd : s.Derives m₀ k stack)
    (hdraft : t.at? (s.draftPlace m₀.here k) =
      some (.file (manifest (stack.withStatus status)) mode)) :
    Underway s m₀ t landed k status before
      (.ask (.rename (draftPath (s.path k)) (s.path k)) fun reply =>
        .done (reply.mapError fun f => .io f.message))
  | failed {e : Error} (hplace : t.at? (s.place m₀.here k) = before) :
    Underway s m₀ t landed k status before (.done (.error e))
  | succeeded (hlanded : landed.head? = some (k, status)) :
    Underway s m₀ t landed k status before (.done (.ok ()))

def Sane (s : FileStore) (m₀ : Rehearsal) (σ : Course) : Prop :=
  ∃ t, σ.machine = { m₀ with tree := t } ∧ s.Steady m₀ t σ.landed ∧
    ∀ turn, σ.turn = some turn → s.Admitted m₀ (.updateStatus turn.key turn.status) ∧
      s.Underway m₀ t σ.landed turn.key turn.status turn.before turn.rest

section Exchanges

variable {m' : Rehearsal} (h₀ : s.Opens m₀) (hs : s.Steady m₀ t landed) (hk : s.Admits m₀ k)
  (hplace : t.at? (s.place m₀.here k) = before)
include h₀ hs hk hplace

omit h₀ hs hk in
theorem exchange_reading {content : Except Host.Fault Bytes}
    (hreply : ({ m₀ with tree := t } : Rehearsal).Replies (.readFile (s.path k)) content m') :
    m' = { m₀ with tree := t } ∧ s.Underway m₀ t landed k status before
      (match s.judged k content with
        | .error e => .done (.error e)
        | .ok stack => s.put k { stack with status := some status }) := by
  obtain ⟨hm, hcontent⟩ := hreply.readFile_cases
  refine ⟨hm, ?_⟩
  rcases hcontent with hread | ⟨fault, hfault⟩
  · cases hjudged : s.judged k content with
    | error e => exact .failed hplace
    | ok stack =>
      refine .writing hplace ?_
      rw [play_get, ← hjudged, hread]
  · obtain ⟨e, he⟩ := s.judged_error k fault
    rw [hfault, he]
    exact .failed hplace

theorem exchange_writing {reply : Except Host.Fault Unit}
    (hget : (({ m₀ with tree := t } : Rehearsal).play (s.get k)).1 = .ok stack)
    (hreply : ({ m₀ with tree := t } : Rehearsal).Replies
      (.writeFile (draftPath (s.path k)) (manifest (stack.withStatus status)) .default) reply m') :
    ∃ t', m' = { m₀ with tree := t' } ∧ s.Steady m₀ t' landed ∧
      s.Underway m₀ t' landed k status before ((fun
        | .error f => .done (.error (.io f.message))
        | .ok () => .ask (.rename (draftPath (s.path k)) (s.path k)) fun reply =>
            .done (reply.mapError fun f => .io f.message)) reply) := by
  have hk' := hs.admits k hk
  have hx := file_of_get hs.toStandsOn hk' hget
  -- whatever is written, the manifest stays where it is
  have hwritten : ∀ {bytes : Bytes} {t' : FileTree},
      t.write m₀.here (draftPath (s.path k)) bytes .default = .ok t' →
        s.Steady m₀ t' landed ∧ t'.at? (s.place m₀.here k) = before ∧
          ∃ mode, t'.at? (s.draftPlace m₀.here k) = some (.file bytes mode) := by
    intro bytes t' hw
    obtain ⟨htouch, mode, hat⟩ := touches_write hs.toStandsOn hk' hx hw
    have hsame : t'.at? (s.place m₀.here k) = t.at? (s.place m₀.here k) :=
      (hat _).trans (if_neg (hk.place_ne_draftPlace m₀.here))
    have hshows := hs.shows k hk
    rw [← hsame] at hshows
    exact ⟨hs.touch hk htouch hshows fun _ _ => rfl, hsame.trans hplace, mode,
      (hat _).trans (if_pos rfl)⟩
  rcases hreply.writeFile_cases with ⟨t', rfl, hw, hm⟩ | ⟨fault, rfl, hm | ⟨part, t', hw, hm⟩⟩
  · obtain ⟨hsteady, hplace', mode, hdraft⟩ := hwritten hw
    rw [← hplace]
    exact ⟨t', hm, hsteady, .moving (hplace'.trans hplace.symm) hx (hs.derives h₀ hk hget) hdraft⟩
  · exact ⟨t, hm, hs, .failed hplace⟩
  · obtain ⟨hsteady, hplace', -⟩ := hwritten hw
    exact ⟨t', hm, hsteady, .failed hplace'⟩

omit h₀ in
theorem exchange_moving {reply : Except Host.Fault Unit} {mode : Host.Mode}
    (hfile : ∃ x, before = some x ∧ x ≠ .directory) (hd : s.Derives m₀ k stack)
    (hstatus : status.Sound)
    (hdraft : t.at? (s.draftPlace m₀.here k) =
      some (.file (manifest (stack.withStatus status)) mode))
    (hreply : ({ m₀ with tree := t } : Rehearsal).Replies
      (.rename (draftPath (s.path k)) (s.path k)) reply m') :
    ∃ t', m' = { m₀ with tree := t' } ∧
      match reply with
      | .ok () => s.Steady m₀ t' ((k, status) :: landed)
      | .error _ => s.Steady m₀ t' landed ∧ t'.at? (s.place m₀.here k) = before := by
  rw [← hplace] at hfile
  rcases hreply.rename_cases with ⟨t', rfl, hr, hm⟩ | ⟨fault, rfl, hm⟩
  · obtain ⟨htouch, hat⟩ := touches_rename hs.toStandsOn (hs.admits k hk) hfile hdraft hr
    refine ⟨t', hm, hs.touch hk htouch ?_ ?_⟩
    · rw [List.lookup_cons, beq_self_eq_true]
      exact ⟨stack, mode, hd, hstatus, (hat _).trans (if_pos rfl)⟩
    · intro k' hne
      rw [List.lookup_cons, beq_false_of_ne hne]
  · exact ⟨t, hm, hs, hplace⟩

end Exchanges

/-- Whatever the machine replies, the update goes on, and a status that takes its place is noted. -/
theorem Underway.exchange {r : Host.Request} {next : Host.Reply r → Host.Talk (Except Error Unit)}
    {reply : Host.Reply r} {m' : Rehearsal} (h₀ : s.Opens m₀) (hs : s.Steady m₀ t landed)
    (hk : s.Admits m₀ k) (hstatus : status.Sound)
    (hu : s.Underway m₀ t landed k status before (.ask r next))
    (hreply : ({ m₀ with tree := t } : Rehearsal).Replies r reply m') :
    ∃ t' landed', m' = { m₀ with tree := t' } ∧
      landed' = (if hasMoved r reply then (k, status) :: landed else landed) ∧
      s.Steady m₀ t' landed' ∧ s.Underway m₀ t' landed' k status before (next reply) := by
  -- what is left to do says which request was made
  generalize hrest : (Dialogue.ask r next : Host.Talk (Except Error Unit)) = rest at hu
  cases hu with
  | reading hplace =>
    rw [updateStatus_eq] at hrest
    cases hrest
    obtain ⟨hm, hu⟩ := exchange_reading hplace hreply
    exact ⟨t, landed, hm, rfl, hs, hu⟩
  | writing hplace hget =>
    rw [put_eq] at hrest
    cases hrest
    obtain ⟨t', hm, hs', hu⟩ := exchange_writing h₀ hs hk hplace hget hreply
    rcases reply with fault | ⟨⟩
    · exact ⟨t', landed, hm, rfl, hs', hu⟩
    · exact ⟨t', landed, hm, rfl, hs', hu⟩
  | moving hplace hfile hd hdraft =>
    cases hrest
    obtain ⟨t', hm, hnext⟩ := exchange_moving hs hk hplace hfile hd hstatus hdraft hreply
    rcases reply with fault | ⟨⟩
    · exact ⟨t', landed, hm, rfl, hnext.1, .failed hnext.2⟩
    · exact ⟨t', _, hm, rfl, hnext, .succeeded rfl⟩
  | failed => cases hrest
  | succeeded => cases hrest

theorem Underway.done_cases {result : Except Error Unit}
    (hu : s.Underway m₀ t landed k status before (.done result)) :
    (∃ e, result = .error e) ∧ t.at? (s.place m₀.here k) = before ∨
      result = .ok () ∧ landed.head? = some (k, status) := by
  generalize hrest : (Dialogue.done result : Host.Talk (Except Error Unit)) = rest at hu
  cases hu with
  | reading =>
    rw [updateStatus_eq] at hrest
    cases hrest
  | writing =>
    rw [put_eq] at hrest
    cases hrest
  | moving => cases hrest
  | failed hplace =>
    cases hrest
    exact .inl ⟨⟨_, rfl⟩, hplace⟩
  | succeeded hlanded =>
    cases hrest
    exact .inr ⟨rfl, hlanded⟩

theorem Sane.step {σ σ' : Course} (h₀ : s.Opens m₀) (hσ : s.Sane m₀ σ) (hstep : s.Step m₀ σ σ') :
    s.Sane m₀ σ' := by
  obtain ⟨t, hm, hs, hturn⟩ := hσ
  cases hstep with
  | start hfree hcall =>
    refine ⟨t, hm, hs, fun turn heq => ?_⟩
    obtain rfl := Option.some.inj heq
    refine ⟨hcall, .reading ?_⟩
    rw [hm]
  | exchange hbusy hrest hreply =>
    obtain ⟨⟨hk, hstatus⟩, hu⟩ := hturn _ hbusy
    rw [hrest] at hu
    rw [hm] at hreply
    obtain ⟨t', landed', hm', rfl, hs', hu'⟩ := hu.exchange h₀ hs hk hstatus hreply
    refine ⟨t', hm', hs', fun turn heq => ?_⟩
    obtain rfl := Option.some.inj heq
    exact ⟨⟨hk, hstatus⟩, hu'⟩
  | leave => exact ⟨t, hm, hs, nofun⟩

theorem Runs.sane {σ σ' : Course} (h₀ : s.Opens m₀) (hσ : s.Sane m₀ σ) (hr : s.Runs m₀ σ σ') :
    s.Sane m₀ σ' := by
  induction hr with
  | refl => exact hσ
  | step _ hstep ih => exact ih.step h₀ hstep

theorem Opens.sane (h₀ : s.Opens m₀) : s.Sane m₀ ⟨m₀, none, []⟩ :=
  ⟨m₀.tree, rfl, ⟨h₀.toStandsOn, fun _ hk => hk, fun _ _ => rfl⟩, nofun⟩

theorem Step.landed_suffix {σ σ' : Course} (hstep : s.Step m₀ σ σ') : σ.landed <:+ σ'.landed := by
  cases hstep with
  | start => exact List.suffix_rfl
  | exchange _ _ _ =>
    dsimp only
    split
    · exact List.suffix_cons _ _
    · exact List.suffix_rfl
  | leave => exact List.suffix_rfl

theorem Runs.landed_suffix {σ σ' : Course} (hr : s.Runs m₀ σ σ') : σ.landed <:+ σ'.landed := by
  induction hr with
  | refl => exact List.suffix_rfl
  | step _ hstep ih => exact ih.trans hstep.landed_suffix

/-! ## What is found, and what is lost -/

/-- At this moment a reader finds the original of a stack or the last status that took its place, as
long as it can read; an update that ended in an error left the manifest as it was, and one that
succeeded has its status in place and is never forgotten. -/
structure Serial (s : FileStore) (m₀ : Rehearsal) (σ : Course) : Prop where
  finds : ∀ k, s.Admits m₀ k →
    ∃ answer, σ.machine.Plays (s.get k) answer σ.machine ∧ s.Gives m₀ k (σ.landed.lookup k) answer
  get : ∀ k, s.Admits m₀ k → ∀ answer m', σ.machine.Plays (s.get k) answer m' →
    m' = σ.machine ∧ (s.Gives m₀ k (σ.landed.lookup k) answer ∨
      ∃ fault, answer = s.judged k (.error fault))
  failed : ∀ turn e, σ.turn = some turn → turn.rest = .done (.error e) →
    σ.machine.tree.at? (s.place σ.machine.here turn.key) = turn.before
  succeeded : ∀ turn, σ.turn = some turn → turn.rest = .done (.ok ()) →
    σ.landed.head? = some (turn.key, turn.status)
  kept : ∀ σ', s.Runs m₀ σ σ' → σ.landed <:+ σ'.landed

theorem plays_get {m m' : Rehearsal} {answer : Except Error Stack}
    (hp : m.Plays (s.get k) answer m') :
    m' = m ∧ (answer = (m.play (s.get k)).1 ∨ ∃ fault, answer = s.judged k (.error fault)) := by
  rw [get_eq] at hp
  cases hp with
  | ask hreply hdone =>
    obtain ⟨rfl, hcontent⟩ := hreply.readFile_cases
    cases hdone
    refine ⟨rfl, ?_⟩
    rcases hcontent with hread | ⟨fault, hfault⟩
    · left
      rw [play_get, hread]
    · exact .inr ⟨fault, by rw [hfault]⟩

theorem Sane.serial {σ : Course} (h₀ : s.Opens m₀) (hσ : s.Sane m₀ σ) : s.Serial m₀ σ := by
  obtain ⟨t, hm, hs, hturn⟩ := hσ
  constructor
  · intro k hk
    have hp := Rehearsal.plays_play (s.get k) σ.machine
    obtain ⟨hsame, -⟩ := plays_get hp
    rw [hsame] at hp
    refine ⟨_, hp, ?_⟩
    rw [hm]
    exact hs.gives h₀ hk
  · intro k hk answer m' hp
    obtain ⟨hsame, hanswer | hfault⟩ := plays_get hp
    · refine ⟨hsame, .inl ?_⟩
      rw [hanswer, hm]
      exact hs.gives h₀ hk
    · exact ⟨hsame, .inr hfault⟩
  · intro turn e hbusy hrest
    obtain ⟨-, hu⟩ := hturn turn hbusy
    rw [hrest] at hu
    rw [hm]
    obtain ⟨-, hplace⟩ | ⟨hok, -⟩ := hu.done_cases
    · exact hplace
    · cases hok
  · intro turn hbusy hrest
    obtain ⟨-, hu⟩ := hturn turn hbusy
    rw [hrest] at hu
    obtain ⟨⟨e, he⟩, -⟩ | ⟨-, hlanded⟩ := hu.done_cases
    · cases he
    · exact hlanded
  · exact fun σ' hr => hr.landed_suffix

/-- Whatever fails or is stopped, updates that take turns are as good as made one after the other,
each at the moment when its manifest takes its place. -/
theorem serial_of_runs {σ : Course} (h₀ : s.Opens m₀) (hr : s.Runs m₀ ⟨m₀, none, []⟩ σ) :
    s.Serial m₀ σ :=
  (hr.sane h₀ h₀.sane).serial h₀

theorem runs_boxing (n : Nat) : ∃ σ turn, shelf.Runs bench ⟨bench, none, []⟩ σ ∧
    σ.turn = some turn ∧ turn.key = ⟨"infra", "app"⟩ ∧ turn.status = boxing n ∧
    turn.rest = .done (.ok ()) := by
  have hmem : ⟨"infra", "app"⟩ ∈ shelf.keys bench := by
    rw [mem_keys_iff standsOn_bench]
    exact ⟨by decide, by decide⟩
  obtain ⟨stack, hget, -⟩ := holds_bench.decodes _ hmem
  obtain ⟨t, mode, hplay, -⟩ := play_updateStatus_ok standsOn_bench admits_bench hget (boxing n)
  have hcall : shelf.Admitted bench (.updateStatus ⟨"infra", "app"⟩ (boxing n)) :=
    ⟨admits_bench, sound_boxing n⟩
  obtain ⟨landed, hruns⟩ := shelf.runs_play bench ⟨"infra", "app"⟩ (boxing n)
    (bench.tree.at? (shelf.place bench.here ⟨"infra", "app"⟩))
    (shelf.updateStatus ⟨"infra", "app"⟩ (boxing n)) bench []
  refine ⟨_, _, Runs.trans (.step .refl (.start rfl hcall)) hruns, rfl, rfl, rfl, ?_⟩
  rw [hplay]

theorem serial_of_runs_boxing : shelf.Opens bench ∧ ∃ σ, shelf.Runs bench ⟨bench, none, []⟩ σ ∧
    σ.landed.head? = some (⟨"infra", "app"⟩, boxing 124) ∧ shelf.Serial bench σ := by
  obtain ⟨σ, turn, hruns, hturn, hkey, hstatus, hrest⟩ := runs_boxing 124
  have hserial := serial_of_runs holds_bench.opens hruns
  have hlanded := hserial.succeeded turn hturn hrest
  rw [hkey, hstatus] at hlanded
  exact ⟨holds_bench.opens, σ, hruns, hlanded, hserial⟩

/-- An update that succeeded, after which there is no stack to be found. -/
theorem get_fails_boxing : ∃ σ turn, shelf.Runs bench ⟨bench, none, []⟩ σ ∧
    σ.turn = some turn ∧ turn.status = boxing 125 ∧ turn.rest = .done (.ok ()) ∧
    (σ.machine.play (shelf.get turn.key)).1 = .error (shelf.overfull turn.key) := by
  obtain ⟨σ, turn, hruns, hturn, hkey, hstatus, hrest⟩ := runs_boxing 125
  have hopens := holds_bench.opens
  have hsane := hruns.sane hopens hopens.sane
  have hlanded := (hsane.serial hopens).succeeded turn hturn hrest
  obtain ⟨earlier, hlanded⟩ := List.head?_eq_some_iff.1 hlanded
  obtain ⟨t, hm, hs, -⟩ := hsane
  have hgives := hs.gives hopens (hkey ▸ admits_bench)
  rw [hlanded, List.lookup_cons_self, hstatus] at hgives
  obtain ⟨stack, -, -, hdeep⟩ := hgives
  refine ⟨σ, turn, hruns, hturn, hstatus, hrest, ?_⟩
  rw [hm]
  exact hdeep fun h => absurd ((shallow_boxing 125).1 h) (by decide)

end FileStore

end Stack

end StackKeeper

import StackKeeper.Proofs.Rehearsal.FileTree
import StackKeeper.Proofs.Source.Login
import StackKeeper.Proofs.Source.Steps
import StackKeeper.Rehearsal.Machine

/-!
# What a preparation comes to

A request is turned down at once, and nothing is asked of the machine, or there is a place for a
clone of its own. The clone is handed out exactly if the credentials can be applied, every step of
git succeeds and a project is found. In every other case it is removed, as the last thing that is
done, so no directory of it is left on a machine in memory.
-/

namespace StackKeeper.GitSource

open Dialogue (ends_ask_iff ends_bind_iff ends_done_iff)

variable {s : GitSource} {session : Session} {request : SourceRequest} {h : Transcript Host}
  {root directory : String} {α β : Type}

/-- The request is not turned down, and its project is in a directory of the repository. -/
structure Accepts (request : SourceRequest) (directory : String) : Prop where
  repo : Text.isAllBlank request.repo = false
  directory : projectDirectory request.directory = .ok directory

/-- The request is not turned down, and its credentials can be applied. -/
def Admitted (s : GitSource) (request : SourceRequest) : Prop :=
  (∃ directory, Accepts request directory) ∧
    ∃ h session, (s.openSession request.repo request.credentials).Ends h (.ok session)

/-- A project is found: the first names of descriptors are not there, the next one is. -/
inductive Finds (directory : String) : List String → Transcript Host → Prop where
  | here {name : String} {rest : List String} :
      Finds directory (name :: rest) [⟨.pathExists (Path.join directory name), .ok true⟩]
  | later {name : String} {rest : List String} {h : Transcript Host}
      (found : Finds directory rest h) :
      Finds directory (name :: rest) (⟨.pathExists (Path.join directory name), .ok false⟩ :: h)

/-- What is exchanged for a clone, and what the clone comes to. -/
inductive Cloned (s : GitSource) (request : SourceRequest) (root : String) :
    Transcript Host → Except Error String → Prop where
  | unopened {h : Transcript Host} {e : Error}
      (opened : (s.openSession request.repo request.credentials).Ends h (.error e)) :
      Cloned s request root h (.error e)
  | closed {h₁ h₂ h₃ : Transcript Host} {session : Session} {r : Except Error String}
      (opened : (s.openSession request.repo request.credentials).Ends h₁ (.ok session))
      (taken : Taken s session (steps session.url root request.revision) h₂ r)
      (closed : (closeSession session).Ends h₃ ()) :
      Cloned s request root (h₁ ++ (h₂ ++ h₃)) r

/-- What is exchanged until there is a place for a clone of its own. -/
def arrival (s : GitSource) (request : SourceRequest) (id : String) : Transcript Host :=
  [⟨.makeDirectories s.workDirectory, .ok ()⟩, ⟨.freshId, id⟩,
    ⟨.tell (.preparing (s.shownUrl request.repo) request.revision.describe), ()⟩]

/-- A clone is handed out: the credentials were applied, all steps succeeded, and a project was
found. -/
inductive Ready (s : GitSource) (request : SourceRequest) : Transcript Host → Checkout → Prop where
  | mk {directory id commit : String} {session : Session} {h₁ h₂ h₃ h₄ : Transcript Host}
      (accepted : Accepts request directory)
      (opened : (s.openSession request.repo request.credentials).Ends h₁ (.ok session))
      (taken : Taken s session (steps session.url (s.clonePath request.repo id) request.revision)
        h₂ (.ok commit))
      (closed : (closeSession session).Ends h₃ ())
      (found : Finds (Path.join (s.clonePath request.repo id) directory) descriptorNames h₄) :
      Ready s request (s.arrival request id ++ (h₁ ++ (h₂ ++ h₃) ++ h₄))
        ⟨s.clonePath request.repo id, Path.join (s.clonePath request.repo id) directory, commit⟩

def runs (h : Transcript Host) : Transcript Host :=
  h.filter fun x => match x.request with
    | .runProgram _ => true
    | _ => false

/-- The credentials cannot be applied. Nothing is run, and the whole fails as they do. -/
def Unopened (s : GitSource) (request : SourceRequest) (h : Transcript Host)
    (r : Except Error α) : Prop :=
  ∃ h₁ e, h₁ <:+: h ∧ (s.openSession request.repo request.credentials).Ends h₁ (.error e) ∧
    runs h = [] ∧ r = .error e

/-- The credentials are applied, and the steps are then taken in turn. A step that fails fails the
whole. -/
def InTurn (s : GitSource) (request : SourceRequest) (root : String) (h : Transcript Host)
    (r : Except Error α) : Prop :=
  ∃ session h₁ x, h₁ <:+: h ∧ (s.openSession request.repo request.credentials).Ends h₁ (.ok session) ∧
    Taken s session (steps session.url root request.revision) (runs h) x ∧
    ∀ e, x = .error e → r = .error e

/-- What a request leads to where there is a place for its clone. -/
structure Handled (s : GitSource) (request : SourceRequest) (root : String) (h : Transcript Host)
    (r : Except Error Checkout) : Prop where
  /-- Without a session nothing is run. -/
  commands : s.Unopened request h r ∨ s.InTurn request root h r
  /-- The last thing that is done after an error is that the clone is removed. -/
  removed : ∀ e, r = .error e → ∃ h' reply, h = h' ++ [⟨.removeTree root, reply⟩]

/-! ## The parts of a preparation -/

theorem ends_ask_bind_iff {r : Host.Request} {f : Host.Reply r → Host.Talk α} {a : α} :
    (Host.ask r >>= f).Ends h a ↔ ∃ reply h', h = ⟨r, reply⟩ :: h' ∧ (f reply).Ends h' a :=
  ends_ask_iff

theorem ends_ensureProject_ok_iff {names : List String} :
    (ensureProject directory names).Ends h (.ok ()) ↔ Finds directory names h := by
  induction names generalizing h with
  | nil =>
    constructor
    · intro he
      cases (ends_done_iff.1 he).2
    · intro hf
      cases hf
  | cons name rest ih =>
    constructor
    · intro he
      obtain ⟨reply, h', rfl, hnext⟩ := ends_ask_bind_iff.1 he
      cases reply with
      | error fault => cases (ends_done_iff.1 hnext).2
      | ok found =>
        cases found with
        | true =>
          obtain ⟨rfl, -⟩ := ends_done_iff.1 hnext
          exact .here
        | false => exact .later (ih.1 hnext)
    · intro hf
      cases hf with
      | here =>
        exact ends_ask_bind_iff.2 ⟨.ok true, [], rfl, .stay _⟩
      | later found =>
        exact ends_ask_bind_iff.2 ⟨.ok false, _, rfl, ih.2 found⟩

theorem ends_clone_iff {r : Except Error String} :
    (s.clone request root).Ends h r ↔ Cloned s request root h r := by
  unfold clone
  constructor
  · intro he
    obtain ⟨h₁, h', opened, rfl, hopen, hrest⟩ := ends_bind_iff.1 he
    cases opened with
    | error e =>
      obtain ⟨rfl, rfl⟩ := ends_done_iff.1 hrest
      rw [List.append_nil]
      exact .unopened hopen
    | ok session =>
      obtain ⟨h₂, h'', x, rfl, hclone, hrest⟩ := ends_bind_iff.1 hrest
      obtain ⟨h₃, h₄, u, rfl, hclose, hlast⟩ := ends_bind_iff.1 hrest
      obtain ⟨rfl, rfl⟩ := ends_done_iff.1 hlast
      rw [List.append_nil]
      exact .closed hopen (ends_cloneIn_iff.1 hclone) hclose
  · intro hc
    cases hc with
    | unopened opened =>
      exact ends_bind_iff.2 ⟨_, [], _, (List.append_nil _).symm, opened, .stay _⟩
    | closed opened taken closed =>
      refine ends_bind_iff.2 ⟨_, _, _, rfl, opened, ?_⟩
      refine ends_bind_iff.2 ⟨_, _, _, rfl, ends_cloneIn_iff.2 taken, ?_⟩
      exact ends_bind_iff.2 ⟨_, [], _, (List.append_nil _).symm, closed, .stay _⟩

theorem ends_fetch_iff {r : Except Error Checkout} :
    (s.fetch request root directory).Ends h r ↔
      (∃ e, r = .error e ∧ Cloned s request root h (.error e)) ∨
      ∃ h₁ h₂ commit found, h = h₁ ++ h₂ ∧ Cloned s request root h₁ (.ok commit) ∧
        (ensureProject (Path.join root directory) descriptorNames).Ends h₂ found ∧
        r = found.map fun _ => ⟨root, Path.join root directory, commit⟩ := by
  unfold fetch
  constructor
  · intro he
    obtain ⟨h₁, h₂, cloned, rfl, hclone, hrest⟩ := ends_bind_iff.1 he
    cases cloned with
    | error e =>
      obtain ⟨rfl, rfl⟩ := ends_done_iff.1 hrest
      rw [List.append_nil]
      exact .inl ⟨e, rfl, ends_clone_iff.1 hclone⟩
    | ok commit =>
      obtain ⟨h₃, h₄, found, rfl, hfind, hlast⟩ := ends_bind_iff.1 hrest
      obtain ⟨rfl, rfl⟩ := ends_done_iff.1 hlast
      rw [List.append_nil]
      exact .inr ⟨h₁, h₃, commit, found, rfl, ends_clone_iff.1 hclone, hfind, rfl⟩
  · rintro (⟨e, rfl, cloned⟩ | ⟨h₁, h₂, commit, found, rfl, cloned, hfind, rfl⟩)
    · exact ends_bind_iff.2
        ⟨_, [], _, (List.append_nil _).symm, ends_clone_iff.2 cloned, .stay _⟩
    · refine ends_bind_iff.2 ⟨_, _, _, rfl, ends_clone_iff.2 cloned, ?_⟩
      exact ends_bind_iff.2 ⟨h₂, [], _, (List.append_nil _).symm, hfind, .stay _⟩

def removal : Except Host.Fault Unit → Except Error Unit
  | .ok () => .ok ()
  | .error .notFound => .ok ()
  | .error f => .error (.io f.message)

theorem remove_eq (root : String) :
    remove root = .ask (.removeTree root) fun reply => .done (removal reply) := by
  unfold remove
  refine congrArg (Dialogue.ask _) (funext fun reply => ?_)
  cases reply with
  | ok u => rfl
  | error f => cases f <;> rfl

/-! ## The whole -/

/-- A clone that was fetched is kept; after an error it is removed. -/
inductive Kept (s : GitSource) (request : SourceRequest) (root directory : String) :
    Transcript Host → Except Error Checkout → Prop where
  | ready {h : Transcript Host} {c : Checkout}
      (fetched : (s.fetch request root directory).Ends h (.ok c)) :
      Kept s request root directory h (.ok c)
  | removed {h : Transcript Host} {e : Error} {reply : Except Host.Fault Unit}
      (fetched : (s.fetch request root directory).Ends h (.error e)) :
      Kept s request root directory (h ++ [⟨.removeTree root, reply⟩]) (.error e)

/-- A clone that was fetched is handed out; otherwise what there is of it is removed. -/
def handOut (root : String) : Except Error Checkout → Host.Talk (Except Error Checkout)
  | .ok c => pure (.ok c)
  | .error e => remove root >>= fun _ => pure (.error e)

def fetchNew (s : GitSource) (request : SourceRequest) (directory : String) :
    Except Host.Fault Unit → Host.Talk (Except Error Checkout)
  | .error fault => pure (.error (.io fault.message))
  | .ok () => Host.freshId >>= fun id =>
    Host.tell (.preparing (s.shownUrl request.repo) request.revision.describe) >>= fun _ =>
      s.fetch request (s.clonePath request.repo id) directory >>=
        handOut (s.clonePath request.repo id)

theorem prepare_of_accepts (ha : Accepts request directory) :
    s.prepare request =
      Host.makeDirectories s.workDirectory >>= s.fetchNew request directory := by
  unfold prepare
  rw [if_neg (by simp [ha.repo]), ha.directory]
  refine congrArg (Host.makeDirectories s.workDirectory >>= ·) (funext fun made => ?_)
  cases made with
  | error fault => rfl
  | ok u =>
    refine congrArg (Dialogue.ask _) (funext fun id => congrArg (Dialogue.ask _) (funext fun _ => ?_))
    refine congrArg (Dialogue.bind (s.fetch _ _ _)) (funext fun fetched => ?_)
    cases fetched with
    | ok c => rfl
    | error e => rfl

theorem ends_handOut_iff {fetched r : Except Error Checkout} :
    (handOut root fetched).Ends h r ↔
      r = fetched ∧ ((∃ c, r = .ok c ∧ h = []) ∨
        ∃ e reply, r = .error e ∧ h = [⟨.removeTree root, reply⟩]) := by
  cases fetched with
  | ok c =>
    constructor
    · intro he
      obtain ⟨rfl, rfl⟩ := ends_done_iff.1 he
      exact ⟨rfl, .inl ⟨c, rfl, rfl⟩⟩
    · rintro ⟨rfl, ⟨c', -, rfl⟩ | ⟨e, reply, hr, -⟩⟩
      · exact .stay _
      · cases hr
  | error e =>
    unfold handOut
    rw [remove_eq]
    constructor
    · intro he
      obtain ⟨reply, h', rfl, hend⟩ := ends_ask_iff.1 he
      obtain ⟨rfl, rfl⟩ := ends_done_iff.1 hend
      exact ⟨rfl, .inr ⟨e, reply, rfl, rfl⟩⟩
    · rintro ⟨rfl, ⟨c, hr, -⟩ | ⟨e', reply, -, rfl⟩⟩
      · cases hr
      · exact ends_ask_iff.2 ⟨reply, [], rfl, .stay _⟩

theorem ends_prepare_iff (ha : Accepts request directory) {r : Except Error Checkout} :
    (s.prepare request).Ends h r ↔
      (∃ fault, h = [⟨.makeDirectories s.workDirectory, .error fault⟩] ∧
        r = .error (.io fault.message)) ∨
      ∃ id h', h = s.arrival request id ++ h' ∧
        Kept s request (s.clonePath request.repo id) directory h' r := by
  rw [prepare_of_accepts ha]
  constructor
  · intro he
    obtain ⟨made, h₁, rfl, hmade⟩ := ends_ask_bind_iff.1 he
    cases made with
    | error fault =>
      obtain ⟨rfl, rfl⟩ := ends_done_iff.1 hmade
      exact .inl ⟨fault, rfl, rfl⟩
    | ok u =>
      obtain ⟨id, h₂, rfl, hdrawn⟩ := ends_ask_bind_iff.1 hmade
      obtain ⟨v, h₃, rfl, htold⟩ := ends_ask_bind_iff.1 hdrawn
      obtain ⟨g, g', fetched, rfl, hfetch, hlast⟩ := ends_bind_iff.1 htold
      refine .inr ⟨id, g ++ g', rfl, ?_⟩
      obtain ⟨rfl, ⟨c, rfl, rfl⟩ | ⟨e, reply, rfl, rfl⟩⟩ := ends_handOut_iff.1 hlast
      · rw [List.append_nil]
        exact .ready hfetch
      · exact .removed hfetch
  · rintro (⟨fault, rfl, rfl⟩ | ⟨id, h', rfl, hkept⟩)
    · exact ends_ask_bind_iff.2 ⟨.error fault, [], rfl, .stay _⟩
    · refine ends_ask_bind_iff.2 ⟨.ok (), _, rfl, ?_⟩
      refine ends_ask_bind_iff.2 ⟨id, _, rfl, ?_⟩
      refine ends_ask_bind_iff.2 ⟨(), _, rfl, ?_⟩
      cases hkept with
      | @ready _ c fetched =>
        exact ends_bind_iff.2 ⟨_, [], _, (List.append_nil _).symm, fetched,
          ends_handOut_iff.2 ⟨rfl, .inl ⟨c, rfl, rfl⟩⟩⟩
      | @removed h e reply fetched =>
        exact ends_bind_iff.2 ⟨h, _, _, rfl, fetched,
          ends_handOut_iff.2 ⟨rfl, .inr ⟨e, reply, rfl, rfl⟩⟩⟩

theorem exists_ends (d : Host.Talk α) : ∃ h a, d.Ends h a :=
  ⟨_, _, Dialogue.ends_transcript (fun _ r => (Rehearsal.answer r default).1) d⟩

/-- Where the credentials can be applied, steps that fail make the preparation fail as they do. -/
theorem exists_ends_of_failed {id : String} {h₁ h₂ : Transcript Host} {e : Error}
    (accepted : Accepts request directory)
    (opened : (s.openSession request.repo request.credentials).Ends h₁ (.ok session))
    (taken : Taken s session (steps session.url (s.clonePath request.repo id) request.revision) h₂
      (.error e)) :
    ∃ h, (s.prepare request).Ends h (.error e) ∧ h₂ <:+: h := by
  obtain ⟨h₃, u, closed⟩ := exists_ends (closeSession session)
  have fetched : (s.fetch request _ directory).Ends (h₁ ++ (h₂ ++ h₃)) (.error e) :=
    ends_fetch_iff.2 (.inl ⟨e, rfl, .closed opened taken closed⟩)
  have kept : Kept s request _ directory (_ ++ [⟨.removeTree _, .ok ()⟩]) (.error e) :=
    .removed fetched
  refine ⟨_, (ends_prepare_iff accepted).2 (.inr ⟨id, _, rfl, kept⟩), ?_⟩
  have hin : h₂ <:+: h₁ ++ (h₂ ++ h₃) := ⟨h₁, h₃, List.append_assoc _ _ _⟩
  exact (hin.trans (List.prefix_append _ _).isInfix).trans (List.suffix_append _ _).isInfix

/-- What is wrong with a request that is turned down is a matter of configuration. -/
theorem prepare_of_not_accepts (hno : ∀ directory, ¬Accepts request directory) :
    ∃ text, s.prepare request = .done (.error (.config text)) := by
  unfold prepare
  by_cases hblank : Text.isAllBlank request.repo = true
  · rw [if_pos hblank]
    exact ⟨_, rfl⟩
  · rw [if_neg hblank]
    cases hdir : projectDirectory request.directory with
    | ok directory => exact absurd ⟨Bool.eq_false_iff.2 hblank, hdir⟩ (hno directory)
    | error e =>
      unfold projectDirectory at hdir
      dsimp only at hdir
      split at hdir
      · cases hdir
        exact ⟨_, rfl⟩
      · cases hdir

theorem ends_prepare_ok_iff {c : Checkout} :
    (s.prepare request).Ends h (.ok c) ↔ Ready s request h c := by
  constructor
  · intro he
    by_cases ha : ∃ directory, Accepts request directory
    · obtain ⟨directory, ha⟩ := ha
      rcases (ends_prepare_iff ha).1 he with ⟨fault, -, hr⟩ | ⟨id, h', rfl, hkept⟩
      · cases hr
      · cases hkept with
        | ready fetched =>
          rcases ends_fetch_iff.1 fetched with
            ⟨e, hr, -⟩ | ⟨h₁, h₄, commit, found, rfl, cloned, hfind, hr⟩
          · cases hr
          · cases found with
            | error e => cases hr
            | ok u =>
              cases hr
              cases cloned with
              | closed opened taken closed =>
                exact .mk ha opened taken closed (ends_ensureProject_ok_iff.1 hfind)
    · obtain ⟨text, hp⟩ := prepare_of_not_accepts (s := s) (not_exists.1 ha)
      rw [hp] at he
      cases (ends_done_iff.1 he).2
  · intro hc
    cases hc with
    | mk accepted opened taken closed found =>
      refine (ends_prepare_iff accepted).2 (.inr ⟨_, _, rfl, .ready ?_⟩)
      exact ends_fetch_iff.2 (.inr ⟨_, _, _, .ok (), rfl, .closed opened taken closed,
        ends_ensureProject_ok_iff.2 found, rfl⟩)

theorem Ready.exists_head {c : Checkout} (hc : Ready s request h c) : ∃ session output,
    s.ranStep session (.head c.root) (.ok output) ∈ h ∧ output.succeeded = true ∧
      c.commit = Text.trim (Utf8.decodeLossy output.stdout) := by
  cases hc with
  | @mk _ id _ session _ _ _ _ _ _ taken _ _ =>
    obtain ⟨x, output, hlast, hmem, hprinted⟩ := taken.exists_last
    obtain rfl := Option.some.inj ((getLast?_steps ..).symm.trans hlast)
    refine ⟨session, output, ?_, hprinted⟩
    simp only [List.mem_append]
    exact .inr (.inl (.inr (.inl hmem)))

/-! ## Runs of programs -/

theorem runs_append (h h' : Transcript Host) : runs (h ++ h') = runs h ++ runs h' :=
  List.filter_append ..

theorem Taken.runs_eq {l : List Step} {r : Except Error String} (ht : Taken s session l h r) :
    runs h = h := by
  induction ht with
  | failed => rfl
  | finished => rfl
  | next _ _ ih => exact congrArg (List.cons _) ih

theorem RunsNothing.runs_eq_nil {d : Host.Talk α} {a : α} (hd : RunsNothing d) (he : d.Ends h a) :
    runs h = [] := by
  refine List.filter_eq_nil_iff.2 fun x hx => ?_
  have hrequest := (hd []).of_ends he x hx
  obtain ⟨r, reply⟩ := x
  cases r with
  | runProgram c => exact absurd rfl (hrequest c)
  | _ => exact Bool.false_ne_true

theorem runsNothing_ensureProject (directory : String) (names : List String) :
    RunsNothing (ensureProject directory names) := by
  induction names with
  | nil => exact runsNothing_done _
  | cons name rest ih =>
    refine (runsNothing_ask fun _ hr => by cases hr).bind fun found => ?_
    match found with
    | .error _ => exact runsNothing_done _
    | .ok true => exact runsNothing_done _
    | .ok false => exact ih

theorem runsNothing_writeSshFiles (directory privateKey : String) (passphrase : Option String) :
    RunsNothing (writeSshFiles directory privateKey passphrase) := by
  refine (runsNothing_ask fun _ hr => by cases hr).bind fun written => ?_
  match written with
  | .error _ => exact runsNothing_done _
  | .ok () =>
    cases passphrase with
    | none => exact runsNothing_done _
    | some passphrase =>
      refine (runsNothing_ask fun _ hr => by cases hr).bind fun written => ?_
      match written with
      | .error _ => exact runsNothing_done _
      | .ok () => exact runsNothing_done _

theorem runsNothing_openSession (repo : String) (c : Option Credentials) :
    RunsNothing (s.openSession repo c) := by
  match c with
  | none => exact runsNothing_done _
  | some (.accessToken _) => exact runsNothing_done _
  | some (.basic _ _) => exact runsNothing_done _
  | some (.sshKey privateKey passphrase) =>
    refine (runsNothing_ask fun _ hr => by cases hr).bind fun made => ?_
    match made with
    | .error _ => exact runsNothing_done _
    | .ok scratch =>
      refine RunsNothing.bind (runsNothing_writeSshFiles _ _ _) fun written => ?_
      match written with
      | .error _ =>
        exact (runsNothing_ask fun _ hr => by cases hr).bind fun _ => runsNothing_done _
      | .ok _ => exact runsNothing_done _

theorem runsNothing_closeSession (session : Session) : RunsNothing (closeSession session) := by
  unfold closeSession
  cases session.scratch with
  | none => exact runsNothing_done _
  | some scratch =>
    exact (runsNothing_ask fun _ hr => by cases hr).bind fun _ => runsNothing_done _

theorem commands_frame {r : Except Error α} {r' : Except Error β} {h' : Transcript Host}
    (hc : s.Unopened request h r ∨ s.InTurn request root h r) (hin : h <:+: h')
    (hruns : runs h' = runs h) (hr : ∀ e, r = .error e → r' = .error e) :
    s.Unopened request h' r' ∨ s.InTurn request root h' r' := by
  rcases hc with ⟨h₁, e, hopen, opened, hnone, he⟩ | ⟨session, h₁, x, hopen, opened, taken, hx⟩
  · exact .inl ⟨h₁, e, hopen.trans hin, opened, hruns.trans hnone, hr e he⟩
  · exact .inr ⟨session, h₁, x, hopen.trans hin, opened, hruns ▸ taken,
      fun e he => hr e (hx e he)⟩

theorem Cloned.commands {r : Except Error String} (hc : Cloned s request root h r) :
    s.Unopened request h r ∨ s.InTurn request root h r := by
  cases hc with
  | @unopened h e opened =>
    have hnone := RunsNothing.runs_eq_nil (runsNothing_openSession _ _) opened
    exact .inl ⟨h, e, List.infix_rfl, opened, hnone, rfl⟩
  | @closed h₁ h₂ h₃ session r opened taken closed =>
    have hruns : runs (h₁ ++ (h₂ ++ h₃)) = h₂ := by
      rw [runs_append, runs_append, RunsNothing.runs_eq_nil (runsNothing_openSession _ _) opened,
        taken.runs_eq, RunsNothing.runs_eq_nil (runsNothing_closeSession _) closed,
        List.nil_append, List.append_nil]
    refine .inr ⟨session, h₁, r, (List.prefix_append _ _).isInfix, opened, ?_, fun _ => id⟩
    rwa [hruns]

theorem fetch_commands {r : Except Error Checkout}
    (he : (s.fetch request root directory).Ends h r) :
    s.Unopened request h r ∨ s.InTurn request root h r := by
  rcases ends_fetch_iff.1 he with
    ⟨e, rfl, cloned⟩ | ⟨h₁, h₂, commit, found, rfl, cloned, hfind, rfl⟩
  · exact commands_frame cloned.commands List.infix_rfl rfl
      fun _ hr => congrArg _ (Except.error.inj hr)
  · have hquiet : runs h₂ = [] := RunsNothing.runs_eq_nil (runsNothing_ensureProject _ _) hfind
    refine commands_frame cloned.commands (List.prefix_append _ _).isInfix ?_ nofun
    rw [runs_append, hquiet, List.append_nil]

theorem Kept.handled {r : Except Error Checkout} (hk : Kept s request root directory h r)
    (drawn : String) : Handled s request root (s.arrival request drawn ++ h) r := by
  have harrival : runs (s.arrival request drawn) = [] := rfl
  cases hk with
  | ready fetched =>
    refine ⟨commands_frame (fetch_commands fetched) (List.suffix_append _ _).isInfix ?_
      fun _ => id, nofun⟩
    rw [runs_append, harrival, List.nil_append]
  | @removed h e reply fetched =>
    have hin : h <:+: s.arrival request drawn ++ (h ++ [⟨.removeTree root, reply⟩]) :=
      ⟨_, _, List.append_assoc _ _ _⟩
    have hlast : runs [⟨.removeTree root, reply⟩] = [] := rfl
    refine ⟨commands_frame (fetch_commands fetched) hin ?_ fun _ => id,
      fun _ _ => ⟨s.arrival request drawn ++ h, reply, (List.append_assoc _ _ _).symm⟩⟩
    rw [runs_append, runs_append, harrival, hlast, List.nil_append, List.append_nil]

/-- Programs are run only for the steps, and only for a request that is not turned down. -/
theorem inTurn_of_run {r : Except Error Checkout} {c : Host.Command}
    {reply : Except Host.Fault Host.Output} (he : (s.prepare request).Ends h r)
    (hc : ⟨.runProgram c, reply⟩ ∈ h) :
    (∃ directory, Accepts request directory) ∧ ⟨.runProgram c, reply⟩ ∈ runs h ∧
      ∃ id, s.InTurn request (s.clonePath request.repo id) h r := by
  have hrun : ⟨.runProgram c, reply⟩ ∈ runs h := List.mem_filter.2 ⟨hc, rfl⟩
  by_cases ha : ∃ directory, Accepts request directory
  · refine ⟨ha, hrun, ?_⟩
    obtain ⟨directory, ha⟩ := ha
    rcases (ends_prepare_iff ha).1 he with ⟨fault, rfl, -⟩ | ⟨id, h', rfl, hkept⟩
    · cases List.mem_singleton.1 hc
    · rcases (hkept.handled id).commands with ⟨_, _, _, _, hnone, _⟩ | hturn
      · rw [hnone] at hrun
        cases hrun
      · exact ⟨id, hturn⟩
  · obtain ⟨text, hp⟩ := prepare_of_not_accepts (s := s) (not_exists.1 ha)
    rw [hp] at he
    rw [(ends_done_iff.1 he).1] at hc
    cases hc

/-! ## On a machine in memory -/

open Rehearsal (idText)

theorem hexDigit_ne_slash : ∀ n < 16, Digest.Md5.hexDigit n ≠ '/' := by
  decide

/-- Clones are told apart by names, so a clone is right below the directory of all clones. -/
theorem isName_clone (repo : String) (n : Nat) :
    FileTree.IsName (Digest.Md5.hex repo ++ "-" ++ idText n) := by
  have hdash : '-' ∈ (Digest.Md5.hex repo ++ "-" ++ idText n).toList := by simp
  refine ⟨?_, fun hslash => ?_, ?_, ?_⟩
  · intro he
    rw [he] at hdash
    cases hdash
  · rw [String.toList_append, String.toList_append, List.mem_append, List.mem_append] at hslash
    rcases hslash with (hhex | hsep) | hid
    · unfold Digest.Md5.hex at hhex
      rw [String.toList_ofList, List.mem_flatMap] at hhex
      obtain ⟨b, -, hb⟩ := hhex
      have hlt := b.toNat_lt
      rcases List.mem_cons.1 hb with hd | hd
      · exact hexDigit_ne_slash _ (by omega) hd.symm
      · exact hexDigit_ne_slash _ (by omega) (List.mem_singleton.1 hd).symm
    · exact absurd hsep (by decide)
    · unfold idText at hid
      rw [String.toList_ofList, List.mem_append] at hid
      rcases hid with hzero | hdigit
      · exact absurd (List.eq_of_mem_replicate hzero) (by decide)
      · rw [Nat.toString_eq_repr, Nat.toList_repr] at hdigit
        exact absurd (Text.isDigit_of_mem_toDigits hdigit) (by decide)
  · intro he
    rw [he] at hdash
    exact absurd hdash (by decide)
  · intro he
    rw [he] at hdash
    exact absurd hdash (by decide)

theorem follow_clonePath_ne_nil (s : GitSource) (here : Location) (repo : String) (n : Nat) :
    FileTree.follow here (s.clonePath repo (idText n)) ≠ [] := by
  unfold clonePath
  rw [(FileTree.Below.of_join (isName_clone repo n).spells).follow_eq]
  exact List.append_ne_nil_of_right_ne_nil _ (List.cons_ne_nil _ _)

theorem leadsToDirectory_of_remove {m : Rehearsal}
    (hroot : FileTree.follow m.here root ≠ []) :
    (m.play (remove root)).2.tree.leadsToDirectory (m.play (remove root)).2.here root = false := by
  have hplay : (m.play (remove root)).2 = (m.changed (m.tree.removeTree m.here root)).2 := by
    rw [remove_eq]
    rfl
  rw [hplay]
  cases hr : m.tree.removeTree m.here root with
  | ok tree => exact FileTree.leadsToDirectory_of_removeTree hroot hr
  | error f => exact FileTree.leadsToDirectory_of_removeTree_eq_error hr

theorem no_clone_of_handOut {m m' : Rehearsal} {fetched : Except Error Checkout} {e : Error}
    (hroot : ∀ here, FileTree.follow here root ≠ [])
    (hp : m.play (handOut root fetched) = (.error e, m')) :
    m'.tree.leadsToDirectory m'.here root = false := by
  cases fetched with
  | ok c => cases congrArg Prod.fst hp
  | error e' =>
    have hlast : m.play (handOut root (.error e')) = (.error e', (m.play (remove root)).2) :=
      Dialogue.run_bind _ _ _ m
    rw [hlast] at hp
    obtain rfl : (m.play (remove root)).2 = m' := congrArg Prod.snd hp
    exact leadsToDirectory_of_remove (hroot _)

/-- A preparation that fails leaves the files as they are, or no directory where its clone was. -/
theorem no_clone_of_prepare {m m' : Rehearsal} {e : Error}
    (hp : m.play (s.prepare request) = (.error e, m')) :
    m'.tree = m.tree ∨
      m'.tree.leadsToDirectory m'.here (s.clonePath request.repo (idText m.idsGiven)) = false := by
  by_cases ha : ∃ directory, Accepts request directory
  · obtain ⟨directory, ha⟩ := ha
    have hplay : m.play (s.prepare request) =
        (m.changed (m.tree.makeDirectories m.here s.workDirectory)).2.play (s.fetchNew request
          directory (m.changed (m.tree.makeDirectories m.here s.workDirectory)).1) := by
      rw [prepare_of_accepts ha]
      rfl
    rw [hplay] at hp
    cases hmade : m.tree.makeDirectories m.here s.workDirectory with
    | error fault =>
      rw [hmade] at hp
      obtain rfl : m = m' := congrArg Prod.snd hp
      exact .inl rfl
    | ok tree =>
      rw [hmade] at hp
      change Rehearsal.play (s.fetch request (s.clonePath request.repo (idText m.idsGiven))
        directory >>= handOut _) _ = _ at hp
      exact .inr (no_clone_of_handOut (fun here => follow_clonePath_ne_nil s here _ _)
        ((Dialogue.run_bind _ _ _ _).symm.trans hp))
  · obtain ⟨text, hq⟩ := prepare_of_not_accepts (s := s) (not_exists.1 ha)
    rw [hq] at hp
    obtain rfl : m = m' := congrArg Prod.snd hp
    exact .inl rfl

/-- What a preparation comes to. A request that is turned down asks nothing of the machine. A clone
is handed out exactly if everything on the way succeeds, with the commit that git printed. Where a
request is not turned down, nothing else is asked if there is no place for clones; otherwise git is
run for the steps of the revision in turn, up to the first that fails, and after an error the clone
is removed. On a machine in memory no directory of it is left. -/
theorem prepare_settles (s : GitSource) (request : SourceRequest) :
    ((∀ directory, ¬Accepts request directory) →
      ∃ text, s.prepare request = .done (.error (.config text))) ∧
    (∀ h c, (s.prepare request).Ends h (.ok c) ↔ Ready s request h c) ∧
    (∀ h c, Ready s request h c → ∃ session output,
      s.ranStep session (.head c.root) (.ok output) ∈ h ∧ output.succeeded = true ∧
        c.commit = Text.trim (Utf8.decodeLossy output.stdout)) ∧
    (∀ directory h r, Accepts request directory → (s.prepare request).Ends h r →
      (∃ fault, h = [⟨.makeDirectories s.workDirectory, .error fault⟩] ∧
        r = .error (.io fault.message)) ∨
      ∃ id h', h = s.arrival request id ++ h' ∧
        Handled s request (s.clonePath request.repo id) h r) ∧
    ∀ (m m' : Rehearsal) e, m.play (s.prepare request) = (.error e, m') →
      m'.tree = m.tree ∨
        m'.tree.leadsToDirectory m'.here (s.clonePath request.repo (idText m.idsGiven)) = false := by
  refine ⟨prepare_of_not_accepts, fun h c => ends_prepare_ok_iff, fun h c hc => hc.exists_head, ?_,
    fun m m' e hp => no_clone_of_prepare hp⟩
  intro directory h r ha he
  rcases (ends_prepare_iff ha).1 he with hnone | ⟨id, h', rfl, hkept⟩
  · exact .inl hnone
  · exact .inr ⟨id, h', rfl, hkept.handled id⟩

end StackKeeper.GitSource

import StackKeeper.Credentials
import StackKeeper.Engine.CommandLine
import StackKeeper.Proofs.Lists
import StackKeeper.Proofs.Lookup.Failure
import StackKeeper.Proofs.Source.Concealment
import StackKeeper.Proofs.Stack.Spec

/-!
# What accepted specifications come to

A specification that is accepted is checked again where it is used: when the engine selects its
stack, when its credentials are looked up, and when its source is prepared. These checks find
nothing new, but for one of them: the directory of the project is looked at by the source alone, so
a specification whose directory leads out of the repository is accepted, and never gets a source.
-/

namespace StackKeeper

open Dialogue (ends_ask_iff ends_bind_iff ends_done_iff)
open Lookup

/-! ## Directories -/

namespace Path

/-- A path that neither starts at the root nor has a step up. -/
def Inside (p : String) : Prop :=
  isAbsolute p = false ∧ ['.', '.'] ∉ Text.splitOnChar '/' p.toList

instance (p : String) : Decidable (Inside p) := inferInstanceAs (Decidable (_ ∧ _))

variable {p : String} {piece : List Char}

theorem partOf_eq_parent_iff : partOf piece = some .parent ↔ piece = ['.', '.'] := by
  unfold partOf
  split
  next h =>
    have hne : piece ≠ ['.', '.'] := by
      rintro rfl
      cases h
    simp [hne]
  next =>
    split
    next h => simpa using h
    next h => simpa using h

theorem partOf_ne_root : partOf piece ≠ some .root := by
  unfold partOf
  split
  · nofun
  · split <;> nofun

theorem parent_mem_filterMap_iff {pieces : List (List Char)} :
    Part.parent ∈ pieces.filterMap partOf ↔ ['.', '.'] ∈ pieces := by
  simp only [List.mem_filterMap, partOf_eq_parent_iff, exists_eq_right]

theorem mem_front (part : Part) (hpart : part ≠ .current) :
    part ∈ (if piece == ['.'] then [Part.current] else (partOf piece).toList) ↔
      partOf piece = some part := by
  split
  next h =>
    obtain rfl : piece = ['.'] := by simpa using h
    simp [partOf, hpart]
  next => rw [Option.mem_toList]

/-- Only a slash in front is the root, and only two dots are a step up. -/
theorem inside_iff : Inside p ↔ Part.root ∉ parts p ∧ Part.parent ∉ parts p := by
  unfold Inside isAbsolute parts
  -- the first piece is empty if the text is, or if it starts with a slash
  cases hp : p.toList with
  | nil =>
    obtain rfl : p = "" := String.toList_inj.1 hp
    simp [Text.splitOnChar]
  | cons c cs =>
    have hempty : p.isEmpty = false := by
      rw [String.isEmpty_eq_false_iff]
      rintro rfl
      cases hp
    by_cases hc : c = '/'
    · subst hc
      simp [Text.splitOnChar, hempty]
    · have hfirst : ∃ piece more, Text.splitOnChar '/' (c :: cs) = (c :: piece) :: more := by
        rw [Text.splitOnChar, if_neg hc]
        split
        · exact ⟨_, _, rfl⟩
        · exact ⟨_, _, rfl⟩
      obtain ⟨piece, more, hs⟩ := hfirst
      rw [hs]
      dsimp only
      rw [List.mem_append, List.mem_append, mem_front .root (by decide),
        mem_front .parent (by decide), partOf_eq_parent_iff, parent_mem_filterMap_iff,
        List.mem_cons, @eq_comm _ ['.', '.'] (c :: piece)]
      simp [partOf_ne_root, hc]

end Path

/-! ## Sources -/

/-- Whatever is replied, the end is no error of the configuration. -/
def Unfaulted {α : Type} (d : Host.Talk (Except Error α)) : Prop :=
  ∀ h text, ¬d.Ends h (.error (.config text))

section Unfaulted

variable {α β : Type}

theorem unfaulted_done {x : Except Error α} (hx : ∀ text, x ≠ .error (.config text)) :
    Unfaulted (.done x) :=
  fun _ text he => hx text (ends_done_iff.1 he).2

theorem unfaulted_ok (a : α) : Unfaulted (.done (.ok a) : Host.Talk (Except Error α)) :=
  unfaulted_done fun _ heq => by cases heq

theorem unfaulted_error {e : Error} (he : ∀ text, e ≠ .config text) :
    Unfaulted (.done (.error e) : Host.Talk (Except Error α)) :=
  unfaulted_done fun text heq => he text (Except.error.inj heq)

theorem Unfaulted.after {f : β → Host.Talk (Except Error α)} (hf : ∀ b, Unfaulted (f b))
    (d : Host.Talk β) : Unfaulted (d.bind f) := by
  intro h text he
  obtain ⟨h₁, h₂, b, rfl, -, he⟩ := ends_bind_iff.1 he
  exact hf b h₂ text he

theorem Unfaulted.bind {d : Host.Talk (Except Error β)}
    {f : Except Error β → Host.Talk (Except Error α)} (hd : Unfaulted d)
    (hok : ∀ b, Unfaulted (f (.ok b)))
    (herror : ∀ e, (∀ text, e ≠ .config text) → Unfaulted (f (.error e))) :
    Unfaulted (d.bind f) := by
  intro h text he
  obtain ⟨h₁, h₂, x, rfl, hx, he⟩ := ends_bind_iff.1 he
  cases x with
  | ok b => exact hok b h₂ text he
  | error e =>
    refine herror e (fun text' heq => ?_) h₂ text he
    exact hd h₁ text' (heq ▸ hx)

end Unfaulted

namespace GitSource

variable {s : GitSource} {session : Session} {request : SourceRequest}

theorem unfaulted_run (step : String) (args : List String) (directory : Option String) :
    Unfaulted (s.run session step args directory) := by
  intro h text he
  obtain ⟨reply, -, ho⟩ := ends_run_iff.1 he
  unfold outcome at ho
  split at ho
  · cases ho
  · split at ho
    · cases ho
    · rcases diagnose_cases step _ with hd | hd <;> rw [hd] at ho <;> cases ho

theorem unfaulted_cloneIn (revision : Revision) (target : String) :
    Unfaulted (s.cloneIn session revision target) := by
  have hcheckout : Unfaulted (s.checkOut session target revision) := by
    cases revision with
    | commit sha =>
      refine (unfaulted_run "checkout" _ _).bind (fun _ => unfaulted_ok _) fun e he => ?_
      exact unfaulted_error he
    | branch name => exact unfaulted_ok _
    | defaultBranch => exact unfaulted_ok _
  refine (unfaulted_run "clone" _ _).bind (fun _ => ?_) fun e => unfaulted_error
  exact hcheckout.bind (fun _ => unfaulted_run "rev-parse" _ _) fun e => unfaulted_error

theorem loginSession_ne_config (repo username password text : String) :
    s.loginSession repo username password ≠ .error (.config text) := by
  unfold loginSession urlWithLogin
  intro he
  split at he
  · cases he
  · split at he
    · cases he
    · split at he
      · cases he
      · cases he

theorem unfaulted_openSession (repo : String) (credentials : Option Credentials) :
    Unfaulted (s.openSession repo credentials) := by
  match credentials with
  | none => exact unfaulted_ok _
  | some (.accessToken token) => exact unfaulted_done (loginSession_ne_config _ _ _)
  | some (.basic username password) => exact unfaulted_done (loginSession_ne_config _ _ _)
  | some (.sshKey privateKey passphrase) =>
    refine Unfaulted.after (fun scratch => ?_) _
    cases scratch with
    | error f => exact unfaulted_error fun _ he => by cases he
    | ok scratch =>
      refine Unfaulted.after (fun written => ?_) _
      cases written with
      | error f => exact .after (fun _ => unfaulted_error fun _ he => by cases he) _
      | ok environment => exact unfaulted_ok _

theorem unfaulted_clone (target : String) : Unfaulted (s.clone request target) := by
  refine (unfaulted_openSession _ _).bind (fun session => ?_) fun e => unfaulted_error
  refine (unfaulted_cloneIn _ _).bind (fun commit => ?_) fun e he => ?_
  · exact .after (fun _ => unfaulted_ok _) _
  · exact .after (fun _ => unfaulted_error he) _

theorem unfaulted_ensureProject (directory : String) (names : List String) :
    Unfaulted (ensureProject directory names) := by
  induction names with
  | nil => exact unfaulted_error fun _ he => by cases he
  | cons name rest ih =>
    refine .after (fun found => ?_) _
    match found with
    | .error _ => exact unfaulted_error nofun
    | .ok true => exact unfaulted_ok _
    | .ok false => exact ih

theorem unfaulted_fetch (root directory : String) :
    Unfaulted (s.fetch request root directory) := by
  refine (unfaulted_clone root).bind (fun commit => ?_) fun e => unfaulted_error
  exact (unfaulted_ensureProject _ _).bind (fun _ => unfaulted_ok _) fun e => unfaulted_error

def directoryText (directory : Option String) : String := (directory.map Text.trim).getD ""

def outsideError (directory : Option String) : Error :=
  .config s!"repoDir {directoryText directory} must be a relative path inside the repository"

theorem projectDirectory_eq (directory : Option String) :
    (Path.Inside (directoryText directory) → ∃ names, projectDirectory directory = .ok names) ∧
    (¬Path.Inside (directoryText directory) →
      projectDirectory directory = .error (outsideError directory)) := by
  have hany : ((Path.parts (directoryText directory)).any
      fun part => part == .root || part == .parent) = true ↔
      ¬Path.Inside (directoryText directory) := by
    rw [Path.inside_iff, List.any_eq_true]
    simp only [Bool.or_eq_true, beq_iff_eq]
    constructor
    · rintro ⟨part, hm, rfl | rfl⟩ ⟨hroot, hparent⟩
      · exact hroot hm
      · exact hparent hm
    · intro h
      by_cases hroot : Path.Part.root ∈ Path.parts (directoryText directory)
      · exact ⟨_, hroot, .inl rfl⟩
      · exact ⟨_, Classical.byContradiction fun hparent => h ⟨hroot, hparent⟩, .inr rfl⟩
  unfold projectDirectory
  constructor
  · intro hin
    exact ⟨_, if_neg fun h => hany.1 h hin⟩
  · intro hout
    exact if_pos (hany.2 hout)

theorem prepare_of_outside (hrepo : Text.isAllBlank request.repo = false)
    (hd : ¬Path.Inside (directoryText request.directory)) :
    s.prepare request = .done (.error (outsideError request.directory)) := by
  unfold prepare
  rw [if_neg (by simp [hrepo]), (projectDirectory_eq _).2 hd]
  rfl

theorem unfaulted_prepare (hrepo : Text.isAllBlank request.repo = false)
    (hd : Path.Inside (directoryText request.directory)) : Unfaulted (s.prepare request) := by
  obtain ⟨names, hnames⟩ := (projectDirectory_eq _).1 hd
  unfold prepare
  rw [if_neg (by simp [hrepo]), hnames]
  refine .after (fun made => ?_) _
  cases made with
  | error f => exact unfaulted_error nofun
  | ok u =>
    refine .after (fun id => .after (fun _ => ?_) _) _
    refine (unfaulted_fetch _ _).bind (fun checkout => unfaulted_ok _) fun e he => ?_
    exact .after (fun _ => unfaulted_error he) _

end GitSource
/-! ## Engines -/

namespace Engine

theorem diagnose_ne_config (operation output text : String) :
    diagnose operation output ≠ .config text := by
  unfold diagnose
  dsimp only
  repeat' split
  all_goals nofun

theorem Controller.unfaulted_capture (c : Controller) (operation : String) (args : List String) :
    Unfaulted (c.capture operation args) := by
  refine .after (fun reply => ?_) _
  cases reply with
  | error f => exact unfaulted_error nofun
  | ok output =>
    dsimp only
    split
    · exact unfaulted_ok _
    · exact unfaulted_error (diagnose_ne_config _ _)

theorem Controller.select_ne_config {c c' : Controller} {stack : String}
    (hs : Text.isAllBlank stack = false) (provider : Option String) {h : Transcript Host}
    {text : String} : ¬(c.select stack provider).Ends h (.error (.config text), c') := by
  intro he
  unfold select at he
  rw [if_neg (by simp [hs])] at he
  obtain ⟨h₁, h₂, x, rfl, hx, he⟩ := ends_bind_iff.1 he
  cases x with
  | error e =>
    obtain ⟨-, heq⟩ := ends_done_iff.1 he
    obtain rfl := Except.error.inj (Prod.mk.inj heq).1
    exact c.unfaulted_capture _ _ h₁ text hx
  | ok out =>
    obtain ⟨-, heq⟩ := ends_done_iff.1 he
    cases (Prod.mk.inj heq).1

end Engine

/-! ## Credentials -/

namespace Credentials

/-- A reference to a part of the credentials could not be resolved. -/
def Unresolved (a : GitAuth) (r : Resolver) (h : Transcript Lookup) (e : Error) : Prop :=
  ∃ reference ∈ a.references, ∃ (what : String) (failure : Error),
    (r.resolve reference).run.Ends h (.error failure) ∧
      e = .auth s!"resolving {what}: {failure.message}"

/-- The credentials that a specification asks for are not there, or not usable. -/
inductive Unavailable (s : Stack.Spec) (r : Resolver) (ns : String) (h : Transcript Lookup) :
    Error → Prop where
  | part {a : GitAuth} {h₁ h₂ h₃ : Transcript Lookup} {e : Error} (ha : s.gitAuth = some a)
      (hh : h = h₁ ++ (h₂ ++ h₃)) (he : Unresolved a r h₂ e) : Unavailable s r ns h e
  | unread {name : String} {e : Error} (hs : s.gitAuthSecret = some name)
      (hh : h = [⟨.secret ⟨ns, name⟩, .error e⟩]) :
      Unavailable s r ns h (.auth s!"reading git auth secret: {e.message}")
  | unusable {name : String} {data : Dict String} {e : Error} (hs : s.gitAuthSecret = some name)
      (hh : h = [⟨.secret ⟨ns, name⟩, .ok data⟩]) (he : ofSecret name data = .error e) :
      Unavailable s r ns h e

variable {a : GitAuth} {r : Resolver}

theorem failsBy_resolvePart (what : String) {reference : Reference}
    (hm : reference ∈ a.references) : FailsBy (Unresolved a r) (resolvePart r what reference) :=
  failsBy_failingAs fun _ failure he => ⟨reference, hm, what, failure, he, rfl⟩

theorem failsBy_ofReferences (hv : a.validate = .ok ()) :
    FailsBy (Unresolved a r) (ofReferences a r) := by
  have hpart : ∀ what, ∀ reference ∈ a.references,
      FailsBy (Unresolved a r) (resolvePart r what reference) :=
    fun what _ hm => failsBy_resolvePart what hm
  unfold ofReferences
  rw [hv]
  dsimp only
  unfold GitAuth.references at hpart
  split
  next token htoken => exact (hpart _ _ (by simp [htoken])).map _
  next ssh _ hssh =>
    refine (hpart _ _ (by simp [hssh])).bind fun privateKey => ?_
    cases hpassword : ssh.password with
    | none => exact failsBy_pure _
    | some password =>
      have hm : FailsBy (Unresolved a r) (resolvePart r "ssh key password" password) :=
        hpart _ _ (by simp [hssh, hpassword])
      exact (hm.map some).bind fun passphrase => failsBy_pure _
  next login _ _ hlogin =>
    refine (hpart _ _ (by simp [hlogin])).bind fun username => ?_
    exact (hpart _ _ (by simp [hlogin])).bind fun password => failsBy_pure _
  next htoken hssh hlogin =>
    -- no method at all was refused before
    unfold GitAuth.validate at hv
    rw [if_pos (by simp [GitAuth.methodCount, htoken, hssh, hlogin])] at hv
    cases hv

/-- What an accepted specification asks for is looked up, and no more is found fault with. -/
theorem unavailable_of_valid {s : Stack.Spec} (hv : s.Valid) {ns : String}
    {h : Transcript Lookup} {e : Error} (he : (resolve s r ns).run.Ends h (.error e)) :
    Unavailable s r ns h e := by
  unfold resolve at he
  split at he
  next a name ha hname =>
    obtain ⟨-, hnone⟩ := hv.auth a ha
    cases hnone.symm.trans hname
  next a ha hnone =>
    obtain ⟨h₁, h₂, h₃, hh, hP⟩ := (failsBy_ofReferences (hv.auth a ha).1).map some h e he
    exact .part ha hh hP
  next name hnone hname =>
    obtain ⟨h₁, h₂, x, rfl, hx, htail⟩ := ends_bind_iff.1 he
    obtain ⟨y, hy, rfl⟩ := ends_failingAs_iff.1 hx
    obtain rfl := ends_secret_iff.1 hy
    cases y with
    | error e' =>
      obtain ⟨rfl, heq⟩ := ends_done_iff.1 htail
      obtain rfl := Except.error.inj heq
      exact .unread hname rfl
    | ok data =>
      obtain ⟨k₁, k₂, z, rfl, hz, htail⟩ := ends_bind_iff.1 htail
      obtain ⟨rfl, rfl⟩ := ends_done_iff.1 hz
      cases hdata : ofSecret name data with
      | ok credentials =>
        rw [hdata] at htail
        cases (ends_done_iff.1 htail).2
      | error e' =>
        rw [hdata] at htail
        obtain ⟨rfl, heq⟩ := ends_done_iff.1 htail
        obtain rfl := Except.error.inj heq
        exact .unusable hname rfl hdata
  next => cases (ends_done_iff.1 he).2

end Credentials

/-! ## Later checks -/

namespace Stack.Spec

def source (s : Spec) (revision : Revision) (credentials : Option Credentials) : SourceRequest :=
  ⟨s.projectRepo, revision, s.repoDir, credentials⟩

/-- An accepted specification has a revision and the name of a stack that can be selected, and
credentials fail it only where they are looked up. The source takes it exactly if its directory is
inside of the repository, and otherwise refuses it before anything is asked for. -/
theorem validate_anticipates (s : Spec) (hv : s.validate = .ok ()) :
    (∃ revision, s.revision = .ok revision) ∧
    (∀ (c c' : Engine.Controller) h text,
      ¬(c.select s.stack s.secretsProvider).Ends h (.error (.config text), c')) ∧
    (∀ r ns h e, (Credentials.resolve s r ns).run.Ends h (.error e) →
      Credentials.Unavailable s r ns h e) ∧
    ∀ (g : GitSource) revision credentials,
      (Path.Inside (GitSource.directoryText s.repoDir) ↔
        Unfaulted (g.prepare (s.source revision credentials))) ∧
      (¬Path.Inside (GitSource.directoryText s.repoDir) →
        g.prepare (s.source revision credentials) =
          .done (.error (GitSource.outsideError s.repoDir))) := by
  have hvalid : s.Valid := validate_eq_ok_iff.1 hv
  have houtside : ∀ (g : GitSource) revision credentials,
      ¬Path.Inside (GitSource.directoryText s.repoDir) →
        g.prepare (s.source revision credentials) =
          .done (.error (GitSource.outsideError s.repoDir)) :=
    fun g revision credentials hout => GitSource.prepare_of_outside hvalid.repo hout
  refine ⟨hvalid.revision, fun c c' h text => ?_, fun r ns h e => ?_,
    fun g revision credentials => ⟨⟨fun hin => ?_, fun hun => ?_⟩, houtside g revision credentials⟩⟩
  · exact Engine.Controller.select_ne_config hvalid.stack _
  · exact Credentials.unavailable_of_valid hvalid
  · exact GitSource.unfaulted_prepare hvalid.repo hin
  · refine Classical.byContradiction fun hout => ?_
    rw [houtside g revision credentials hout] at hun
    exact hun [] _ (.stay _)

def nested (directory : String) : Spec :=
  { (default : Spec) with
    stack := "acme/app", projectRepo := "acme/app.git", repoDir := some directory }

theorem validate_nested (directory : String) : (nested directory).validate = .ok () := by
  have hstack : Text.isAllBlank "acme/app" = false := by
    decide
  have hrepo : Text.isAllBlank "acme/app.git" = false := by
    decide
  have hnone : (nested directory).references = [] := rfl
  have hopen : (nested directory).gitAuth = none := rfl
  refine validate_eq_ok_iff.2 ⟨hstack, hrepo, ⟨.defaultBranch, rfl⟩, ?_, ?_⟩
  · rw [hnone]
    exact List.forall_mem_nil _
  · rw [hopen]
    intro a ha
    cases ha

/-- A directory of the repository is no fault of the configuration. -/
theorem validate_anticipates_nested : (nested "./stacks/app").validate = .ok () ∧
    ∀ g : GitSource, Unfaulted (g.prepare ((nested "./stacks/app").source .defaultBranch none)) := by
  have hv := validate_nested "./stacks/app"
  have hin : Path.Inside (GitSource.directoryText (some "./stacks/app")) := by
    decide +kernel
  obtain ⟨-, -, -, hsource⟩ := validate_anticipates _ hv
  exact ⟨hv, fun g => (hsource g _ _).1.1 hin⟩

/-- A directory beside the repository is accepted, but no source is ever prepared for it. -/
theorem straying_accepted : (nested "../shared").validate = .ok () ∧
    ∀ (g : GitSource) revision credentials,
      g.prepare ((nested "../shared").source revision credentials) = .done (.error
        (.config "repoDir ../shared must be a relative path inside the repository")) := by
  refine ⟨validate_nested _, fun g revision credentials => ?_⟩
  have hrepo : Text.isAllBlank "acme/app.git" = false := by
    decide
  have hout : ¬Path.Inside (GitSource.directoryText (some "../shared")) := by
    decide +kernel
  have htext : GitSource.outsideError (some "../shared") =
      .config "repoDir ../shared must be a relative path inside the repository" := by
    decide +kernel
  rw [← htext]
  exact GitSource.prepare_of_outside hrepo hout

end Stack.Spec

end StackKeeper

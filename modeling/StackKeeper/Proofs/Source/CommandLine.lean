import StackKeeper.Proofs.Source.Preparation

/-!
# What git reads as an option

A word that begins with a dash is an option for git, unless the option in front of it takes it as
its argument, or two dashes stand somewhere before it. The remote and the branch of a request always
stand so. A commit does not: it is safe exactly if it does not look like an option.
-/

namespace StackKeeper.GitSource

variable {s : GitSource} {session : Session} {request : SourceRequest} {h : Transcript Host}
  {root sha : String}

def LooksLikeOption (text : String) : Prop := text.toList.head? = some '-'

instance (text : String) : Decidable (LooksLikeOption text) :=
  inferInstanceAs (Decidable (_ = _))

/-- The options among those of the program that the next word belongs to. -/
def optionsWithArgument : List String := ["--depth", "--branch"]

/-- What stands before a word of the request keeps git from reading it as an option, or it does not
look like one. -/
def Safe (before : List Word) (text : String) : Prop :=
  (∃ option ∈ optionsWithArgument, before.getLast? = some (.own option)) ∨
    .own "--" ∈ before ∨ ¬LooksLikeOption text

/-- Every word of the request is safe where it stands. -/
def Guarded (line : List Word) : Prop :=
  ∀ before text after, line = before ++ .given text :: after → Safe before text

/-- The words that git reads as options. `taken` says that the first word belongs to an option in
front of it. A dash alone is no option, and two dashes end the options. -/
def optionsIn (taken : Bool) : List Word → List Word
  | [] => []
  | w :: rest =>
    if taken then optionsIn false rest
    else if w.text = "--" then []
    else if LooksLikeOption w.text ∧ w.text ≠ "-" then
      w :: optionsIn (optionsWithArgument.contains w.text) rest
    else optionsIn false rest

/-- Some preparation of the request runs the step. -/
inductive Builds (s : GitSource) (request : SourceRequest) : Step → Prop where
  | mk {h h₁ : Transcript Host} {r : Except Error Checkout} {session : Session} {id : String}
      {x : Step} {reply : Except Host.Fault Host.Output}
      (ends : (s.prepare request).Ends h r)
      (opened : (s.openSession request.repo request.credentials).Ends h₁ (.ok session))
      (step : x ∈ steps session.url (s.clonePath request.repo id) request.revision)
      (ran : s.ranStep session x reply ∈ h) : Builds s request x

/-! ## Lines -/

theorem forall_given_cons {w : Word} {rest : List Word} {P : List Word → String → Prop} :
    (∀ before text after, w :: rest = before ++ .given text :: after → P before text) ↔
      (∀ text, w = .given text → P [] text) ∧
        ∀ before text after, rest = before ++ .given text :: after → P (w :: before) text := by
  constructor
  · intro h
    refine ⟨fun text hw => h [] text rest (by rw [hw]; rfl), fun before text after hr => ?_⟩
    exact h (w :: before) text after (by rw [hr]; rfl)
  · rintro ⟨hfirst, hrest⟩ before text after hl
    rcases before with _ | ⟨v, before⟩
    · exact hfirst text (List.cons.inj hl).1
    · obtain ⟨rfl, hr⟩ := List.cons.inj hl
      exact hrest before text after hr

theorem guarded_clone (url target : String) (r : Revision) :
    Guarded (Step.clone url target r).line := by
  unfold Guarded
  cases r <;> simp [Step.clone, Step.revisionOptions, forall_given_cons, Safe, optionsWithArgument]

theorem guarded_checkout_iff (target : String) :
    Guarded (Step.checkout sha target).line ↔ ¬LooksLikeOption sha := by
  unfold Guarded
  simp [Step.checkout, forall_given_cons, Safe, optionsWithArgument]

theorem guarded_head (target : String) : Guarded (Step.head target).line := by
  unfold Guarded
  simp [Step.head, forall_given_cons]

theorem optionsIn_clone (url target : String) (r : Revision) :
    ∀ w ∈ optionsIn false (Step.clone url target r).line, ∃ text, w = .own text := by
  have hline : ∃ options : List String,
      optionsIn false (Step.clone url target r).line = options.map .own := by
    cases r with
    | branch name => exact ⟨["--depth", "--single-branch", "--branch"], rfl⟩
    | defaultBranch => exact ⟨["--depth"], rfl⟩
    | commit sha => exact ⟨["--no-checkout"], rfl⟩
  obtain ⟨options, hoptions⟩ := hline
  rw [hoptions]
  intro w hw
  obtain ⟨text, -, rfl⟩ := List.mem_map.1 hw
  exact ⟨text, rfl⟩

theorem optionsIn_checkout (target : String) (hsha : ¬LooksLikeOption sha) :
    optionsIn false (Step.checkout sha target).line = [.own "--detach"] := by
  have hdashes : sha ≠ "--" := fun heq => hsha (heq ▸ by decide)
  have hlast : optionsIn false [.given sha] = [] := by
    simp [optionsIn, Word.text, hdashes, hsha]
  exact congrArg (List.cons (Word.own "--detach")) hlast

/-- A step reads nothing of the request as an option, if its commit does not look like one. -/
theorem safe_steps {url target : String} {revision : Revision} {x : Step}
    (hx : x ∈ steps url target revision)
    (hsha : ∀ sha, revision = .commit sha → ¬LooksLikeOption sha) :
    Guarded x.line ∧ ∀ w ∈ optionsIn false x.line, ∃ text, w = .own text := by
  have hclone := And.intro (guarded_clone url target revision) (optionsIn_clone url target revision)
  have hhead : Guarded (Step.head target).line ∧
      ∀ w ∈ optionsIn false (Step.head target).line, ∃ text, w = .own text :=
    ⟨guarded_head target, nofun⟩
  cases revision with
  | commit sha =>
    have hsafe := hsha sha rfl
    simp only [steps, List.mem_cons, List.not_mem_nil, or_false] at hx
    rcases hx with rfl | rfl | rfl
    · exact hclone
    · refine ⟨(guarded_checkout_iff target).2 hsafe, ?_⟩
      rw [optionsIn_checkout target hsafe]
      exact List.forall_mem_singleton.2 ⟨_, rfl⟩
    · exact hhead
  | branch name =>
    simp only [steps, List.mem_cons, List.not_mem_nil, or_false] at hx
    rcases hx with rfl | rfl
    · exact hclone
    · exact hhead
  | defaultBranch =>
    simp only [steps, List.mem_cons, List.not_mem_nil, or_false] at hx
    rcases hx with rfl | rfl
    · exact hclone
    · exact hhead

/-! ## The commands of a preparation -/

/-- A preparation that runs a command was admitted, and the command is one of its steps. -/
theorem admitted_of_run {r : Except Error Checkout} {c : Host.Command}
    {reply : Except Host.Fault Host.Output} (he : (s.prepare request).Ends h r)
    (hc : ⟨.runProgram c, reply⟩ ∈ h) :
    s.Admitted request ∧ ∃ x, s.Builds request x ∧ c.args = x.args := by
  obtain ⟨ha, hrun, id, session, h₁, r', -, opened, taken, -⟩ := inTurn_of_run he hc
  obtain ⟨x, step, reply', heq⟩ := taken.exists_step hrun
  refine ⟨⟨ha, h₁, session, opened⟩, x, .mk he opened step (heq ▸ hc), ?_⟩
  cases heq
  rfl

theorem builds_checkout (ha : s.Admitted request) (hsha : request.revision = .commit sha) :
    ∃ root, s.Builds request (.checkout sha root) := by
  obtain ⟨⟨directory, accepted⟩, h₁, session, opened⟩ := ha
  have step : Step.checkout sha (s.clonePath request.repo "") ∈
      steps session.url (s.clonePath request.repo "") request.revision := by
    rw [hsha]
    exact List.mem_cons_of_mem _ List.mem_cons_self
  have fails : s.outcome session "checkout" (.error .notFound) = .error _ := rfl
  obtain ⟨h₂, taken, hmem⟩ := Taken.exists_failed step fails
  obtain ⟨h, he, hin⟩ := exists_ends_of_failed accepted opened taken
  exact ⟨_, .mk he opened step (hin.subset hmem)⟩

/-- Every command of a preparation is the line of a step. No step has git read a word of the request
as an option, and every such word is safe where it stands, exactly if the commit of a request that
is admitted does not look like an option. -/
theorem prepare_guarded_iff (s : GitSource) (request : SourceRequest) :
    (∀ h r c reply, (s.prepare request).Ends h r → ⟨.runProgram c, reply⟩ ∈ h →
      ∃ x, s.Builds request x ∧ c.args = x.args) ∧
    ((∀ x, s.Builds request x →
        Guarded x.line ∧ ∀ w ∈ optionsIn false x.line, ∃ text, w = .own text) ↔
      (s.Admitted request → ∀ sha, request.revision = .commit sha → ¬LooksLikeOption sha)) := by
  refine ⟨fun h r c reply he hc => (admitted_of_run he hc).2, fun hall ha sha hsha => ?_, ?_⟩
  · obtain ⟨root, hbuilds⟩ := builds_checkout ha hsha
    exact (guarded_checkout_iff root).1 (hall _ hbuilds).1
  · rintro hsafe x ⟨ends, opened, step, ran⟩
    exact safe_steps step (hsafe (admitted_of_run ends ran).1)

def quietRequest : SourceRequest :=
  ⟨"https://example.com/repo", .commit "--quiet", none, none⟩

/-- Git is asked to check out, and reads the commit as an option. -/
theorem commit_read_as_option : ∃ x, Builds ⟨"git", "work"⟩ quietRequest x ∧
    ¬Guarded x.line ∧ .given "--quiet" ∈ optionsIn false x.line := by
  have hadmitted : Admitted ⟨"git", "work"⟩ quietRequest := by
    refine ⟨⟨"", ?_, ?_⟩, [], _, .stay _⟩
    · decide
    · rfl
  obtain ⟨root, hbuilds⟩ := builds_checkout (s := ⟨"git", "work"⟩) hadmitted rfl
  have hread : optionsIn false (Step.checkout "--quiet" root).line =
      [.own "--detach", .given "--quiet"] := rfl
  refine ⟨_, hbuilds, fun hg => (guarded_checkout_iff root).1 hg rfl, ?_⟩
  rw [hread]
  exact List.mem_cons_of_mem _ List.mem_cons_self

end StackKeeper.GitSource

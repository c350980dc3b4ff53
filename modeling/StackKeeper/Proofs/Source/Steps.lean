import StackKeeper.Proofs.Source.Concealment

/-!
# The steps of a clone

A clone is made in a few steps, each of which runs git once: `clone`, for a fixed commit `checkout`,
and `rev-parse`. `Step` keeps for every word of a command line whether the program wrote it or the
request gave it. Steps are `Taken` in turn, up to the first that fails.
-/

namespace StackKeeper.GitSource

open Dialogue (ends_ask_iff ends_bind_iff ends_done_iff)

inductive Word where
  /-- Written by the program. -/
  | own (text : String)
  /-- Taken from the request. -/
  | given (text : String)
  deriving DecidableEq

def Word.text : Word → String
  | own text => text
  | given text => text

structure Step where
  name : String
  line : List Word
  directory : Option String

def Step.args (x : Step) : List String := x.line.map Word.text

namespace Step

def revisionOptions : Revision → List Word
  | .branch name => [.own "--depth", .own "1", .own "--single-branch", .own "--branch", .given name]
  | .defaultBranch => [.own "--depth", .own "1"]
  | .commit _ => [.own "--no-checkout"]

def clone (url target : String) (r : Revision) : Step where
  name := "clone"
  line := [.own "clone"] ++ revisionOptions r ++ [.own "--", .given url, .own target]
  directory := none

def checkout (sha target : String) : Step where
  name := "checkout"
  line := [.own "checkout", .own "--detach", .given sha]
  directory := some target

def head (target : String) : Step where
  name := "rev-parse"
  line := [.own "rev-parse", .own "HEAD"]
  directory := some target

theorem args_clone (url target : String) (r : Revision) :
    (clone url target r).args = cloneArgs url target r := by
  cases r <;> rfl

end Step

/-- The steps that hand out a revision of a remote. -/
def steps (url target : String) : Revision → List Step
  | .commit sha => [.clone url target (.commit sha), .checkout sha target, .head target]
  | r => [.clone url target r, .head target]

variable {s : GitSource} {session : Session} {h : Transcript Host}

/-- The exchange of a step that got a reply. -/
def ranStep (s : GitSource) (session : Session) (x : Step)
    (reply : Except Host.Fault Host.Output) : Exchange Host :=
  ⟨.runProgram (s.command session x.args x.directory), reply⟩

/-- Steps are taken in turn. The first that fails is the last one, and the whole fails as it does;
otherwise the whole gives what the last step printed. -/
inductive Taken (s : GitSource) (session : Session) :
    List Step → Transcript Host → Except Error String → Prop where
  | failed {x : Step} {rest : List Step} {reply : Except Host.Fault Host.Output} {e : Error}
      (fails : s.outcome session x.name reply = .error e) :
      Taken s session (x :: rest) [s.ranStep session x reply] (.error e)
  | finished {x : Step} {reply : Except Host.Fault Host.Output} {text : String}
      (prints : s.outcome session x.name reply = .ok text) :
      Taken s session [x] [s.ranStep session x reply] (.ok text)
  | next {x : Step} {rest : List Step} {reply : Except Host.Fault Host.Output} {text : String}
      {h : Transcript Host} {r : Except Error String}
      (prints : s.outcome session x.name reply = .ok text) (more : Taken s session rest h r) :
      Taken s session (x :: rest) (s.ranStep session x reply :: h) r

/-! ## Taking steps -/

theorem ends_lastStep_iff {x : Step} {r : Except Error String} :
    (s.run session x.name x.args x.directory).Ends h r ↔ Taken s session [x] h r := by
  rw [ends_run_iff]
  constructor
  · rintro ⟨reply, rfl, rfl⟩
    cases ho : s.outcome session x.name reply with
    | error e => exact .failed ho
    | ok text => exact .finished ho
  · intro ht
    cases ht with
    | failed fails => exact ⟨_, rfl, fails.symm⟩
    | finished prints => exact ⟨_, rfl, prints.symm⟩
    | next _ more => cases more

theorem ends_step_bind_iff {x y : Step} {rest : List Step} {r : Except Error String}
    {f : Except Error String → Host.Talk (Except Error String)}
    (hok : ∀ text h r, (f (.ok text)).Ends h r ↔ Taken s session (y :: rest) h r)
    (herror : ∀ e, f (.error e) = .done (.error e)) :
    (s.run session x.name x.args x.directory >>= f).Ends h r ↔
      Taken s session (x :: y :: rest) h r := by
  constructor
  · intro he
    obtain ⟨h₁, h₂, y, rfl, hrun, hf⟩ := ends_bind_iff.1 he
    obtain ⟨reply, rfl, rfl⟩ := ends_run_iff.1 hrun
    cases ho : s.outcome session x.name reply with
    | error e =>
      rw [ho, herror] at hf
      obtain ⟨rfl, rfl⟩ := ends_done_iff.1 hf
      exact .failed ho
    | ok text =>
      rw [ho] at hf
      exact .next ho ((hok _ _ _).1 hf)
  · have hbegin : ∀ {reply h' r'}, (f (s.outcome session x.name reply)).Ends h' r' →
        (s.run session x.name x.args x.directory >>= f).Ends (s.ranStep session x reply :: h') r' :=
      fun hf => ends_bind_iff.2 ⟨_, _, _, rfl, ends_run_iff.2 ⟨_, rfl, rfl⟩, hf⟩
    intro ht
    cases ht with
    | failed fails =>
      refine hbegin ?_
      rw [fails, herror]
      exact .stay _
    | next prints more =>
      refine hbegin ?_
      rw [prints]
      exact (hok _ _ _).2 more

/-- The commands of a clone are its steps, taken in turn. -/
theorem ends_cloneIn_iff {revision : Revision} {target : String} {r : Except Error String} :
    (s.cloneIn session revision target).Ends h r ↔
      Taken s session (steps session.url target revision) h r := by
  have hargs : cloneArgs session.url target revision =
      (Step.clone session.url target revision).args := (Step.args_clone ..).symm
  unfold cloneIn
  rw [hargs]
  cases revision with
  | commit sha =>
    refine ends_step_bind_iff (x := .clone ..) (fun _ _ _ => ?_) fun _ => rfl
    -- the result of the checkout counts only as far as it is an error
    refine (iff_of_eq (congrArg (Dialogue.Ends · _ _) (bind_assoc _ _ _))).trans ?_
    exact ends_step_bind_iff (x := .checkout ..)
      (fun _ _ _ => ends_lastStep_iff (x := .head target)) fun _ => rfl
  | branch name =>
    exact ends_step_bind_iff (x := .clone ..) (fun _ _ _ => ends_lastStep_iff (x := .head target))
      fun _ => rfl
  | defaultBranch =>
    exact ends_step_bind_iff (x := .clone ..) (fun _ _ _ => ends_lastStep_iff (x := .head target))
      fun _ => rfl

/-! ## The steps that are taken -/

theorem map_name_steps (url target : String) (revision : Revision) :
    (steps url target revision).map Step.name = stepsFor revision := by
  cases revision <;> rfl

theorem head?_args_of_mem {url target : String} {revision : Revision} {x : Step}
    (hx : x ∈ steps url target revision) : x.args.head? = some x.name := by
  have hclone : (Step.clone url target revision).args.head? = some "clone" := by
    rw [Step.args_clone]
    rfl
  cases revision with
  | commit sha =>
    simp only [steps, List.mem_cons, List.not_mem_nil, or_false] at hx
    rcases hx with rfl | rfl | rfl
    · exact hclone
    · rfl
    · rfl
  | _ =>
    simp only [steps, List.mem_cons, List.not_mem_nil, or_false] at hx
    rcases hx with rfl | rfl
    · exact hclone
    · rfl

theorem getLast?_steps (url target : String) (revision : Revision) :
    (steps url target revision).getLast? = some (.head target) := by
  cases revision <;> rfl

theorem outcome_eq_ok {step text : String} {reply : Except Host.Fault Host.Output}
    (ho : s.outcome session step reply = .ok text) : ∃ output, reply = .ok output ∧
      output.succeeded = true ∧ text = Text.trim (Utf8.decodeLossy output.stdout) := by
  cases reply with
  | error f => cases ho
  | ok output =>
    unfold outcome at ho
    dsimp only at ho
    split at ho
    case isTrue hsucceeded => exact ⟨output, rfl, hsucceeded, (Except.ok.inj ho).symm⟩
    case isFalse => cases ho

theorem outcome_of_failed {output : Host.Output} (hfail : output.succeeded = false)
    (step : String) : s.outcome session step (.ok output) =
      .error (diagnose step (session.redact (Text.trim (Utf8.decodeLossy output.stderr)))) := by
  unfold outcome
  dsimp only
  rw [if_neg (by simp [hfail])]

namespace Taken

variable {l : List Step} {r : Except Error String}

theorem exists_step {e : Exchange Host} (ht : Taken s session l h r) (he : e ∈ h) :
    ∃ x ∈ l, ∃ reply, e = s.ranStep session x reply := by
  induction ht with
  | failed => exact ⟨_, List.mem_cons_self, _, List.mem_singleton.1 he⟩
  | finished => exact ⟨_, List.mem_cons_self, _, List.mem_singleton.1 he⟩
  | next _ _ ih =>
    rcases List.mem_cons.1 he with rfl | he
    · exact ⟨_, List.mem_cons_self, _, rfl⟩
    · obtain ⟨x, hx, hstep⟩ := ih he
      exact ⟨x, List.mem_cons_of_mem _ hx, hstep⟩

theorem exists_last {text : String} (ht : Taken s session l h (.ok text)) :
    ∃ x output, l.getLast? = some x ∧ s.ranStep session x (.ok output) ∈ h ∧
      output.succeeded = true ∧ text = Text.trim (Utf8.decodeLossy output.stdout) := by
  generalize hr : (.ok text : Except Error String) = r at ht
  induction ht with
  | failed => cases hr
  | @finished x _ _ prints =>
    obtain ⟨output, rfl, hsucceeded, htext⟩ := outcome_eq_ok prints
    exact ⟨x, output, rfl, List.mem_cons_self, hsucceeded, (Except.ok.inj hr).trans htext⟩
  | @next _ rest _ _ _ _ _ more ih =>
    obtain ⟨x, output, hlast, hmem, hrest⟩ := ih hr
    refine ⟨x, output, ?_, List.mem_cons_of_mem _ hmem, hrest⟩
    rw [List.getLast?_cons, hlast]
    rfl

theorem exists_failure {c : Host.Command} {output : Host.Output} (ht : Taken s session l h r)
    (hc : ⟨.runProgram c, .ok output⟩ ∈ h) (hfail : output.succeeded = false) :
    ∃ x ∈ l, c.args = x.args ∧ r = s.outcome session x.name (.ok output) := by
  have hno : ∀ {x : Step} {text : String}, s.outcome session x.name (.ok output) ≠ .ok text := by
    intro x text hok
    rw [outcome_of_failed hfail] at hok
    cases hok
  induction ht with
  | failed fails =>
    cases List.mem_singleton.1 hc
    exact ⟨_, List.mem_cons_self, rfl, fails.symm⟩
  | finished prints =>
    cases List.mem_singleton.1 hc
    exact absurd prints hno
  | next prints _ ih =>
    rcases List.mem_cons.1 hc with heq | hc
    · cases heq
      exact absurd prints hno
    · obtain ⟨x, hx, hargs, hr⟩ := ih hc
      exact ⟨x, List.mem_cons_of_mem _ hx, hargs, hr⟩

/-- Any of the steps can be the first to fail, with any reply that counts as a failure. -/
theorem exists_failed {x : Step} {reply : Except Host.Fault Host.Output} {e : Error} (hx : x ∈ l)
    (hfails : s.outcome session x.name reply = .error e) :
    ∃ h, Taken s session l h (.error e) ∧ s.ranStep session x reply ∈ h := by
  induction l with
  | nil => cases hx
  | cons y rest ih =>
    rcases List.mem_cons.1 hx with rfl | hx
    · exact ⟨_, .failed hfails, List.mem_cons_self⟩
    · obtain ⟨h, taken, hmem⟩ := ih hx
      have prints : s.outcome session y.name (.ok ⟨true, [], []⟩) = .ok _ := rfl
      exact ⟨_, .next prints taken, List.mem_cons_of_mem _ hmem⟩

end Taken

end StackKeeper.GitSource

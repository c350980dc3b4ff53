import StackKeeper.Proofs.Source.Login
import StackKeeper.Proofs.Text.Blank
import StackKeeper.Proofs.Text.Phrase
import StackKeeper.Proofs.Text.Utf8

/-!
# What errors of git show

A git command that fails may print any text, the URL of the remote included. The text is shown with
the secret taken out, behind the words for the step that failed. So a secret remains hidden exactly
if it stands unchanged in a URL, and is no part of what is shown in any case: the mark that replaces
it and the words for the step.
-/

namespace StackKeeper

open Dialogue (ends_ask_iff ends_bind_iff ends_done_iff)

/-- The secret of a login, which git gets as the password in a URL. -/
def Credentials.password? : Credentials → Option String
  | .accessToken token => some token
  | .basic _ password => some password
  | .sshKey .. => none

/-- A text occurs in the message of an error. -/
def Error.Shows (e : Error) (s : String) : Prop := s.toList <:+: e.message.toList

instance (e : Error) (s : String) : Decidable (e.Shows s) :=
  decidable_of_iff (Text.hasPhrase s.toList e.message.toList = true) Text.hasPhrase_iff

namespace GitSource

variable {s : GitSource} {session : Session} {request : SourceRequest} {secret step : String}
  {h : Transcript Host} {α β : Type}

/-! ## Messages -/

/-- A text occurs in the words that stand before what git printed. -/
def InWords (step secret : String) : Prop :=
  (Error.auth s!"git {step}: ").Shows secret ∨ (Error.source s!"git {step}: ").Shows secret

instance (step secret : String) : Decidable (InWords step secret) :=
  inferInstanceAs (Decidable (_ ∨ _))

/-- One of the phrases for a refusal occurs in a text. -/
def Refuses (stderr : String) : Prop :=
  (refusals.any fun phrase => Text.hasPhrase phrase.toList stderr.toList) = true

theorem diagnose_of_refuses {stderr : String} (hr : Refuses stderr) (step : String) :
    diagnose step stderr = .auth s!"git {step}: {stderr}" := by
  unfold diagnose
  exact if_pos hr

theorem diagnose_of_not_refuses {stderr : String} (hr : ¬Refuses stderr) (step : String) :
    diagnose step stderr = .source s!"git {step}: {stderr}" := by
  unfold diagnose
  exact if_neg hr

theorem diagnose_cases (step stderr : String) :
    diagnose step stderr = .auth s!"git {step}: {stderr}" ∨
      diagnose step stderr = .source s!"git {step}: {stderr}" := by
  by_cases hr : Refuses stderr
  · exact .inl (diagnose_of_refuses hr step)
  · exact .inr (diagnose_of_not_refuses hr step)

theorem toList_words (kind step stderr : String) :
    ∃ l, (kind ++ s!"git {step}: ").toList = l ++ [' '] ∧
      (kind ++ s!"git {step}: {stderr}").toList = l ++ ' ' :: stderr.toList := by
  have hblank : ":".toList ++ [' '] = ": ".toList := rfl
  have hwords : kind ++ s!"git {step}: " = kind ++ ("git " ++ step) ++ ": " :=
    String.append_assoc.symm
  have hall : kind ++ s!"git {step}: {stderr}" = kind ++ s!"git {step}: " ++ stderr :=
    String.append_assoc.symm
  have hl : (kind ++ s!"git {step}: ").toList =
      (kind ++ ("git " ++ step)).toList ++ ":".toList ++ [' '] := by
    rw [hwords, String.toList_append, ← hblank, ← List.append_assoc]
  refine ⟨_, hl, ?_⟩
  rw [hall, String.toList_append, hl, List.append_assoc _ [' '], List.singleton_append]

variable {stderr : String}

theorem inWords_or_infix (hblank : ' ' ∉ secret.toList) (hs : (diagnose step stderr).Shows secret) :
    InWords step secret ∨ secret.toList <:+: stderr.toList := by
  have hcase : ∀ kind, secret.toList <:+: (kind ++ s!"git {step}: {stderr}").toList →
      secret.toList <:+: (kind ++ s!"git {step}: ").toList ∨ secret.toList <:+: stderr.toList := by
    intro kind hin
    obtain ⟨l, hwords, hall⟩ := toList_words kind step stderr
    rw [hall] at hin
    rcases Text.infix_append_cons hblank hin with hl | hr
    · rw [hwords]
      exact .inl (hl.trans (List.prefix_append l [' ']).isInfix)
    · exact .inr hr
  rcases diagnose_cases step stderr with hd | hd
  · rw [hd] at hs
    exact (hcase _ hs).imp_left .inl
  · rw [hd] at hs
    exact (hcase _ hs).imp_left .inr

theorem shows_of_infix (hs : secret.toList <:+: stderr.toList) :
    (diagnose step stderr).Shows secret := by
  have hcase : ∀ kind, secret.toList <:+: (kind ++ s!"git {step}: {stderr}").toList := by
    intro kind
    obtain ⟨l, -, hall⟩ := toList_words kind step stderr
    rw [hall]
    have hsuffix : stderr.toList <:+ l ++ ' ' :: stderr.toList :=
      (List.suffix_cons ' ' _).trans (List.suffix_append l _)
    exact hs.trans hsuffix.isInfix
  rcases diagnose_cases step stderr with hd | hd
  · rw [hd]
    exact hcase _
  · rw [hd]
    exact hcase _

/-! ## Dialogues that fail by a command -/

/-- A command ran and failed. -/
def CommandFailed (h : Transcript Host) : Prop :=
  ∃ c output, ⟨.runProgram c, .ok output⟩ ∈ h ∧ output.succeeded = false

theorem commandFailed_append {h' : Transcript Host} :
    CommandFailed (h ++ h') ↔ CommandFailed h ∨ CommandFailed h' := by
  unfold CommandFailed
  constructor
  · rintro ⟨c, output, hm, hf⟩
    rcases List.mem_append.1 hm with hm | hm
    · exact .inl ⟨c, output, hm, hf⟩
    · exact .inr ⟨c, output, hm, hf⟩
  · rintro (⟨c, output, hm, hf⟩ | ⟨c, output, hm, hf⟩)
    · exact ⟨c, output, List.mem_append_left _ hm, hf⟩
    · exact ⟨c, output, List.mem_append_right _ hm, hf⟩

/-- No command fails in the dialogue. -/
def Quiet (d : Host.Talk α) : Prop := ∀ h a, d.Ends h a → ¬CommandFailed h

theorem quiet_done (a : α) : Quiet (.done a) := by
  intro h b he hf
  obtain ⟨rfl, -⟩ := ends_done_iff.1 he
  obtain ⟨_, _, hm, -⟩ := hf
  cases hm

theorem quiet_ask {r : Host.Request} (hr : ∀ c, r ≠ .runProgram c) : Quiet (Host.ask r) := by
  intro h a he hf
  obtain ⟨reply, h', rfl, he'⟩ := ends_ask_iff.1 he
  obtain ⟨rfl, -⟩ := ends_done_iff.1 he'
  obtain ⟨c, output, hm, -⟩ := hf
  exact hr c (congrArg Exchange.request (List.mem_singleton.1 hm)).symm

theorem Quiet.bind {d : Host.Talk β} {f : β → Host.Talk α} (hd : Quiet d)
    (hf : ∀ b, Quiet (f b)) : Quiet (d >>= f) := by
  intro h a he hc
  obtain ⟨h₁, h₂, b, rfl, he₁, he₂⟩ := ends_bind_iff.1 he
  exact (commandFailed_append.1 hc).elim (hd h₁ b he₁) (hf b h₂ a he₂)

/-- If a command failed, the dialogue ends with what that printed, without the secrets. -/
def Blames (session : Session) (steps : List String) (d : Host.Talk (Except Error α)) : Prop :=
  ∀ h r, d.Ends h r → CommandFailed h →
    ∃ step ∈ steps, ∃ text, r = .error (diagnose step (session.redact text))

variable {steps : List String}

theorem Quiet.blames {d : Host.Talk (Except Error α)} (hd : Quiet d) : Blames session steps d :=
  fun h r he hc => absurd hc (hd h r he)

theorem Blames.after {d : Host.Talk β} {f : β → Host.Talk (Except Error α)} (hd : Quiet d)
    (hf : ∀ b, Blames session steps (f b)) : Blames session steps (d >>= f) := by
  intro h r he hc
  obtain ⟨h₁, h₂, b, rfl, he₁, he₂⟩ := ends_bind_iff.1 he
  exact hf b h₂ r he₂ ((commandFailed_append.1 hc).resolve_left (hd h₁ b he₁))

/-- Nothing fails after an error, which is kept. -/
def Keeps (e : Error) (d : Host.Talk (Except Error α)) : Prop :=
  Quiet d ∧ ∀ h r, d.Ends h r → r = .error e

theorem keeps_done (e : Error) : Keeps e (.done (.error e) : Host.Talk (Except Error α)) :=
  ⟨quiet_done _, fun _ _ he => (ends_done_iff.1 he).2.symm⟩

theorem Keeps.after {e : Error} {d : Host.Talk β} {f : β → Host.Talk (Except Error α)}
    (hd : Quiet d) (hf : ∀ b, Keeps e (f b)) : Keeps e (d >>= f) := by
  refine ⟨hd.bind fun b => (hf b).1, fun h r he => ?_⟩
  obtain ⟨h₁, h₂, b, rfl, -, he₂⟩ := ends_bind_iff.1 he
  exact (hf b).2 h₂ r he₂

theorem Blames.bind {d : Host.Talk (Except Error β)}
    {f : Except Error β → Host.Talk (Except Error α)} (hd : Blames session steps d)
    (hok : ∀ b, Blames session steps (f (.ok b))) (herror : ∀ e, Keeps e (f (.error e))) :
    Blames session steps (d >>= f) := by
  intro h r he hc
  obtain ⟨h₁, h₂, x, rfl, he₁, he₂⟩ := ends_bind_iff.1 he
  have hd := hd h₁ x he₁
  cases x with
  | ok b =>
    have hquiet : ¬CommandFailed h₁ := fun hc => by
      obtain ⟨_, -, _, heq⟩ := hd hc
      cases heq
    exact hok b h₂ r he₂ ((commandFailed_append.1 hc).resolve_left hquiet)
  | error e =>
    obtain ⟨step, hs, text, heq⟩ :=
      hd ((commandFailed_append.1 hc).resolve_right ((herror e).1 h₂ r he₂))
    obtain rfl := Except.error.inj heq
    exact ⟨step, hs, text, (herror _).2 h₂ r he₂⟩

/-! ## Which steps can fail -/

/-- The git commands that hand out a revision. -/
def stepsFor : Revision → List String
  | .commit _ => ["clone", "checkout", "rev-parse"]
  | _ => ["clone", "rev-parse"]

def outcome (s : GitSource) (session : Session) (step : String) :
    Except Host.Fault Host.Output → Except Error String
  | .error f => .error (.source s!"failed to run {s.program}: {f.message}")
  | .ok output =>
    if output.succeeded then .ok (Text.trim (Utf8.decodeLossy output.stdout))
    else .error (diagnose step (session.redact (Text.trim (Utf8.decodeLossy output.stderr))))

def command (s : GitSource) (session : Session) (args : List String) (directory : Option String) :
    Host.Command :=
  ⟨s.program, args, directory, (Dict.singleton "GIT_TERMINAL_PROMPT" "0").union session.environment⟩

theorem run_eq (args : List String) (directory : Option String) :
    s.run session step args directory =
      Dialogue.bind (Host.runProgram (s.command session args directory)) fun reply =>
        .done (s.outcome session step reply) := by
  refine congrArg (Dialogue.bind _) (funext fun reply => ?_)
  cases reply with
  | error f => rfl
  | ok output =>
    by_cases hs : output.succeeded = true
    · exact (if_pos hs).trans (congrArg Dialogue.done (if_pos hs).symm)
    · exact (if_neg hs).trans (congrArg Dialogue.done (if_neg hs).symm)

theorem ends_run_iff {args : List String} {directory : Option String} {r : Except Error String} :
    (s.run session step args directory).Ends h r ↔ ∃ reply,
      h = [⟨.runProgram (s.command session args directory), reply⟩] ∧
      r = s.outcome session step reply := by
  rw [run_eq]
  constructor
  · intro he
    obtain ⟨reply, h', rfl, he'⟩ := ends_ask_iff.1 he
    obtain ⟨rfl, rfl⟩ := ends_done_iff.1 he'
    exact ⟨reply, rfl, rfl⟩
  · rintro ⟨reply, rfl, rfl⟩
    exact .exchange reply (.stay _)

theorem clone_mem_stepsFor (revision : Revision) : "clone" ∈ stepsFor revision := by
  cases revision <;> exact List.mem_cons_self

theorem blames_run {args : List String} {directory : Option String} (hs : step ∈ steps) :
    Blames session steps (s.run session step args directory) := by
  intro h r he hc
  obtain ⟨reply, rfl, rfl⟩ := ends_run_iff.1 he
  obtain ⟨c', output, hm, hfail⟩ := hc
  cases List.mem_singleton.1 hm
  refine ⟨step, hs, Text.trim (Utf8.decodeLossy output.stderr), ?_⟩
  simp only [outcome, hfail]
  rfl

theorem blames_cloneIn {revision : Revision} {target : String} :
    Blames session (stepsFor revision) (s.cloneIn session revision target) := by
  have hhead : "rev-parse" ∈ stepsFor revision := by
    cases revision <;> simp [stepsFor]
  refine (blames_run (clone_mem_stepsFor revision)).bind (fun _ => ?_) keeps_done
  have hcheckout : Blames session (stepsFor revision) (s.checkOut session target revision) := by
    cases revision with
    | commit sha =>
      have hs : "checkout" ∈ stepsFor (.commit sha) := by simp [stepsFor]
      refine (blames_run hs).bind (fun _ => ?_) keeps_done
      exact (quiet_done _).blames
    | branch => exact (quiet_done _).blames
    | defaultBranch => exact (quiet_done _).blames
  exact hcheckout.bind (fun _ => blames_run hhead) keeps_done

theorem quiet_ensureProject (directory : String) (names : List String) :
    Quiet (ensureProject directory names) := by
  induction names with
  | nil => exact quiet_done _
  | cons name rest ih =>
    refine (quiet_ask fun _ hr => by cases hr).bind fun found => ?_
    match found with
    | .error _ => exact quiet_done _
    | .ok true => exact quiet_done _
    | .ok false => exact ih

theorem quiet_remove (root : String) : Quiet (remove root) := by
  refine (quiet_ask fun _ hr => by cases hr).bind fun removed => ?_
  split
  · exact quiet_done _
  · exact quiet_done _
  · exact quiet_done _

/-! ## Logins -/

def loginOf (url secret : String) : Session := ⟨url, ∅, [secret], none⟩

theorem loginSession_eq {u : Url} {repo username : String} (hu : Url.ofText? s.idna repo = some u)
    (hweb : u.scheme = "http" ∨ u.scheme = "https") (hne : secret ≠ "") :
    ∃ v : Url, v.authority.map (·.password) = some (Url.encodeUserInfo secret) ∧
      s.loginSession repo username secret = .ok (loginOf v.toText secret) := by
  obtain ⟨a, ha⟩ := Option.isSome_iff_exists.1 (Url.authority_of_web hu hweb)
  have hscheme : ¬(u.scheme ≠ "http" ∧ u.scheme ≠ "https") := fun hno =>
    hweb.elim hno.1 hno.2
  obtain ⟨v, hv, hpassword⟩ : ∃ v, u.withUserInfo? username secret = some v ∧
      v.authority.map (·.password) = some (Url.encodeUserInfo secret) := by
    rw [Url.withUserInfo?, ha]
    exact ⟨_, rfl, rfl⟩
  have hurl : s.urlWithLogin repo username secret = .ok v.toText := by
    unfold urlWithLogin
    simp only [hu, if_neg hscheme, hv]
  have hsecrets : [secret].filter (!·.isEmpty) = [secret] := by
    simp [hne]
  refine ⟨v, hpassword, ?_⟩
  unfold loginSession
  rw [hurl, hsecrets]
  rfl

theorem openSession_eq {u : Url} {c : Credentials} {repo : String}
    (hu : Url.ofText? s.idna repo = some u) (hweb : u.scheme = "http" ∨ u.scheme = "https")
    (hsecret : c.password? = some secret) (hne : secret ≠ "") :
    ∃ url, s.openSession repo (some c) = .done (.ok (loginOf url secret)) := by
  cases c with
  | accessToken token =>
    obtain rfl := Option.some.inj hsecret
    obtain ⟨v, -, hv⟩ := loginSession_eq hu hweb hne
    exact ⟨v.toText, congrArg Dialogue.done hv⟩
  | basic username password =>
    obtain rfl := Option.some.inj hsecret
    obtain ⟨v, -, hv⟩ := loginSession_eq hu hweb hne
    exact ⟨v.toText, congrArg Dialogue.done hv⟩
  | sshKey privateKey passphrase => cases hsecret

theorem clone_eq {u : Url} {c : Credentials} (hu : Url.ofText? s.idna request.repo = some u)
    (hweb : u.scheme = "http" ∨ u.scheme = "https") (hc : request.credentials = some c)
    (hsecret : c.password? = some secret) (hne : secret ≠ "") :
    ∃ url, ∀ target, s.clone request target =
      s.cloneIn (loginOf url secret) request.revision target := by
  obtain ⟨url, hopen⟩ := openSession_eq hu hweb hsecret hne
  refine ⟨url, fun target => ?_⟩
  unfold clone
  rw [hc, hopen]
  exact Dialogue.bind_done_right _

theorem blames_prepare {u : Url} {c : Credentials} (hu : Url.ofText? s.idna request.repo = some u)
    (hweb : u.scheme = "http" ∨ u.scheme = "https") (hc : request.credentials = some c)
    (hsecret : c.password? = some secret) (hne : secret ≠ "") :
    ∃ url, Blames (loginOf url secret) (stepsFor request.revision) (s.prepare request) := by
  obtain ⟨url, hclone⟩ := clone_eq (s := s) hu hweb hc hsecret hne
  have hblank : Text.isAllBlank request.repo = false := Url.not_isAllBlank_of_ofText? hu
  have hfetch : ∀ root directory,
      Blames (loginOf url secret) (stepsFor request.revision) (s.fetch request root directory) := by
    intro root directory
    unfold fetch
    rw [hclone]
    refine blames_cloneIn.bind (fun _ => ?_) keeps_done
    exact ((quiet_ensureProject _ _).bind fun _ => quiet_done _).blames
  refine ⟨url, ?_⟩
  unfold prepare
  rw [if_neg (by simp [hblank])]
  split
  next => exact (quiet_done _).blames
  next directory =>
    refine .after (quiet_ask fun _ hr => by cases hr) fun made => ?_
    split
    next => exact (quiet_done _).blames
    next =>
      refine .after (quiet_ask fun _ hr => by cases hr) fun id => ?_
      refine .after (quiet_ask fun _ hr => by cases hr) fun _ => ?_
      refine (hfetch _ _).bind (fun _ => (quiet_done _).blames) fun e => ?_
      exact .after (quiet_remove _) fun _ => keeps_done e

/-! ## Every step can fail -/

/-- A dialogue can end with what a step printed. -/
def CanFail (session : Session) (step : String) (stderr : Bytes)
    (d : Host.Talk (Except Error α)) : Prop :=
  ∃ h, CommandFailed h ∧
    d.Ends h (.error (diagnose step (session.redact (Text.trim (Utf8.decodeLossy stderr)))))

variable {stderr : Bytes}

theorem canFail_run {args : List String} {directory : Option String} :
    CanFail session step stderr (s.run session step args directory) := by
  let reply : Except Host.Fault Host.Output := .ok ⟨false, [], stderr⟩
  refine ⟨[⟨.runProgram (s.command session args directory), reply⟩], ?_, ?_⟩
  · exact ⟨_, _, List.mem_cons_self, rfl⟩
  · exact ends_run_iff.2 ⟨reply, rfl, rfl⟩

theorem CanFail.bind {d : Host.Talk (Except Error β)}
    {f : Except Error β → Host.Talk (Except Error α)} (hd : CanFail session step stderr d)
    (hf : ∀ e, ∃ h, (f (.error e)).Ends h (.error e)) : CanFail session step stderr (d >>= f) := by
  obtain ⟨h, hc, he⟩ := hd
  obtain ⟨h', he'⟩ := hf _
  exact ⟨h ++ h', commandFailed_append.2 (.inl hc), ends_bind_iff.2 ⟨h, h', _, rfl, he, he'⟩⟩

theorem CanFail.after {d : Host.Talk β} {f : β → Host.Talk (Except Error α)} {h : Transcript Host}
    {b : β} (hd : d.Ends h b) (hf : CanFail session step stderr (f b)) :
    CanFail session step stderr (d >>= f) := by
  obtain ⟨h', hc, he⟩ := hf
  exact ⟨h ++ h', commandFailed_append.2 (.inr hc), ends_bind_iff.2 ⟨h, h', b, rfl, hd, he⟩⟩

theorem ends_run_ok (s : GitSource) (session : Session) (step : String) (args : List String)
    (directory : Option String) :
    ∃ h text, (s.run session step args directory).Ends h (.ok text) :=
  ⟨_, _, ends_run_iff.2 ⟨.ok ⟨true, [], []⟩, rfl, rfl⟩⟩

theorem ends_done (r : Except Error α) : ∃ h, (Dialogue.done r : Host.Talk _).Ends h r :=
  ⟨[], .stay _⟩

theorem ends_checkOut_ok (s : GitSource) (session : Session) (target : String)
    (revision : Revision) : ∃ h, (s.checkOut session target revision).Ends h (.ok ()) := by
  cases revision with
  | commit sha =>
    obtain ⟨h, text, he⟩ := ends_run_ok s session "checkout" (checkoutArgs sha) (some target)
    exact ⟨h ++ [], ends_bind_iff.2 ⟨h, [], _, rfl, he, .stay _⟩⟩
  | branch => exact ends_done _
  | defaultBranch => exact ends_done _

theorem canFail_cloneIn {revision : Revision} {target : String} (hs : step ∈ stepsFor revision) :
    CanFail session step stderr (s.cloneIn session revision target) := by
  obtain ⟨hclone, text, hcloned⟩ :=
    ends_run_ok s session "clone" (cloneArgs session.url target revision) none
  obtain ⟨hcheckout, hchecked⟩ := ends_checkOut_ok s session target revision
  have hhead : CanFail session "rev-parse" stderr (s.cloneIn session revision target) :=
    .after hcloned (.after hchecked canFail_run)
  have hfirst : CanFail session "clone" stderr (s.cloneIn session revision target) :=
    canFail_run.bind fun e => ends_done (.error e)
  cases revision with
  | commit sha =>
    simp only [stepsFor, List.mem_cons, List.not_mem_nil, or_false] at hs
    rcases hs with rfl | rfl | rfl
    · exact hfirst
    · refine .after hcloned (.bind ?_ fun e => ends_done (.error e))
      exact canFail_run.bind fun e => ends_done (.error e)
    · exact hhead
  | branch =>
    simp only [stepsFor, List.mem_cons, List.not_mem_nil, or_false] at hs
    rcases hs with rfl | rfl
    · exact hfirst
    · exact hhead
  | defaultBranch =>
    simp only [stepsFor, List.mem_cons, List.not_mem_nil, or_false] at hs
    rcases hs with rfl | rfl
    · exact hfirst
    · exact hhead

theorem ends_ask {r : Host.Request} (reply : Host.Reply r) :
    (Host.ask r).Ends [⟨r, reply⟩] reply :=
  (ends_ask_iff (S := Host)).2 ⟨reply, [], rfl, .stay _⟩

theorem canFail_prepare {u : Url} {c : Credentials} {directory : String}
    (hu : Url.ofText? s.idna request.repo = some u) (hweb : u.scheme = "http" ∨ u.scheme = "https")
    (hc : request.credentials = some c) (hsecret : c.password? = some secret) (hne : secret ≠ "")
    (hdir : projectDirectory request.directory = .ok directory)
    (hs : step ∈ stepsFor request.revision) :
    ∃ url, CanFail (loginOf url secret) step stderr (s.prepare request) := by
  obtain ⟨url, hclone⟩ := clone_eq (s := s) hu hweb hc hsecret hne
  have hblank : Text.isAllBlank request.repo = false := Url.not_isAllBlank_of_ofText? hu
  refine ⟨url, ?_⟩
  unfold prepare
  rw [if_neg (by simp [hblank]), hdir]
  refine .after (ends_ask (r := .makeDirectories _) (.ok ())) ?_
  refine .after (ends_ask (r := .freshId) "") ?_
  refine .after (ends_ask (r := .tell _) ()) ?_
  refine .bind ?_ fun e => ?_
  · unfold fetch
    rw [hclone]
    exact (canFail_cloneIn hs).bind fun e => ends_done (.error e)
  · obtain ⟨h, he⟩ : ∃ h, (remove (s.clonePath request.repo "")).Ends h (.ok ()) :=
      ⟨_, ends_bind_iff.2 ⟨_, [], _, rfl, ends_ask (r := .removeTree _) (.ok ()), .stay _⟩⟩
    exact ⟨_, ends_bind_iff.2 ⟨h, [], _, rfl, he, .stay _⟩⟩

/-! ## What redaction leaves -/

theorem toList_redact (url secret text : String) :
    ((loginOf url secret).redact text).toList =
      Text.replaceAll secret.toList redacted text.toList :=
  String.toList_ofList

theorem redact_eq_self {url text : String} (ht : ¬secret.toList <:+: text.toList) :
    (loginOf url secret).redact text = text := by
  rw [← String.toList_inj, toList_redact, Text.replaceAll_eq_self ht]

theorem covers_redacted (hplain : Url.encodeUserInfo secret = secret)
    (hmark : ¬secret.toList <:+: redacted) : Text.Covers redacted secret.toList := by
  have hchars := Url.encodeUserInfo_eq_self_iff.1 hplain
  have hopen : '[' ∉ secret.toList := fun hm => absurd (hchars _ hm) (by decide)
  have hclose : ']' ∉ secret.toList := fun hm => absurd (hchars _ hm) (by decide)
  exact ⟨⟨'[', "REDACTED".toList, ']', rfl, hopen, hclose⟩, hmark⟩

/-- A login is hidden if it stands unchanged in a URL, and is part neither of the mark that replaces
it nor of the words for a step. -/
structure Concealable (revision : Revision) (secret : String) : Prop where
  plain : Url.encodeUserInfo secret = secret
  unmarked : ¬secret.toList <:+: redacted
  unspoken : ∀ step ∈ stepsFor revision, ¬InWords step secret

instance (revision : Revision) (secret : String) : Decidable (Concealable revision secret) :=
  decidable_of_iff
    (Url.encodeUserInfo secret = secret ∧ ¬Text.hasPhrase secret.toList redacted = true ∧
      ∀ step ∈ stepsFor revision, ¬InWords step secret)
    ⟨fun ⟨hplain, hmark, hwords⟩ => ⟨hplain, fun h => hmark (Text.hasPhrase_iff.2 h), hwords⟩,
      fun h => ⟨h.plain, fun hm => h.unmarked (Text.hasPhrase_iff.1 hm), h.unspoken⟩⟩

theorem Concealable.not_shows {url text : String} (hc : Concealable request.revision secret)
    (hs : step ∈ stepsFor request.revision) :
    ¬(diagnose step ((loginOf url secret).redact text)).Shows secret := by
  have hblank : ' ' ∉ secret.toList := fun hm =>
    absurd (Url.encodeUserInfo_eq_self_iff.1 hc.plain _ hm) (by decide)
  intro hshows
  rcases inWords_or_infix hblank hshows with hwords | hin
  · exact hc.unspoken step hs hwords
  · rw [toList_redact] at hin
    exact Text.not_infix_replaceAll (covers_redacted hc.plain hc.unmarked) _ hin

/-! ## Texts that are shown -/

theorem trim_encodeUserInfo (secret : String) :
    Text.trim (Url.encodeUserInfo secret) = Url.encodeUserInfo secret := by
  refine Text.trim_eq_self_iff.2 (Text.isTrimmed_of_forall fun c hc =>
    Url.isBlank_of_not_inUserInfo ?_)
  rw [Url.encodeUserInfo, String.toList_ofList] at hc
  exact Url.sparesEscapes_inUserInfo.not_set_of_mem_encode hc

/-- The encoding of a login is shown if it differs from the login. -/
theorem shows_encodeUserInfo (url : String) (hplain : Url.encodeUserInfo secret ≠ secret) :
    (diagnose step ((loginOf url secret).redact (Url.encodeUserInfo secret))).Shows
      (Url.encodeUserInfo secret) := by
  have hencode : Url.encode Url.inUserInfo secret.toList ≠ secret.toList := fun h =>
    hplain ((congrArg String.ofList h).trans String.ofList_toList)
  have hkept : ((loginOf url secret).redact (Url.encodeUserInfo secret)).toList =
      (Url.encodeUserInfo secret).toList := by
    rw [toList_redact, Url.encodeUserInfo, String.toList_ofList,
      Text.replaceAll_eq_self (Url.sparesEscapes_inUserInfo.not_infix_encode hencode)]
  exact shows_of_infix (hkept ▸ List.infix_refl _)

/-- A login that is part of the mark is shown where it was replaced. -/
theorem shows_mark (url : String) (hne : secret ≠ "") (hmark : secret.toList <:+: redacted) :
    (diagnose step ((loginOf url secret).redact secret)).Shows secret := by
  have hne : secret.toList ≠ [] := fun h => hne (String.toList_eq_nil_iff.1 h)
  refine shows_of_infix ?_
  rwa [toList_redact, Text.replaceAll_self hne]

def keyRefused : String := "Permission denied (publickey"

theorem refuses_keyRefused : Refuses keyRefused := by
  unfold Refuses
  decide

theorem not_refuses_empty : ¬Refuses "" := by
  unfold Refuses
  decide

theorem infix_source_of_infix_auth {p : List Char} (hp : p <:+: "auth".toList)
    (hr : p <:+: keyRefused.toList) : p <:+: "source".toList := by
  have hkept : ∀ c, c ∉ keyRefused.toList → c ∉ p := fun c hc hm => hc (hr.subset hm)
  have ha : 'a' ∉ p := hkept _ (by decide +kernel)
  have ht : 't' ∉ p := hkept _ (by decide +kernel)
  have hh : 'h' ∉ p := hkept _ (by decide +kernel)
  have hnil : [] <:+: "source".toList := List.nil_infix
  rcases Text.infix_append_cons (l := []) (r := ['u', 't', 'h']) ha hp with h | h
  · exact h.trans hnil
  · rcases Text.infix_append_cons (l := ['u']) (r := ['h']) ht h with h | h
    · exact h.trans (by decide)
    · rcases Text.infix_append_cons (l := []) (r := []) hh h with h | h
      · exact h.trans hnil
      · exact h.trans hnil

/-- The words for a refusal have what the other words have, and one word more. -/
theorem shows_source_of_shows_auth (hblank : ' ' ∉ secret.toList) {words : String}
    (ha : (Error.auth words).Shows secret) (hr : secret.toList <:+: keyRefused.toList) :
    (Error.source words).Shows secret := by
  have hauth : ("auth error: " ++ words).toList = "auth".toList ++ ' ' :: ("error: " ++ words).toList := by
    have h : "auth error: ".toList = "auth".toList ++ ' ' :: "error: ".toList := rfl
    rw [String.toList_append, String.toList_append, h, List.append_assoc, List.cons_append]
  have hsource : ("source error: " ++ words).toList =
      "source".toList ++ ' ' :: ("error: " ++ words).toList := by
    have h : "source error: ".toList = "source".toList ++ ' ' :: "error: ".toList := rfl
    rw [String.toList_append, String.toList_append, h, List.append_assoc, List.cons_append]
  unfold Error.Shows Error.message at ha ⊢
  rw [hauth] at ha
  rw [hsource]
  rcases Text.infix_append_cons hblank ha with h | h
  · exact (infix_source_of_infix_auth h hr).trans (List.prefix_append _ _).isInfix
  · exact h.trans ((List.suffix_cons ' ' _).trans (List.suffix_append _ _)).isInfix

theorem shows_words (hblank : ' ' ∉ secret.toList) (hne : secret ≠ "") (hw : InWords step secret) :
    (∀ url, (diagnose step ((loginOf url secret).redact "")).Shows secret) ∨
      ∀ url, (diagnose step ((loginOf url secret).redact keyRefused)).Shows secret := by
  by_cases hsource : (Error.source s!"git {step}: ").Shows secret
  · refine .inl fun url => ?_
    have hempty : ¬secret.toList <:+: "".toList := fun h =>
      hne (String.toList_eq_nil_iff.1 (List.infix_nil.1 h))
    have hdiagnose : diagnose step "" = .source s!"git {step}: " :=
      (diagnose_of_not_refuses not_refuses_empty step).trans
        (congrArg Error.source String.append_empty)
    rwa [redact_eq_self hempty, hdiagnose]
  · refine .inr fun url => ?_
    have hauth := hw.resolve_right hsource
    have hkept : ¬secret.toList <:+: keyRefused.toList := fun h =>
      hsource (shows_source_of_shows_auth hblank hauth h)
    obtain ⟨l, hwords, hall⟩ := toList_words "auth error: " step keyRefused
    rw [redact_eq_self hkept, diagnose_of_refuses refuses_keyRefused]
    unfold Error.Shows Error.message at hauth ⊢
    rw [hwords] at hauth
    rw [hall, ← List.singleton_append, ← List.append_assoc]
    exact hauth.trans (List.prefix_append _ _).isInfix

/-! ## Main statement -/

/-- Whatever a failing git command prints, the error shows neither the secret nor the form of it
that git got in the URL. -/
def Conceals (s : GitSource) (request : SourceRequest) (secret : String) : Prop :=
  ∀ h r, (s.prepare request).Ends h r → CommandFailed h →
    ∃ e, r = .error e ∧ ¬e.Shows secret ∧ ¬e.Shows (Url.encodeUserInfo secret)

section Login

variable {u : Url} {c : Credentials}

theorem Concealable.conceals (hsecret : Concealable request.revision secret)
    (hu : Url.ofText? s.idna request.repo = some u) (hweb : u.scheme = "http" ∨ u.scheme = "https")
    (hc : request.credentials = some c) (hpassword : c.password? = some secret)
    (hne : secret ≠ "") : s.Conceals request secret := by
  intro h r he hfail
  obtain ⟨url, hblames⟩ := blames_prepare (s := s) hu hweb hc hpassword hne
  obtain ⟨step, hs, text, rfl⟩ := hblames h r he hfail
  refine ⟨_, rfl, hsecret.not_shows hs, ?_⟩
  rw [hsecret.plain]
  exact hsecret.not_shows hs

/-- What can be shown is shown by some command. -/
theorem not_conceals_of_shows {directory : String} (hu : Url.ofText? s.idna request.repo = some u)
    (hweb : u.scheme = "http" ∨ u.scheme = "https") (hc : request.credentials = some c)
    (hpassword : c.password? = some secret) (hne : secret ≠ "")
    (hdir : projectDirectory request.directory = .ok directory)
    (hs : step ∈ stepsFor request.revision) {text : String} (htrim : Text.trim text = text)
    (hshows : ∀ url, (diagnose step ((loginOf url secret).redact text)).Shows secret ∨
      (diagnose step ((loginOf url secret).redact text)).Shows (Url.encodeUserInfo secret)) :
    ¬s.Conceals request secret := by
  intro hconceals
  have hcan : ∃ url, CanFail (loginOf url secret) step (Utf8.encode text) (s.prepare request) :=
    canFail_prepare hu hweb hc hpassword hne hdir hs
  obtain ⟨url, h, hfail, he⟩ := hcan
  rw [Utf8.decodeLossy_encode, htrim] at he
  obtain ⟨e, heq, hraw, hencoded⟩ := hconceals h _ he hfail
  obtain rfl := Except.error.inj heq
  exact (hshows url).elim hraw hencoded

/-- Before the first command nothing of a login is used. -/
theorem conceals_of_no_directory
    (hdir : ¬∃ directory, projectDirectory request.directory = .ok directory)
    (hu : Url.ofText? s.idna request.repo = some u) : s.Conceals request secret := by
  intro h r he hfail
  have hblank : Text.isAllBlank request.repo = false := Url.not_isAllBlank_of_ofText? hu
  cases hd : projectDirectory request.directory with
  | ok directory => exact absurd ⟨directory, hd⟩ hdir
  | error e =>
    unfold prepare at he
    rw [if_neg (by simp [hblank]), hd] at he
    exact absurd hfail (quiet_done _ h r he)

/-- A login is hidden, whatever the commands print, exactly if it can be, or no command is run. -/
theorem conceals_iff (s : GitSource) (hu : Url.ofText? s.idna request.repo = some u)
    (hweb : u.scheme = "http" ∨ u.scheme = "https") (hc : request.credentials = some c)
    (hpassword : c.password? = some secret) (hne : secret ≠ "") :
    s.Conceals request secret ↔
      ((∃ directory, projectDirectory request.directory = .ok directory) →
        Concealable request.revision secret) := by
  constructor
  · rintro hconceals ⟨directory, hdir⟩
    have hshown : ∀ step ∈ stepsFor request.revision, ∀ text, Text.trim text = text →
        ¬∀ url, (diagnose step ((loginOf url secret).redact text)).Shows secret ∨
          (diagnose step ((loginOf url secret).redact text)).Shows (Url.encodeUserInfo secret) :=
      fun step hs text htrim hshows =>
        not_conceals_of_shows hu hweb hc hpassword hne hdir hs htrim hshows hconceals
    -- whatever keeps a secret from being concealable is shown by some command that fails
    have hclone := clone_mem_stepsFor request.revision
    have hplain : Url.encodeUserInfo secret = secret := by
      refine Decidable.byContradiction fun hplain => ?_
      exact hshown _ hclone _ (trim_encodeUserInfo secret) fun url =>
        .inr (shows_encodeUserInfo url hplain)
    have htrim : Text.trim secret = secret := by
      rw [← hplain, trim_encodeUserInfo]
    have hblank : ' ' ∉ secret.toList := fun hm =>
      absurd (Url.encodeUserInfo_eq_self_iff.1 hplain _ hm) (by decide)
    refine ⟨hplain, fun hmark => ?_, fun step hs hw => ?_⟩
    · exact hshown _ hclone secret htrim fun url => .inl (shows_mark url hne hmark)
    · rcases shows_words hblank hne hw with hempty | hrefused
      · exact hshown step hs "" rfl fun url => .inl (hempty url)
      · exact hshown step hs keyRefused (by decide) fun url => .inl (hrefused url)
  · intro hsecret
    by_cases hdir : ∃ directory, projectDirectory request.directory = .ok directory
    · exact (hsecret hdir).conceals hu hweb hc hpassword hne
    · exact conceals_of_no_directory hdir hu

end Login

/-! ## Two logins -/

def exampleRequest (c : Credentials) : SourceRequest :=
  ⟨"https://example.com/repo", .commit "c0ffee", some "infra", some c⟩

theorem ofText?_exampleRequest (idna : Url.Idna) (c : Credentials) :
    Url.ofText? idna (exampleRequest c).repo = some plainUrl :=
  ofText?_plainRepo idna

theorem projectDirectory_exampleRequest (c : Credentials) :
    projectDirectory (exampleRequest c).directory = .ok "infra" := by
  have hparts : Path.parts (((some "infra").map Text.trim).getD "") = [.normal "infra"] := by
    decide +kernel
  dsimp only [projectDirectory, exampleRequest]
  rw [hparts]
  rfl

/-- A token of letters, digits and low lines is hidden. -/
theorem conceals_token :
    Concealable (.commit "c0ffee") "ghp_5JxQ" ∧
      Conceals ⟨"git", "work"⟩ (exampleRequest (.accessToken "ghp_5JxQ")) "ghp_5JxQ" := by
  have hsecret : Concealable (.commit "c0ffee") "ghp_5JxQ" := by
    decide +kernel
  refine ⟨hsecret, ?_⟩
  exact (conceals_iff _ (ofText?_exampleRequest _ _) (.inr rfl) rfl rfl (by decide)).2 fun _ => hsecret

/-- A password with characters that a URL does not take is shown in its encoding. -/
theorem password_not_concealed :
    ¬Conceals ⟨"git", "work"⟩ (exampleRequest (.basic "bot" "p@ss/word")) "p@ss/word" := by
  have hplain : Url.encodeUserInfo "p@ss/word" ≠ "p@ss/word" := by
    decide +kernel
  exact not_conceals_of_shows (ofText?_exampleRequest _ _) (.inr rfl) rfl rfl (by decide)
    (projectDirectory_exampleRequest _) (clone_mem_stepsFor _) (trim_encodeUserInfo _)
    fun url => .inr (shows_encodeUserInfo url hplain)

end GitSource

end StackKeeper

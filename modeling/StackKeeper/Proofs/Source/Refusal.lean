import StackKeeper.Proofs.Source.Preparation
import StackKeeper.Proofs.Text.Overlap

/-!
# Which failures of git count as refusals

What git printed is searched for phrases of a refusal after the secrets were taken out. The kind of
an error is that of the untouched text as long as no secret overlaps a phrase. A secret that does
makes some refusal look like any other failure.
-/

namespace StackKeeper

namespace GitSource

open Dialogue (ends_ask_iff ends_bind_iff ends_done_iff)
open Text (Overlap Watched)

variable {s : GitSource} {session : Session} {request : SourceRequest} {h : Transcript Host}
  {c : Option Credentials} {secrets before after : List String} {secret step text : String}
  {stderr : Bytes} {e : Error} {cs p : List Char} {x : Char}

def hidden (c : Option Credentials) : List String :=
  (c.toList.flatMap Credentials.secrets).filter (!·.isEmpty)

def phrases : List (List Char) := refusals.map String.toList

/-- The secret overlaps no phrase for a refusal. -/
def Clear (secret : String) : Prop := ∀ p ∈ phrases, ¬Overlap secret.toList p

instance (secret : String) : Decidable (Clear secret) :=
  inferInstanceAs (Decidable (∀ p ∈ phrases, _))

/-- No secret is a part of one that is taken out after it. -/
def Separate (c : Option Credentials) : Prop :=
  (hidden c).Pairwise fun q q' => ¬q.toList <:+: q'.toList

/-- A preparation ends with an error after a step of git failed and printed the bytes. -/
def Reports (s : GitSource) (request : SourceRequest) (step : String) (stderr : Bytes)
    (e : Error) : Prop :=
  ∃ h command output, (s.prepare request).Ends h (.error e) ∧
    ⟨.runProgram command, .ok output⟩ ∈ h ∧ command.args.head? = some step ∧
    output.succeeded = false ∧ output.stderr = stderr

/-- The same failure of git is an error of the same kind with either credentials. -/
def SameKinds (s : GitSource) (request : SourceRequest) (c c' : Option Credentials) : Prop :=
  ∀ step stderr e e', s.Reports { request with credentials := c } step stderr e →
    s.Reports { request with credentials := c' } step stderr e' → e.kind = e'.kind

/-! ## Taking secrets out -/

def redactAll (secrets : List String) (cs : List Char) : List Char :=
  secrets.foldl (fun cs secret => Text.replaceAll secret.toList redacted cs) cs

theorem redactAll_cons (secret : String) (secrets : List String) (cs : List Char) :
    redactAll (secret :: secrets) cs =
      redactAll secrets (Text.replaceAll secret.toList redacted cs) := rfl

theorem toList_redact_session (session : Session) (text : String) :
    (session.redact text).toList = redactAll session.secrets text.toList := String.toList_ofList

theorem watched_phrases : Watched redacted phrases where
  covers p hp := by
    have hframe : ∀ p ∈ phrases, '[' ∉ p ∧ ']' ∉ p ∧ ¬Text.hasPhrase p redacted = true := by
      decide +kernel
    obtain ⟨hopen, hclose, hmark⟩ := hframe p hp
    exact ⟨⟨'[', "REDACTED".toList, ']', rfl, hopen, hclose⟩,
      fun hin => hmark (Text.hasPhrase_iff.2 hin)⟩
  alone := by
    have hall : ∀ p ∈ phrases, ∀ p' ∈ phrases, Text.hasPhrase p' p = true → p' = p := by
      decide +kernel
    exact fun p hp p' hp' hin => hall p hp p' hp' (Text.hasPhrase_iff.2 hin)

theorem refuses_iff : Refuses text ↔ ∃ p ∈ phrases, p <:+: text.toList := by
  unfold Refuses phrases
  rw [List.any_eq_true]
  constructor
  · rintro ⟨phrase, hphrase, hin⟩
    exact ⟨_, List.mem_map_of_mem hphrase, Text.hasPhrase_iff.1 hin⟩
  · rintro ⟨p, hp, hin⟩
    obtain ⟨phrase, hphrase, rfl⟩ := List.mem_map.1 hp
    exact ⟨phrase, hphrase, Text.hasPhrase_iff.2 hin⟩

theorem toList_ne_nil (hne : secret ≠ "") : secret.toList ≠ [] :=
  fun h => hne (String.toList_eq_nil_iff.1 h)

/-- No phrase comes into being when secrets are taken out. -/
theorem infix_of_infix_redactAll (hne : ∀ q ∈ secrets, q ≠ "") (hp : p ∈ phrases)
    (hin : p <:+: redactAll secrets cs) : p <:+: cs := by
  induction secrets generalizing cs with
  | nil => exact hin
  | cons q secrets ih =>
    rw [List.forall_mem_cons] at hne
    have hs := Text.sweep_replaceAll (m := redacted) (toList_ne_nil hne.1) cs
    exact hs.infix_of_swept (watched_phrases.covers p hp) (ih hne.2 hin)

/-- A phrase stays when secrets are taken out that overlap none. -/
theorem infix_redactAll (hne : ∀ q ∈ secrets, q ≠ "") (hclear : ∀ q ∈ secrets, Clear q)
    (hp : p ∈ phrases) (hin : p <:+: cs) : p <:+: redactAll secrets cs := by
  induction secrets generalizing cs with
  | nil => exact hin
  | cons q secrets ih =>
    rw [List.forall_mem_cons] at hne hclear
    have hs := Text.sweep_replaceAll (m := redacted) (toList_ne_nil hne.1) cs
    exact ih hne.2 hclear.2 (hs.infix_of_apart (hclear.1 p hp) hin)

theorem redactAll_eq_self (hno : ∀ q ∈ secrets, ¬q.toList <:+: cs) : redactAll secrets cs = cs := by
  induction secrets with
  | nil => rfl
  | cons q secrets ih =>
    rw [List.forall_mem_cons] at hno
    rw [redactAll_cons, Text.replaceAll_eq_self hno.1, ih hno.2]

theorem refuses_redact_iff (hne : ∀ q ∈ session.secrets, q ≠ "")
    (hclear : ∀ q ∈ session.secrets, Clear q) : Refuses (session.redact text) ↔ Refuses text := by
  rw [refuses_iff, refuses_iff, toList_redact_session]
  constructor
  · rintro ⟨p, hp, hin⟩
    exact ⟨p, hp, infix_of_infix_redactAll hne hp hin⟩
  · rintro ⟨p, hp, hin⟩
    exact ⟨p, hp, infix_redactAll hne hclear hp hin⟩

/-! ## A refusal that is not seen -/

/-- Characters that are in no phrase. -/
def spares : List Char := ['.', '!', '#']

theorem spare_cases (hx : x ∈ spares) : x = '.' ∨ x = '!' ∨ x = '#' := by
  simpa only [spares, List.mem_cons, List.not_mem_nil, or_false] using hx

theorem isBlank_of_spare (hx : x ∈ spares) : Text.isBlank x = false := by
  rcases spare_cases hx with rfl | rfl | rfl <;> rfl

theorem not_mem_of_spare (hx : x ∈ spares) : ∀ p ∈ phrases, x ∉ p := by
  rcases spare_cases hx with rfl | rfl | rfl
  · decide +kernel
  · decide +kernel
  · decide +kernel

theorem exists_spare (a b : Option Char) : ∃ x ∈ spares, a ≠ some x ∧ b ≠ some x := by
  rcases eq_or_ne a (some '.') with rfl | ha
  · rcases eq_or_ne b (some '!') with rfl | hb
    · exact ⟨'#', by decide, by decide, by decide⟩
    · exact ⟨'!', by decide, by decide, hb⟩
  · rcases eq_or_ne b (some '.') with rfl | hb
    · rcases eq_or_ne a (some '!') with rfl | ha
      · exact ⟨'#', by decide, by decide, by decide⟩
      · exact ⟨'!', by decide, ha, by decide⟩
    · exact ⟨'.', by decide, ha, hb⟩

/-- What does not overlap a phrase is not in a text around it, if it is neither in the parts beside
the phrase nor begins or ends as the text. -/
theorem not_infix_around {k a b : List Char} (hk : k ≠ []) (hno : ¬Overlap k p) (ha : ¬k <:+: a)
    (hb : ¬k <:+: b) (hfirst : k.head? ≠ some x) (hlast : k.getLast? ≠ some x) :
    ¬k <:+: x :: a ++ (p ++ (b ++ [x])) := by
  intro hin
  rcases Text.infix_append_of_apart hno hin with hin | hin
  · rcases List.infix_cons_iff.1 hin with hpre | hin
    · obtain ⟨d, k, rfl⟩ := List.exists_cons_of_ne_nil hk
      obtain ⟨rfl, -⟩ := List.cons_prefix_cons.1 hpre
      exact hfirst rfl
    · exact ha hin
  · rcases List.infix_concat_iff.1 hin with ⟨l, hl⟩ | hin
    · have hend := congrArg List.getLast? hl
      rw [List.getLast?_append_of_ne_nil _ hk, List.getLast?_concat] at hend
      exact hlast hend
    · exact hb hin

/-- The first secret that overlaps a phrase hides a refusal: it is in some text, and not in what is
shown of it. -/
theorem exists_unseen (hsecrets : ∀ q ∈ before ++ secret :: after, q ≠ "")
    (hbefore : ∀ k ∈ before, Clear k ∧ ¬k.toList <:+: secret.toList ∧
      k.toList.head? ≠ some x ∧ k.toList.getLast? ≠ some x)
    (hx : x ∈ spares) (hsecret : ¬Clear secret) :
    ∃ l p b, p ∈ phrases ∧ ∀ p' ∈ phrases,
      ¬p' <:+: redactAll (before ++ secret :: after) (x :: l ++ (p ++ (b ++ [x]))) := by
  obtain ⟨p, hp, ho⟩ : ∃ p ∈ phrases, Overlap secret.toList p := by
    unfold Clear at hsecret
    push Not at hsecret
    exact hsecret
  have hne : secret ≠ "" := hsecrets _ (List.mem_append_right _ List.mem_cons_self)
  obtain ⟨a, p₀, b, hp₀, ha, hb, hlost⟩ := watched_phrases.exists_lost (not_mem_of_spare hx)
    (toList_ne_nil hne) hp ho
  refine ⟨a, p₀, b, hp₀, fun p' hp' hin => ?_⟩
  have hkept : redactAll before (x :: a ++ (p₀ ++ (b ++ [x]))) = x :: a ++ (p₀ ++ (b ++ [x])) := by
    refine redactAll_eq_self fun k hk => ?_
    obtain ⟨hclear, hpart, hfirst, hlast⟩ := hbefore k hk
    have hk : k.toList ≠ [] := toList_ne_nil (hsecrets k (List.mem_append_left _ hk))
    exact not_infix_around hk (hclear p₀ hp₀) (fun h => hpart (h.trans ha))
      (fun h => hpart (h.trans hb)) hfirst hlast
  have hsplit : redactAll (before ++ secret :: after) (x :: a ++ (p₀ ++ (b ++ [x]))) =
      redactAll after (Text.replaceAll secret.toList redacted (x :: a ++ (p₀ ++ (b ++ [x])))) := by
    unfold redactAll at hkept ⊢
    rw [List.foldl_append, hkept, List.foldl_cons]
  rw [hsplit] at hin
  have hafter : ∀ q ∈ after, q ≠ "" := fun q hq =>
    hsecrets q (List.mem_append_right _ (List.mem_cons_of_mem _ hq))
  exact hlost p' hp' (infix_of_infix_redactAll hafter hp' hin)

/-! ## What is reported -/

theorem secrets_of_loginSession {repo username password : String}
    (hs : s.loginSession repo username password = .ok session) :
    session.secrets = [password].filter (!·.isEmpty) := by
  unfold loginSession at hs
  obtain ⟨url, -, hs⟩ := bind_eq_ok hs
  cases hs
  rfl

theorem secrets_of_openSession {repo : String}
    (ho : (s.openSession repo c).Ends h (.ok session)) : session.secrets = hidden c := by
  match c with
  | none =>
    cases (ends_done_iff.1 ho).2
    rfl
  | some (.accessToken token) => exact secrets_of_loginSession (ends_done_iff.1 ho).2
  | some (.basic username password) => exact secrets_of_loginSession (ends_done_iff.1 ho).2
  | some (.sshKey privateKey passphrase) =>
    have hhidden : hidden (some (.sshKey privateKey passphrase)) =
        (privateKey :: passphrase.toList).filter (!·.isEmpty) :=
      congrArg (List.filter _) (List.append_nil _)
    rw [hhidden]
    obtain ⟨made, h₁, rfl, hmade⟩ := ends_ask_bind_iff.1 ho
    cases made with
    | error fault => cases (ends_done_iff.1 hmade).2
    | ok scratch =>
      obtain ⟨h₂, h₃, written, rfl, -, hwritten⟩ := ends_bind_iff.1 hmade
      cases written with
      | error fault =>
        obtain ⟨reply, h₄, rfl, hremoved⟩ := ends_ask_bind_iff.1 hwritten
        cases (ends_done_iff.1 hremoved).2
      | ok environment =>
        cases (ends_done_iff.1 hwritten).2
        rfl

theorem ne_empty_of_mem_hidden : ∀ q ∈ hidden c, q ≠ "" := by
  intro q hq
  have hkept := (List.mem_filter.1 hq).2
  rintro rfl
  cases hkept

theorem reports_iff : s.Reports request step stderr e ↔
    step ∈ stepsFor request.revision ∧ (∃ directory, Accepts request directory) ∧
      ∃ h session, (s.openSession request.repo request.credentials).Ends h (.ok session) ∧
        e = diagnose step (session.redact (Text.trim (Utf8.decodeLossy stderr))) := by
  constructor
  · rintro ⟨h, command, output, he, hc, hstep, hfail, rfl⟩
    obtain ⟨ha, hrun, id, session, h₁, r, -, opened, taken, hr⟩ := inTurn_of_run he hc
    obtain ⟨x, hx, hargs, hout⟩ := taken.exists_failure hrun hfail
    rw [hargs, head?_args_of_mem hx] at hstep
    obtain rfl := Option.some.inj hstep
    rw [outcome_of_failed hfail] at hout
    refine ⟨map_name_steps .. ▸ List.mem_map_of_mem hx, ha, h₁, session, opened, ?_⟩
    exact Except.error.inj (hr _ hout)
  · rintro ⟨hstep, ⟨directory, ha⟩, h₁, session, opened, rfl⟩
    rw [← map_name_steps session.url (s.clonePath request.repo "")] at hstep
    obtain ⟨x, hx, rfl⟩ := List.mem_map.1 hstep
    have fails : s.outcome session x.name (.ok ⟨false, [], stderr⟩) = .error _ :=
      outcome_of_failed rfl x.name
    obtain ⟨h₂, taken, hmem⟩ := Taken.exists_failed hx fails
    obtain ⟨h, he, hin⟩ := exists_ends_of_failed ha opened taken
    have hargs : x.args.head? = some x.name := head?_args_of_mem hx
    exact ⟨h, _, _, he, hin.subset hmem, hargs, rfl, rfl⟩

theorem kind_diagnose_of_iff {text text' : String} (h : Refuses text ↔ Refuses text') :
    (diagnose step text).kind = (diagnose step text').kind := by
  by_cases hr : Refuses text
  · rw [diagnose_of_refuses hr, diagnose_of_refuses (h.1 hr)]
    rfl
  · rw [diagnose_of_not_refuses hr, diagnose_of_not_refuses fun hr' => hr (h.2 hr')]
    rfl

theorem kind_eq_of_clear (hclear : ∀ q ∈ hidden request.credentials, Clear q)
    (hr : s.Reports request step stderr e) :
    e.kind = (diagnose step (Text.trim (Utf8.decodeLossy stderr))).kind := by
  obtain ⟨-, -, h, session, opened, rfl⟩ := reports_iff.1 hr
  have hsecrets := secrets_of_openSession opened
  refine kind_diagnose_of_iff (refuses_redact_iff ?_ ?_)
  · rw [hsecrets]
    exact ne_empty_of_mem_hidden
  · rwa [hsecrets]

theorem exists_first_unclear (hno : ¬∀ q ∈ secrets, Clear q) :
    ∃ before q after, secrets = before ++ q :: after ∧ (∀ k ∈ before, Clear k) ∧ ¬Clear q := by
  induction secrets with
  | nil => exact absurd nofun hno
  | cons k secrets ih =>
    by_cases hk : Clear k
    · obtain ⟨before, q, after, rfl, hbefore, hq⟩ := ih fun h =>
        hno (List.forall_mem_cons.2 ⟨hk, h⟩)
      exact ⟨k :: before, q, after, rfl, List.forall_mem_cons.2 ⟨hk, hbefore⟩, hq⟩
    · exact ⟨[], k, secrets, rfl, nofun, hk⟩

theorem length_hidden_le (c : Option Credentials) : (hidden c).length ≤ 2 := by
  refine (List.length_filter_le _ _).trans ?_
  match c with
  | none => exact Nat.zero_le _
  | some (.accessToken _) => exact Nat.le_succ 1
  | some (.basic _ _) => exact Nat.le_succ 1
  | some (.sshKey _ none) => exact Nat.le_succ 1
  | some (.sshKey _ (some _)) => exact Nat.le_refl _

theorem exists_unseen_text (hseparate : Separate c) (hno : ¬∀ q ∈ hidden c, Clear q) :
    ∃ text, Text.trim text = text ∧ Refuses text ∧
      ∀ session : Session, session.secrets = hidden c → ¬Refuses (session.redact text) := by
  obtain ⟨before, q, after, hsplit, hbefore, hq⟩ := exists_first_unclear hno
  have hlength : before.length ≤ 1 := by
    have hle := length_hidden_le c
    rw [hsplit, List.length_append, List.length_cons] at hle
    omega
  -- around the text stands a character that no earlier secret begins or ends with
  obtain ⟨x, hx, hends⟩ : ∃ x ∈ spares, ∀ k ∈ before,
      k.toList.head? ≠ some x ∧ k.toList.getLast? ≠ some x := by
    match before with
    | [] => exact ⟨'.', by decide, nofun⟩
    | [k] =>
      obtain ⟨x, hx, hends⟩ := exists_spare k.toList.head? k.toList.getLast?
      exact ⟨x, hx, List.forall_mem_singleton.2 hends⟩
  have hpart : ∀ k ∈ before, ¬k.toList <:+: q.toList := by
    unfold Separate at hseparate
    rw [hsplit] at hseparate
    exact fun k hk => (List.pairwise_append.1 hseparate).2.2 k hk q List.mem_cons_self
  have hall : ∀ k ∈ before ++ q :: after, k ≠ "" := fun k hk =>
    ne_empty_of_mem_hidden k (hsplit ▸ hk)
  obtain ⟨l, p, b, hp, hunseen⟩ := exists_unseen hall
    (fun k hk => ⟨hbefore k hk, hpart k hk, hends k hk⟩) hx hq
  refine ⟨String.ofList (x :: l ++ (p ++ (b ++ [x]))), ?_, ?_, fun session hsession => ?_⟩
  · have hlast : x :: l ++ (p ++ (b ++ [x])) = x :: l ++ p ++ b ++ [x] := by simp
    refine Text.trim_eq_self_iff.2 ⟨fun d hd => ?_, fun d hd => ?_⟩
    · rw [String.toList_ofList] at hd
      exact Option.some.inj hd ▸ isBlank_of_spare hx
    · rw [String.toList_ofList, hlast, List.getLast?_concat] at hd
      exact Option.some.inj hd ▸ isBlank_of_spare hx
  · exact refuses_iff.2 ⟨p, hp, x :: l, b ++ [x], by rw [String.toList_ofList]; simp⟩
  · rw [refuses_iff, toList_redact_session, hsession, hsplit, String.toList_ofList]
    rintro ⟨p', hp', hin⟩
    exact hunseen p' hp' hin

/-- Taking the secrets out leaves the kind of every error as it is if none overlaps a phrase for a
refusal. Two credentials, of which the second are such, have the same kinds exactly if the first
are such, unless one of their secrets is a part of a later one. -/
theorem redaction_keeps_kinds (s : GitSource) (request : SourceRequest) :
    (∀ c, (∀ q ∈ hidden c, Clear q) → ∀ step stderr e,
      s.Reports { request with credentials := c } step stderr e →
        e.kind = (diagnose step (Text.trim (Utf8.decodeLossy stderr))).kind) ∧
    ∀ c c', s.Admitted { request with credentials := c } →
      s.Admitted { request with credentials := c' } → (∀ q ∈ hidden c', Clear q) → Separate c →
        (s.SameKinds request c c' ↔ ∀ q ∈ hidden c, Clear q) := by
  refine ⟨fun c hclear step stderr e hr => kind_eq_of_clear hclear hr, ?_⟩
  intro c c' ⟨ha, h, session, opened⟩ ⟨ha', h', session', opened'⟩ hclear' hseparate
  constructor
  · intro hsame
    by_contra hno
    obtain ⟨text, htrim, hrefuses, hunseen⟩ := exists_unseen_text hseparate hno
    have hshown : Text.trim (Utf8.decodeLossy (Utf8.encode text)) = text := by
      rw [Utf8.decodeLossy_encode, htrim]
    have hr : s.Reports { request with credentials := c } "clone" (Utf8.encode text) _ :=
      reports_iff.2 ⟨clone_mem_stepsFor request.revision, ha, h, session, opened, rfl⟩
    have hr' : s.Reports { request with credentials := c' } "clone" (Utf8.encode text) _ :=
      reports_iff.2 ⟨clone_mem_stepsFor request.revision, ha', h', session', opened', rfl⟩
    have hkinds := hsame _ _ _ _ hr hr'
    rw [kind_eq_of_clear hclear' hr', hshown, diagnose_of_refuses hrefuses,
      diagnose_of_not_refuses (hunseen session (secrets_of_openSession opened))] at hkinds
    have hdiffer : "SourceError" ≠ "AuthError" := by decide
    exact hdiffer hkinds
  · intro hclear step stderr e e' hr hr'
    rw [kind_eq_of_clear hclear hr, kind_eq_of_clear hclear' hr']

theorem admitted_exampleRequest {c : Credentials} (hsecret : c.password? = some secret)
    (hne : secret ≠ "") : s.Admitted (exampleRequest c) := by
  have hrepo := Url.not_isAllBlank_of_ofText? (ofText?_exampleRequest s.idna c)
  obtain ⟨url, ho⟩ := openSession_eq (ofText?_exampleRequest s.idna c) (.inr rfl) hsecret hne
  refine ⟨⟨"infra", hrepo, projectDirectory_exampleRequest c⟩, [], loginOf url secret, ?_⟩
  change (s.openSession _ (some c)).Ends _ _
  rw [ho]
  exact .stay _

/-- Two tokens without a part of a phrase. -/
theorem kinds_of_plain_tokens : SameKinds ⟨"git", "work"⟩ (exampleRequest (.accessToken ""))
    (some (.accessToken "ghp_5JxQ")) (some (.accessToken "glpat-2Zq7")) := by
  have hclear : (∀ q ∈ hidden (some (.accessToken "ghp_5JxQ")), Clear q) ∧
      ∀ q ∈ hidden (some (.accessToken "glpat-2Zq7")), Clear q := by
    decide +kernel
  have hseparate : Separate (some (.accessToken "ghp_5JxQ")) := List.pairwise_singleton _ _
  exact ((redaction_keeps_kinds _ _).2 _ _ (admitted_exampleRequest rfl (by decide))
    (admitted_exampleRequest rfl (by decide)) hclear.2 hseparate).2 hclear.1

/-- A token that is a word of a phrase makes a refusal look like any other failure. -/
theorem token_hides_refusal : ¬SameKinds ⟨"git", "work"⟩ (exampleRequest (.accessToken ""))
    (some (.accessToken "failed")) (some (.accessToken "ghp_5JxQ")) := by
  let text := "fatal: Authentication failed for 'https://example.com/repo'"
  have hshown : Text.trim (Utf8.decodeLossy (Utf8.encode text)) = text := by
    rw [Utf8.decodeLossy_encode]
    decide +kernel
  have hreports : ∀ token ≠ "", ∃ url, Reports ⟨"git", "work"⟩ (exampleRequest (.accessToken token))
      "clone" (Utf8.encode text) (diagnose "clone" ((loginOf url token).redact text)) := by
    intro token hne
    obtain ⟨ha, -⟩ := admitted_exampleRequest (s := exampleSource) (c := .accessToken token) rfl hne
    have hu := ofText?_exampleRequest exampleSource.idna (.accessToken token)
    obtain ⟨url, ho⟩ := openSession_eq hu (.inr rfl) (c := .accessToken token) rfl hne
    refine ⟨url, reports_iff.2 ⟨clone_mem_stepsFor _, ha, [], loginOf url token, ?_, by rw [hshown]⟩⟩
    change (exampleSource.openSession _ (some (.accessToken token))).Ends _ _
    rw [ho]
    exact .stay _
  intro hsame
  obtain ⟨url, hr⟩ := hreports "failed" (by decide)
  obtain ⟨url', hr'⟩ := hreports "ghp_5JxQ" (by decide)
  have hunseen : ¬Refuses ((loginOf url "failed").redact text) := by
    rw [refuses_iff, toList_redact]
    decide +kernel
  have hseen : Refuses ((loginOf url' "ghp_5JxQ").redact text) := by
    rw [refuses_iff, toList_redact]
    decide +kernel
  have hkinds := hsame _ _ _ _ hr hr'
  rw [diagnose_of_not_refuses hunseen, diagnose_of_refuses hseen] at hkinds
  have hdiffer : "SourceError" ≠ "AuthError" := by decide
  exact hdiffer hkinds

end GitSource

end StackKeeper

import StackKeeper.Proofs.Dialogue.Transcript
import StackKeeper.Proofs.Url.RoundTrip
import StackKeeper.Source.Git
import StackKeeper.Url.Alphabets

/-!
# Logins in the URL of a remote

The URL of a web server takes any login and leads to the same place with it. A user name or a
password is read back from there exactly if it has no escape: what looks like a percent sign with two
hexadecimal digits behind it is not encoded, so one byte comes back for it. Other URLs take no login,
and git is not run for them.
-/

namespace StackKeeper

/-- The user name and the password that are put into the URL of a remote. -/
def Credentials.login? : Credentials → Option (String × String)
  | .accessToken token => some ("git", token)
  | .basic username password => some (username, password)
  | .sshKey .. => none

namespace GitSource

variable {s : GitSource} {repo username password : String} {u : Url} {α β : Type}

/-! ## Web servers -/

theorem decode_encodeUserInfo_eq_iff (text : String) :
    Url.decode (Url.encodeUserInfo text).toList = Utf8.encode text ↔
      Url.hasEscape text.toList = false := by
  rw [Url.encodeUserInfo, String.toList_ofList, Url.sparesEscapes_inUserInfo.decode_encode]
  have hiff := Url.decode_eq_iff text.toList
  rwa [String.ofList_toList] at hiff

theorem urlWithLogin_eq_ok (hu : Url.ofText? s.idna repo = some u)
    (hweb : u.scheme = "http" ∨ u.scheme = "https") (username password : String) :
    ∃ text v a, s.urlWithLogin repo username password = .ok text ∧
      Url.ofText? s.idna text = some v ∧ v.authority = some a ∧
      v.withoutUserInfo = u.withoutUserInfo ∧
      a.username = Url.encodeUserInfo username ∧ a.password = Url.encodeUserInfo password := by
  have hscheme : ¬(u.scheme ≠ "http" ∧ u.scheme ≠ "https") := fun hno => hweb.elim hno.1 hno.2
  obtain ⟨a, ha⟩ := Option.isSome_iff_exists.1 (Url.authority_of_web hu hweb)
  let b : Url.Authority :=
    { a with username := Url.encodeUserInfo username, password := Url.encodeUserInfo password }
  let v : Url := { u with authority := some b }
  have hv : u.withUserInfo? username password = some v := by
    rw [Url.withUserInfo?, ha]
    rfl
  have hnormal : v.IsNormal s.idna := (Url.isNormal_of_ofText? hu hweb).withUserInfo? hv
  have hplace : v.withoutUserInfo = u.withoutUserInfo := by
    rw [Url.withoutUserInfo, Url.withoutUserInfo, ha]
    rfl
  have htext : s.urlWithLogin repo username password = .ok v.toText := by
    unfold urlWithLogin
    simp only [hu, if_neg hscheme, hv]
  exact ⟨v.toText, v, b, htext, hnormal.ofText?_toText hweb, rfl, hplace, rfl, rfl⟩

/-! ## Other URLs -/

theorem urlWithLogin_eq_error
    (hrepo : ∀ u, Url.ofText? s.idna repo = some u → u.scheme ≠ "http" ∧ u.scheme ≠ "https")
    (username password : String) :
    ∃ text, s.urlWithLogin repo username password = .error (.auth text) := by
  unfold urlWithLogin
  cases hu : Url.ofText? s.idna repo with
  | none => exact ⟨_, rfl⟩
  | some u =>
    dsimp only
    rw [if_pos (hrepo u hu)]
    exact ⟨_, rfl⟩

theorem openSession_eq_error {c : Credentials} {e : Error}
    (hc : c.login? = some (username, password))
    (he : s.urlWithLogin repo username password = .error e) :
    s.openSession repo (some c) = .done (.error e) := by
  have hlogin : s.loginSession repo username password = .error e := by
    unfold loginSession
    rw [he]
    rfl
  cases c with
  | accessToken token =>
    cases hc
    exact congrArg Dialogue.done hlogin
  | basic username password =>
    cases hc
    exact congrArg Dialogue.done hlogin
  | sshKey privateKey passphrase => cases hc

/-- Whatever the machine replies, it is not asked to run a program. -/
def RunsNothing (d : Host.Talk α) : Prop :=
  ∀ h, d.Asks (fun _ (r : Host.Request) => ∀ c, r ≠ .runProgram c) h

theorem runsNothing_done (a : α) : RunsNothing (.done a) := fun _ => trivial

theorem runsNothing_ask {r : Host.Request} (hr : ∀ c, r ≠ .runProgram c) :
    RunsNothing (Host.ask r) := fun _ => ⟨hr, fun _ => trivial⟩

theorem RunsNothing.bind {d : Host.Talk β} {f : β → Host.Talk α} (hd : RunsNothing d)
    (hf : ∀ b, RunsNothing (f b)) : RunsNothing (d >>= f) := fun h =>
  (Dialogue.asks_bind d f h).2 ⟨hd h, Dialogue.ensures_iff.2 fun _ b _ => hf b _⟩

theorem runsNothing_remove (root : String) : RunsNothing (remove root) := by
  refine (runsNothing_ask fun _ hr => by cases hr).bind fun removed => ?_
  split
  · exact runsNothing_done _
  · exact runsNothing_done _
  · exact runsNothing_done _

theorem fetch_eq_error {request : SourceRequest} {e : Error}
    (he : s.openSession request.repo request.credentials = .done (.error e))
    (root directory : String) : s.fetch request root directory = .done (.error e) := by
  have hclone : s.clone request root = .done (.error e) := by
    unfold clone
    rw [he]
    rfl
  unfold fetch
  rw [hclone]
  rfl

theorem runsNothing_prepare {request : SourceRequest} {e : Error}
    (he : s.openSession request.repo request.credentials = .done (.error e)) :
    RunsNothing (s.prepare request) := by
  unfold prepare
  split
  next => exact runsNothing_done _
  next =>
    dsimp only
    split
    next => exact runsNothing_done _
    next directory hdirectory =>
      refine (runsNothing_ask fun _ hr => by cases hr).bind fun made => ?_
      split
      next => exact runsNothing_done _
      next =>
        refine (runsNothing_ask fun _ hr => by cases hr).bind fun id => ?_
        refine (runsNothing_ask fun _ hr => by cases hr).bind fun _ => ?_
        rw [fetch_eq_error he]
        exact (runsNothing_remove _).bind fun _ => runsNothing_done _

/-- For the URL of a web server a login leads to the same place, and is read back from there exactly
as far as it has no escapes. For any other URL there is an authentication error, and no command of
git is run. -/
theorem urlWithLogin_reads_back (s : GitSource) (repo username password : String) :
    (∀ u, Url.ofText? s.idna repo = some u → u.scheme = "http" ∨ u.scheme = "https" →
      ∃ text v a, s.urlWithLogin repo username password = .ok text ∧
        Url.ofText? s.idna text = some v ∧ v.authority = some a ∧
        v.withoutUserInfo = u.withoutUserInfo ∧
        (Url.decode a.username.toList = Utf8.encode username ↔
          Url.hasEscape username.toList = false) ∧
        (Url.decode a.password.toList = Utf8.encode password ↔
          Url.hasEscape password.toList = false)) ∧
    ((∀ u, Url.ofText? s.idna repo = some u → u.scheme ≠ "http" ∧ u.scheme ≠ "https") →
      (∃ text, s.urlWithLogin repo username password = .error (.auth text)) ∧
      ∀ request : SourceRequest, request.repo = repo →
        request.credentials.bind Credentials.login? = some (username, password) →
          RunsNothing (s.prepare request)) := by
  constructor
  · intro u hu hweb
    obtain ⟨text, v, a, htext, hv, ha, hplace, husername, hpassword⟩ :=
      urlWithLogin_eq_ok hu hweb username password
    refine ⟨text, v, a, htext, hv, ha, hplace, ?_, ?_⟩
    · rw [husername]
      exact decode_encodeUserInfo_eq_iff username
    · rw [hpassword]
      exact decode_encodeUserInfo_eq_iff password
  · intro hrepo
    obtain ⟨text, htext⟩ := urlWithLogin_eq_error hrepo username password
    refine ⟨⟨text, htext⟩, ?_⟩
    rintro request rfl hlogin
    obtain ⟨c, hc, hlogin⟩ := Option.bind_eq_some_iff.1 hlogin
    refine runsNothing_prepare (e := .auth text) ?_
    rw [hc]
    exact openSession_eq_error hlogin htext

def plainUrl : Url :=
  ⟨"https", some ⟨"", "", .domain "example.com", none⟩, .segments ["repo"], none, none⟩

theorem isNormal_plainUrl (idna : Url.Idna) : plainUrl.IsNormal idna := by
  have hdomain : Url.Host.IsDomain idna "example.com".toList :=
    ⟨by decide, idna.toAscii_plain (by decide), Url.forall_not_set (by decide)⟩
  have hname : Url.IsSettled "repo" :=
    ⟨Url.forall_not_set (by decide), by decide, by decide, by decide, by decide⟩
  refine ⟨⟨_, rfl, ⟨nofun, nofun, ⟨hdomain, by decide⟩, nofun⟩⟩, ?_, nofun, nofun⟩
  exact ⟨_, rfl, by decide, List.forall_mem_singleton.2 hname⟩

theorem ofText?_plainRepo (idna : Url.Idna) :
    Url.ofText? idna "https://example.com/repo" = some plainUrl := by
  have htext : plainUrl.toText = "https://example.com/repo" := by decide
  rw [← htext]
  exact (isNormal_plainUrl idna).ofText?_toText (.inr rfl)

def exampleSource : GitSource := ⟨"git", "work"⟩

/-- A password that a URL cannot take as it is comes back from there. -/
theorem urlWithLogin_reads_back_punctuated : ∃ text v a,
    exampleSource.urlWithLogin "https://example.com/repo" "bot" "p@ss/word" = .ok text ∧
      Url.ofText? exampleSource.idna text = some v ∧ v.authority = some a ∧
      Url.decode a.username.toList = Utf8.encode "bot" ∧
      Url.decode a.password.toList = Utf8.encode "p@ss/word" := by
  obtain ⟨text, v, a, htext, hv, ha, -, husername, hpassword⟩ :=
    (urlWithLogin_reads_back exampleSource _ "bot" "p@ss/word").1 _ (ofText?_plainRepo _) (.inr rfl)
  exact ⟨text, v, a, htext, hv, ha, husername.2 (by decide), hpassword.2 (by decide)⟩

/-- A password with an escape in it comes back as another one. -/
theorem password_unescaped : ∃ text v a,
    exampleSource.urlWithLogin "https://example.com/repo" "bot" "100%41x" = .ok text ∧
      Url.ofText? exampleSource.idna text = some v ∧ v.authority = some a ∧
      Url.decode a.password.toList = Utf8.encode "100Ax" ∧
      Utf8.encode "100Ax" ≠ Utf8.encode "100%41x" := by
  obtain ⟨text, v, a, htext, hv, ha, -, -, hpassword⟩ :=
    urlWithLogin_eq_ok (ofText?_plainRepo exampleSource.idna) (.inr rfl) "bot" "100%41x"
  refine ⟨text, v, a, htext, hv, ha, ?_, ?_⟩
  · rw [hpassword, Url.encodeUserInfo, String.toList_ofList,
      Url.sparesEscapes_inUserInfo.decode_encode]
    decide +kernel
  · decide +kernel

end GitSource

end StackKeeper

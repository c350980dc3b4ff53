import StackKeeper.Credentials
import StackKeeper.Proofs.Lookup.Failure
import StackKeeper.Proofs.Results

/-!
# Where credentials come from

A spec without credentials leads to none, and whatever fails on the way to some is an authentication
error. A secret leads to credentials exactly if one method is usable in it, and no other; nothing but
the values of four keys counts.
-/

namespace StackKeeper.Credentials

open Dialogue (ends_ask_iff ends_bind_iff ends_done_iff)
open Lookup (FailsBy Search)

variable {α β : Type} {data data' : Dict String} {c : Credentials} {h : Transcript Lookup}

/-- A secret holds the parts of a method, none of which is empty. -/
inductive Usable (data : Dict String) : Credentials → Prop where
  | accessToken {token : String} (there : data.get? "accessToken" = some token)
      (nonempty : token ≠ "") : Usable data (.accessToken token)
  | sshKey {key : String} {passphrase : Option String}
      (there : data.get? "sshPrivateKey" = some key) (nonempty : key ≠ "")
      (passphrase_iff : ∀ p, passphrase = some p ↔ data.get? "password" = some p ∧ p ≠ "") :
      Usable data (.sshKey key passphrase)
  | basic {username password : String} (named : data.get? "username" = some username)
      (name_nonempty : username ≠ "") (there : data.get? "password" = some password)
      (nonempty : password ≠ "") : Usable data (.basic username password)

def secretKeys : List String := ["accessToken", "sshPrivateKey", "username", "password"]

/-- The error is one of authentication, whatever was looked up. -/
def OfAuth (_ : Transcript Lookup) (e : Error) : Prop := ∃ text, e = .auth text

/-! ## Failures -/

theorem ofAuth_resolvePart (r : Resolver) (what : String) (reference : Reference) :
    FailsBy OfAuth (resolvePart r what reference) :=
  Lookup.failsBy_failingAs fun _ _ _ => ⟨_, rfl⟩

theorem ofAuth_ofReferences (a : GitAuth) (r : Resolver) : FailsBy OfAuth (ofReferences a r) := by
  unfold ofReferences
  split
  · exact Lookup.failsBy_fail ⟨_, rfl⟩
  · split
    · exact (ofAuth_resolvePart r _ _).map _
    · refine (ofAuth_resolvePart r _ _).bind fun key => ?_
      exact (Lookup.failsBy_optionMapM (ofAuth_resolvePart r _) _).bind fun _ =>
        Lookup.failsBy_pure _
    · refine (ofAuth_resolvePart r _ _).bind fun username => ?_
      exact (ofAuth_resolvePart r _ _).bind fun password => Lookup.failsBy_pure _
    · exact Lookup.failsBy_fail ⟨_, rfl⟩

theorem ofSecret_eq_error {name : String} {e : Error} (he : ofSecret name data = .error e) :
    ∃ text, e = .auth text := by
  unfold ofSecret at he
  split at he
  · cases he
  · cases he
    exact ⟨_, rfl⟩
  · cases he
    exact ⟨_, rfl⟩

/-! ## Secrets -/

theorem part?_eq_some_iff {key value : String} :
    part? data key = some value ↔ data.get? key = some value ∧ value ≠ "" := by
  unfold part?
  rw [Option.filter_eq_some_iff]
  simp

theorem usable_iff : Usable data c ↔ c ∈ (usable data).map Prod.snd := by
  unfold usable
  rw [List.map_append, List.map_append, List.mem_append, List.mem_append]
  constructor
  · intro hu
    cases hu with
    | accessToken there nonempty =>
      rw [part?_eq_some_iff.2 ⟨there, nonempty⟩]
      exact .inl (.inl (by simp))
    | sshKey there nonempty passphrase_iff =>
      have hpassphrase : part? data "password" = _ :=
        Option.ext fun p => part?_eq_some_iff.trans (passphrase_iff p).symm
      rw [part?_eq_some_iff.2 ⟨there, nonempty⟩, hpassphrase]
      exact .inl (.inr (by simp))
    | basic named name_nonempty there nonempty =>
      rw [part?_eq_some_iff.2 ⟨named, name_nonempty⟩, part?_eq_some_iff.2 ⟨there, nonempty⟩]
      exact .inr (by simp)
  · rintro ((hc | hc) | hc)
    · cases htoken : part? data "accessToken" with
      | none =>
        rw [htoken] at hc
        cases hc
      | some token =>
        rw [htoken] at hc
        obtain ⟨there, nonempty⟩ := part?_eq_some_iff.1 htoken
        obtain rfl := List.mem_singleton.1 hc
        exact .accessToken there nonempty
    · cases hkey : part? data "sshPrivateKey" with
      | none =>
        rw [hkey] at hc
        cases hc
      | some key =>
        rw [hkey] at hc
        obtain ⟨there, nonempty⟩ := part?_eq_some_iff.1 hkey
        obtain rfl := List.mem_singleton.1 hc
        exact .sshKey there nonempty fun p => part?_eq_some_iff
    · cases hname : part? data "username" with
      | none =>
        rw [hname] at hc
        cases hc
      | some username =>
        cases hpassword : part? data "password" with
        | none =>
          rw [hname, hpassword] at hc
          cases hc
        | some password =>
          rw [hname, hpassword] at hc
          obtain ⟨named, name_nonempty⟩ := part?_eq_some_iff.1 hname
          obtain ⟨there, nonempty⟩ := part?_eq_some_iff.1 hpassword
          obtain rfl := List.mem_singleton.1 hc
          exact .basic named name_nonempty there nonempty

theorem nodup_usable (data : Dict String) : ((usable data).map Prod.snd).Nodup := by
  unfold usable
  cases part? data "accessToken" <;> cases part? data "sshPrivateKey" <;>
    cases part? data "username" <;> cases part? data "password" <;> simp

theorem usable_congr (hkeys : ∀ key ∈ secretKeys, data.get? key = data'.get? key) :
    usable data = usable data' := by
  have hpart : ∀ key ∈ secretKeys, part? data key = part? data' key := fun key hk =>
    congrArg (Option.filter _) (hkeys key hk)
  unfold usable
  rw [hpart "accessToken" (by decide), hpart "sshPrivateKey" (by decide),
    hpart "username" (by decide), hpart "password" (by decide)]

theorem eq_singleton_iff {l : List α} {a : α} (hl : l.Nodup) :
    l = [a] ↔ a ∈ l ∧ ∀ b ∈ l, b = a := by
  constructor
  · rintro rfl
    exact ⟨List.mem_cons_self, fun b hb => List.mem_singleton.1 hb⟩
  · rintro ⟨ha, hall⟩
    cases l with
    | nil => cases ha
    | cons b l =>
      obtain ⟨hb, -⟩ := List.nodup_cons.1 hl
      obtain ⟨rfl, hrest⟩ := List.forall_mem_cons.1 hall
      have hnil : l = [] := List.eq_nil_iff_forall_not_mem.2 fun d hd => hb (hrest d hd ▸ hd)
      rw [hnil]

theorem ofSecret_eq_ok {name : String} :
    ofSecret name data = .ok c ↔ (usable data).map Prod.snd = [c] := by
  unfold ofSecret
  split
  next method c' heq =>
    rw [heq]
    simp
  next heq =>
    rw [heq]
    exact ⟨nofun, nofun⟩
  next hno _ =>
    refine ⟨nofun, fun hone => ?_⟩
    obtain ⟨⟨method, c'⟩, heq, -⟩ := List.map_eq_singleton_iff.1 hone
    exact absurd heq (hno method c')

/-- The credentials of a secret are those of the only method that is usable in it. -/
theorem ofSecret_eq_ok_iff {name : String} :
    ofSecret name data = .ok c ↔ Usable data c ∧ ∀ c', Usable data c' → c' = c := by
  rw [ofSecret_eq_ok, eq_singleton_iff (nodup_usable data)]
  simp only [usable_iff]

/-! ## Specs -/

def ofReply (name : String) : Except Error (Dict String) → Except Error (Option Credentials)
  | .error e => .error (.auth s!"reading git auth secret: {e.message}")
  | .ok data => (ofSecret name data).map some

theorem run_map_mk (x : Except Error α) (f : α → β) :
    (f <$> (ExceptT.mk (.done x) : Search α)).run = .done (x.map f) := by
  cases x <;> rfl

theorem ends_resolve_secret_iff {spec : Stack.Spec} {r : Resolver} {ns name : String}
    {x : Except Error (Option Credentials)} (hauth : spec.gitAuth = none)
    (hsecret : spec.gitAuthSecret = some name) :
    Dialogue.Ends (resolve spec r ns).run h x ↔
      ∃ reply, h = [⟨.secret ⟨ns, name⟩, reply⟩] ∧ x = ofReply name reply := by
  have hrun : (resolve spec r ns).run =
      .ask (.secret ⟨ns, name⟩) fun reply => .done (ofReply name reply) := by
    unfold resolve
    rw [hauth, hsecret]
    refine congrArg (Dialogue.ask _) (funext fun reply => ?_)
    cases reply with
    | error e => rfl
    | ok data => exact run_map_mk (ofSecret name data) some
  rw [hrun]
  constructor
  · intro he
    obtain ⟨reply, h', rfl, hend⟩ := ends_ask_iff.1 he
    obtain ⟨rfl, rfl⟩ := ends_done_iff.1 hend
    exact ⟨reply, rfl, rfl⟩
  · rintro ⟨reply, rfl, rfl⟩
    exact ends_ask_iff.2 ⟨reply, [], rfl, .stay _⟩

theorem not_ends_map_some {t : Search α} : ¬Dialogue.Ends (some <$> t).run h (.ok none) := by
  rw [← bind_pure_comp]
  intro he
  obtain ⟨h₁, h₂, x, rfl, -, hrest⟩ := ends_bind_iff.1 he
  cases x with
  | error e => cases (ends_done_iff.1 hrest).2
  | ok a => cases (ends_done_iff.1 hrest).2

theorem ends_ok_none_iff {spec : Stack.Spec} {r : Resolver} {ns : String} :
    Dialogue.Ends (resolve spec r ns).run h (.ok none) ↔
      h = [] ∧ spec.gitAuth = none ∧ spec.gitAuthSecret = none := by
  cases hauth : spec.gitAuth with
  | some a =>
    refine iff_of_false (fun he => ?_) fun hno => nomatch hno.2.1
    unfold resolve at he
    cases hsecret : spec.gitAuthSecret with
    | some name =>
      rw [hauth, hsecret] at he
      cases (ends_done_iff.1 he).2
    | none =>
      rw [hauth, hsecret] at he
      exact not_ends_map_some he
  | none =>
    cases hsecret : spec.gitAuthSecret with
    | some name =>
      refine iff_of_false (fun he => ?_) fun hno => nomatch hno.2.2
      obtain ⟨reply, -, hx⟩ := (ends_resolve_secret_iff hauth hsecret).1 he
      cases reply with
      | error e => cases hx
      | ok data =>
        obtain ⟨c, -, hc⟩ := map_eq_ok hx.symm
        cases hc
    | none =>
      unfold resolve
      rw [hauth, hsecret]
      exact ends_done_iff.trans (and_congr_right fun _ => iff_of_true rfl ⟨rfl, rfl⟩)

theorem ofAuth_resolve (spec : Stack.Spec) (r : Resolver) (ns : String) :
    FailsBy OfAuth (resolve spec r ns) := by
  unfold resolve
  split
  · exact Lookup.failsBy_fail ⟨_, rfl⟩
  · exact (ofAuth_ofReferences _ _).map _
  · refine (Lookup.failsBy_failingAs fun _ _ _ => ⟨_, rfl⟩).bind fun data => ?_
    refine FailsBy.map (fun h e he => ?_) _
    have hauth := ofSecret_eq_error (ends_done_iff.1 he).2
    exact ⟨[], h, [], (List.append_nil h).symm, hauth⟩
  · exact Lookup.failsBy_pure _

theorem ends_ok_some_iff {spec : Stack.Spec} {r : Resolver} {ns name : String}
    (hauth : spec.gitAuth = none) (hsecret : spec.gitAuthSecret = some name) :
    Dialogue.Ends (resolve spec r ns).run h (.ok (some c)) ↔
      ∃ data, h = [⟨.secret ⟨ns, name⟩, .ok data⟩] ∧
        Usable data c ∧ ∀ c', Usable data c' → c' = c := by
  rw [ends_resolve_secret_iff hauth hsecret]
  constructor
  · rintro ⟨reply, rfl, hx⟩
    cases reply with
    | error e => cases hx
    | ok data =>
      obtain ⟨c', hc', hsome⟩ := map_eq_ok hx.symm
      obtain rfl := Option.some.inj hsome
      exact ⟨data, rfl, ofSecret_eq_ok_iff.1 hc'⟩
  · rintro ⟨data, rfl, hc⟩
    exact ⟨.ok data, rfl, (congrArg (Except.map some) (ofSecret_eq_ok_iff.2 hc)).symm⟩

theorem ofSecret_congr {name : String} (hkeys : ∀ key ∈ secretKeys, data.get? key = data'.get? key) :
    ofSecret name data = ofSecret name data' := by
  unfold ofSecret
  rw [usable_congr hkeys]

theorem ends_resolve_read_iff {spec : Stack.Spec} {r : Resolver} {ns name : String}
    {x : Except Error (Option Credentials)} {reply : Except Error (Dict String)}
    (hauth : spec.gitAuth = none) (hsecret : spec.gitAuthSecret = some name) :
    Dialogue.Ends (resolve spec r ns).run [⟨.secret ⟨ns, name⟩, reply⟩] x ↔
      x = ofReply name reply := by
  rw [ends_resolve_secret_iff hauth hsecret]
  constructor
  · rintro ⟨reply', hreply, rfl⟩
    cases hreply
    rfl
  · exact fun hx => ⟨reply, rfl, hx⟩

/-- Where the credentials of a spec come from. Without any there are none, every failure is an
authentication error, and a secret on its own gives the only method that is usable in it, whatever
else it holds. -/
theorem resolve_settles (spec : Stack.Spec) (r : Resolver) (ns : String) :
    (∀ h, Dialogue.Ends (resolve spec r ns).run h (.ok none) ↔
      h = [] ∧ spec.gitAuth = none ∧ spec.gitAuthSecret = none) ∧
    (∀ h e, Dialogue.Ends (resolve spec r ns).run h (.error e) → ∃ text, e = .auth text) ∧
    ∀ name, spec.gitAuth = none → spec.gitAuthSecret = some name →
      (∀ h c, Dialogue.Ends (resolve spec r ns).run h (.ok (some c)) ↔
        ∃ data, h = [⟨.secret ⟨ns, name⟩, .ok data⟩] ∧
          Usable data c ∧ ∀ c', Usable data c' → c' = c) ∧
      ∀ data data' : Dict String, (∀ key ∈ secretKeys, data.get? key = data'.get? key) →
        ∀ x, Dialogue.Ends (resolve spec r ns).run [⟨.secret ⟨ns, name⟩, .ok data⟩] x ↔
          Dialogue.Ends (resolve spec r ns).run [⟨.secret ⟨ns, name⟩, .ok data'⟩] x := by
  refine ⟨fun h => ends_ok_none_iff, fun h e he => ?_, fun name hauth hsecret =>
    ⟨fun h c => ends_ok_some_iff hauth hsecret, fun data data' hkeys x => ?_⟩⟩
  · obtain ⟨_, _, _, _, hfails⟩ := ofAuth_resolve spec r ns h e he
    exact hfails
  · have hreply : ofReply name (.ok data) = ofReply name (.ok data') :=
      congrArg (Except.map some) (ofSecret_congr hkeys)
    rw [ends_resolve_read_iff hauth hsecret, ends_resolve_read_iff hauth hsecret, hreply]

end StackKeeper.Credentials

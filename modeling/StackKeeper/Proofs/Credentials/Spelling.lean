import StackKeeper.Proofs.Credentials
import StackKeeper.Proofs.Dict
import StackKeeper.Proofs.Lookup.Result

/-!
# One method, spelled in two ways

A method of authentication is set by references to its parts, or by a secret that holds the parts
under their keys. A secret with an empty part is taken for one without it, a reference to an empty
text is taken as it is: both spellings come to the same exactly if no part is empty.
-/

namespace StackKeeper.Credentials

open Lookup

variable {s : Holdings} {r : Resolver} {ns name : String} {a : GitAuth} {c c' : Credentials}

/-- The parts of a method, under the keys that they have in a secret. -/
def entries : Credentials → List (String × String)
  | accessToken token => [("accessToken", token)]
  | sshKey privateKey passphrase =>
    ("sshPrivateKey", privateKey) :: (passphrase.map fun p => ("password", p)).toList
  | basic username password => [("username", username), ("password", password)]

/-- The secret that holds exactly the parts of a method. -/
def asSecret (c : Credentials) : Dict String := Dict.ofList c.entries

def parts (c : Credentials) : List String := c.entries.map (·.2)

/-- The parts without which there is no method. -/
def required : Credentials → List String
  | accessToken token => [token]
  | sshKey privateKey _ => [privateKey]
  | basic username password => [username, password]

/-- A method is set by references, which lead to its parts. -/
inductive SetBy (s : Holdings) (r : Resolver) : GitAuth → Credentials → Prop where
  | accessToken {reference : Reference} {token : String}
      (there : result s (r.resolve reference) = .ok token) :
      SetBy s r ⟨some reference, none, none⟩ (.accessToken token)
  | openKey {reference : Reference} {key : String}
      (there : result s (r.resolve reference) = .ok key) :
      SetBy s r ⟨none, some ⟨reference, none⟩, none⟩ (.sshKey key none)
  | lockedKey {reference password : Reference} {key passphrase : String}
      (there : result s (r.resolve reference) = .ok key)
      (locked : result s (r.resolve password) = .ok passphrase) :
      SetBy s r ⟨none, some ⟨reference, some password⟩, none⟩ (.sshKey key (some passphrase))
  | basic {userName password : Reference} {username word : String}
      (named : result s (r.resolve userName) = .ok username)
      (there : result s (r.resolve password) = .ok word) :
      SetBy s r ⟨none, none, some ⟨userName, password⟩⟩ (.basic username word)

/-- Two answers are the same credentials, or both are failures to authenticate. -/
inductive Alike : Except Error (Option Credentials) → Except Error (Option Credentials) → Prop where
  | found (c : Option Credentials) : Alike (.ok c) (.ok c)
  | refused (text text' : String) : Alike (.error (.auth text)) (.error (.auth text'))

/-! ## References -/

theorem result_resolvePart {reference : Reference} {value : String} (what : String)
    (h : result s (r.resolve reference) = .ok value) :
    result s (resolvePart r what reference) = .ok value := by
  rw [resolvePart, result_failingAs, h]
  rfl

/-- References that lead to the parts of a method give the method, unless one is malformed. -/
theorem result_ofReferences (hset : SetBy s r a c) :
    result s (ofReferences a r) = (a.validate.mapError fun e => .auth e.message).map fun _ => c := by
  unfold ofReferences
  cases a.validate with
  | error e => rfl
  | ok u =>
    cases hset with
    | accessToken there =>
      dsimp only
      rw [result_map, result_resolvePart _ there]
      rfl
    | openKey there =>
      dsimp only
      rw [result_bind, result_resolvePart _ there]
      rfl
    | lockedKey there locked =>
      dsimp only
      rw [result_bind, result_resolvePart _ there, bind_ok rfl, result_bind, Option.mapM_some,
        result_map, result_resolvePart _ locked]
      rfl
    | basic named there =>
      dsimp only
      rw [result_bind, result_resolvePart _ named, bind_ok rfl, result_bind,
        result_resolvePart _ there]
      rfl

theorem result_references_eq_ok_iff {spec : Stack.Spec} {x : Option Credentials}
    (hauth : spec.gitAuth = some a) (hsecret : spec.gitAuthSecret = none) (hset : SetBy s r a c) :
    result s (resolve spec r ns) = .ok x ↔ a.validate = .ok () ∧ some c = x := by
  unfold resolve
  rw [hauth, hsecret]
  dsimp only
  rw [result_map, result_ofReferences hset]
  simp only [map_eq_ok_iff, mapError_eq_ok_iff]
  constructor
  · rintro ⟨c', ⟨u, hvalid, rfl⟩, hx⟩
    exact ⟨hvalid, hx⟩
  · rintro ⟨hvalid, hx⟩
    exact ⟨c, ⟨(), hvalid, rfl⟩, hx⟩

/-! ## Secrets -/

/-- What a secret makes of the parts: an empty passphrase is none. -/
def kept : Credentials → Credentials
  | sshKey privateKey passphrase => sshKey privateKey (passphrase.filter fun p => !p.isEmpty)
  | c => c

theorem part?_asSecret (c : Credentials) (key : String) :
    part? c.asSecret key = (Dict.find c.entries key).filter fun value => !value.isEmpty := by
  have hkeys : (c.entries.map (·.1)).Nodup := by
    cases c with
    | accessToken token => simp [entries]
    | sshKey privateKey passphrase => cases passphrase <;> simp [entries]
    | basic username password => simp [entries]
  rw [part?, asSecret, Dict.get?_ofList hkeys]

theorem usable_asSecret (c : Credentials) : (usable c.asSecret).map Prod.snd =
    if "" ∈ c.required then [] else [c.kept] := by
  unfold usable
  simp only [part?_asSecret]
  cases c with
  | accessToken token =>
    by_cases htoken : token = "" <;> simp [entries, required, kept, Dict.find, htoken]
  | sshKey privateKey passphrase =>
    by_cases hkey : privateKey = "" <;> cases passphrase <;>
      simp [entries, required, kept, Dict.find, hkey]
  | basic username password =>
    by_cases hname : username = "" <;> by_cases hword : password = "" <;>
      simp [entries, required, kept, Dict.find, Option.filter_some, hname, hword]

theorem ofSecret_asSecret_iff : ofSecret name c.asSecret = .ok c' ↔
    "" ∉ c.required ∧ c.kept = c' := by
  rw [ofSecret_eq_ok, usable_asSecret]
  by_cases h : "" ∈ c.required <;> simp [h]

theorem result_secret_eq_ok_iff {spec : Stack.Spec} {x : Option Credentials}
    (hauth : spec.gitAuth = none) (hsecret : spec.gitAuthSecret = some name)
    (hheld : s (.secret ⟨ns, name⟩) = .ok c.asSecret) :
    result s (resolve spec r ns) = .ok x ↔ "" ∉ c.required ∧ some c.kept = x := by
  have hread : result s (secret ⟨ns, name⟩) = .ok c.asSecret := hheld
  unfold resolve
  rw [hauth, hsecret]
  dsimp only
  rw [result_bind, result_failingAs, hread, bind_ok (mapError_eq_ok_iff.2 rfl), result_map]
  refine map_eq_ok_iff.trans ?_
  constructor
  · rintro ⟨c', hc, hx⟩
    obtain ⟨hrequired, rfl⟩ := ofSecret_asSecret_iff.1 hc
    exact ⟨hrequired, hx⟩
  · rintro ⟨hrequired, hx⟩
    exact ⟨c.kept, ofSecret_asSecret_iff.2 ⟨hrequired, rfl⟩, hx⟩

/-- No part is empty if none is without which there is no method, and the secret keeps all. -/
theorem empty_not_mem_parts_iff (c : Credentials) :
    "" ∉ c.parts ↔ "" ∉ c.required ∧ c.kept = c := by
  cases c with
  | accessToken token => simp [parts, entries, required, kept]
  | basic username password => simp [parts, entries, required, kept]
  | sshKey privateKey passphrase =>
    cases passphrase with
    | none => simp [parts, entries, required, kept]
    | some p =>
      by_cases hp : p = "" <;> simp [parts, entries, required, kept, hp, eq_comm (a := "")]

/-! ## Both spellings -/

theorem ofAuth_result {spec : Stack.Spec} {e : Error}
    (he : result s (resolve spec r ns) = .error e) : ∃ text, e = .auth text := by
  obtain ⟨h, hends⟩ := Dialogue.exists_ends_run (fun q u => (s q, u)) (resolve spec r ns).run ()
  obtain ⟨_, _, _, _, hauth⟩ := ofAuth_resolve spec r ns h e (he ▸ hends)
  exact hauth

/-- Specs get the same answer if they come to the same credentials. -/
theorem alike_iff {spec spec' : Stack.Spec} :
    Alike (result s (resolve spec r ns)) (result s (resolve spec' r ns)) ↔
      ∀ x, result s (resolve spec r ns) = .ok x ↔ result s (resolve spec' r ns) = .ok x := by
  constructor
  · intro halike x
    generalize result s (resolve spec r ns) = answer, result s (resolve spec' r ns) = answer'
      at halike
    cases halike with
    | found c => exact Iff.rfl
    | refused text text' => exact iff_of_false nofun nofun
  · intro hsame
    cases hx : result s (resolve spec r ns) with
    | ok x =>
      rw [(hsame x).1 hx]
      exact .found x
    | error e =>
      cases hy : result s (resolve spec' r ns) with
      | ok y => cases hx.symm.trans ((hsame y).2 hy)
      | error e' =>
        -- whatever goes wrong, it is reported as a failure to authenticate
        obtain ⟨text, rfl⟩ := ofAuth_result hx
        obtain ⟨text', rfl⟩ := ofAuth_result hy
        exact .refused text text'

/-- Two specs ask for one method, the one by references to its parts, the other one by a secret that
holds them. -/
structure SpelledTwice (s : Holdings) (r : Resolver) (ns : String) (a : GitAuth) (name : String)
    (c : Credentials) (byReferences bySecret : Stack.Spec) : Prop where
  references : byReferences.gitAuth = some a
  referencesOnly : byReferences.gitAuthSecret = none
  set : SetBy s r a c
  secret : bySecret.gitAuthSecret = some name
  secretOnly : bySecret.gitAuth = none
  held : s (.secret ⟨ns, name⟩) = .ok c.asSecret

/-- Two specs that ask for one method get the same answer exactly if no part of it is empty, or,
where the references are malformed and so refused, if one is empty without which there is no
method. -/
theorem spellings_alike_iff {byReferences bySecret : Stack.Spec}
    (h : SpelledTwice s r ns a name c byReferences bySecret) :
    Alike (result s (resolve byReferences r ns)) (result s (resolve bySecret r ns)) ↔
      (a.validate = .ok () ∧ "" ∉ c.parts) ∨ (a.validate ≠ .ok () ∧ "" ∈ c.required) := by
  have hsame : (∀ x, some c = x ↔ some c.kept = x) ↔ c.kept = c := by
    constructor
    · intro hx
      exact Option.some.inj ((hx (some c)).1 rfl)
    · intro hkept x
      rw [hkept]
  rw [alike_iff]
  simp only [result_references_eq_ok_iff h.references h.referencesOnly h.set,
    result_secret_eq_ok_iff h.secretOnly h.secret h.held, empty_not_mem_parts_iff]
  by_cases hvalid : a.validate = .ok ()
  · by_cases hrequired : "" ∈ c.required
    · simp [hvalid, hrequired]
    · simpa only [hvalid, hrequired, true_and, not_false_eq_true, not_true_eq_false, false_and,
        or_false, ne_eq] using hsame
  · by_cases hrequired : "" ∈ c.required <;> simp [hvalid, hrequired]

/-! ## A key and its passphrase -/

/-- A key that is given openly, and its passphrase in a variable. -/
def keyAuth : GitAuth := ⟨none, some ⟨.literal "KEY", some (.env "PASSPHRASE")⟩, none⟩

theorem validate_keyAuth : keyAuth.validate = .ok () := by
  have hkey : (Reference.literal "KEY").validate = .ok () := rfl
  have hpassphrase : (Reference.env "PASSPHRASE").validate = .ok () := by
    have hblank : Text.isAllBlank "PASSPHRASE" = false := by decide
    rw [Reference.validate, Reference.blankPart?, hblank]
    rfl
  have hall : keyAuth.references.forM Reference.validate = .ok () := by
    apply forM_eq_ok_iff.2
    exact List.forall_mem_cons.2 ⟨hkey, List.forall_mem_singleton.2 hpassphrase⟩
  have hone : keyAuth.methodCount = 1 := rfl
  rw [GitAuth.validate, hone, if_neg (not_not_intro rfl), hall]

def keyResolver (passphrase : String) : Resolver :=
  ⟨"default", Dict.singleton "PASSPHRASE" passphrase⟩

/-- What the stores hold: the key with its passphrase, in one secret. -/
def keyHoldings (passphrase : String) : Holdings :=
  .ofMemory (MemorySecrets.empty.insertSecret ⟨"infra", "deploy"⟩
    (asSecret (.sshKey "KEY" (some passphrase)))) fun _ => .error .notFound

def keySpec (auth : Option GitAuth) (secret : Option String) : Stack.Spec :=
  { (default : Stack.Spec) with gitAuth := auth, gitAuthSecret := secret }

theorem spelledTwice_key (passphrase : String) :
    SpelledTwice (keyHoldings passphrase) (keyResolver passphrase) "infra" keyAuth "deploy"
      (.sshKey "KEY" (some passphrase)) (keySpec (some keyAuth) none)
      (keySpec none (some "deploy")) where
  references := rfl
  referencesOnly := rfl
  set := .lockedKey rfl rfl
  secret := rfl
  secretOnly := rfl
  held := rfl

theorem spellings_alike_locked :
    SpelledTwice (keyHoldings "open sesame") (keyResolver "open sesame") "infra" keyAuth "deploy"
      (.sshKey "KEY" (some "open sesame")) (keySpec (some keyAuth) none)
      (keySpec none (some "deploy")) ∧
    Alike
      (result (keyHoldings "open sesame")
        (resolve (keySpec (some keyAuth) none) (keyResolver "open sesame") "infra"))
      (result (keyHoldings "open sesame")
        (resolve (keySpec none (some "deploy")) (keyResolver "open sesame") "infra")) := by
  have hspelled := spelledTwice_key "open sesame"
  exact ⟨hspelled, (spellings_alike_iff hspelled).2 (.inl ⟨validate_keyAuth, by decide⟩)⟩

/-- An empty passphrase is one by references, and none in a secret. -/
theorem empty_passphrase_told_apart :
    SpelledTwice (keyHoldings "") (keyResolver "") "infra" keyAuth "deploy"
      (.sshKey "KEY" (some "")) (keySpec (some keyAuth) none) (keySpec none (some "deploy")) ∧
    ¬Alike
      (result (keyHoldings "") (resolve (keySpec (some keyAuth) none) (keyResolver "") "infra"))
      (result (keyHoldings "") (resolve (keySpec none (some "deploy")) (keyResolver "") "infra")) := by
  have hspelled := spelledTwice_key ""
  refine ⟨hspelled, fun halike => ?_⟩
  have hreferences : result (keyHoldings "")
      (resolve (keySpec (some keyAuth) none) (keyResolver "") "infra") =
        .ok (some (.sshKey "KEY" (some ""))) := by
    apply (result_references_eq_ok_iff hspelled.references hspelled.referencesOnly hspelled.set).2
    exact ⟨validate_keyAuth, rfl⟩
  have hsecret := (alike_iff.1 halike _).1 hreferences
  rw [result_secret_eq_ok_iff hspelled.secretOnly hspelled.secret hspelled.held] at hsecret
  exact absurd hsecret (by decide)

end StackKeeper.Credentials

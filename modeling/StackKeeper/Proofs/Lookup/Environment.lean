import StackKeeper.Environment
import StackKeeper.Proofs.Lookup.Gathering

/-!
# The sources of an environment

An environment is laid out in layers: one for the backend, one for the access token, one for every
config map, secret and reference that the spec names. It is there exactly if every layer can be read
on its own, and a variable has its value from the last layer that has it. If some layer cannot be
read, the first of them says why.
-/

namespace StackKeeper.Environment

open Lookup

/-- One source of variables. -/
inductive Origin where
  | backend (url : String)
  /-- The secret of the access token. -/
  | token (secret : String)
  | configMap (name : String)
  | secret (name : String)
  /-- A single entry among the references. -/
  | entry (name : String) (reference : Reference)

namespace Origin

def field : Origin → String
  | backend _ => "backend"
  | token _ => "accessTokenSecret"
  | configMap _ => "envs"
  | secret _ => "envSecrets"
  | entry _ _ => "envRefs"

def read (ns : String) (resolver : Resolver) : Origin → Search (Dict String)
  | backend url => pure (Dict.singleton backendVariable url)
  | token name => Dict.singleton tokenVariable <$> secretKey ⟨ns, name⟩ tokenKey
  | configMap name => Lookup.configMap ⟨ns, name⟩
  | secret name => Lookup.secret ⟨ns, name⟩
  | entry name reference => Dict.singleton name <$> named name (resolver.resolve reference)

/-- What an environment takes from a source. -/
def layer (s : Holdings) (ns : String) (resolver : Resolver) (o : Origin) :
    Except Error (Dict String) :=
  (result s (o.read ns resolver)).mapError (Error.within o.field)

end Origin

variable {s : Holdings} {ns : String} {resolver : Resolver} {spec : Stack.Spec}
  {a : Resolver.Arrival spec.envRefs}

def backendOrigins (spec : Stack.Spec) : List Origin :=
  (spec.backend.filter fun url => !url.isEmpty).toList.map .backend

/-- The sources that a spec names, later ones overriding earlier ones; its references stand as they
come in. -/
def origins (spec : Stack.Spec) (a : Resolver.Arrival spec.envRefs) : List Origin :=
  backendOrigins spec ++ spec.accessTokenSecret.toList.map .token ++
    spec.envs.map .configMap ++ spec.envSecrets.map .secret ++
    a.order.map fun e => .entry e.1 e.2

/-! ## Layers -/

def layers (s : Holdings) (ns : String) (resolver : Resolver) (l : List Origin) :
    Except Error (List (Dict String)) :=
  l.mapM (Origin.layer s ns resolver)

theorem layers_append (l l' : List Origin) :
    layers s ns resolver (l ++ l') = (do
      let before ← layers s ns resolver l
      let after ← layers s ns resolver l'
      pure (before ++ after)) :=
  List.mapM_append

theorem layers_configMaps (names : List String) :
    layers s ns resolver (names.map .configMap) =
      result s (names.mapM fun name => named "envs" (configMap ⟨ns, name⟩)) := by
  rw [layers, List.mapM_map, result_mapM]
  exact congrArg (List.mapM · names) (funext fun name => (result_named s _ _).symm)

theorem layers_secrets (names : List String) :
    layers s ns resolver (names.map .secret) =
      result s (names.mapM fun name => named "envSecrets" (secret ⟨ns, name⟩)) := by
  rw [layers, List.mapM_map, result_mapM]
  exact congrArg (List.mapM · names) (funext fun name => (result_named s _ _).symm)

theorem layers_entries (l : List (String × Reference)) :
    layers s ns resolver (l.map fun e => .entry e.1 e.2) =
      ((l.mapM (resolver.arrive s)).map (List.map fun e => Dict.singleton e.1 e.2)).mapError
        (Error.within "envRefs") := by
  rw [layers, List.mapM_map, map_mapM, mapError_mapM]
  refine congrArg (List.mapM · l) (funext fun e => ?_)
  unfold Function.comp Origin.layer Origin.read Resolver.arrive
  rw [result_map, result_named]
  cases result s (resolver.resolve e.2) <;> rfl

theorem keys_of_mapM_arrive {l : List (String × Reference)} {values : List (String × String)}
    (h : l.mapM (resolver.arrive s) = .ok values) : values.map (·.1) = l.map (·.1) := by
  induction l generalizing values with
  | nil =>
    cases h
    rfl
  | cons e l ih =>
    rw [List.mapM_cons] at h
    obtain ⟨value, hvalue, htail⟩ := bind_eq_ok h
    obtain ⟨rest, hrest, hvalues⟩ := bind_eq_ok htail
    obtain ⟨text, -, htext⟩ := map_eq_ok hvalue
    rw [← Except.ok.inj hvalues, List.map_cons, List.map_cons, ih hrest, ← htext]

/-- References that were gathered override what was there before one by one. -/
theorem union_gathered {values : List (String × String)} (d : Dict String)
    (h : a.order.mapM (resolver.arrive s) = .ok values) :
    d.union (Dict.ofList values) =
      (values.map fun e => Dict.singleton e.1 e.2).foldl Dict.union d := by
  have hnodup : (values.map (·.1)).Nodup := by
    rw [keys_of_mapM_arrive h]
    exact (a.complete.map _).nodup_iff.2 spec.envRefs.nodup_keys
  rw [Dict.union_ofList hnodup, List.foldl_map]
  rfl

/-! ## The whole environment -/

theorem layers_backend (s : Holdings) (ns : String) (resolver : Resolver) (spec : Stack.Spec) :
    ∃ l, layers s ns resolver (backendOrigins spec) = .ok l ∧
      l.foldl Dict.union ∅ = backendVariables spec := by
  unfold backendOrigins backendVariables
  cases spec.backend with
  | none => exact ⟨[], rfl, rfl⟩
  | some url =>
    by_cases hurl : url.isEmpty
    · simp only [Option.filter_some, hurl]
      exact ⟨[], rfl, rfl⟩
    · simp only [Option.filter_some, hurl]
      exact ⟨[Dict.singleton backendVariable url], rfl, rfl⟩

theorem layers_token (resolver : Resolver) :
    (layers s ns resolver (spec.accessTokenSecret.toList.map .token)).map (·.foldl Dict.union ∅) =
      result s (tokenVariables spec ns) := by
  unfold tokenVariables
  cases spec.accessTokenSecret with
  | none => rfl
  | some secret =>
    have hlayer : Origin.layer s ns resolver (.token secret) =
        ((result s (secretKey ⟨ns, secret⟩ tokenKey)).mapError
          (Error.within "accessTokenSecret")).map (Dict.singleton tokenVariable) := by
      unfold Origin.layer Origin.read
      rw [result_map]
      cases result s (secretKey ⟨ns, secret⟩ tokenKey) <;> rfl
    dsimp only
    rw [result_bind, result_named, Option.toList_some, List.map_singleton, layers, List.mapM_cons,
      hlayer]
    cases result s (secretKey ⟨ns, secret⟩ tokenKey) <;> rfl

theorem result_buildIn : result s (buildIn spec ns resolver a) =
    (layers s ns resolver (origins spec a)).map (·.foldl Dict.union ∅) := by
  obtain ⟨backend, hbackend, hfold⟩ := layers_backend s ns resolver spec
  unfold buildIn origins
  rw [result_bind, ← layers_token resolver, layers_append, layers_append, layers_append,
    layers_append, hbackend, layers_configMaps, layers_secrets, layers_entries, ← hfold]
  simp only [result_bind, result_named, Resolver.result_gather]
  cases layers s ns resolver (spec.accessTokenSecret.toList.map .token) with
  | error e => rfl
  | ok token =>
    cases result s (spec.envs.mapM fun name => named "envs" (configMap ⟨ns, name⟩)) with
    | error e => rfl
    | ok maps =>
      cases result s (spec.envSecrets.mapM fun name => named "envSecrets" (secret ⟨ns, name⟩)) with
      | error e => rfl
      | ok secrets =>
        cases hvalues : a.order.mapM (resolver.arrive s) with
        | error e => rfl
        | ok values =>
          refine congrArg Except.ok ?_
          simp only [List.cons_append, List.foldl_cons, List.foldl_append, List.foldl_nil]
          rw [← Dict.foldl_union token, union_gathered _ hvalues]

namespace Origin

/-- A source can be read on its own. -/
def Readable (s : Holdings) (ns : String) (resolver : Resolver) (o : Origin) : Prop :=
  ∃ values, result s (o.read ns resolver) = .ok values

/-- A source that can be read has a value for a variable. -/
def Defines (s : Holdings) (ns : String) (resolver : Resolver) (o : Origin)
    (name value : String) : Prop :=
  ∃ values, result s (o.read ns resolver) = .ok values ∧ values.get? name = some value

variable {o : Origin} {values : Dict String} {name value : String}

theorem layer_eq_ok (h : result s (o.read ns resolver) = .ok values) :
    o.layer s ns resolver = .ok values :=
  mapError_eq_ok_iff.2 h

theorem layer_eq_error {own : Error} (h : result s (o.read ns resolver) = .error own) :
    o.layer s ns resolver = .error (own.within o.field) :=
  mapError_eq_error_iff.2 ⟨own, h, rfl⟩

theorem defines_iff (h : result s (o.read ns resolver) = .ok values) :
    o.Defines s ns resolver name value ↔ values.get? name = some value := by
  constructor
  · rintro ⟨values', h', hvalue⟩
    rwa [Except.ok.inj (h.symm.trans h')]
  · intro hvalue
    exact ⟨values, h, hvalue⟩

theorem forall_not_defines_iff (h : result s (o.read ns resolver) = .ok values) :
    (∀ other, ¬o.Defines s ns resolver name other) ↔ values.get? name = none := by
  simp only [defines_iff h, Option.eq_none_iff_forall_ne_some, ne_eq]

end Origin

theorem result_buildIn_cases (s : Holdings) (ns : String) (resolver : Resolver)
    (a : Resolver.Arrival spec.envRefs) :
    (∃ values : Origin → Dict String,
      (∀ o ∈ origins spec a, result s (o.read ns resolver) = .ok (values o)) ∧
        result s (buildIn spec ns resolver a) =
          .ok (((origins spec a).map values).foldl Dict.union ∅)) ∨
    ∃ before o after own, origins spec a = before ++ o :: after ∧
      (∀ b ∈ before, b.Readable s ns resolver) ∧ result s (o.read ns resolver) = .error own ∧
      result s (buildIn spec ns resolver a) = .error (own.within o.field) := by
  rw [result_buildIn]
  rcases forall_ok_or_exists_error (fun o : Origin => result s (o.read ns resolver))
    (origins spec a) with hok | ⟨before, o, after, own, horigins, hbefore, ho⟩
  · obtain ⟨values, hvalues⟩ := exists_forall_eq_ok hok
    refine .inl ⟨values, hvalues, ?_⟩
    rw [layers, mapM_eq_ok fun o ho => Origin.layer_eq_ok (hvalues o ho)]
    rfl
  · refine .inr ⟨before, o, after, own, horigins, hbefore, ho, ?_⟩
    have hlayers : ∀ b ∈ before, ∃ values, Origin.layer s ns resolver b = .ok values :=
      fun b hb => (hbefore b hb).imp fun values => Origin.layer_eq_ok
    rw [layers, horigins, mapM_eq_error hlayers (Origin.layer_eq_error ho)]
    rfl

/-- An environment is there exactly if each source of the spec can be read on its own. Then a
variable has the value of the last source that defines it, and there are no others. Otherwise the
first source that cannot be read fails the whole with its own error, with the name of its field in
front. -/
theorem build_settles (spec : Stack.Spec) (ns : String) (resolver : Resolver) (s : Holdings)
    (a : Resolver.Arrival spec.envRefs) :
    ((∃ values, result s (buildIn spec ns resolver a) = .ok values) ↔
      ∀ o ∈ origins spec a, o.Readable s ns resolver) ∧
    (∀ values, result s (buildIn spec ns resolver a) = .ok values → ∀ name value,
      values.get? name = some value ↔ ∃ before o after, origins spec a = before ++ o :: after ∧
        o.Defines s ns resolver name value ∧
        ∀ later ∈ after, ∀ other, ¬later.Defines s ns resolver name other) ∧
    ∀ e, result s (buildIn spec ns resolver a) = .error e → ∃ before o after own,
      origins spec a = before ++ o :: after ∧ (∀ b ∈ before, b.Readable s ns resolver) ∧
        result s (o.read ns resolver) = .error own ∧ own.NamedAs o.field e := by
  rcases result_buildIn_cases s ns resolver a with
    ⟨read, hread, hok⟩ | ⟨before, o, after, own, horigins, hbefore, ho, herror⟩
  · refine ⟨iff_of_true ⟨_, hok⟩ fun o ho => ⟨_, hread o ho⟩, ?_, ?_⟩
    · intro values hvalues name value
      rw [← Except.ok.inj (hok.symm.trans hvalues), Dict.get?_foldl_union_map_eq_some_iff]
      refine exists_congr fun before => exists_congr fun o => exists_congr fun after =>
        and_congr_right fun horigins => ?_
      have hm : ∀ x ∈ o :: after, result s (x.read ns resolver) = .ok (read x) := fun x hx =>
        hread x (horigins ▸ List.mem_append_right before hx)
      obtain ⟨ho, hafter⟩ := List.forall_mem_cons.1 hm
      rw [Origin.defines_iff ho]
      refine and_congr_right fun _ => forall₂_congr fun later hlater => ?_
      exact (Origin.forall_not_defines_iff (hafter later hlater)).symm
    · intro e he
      cases hok.symm.trans he
  · refine ⟨⟨?_, fun hall => ?_⟩, ?_, ?_⟩
    · rintro ⟨values, hvalues⟩
      cases herror.symm.trans hvalues
    · obtain ⟨values, hvalues⟩ :=
        hall o (horigins ▸ List.mem_append_right before List.mem_cons_self)
      cases ho.symm.trans hvalues
    · intro values hvalues
      cases herror.symm.trans hvalues
    · intro e he
      obtain rfl := Except.error.inj (herror.symm.trans he)
      exact ⟨before, o, after, own, horigins, hbefore, ho, Error.namedAs_within o.field own⟩

/-- Of a config map, a secret and a literal that all set one variable, the literal stays. -/
theorem build_settles_overlapping :
    let references := Dict.singleton "LOG" (Reference.literal "trace")
    let spec : Stack.Spec := { (default : Stack.Spec) with
      backend := some "s3://state", envs := ["aws"], envSecrets := ["creds"], envRefs := references }
    let stores := (MemorySecrets.empty.insertConfigMap ⟨"infra", "aws"⟩
      (Dict.singleton "LOG" "info")).insertSecret ⟨"infra", "creds"⟩ (Dict.singleton "LOG" "debug")
    let held := Holdings.ofMemory stores fun _ => .error .notFound
    ∃ values, result held (build spec "infra" ⟨"infra", ∅⟩) = .ok values ∧
      values.get? "LOG" = some "trace" := by
  intro references spec stores held
  have ha := build_settles spec "infra" ⟨"infra", ∅⟩ held (Resolver.filesLast references)
  obtain ⟨hgood, hvalues, -⟩ := ha
  have horigins : origins spec (Resolver.filesLast references) =
      [.backend "s3://state", .configMap "aws", .secret "creds"] ++
        [.entry "LOG" (.literal "trace")] := rfl
  obtain ⟨values, hok⟩ := hgood.2 (by
    rw [horigins]
    intro o ho
    simp only [List.cons_append, List.nil_append, List.mem_cons, List.not_mem_nil, or_false] at ho
    rcases ho with rfl | rfl | rfl | rfl
    · exact ⟨_, rfl⟩
    · exact ⟨_, rfl⟩
    · exact ⟨_, rfl⟩
    · exact ⟨_, rfl⟩)
  refine ⟨values, hok, (hvalues values hok _ _).2 ⟨_, _, [], horigins, ?_, nofun⟩⟩
  exact ⟨_, rfl, rfl⟩

end StackKeeper.Environment

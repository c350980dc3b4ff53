import StackKeeper.Lookup
import StackKeeper.Proofs.Results

/-!
# What a search gives

While the stores and the files hold still, a search gives one result. That of a sequence is made of
the results of its parts: a search is known by what it reads and what it makes of it.
-/

namespace StackKeeper

namespace Error

/-- Kinds of errors that are about a source that was to be read. -/
def namedKinds : List String := ["NotFound", "AccessDenied", "IOError", "ConfigError"]

/-- The error is the own one of a source with the name of the source in front, where the kind is one
that takes names. -/
structure NamedAs (name : String) (own e : Error) : Prop where
  kind : e.kind = own.kind
  named : own.kind ∈ namedKinds → ∃ text,
    ofKind? own.kind text = some own ∧ ofKind? own.kind (name ++ ": " ++ text) = some e
  kept : own.kind ∉ namedKinds → e = own

theorem namedAs_within (name : String) (own : Error) : NamedAs name own (own.within name) where
  kind := by cases own <;> rfl
  named := by
    intro hm
    cases own with
    | notFound text => exact ⟨text, rfl, rfl⟩
    | accessDenied text => exact ⟨text, rfl, rfl⟩
    | io text => exact ⟨text, rfl, rfl⟩
    | config text => exact ⟨text, rfl, rfl⟩
    | _ => simp [namedKinds, Error.kind] at hm
  kept := by
    intro hm
    cases own with
    | notFound => simp [namedKinds, Error.kind] at hm
    | accessDenied => simp [namedKinds, Error.kind] at hm
    | io => simp [namedKinds, Error.kind] at hm
    | config => simp [namedKinds, Error.kind] at hm
    | _ => rfl

end Error

namespace Lookup

/-- What the stores and the files hold. -/
abbrev Holdings := (r : Request) → Reply r

def Holdings.ofMemory (secrets : MemorySecrets) (files : String → Except Host.Fault String) :
    Holdings
  | .secret name => secrets.secret name
  | .configMap name => secrets.configMap name
  | .file path => files path

def Holdings.ofCluster (fetch : String → Except String Cluster.Response)
    (files : String → Except Host.Fault String) : Holdings
  | .secret name => Cluster.fetched fetch (Cluster.secret name)
  | .configMap name => Cluster.fetched fetch (Cluster.configMap name)
  | .file path => files path

variable {α β : Type} (s : Holdings)

/-- What a search gives while nothing changes. -/
def result (t : Search α) : Except Error α := (t.run.run (fun r u => (s r, u)) ()).1

theorem result_bind (t : Search β) (f : β → Search α) :
    result s (t >>= f) = result s t >>= fun b => result s (f b) := by
  refine (congrArg Prod.fst (Dialogue.run_bind _ t.run _ ())).trans ?_
  unfold result
  cases (t.run.run (fun r u => (s r, u)) ()).1 <;> rfl

theorem result_map (t : Search β) (f : β → α) : result s (f <$> t) = (result s t).map f := by
  rw [← bind_pure_comp, result_bind]
  cases result s t <;> rfl

theorem result_named (name : String) (t : Search α) :
    result s (named name t) = (result s t).mapError (Error.within name) :=
  congrArg Prod.fst (Dialogue.run_bind _ t.run _ ())

theorem result_failingAs (f : Error → Error) (t : Search α) :
    result s (failingAs f t) = (result s t).mapError f :=
  congrArg Prod.fst (Dialogue.run_bind _ t.run _ ())

theorem result_mapM (f : β → Search α) (l : List β) :
    result s (l.mapM f) = l.mapM fun b => result s (f b) := by
  induction l with
  | nil => rfl
  | cons b l ih =>
    rw [List.mapM_cons, List.mapM_cons, result_bind]
    refine congrArg (result s (f b) >>= ·) (funext fun a => ?_)
    rw [result_bind, ih]
    rfl

end Lookup

end StackKeeper

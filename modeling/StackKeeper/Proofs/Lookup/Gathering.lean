import StackKeeper.Proofs.Dict
import StackKeeper.Proofs.Lookup.Result
import StackKeeper.Resolver

/-!
# Gathering references

The references of a dictionary are looked up side by side, and come in in any order. If each of them
has a value on its own, all of these are there in the end, each under the name of its reference.
Otherwise the first failure to come in stands for the whole, with the name of its entry in front.
-/

namespace StackKeeper.Resolver

open Lookup

variable {r : Resolver} {s : Holdings} {references : Dict Reference}

def arrive (r : Resolver) (s : Holdings) (e : String × Reference) :
    Except Error (String × String) :=
  ((result s (r.resolve e.2)).mapError (Error.within e.1)).map fun value => (e.1, value)

theorem arrive_eq_ok {e : String × Reference} {value : String}
    (h : result s (r.resolve e.2) = .ok value) : r.arrive s e = .ok (e.1, value) := by
  unfold arrive
  rw [h]
  rfl

theorem arrive_eq_error {e : String × Reference} {own : Error}
    (h : result s (r.resolve e.2) = .error own) : r.arrive s e = .error (own.within e.1) := by
  unfold arrive
  rw [h]
  rfl

theorem result_gather (a : Arrival references) :
    result s (r.gather a) = (a.order.mapM (r.arrive s)).map Dict.ofList := by
  have hentry : ∀ e : String × Reference,
      result s (named e.1 (r.resolve e.2) >>= fun value => pure (e.1, value)) = r.arrive s e := by
    intro e
    rw [result_bind, result_named]
    unfold arrive
    cases result s (r.resolve e.2) <;> rfl
  have hall : result s (a.order.mapM fun e =>
      named e.1 (r.resolve e.2) >>= fun value => pure (e.1, value)) =
        a.order.mapM (r.arrive s) := by
    rw [result_mapM]
    exact congrArg (List.mapM · a.order) (funext hentry)
  refine (result_bind s _ _).trans ?_
  rw [hall]
  cases a.order.mapM (r.arrive s) <;> rfl

/-- The values of references that all have one are gathered whatever order they come in. -/
theorem result_gather_eq_ok (a : Arrival references) {value : Reference → String}
    (h : ∀ e ∈ references.entries, result s (r.resolve e.2) = .ok (value e.2)) :
    result s (r.gather a) = .ok (references.map value) := by
  have harrive : ∀ e ∈ a.order, r.arrive s e = .ok (e.1, value e.2) := fun e he =>
    arrive_eq_ok (h e (a.complete.mem_iff.1 he))
  have hperm : (a.order.map fun e => (e.1, value e.2)).Perm (references.map value).entries :=
    a.complete.map _
  rw [result_gather, mapM_eq_ok harrive]
  exact congrArg Except.ok (Dict.ofList_of_perm hperm)

theorem result_gather_cases (a : Arrival references) :
    (∃ value : Reference → String,
      (∀ e ∈ references.entries, result s (r.resolve e.2) = .ok (value e.2)) ∧
        result s (r.gather a) = .ok (references.map value)) ∨
    ∃ e ∈ references.entries, ∃ own, result s (r.resolve e.2) = .error own ∧
      result s (r.gather a) = .error (own.within e.1) := by
  rcases forall_ok_or_exists_error (r.arrive s) a.order with
    hok | ⟨before, e, after, error, horder, hbefore, he⟩
  · have hresolve : ∀ reference ∈ references.entries.map (·.2),
        ∃ value, result s (r.resolve reference) = .ok value := by
      intro reference hreference
      obtain ⟨e, he, rfl⟩ := List.mem_map.1 hreference
      obtain ⟨x, hx⟩ := hok e (a.complete.mem_iff.2 he)
      obtain ⟨value, hvalue, -⟩ := map_eq_ok hx
      exact ⟨value, mapError_eq_ok hvalue⟩
    obtain ⟨value, hvalue⟩ := exists_forall_eq_ok hresolve
    have hentries : ∀ e ∈ references.entries, result s (r.resolve e.2) = .ok (value e.2) :=
      fun e he => hvalue e.2 (List.mem_map_of_mem he)
    exact .inl ⟨value, hentries, result_gather_eq_ok a hentries⟩
  · have hm : e ∈ a.order := horder ▸ List.mem_append_right before List.mem_cons_self
    refine .inr ⟨e, a.complete.mem_iff.1 hm, ?_⟩
    cases hresolve : result s (r.resolve e.2) with
    | ok value => cases (arrive_eq_ok hresolve).symm.trans he
    | error own =>
      refine ⟨own, rfl, ?_⟩
      rw [result_gather, horder, mapM_eq_error hbefore (arrive_eq_error hresolve)]
      rfl

/-- In whatever order the references of a dictionary come in, they are gathered exactly if each of
them has a value on its own. Then there are these values, under the names of their references, and
no others. Otherwise there is nothing but the own error of one of them, with its name in front. -/
theorem gather_settles (r : Resolver) (s : Holdings) (references : Dict Reference)
    (a : Arrival references) :
    ((∃ values, result s (r.gather a) = .ok values) ↔
      ∀ name reference, references.get? name = some reference →
        ∃ value, result s (r.resolve reference) = .ok value) ∧
    (∀ values, result s (r.gather a) = .ok values → values.keys = references.keys ∧
      ∀ name reference, references.get? name = some reference →
        ∃ value, result s (r.resolve reference) = .ok value ∧ values.get? name = some value) ∧
    ∀ e, result s (r.gather a) = .error e → ∃ name reference own,
      references.get? name = some reference ∧
        result s (r.resolve reference) = .error own ∧ own.NamedAs name e := by
  simp only [Dict.get?_eq_some_iff]
  rcases result_gather_cases a (r := r) (s := s) with ⟨value, hvalue, hok⟩ | ⟨e, he, own, hown, herror⟩
  · refine ⟨iff_of_true ⟨_, hok⟩ fun name reference hm => ⟨_, hvalue _ hm⟩, ?_, ?_⟩
    · intro values hvalues
      obtain rfl := Except.ok.inj (hok.symm.trans hvalues)
      refine ⟨List.map_map, fun name reference hm => ⟨_, hvalue _ hm, ?_⟩⟩
      exact List.mem_map_of_mem (f := fun e => (e.1, value e.2)) hm
    · intro e he
      cases hok.symm.trans he
  · refine ⟨⟨?_, fun hall => ?_⟩, ?_, ?_⟩
    · rintro ⟨values, hvalues⟩
      cases herror.symm.trans hvalues
    · obtain ⟨value, hvalue⟩ := hall e.1 e.2 he
      cases hown.symm.trans hvalue
    · intro values hvalues
      cases herror.symm.trans hvalues
    · intro e' he'
      obtain rfl := Except.error.inj (herror.symm.trans he')
      exact ⟨e.1, e.2, own, he, hown, Error.namedAs_within e.1 own⟩

/-- A secret may come in before a literal although its name stands behind. -/
theorem gather_settles_backwards :
    let references := Dict.ofList [("REGION", Reference.literal "eu-1"),
      ("TOKEN", Reference.secret ⟨none, "aws", "token"⟩)]
    let secrets := MemorySecrets.empty.insertSecret ⟨"infra", "aws"⟩ (Dict.singleton "token" "t0")
    let held := Holdings.ofMemory secrets fun _ => .error .notFound
    let a : Arrival references := ⟨references.entries.reverse, List.reverse_perm _⟩
    ∃ values, result held ((⟨"infra", ∅⟩ : Resolver).gather a) = .ok values ∧
      values.get? "REGION" = some "eu-1" ∧ values.get? "TOKEN" = some "t0" := by
  intro references secrets held a
  obtain ⟨hgood, hvalues, -⟩ := gather_settles ⟨"infra", ∅⟩ held references a
  have hregion : references.get? "REGION" = some (.literal "eu-1") := by decide
  have htoken : references.get? "TOKEN" = some (.secret ⟨none, "aws", "token"⟩) := by decide
  have hentries : references.entries =
      [("REGION", .literal "eu-1"), ("TOKEN", .secret ⟨none, "aws", "token"⟩)] := by decide
  obtain ⟨values, hok⟩ := hgood.2 fun name reference h => by
    rw [Dict.get?_eq_some_iff, hentries, List.mem_cons, List.mem_singleton] at h
    rcases h with h | h
    · cases h
      exact ⟨"eu-1", rfl⟩
    · cases h
      exact ⟨"t0", rfl⟩
  obtain ⟨-, hfound⟩ := hvalues values hok
  refine ⟨values, hok, ?_, ?_⟩
  · obtain ⟨value, hvalue, hget⟩ := hfound _ _ hregion
    cases hvalue
    exact hget
  · obtain ⟨value, hvalue, hget⟩ := hfound _ _ htoken
    cases hvalue
    exact hget

end StackKeeper.Resolver

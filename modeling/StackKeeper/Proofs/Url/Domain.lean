import StackKeeper.Proofs.Lists
import StackKeeper.Proofs.Url.Percent
import StackKeeper.Url.Host

/-!
# Domains

A domain is read into ASCII, whatever alphabet it was written in. Read again it stays as it is.
-/

namespace StackKeeper.Url

variable {idna : Idna} {cs name : List Char}

theorem isPlainDomain_of_isDigit (h : ∀ c ∈ cs, c = '.' ∨ c.isDigit = true) :
    isPlainDomain cs = true := by
  have hx : 'x' ∉ cs := fun hm => absurd (h 'x' hm) (by decide)
  unfold isPlainDomain
  rw [Bool.and_eq_true, List.all_eq_true, List.all_eq_true]
  refine ⟨fun c hc => ?_, fun label hlabel => ?_⟩
  · rcases h c hc with rfl | hdigit
    · rfl
    · simp [hdigit]
  · rw [Bool.not_eq_true', Bool.eq_false_iff]
    intro hopening
    obtain ⟨rest, rfl⟩ := List.isPrefixOf_iff_prefix.1 hopening
    exact hx (Text.mem_of_mem_splitOnChar hlabel List.mem_cons_self)

namespace Host

/-- A domain as it is written. -/
structure IsDomain (idna : Idna) (name : List Char) : Prop where
  ne_nil : name ≠ []
  settled : idna.toAscii name = some name
  allowed : ∀ c ∈ name, isForbiddenInDomain c = false

theorem isDomain_of_domain? (h : domain? idna cs = some name) : IsDomain idna name := by
  obtain ⟨text, -, h⟩ := Option.bind_eq_some_iff.1 h
  obtain ⟨converted, hconverted, h⟩ := Option.bind_eq_some_iff.1 h
  split at h
  next => cases h
  next hgood =>
    cases h
    rw [Bool.not_eq_true, Bool.or_eq_false_iff, List.any_eq_false] at hgood
    obtain ⟨hne, hallowed⟩ := hgood
    exact ⟨by simpa using hne, idna.toAscii_again hconverted,
      fun c hc => Bool.eq_false_iff.2 (hallowed c hc)⟩

theorem IsDomain.domain?_eq (h : IsDomain idna name) : domain? idna name = some name := by
  have hpercent : '%' ∉ name := fun hm => absurd (h.allowed _ hm) (by decide)
  have hdecode : Utf8.decode? (decode name) = some (String.ofList name) := by
    rw [(decode_eq_iff _).2 (hasEscape_of_not_mem hpercent), Utf8.decode?_encode]
  have hgood : ¬(name.isEmpty || name.any isForbiddenInDomain) = true := by
    rw [Bool.not_eq_true, Bool.or_eq_false_iff, List.any_eq_false]
    exact ⟨by simpa using h.ne_nil, fun c hc => Bool.eq_false_iff.1 (h.allowed c hc)⟩
  unfold domain?
  rw [hdecode]
  simp only [Option.bind_eq_bind, Option.bind_some, String.toList_ofList, h.settled]
  exact if_neg hgood

end Host

end StackKeeper.Url

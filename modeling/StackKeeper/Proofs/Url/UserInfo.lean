import StackKeeper.Proofs.Results
import StackKeeper.Proofs.Url.Percent
import StackKeeper.Text.Blank
import StackKeeper.Url.Reader

/-!
# Logins in URLs

A URL of a web server leads to a host, so it takes a user name and a password. What stands in these
places has no character of the set that is encoded there: a text stays as it is if it has none, and
otherwise it is not to be found in what it is encoded as.
-/

namespace StackKeeper.Url

variable {idna : Idna} {s : String} {u : Url} {cs : List Char} {c : Char}

/-! ## Encoding -/

theorem encodeUserInfo_eq_self_iff :
    encodeUserInfo s = s ↔ ∀ c ∈ s.toList, inUserInfo c = false := by
  rw [← sparesEscapes_inUserInfo.encode_eq_self_iff, encodeUserInfo, ← String.toList_inj,
    String.toList_ofList]

theorem bounds_of_not_inUserInfo (hc : inUserInfo c = false) :
    0x20 < c.toNat ∧ c.toNat < 0x7F :=
  bounds_of_not_inFragment (not_inFragment_of_not_inPath (not_inPath_of_not_inUserInfo hc))

theorem isBlank_of_not_inUserInfo (hc : inUserInfo c = false) : Text.isBlank c = false := by
  have hbounds := bounds_of_not_inUserInfo hc
  simp only [Text.isBlank, Bool.or_eq_false_iff, Bool.and_eq_false_iff, decide_eq_false_iff_not,
    beq_eq_false_iff_ne]
  omega

/-! ## Reading -/

theorem isAlpha_of_scheme? {name : String} {rest : List Char}
    (hs : scheme? cs = some (name, rest)) : ∃ c ∈ cs, c.isAlpha = true := by
  obtain ⟨c, hhead, hs⟩ := Option.bind_eq_some_iff.1 hs
  obtain ⟨_, hguard, -⟩ := Option.bind_eq_some_iff.1 hs
  exact ⟨c, List.mem_of_head? hhead, guard_eq_some_iff.1 hguard⟩

theorem mem_of_mem_cleaned (hc : c ∈ cleaned s) : c ∈ s.toList := by
  have hinner := (List.dropWhile_subset _) (List.mem_reverse.1 (List.mem_filter.1 hc).1)
  exact (List.dropWhile_subset _) (List.mem_reverse.1 hinner)

theorem not_isBlank_of_isAlpha (hc : c.isAlpha = true) : Text.isBlank c = false := by
  have hval : c.val.toNat = c.toNat := rfl
  have hA : 'A'.val.toNat = 65 := rfl
  have hZ : 'Z'.val.toNat = 90 := rfl
  have ha : 'a'.val.toNat = 97 := rfl
  have hz : 'z'.val.toNat = 122 := rfl
  unfold Char.isAlpha Char.isUpper Char.isLower at hc
  simp only [Bool.or_eq_true, Bool.and_eq_true, decide_eq_true_eq, ge_iff_le,
    UInt32.le_iff_toNat_le] at hc
  simp only [Text.isBlank, Bool.or_eq_false_iff, Bool.and_eq_false_iff, decide_eq_false_iff_not,
    beq_eq_false_iff_ne]
  omega

/-- A URL does not consist of blanks. -/
theorem not_isAllBlank_of_ofText? (hu : ofText? idna s = some u) : Text.isAllBlank s = false := by
  obtain ⟨⟨name, rest⟩, hp, -⟩ := Option.bind_eq_some_iff.1 hu
  obtain ⟨c, hc, halpha⟩ := isAlpha_of_scheme? hp
  refine List.all_eq_false.2 ⟨c, mem_of_mem_cleaned hc, ?_⟩
  rw [not_isBlank_of_isAlpha halpha]
  exact Bool.false_ne_true

theorem withHost?_eq_some {scheme : String} {query fragment : Option String}
    (hu : withHost? idna scheme cs query fragment = some u) :
    u.scheme = scheme ∧ u.authority.isSome = true := by
  obtain ⟨a, -, ha⟩ := Option.bind_eq_some_iff.1 hu
  cases ha
  exact ⟨rfl, rfl⟩

theorem ofFile?_eq_some {query fragment : Option String}
    (hu : ofFile? idna cs query fragment = some u) : u.scheme = "file" := by
  unfold ofFile? at hu
  split at hu
  next a b rest =>
    split at hu
    · dsimp only at hu
      split at hu
      all_goals
        obtain ⟨host, -, hu⟩ := Option.bind_eq_some_iff.1 hu
        cases hu
        rfl
    · cases hu
      rfl
  next =>
    cases hu
    rfl

theorem isSpecial_of_web {scheme : String} (hweb : scheme = "http" ∨ scheme = "https") :
    isSpecial scheme = true := by
  rcases hweb with rfl | rfl <;> decide

/-- The URL of a web server is read from its authority on. -/
theorem withHost?_of_web (hu : ofText? idna s = some u)
    (hweb : u.scheme = "http" ∨ u.scheme = "https") :
    ∃ cs site, withHost? idna u.scheme site (splitTail true cs).2.1 (splitTail true cs).2.2 =
      some u := by
  obtain ⟨⟨scheme, rest⟩, -, hu⟩ := Option.bind_eq_some_iff.1 hu
  dsimp only at hu
  split at hu
  next =>
    rw [ofFile?_eq_some hu] at hweb
    exact absurd hweb (by decide)
  next =>
    split at hu
    next hspecial =>
      rw [hspecial] at hu
      obtain ⟨rfl, -⟩ := withHost?_eq_some hu
      exact ⟨rest, _, hu⟩
    next hspecial =>
      -- a scheme that need not lead to a host is none of the two
      have hscheme : u.scheme = scheme := by
        split at hu
        · exact (withHost?_eq_some hu).1
        · cases hu
          rfl
        · cases hu
          rfl
      exact absurd (isSpecial_of_web (hscheme ▸ hweb)) hspecial

/-- The URL of a web server leads to a host. -/
theorem authority_of_web (hu : ofText? idna s = some u)
    (hweb : u.scheme = "http" ∨ u.scheme = "https") : u.authority.isSome = true := by
  obtain ⟨cs, site, hsite⟩ := withHost?_of_web hu hweb
  exact (withHost?_eq_some hsite).2

end StackKeeper.Url

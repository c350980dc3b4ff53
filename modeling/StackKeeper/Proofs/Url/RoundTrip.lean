import StackKeeper.Proofs.Url.Authority
import StackKeeper.Proofs.Url.Route

/-!
# URLs there and back

The URL of a web server that was read is in normal form, and stays so if a login is put into it. The
text of a URL in normal form is read back to the same URL.
-/

namespace StackKeeper.Url

variable {idna : Idna} {s scheme : String} {u : Url} {c : Char} {cs path : List Char}

/-! ## Normal forms -/

/-- The URL of a web server as it is read. -/
structure IsNormal (idna : Idna) (u : Url) : Prop where
  authority : ∃ a, u.authority = some a ∧ a.IsNormal idna u.scheme
  route : u.route.IsNormal
  query : ∀ q ∈ u.query, ∀ c ∈ q.toList, inSpecialQuery c = false
  fragment : ∀ f ∈ u.fragment, ∀ c ∈ f.toList, inFragment c = false

theorem not_set_of_splitTail (cs : List Char) :
    (∀ q ∈ (splitTail true cs).2.1, ∀ c ∈ q.toList, inSpecialQuery c = false) ∧
      ∀ f ∈ (splitTail true cs).2.2, ∀ c ∈ f.toList, inFragment c = false := by
  have hencode : ∀ {set : Char → Bool}, SparesEscapes set → ∀ part : List Char, ∀ text ∈
      some (String.ofList (encode set part)), ∀ c ∈ text.toList, set c = false := by
    rintro set hs part text ⟨⟩
    exact hs.not_set_of_mem_encoded part
  unfold splitTail
  cases Text.splitAtFirst '#' cs with
  | none =>
    dsimp only
    cases Text.splitAtFirst '?' cs with
    | none => exact ⟨nofun, nofun⟩
    | some e => exact ⟨hencode sparesEscapes_inSpecialQuery e.2, nofun⟩
  | some e =>
    dsimp only
    have hfragment := hencode sparesEscapes_inFragment e.2
    cases Text.splitAtFirst '?' e.1 with
    | none => exact ⟨nofun, hfragment⟩
    | some e' => exact ⟨hencode sparesEscapes_inSpecialQuery e'.2, hfragment⟩

theorem isNormal_of_withHost? {query fragment : Option String}
    (hweb : scheme = "http" ∨ scheme = "https")
    (hquery : ∀ q ∈ query, ∀ c ∈ q.toList, inSpecialQuery c = false)
    (hfragment : ∀ f ∈ fragment, ∀ c ∈ f.toList, inFragment c = false)
    (h : withHost? idna scheme cs query fragment = some u) : u.IsNormal idna := by
  have hspecial := isSpecial_of_web hweb
  obtain ⟨a, ha, h⟩ := Option.bind_eq_some_iff.1 h
  rw [← Option.some.inj h]
  refine ⟨⟨a, rfl, isNormal_of_authority? hspecial ha⟩, ?_, hquery, hfragment⟩
  dsimp only
  rw [hspecial]
  exact isNormal_routeAfterHost _

theorem isNormal_of_ofText? (hu : ofText? idna s = some u)
    (hweb : u.scheme = "http" ∨ u.scheme = "https") : u.IsNormal idna := by
  obtain ⟨cs, site, hsite⟩ := withHost?_of_web hu hweb
  obtain ⟨hquery, hfragment⟩ := not_set_of_splitTail cs
  exact isNormal_of_withHost? hweb hquery hfragment hsite

theorem IsNormal.withUserInfo? {v : Url} {username password : String} (h : u.IsNormal idna)
    (hv : u.withUserInfo? username password = some v) : v.IsNormal idna := by
  obtain ⟨a, ha, hnormal⟩ := h.authority
  rw [Url.withUserInfo?, ha] at hv
  rw [← Option.some.inj hv]
  have hencode := sparesEscapes_inUserInfo.not_set_of_mem_encoded
  exact ⟨⟨_, rfl, hencode _, hencode _, hnormal.host, hnormal.port⟩, h.route, h.query, h.fragment⟩

/-! ## Reading what was written -/

/-- A part of a URL behind its mark. -/
def markText (mark : Char) : Option String → List Char
  | some text => mark :: text.toList
  | none => []

theorem toList_toText {a : Authority} (ha : u.authority = some a) : u.toText.toList =
    u.scheme.toList ++ ':' :: '/' :: '/' :: (a.text ++ ((routeText u.route).toList ++
      (markText '?' u.query ++ markText '#' u.fragment))) := by
  unfold toText Authority.text Authority.site markText
  rw [ha]
  cases u.query <;> cases u.fragment <;> simp [String.toList_append]

theorem cleaned_eq (h : ∀ c ∈ s.toList, 0x20 < c.toNat) : cleaned s = s.toList := by
  have hedge : ∀ {l : List Char}, (∀ c ∈ l, 0x20 < c.toNat) →
      l.dropWhile (fun c => decide (c.toNat ≤ 0x20)) = l := by
    intro l hl
    cases l with
    | nil => rfl
    | cons c l =>
      refine List.dropWhile_cons_of_neg fun hc => ?_
      exact Nat.not_lt.2 (of_decide_eq_true hc) (hl c List.mem_cons_self)
  unfold cleaned
  dsimp only
  rw [hedge h, hedge fun c hc => h c (List.mem_reverse.1 hc), List.reverse_reverse]
  refine List.filter_eq_self.2 fun c hc => ?_
  have hne : ∀ d : Char, d.toNat ≤ 0x20 → (c == d) = false := by
    intro d hd
    refine beq_false_of_ne ?_
    rintro rfl
    exact Nat.not_lt.2 hd (h c hc)
  rw [hne '\t' (by decide), hne '\n' (by decide), hne '\r' (by decide)]
  rfl

theorem scheme?_web (hweb : scheme = "http" ∨ scheme = "https") (rest : List Char) :
    scheme? (scheme.toList ++ ':' :: rest) = some (scheme, rest) := by
  rcases hweb with rfl | rfl
  · rfl
  · rfl

theorem splitAtFirst_markText {mark : Char} (part : Option String) (h : mark ∉ path) :
    Text.splitAtFirst mark (path ++ markText mark part) =
      part.map fun text => (path, text.toList) := by
  cases part with
  | none => rw [markText, List.append_nil, Text.splitAtFirst_eq_none h, Option.map_none]
  | some text => rw [markText, Text.splitAtFirst_eq_some_iff.2 ⟨rfl, h⟩, Option.map_some]

theorem splitTail_markText {special : Bool} {fragment : Option String} (hhash : '#' ∉ path)
    (hfragment : ∀ f ∈ fragment, ∀ c ∈ f.toList, inFragment c = false) :
    splitTail special (path ++ markText '#' fragment) =
      ((splitTail special path).1, (splitTail special path).2.1, fragment) := by
  unfold splitTail
  rw [splitAtFirst_markText fragment hhash, Text.splitAtFirst_eq_none hhash]
  cases fragment with
  | none =>
    dsimp only [Option.map_none]
    rw [markText, List.append_nil]
    cases Text.splitAtFirst '?' path <;> rfl
  | some f =>
    dsimp only [Option.map_some]
    rw [encode_eq_self (hfragment f rfl), String.ofList_toList]
    cases Text.splitAtFirst '?' path <;> rfl

theorem splitTail_eq {query fragment : Option String} (hmark : '?' ∉ path) (hhash : '#' ∉ path)
    (hquery : ∀ q ∈ query, ∀ c ∈ q.toList, inSpecialQuery c = false)
    (hfragment : ∀ f ∈ fragment, ∀ c ∈ f.toList, inFragment c = false) :
    splitTail true (path ++ (markText '?' query ++ markText '#' fragment)) =
      (path, query, fragment) := by
  have hfront : '#' ∉ path ++ markText '?' query := by
    rw [List.mem_append, not_or]
    refine ⟨hhash, fun hm => ?_⟩
    cases query with
    | none => cases hm
    | some q =>
      rcases List.mem_cons.1 hm with hm | hm
      · cases hm
      · exact absurd (hquery q rfl _ hm) (by decide)
  have hsplit : splitTail true (path ++ markText '?' query) = (path, query, none) := by
    unfold splitTail
    rw [Text.splitAtFirst_eq_none hfront]
    dsimp only
    rw [splitAtFirst_markText query hmark]
    cases query with
    | none => rw [markText, List.append_nil]; rfl
    | some q =>
      dsimp only [Option.map_some]
      rw [if_pos rfl, encode_eq_self (hquery q rfl), String.ofList_toList]
  rw [← List.append_assoc, splitTail_markText hfront hfragment, hsplit]

theorem mem_userInfoText {a : Authority} (hc : c ∈ (userInfoText a).toList) :
    c ∈ a.username.toList ∨ c ∈ a.password.toList ∨ c = ':' ∨ c = '@' := by
  have hmarks : "@".toList = ['@'] ∧ ":".toList = [':'] := ⟨rfl, rfl⟩
  unfold userInfoText at hc
  split at hc
  · cases hc
  · split at hc
    · rw [String.toList_append, List.mem_append, hmarks.1, List.mem_singleton] at hc
      rcases hc with hc | hc
      · exact .inl hc
      · exact .inr (.inr (.inr hc))
    · simp only [String.toList_append, List.mem_append, hmarks, List.mem_singleton] at hc
      rcases hc with ((hc | hc) | hc) | hc
      · exact .inl hc
      · exact .inr (.inr (.inl hc))
      · exact .inr (.inl hc)
      · exact .inr (.inr (.inr hc))

/-- What stands in an authority ends none. -/
theorem bounds_of_mem_text {a : Authority} (h : a.IsNormal idna scheme) (hc : c ∈ a.text) :
    0x20 < c.toNat ∧ c ≠ '/' ∧ c ≠ '\\' ∧ c ≠ '?' ∧ c ≠ '#' := by
  have hsite : isSite c = true → 0x20 < c.toNat ∧ c ≠ '/' ∧ c ≠ '\\' ∧ c ≠ '?' ∧ c ≠ '#' := by
    intro hc
    obtain ⟨hlt, hslash, hback, hmark, hhash, -⟩ := isSite_iff.1 hc
    exact ⟨hlt, hslash, hback, hmark, hhash⟩
  rcases List.mem_append.1 hc with hc | hc
  · rcases mem_userInfoText hc with hc | hc | rfl | rfl
    · exact hsite (isSite_of_not_inUserInfo (h.username c hc))
    · exact hsite (isSite_of_not_inUserInfo (h.password c hc))
    · decide
    · decide
  · exact hsite (h.isSite_of_mem_site hc)

theorem text_ne_nil {a : Authority} (h : a.IsNormal idna scheme) : a.text ≠ [] := by
  intro hnil
  exact h.host.toText_ne_nil (List.append_eq_nil_iff.1 (List.append_eq_nil_iff.1 hnil).2).1

theorem bounds_of_mem_routeText {r : Route} (h : r.IsNormal) (hc : c ∈ (routeText r).toList) :
    0x20 < c.toNat ∧ c ≠ '?' ∧ c ≠ '#' := by
  obtain ⟨names, rfl, -, hnames⟩ := h
  rw [toList_routeText] at hc
  obtain ⟨n, hn, hc⟩ := List.mem_flatMap.1 hc
  rcases List.mem_cons.1 hc with rfl | hc
  · decide
  · have hpath := (hnames n hn).encoded c hc
    refine ⟨(bounds_of_not_inFragment (not_inFragment_of_not_inPath hpath)).1, ?_, ?_⟩
    · rintro rfl
      exact absurd hpath (by decide)
    · rintro rfl
      exact absurd hpath (by decide)

theorem exists_cons_routeText {r : Route} (h : r.IsNormal) :
    ∃ rest, (routeText r).toList = '/' :: rest := by
  obtain ⟨names, rfl, hne, -⟩ := h
  obtain ⟨name, names, rfl⟩ := List.exists_cons_of_ne_nil hne
  exact ⟨_, (toList_routeText _).trans (flatMap_slash name names)⟩

theorem withHost?_eq {a : Authority} {r : Route} (hweb : scheme = "http" ∨ scheme = "https")
    (ha : a.IsNormal idna scheme) (hr : r.IsNormal) (query fragment : Option String) :
    withHost? idna scheme (a.text ++ (routeText r).toList) query fragment =
      some ⟨scheme, some a, r, query, fragment⟩ := by
  have hspecial := isSpecial_of_web hweb
  obtain ⟨rest, hrest⟩ := exists_cons_routeText hr
  have hinner : ∀ c ∈ a.text, (!endsAuthority true c) = true := by
    intro c hc
    obtain ⟨-, hslash, hback, hmark, hhash⟩ := bounds_of_mem_text ha hc
    simp [endsAuthority, isSlash, hslash, hback, hmark, hhash]
  have hsite : (a.text ++ (routeText r).toList).takeWhile (fun c => !endsAuthority true c) =
      a.text := by
    rw [List.takeWhile_append_of_pos hinner, hrest, List.takeWhile_cons_of_neg (by decide),
      List.append_nil]
  unfold withHost?
  dsimp only
  rw [hspecial, hsite, List.drop_left, ha.authority?_eq hspecial, hr.routeAfterHost_eq]
  rfl

theorem lt_of_mem_markText {mark : Char} {part : Option String} (hmark : 0x20 < mark.toNat)
    (hpart : ∀ text ∈ part, ∀ c ∈ text.toList, 0x20 < c.toNat) (hc : c ∈ markText mark part) :
    0x20 < c.toNat := by
  cases part with
  | none => cases hc
  | some text =>
    rcases List.mem_cons.1 hc with rfl | hc
    · exact hmark
    · exact hpart text rfl c hc

/-- In the text of a URL there are neither blanks nor controls. -/
theorem IsNormal.lt_of_mem_toText (hweb : u.scheme = "http" ∨ u.scheme = "https")
    (h : u.IsNormal idna) (hc : c ∈ u.toText.toList) : 0x20 < c.toNat := by
  obtain ⟨a, hauthority, ha⟩ := h.authority
  have hscheme : ∀ c ∈ u.scheme.toList, 0x20 < c.toNat := by
    rcases hweb with hs | hs <;> simp [hs]
  have hquery : ∀ q ∈ u.query, ∀ c ∈ q.toList, 0x20 < c.toNat := fun q hq c hc =>
    (bounds_of_not_inSpecialQuery (h.query q hq c hc)).1
  have hfragment : ∀ f ∈ u.fragment, ∀ c ∈ f.toList, 0x20 < c.toNat := fun f hf c hc =>
    (bounds_of_not_inFragment (h.fragment f hf c hc)).1
  rw [toList_toText hauthority] at hc
  simp only [List.mem_append, List.mem_cons] at hc
  rcases hc with hc | rfl | rfl | rfl | hc | hc | hc | hc
  · exact hscheme c hc
  · decide
  · decide
  · decide
  · exact (bounds_of_mem_text ha hc).1
  · exact (bounds_of_mem_routeText h.route hc).1
  · exact lt_of_mem_markText (by decide) hquery hc
  · exact lt_of_mem_markText (by decide) hfragment hc

theorem IsNormal.ofText?_toText (hweb : u.scheme = "http" ∨ u.scheme = "https")
    (h : u.IsNormal idna) : ofText? idna u.toText = some u := by
  obtain ⟨a, hauthority, ha⟩ := h.authority
  have hclean : cleaned u.toText = u.toText.toList := cleaned_eq fun c => h.lt_of_mem_toText hweb
  have hfront : ∀ c ∈ '/' :: '/' :: (a.text ++ (routeText u.route).toList), c ≠ '?' ∧ c ≠ '#' := by
    intro c hc
    rw [List.mem_cons, List.mem_cons, List.mem_append] at hc
    rcases hc with rfl | rfl | hc | hc
    · decide
    · decide
    · obtain ⟨-, -, -, hmark⟩ := bounds_of_mem_text ha hc
      exact hmark
    · exact (bounds_of_mem_routeText h.route hc).2
  have htail := splitTail_eq (fun hm => (hfront _ hm).1 rfl) (fun hm => (hfront _ hm).2 rfl)
    h.query h.fragment
  have hdrop : ('/' :: '/' :: (a.text ++ (routeText u.route).toList)).dropWhile (isSlash true) =
      a.text ++ (routeText u.route).toList := by
    obtain ⟨c, cs, hcs⟩ := List.exists_cons_of_ne_nil (text_ne_nil ha)
    obtain ⟨-, hslash, hback, -⟩ := bounds_of_mem_text ha (hcs ▸ List.mem_cons_self (a := c))
    rw [List.dropWhile_cons_of_pos (by decide), List.dropWhile_cons_of_pos (by decide), hcs,
      List.cons_append, List.dropWhile_cons_of_neg (by simp [isSlash, hslash, hback])]
  have hfile : (u.scheme == "file") = false := by
    rcases hweb with hs | hs <;> rw [hs] <;> rfl
  rw [List.cons_append, List.cons_append, List.append_assoc] at htail
  unfold ofText?
  rw [hclean, toList_toText hauthority, scheme?_web hweb]
  simp only [Option.bind_eq_bind, Option.bind_some, isSpecial_of_web hweb, htail, hfile, hdrop,
    Bool.false_eq_true, if_false, if_true, withHost?_eq hweb ha h.route]
  rw [← hauthority]

end StackKeeper.Url

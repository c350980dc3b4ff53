import StackKeeper.Proofs.Url.Address
import StackKeeper.Proofs.Url.Domain
import StackKeeper.Proofs.Url.UserInfo

/-!
# Hosts and who asks them

The text of an authority falls apart at the marks that were put into it: the last at sign, the first
colon before it, and the last colon behind it. So the authority of a common scheme, with any login
that was encoded, is read as it is written.
-/

namespace StackKeeper.Url

variable {idna : Idna} {c : Char} {cs name rest : List Char} {scheme : String}

/-! ## Characters -/

/-- Characters that may stand in the text of an authority, apart from the at sign. -/
def isSite (c : Char) : Bool := 0x20 < c.toNat && !(['/', '\\', '?', '#', '@'].contains c)

theorem isSite_iff : isSite c = true ↔
    0x20 < c.toNat ∧ c ≠ '/' ∧ c ≠ '\\' ∧ c ≠ '?' ∧ c ≠ '#' ∧ c ≠ '@' := by
  simp [isSite]

theorem isSite_of_not_set {set : Char → Bool} (hset : ['/', '\\', '?', '#', '@'].all set = true)
    (hlt : 0x20 < c.toNat) (hc : set c = false) : isSite c = true := by
  have hmark : ['/', '\\', '?', '#', '@'].contains c = false := by
    refine Bool.eq_false_iff.2 fun hm => ?_
    have hc' := List.all_eq_true.1 hset c (List.contains_iff_mem.1 hm)
    exact Bool.false_ne_true (hc.symm.trans hc')
  rw [isSite, hmark, decide_eq_true hlt]
  rfl

theorem isSite_of_isDigit (hc : c.isDigit = true) : isSite c = true := by
  have hle : '0' ≤ c := (Text.bounds_of_isDigit hc).1
  have hlt : 0x20 < c.toNat := Nat.lt_of_lt_of_le (by decide) hle
  exact @isSite_of_not_set c (fun d => !d.isDigit) (by decide) hlt (by rw [hc]; rfl)

theorem isSite_digitChar : ∀ d < 16, isSite d.digitChar = true := by
  decide

theorem isSite_of_not_inUserInfo (hc : inUserInfo c = false) : isSite c = true :=
  isSite_of_not_set (by decide) (bounds_of_not_inUserInfo hc).1 hc

theorem isSite_of_not_forbidden (hc : Host.isForbiddenInDomain c = false) : isSite c = true := by
  have hlt : 0x20 < c.toNat := by
    have hc := hc
    simp only [Host.isForbiddenInDomain, Bool.or_eq_false_iff, decide_eq_false_iff_not] at hc
    omega
  exact isSite_of_not_set (by decide) hlt hc

/-! ## Hosts -/

namespace Host

/-- A host as it is read for a common scheme. -/
def IsNormal (idna : Idna) : Host → Prop
  | domain name => IsDomain idna name.toList ∧ endsInNumber name.toList = false
  | opaqueText _ => False
  | version4 address => address < Nat.pow 256 4
  | version6 pieces => IsVersion6 pieces

theorem IsDomain.ne {d : Char} (h : IsDomain idna name) (hc : c ∈ name)
    (hd : isForbiddenInDomain d = true) : c ≠ d := by
  rintro rfl
  rw [h.allowed c hc] at hd
  cases hd

theorem mem_version4Text {address : Nat} (hc : c ∈ (version4Text address).toList) :
    c = '.' ∨ c.isDigit = true := by
  rw [toList_version4Text] at hc
  rcases Text.mem_of_mem_intercalate hc with hc | ⟨ds, hds, hc⟩
  · exact .inl hc
  · exact .inr (isDigit_of_mem_digits hds hc)

theorem mem_version6Text {pieces : List Nat} (hc : c ∈ (version6Text pieces).toList) :
    c = ':' ∨ ∃ d < 16, c = d.digitChar := by
  rw [toList_version6Text] at hc
  cases hrun : longestRun pieces with
  | none =>
    rw [hrun] at hc
    exact mem_colons hc
  | some run =>
    rw [hrun, Option.elim_some, List.mem_append, List.mem_cons, List.mem_cons] at hc
    rcases hc with hc | rfl | rfl | hc
    · exact mem_colons hc
    · exact .inl rfl
    · exact .inl rfl
    · exact mem_colons hc

theorem ne_bracket_of_mem_version6Text {pieces : List Nat}
    (hc : c ∈ (version6Text pieces).toList) : c ≠ '[' ∧ c ≠ ']' := by
  have hdigit : ∀ d < 16, d.digitChar ≠ '[' ∧ d.digitChar ≠ ']' := by decide
  rcases mem_version6Text hc with rfl | ⟨d, hd, rfl⟩
  · decide
  · exact hdigit d hd

theorem toList_toText_version6 (pieces : List Nat) :
    (version6 pieces).toText.toList = '[' :: ((version6Text pieces).toList ++ [']']) := by
  rw [toText, String.toList_append, String.toList_append]
  rfl

theorem bracketed?_eq_none (h : '[' ∉ cs) : bracketed? cs = none := by
  unfold bracketed?
  split
  next => exact absurd List.mem_cons_self h
  next => rfl

theorem bracketed?_version6 {pieces : List Nat} (h : IsVersion6 pieces) :
    bracketed? (version6 pieces).toText.toList = some (some (version6 pieces)) := by
  rw [toList_toText_version6, bracketed?]
  simp only [List.getLast?_concat, beq_self_eq_true, if_true, List.dropLast_concat,
    h.version6?_eq, Option.map_some]

theorem not_forbidden_of_isDigit (hc : c.isDigit = true) : isForbiddenInDomain c = false := by
  have hbounds : 48 ≤ c.toNat ∧ c.toNat ≤ 57 := Text.bounds_of_isDigit hc
  have hmarks : ∀ d ∈ ['#', '%', '/', ':', '<', '>', '?', '@', '[', '\\', ']', '^', '|'],
      d.isDigit = false := by simp
  simp only [isForbiddenInDomain, Bool.or_eq_false_iff, decide_eq_false_iff_not,
    beq_eq_false_iff_ne]
  refine ⟨⟨by omega, by omega⟩, Bool.eq_false_iff.2 fun hm => ?_⟩
  exact Text.ne_of_isDigit hc (hmarks c (List.contains_iff_mem.1 hm)) rfl

theorem isDomain_version4Text (idna : Idna) (address : Nat) :
    IsDomain idna (version4Text address).toList where
  ne_nil := by
    intro hnil
    have hends := endsInNumber_version4Text address
    rw [hnil] at hends
    cases hends
  settled := idna.toAscii_plain (isPlainDomain_of_isDigit fun _ hc => mem_version4Text hc)
  allowed c hc := by
    rcases mem_version4Text hc with rfl | hc
    · decide
    · exact not_forbidden_of_isDigit hc

theorem IsNormal.ofDomain?_eq {host : Host} (h : host.IsNormal idna) :
    ofDomain? idna host.toText.toList = some host := by
  cases host with
  | domain name =>
    obtain ⟨hname, hnumber⟩ := h
    have hbracket : bracketed? name.toList = none :=
      bracketed?_eq_none fun hm => hname.ne hm (by decide) rfl
    simp only [ofDomain?, toText, hbracket, hname.domain?_eq, Option.bind_eq_bind, Option.bind_some,
      hnumber, Bool.false_eq_true, if_false, String.ofList_toList, Option.pure_def]
  | opaqueText text => exact h.elim
  | version4 address =>
    have hname := isDomain_version4Text idna address
    have hbracket : bracketed? (version4Text address).toList = none :=
      bracketed?_eq_none fun hm => hname.ne hm (by decide) rfl
    simp only [ofDomain?, toText, hbracket, hname.domain?_eq, Option.bind_eq_bind, Option.bind_some,
      endsInNumber_version4Text, if_true, version4?_version4Text h, Option.pure_def]
  | version6 pieces => rw [ofDomain?, bracketed?_version6 h]

theorem isNormal_of_bracketed? {host : Host} (h : bracketed? cs = some (some host)) :
    host.IsNormal idna := by
  unfold bracketed? at h
  split at h
  next =>
    split at h
    next =>
      obtain ⟨pieces, hpieces, rfl⟩ := Option.map_eq_some_iff.1 (Option.some.inj h)
      exact isVersion6_of_version6? hpieces
    next => cases h
  next => cases h

theorem isNormal_of_ofDomain? {host : Host} (h : ofDomain? idna cs = some host) :
    host.IsNormal idna := by
  unfold ofDomain? at h
  split at h
  next hbracket =>
    subst h
    exact isNormal_of_bracketed? hbracket
  next =>
    obtain ⟨name, hname, h⟩ := Option.bind_eq_some_iff.1 h
    split at h
    next =>
      obtain ⟨address, haddress, h⟩ := Option.bind_eq_some_iff.1 h
      rw [← Option.some.inj h]
      exact lt_of_version4? haddress
    next hnumber =>
      rw [← Option.some.inj h]
      refine ⟨?_, ?_⟩
      · rw [String.toList_ofList]
        exact isDomain_of_domain? hname
      · rw [String.toList_ofList]
        exact Bool.eq_false_iff.2 hnumber

theorem IsNormal.isSite {host : Host} (h : host.IsNormal idna) :
    ∀ c ∈ host.toText.toList, isSite c = true := by
  cases host with
  | domain name => exact fun c hc => isSite_of_not_forbidden (h.1.allowed c hc)
  | opaqueText text => exact h.elim
  | version4 address =>
    exact fun c hc => isSite_of_not_forbidden ((isDomain_version4Text idna address).allowed c hc)
  | version6 pieces =>
    intro c hc
    rw [toList_toText_version6, List.mem_cons, List.mem_append, List.mem_singleton] at hc
    rcases hc with rfl | hc | rfl
    · decide
    · rcases mem_version6Text hc with rfl | ⟨d, hd, rfl⟩
      · decide
      · exact isSite_digitChar d hd
    · decide

theorem IsNormal.toText_ne_nil {host : Host} (h : host.IsNormal idna) : host.toText.toList ≠ [] := by
  cases host with
  | domain name => exact h.1.ne_nil
  | opaqueText text => exact h.elim
  | version4 address => exact (isDomain_version4Text idna address).ne_nil
  | version6 pieces =>
    rw [toList_toText_version6]
    exact List.cons_ne_nil _ _

/-! ### The end of a host -/

theorem splitHost_append {inBrackets : Bool} (hname : ∀ c ∈ name, c ≠ '[' ∧ c ≠ ']')
    (hcolon : inBrackets = true ∨ ':' ∉ name) (rest : List Char) :
    splitHost inBrackets (name ++ rest) =
      (name ++ (splitHost inBrackets rest).1, (splitHost inBrackets rest).2) := by
  induction name with
  | nil => rfl
  | cons c name ih =>
    obtain ⟨⟨hopen, hclose⟩, hname⟩ := List.forall_mem_cons.1 hname
    have hstays : ¬(c == ':' && !inBrackets) = true := by
      rw [Bool.and_eq_true, beq_iff_eq, Bool.not_eq_true']
      rintro ⟨rfl, hb⟩
      rcases hcolon with hcolon | hcolon
      · exact Bool.false_ne_true (hb.symm.trans hcolon)
      · exact hcolon List.mem_cons_self
    have hcolon' : inBrackets = true ∨ ':' ∉ name :=
      hcolon.imp_right fun h hm => h (List.mem_cons_of_mem _ hm)
    rw [List.cons_append, splitHost, if_neg hstays, if_neg (by simpa using hopen),
      if_neg (by simpa using hclose), ih hname hcolon']
    rfl

/-- What stands behind a host: nothing, or a port behind a colon. -/
def EndsHost (rest : List Char) : Prop := rest = [] ∨ ∃ port, rest = ':' :: port

theorem EndsHost.splitHost_eq (h : EndsHost rest) : splitHost false rest = ([], rest) := by
  rcases h with rfl | ⟨port, rfl⟩
  · rfl
  · rfl

theorem IsNormal.splitHost_eq {host : Host} (h : host.IsNormal idna) (hrest : EndsHost rest) :
    splitHost false (host.toText.toList ++ rest) = (host.toText.toList, rest) := by
  have hname : ∀ {name : List Char}, IsDomain idna name →
      splitHost false (name ++ rest) = (name, rest) := by
    intro name hdomain
    have hbracket : ∀ c ∈ name, c ≠ '[' ∧ c ≠ ']' := fun c hc =>
      ⟨hdomain.ne hc (by decide), hdomain.ne hc (by decide)⟩
    rw [splitHost_append hbracket (.inr fun hm => hdomain.ne hm (by decide) rfl),
      hrest.splitHost_eq, List.append_nil]
  cases host with
  | domain name => exact hname h.1
  | opaqueText text => exact h.elim
  | version4 address => exact hname (isDomain_version4Text idna address)
  | version6 pieces =>
    have hbracket : ∀ c ∈ (version6Text pieces).toList, c ≠ '[' ∧ c ≠ ']' := fun c hc =>
      ne_bracket_of_mem_version6Text hc
    have hclose : splitHost true (']' :: rest) = ([']'], rest) := by
      rw [splitHost]
      simp [hrest.splitHost_eq]
    rw [toList_toText_version6, List.cons_append, List.append_assoc, splitHost]
    simp [splitHost_append hbracket (.inl rfl), hclose]

end Host

/-! ## Ports -/

/-- A port as it is read. -/
def IsPort (scheme : String) (n : Nat) : Prop :=
  n ≤ 65535 ∧ defaultPorts.lookup scheme ≠ some n

theorem toList_portText_some (n : Nat) :
    (portText (some n)).toList = ':' :: Nat.toDigits 10 n := by
  have hdigits : (toString n).toList = Nat.toDigits 10 n := by
    rw [Nat.toString_eq_ofList_toDigits, String.toList_ofList]
  rw [portText, String.toList_append, hdigits]
  rfl

theorem endsHost_portText (port : Option Nat) : Host.EndsHost (portText port).toList := by
  cases port with
  | none => exact .inl rfl
  | some n => exact .inr ⟨_, toList_portText_some n⟩

theorem isSite_of_mem_portText {port : Option Nat} (hc : c ∈ (portText port).toList) :
    isSite c = true := by
  cases port with
  | none => cases hc
  | some n =>
    rw [toList_portText_some, List.mem_cons] at hc
    rcases hc with rfl | hc
    · decide
    · exact isSite_of_isDigit (Text.isDigit_of_mem_toDigits hc)

theorem port?_toDigits {n : Nat} (h : IsPort scheme n) :
    port? scheme (Nat.toDigits 10 n) = some (some n) := by
  obtain ⟨hle, hdefault⟩ := h
  have hdigits : (Nat.toDigits 10 n).all Char.isDigit = true :=
    List.all_eq_true.2 fun c hc => Text.isDigit_of_mem_toDigits hc
  have hvalue : (Nat.toDigits 10 n).foldl (fun n c => 10 * n + (c.toNat - '0'.toNat)) 0 = n := by
    rw [← Nat.ofDigitChars_eq_foldl, Nat.ofDigitChars_ten_toDigits]
  have hown : ((Nat.toDigits 10 n).isEmpty || defaultPorts.lookup scheme == some n) = false := by
    rw [Bool.or_eq_false_iff, List.isEmpty_eq_false_iff, beq_eq_false_iff_ne]
    exact ⟨Nat.toDigits_ne_nil, hdefault⟩
  simp only [port?, hdigits, hvalue, hown, Bool.not_true, Bool.false_eq_true, if_false,
    Nat.not_lt.2 hle]

theorem port?_portText {port : Option Nat} (h : ∀ n ∈ port, IsPort scheme n) :
    port? scheme ((portText port).toList.drop 1) = some port := by
  cases port with
  | none => rfl
  | some n =>
    rw [toList_portText_some]
    exact port?_toDigits (h n rfl)

theorem isPort_of_port? {port : Option Nat} (h : port? scheme cs = some port) :
    ∀ n ∈ port, IsPort scheme n := by
  intro n hn
  obtain rfl := Option.mem_def.1 hn
  unfold port? at h
  split at h
  next => cases h
  next =>
    dsimp only at h
    split at h
    next => cases h
    next hle =>
      split at h
      next => cases h
      next hown =>
        rw [Bool.or_eq_true, not_or, beq_iff_eq] at hown
        rw [← Option.some.inj (Option.some.inj h)]
        exact ⟨Nat.le_of_not_lt hle, hown.2⟩

/-! ## Authorities -/

/-- An authority as it is read for a common scheme. -/
structure Authority.IsNormal (idna : Idna) (scheme : String) (a : Authority) : Prop where
  username : ∀ c ∈ a.username.toList, inUserInfo c = false
  password : ∀ c ∈ a.password.toList, inUserInfo c = false
  host : a.host.IsNormal idna
  port : ∀ n ∈ a.port, IsPort scheme n

theorem splitAtLast_append {who site : List Char} (hc : c ∉ site) :
    splitAtLast c (who ++ c :: site) = some (who, site) := by
  have hsplit : Text.splitAtFirst c (site.reverse ++ c :: who.reverse) =
      some (site.reverse, who.reverse) :=
    Text.splitAtFirst_eq_some_iff.2 ⟨rfl, fun hm => hc (List.mem_reverse.1 hm)⟩
  have hreverse : (who ++ c :: site).reverse = site.reverse ++ c :: who.reverse := by simp
  rw [splitAtLast, hreverse, hsplit]
  simp

theorem splitAtLast_eq_none (hc : c ∉ cs) : splitAtLast c cs = none := by
  rw [splitAtLast, Text.splitAtFirst_eq_none fun hm => hc (List.mem_reverse.1 hm)]
  rfl

section UserInfo

variable {username password : String} (hu : ∀ c ∈ username.toList, inUserInfo c = false)
include hu

theorem colon_not_mem : ':' ∉ username.toList := fun hm => absurd (hu _ hm) (by decide)

theorem userInfo_username : userInfo username.toList = (username, "") := by
  rw [userInfo, Text.splitAtFirst_eq_none (colon_not_mem hu)]
  dsimp only
  rw [encode_eq_self hu, String.ofList_toList]

theorem userInfo_both (hp : ∀ c ∈ password.toList, inUserInfo c = false) :
    userInfo (username.toList ++ ':' :: password.toList) = (username, password) := by
  rw [userInfo, Text.splitAtFirst_eq_some_iff.2 ⟨rfl, colon_not_mem hu⟩]
  dsimp only
  rw [encode_eq_self hu, encode_eq_self hp, String.ofList_toList, String.ofList_toList]

end UserInfo

def Authority.site (a : Authority) : List Char := a.host.toText.toList ++ (portText a.port).toList

def Authority.text (a : Authority) : List Char :=
  (userInfoText a).toList ++ a.site

theorem Authority.IsNormal.isSite_of_mem_site {a : Authority} (h : a.IsNormal idna scheme)
    (hc : c ∈ a.site) : isSite c = true := by
  rcases List.mem_append.1 hc with hc | hc
  · exact h.host.isSite c hc
  · exact isSite_of_mem_portText hc

theorem Authority.IsNormal.at_not_mem_site {a : Authority} (h : a.IsNormal idna scheme) :
    '@' ∉ a.site := fun hm => absurd (h.isSite_of_mem_site hm) (by decide)

/-- An authority is read from its site and from what stands before the last at sign. -/
theorem Authority.IsNormal.authority?_of_site {a : Authority} (h : a.IsNormal idna scheme)
    (hspecial : isSpecial scheme = true)
    (hcs : (∃ who, splitAtLast '@' cs = some (who, a.site) ∧
        userInfo who = (a.username, a.password)) ∨
      splitAtLast '@' cs = none ∧ cs = a.site ∧ a.username = "" ∧ a.password = "") :
    authority? idna scheme cs = some a := by
  have hname : a.host.toText.toList.isEmpty = false :=
    List.isEmpty_eq_false_iff.2 h.host.toText_ne_nil
  have hsplit : splitHost false a.site = (a.host.toText.toList, (portText a.port).toList) :=
    h.host.splitHost_eq (endsHost_portText a.port)
  have hfilled : ∀ b, (!(a.host.toText.toList.isEmpty && b)) = true := fun b => by
    rw [hname]
    rfl
  unfold authority?
  rcases hcs with ⟨who, hlast, hwho⟩ | ⟨hlast, rfl, hu, hp⟩
  · rw [hlast]
    dsimp only
    rw [hwho, hsplit]
    dsimp only
    rw [guard_eq_some_iff.2 (hfilled _), if_pos hspecial, h.host.ofDomain?_eq, port?_portText h.port]
    rfl
  · rw [hlast]
    dsimp only
    rw [hsplit]
    dsimp only
    rw [guard_eq_some_iff.2 (hfilled _), if_pos hspecial, h.host.ofDomain?_eq, port?_portText h.port]
    change some (⟨"", "", a.host, a.port⟩ : Authority) =
      some ⟨a.username, a.password, a.host, a.port⟩
    rw [hu, hp]

theorem Authority.IsNormal.authority?_eq {a : Authority} (h : a.IsNormal idna scheme)
    (hspecial : isSpecial scheme = true) : authority? idna scheme a.text = some a := by
  refine h.authority?_of_site hspecial ?_
  unfold Authority.text userInfoText
  by_cases hp : a.password.isEmpty = true
  · by_cases hu : a.username.isEmpty = true
    · rw [if_pos (by rw [hu, hp]; rfl)]
      exact .inr ⟨splitAtLast_eq_none h.at_not_mem_site, rfl, String.isEmpty_iff.1 hu,
        String.isEmpty_iff.1 hp⟩
    · rw [if_neg (by simp [hu]), if_pos hp, String.toList_append, List.append_assoc]
      refine .inl ⟨_, splitAtLast_append h.at_not_mem_site, ?_⟩
      rw [userInfo_username h.username, String.isEmpty_iff.1 hp]
  · rw [if_neg (by simp [hp]), if_neg hp, String.toList_append, List.append_assoc]
    refine .inl ⟨_, splitAtLast_append h.at_not_mem_site, ?_⟩
    rw [String.toList_append, String.toList_append, List.append_assoc]
    exact userInfo_both h.username h.password

theorem not_inUserInfo_of_userInfo {username password : String}
    (h : userInfo cs = (username, password)) :
    (∀ c ∈ username.toList, inUserInfo c = false) ∧
      ∀ c ∈ password.toList, inUserInfo c = false := by
  have hencode := sparesEscapes_inUserInfo.not_set_of_mem_encoded
  unfold userInfo at h
  dsimp only at h
  split at h
  next who password' =>
    obtain ⟨rfl, rfl⟩ := Prod.mk.inj h
    exact ⟨hencode _, hencode _⟩
  next =>
    obtain ⟨rfl, rfl⟩ := Prod.mk.inj h
    exact ⟨hencode _, nofun⟩

theorem isNormal_of_authority? {a : Authority} (hspecial : isSpecial scheme = true)
    (h : authority? idna scheme cs = some a) : a.IsNormal idna scheme := by
  unfold authority? at h
  split at h
  next username password site hwho =>
  split at h
  next name rest hsplit =>
  obtain ⟨_, -, h⟩ := Option.bind_eq_some_iff.1 h
  rw [if_pos hspecial] at h
  obtain ⟨host, hhost, h⟩ := Option.bind_eq_some_iff.1 h
  obtain ⟨port, hport, h⟩ := Option.bind_eq_some_iff.1 h
  obtain rfl := Option.some.inj h
  have hlogin : (∀ c ∈ username.toList, inUserInfo c = false) ∧
      ∀ c ∈ password.toList, inUserInfo c = false := by
    split at hwho
    · exact not_inUserInfo_of_userInfo (Prod.mk.inj hwho).1
    · obtain ⟨rfl, rfl⟩ := Prod.mk.inj (Prod.mk.inj hwho).1
      exact ⟨nofun, nofun⟩
  exact ⟨hlogin.1, hlogin.2, Host.isNormal_of_ofDomain? hhost, isPort_of_port? hport⟩

end StackKeeper.Url

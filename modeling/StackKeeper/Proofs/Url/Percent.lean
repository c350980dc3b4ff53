import StackKeeper.Proofs.Text.Digits
import StackKeeper.Proofs.Text.Utf8
import StackKeeper.Url.Percent

/-!
# Percent encoding there and back

No set that is encoded in some part of a URL has the percent sign or a hexadecimal digit in it. So
what was encoded is not encoded again, and it is decoded to what the text itself is decoded to. That
is the text only if it has no escape of its own: a percent sign with two hexadecimal digits behind it
comes back as one byte.
-/

namespace StackKeeper.Url

variable {set : Char → Bool} {c : Char} {cs ds : List Char} {b : UInt8}

theorem forall_not_set (h : (cs.all (!set ·)) = true) : ∀ c ∈ cs, set c = false := fun c hc => by
  simpa using List.all_eq_true.1 h c hc

theorem hexValue?_upperHex : ∀ n < 16, hexValue? (upperHex n) = some n := by
  decide

/-! ## Sets -/

/-- A set that leaves escapes as they are. -/
structure SparesEscapes (set : Char → Bool) : Prop where
  percent : set '%' = false
  digit : ∀ c, (hexValue? c).isSome = true → set c = false

theorem toNat_lt_of_hexValue? (hc : (hexValue? c).isSome = true) : c.toNat < 103 := by
  have hlt : ∀ {d : Char}, d.toNat < 103 → c ≤ d → c.toNat < 103 :=
    fun hd hle => Nat.lt_of_le_of_lt hle hd
  unfold hexValue? at hc
  split at hc
  next h => exact hlt (by decide) (Text.bounds_of_isDigit h).2
  next =>
    split at hc
    next h => exact hlt (by decide) h.2
    next =>
      split at hc
      next h => exact hlt (by decide) h.2
      next => cases hc

theorem sparesEscapes_of_below (hpercent : set '%' = false)
    (h : ∀ n < 103, (hexValue? (Char.ofNat n)).isSome = true → set (Char.ofNat n) = false) :
    SparesEscapes set where
  percent := hpercent
  digit c hc := by
    have hn := h c.toNat (toNat_lt_of_hexValue? hc)
    rw [Char.ofNat_toNat] at hn
    exact hn hc

theorem sparesEscapes_inUserInfo : SparesEscapes inUserInfo :=
  sparesEscapes_of_below (by decide) (by decide)

theorem sparesEscapes_inPath : SparesEscapes inPath :=
  sparesEscapes_of_below (by decide) (by decide)

theorem sparesEscapes_inFragment : SparesEscapes inFragment :=
  sparesEscapes_of_below (by decide) (by decide)

theorem sparesEscapes_inSpecialQuery : SparesEscapes inSpecialQuery :=
  sparesEscapes_of_below (by decide) (by decide)

/-- What is neither a control nor a space is a visible character of ASCII. -/
theorem bounds_of_not_inControls (hc : inControls c = false) (hspace : c ≠ ' ') :
    0x20 < c.toNat ∧ c.toNat < 0x7F := by
  simp only [inControls, Bool.or_eq_false_iff, decide_eq_false_iff_not] at hc
  have hne : c.toNat ≠ 0x20 := fun h => hspace (Char.toNat_inj.1 h)
  omega

theorem bounds_of_not_inFragment (hc : inFragment c = false) : 0x20 < c.toNat ∧ c.toNat < 0x7F := by
  simp only [inFragment, Bool.or_eq_false_iff] at hc
  refine bounds_of_not_inControls hc.1 ?_
  rintro rfl
  exact absurd hc.2 (by decide)

theorem bounds_of_not_inSpecialQuery (hc : inSpecialQuery c = false) :
    0x20 < c.toNat ∧ c.toNat < 0x7F := by
  simp only [inSpecialQuery, inQuery, Bool.or_eq_false_iff] at hc
  refine bounds_of_not_inControls hc.1.1 ?_
  rintro rfl
  exact absurd hc.1.2 (by decide)

theorem not_inFragment_of_not_inPath (hc : inPath c = false) : inFragment c = false :=
  (Bool.or_eq_false_iff.1 hc).1

theorem not_inPath_of_not_inUserInfo (hc : inUserInfo c = false) : inPath c = false :=
  (Bool.or_eq_false_iff.1 hc).1

namespace SparesEscapes

variable (hs : SparesEscapes set)
include hs

theorem upperHex {n : Nat} (hn : n < 16) : set (upperHex n) = false :=
  hs.digit _ (by rw [hexValue?_upperHex n hn]; rfl)

theorem not_set_of_mem_escapeByte (hc : c ∈ escapeByte b) : set c = false := by
  have hb : b.toNat < 256 := b.toNat_lt
  simp only [escapeByte, List.mem_cons, List.not_mem_nil, or_false] at hc
  rcases hc with rfl | rfl | rfl
  · exact hs.percent
  · exact hs.upperHex (by omega)
  · exact hs.upperHex (by omega)

theorem not_set_of_mem_encode (hc : c ∈ encode set cs) : set c = false := by
  obtain ⟨d, -, hd⟩ := List.mem_flatMap.1 hc
  unfold encodeChar at hd
  split at hd
  · obtain ⟨b, -, hb⟩ := List.mem_flatMap.1 hd
    exact hs.not_set_of_mem_escapeByte hb
  · rename_i hset
    rw [List.mem_singleton.1 hd]
    exact Bool.eq_false_iff.2 hset

theorem not_set_of_mem_encoded (cs : List Char) :
    ∀ c ∈ (String.ofList (encode set cs)).toList, set c = false := by
  intro c hc
  rw [String.toList_ofList] at hc
  exact hs.not_set_of_mem_encode hc

end SparesEscapes

/-! ## Encoding -/

theorem encode_cons (set : Char → Bool) (c : Char) (cs : List Char) :
    encode set (c :: cs) = encodeChar set c ++ encode set cs := List.flatMap_cons

theorem encodeChar_of_not_set (hc : set c = false) : encodeChar set c = [c] := by
  rw [encodeChar, if_neg (by simp [hc])]

theorem encode_eq_self (h : ∀ c ∈ cs, set c = false) : encode set cs = cs := by
  induction cs with
  | nil => rfl
  | cons c cs ih =>
    obtain ⟨hc, hcs⟩ := List.forall_mem_cons.1 h
    rw [encode_cons, encodeChar_of_not_set hc, ih hcs]
    rfl

/-- Only a text without characters to encode is its own encoding. -/
theorem SparesEscapes.encode_eq_self_iff (hs : SparesEscapes set) :
    encode set cs = cs ↔ ∀ c ∈ cs, set c = false :=
  ⟨fun h _ hc => hs.not_set_of_mem_encode (h ▸ hc), encode_eq_self⟩

/-- A text that is encoded does not occur in any encoding. -/
theorem SparesEscapes.not_infix_encode (hs : SparesEscapes set) (hcs : encode set cs ≠ cs) :
    ¬cs <:+: encode set ds := by
  intro h
  refine hcs (encode_eq_self fun c hc => ?_)
  exact hs.not_set_of_mem_encode (h.subset hc)

theorem mem_of_mem_encode (hc : c ∈ encode set cs) : c ∈ cs ∨ ∃ b, c ∈ escapeByte b := by
  obtain ⟨d, hd, hc⟩ := List.mem_flatMap.1 hc
  unfold encodeChar at hc
  split at hc
  · obtain ⟨b, -, hb⟩ := List.mem_flatMap.1 hc
    exact .inr ⟨b, hb⟩
  · exact .inl (List.mem_singleton.1 hc ▸ hd)

theorem encodeChar_of_set (hc : set c = true) : ∃ l, encodeChar set c = '%' :: l := by
  have hne : Utf8.encode (String.singleton c) ≠ [] := by
    rw [Utf8.encode_singleton]
    exact String.utf8EncodeChar_ne_nil
  obtain ⟨b, bytes, hbytes⟩ := List.exists_cons_of_ne_nil hne
  rw [encodeChar, if_pos hc, hbytes]
  exact ⟨_, rfl⟩

/-! ## Escapes -/

def opensDigit : List Char → Bool
  | a :: _ => (hexValue? a).isSome
  | [] => false

def opensEscape : List Char → Bool
  | a :: rest => (hexValue? a).isSome && opensDigit rest
  | [] => false

/-- Whether some percent sign has two hexadecimal digits behind it. -/
def hasEscape : List Char → Bool
  | [] => false
  | c :: cs => (c == '%' && opensEscape cs) || hasEscape cs

theorem hasEscape_cons (hc : c = '%' → opensEscape cs = false) :
    hasEscape (c :: cs) = hasEscape cs := by
  rw [hasEscape]
  by_cases h : c = '%'
  · rw [hc h, Bool.and_false, Bool.false_or]
  · rw [beq_false_of_ne h, Bool.false_and, Bool.false_or]

theorem hasEscape_of_not_mem (h : '%' ∉ cs) : hasEscape cs = false := by
  induction cs with
  | nil => rfl
  | cons c cs ih =>
    rw [hasEscape_cons fun hc => absurd (hc ▸ List.mem_cons_self) h]
    exact ih fun hm => h (List.mem_cons_of_mem _ hm)

theorem exists_of_opensEscape (h : opensEscape cs = true) : ∃ a b rest, cs = a :: b :: rest ∧
    (hexValue? a).isSome = true ∧ (hexValue? b).isSome = true := by
  rcases cs with _ | ⟨a, _ | ⟨b, rest⟩⟩
  · cases h
  · rw [opensEscape, opensDigit, Bool.and_false] at h
    cases h
  · exact ⟨a, b, rest, rfl, (Bool.and_eq_true _ _).mp h⟩

/-- A text begins with an escape, or with a character that stands for itself. -/
theorem escapewise {P : List Char → Prop} (nil : P [])
    (escape : ∀ a b rest, (hexValue? a).isSome = true → (hexValue? b).isSome = true → P rest →
      P ('%' :: a :: b :: rest))
    (plain : ∀ c rest, (c = '%' → opensEscape rest = false) → P rest → P (c :: rest))
    (cs : List Char) : P cs := by
  induction hn : cs.length using Nat.strongRecOn generalizing cs with
  | ind n ih =>
    cases cs with
    | nil => exact nil
    | cons c cs =>
      by_cases hc : c = '%' ∧ opensEscape cs = true
      · obtain ⟨rfl, h⟩ := hc
        obtain ⟨a, b, rest, rfl, ha, hb⟩ := exists_of_opensEscape h
        refine escape a b rest ha hb (ih _ ?_ rest rfl)
        simp only [← hn, List.length_cons]
        omega
      · refine plain c cs (fun h => Bool.eq_false_iff.2 fun ho => hc ⟨h, ho⟩) (ih _ ?_ cs rfl)
        simp only [← hn, List.length_cons]
        omega

/-! ## Decoding -/

theorem decode_escape {a b : Char} (ha : (hexValue? a).isSome = true)
    (hb : (hexValue? b).isSome = true) : ∃ byte, ∀ rest,
      decode ('%' :: a :: b :: rest) = byte :: decode rest := by
  obtain ⟨x, hx⟩ := Option.isSome_iff_exists.1 ha
  obtain ⟨y, hy⟩ := Option.isSome_iff_exists.1 hb
  refine ⟨UInt8.ofNat (16 * x + y), fun rest => ?_⟩
  rw [decode, hx, hy]

theorem decode_escapeByte (b : UInt8) (rest : List Char) :
    decode (escapeByte b ++ rest) = b :: decode rest := by
  have hb : b.toNat < 256 := b.toNat_lt
  have hhigh := hexValue?_upperHex (b.toNat / 16) (by omega)
  have hlow := hexValue?_upperHex (b.toNat % 16) (by omega)
  rw [escapeByte, List.cons_append, List.cons_append, List.cons_append, List.nil_append, decode,
    hhigh, hlow]
  dsimp only
  rw [Nat.div_add_mod, UInt8.ofNat_toNat]

theorem decode_escapes (bytes : Bytes) (rest : List Char) :
    decode (bytes.flatMap escapeByte ++ rest) = bytes ++ decode rest := by
  induction bytes with
  | nil => rfl
  | cons b bytes ih =>
    rw [List.flatMap_cons, List.append_assoc, decode_escapeByte, ih, List.cons_append]

/-- A character that opens no escape stands for its own bytes. -/
theorem decode_cons (hc : c = '%' → opensEscape cs = false) :
    decode (c :: cs) = Utf8.encode (String.singleton c) ++ decode cs := by
  by_cases hshort : ∃ a b rest, c = '%' ∧ cs = a :: b :: rest
  · obtain ⟨a, b, rest, rfl, rfl⟩ := hshort
    have hdigits := hc rfl
    rw [opensEscape, opensDigit, Bool.and_eq_false_iff] at hdigits
    have hpercent : Utf8.encode (String.singleton '%') = [UInt8.ofNat '%'.toNat] := by
      rw [Utf8.encode_singleton]
      rfl
    rw [decode, hpercent]
    split
    next x y hx hy =>
      rw [hx, hy] at hdigits
      rcases hdigits with h | h <;> cases h
    next => rfl
  · rw [decode]
    intro a b rest hpercent hcs
    exact hshort ⟨a, b, rest, hpercent, hcs⟩

theorem length_encode_pos (c : Char) : 0 < (Utf8.encode (String.singleton c)).length := by
  rw [Utf8.encode_singleton, String.length_utf8EncodeChar]
  exact c.utf8Size_pos

/-- An escape is one byte for three characters. -/
theorem length_decode_escape_lt {a b : Char} {rest : List Char} (ha : (hexValue? a).isSome = true)
    (hb : (hexValue? b).isSome = true)
    (hrest : (decode rest).length ≤ (Utf8.encode (String.ofList rest)).length) :
    (decode ('%' :: a :: b :: rest)).length <
      (Utf8.encode (String.ofList ('%' :: a :: b :: rest))).length := by
  obtain ⟨byte, hbyte⟩ := decode_escape ha hb
  have hpercent := length_encode_pos '%'
  have hpos := length_encode_pos a
  simp only [hbyte, Utf8.encode_ofList_cons, List.length_append, List.length_cons]
  omega

theorem length_decode_le (cs : List Char) :
    (decode cs).length ≤ (Utf8.encode (String.ofList cs)).length := by
  induction cs using escapewise with
  | nil => exact Nat.zero_le _
  | escape a b rest ha hb ih => exact Nat.le_of_lt (length_decode_escape_lt ha hb ih)
  | plain c rest hc ih =>
    rw [decode_cons hc, Utf8.encode_ofList_cons, List.length_append, List.length_append]
    omega

theorem decode_eq_iff (cs : List Char) :
    decode cs = Utf8.encode (String.ofList cs) ↔ hasEscape cs = false := by
  induction cs using escapewise with
  | nil => exact iff_of_true (by rw [decode, Utf8.encode_eq]; rfl) rfl
  | escape a b rest ha hb ih =>
    have hlt := length_decode_escape_lt ha hb (length_decode_le rest)
    refine iff_of_false (fun h => absurd (congrArg List.length h) (Nat.ne_of_lt hlt)) ?_
    rw [hasEscape, opensEscape, opensDigit, ha, hb]
    exact Bool.noConfusion
  | plain c rest hc ih =>
    rw [decode_cons hc, Utf8.encode_ofList_cons, List.append_cancel_left_eq, ih, hasEscape_cons hc]

namespace SparesEscapes

variable (hs : SparesEscapes set)
include hs

theorem hexValue?_of_set (hc : set c = true) : (hexValue? c).isSome = false :=
  Bool.eq_false_iff.2 fun h => Bool.false_ne_true ((hs.digit c h).symm.trans hc)

theorem opensDigit_encode (cs : List Char) : opensDigit (encode set cs) = opensDigit cs := by
  cases cs with
  | nil => rfl
  | cons a cs =>
    rw [encode_cons]
    by_cases ha : set a = true
    · obtain ⟨l, hl⟩ := encodeChar_of_set ha
      rw [hl, opensDigit, hs.hexValue?_of_set ha]
      rfl
    · rw [encodeChar_of_not_set (Bool.eq_false_iff.2 ha)]
      rfl

theorem opensEscape_encode (cs : List Char) : opensEscape (encode set cs) = opensEscape cs := by
  cases cs with
  | nil => rfl
  | cons a cs =>
    rw [encode_cons]
    by_cases ha : set a = true
    · obtain ⟨l, hl⟩ := encodeChar_of_set ha
      rw [hl, opensEscape, hs.hexValue?_of_set ha, Bool.false_and]
      rfl
    · rw [encodeChar_of_not_set (Bool.eq_false_iff.2 ha), List.singleton_append, opensEscape,
        hs.opensDigit_encode cs]
      rfl

/-- Of what was encoded in a text nothing is left when it is decoded. -/
theorem decode_encode (cs : List Char) : decode (encode set cs) = decode cs := by
  induction cs using escapewise with
  | nil => rfl
  | escape a b rest ha hb ih =>
    obtain ⟨byte, hbyte⟩ := decode_escape ha hb
    rw [encode_cons, encode_cons, encode_cons, encodeChar_of_not_set hs.percent,
      encodeChar_of_not_set (hs.digit a ha), encodeChar_of_not_set (hs.digit b hb)]
    exact (hbyte _).trans ((congrArg (byte :: ·) ih).trans (hbyte rest).symm)
  | plain c rest hc ih =>
    rw [encode_cons, decode_cons hc]
    by_cases hset : set c = true
    · rw [encodeChar, if_pos hset, decode_escapes, ih]
    · rw [encodeChar, if_neg hset, List.singleton_append, decode_cons, ih]
      intro hpercent
      rw [hs.opensEscape_encode, hc hpercent]

end SparesEscapes

end StackKeeper.Url

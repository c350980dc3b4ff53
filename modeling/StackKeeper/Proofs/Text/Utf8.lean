import StackKeeper.Text.Utf8

/-!
# UTF-8 there and back

The bytes of a text are the bytes of its characters, one after the other, and the first of them say
how many belong to the first character. So a text is read back from its bytes, strictly or with
replacements.
-/

namespace StackKeeper.Utf8

theorem toList_loop (bytes : ByteArray) (i : Nat) (l : List UInt8) :
    ByteArray.toList.loop bytes i l = l.reverse ++ bytes.data.toList.drop i := by
  induction hn : bytes.size - i generalizing i l with
  | zero =>
    have hlen : bytes.data.toList.length ≤ i := by
      rw [Array.length_toList]
      exact Nat.sub_eq_zero_iff_le.1 hn
    rw [ByteArray.toList.loop, if_neg (by omega), List.drop_of_length_le hlen, List.append_nil]
  | succ n ih =>
    have hi : i < bytes.size := by omega
    have hi' : i < bytes.data.toList.length := by simpa using hi
    have hget : bytes.get! i = bytes.data.toList[i] := by
      change bytes.data[i]! = _
      rw [getElem!_pos bytes.data i hi, Array.getElem_toList]
    rw [ByteArray.toList.loop, if_pos hi, ih (i + 1) _ (by omega), List.reverse_cons,
      List.append_assoc, hget, List.singleton_append, ← List.drop_eq_getElem_cons]

theorem encode_eq (s : String) : encode s = s.toList.flatMap String.utf8EncodeChar := by
  have hs : s.toUTF8 = s.toList.utf8Encode := by
    rw [String.toUTF8, ← String.toByteArray_ofList, String.ofList_toList]
  unfold encode
  rw [hs, ByteArray.toList, toList_loop, List.utf8Encode, List.toList_data_toByteArray]
  rfl

theorem encode_singleton (c : Char) : encode (String.singleton c) = String.utf8EncodeChar c := by
  rw [encode_eq, String.toList_singleton, List.flatMap_singleton]

theorem encode_ofList_cons (c : Char) (cs : List Char) :
    encode (String.ofList (c :: cs)) = encode (String.singleton c) ++ encode (String.ofList cs) := by
  rw [encode_singleton, encode_eq, encode_eq, String.toList_ofList, String.toList_ofList,
    List.flatMap_cons]

/-! ## The bytes of one character -/

theorem between_iff {a b c : UInt8} :
    (a ≤ b && b ≤ c) = true ↔ a.toNat ≤ b.toNat ∧ b.toNat ≤ c.toNat := by
  rw [Bool.and_eq_true, decide_eq_true_eq, decide_eq_true_eq, UInt8.le_iff_toNat_le,
    UInt8.le_iff_toNat_le]

theorem isContinuation_iff {b : UInt8} :
    isContinuation b = true ↔ 128 ≤ b.toNat ∧ b.toNat ≤ 191 := between_iff

theorem secondFits_of {a b : UInt8} (hb : 128 ≤ b.toNat ∧ b.toNat ≤ 191)
    (h₁ : a.toNat = 224 → 160 ≤ b.toNat) (h₂ : a.toNat = 237 → b.toNat ≤ 159)
    (h₃ : a.toNat = 240 → 144 ≤ b.toNat) (h₄ : a.toNat = 244 → b.toNat ≤ 143) :
    secondFits a b = true := by
  have heq : ∀ {c : UInt8}, (a == c) = true → a.toNat = c.toNat := by
    intro c hc
    rw [beq_iff_eq.1 hc]
  unfold secondFits
  split
  next h => exact between_iff.2 ⟨h₁ (heq h), hb.2⟩
  next =>
    split
    next h => exact between_iff.2 ⟨hb.1, h₂ (heq h)⟩
    next =>
      split
      next h => exact between_iff.2 ⟨h₃ (heq h), hb.2⟩
      next =>
        split
        next h => exact between_iff.2 ⟨hb.1, h₄ (heq h)⟩
        next => exact isContinuation_iff.2 hb

section Bytes

variable {a b c d : UInt8} {rest : Bytes}

theorem not_lt_of_le (h : 128 ≤ a.toNat) : ¬a < 0x80 := by
  rw [UInt8.lt_iff_toNat_lt]
  exact Nat.not_lt.2 h

theorem next_one (h : a.toNat < 128) : next a rest = (some (charOf a.toNat), 0) := by
  have hlt : a < 0x80 := UInt8.lt_iff_toNat_lt.2 h
  unfold next
  rw [if_pos hlt]

theorem next_two (h : 194 ≤ a.toNat ∧ a.toNat ≤ 223) (hb : isContinuation b = true) :
    next a (b :: rest) = (some (charOf (a.toNat % 32 * 64 + low6 b)), 1) := by
  have h₁ : ¬a < 0x80 := not_lt_of_le (by omega)
  have h₂ : (0xC2 ≤ a && a ≤ 0xDF) = true := between_iff.2 h
  unfold next
  rw [if_neg h₁, if_pos h₂]
  dsimp only
  rw [if_pos hb]

theorem next_three (h : 224 ≤ a.toNat ∧ a.toNat ≤ 239) (hb : secondFits a b = true)
    (hc : isContinuation c = true) :
    next a (b :: c :: rest) =
      (some (charOf ((a.toNat % 16 * 64 + low6 b) * 64 + low6 c)), 2) := by
  have h₁ : ¬a < 0x80 := not_lt_of_le (by omega)
  have h₂ : ¬(0xC2 ≤ a && a ≤ 0xDF) = true := fun h₂ =>
    absurd (between_iff.1 h₂).2 (Nat.not_le.2 (Nat.lt_of_lt_of_le (by decide) h.1))
  have h₃ : (0xE0 ≤ a && a ≤ 0xEF) = true := between_iff.2 h
  unfold next
  rw [if_neg h₁, if_neg h₂, if_pos h₃]
  dsimp only
  rw [if_pos hb, if_pos hc]

theorem next_four (h : 240 ≤ a.toNat ∧ a.toNat ≤ 244) (hb : secondFits a b = true)
    (hc : isContinuation c = true) (hd : isContinuation d = true) :
    next a (b :: c :: d :: rest) =
      (some (charOf (((a.toNat % 8 * 64 + low6 b) * 64 + low6 c) * 64 + low6 d)), 3) := by
  have h₁ : ¬a < 0x80 := not_lt_of_le (by omega)
  have h₂ : ¬(0xC2 ≤ a && a ≤ 0xDF) = true := fun h₂ =>
    absurd (between_iff.1 h₂).2 (Nat.not_le.2 (Nat.lt_of_lt_of_le (by decide) h.1))
  have h₃ : ¬(0xE0 ≤ a && a ≤ 0xEF) = true := fun h₃ =>
    absurd (between_iff.1 h₃).2 (Nat.not_le.2 (Nat.lt_of_lt_of_le (by decide) h.1))
  have h₄ : (0xF0 ≤ a && a ≤ 0xF4) = true := between_iff.2 h
  unfold next
  rw [if_neg h₁, if_neg h₂, if_neg h₃, if_pos h₄]
  dsimp only
  rw [if_pos hb, if_pos hc, if_pos hd]

end Bytes

theorem toNat_ofNat {n : Nat} (hn : n < 256) : (UInt8.ofNat n).toNat = n :=
  UInt8.toNat_ofNat_of_lt' hn

theorem isContinuation_ofNat {n : Nat} (hn : n < 64) :
    isContinuation (UInt8.ofNat (n + 128)) = true := by
  rw [isContinuation_iff, toNat_ofNat (by omega)]
  omega

theorem low6_ofNat {n : Nat} (hn : n < 64) : low6 (UInt8.ofNat (n + 128)) = n := by
  unfold low6
  rw [toNat_ofNat (by omega)]
  omega

theorem toNat_valid (c : Char) :
    c.toNat < 1114112 ∧ (c.toNat < 55296 ∨ 57343 < c.toNat) := by
  rcases c.valid with h | h
  · exact ⟨Nat.lt_trans h (by decide), .inl h⟩
  · exact ⟨h.2, .inr h.1⟩

/-- Bytes that begin with these are read as the character and what follows. -/
def Spells (bytes : Bytes) (c : Char) : Prop := ∀ rest, scan (bytes ++ rest) = some c :: scan rest

theorem spells_of_next {a : UInt8} {more : Bytes} {c : Char} {n : Nat} (hn : n = c.toNat)
    (hnext : ∀ rest, next a (more ++ rest) = (some (charOf n), more.length)) :
    Spells (a :: more) c := by
  intro rest
  have hchar : charOf n = c := by simp [charOf, hn]
  rw [List.cons_append, scan, hnext, hchar]
  dsimp only
  rw [List.drop_left]

section Characters

variable {c : Char}

theorem spells_one (h : c.toNat ≤ 127) : Spells [UInt8.ofNat c.toNat] c := by
  have ha : (UInt8.ofNat c.toNat).toNat = c.toNat := toNat_ofNat (by omega)
  exact spells_of_next ha fun rest => next_one (by omega)

theorem spells_two (hlow : 127 < c.toNat) (hhigh : c.toNat ≤ 2047) :
    Spells [UInt8.ofNat (c.toNat / 64 % 32 + 192), UInt8.ofNat (c.toNat % 64 + 128)] c := by
  have ha : (UInt8.ofNat (c.toNat / 64 % 32 + 192)).toNat = c.toNat / 64 + 192 := by
    rw [toNat_ofNat] <;> omega
  have hb : c.toNat % 64 < 64 := by omega
  refine spells_of_next ?_ fun rest => next_two (by omega) (isContinuation_ofNat hb)
  rw [ha, low6_ofNat hb]
  omega

theorem spells_three (hlow : 2047 < c.toNat) (hhigh : c.toNat ≤ 65535) :
    Spells [UInt8.ofNat (c.toNat / 4096 % 16 + 224), UInt8.ofNat (c.toNat / 64 % 64 + 128),
      UInt8.ofNat (c.toNat % 64 + 128)] c := by
  obtain ⟨-, hgap⟩ := toNat_valid c
  have ha : (UInt8.ofNat (c.toNat / 4096 % 16 + 224)).toNat = c.toNat / 4096 + 224 := by
    rw [toNat_ofNat] <;> omega
  have hb : c.toNat / 64 % 64 < 64 := by omega
  have hc : c.toNat % 64 < 64 := by omega
  have hsecond : (UInt8.ofNat (c.toNat / 64 % 64 + 128)).toNat = c.toNat / 64 % 64 + 128 :=
    toNat_ofNat (by omega)
  have hfits : secondFits (UInt8.ofNat (c.toNat / 4096 % 16 + 224))
      (UInt8.ofNat (c.toNat / 64 % 64 + 128)) = true := by
    apply secondFits_of <;> omega
  refine spells_of_next ?_ fun rest => next_three (by omega) hfits (isContinuation_ofNat hc)
  rw [ha, low6_ofNat hb, low6_ofNat hc]
  omega

theorem spells_four (hlow : 65535 < c.toNat) :
    Spells [UInt8.ofNat (c.toNat / 262144 % 8 + 240), UInt8.ofNat (c.toNat / 4096 % 64 + 128),
      UInt8.ofNat (c.toNat / 64 % 64 + 128), UInt8.ofNat (c.toNat % 64 + 128)] c := by
  obtain ⟨hhigh, -⟩ := toNat_valid c
  have ha : (UInt8.ofNat (c.toNat / 262144 % 8 + 240)).toNat = c.toNat / 262144 + 240 := by
    rw [toNat_ofNat] <;> omega
  have hb : c.toNat / 4096 % 64 < 64 := by omega
  have hc : c.toNat / 64 % 64 < 64 := by omega
  have hd : c.toNat % 64 < 64 := by omega
  have hsecond : (UInt8.ofNat (c.toNat / 4096 % 64 + 128)).toNat = c.toNat / 4096 % 64 + 128 :=
    toNat_ofNat (by omega)
  have hfits : secondFits (UInt8.ofNat (c.toNat / 262144 % 8 + 240))
      (UInt8.ofNat (c.toNat / 4096 % 64 + 128)) = true := by
    apply secondFits_of <;> omega
  refine spells_of_next ?_ fun rest =>
    next_four (by omega) hfits (isContinuation_ofNat hc) (isContinuation_ofNat hd)
  rw [ha, low6_ofNat hb, low6_ofNat hc, low6_ofNat hd]
  omega

end Characters

/-- The first character of some bytes is the one whose bytes they begin with. -/
theorem scan_append (c : Char) : Spells (String.utf8EncodeChar c) c := by
  have hc : c.val.toNat = c.toNat := rfl
  unfold String.utf8EncodeChar
  simp only [hc]
  split
  case isTrue h => exact spells_one h
  case isFalse h =>
    split
    case isTrue h' => exact spells_two (by omega) h'
    case isFalse h' =>
      split
      case isTrue h'' => exact spells_three (by omega) h''
      case isFalse h'' => exact spells_four (by omega)

theorem toNat_of_mem_utf8EncodeChar {b : UInt8} {c : Char} (hb : b ∈ String.utf8EncodeChar c)
    (hlt : b.toNat < 128) : b.toNat = c.toNat := by
  have hc : c.val.toNat = c.toNat := rfl
  have hlate : ∀ n, 128 ≤ n → n < 256 → b ≠ UInt8.ofNat n := by
    rintro n hn hn' rfl
    rw [toNat_ofNat hn'] at hlt
    omega
  unfold String.utf8EncodeChar at hb
  simp only [hc] at hb
  split at hb
  case isTrue h =>
    rw [List.mem_singleton.1 hb]
    exact toNat_ofNat (by omega)
  case isFalse h =>
    exfalso
    split at hb
    case isTrue =>
      simp only [List.mem_cons, List.not_mem_nil, or_false] at hb
      rcases hb with hb | hb <;> exact hlate _ (by omega) (by omega) hb
    case isFalse =>
      split at hb
      all_goals
        simp only [List.mem_cons, List.not_mem_nil, or_false] at hb
        obtain ⟨hmax, -⟩ := toNat_valid c
      · rcases hb with hb | hb | hb <;> exact hlate _ (by omega) (by omega) hb
      · rcases hb with hb | hb | hb | hb <;> exact hlate _ (by omega) (by omega) hb

/-! ## Whole texts -/

theorem scan_encode (s : String) : scan (encode s) = s.toList.map some := by
  rw [encode_eq]
  induction s.toList with
  | nil => simp [scan]
  | cons c cs ih => rw [List.flatMap_cons, scan_append, ih, List.map_cons]

theorem mapM_id_eq_some_iff {l : List (Option Char)} {cs : List Char} :
    l.mapM id = some cs ↔ l = cs.map some := by
  induction l generalizing cs with
  | nil => cases cs <;> simp
  | cons c l ih =>
    rw [List.mapM_cons]
    cases c with
    | none => cases cs <;> simp
    | some c =>
      cases cs with
      | nil => simp [Option.bind_eq_some_iff]
      | cons c' cs => simp [Option.bind_eq_some_iff, ih, and_left_comm]

theorem decode?_encode (s : String) : decode? (encode s) = some s := by
  unfold decode?
  rw [mapM_id_eq_some_iff.2 (scan_encode s), Option.map_some, String.ofList_toList]

theorem decode?_flatMap (s : String) :
    decode? (s.toList.flatMap String.utf8EncodeChar) = some s := by
  rw [← encode_eq, decode?_encode]

theorem decodeLossy_encode (s : String) : decodeLossy (encode s) = s := by
  unfold decodeLossy
  rw [scan_encode, List.map_map]
  exact (congrArg String.ofList (List.map_id s.toList)).trans String.ofList_toList

/-- Bytes that are text have the same text with replacements. -/
theorem decodeLossy_of_decode? {bytes : Bytes} {s : String} (h : decode? bytes = some s) :
    decodeLossy bytes = s := by
  obtain ⟨cs, hcs, rfl⟩ := Option.map_eq_some_iff.1 h
  rw [decodeLossy, mapM_id_eq_some_iff.1 hcs, List.map_map]
  exact congrArg String.ofList (List.map_id cs)

/-! ## On both sides of a byte of ASCII -/

section Ascii

variable {a b y : UInt8}

theorem le_of_secondFits (h : secondFits a b = true) : 128 ≤ b.toNat := by
  have hlow : ∀ {low high : UInt8}, 128 ≤ low.toNat → (low ≤ b && b ≤ high) = true →
      128 ≤ b.toNat := fun hlow hb => Nat.le_trans hlow (between_iff.1 hb).1
  unfold secondFits at h
  split at h
  next => exact hlow (by decide) h
  next =>
    split at h
    next => exact hlow (by decide) h
    next =>
      split at h
      next => exact hlow (by decide) h
      next =>
        split at h
        next => exact hlow (by decide) h
        next => exact (isContinuation_iff.1 h).1

/-- A byte of ASCII belongs to no character that began before it. -/
theorem next_append (hy : y.toNat < 128) (a : UInt8) (rest tail : Bytes) :
    next a (rest ++ y :: tail) = next a rest ∧ (next a rest).2 ≤ rest.length := by
  have hcont : ¬isContinuation y = true := by
    intro h
    have hle := (isContinuation_iff.1 h).1
    omega
  have hfits : ¬secondFits a y = true := by
    intro h
    have hle := le_of_secondFits h
    omega
  match rest with
  | [] | [p] | [p, q] | p :: q :: r :: rest =>
    simp only [next, List.cons_append, List.nil_append]
    grind

theorem scan_append_cons (hy : y.toNat < 128) (bytes tail : Bytes) :
    scan (bytes ++ y :: tail) = scan bytes ++ some (charOf y.toNat) :: scan tail := by
  induction hn : bytes.length using Nat.strongRecOn generalizing bytes with
  | _ n ih =>
    cases bytes with
    | nil => simp [scan, next_one hy]
    | cons a rest =>
      obtain ⟨heq, hle⟩ := next_append hy a rest tail
      have hlt : (rest.drop (next a rest).2).length < n := by
        rw [← hn, List.length_cons, List.length_drop]
        omega
      rw [List.cons_append, scan, heq, scan]
      dsimp only
      rw [List.drop_append_of_le_length hle, ih _ hlt _ rfl, List.cons_append]

theorem toList_decodeLossy_append_cons (hy : y.toNat < 128) (bytes tail : Bytes) :
    (decodeLossy (bytes ++ y :: tail)).toList =
      (decodeLossy bytes).toList ++ charOf y.toNat :: (decodeLossy tail).toList := by
  simp [decodeLossy, scan_append_cons hy]

end Ascii

end StackKeeper.Utf8

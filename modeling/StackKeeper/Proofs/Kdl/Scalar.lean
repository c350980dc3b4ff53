import StackKeeper.Kdl.Scalar
import StackKeeper.Proofs.Text.Digits
import StackKeeper.Proofs.Text.Utf8

/-!
# Strings and numbers that were written

A text can be written in quotes, where a character that could not stand there is written by its
number. Most names need no quotes. A number is written with its decimal digits, and is no text.
-/

namespace StackKeeper.Kdl

variable {c : Char} {cs rest more : List Char} {fuel n : Nat} {i : Int} {name : String}

/-! ## Quoted texts -/

/-- Characters that stand for themselves between quotes. -/
def isPlain (c : Char) : Bool := !(c == '"' || c == '\\' || isNewline c || isForbidden c)

def escape (c : Char) : List Char :=
  if isPlain c then [c] else '\\' :: 'u' :: '\x7b' :: (Nat.toDigits 16 c.toNat ++ ['\x7d'])

def quotedText (s : String) : List Char := '"' :: (s.toList.flatMap escape ++ ['"'])

theorem codePoint?_append {ds : List Char} {value count : Nat}
    (hread : ds.foldlM (fun m c => (hexDigit? c).map (16 * m + ·)) value = some n)
    (hcount : count + ds.length ≤ 6) : codePoint? value count (ds ++ '\x7d' :: rest) =
      codePoint? n (count + ds.length) ('\x7d' :: rest) := by
  induction ds generalizing value count with
  | nil =>
    obtain rfl := Option.some.inj hread
    rfl
  | cons c ds ih =>
    rw [List.foldlM_cons] at hread
    obtain ⟨m, hm, hread⟩ := Option.bind_eq_some_iff.1 hread
    obtain ⟨d, hd, rfl⟩ := Option.map_eq_some_iff.1 hm
    rw [List.length_cons] at hcount
    have hc : c ≠ '\x7d' := by
      rintro rfl
      cases hd
    have hlt : count < 6 := by omega
    rw [List.cons_append, codePoint?, if_neg hc, hd]
    dsimp only
    rw [if_pos hlt, ih hread (by omega), List.length_cons]
    congr 1
    omega

theorem hexDigit?_digitChar : ∀ d < 16, hexDigit? d.digitChar = some d := by decide

theorem codePoint?_toDigits (c : Char) (rest : List Char) :
    codePoint? 0 0 (Nat.toDigits 16 c.toNat ++ '\x7d' :: rest) = some (c, rest) := by
  have hread : (Nat.toDigits 16 c.toNat).foldlM (fun m c => (hexDigit? c).map (16 * m + ·)) 0 =
      some c.toNat := by
    refine Text.foldlM_toDigits (by decide) (fun m d hd => ?_) c.toNat
    rw [hexDigit?_digitChar d hd]
    rfl
  have hlt : c.toNat < 16 ^ 6 := by
    have hbound := (Utf8.toNat_valid c).1
    omega
  have hlength : (Nat.toDigits 16 c.toNat).length ≤ 6 :=
    (Nat.length_toDigits_le_iff (by decide) (by decide)).2 hlt
  have hpos : (Nat.toDigits 16 c.toNat).length ≠ 0 := by
    simp
  rw [codePoint?_append hread (by omega), codePoint?, if_pos rfl, if_neg, Char.ofNat_toNat]
  rintro (h | h)
  · omega
  · exact h c.valid

theorem afterNewline?_eq_none (hc : isNewline c = false) : afterNewline? (c :: cs) = none := by
  unfold afterNewline?
  split
  next h =>
    obtain ⟨rfl, -⟩ := List.cons.inj h
    cases hc
  next h =>
    obtain ⟨rfl, rfl⟩ := List.cons.inj h
    rw [hc]
    rfl
  next h => cases h

theorem items_plain (hc : isPlain c = true) : items false (fuel + 1) (c :: cs) =
    (items false fuel cs).map fun (l, after) => (.char c true :: l, after) := by
  simp only [isPlain, Bool.not_eq_true', Bool.or_eq_false_iff, beq_eq_false_iff_ne] at hc
  obtain ⟨⟨⟨hquote, hback⟩, hnewline⟩, hforbidden⟩ := hc
  rw [items.eq_def]
  dsimp only
  split
  next h => cases h
  next h => exact absurd (List.cons.inj h).1 hquote
  next h => exact absurd (List.cons.inj h).1 hback
  next h =>
    obtain ⟨rfl, rfl⟩ := List.cons.inj h
    rw [afterNewline?_eq_none hnewline, hforbidden]
    rfl

theorem items_escaped (fuel : Nat) (c : Char) (rest : List Char) :
    items false (fuel + 1)
        ('\\' :: 'u' :: '\x7b' :: (Nat.toDigits 16 c.toNat ++ '\x7d' :: rest)) =
      (items false fuel rest).map fun (l, after) => (.char c false :: l, after) := by
  have hdrop : ∀ cs : List Char,
      ('u' :: cs).dropWhile (fun c => isSpace c || isNewline c) = 'u' :: cs := fun _ => rfl
  have hchar : ∀ cs : List Char, escaped? ('u' :: '\x7b' :: cs) = codePoint? 0 0 cs := fun _ => rfl
  rw [items]
  simp only [hdrop, Nat.lt_irrefl, if_false, hchar, codePoint?_toDigits]

/-- What is read of a character between quotes. -/
def itemOf (c : Char) : Item := .char c (isPlain c)

theorem items_escape (c : Char) (rest : List Char) : items false (fuel + 1) (escape c ++ rest) =
    (items false fuel rest).map fun (l, after) => (itemOf c :: l, after) := by
  rw [escape, itemOf]
  by_cases hc : isPlain c = true
  · rw [if_pos hc, hc]
    exact items_plain hc
  · rw [if_neg hc, Bool.eq_false_iff.2 hc]
    simp only [List.cons_append, List.append_assoc, List.nil_append]
    exact items_escaped fuel c rest

theorem items_flatMap (hfuel : cs.length < fuel) (rest : List Char) :
    items false fuel (cs.flatMap escape ++ '"' :: rest) = some (cs.map itemOf, rest) := by
  induction cs generalizing fuel with
  | nil =>
    cases fuel with
    | zero => cases hfuel
    | succ fuel => rfl
  | cons c cs ih =>
    cases fuel with
    | zero => cases hfuel
    | succ fuel =>
      rw [List.flatMap_cons, List.append_assoc, items_escape, ih (Nat.lt_of_succ_lt_succ hfuel)]
      rfl

theorem exists_escape (c : Char) : ∃ d t, escape c = d :: t ∧ d ≠ '"' := by
  rw [escape]
  by_cases hc : isPlain c = true
  · rw [if_pos hc]
    refine ⟨c, [], rfl, ?_⟩
    rintro rfl
    cases hc
  · rw [if_neg hc]
    exact ⟨_, _, rfl, by decide⟩

theorem length_le_flatMap_escape (cs : List Char) : cs.length ≤ (cs.flatMap escape).length := by
  induction cs with
  | nil => exact Nat.le_refl _
  | cons c cs ih =>
    obtain ⟨d, t, hc, -⟩ := exists_escape c
    rw [List.flatMap_cons, hc, List.length_append, List.length_cons, List.length_cons]
    omega

/-- A text in quotes is read back, if no more quotes follow it. -/
theorem string?_quotedText (s : String) (hc : c ≠ '"') (rest : List Char) :
    string? (quotedText s ++ c :: rest) = some (s, c :: rest) := by
  have hopen : quotedText s ++ c :: rest =
      '"' :: (s.toList.flatMap escape ++ '"' :: c :: rest) := by
    rw [quotedText, List.cons_append, List.append_assoc, List.singleton_append]
  have hfuel : s.toList.length < (s.toList.flatMap escape ++ '"' :: c :: rest).length + 1 := by
    have hle := length_le_flatMap_escape s.toList
    rw [List.length_append]
    omega
  have htext : (s.toList.map itemOf).filterMap Item.char? = s.toList := by
    rw [List.filterMap_map]
    exact List.filterMap_some
  rw [hopen]
  change quoted? _ = _
  unfold quoted?
  split
  next h =>
    -- neither an empty text nor one with quotes in it opens with three quotes
    cases hs : s.toList with
    | nil =>
      rw [hs] at h
      exact absurd (List.cons.inj (List.cons.inj (List.cons.inj h).2).2).1 hc
    | cons d cs =>
      obtain ⟨e, t, he, hne⟩ := exists_escape d
      rw [hs, List.flatMap_cons, he] at h
      exact absurd (List.cons.inj (List.cons.inj h).2).1 hne
  next h =>
    obtain ⟨-, rfl⟩ := List.cons.inj h
    rw [items_flatMap hfuel]
    simp only [Option.bind_eq_bind, Option.bind_some, htext, String.ofList_toList, Option.pure_def]
  next h => exact absurd rfl (h _)

/-! ## Names -/

/-- Names that need no quotes. -/
def isBareName (name : String) : Bool :=
  name.toList.all isBare && !name.toList.isEmpty && !looksNumeric name.toList &&
    !keywords.contains name

theorem ne_of_isBare {d : Char} (hc : isBare c = true) (hd : isBare d = false) : c ≠ d := by
  rintro rfl
  rw [hc] at hd
  cases hd

theorem isSpace_of_isBare (hc : isBare c = true) : isSpace c = false := by
  simp only [isBare, Bool.not_eq_true', Bool.or_eq_false_iff] at hc
  exact hc.1.1.1

theorem isNewline_of_isBare (hc : isBare c = true) : isNewline c = false := by
  simp only [isBare, Bool.not_eq_true', Bool.or_eq_false_iff] at hc
  exact hc.1.1.2

theorem takeWhile_isBare (hcs : ∀ c ∈ cs, isBare c = true) (hc : isBare c = false) :
    (cs ++ c :: rest).takeWhile isBare = cs := by
  rw [List.takeWhile_append_of_pos hcs, List.takeWhile_cons_of_neg (by rw [hc]; nofun),
    List.append_nil]

theorem string?_eq_bare? (hc : isBare c = true) : string? (c :: cs) = bare? (c :: cs) := by
  unfold string?
  split
  next h => exact absurd (List.cons.inj h).1 (ne_of_isBare hc rfl)
  next h => exact absurd (List.cons.inj h).1 (ne_of_isBare hc rfl)
  next => rfl

/-- A name that needs no quotes is read back, whatever ends it. -/
theorem string?_name (hname : isBareName name = true) (hc : isBare c = false) (rest : List Char) :
    string? (name.toList ++ c :: rest) = some (name, c :: rest) := by
  simp only [isBareName, Bool.and_eq_true, Bool.not_eq_true', List.all_eq_true] at hname
  obtain ⟨⟨⟨hbare, hempty⟩, hnumeric⟩, hkeyword⟩ := hname
  have hbare? : bare? (name.toList ++ c :: rest) = some (name, c :: rest) := by
    simp only [bare?, takeWhile_isBare hbare hc, hempty, hnumeric, String.ofList_toList, hkeyword,
      Bool.or_self, Bool.false_eq_true, if_false, List.drop_left]
  cases hcs : name.toList with
  | nil =>
    rw [hcs] at hempty
    cases hempty
  | cons d cs =>
    rw [hcs] at hbare hbare?
    rw [List.cons_append, string?_eq_bare? (hbare d List.mem_cons_self)]
    exact hbare?

/-! ## Numbers -/

theorem isBare_of_mem_toDigits (hc : c ∈ Nat.toDigits 10 n) : isBare c = true := by
  have hdigit : ∀ d < 10, isBare d.digitChar = true := by decide
  obtain ⟨d, hd, rfl⟩ := Text.exists_digit_of_mem_toDigits (by decide) hc
  exact hdigit d hd

theorem digits?_toDigits (hc : c.isDigit = false) (hunderscore : c ≠ '_') :
    digits? Char.isDigit (Nat.toDigits 10 n ++ c :: rest) =
      some (Nat.toDigits 10 n, c :: rest) := by
  have hdigits : ∀ c ∈ Nat.toDigits 10 n, c.isDigit = true := fun _ => Text.isDigit_of_mem_toDigits
  have hrun : (Nat.toDigits 10 n ++ c :: rest).takeWhile (fun c => c.isDigit || c == '_') =
      Nat.toDigits 10 n := by
    rw [List.takeWhile_append_of_pos fun c hc => by rw [hdigits c hc]; rfl,
      List.takeWhile_cons_of_neg (by simp [hc, hunderscore]), List.append_nil]
  have hfilter : (Nat.toDigits 10 n).filter (· != '_') = Nat.toDigits 10 n :=
    List.filter_eq_self.2 fun c hc => bne_iff_ne.2 (Text.ne_of_isDigit (hdigits c hc) rfl)
  obtain ⟨d, ds, hn⟩ := Text.exists_cons_toDigits n
  have hd : d.isDigit = true := hdigits d (hn ▸ List.mem_cons_self)
  rw [hn] at hrun hfilter ⊢
  rw [List.cons_append] at hrun ⊢
  simp only [digits?, hd, if_true, hrun, hfilter]
  rw [← List.cons_append, List.drop_left]

theorem valueOf_toDigits (n : Nat) : valueOf 10 (Nat.toDigits 10 n) = n := by
  have hvalue : ∀ d < 10, (hexDigit? d.digitChar).getD 0 = d := by decide
  have hread : (Nat.toDigits 10 n).foldlM
      (fun v c => some (10 * v + (hexDigit? c).getD 0)) 0 = some n :=
    Text.foldlM_toDigits (by decide) (fun m d hd => by rw [hvalue d hd]) n
  exact Option.some.inj (List.foldlM_pure.symm.trans hread)

theorem decimal?_toDigits (negative : Bool) (n : Nat) (rest : List Char) :
    decimal? negative (Nat.toDigits 10 n ++ '\n' :: rest) =
      (integer? (signed negative n)).map fun v => (v, '\n' :: rest) := by
  have hafter : afterExponent (afterFraction ('\n' :: rest)) = '\n' :: rest := rfl
  rw [decimal?, digits?_toDigits rfl (by decide)]
  simp only [Option.bind_eq_bind, Option.bind_some, hafter, Nat.lt_irrefl, if_false,
    valueOf_toDigits]
  cases integer? (signed negative n) <;> rfl

theorem second_of_toDigits {d e : Char} (h : Nat.toDigits 10 n ++ '\n' :: rest = d :: e :: more) :
    e = '\n' ∨ e.isDigit = true := by
  obtain ⟨c, cs, hn⟩ := Text.exists_cons_toDigits n
  rw [hn, List.cons_append] at h
  have htail := (List.cons.inj h).2
  cases cs with
  | nil => exact .inl (List.cons.inj htail).1.symm
  | cons b cs =>
    obtain ⟨rfl, -⟩ := List.cons.inj htail
    exact .inr (Text.isDigit_of_mem_toDigits (hn ▸ List.mem_cons_of_mem _ List.mem_cons_self))

theorem unsigned?_toDigits (negative : Bool) (n : Nat) (rest : List Char) :
    unsigned? negative (Nat.toDigits 10 n ++ '\n' :: rest) =
      (integer? (signed negative n)).map fun v => (v, '\n' :: rest) := by
  rw [← decimal?_toDigits]
  unfold unsigned?
  split
  next h => rcases second_of_toDigits h with h | h <;> cases h
  next h => rcases second_of_toDigits h with h | h <;> cases h
  next h => rcases second_of_toDigits h with h | h <;> cases h
  next => rfl

def numberText (i : Int) : List Char :=
  if i < 0 then '-' :: Nat.toDigits 10 i.natAbs else Nat.toDigits 10 i.natAbs

theorem toList_toString (i : Int) : (toString i).toList = numberText i := by
  cases i with
  | ofNat n =>
    rw [numberText, if_neg (by simp)]
    exact Nat.toList_repr
  | negSucc n =>
    rw [numberText, if_pos (by omega)]
    change ("-" ++ (n + 1).repr).toList = _
    rw [String.toList_append, Nat.toList_repr]
    rfl

theorem number?_numberText (i : Int) (rest : List Char) :
    number? (numberText i ++ '\n' :: rest) = (integer? i).map fun v => (v, '\n' :: rest) := by
  rw [numberText]
  split
  next hi =>
    have hsigned : signed true i.natAbs = i := by
      rw [signed, if_pos rfl]
      omega
    rw [List.cons_append]
    change unsigned? true _ = _
    rw [unsigned?_toDigits, hsigned]
  next hi =>
    have hsigned : signed false i.natAbs = i := by
      rw [signed, if_neg (by nofun)]
      omega
    obtain ⟨d, ds, hn⟩ := Text.exists_cons_toDigits i.natAbs
    have hd : d.isDigit = true := Text.isDigit_of_mem_toDigits (hn ▸ List.mem_cons_self)
    have hunsigned := unsigned?_toDigits false i.natAbs rest
    rw [hsigned] at hunsigned
    rw [← hunsigned, hn]
    unfold number?
    split
    next h => exact absurd (List.cons.inj h).1 (Text.ne_of_isDigit hd rfl)
    next h => exact absurd (List.cons.inj h).1 (Text.ne_of_isDigit hd rfl)
    next => rfl

theorem looksNumeric_numberText (i : Int) (rest : List Char) :
    looksNumeric (numberText i ++ rest) = true := by
  obtain ⟨d, ds, hn⟩ := Text.exists_cons_toDigits i.natAbs
  have hd : d.isDigit = true := Text.isDigit_of_mem_toDigits (hn ▸ List.mem_cons_self)
  have hdot : d ≠ '.' := Text.ne_of_isDigit hd rfl
  rw [numberText, hn]
  split
  · simp [looksNumeric, hdot, hd]
  · have hplus : d ≠ '+' := Text.ne_of_isDigit hd rfl
    have hdash : d ≠ '-' := Text.ne_of_isDigit hd rfl
    simp [looksNumeric, hplus, hdash, hdot, hd]

theorem isBare_of_mem_numberText (hc : c ∈ numberText i) : isBare c = true := by
  rw [numberText] at hc
  split at hc
  · rcases List.mem_cons.1 hc with rfl | hc
    · rfl
    · exact isBare_of_mem_toDigits hc
  · exact isBare_of_mem_toDigits hc

theorem string?_numberText (i : Int) (rest : List Char) :
    string? (numberText i ++ '\n' :: rest) = none := by
  have hbare : bare? (numberText i ++ '\n' :: rest) = none := by
    have hnumeric := looksNumeric_numberText i []
    rw [List.append_nil] at hnumeric
    rw [bare?, takeWhile_isBare (fun _ => isBare_of_mem_numberText) rfl]
    simp only [hnumeric, Bool.or_true, Bool.true_or, if_true]
  cases hcs : numberText i with
  | nil =>
    have hnumeric := looksNumeric_numberText i []
    rw [hcs] at hnumeric
    cases hnumeric
  | cons c cs =>
    rw [hcs, List.cons_append] at hbare
    rw [List.cons_append, string?_eq_bare? (isBare_of_mem_numberText (hcs ▸ List.mem_cons_self)),
      hbare]

theorem scalar?_numberText (i : Int) (rest : List Char) :
    scalar? (numberText i ++ '\n' :: rest) = (integer? i).map fun v => (v, '\n' :: rest) := by
  rw [← number?_numberText]
  unfold scalar?
  split
  next h =>
    have hnumeric := looksNumeric_numberText i ('\n' :: rest)
    rw [h] at hnumeric
    cases hnumeric
  next => rw [if_pos (looksNumeric_numberText i _)]

end StackKeeper.Kdl

import StackKeeper.Proofs.Json.Lexeme
import StackKeeper.Proofs.Json.Shape

/-!
# Values that were written

A value without floating-point numbers is read back from its written form, as it was, exactly if it
is nested no deeper than the reader allows. The writer has no such limit.
-/

namespace StackKeeper.Json

variable {v : Json} {c : Char} {cs rest : List Char} {fuel allowed k : Nat}

/-! ## What can be read back -/

/-- A whole number that is kept whole. -/
def Number.Whole : Number → Prop
  | .integer i => -(Nat.pow 2 63 : Int) ≤ i ∧ i ≤ maxWhole
  | .float _ => False

/-- Nothing in a value is in floating point. -/
def Whole (v : Json) : Prop := ∀ n ∈ v.numbers, n.Whole

def within {α : Type} (allowed depth : Nat) (r : α) : Except Fault α :=
  if depth ≤ allowed then .ok r else .error .tooDeep

/-! ## Numbers -/

theorem readAny_digit (hc : c.isDigit = true) :
    readAny (fuel + 1) allowed (c :: cs) =
      (readNumber false (c :: cs)).map fun (n, rest) => (.number n, rest) := by
  have hne : ∀ d : Char, d.isDigit = false → c ≠ d := fun d => Text.ne_of_isDigit hc
  unfold readAny
  split
  · rename_i h
    cases h
  iterate 7
    · rename_i h
      exact absurd (List.cons.inj h).1 (hne _ (by decide))
  · rename_i h
    obtain ⟨rfl, rfl⟩ := List.cons.inj h
    rw [digit?_of_isDigit hc]
    rfl

theorem readAny_number {n : Number} (hn : n.Whole) (hrest : Ends rest) :
    readAny (fuel + 1) allowed (n.text ++ rest) = .ok (.number n, rest) := by
  cases n with
  | float x => cases hn
  | integer i =>
    obtain ⟨hlow, hhigh⟩ := hn
    have hpow : (Nat.pow 2 63 : Nat) ≤ maxWhole := by decide
    by_cases hi : i < 0
    · have htext : (Number.integer i).text = '-' :: Nat.toDigits 10 i.natAbs := if_pos hi
      rw [htext]
      change (readNumber true (Nat.toDigits 10 i.natAbs ++ rest)).map _ = _
      rw [readNumber_toDigits (by omega) hrest, readFraction_negative (by omega) (by omega) hrest]
      have hneg : -(i.natAbs : Int) = i := by omega
      rw [hneg]
      rfl
    · have htext : (Number.integer i).text = Nat.toDigits 10 i.natAbs := if_neg hi
      have hread : readNumber false (Nat.toDigits 10 i.natAbs ++ rest) =
          readFraction false i.natAbs 0 rest := readNumber_toDigits (by omega) hrest
      have hdigit : ∀ c ∈ Nat.toDigits 10 i.natAbs, c.isDigit = true := fun c =>
        Text.isDigit_of_mem_toDigits
      obtain ⟨c, cs, hcs⟩ := Text.exists_cons_toDigits i.natAbs
      rw [htext]
      rw [hcs] at hdigit hread ⊢
      rw [List.cons_append, readAny_digit (hdigit c List.mem_cons_self), ← List.cons_append, hread,
        readFraction_of_ends hrest]
      have habs : (i.natAbs : Int) = i := by omega
      rw [habs]
      rfl

/-! ## Spaces -/

theorem skipSpace_indent (k : Nat) (cs : List Char) : skipSpace (indent k ++ cs) = skipSpace cs := by
  have hspaces : ∀ n, skipSpace (List.replicate n ' ' ++ cs) = skipSpace cs := by
    intro n
    induction n with
    | zero => rfl
    | succ n ih => exact ih
  exact hspaces (2 * k)

/-- What a value opens with. -/
structure Opens (c : Char) : Prop where
  noSpace : isSpace c = false
  noBracket : c ≠ ']'

theorem opens_of_isDigit (hc : c.isDigit = true) : Opens c := by
  have hne : ∀ d : Char, d.isDigit = false → c ≠ d := fun d => Text.ne_of_isDigit hc
  refine ⟨?_, hne _ (by decide)⟩
  simp [isSpace, hne ' ' (by decide), hne '\n' (by decide), hne '\t' (by decide),
    hne '\r' (by decide)]

theorem Number.Whole.opens {n : Number} (hn : n.Whole) : ∃ c cs, n.text = c :: cs ∧ Opens c := by
  cases n with
  | float x => cases hn
  | integer i =>
    by_cases hi : i < 0
    · exact ⟨_, _, if_pos hi, by decide, by decide⟩
    · obtain ⟨c, cs, hcs⟩ := Text.exists_cons_toDigits i.natAbs
      have hc : c.isDigit = true := Text.isDigit_of_mem_toDigits (hcs ▸ List.mem_cons_self)
      exact ⟨c, cs, (if_neg hi).trans hcs, opens_of_isDigit hc⟩

theorem Whole.opens (hv : v.Whole) (k : Nat) : ∃ c cs, prettyText k v = c :: cs ∧ Opens c := by
  cases v with
  | null => exact ⟨'n', ['u', 'l', 'l'], rfl, by decide, by decide⟩
  | bool b =>
    cases b with
    | true => exact ⟨'t', ['r', 'u', 'e'], rfl, by decide, by decide⟩
    | false => exact ⟨'f', ['a', 'l', 's', 'e'], rfl, by decide, by decide⟩
  | number n => exact (hv n List.mem_cons_self).opens
  | string s => exact ⟨'"', _, rfl, by decide, by decide⟩
  | array items => cases items <;> exact ⟨'[', _, rfl, by decide, by decide⟩
  | object members => cases members <;> exact ⟨'\x7b', _, rfl, by decide, by decide⟩

theorem Whole.skipSpace_eq (hv : v.Whole) (k : Nat) (cs : List Char) :
    skipSpace (prettyText k v ++ cs) = prettyText k v ++ cs := by
  obtain ⟨c, rest, htext, hc⟩ := hv.opens k
  rw [htext]
  exact List.dropWhile_cons_of_neg (by simp [hc.noSpace])

/-! ## Arrays and objects -/

theorem readAny_openBracket (fuel allowed : Nat) (cs : List Char) :
    readAny (fuel + 1) (allowed + 1) ('[' :: cs) = match skipSpace cs with
      | ']' :: rest => .ok (.array [], rest)
      | rest => (readItems fuel allowed rest).map fun (items, rest) => (.array items, rest) := rfl

theorem readAny_openBrace (fuel allowed : Nat) (cs : List Char) :
    readAny (fuel + 1) (allowed + 1) ('\x7b' :: cs) = match skipSpace cs with
      | '\x7d' :: rest => .ok (.object [], rest)
      | rest => (readMembers fuel allowed rest).map fun (members, rest) =>
          (.object members, rest) := rfl

theorem readAny_bracket {cs' : List Char} (hcs : skipSpace cs = c :: cs') (hc : c ≠ ']') :
    readAny (fuel + 1) (allowed + 1) ('[' :: cs) =
      (readItems fuel allowed (c :: cs')).map fun (items, rest) => (.array items, rest) := by
  rw [readAny_openBracket, hcs]
  split
  · rename_i h
    exact absurd (List.cons.inj h).1 hc
  · rfl

theorem readAny_brace {cs' : List Char} (hcs : skipSpace cs = c :: cs') (hc : c ≠ '\x7d') :
    readAny (fuel + 1) (allowed + 1) ('\x7b' :: cs) =
      (readMembers fuel allowed (c :: cs')).map fun (members, rest) => (.object members, rest) := by
  rw [readAny_openBrace, hcs]
  split
  · rename_i h
    exact absurd (List.cons.inj h).1 hc
  · rfl

section Steps

variable {f : Fault} {name : String} {rest' : List Char}

theorem readItems_error (hv : readAny fuel allowed cs = .error f) :
    readItems (fuel + 1) allowed cs = .error f := by
  rw [readItems, hv]
  rfl

theorem readItems_last (hv : readAny fuel allowed cs = .ok (v, rest))
    (hrest : skipSpace rest = ']' :: rest') :
    readItems (fuel + 1) allowed cs = .ok ([v], rest') := by
  simp only [readItems, hv, bind, Except.bind, hrest]

theorem readItems_next (hv : readAny fuel allowed cs = .ok (v, rest))
    (hrest : skipSpace rest = ',' :: rest') :
    readItems (fuel + 1) allowed cs =
      (readItems fuel allowed (skipSpace rest')).map fun (items, rest) => (v :: items, rest) := by
  rw [readItems]
  simp only [hv, bind, Except.bind, hrest]
  cases readItems fuel allowed (skipSpace rest') <;> rfl

variable (hname : readString cs = .ok (name, ':' :: ' ' :: rest)) (hspace : skipSpace rest = rest)
include hname hspace

theorem readMembers_error (hv : readAny fuel allowed rest = .error f) :
    readMembers (fuel + 1) allowed ('"' :: cs) = .error f := by
  have hcolon : skipSpace (':' :: ' ' :: rest) = ':' :: ' ' :: rest := rfl
  have hblank : skipSpace (' ' :: rest) = rest := hspace
  simp only [readMembers, hname, hcolon, hblank, hv, bind, Except.bind]

theorem readMembers_last {cs' : List Char} (hv : readAny fuel allowed rest = .ok (v, cs'))
    (hrest : skipSpace cs' = '\x7d' :: rest') :
    readMembers (fuel + 1) allowed ('"' :: cs) = .ok ([(name, v)], rest') := by
  have hcolon : skipSpace (':' :: ' ' :: rest) = ':' :: ' ' :: rest := rfl
  have hblank : skipSpace (' ' :: rest) = rest := hspace
  simp only [readMembers, hname, hcolon, hblank, hv, hrest, bind, Except.bind]

theorem readMembers_next {cs' : List Char} (hv : readAny fuel allowed rest = .ok (v, cs'))
    (hrest : skipSpace cs' = ',' :: rest') :
    readMembers (fuel + 1) allowed ('"' :: cs) =
      (readMembers fuel allowed (skipSpace rest')).map fun (members, rest) =>
        ((name, v) :: members, rest) := by
  have hcolon : skipSpace (':' :: ' ' :: rest) = ':' :: ' ' :: rest := rfl
  have hblank : skipSpace (' ' :: rest) = rest := hspace
  rw [readMembers]
  simp only [hname, hcolon, hblank, hv, hrest, bind, Except.bind]
  cases readMembers fuel allowed (skipSpace rest') <;> rfl

end Steps

section Within

variable {α β : Type} {n n' : Nat}

theorem within_ok (h : n ≤ allowed) (r : α) : within allowed n r = .ok r := if_pos h

theorem within_error (h : ¬n ≤ allowed) (r : α) : within allowed n r = .error .tooDeep := if_neg h

/-- The rest decides where the first value is not too deep. -/
theorem within_max (h : n ≤ allowed) (f : α → β) (r : α) :
    (within allowed n' r).map f = within allowed (max n n') (f r) := by
  by_cases hr : n' ≤ allowed
  · rw [within_ok hr, within_ok (Nat.max_le.2 ⟨h, hr⟩)]
    rfl
  · rw [within_error hr, within_error fun h => hr (Nat.max_le.1 h).2]
    rfl

theorem within_succ (f : α → β) (r : α) :
    (within allowed n r).map f = within (allowed + 1) (n + 1) (f r) := by
  by_cases hr : n ≤ allowed
  · rw [within_ok hr, within_ok (Nat.succ_le_succ hr)]
    rfl
  · rw [within_error hr, within_error fun h => hr (Nat.le_of_succ_le_succ h)]
    rfl

end Within

theorem Whole.length_pos (hv : v.Whole) (k : Nat) : 1 ≤ (prettyText k v).length := by
  obtain ⟨c, cs, htext, -⟩ := hv.opens k
  rw [htext]
  exact Nat.succ_le_succ (Nat.zero_le _)

theorem Whole.items {items : List Json} (hv : (Json.array items).Whole) : ∀ w ∈ items, w.Whole := by
  intro w hw n hn
  refine hv n ?_
  change n ∈ numbersItems items
  clear hv
  induction items with
  | nil => cases hw
  | cons x items ih =>
    rcases List.mem_cons.1 hw with rfl | hw
    · exact List.mem_append_left _ hn
    · exact List.mem_append_right _ (ih hw)

theorem Whole.members {members : List (String × Json)} (hv : (Json.object members).Whole) :
    ∀ m ∈ members, m.2.Whole := by
  intro w hw n hn
  refine hv n ?_
  change n ∈ numbersMembers members
  clear hv
  induction members with
  | nil => cases hw
  | cons x members ih =>
    rcases List.mem_cons.1 hw with rfl | hw
    · exact List.mem_append_left _ hn
    · exact List.mem_append_right _ (ih hw)

def afterItem (k : Nat) (items : List Json) (rest : List Char) : List Char :=
  prettyItems k items ++ (indent k ++ ']' :: rest)

def afterMember (k : Nat) (members : List (String × Json)) (rest : List Char) : List Char :=
  prettyMembers k members ++ (indent k ++ '\x7d' :: rest)

theorem ends_afterItem (k : Nat) (items : List Json) (rest : List Char) :
    Ends (afterItem k items rest) := by
  cases items with
  | nil => exact .inr (.inr ⟨_, rfl⟩)
  | cons v items => exact .inr (.inl ⟨_, rfl⟩)

theorem ends_afterMember (k : Nat) (members : List (String × Json)) (rest : List Char) :
    Ends (afterMember k members rest) := by
  cases members with
  | nil => exact .inr (.inr ⟨_, rfl⟩)
  | cons m members => exact .inr (.inl ⟨_, rfl⟩)

theorem skipSpace_afterItem_nil (k : Nat) (rest : List Char) :
    skipSpace (afterItem k [] rest) = ']' :: rest := skipSpace_indent k _

theorem skipSpace_afterMember_nil (k : Nat) (rest : List Char) :
    skipSpace (afterMember k [] rest) = '\x7d' :: rest := skipSpace_indent k _

theorem prettyText_array (k : Nat) (v : Json) (items : List Json) (rest : List Char) :
    prettyText k (.array (v :: items)) ++ rest =
      '[' :: (indent (k + 1) ++ (prettyText (k + 1) v ++ afterItem k items rest)) := by
  simp only [prettyText, afterItem, List.append_assoc, List.cons_append, List.nil_append]

theorem length_prettyText_array (k : Nat) (v : Json) (items : List Json) :
    (prettyText k (.array (v :: items))).length = (indent (k + 1)).length +
      (prettyText (k + 1) v).length + (prettyItems k items).length + (indent k).length + 2 := by
  simp only [prettyText, List.length_append, List.length_cons, List.length_nil]
  omega

theorem prettyText_object (k : Nat) (name : String) (v : Json) (members : List (String × Json))
    (rest : List Char) : prettyText k (.object ((name, v) :: members)) ++ rest =
      '\x7b' :: (indent (k + 1) ++ '"' :: (name.toList.flatMap escapedChar ++
        '"' :: ':' :: ' ' :: (prettyText (k + 1) v ++ afterMember k members rest))) := by
  simp only [prettyText, afterMember, stringText, List.append_assoc, List.cons_append,
    List.nil_append]

theorem length_prettyText_object (k : Nat) (name : String) (v : Json)
    (members : List (String × Json)) : (prettyText k (.object ((name, v) :: members))).length =
      (indent (k + 1)).length + (stringText name).length + (prettyText (k + 1) v).length +
        (prettyMembers k members).length + (indent k).length + 4 := by
  simp only [prettyText, List.length_append, List.length_cons, List.length_nil]
  omega

theorem skipSpace_afterItem_cons (k : Nat) (w : Json) (items : List Json) (rest : List Char) :
    skipSpace (afterItem k (w :: items) rest) =
      ',' :: (indent (k + 1) ++ (prettyText (k + 1) w ++ afterItem k items rest)) := by
  simp only [afterItem, prettyItems, List.append_assoc, List.cons_append]
  rfl

theorem length_prettyItems_cons (k : Nat) (w : Json) (items : List Json) :
    (prettyItems k (w :: items)).length = (indent (k + 1)).length +
      (prettyText (k + 1) w).length + (prettyItems k items).length + 1 := by
  simp only [prettyItems, List.length_append, List.length_cons]
  omega

theorem skipSpace_afterMember_cons (k : Nat) (name : String) (w : Json)
    (members : List (String × Json)) (rest : List Char) :
    skipSpace (afterMember k ((name, w) :: members) rest) =
      ',' :: (indent (k + 1) ++ '"' :: (name.toList.flatMap escapedChar ++
        '"' :: ':' :: ' ' :: (prettyText (k + 1) w ++ afterMember k members rest))) := by
  simp only [afterMember, prettyMembers, stringText, List.append_assoc, List.cons_append,
    List.nil_append]
  rfl

theorem length_prettyMembers_cons (k : Nat) (name : String) (w : Json)
    (members : List (String × Json)) : (prettyMembers k ((name, w) :: members)).length =
      (indent (k + 1)).length + (stringText name).length + (prettyText (k + 1) w).length +
        (prettyMembers k members).length + 3 := by
  simp only [prettyMembers, List.length_append, List.length_cons]
  omega

mutual

/-- A written value is read back, unless it is nested too deep. -/
theorem readAny_written : ∀ (v : Json) (k fuel allowed : Nat) (rest : List Char), v.Whole →
    Ends rest → 2 * (prettyText k v).length ≤ fuel + 1 →
    readAny (fuel + 1) allowed (prettyText k v ++ rest) = within allowed v.depth (v, rest)
  | .null, k, fuel, allowed, rest, _, _, _ => rfl
  | .bool true, k, fuel, allowed, rest, _, _, _ => rfl
  | .bool false, k, fuel, allowed, rest, _, _, _ => rfl
  | .number n, k, fuel, allowed, rest, hv, hrest, _ =>
    readAny_number (hv n List.mem_cons_self) hrest
  | .string s, k, fuel, allowed, rest, _, _, _ => by
    have htext : prettyText k (.string s) ++ rest =
        '"' :: (s.toList.flatMap escapedChar ++ '"' :: rest) := by
      change ('"' :: s.toList.flatMap escapedChar ++ ['"']) ++ rest = _
      rw [List.append_assoc]
      rfl
    rw [htext]
    change (readString _).map _ = _
    rw [readString_written]
    rfl
  | .array [], k, fuel, 0, rest, _, _, _ => rfl
  | .array [], k, fuel, _ + 1, rest, _, _, _ => rfl
  | .object [], k, fuel, 0, rest, _, _, _ => rfl
  | .object [], k, fuel, _ + 1, rest, _, _, _ => rfl
  | .array (v :: items), k, fuel, 0, rest, _, _, _ => rfl
  | .array (v :: items), k, fuel, allowed + 1, rest, hv, _, hfuel => by
    have hfirst := hv.items v List.mem_cons_self
    have hlength := length_prettyText_array k v items
    obtain ⟨fuel, rfl⟩ : ∃ f, fuel = f + 1 := ⟨fuel - 1, by omega⟩
    obtain ⟨c, cs, hc, hopens⟩ := hfirst.opens (k + 1)
    have hskip := (skipSpace_indent (k + 1) _).trans
      (hfirst.skipSpace_eq (k + 1) (afterItem k items rest))
    have hitems := readItems_written v items k fuel allowed rest hfirst
      (fun w hw => hv.items w (List.mem_cons_of_mem _ hw)) (by omega)
    rw [hc, List.cons_append] at hskip hitems
    rw [prettyText_array, hc, List.cons_append, readAny_bracket hskip hopens.noBracket, hitems]
    exact within_succ _ _
  | .object ((name, v) :: members), k, fuel, 0, rest, _, _, _ => rfl
  | .object ((name, v) :: members), k, fuel, allowed + 1, rest, hv, _, hfuel => by
    have hfirst := hv.members (name, v) List.mem_cons_self
    have hlength := length_prettyText_object k name v members
    obtain ⟨fuel, rfl⟩ : ∃ f, fuel = f + 1 := ⟨fuel - 1, by omega⟩
    have hmembers := readMembers_written name v members k fuel allowed rest hfirst
      (fun w hw => hv.members w (List.mem_cons_of_mem _ hw)) (by omega)
    rw [prettyText_object, readAny_brace (skipSpace_indent (k + 1) _) (by decide), hmembers]
    exact within_succ _ _
termination_by v => sizeOf v

theorem readItems_written : ∀ (v : Json) (items : List Json) (k fuel allowed : Nat)
    (rest : List Char), v.Whole → (∀ w ∈ items, w.Whole) →
    2 * ((prettyText (k + 1) v).length + (prettyItems k items).length) ≤ fuel →
    readItems (fuel + 1) allowed (prettyText (k + 1) v ++ afterItem k items rest) =
      within allowed (depthItems (v :: items)) (v :: items, rest)
  | v, [], k, fuel, allowed, rest, hv, _, hfuel => by
    have hpos := hv.length_pos (k + 1)
    obtain ⟨fuel, rfl⟩ : ∃ f, fuel = f + 1 := ⟨fuel - 1, by omega⟩
    have hread := readAny_written v (k + 1) fuel allowed _ hv (ends_afterItem k [] rest) (by omega)
    have hdepth : depthItems [v] = v.depth := Nat.max_eq_left (Nat.zero_le _)
    rw [hdepth]
    by_cases hd : v.depth ≤ allowed
    · rw [within_ok hd] at hread ⊢
      exact readItems_last hread (skipSpace_afterItem_nil k rest)
    · rw [within_error hd] at hread ⊢
      exact readItems_error hread
  | v, w :: items, k, fuel, allowed, rest, hv, hitems, hfuel => by
    have hpos := hv.length_pos (k + 1)
    obtain ⟨fuel, rfl⟩ : ∃ f, fuel = f + 1 := ⟨fuel - 1, by omega⟩
    have hread := readAny_written v (k + 1) fuel allowed _ hv (ends_afterItem k (w :: items) rest)
      (by omega)
    have hw := hitems w List.mem_cons_self
    have hlength := length_prettyItems_cons k w items
    have hrest := readItems_written w items k fuel allowed rest hw
      (fun x hx => hitems x (List.mem_cons_of_mem _ hx)) (by omega)
    have hnext := skipSpace_afterItem_cons k w items rest
    have hskip := (skipSpace_indent (k + 1) _).trans
      (hw.skipSpace_eq (k + 1) (afterItem k items rest))
    change _ = within allowed (max v.depth (depthItems (w :: items))) _
    by_cases hd : v.depth ≤ allowed
    · rw [within_ok hd] at hread
      rw [readItems_next hread hnext, hskip, hrest]
      exact within_max hd _ _
    · rw [within_error hd] at hread
      rw [readItems_error hread, within_error fun h => hd (Nat.max_le.1 h).1]
termination_by v items => sizeOf v + sizeOf items

theorem readMembers_written : ∀ (name : String) (v : Json) (members : List (String × Json))
    (k fuel allowed : Nat) (rest : List Char), v.Whole → (∀ w ∈ members, w.2.Whole) →
    2 * ((prettyText (k + 1) v).length + (prettyMembers k members).length) ≤ fuel →
    readMembers (fuel + 1) allowed ('"' :: (name.toList.flatMap escapedChar ++
        '"' :: ':' :: ' ' :: (prettyText (k + 1) v ++ afterMember k members rest))) =
      within allowed (depthMembers ((name, v) :: members)) ((name, v) :: members, rest)
  | name, v, [], k, fuel, allowed, rest, hv, _, hfuel => by
    have hpos := hv.length_pos (k + 1)
    obtain ⟨fuel, rfl⟩ : ∃ f, fuel = f + 1 := ⟨fuel - 1, by omega⟩
    have hread := readAny_written v (k + 1) fuel allowed _ hv (ends_afterMember k [] rest) (by omega)
    have hname := readString_written name (':' :: ' ' :: (prettyText (k + 1) v ++ afterMember k [] rest))
    have hspace := hv.skipSpace_eq (k + 1) (afterMember k [] rest)
    have hdepth : depthMembers [(name, v)] = v.depth := Nat.max_eq_left (Nat.zero_le _)
    rw [hdepth]
    by_cases hd : v.depth ≤ allowed
    · rw [within_ok hd] at hread ⊢
      exact readMembers_last hname hspace hread (skipSpace_afterMember_nil k rest)
    · rw [within_error hd] at hread ⊢
      exact readMembers_error hname hspace hread
  | name, v, (name', w) :: members, k, fuel, allowed, rest, hv, hmembers, hfuel => by
    have hpos := hv.length_pos (k + 1)
    obtain ⟨fuel, rfl⟩ : ∃ f, fuel = f + 1 := ⟨fuel - 1, by omega⟩
    have hread := readAny_written v (k + 1) fuel allowed _ hv
      (ends_afterMember k ((name', w) :: members) rest) (by omega)
    have hname := readString_written name
      (':' :: ' ' :: (prettyText (k + 1) v ++ afterMember k ((name', w) :: members) rest))
    have hspace := hv.skipSpace_eq (k + 1) (afterMember k ((name', w) :: members) rest)
    have hlength := length_prettyMembers_cons k name' w members
    have hrest := readMembers_written name' w members k fuel allowed rest
      (hmembers (name', w) List.mem_cons_self)
      (fun x hx => hmembers x (List.mem_cons_of_mem _ hx)) (by omega)
    have hnext := skipSpace_afterMember_cons k name' w members rest
    change _ = within allowed (max v.depth (depthMembers ((name', w) :: members))) _
    by_cases hd : v.depth ≤ allowed
    · rw [within_ok hd] at hread
      rw [readMembers_next hname hspace hread hnext, skipSpace_indent]
      exact (congrArg _ hrest).trans (within_max hd _ _)
    · rw [within_error hd] at hread
      rw [readMembers_error hname hspace hread, within_error fun h => hd (Nat.max_le.1 h).1]
termination_by _ v members => sizeOf v + sizeOf members

end

theorem read_pretty (hv : v.Whole) : read (pretty v) = within maxDepth v.depth v := by
  have htext : (pretty v).toList = prettyText 0 v := String.toList_ofList
  have hskip := hv.skipSpace_eq 0 []
  have hread := readAny_written v 0 (2 * (prettyText 0 v).length + 1) maxDepth [] hv (.inl rfl)
    (by omega)
  rw [List.append_nil] at hskip hread
  unfold read
  dsimp only
  rw [htext, hskip, hread]
  by_cases hd : v.depth ≤ maxDepth
  · rw [within_ok hd, within_ok hd]
    rfl
  · rw [within_error hd, within_error hd]
    rfl

end StackKeeper.Json

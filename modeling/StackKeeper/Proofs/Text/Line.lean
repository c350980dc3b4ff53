import StackKeeper.Text.Line
import StackKeeper.Proofs.Text.Blank
import StackKeeper.Proofs.Text.Phrase
import StackKeeper.Proofs.Text.Utf8

/-!
# What can be told line by line

A phrase without line ends is in a text exactly if it is in one of the lines, however the lines came
about: bytes split first and each line read then, or lines put together again. The lines of a text
are those up to a line feed and those behind it.
-/

namespace StackKeeper.Text

variable {f : List Char → Bool}

/-- What is found in a text is found on one side of each character of a line end. -/
structure Linewise (f : List Char → Bool) : Prop where
  nil : f [] = false
  feed (l r : List Char) : f (l ++ '\n' :: r) = (f l || f r)
  ret (l r : List Char) : f (l ++ '\r' :: r) = (f l || f r)

theorem linewise_any {α : Type} {xs : List α} {g : α → List Char → Bool}
    (hg : ∀ x ∈ xs, Linewise (g x)) : Linewise fun cs => xs.any fun x => g x cs := by
  induction xs with
  | nil => exact ⟨rfl, fun _ _ => rfl, fun _ _ => rfl⟩
  | cons x xs ih =>
    have hx := hg x List.mem_cons_self
    have hxs := ih fun y hy => hg y (List.mem_cons_of_mem x hy)
    constructor
    · simp only [List.any_cons, hx.nil, hxs.nil, Bool.or_self]
    · intro l r
      simp only [List.any_cons, hx.feed, hxs.feed, Bool.or_assoc, Bool.or_left_comm]
    · intro l r
      simp only [List.any_cons, hx.ret, hxs.ret, Bool.or_assoc, Bool.or_left_comm]

theorem hasPhraseFolded_iff {phrase : String} {cs : List Char} :
    hasPhraseFolded phrase cs = true ↔ phrase.toList <:+: cs.map foldCase :=
  hasPhrase_iff

theorem hasPhraseFolded_append_cons {phrase : String} {c : Char} (hc : foldCase c ∉ phrase.toList)
    (l r : List Char) : hasPhraseFolded phrase (l ++ c :: r) =
      (hasPhraseFolded phrase l || hasPhraseFolded phrase r) := by
  rw [Bool.eq_iff_iff, Bool.or_eq_true, hasPhraseFolded_iff, hasPhraseFolded_iff,
    hasPhraseFolded_iff, List.map_append, List.map_cons]
  constructor
  · exact infix_append_cons hc
  · rintro (h | h)
    · exact h.trans (List.prefix_append _ _).isInfix
    · exact h.trans (List.suffix_append_of_suffix (List.suffix_cons _ _)).isInfix

theorem linewise_hasPhraseFolded {phrase : String} (hne : phrase.toList ≠ [])
    (hn : '\n' ∉ phrase.toList) (hr : '\r' ∉ phrase.toList) :
    Linewise (hasPhraseFolded phrase) := by
  constructor
  · rw [Bool.eq_false_iff]
    intro h
    exact hne (List.infix_nil.1 (hasPhraseFolded_iff.1 h))
  · exact hasPhraseFolded_append_cons hn
  · exact hasPhraseFolded_append_cons hr

/-! ## Lines -/

theorem Linewise.intercalate (hf : Linewise f) (ls : List String) :
    f ("\n".intercalate ls).toList = ls.any fun l => f l.toList := by
  rw [String.toList_intercalate]
  induction ls with
  | nil => exact hf.nil
  | cons l ls ih =>
    cases ls with
    | nil => simp
    | cons l' ls =>
      rw [List.map_cons, List.map_cons, List.intercalate_cons_cons, ← List.map_cons,
        List.append_assoc, List.any_cons, ← ih]
      exact hf.feed l.toList _

theorem Linewise.dropReturn (hf : Linewise f) (line : List Char) : f (dropReturn line) = f line := by
  unfold Text.dropReturn
  split
  next hlast =>
    obtain ⟨l, rfl⟩ := List.getLast?_eq_some_iff.1 hlast
    rw [List.dropLast_concat, hf.ret, hf.nil, Bool.or_false]
  next => rfl

theorem Linewise.linesFrom (hf : Linewise f) (line cs : List Char) :
    f (line.reverse ++ cs) = (linesFrom line cs).any f := by
  induction cs generalizing line with
  | nil => cases line <;> simp [Text.linesFrom, hf.nil]
  | cons c rest ih =>
    rw [Text.linesFrom]
    by_cases hc : c = '\n'
    · rw [if_pos hc, hc, hf.feed, List.any_cons, hf.dropReturn, ← ih []]
      rfl
    · rw [if_neg hc, ← ih (c :: line), List.reverse_cons, List.append_assoc, List.singleton_append]

theorem Linewise.lines (hf : Linewise f) (cs : List Char) : f cs = (lines cs).any f :=
  hf.linesFrom [] cs

/-- A line feed ends a line, to which a carriage return in front does not belong. -/
theorem byteLinesFrom_feed (line rest : Bytes) :
    ∃ l, byteLinesFrom line (10 :: rest) = l :: byteLinesFrom [] rest ∧
      (line.reverse = l ∨ line.reverse = l ++ [13]) := by
  rw [byteLinesFrom.eq_def]
  dsimp only
  simp only [BEq.rfl, if_true]
  split
  next before => exact ⟨before.reverse, rfl, .inr List.reverse_cons⟩
  next => exact ⟨line.reverse, rfl, .inl rfl⟩

theorem byteLinesFrom_cons {b : UInt8} (hb : b ≠ 10) (line rest : Bytes) :
    byteLinesFrom line (b :: rest) = byteLinesFrom (b :: line) rest := by
  rw [byteLinesFrom.eq_def]
  dsimp only
  rw [if_neg (by simpa using hb)]

theorem Linewise.byteLinesFrom (hf : Linewise f) (line bytes : Bytes) :
    f (Utf8.decodeLossy (line.reverse ++ bytes)).toList =
      (byteLinesFrom line bytes).any fun l => f (Utf8.decodeLossy l).toList := by
  have hempty : f (Utf8.decodeLossy []).toList = false := by
    simpa [Utf8.decodeLossy, Utf8.scan] using hf.nil
  induction bytes generalizing line with
  | nil =>
    rw [Text.byteLinesFrom.eq_def, List.append_nil]
    cases line with
    | nil => simpa using hempty
    | cons b line => simp
  | cons b rest ih =>
    by_cases hb : b = 10
    · subst hb
      obtain ⟨l, heq, hl⟩ := byteLinesFrom_feed line rest
      have hline : f (Utf8.decodeLossy line.reverse).toList = f (Utf8.decodeLossy l).toList := by
        rcases hl with hl | hl
        · rw [hl]
        · rw [hl, Utf8.toList_decodeLossy_append_cons (by decide)]
          refine (hf.ret _ _).trans ?_
          rw [hempty, Bool.or_false]
      have hrest := ih []
      rw [List.reverse_nil, List.nil_append] at hrest
      rw [heq, List.any_cons, ← hrest, ← hline, Utf8.toList_decodeLossy_append_cons (by decide)]
      exact hf.feed _ _
    · rw [byteLinesFrom_cons hb, ← ih (b :: line), List.reverse_cons, List.append_assoc,
        List.singleton_append]

theorem Linewise.byteLines (hf : Linewise f) (bytes : Bytes) : f (Utf8.decodeLossy bytes).toList =
    (Text.byteLinesFrom [] bytes).any fun l => f (Utf8.decodeLossy l).toList :=
  hf.byteLinesFrom [] bytes

/-! ## Line by line -/

variable {cs l r : List Char}

theorem linesFrom_feed (hl : '\n' ∉ l) (line r : List Char) :
    linesFrom line (l ++ '\n' :: r) = dropReturn (line.reverse ++ l) :: lines r := by
  induction l generalizing line with
  | nil =>
    rw [List.nil_append, linesFrom, if_pos rfl, List.append_nil]
    rfl
  | cons c l ih =>
    have hc : c ≠ '\n' := Ne.symm (List.ne_of_not_mem_cons hl)
    rw [List.cons_append, linesFrom, if_neg hc, ih (List.not_mem_of_not_mem_cons hl),
      List.reverse_cons, List.append_assoc, List.singleton_append]

theorem lines_feed (hl : '\n' ∉ l) (r : List Char) :
    lines (l ++ '\n' :: r) = dropReturn l :: lines r :=
  linesFrom_feed hl [] r

theorem linesFrom_last (hl : '\n' ∉ l) (line : List Char) :
    linesFrom line l = if (line.reverse ++ l).isEmpty then [] else [line.reverse ++ l] := by
  induction l generalizing line with
  | nil => simp [linesFrom]
  | cons c l ih =>
    have hc : c ≠ '\n' := Ne.symm (List.ne_of_not_mem_cons hl)
    rw [linesFrom, if_neg hc, ih (List.not_mem_of_not_mem_cons hl), List.reverse_cons,
      List.append_assoc, List.singleton_append]

theorem lines_last (hl : '\n' ∉ l) (hne : l ≠ []) : lines l = [l] := by
  have hlast := linesFrom_last hl []
  rwa [List.reverse_nil, List.nil_append, if_neg (by simpa using hne)] at hlast

/-- A carriage return at the end of a line is one of the blanks there. -/
theorem trimChars_dropReturn (l : List Char) : trimChars (dropReturn l) = trimChars l := by
  unfold dropReturn
  split
  next hlast =>
    obtain ⟨l, rfl⟩ := List.getLast?_eq_some_iff.1 hlast
    obtain ⟨a, b, hl, ha, hb, htrimmed⟩ := exists_trimChars l
    have hret : Blank ['\r'] := List.forall_mem_singleton.2 rfl
    have hsplit : l ++ ['\r'] = a ++ (trimChars l ++ (b ++ ['\r'])) := by
      rw [← List.append_assoc (trimChars l), ← List.append_assoc, ← hl]
    rw [List.dropLast_concat, hsplit, trimChars_append ha (blank_append.2 ⟨hb, hret⟩) htrimmed]
  next => rfl

theorem blank_dropReturn : Blank (dropReturn l) ↔ Blank l := by
  rw [← trimChars_eq_nil_iff, trimChars_dropReturn, trimChars_eq_nil_iff]

theorem takeWhile_eq_self {p : Char → Bool} (h : ∀ c ∈ cs, p c = true) : cs.takeWhile p = cs := by
  have hwhole : (cs ++ []).takeWhile p = cs ++ [].takeWhile p := List.takeWhile_append_of_pos h
  rwa [List.append_nil, List.takeWhile_nil, List.append_nil] at hwhole

theorem takeWhile_line (hl : '\n' ∉ l) : l.takeWhile (· != '\n') = l :=
  takeWhile_eq_self fun _ hc => bne_iff_ne.2 fun h => hl (h ▸ hc)

/-- Up to the end of its first line a text is blank. -/
def EndsLine (cs : List Char) : Prop := Blank (cs.takeWhile (· != '\n'))

theorem endsLine_feed (hl : '\n' ∉ l) : EndsLine (l ++ '\n' :: r) ↔ Blank l := by
  rw [EndsLine, List.takeWhile_append, takeWhile_line hl, if_pos rfl,
    List.takeWhile_cons_of_neg (by decide), List.append_nil]

theorem endsLine_last (hl : '\n' ∉ l) : EndsLine l ↔ Blank l := by
  rw [EndsLine, takeWhile_line hl]

theorem EndsLine.first (h : EndsLine cs) : ∀ c, cs.head? = some c → isBlank c = true := by
  intro c hc
  cases cs with
  | nil => cases hc
  | cons d cs =>
    obtain rfl := Option.some.inj hc
    by_cases hd : d = '\n'
    · subst hd
      rfl
    · apply h
      simp [hd]

theorem endsLine_iff : EndsLine cs ↔
    '\n' ∈ cs.takeWhile isBlank ∨ (cs.takeWhile isBlank).length = cs.length := by
  have hall : ∀ {cs : List Char}, (cs.takeWhile isBlank).length = cs.length ↔ Blank cs := by
    intro cs
    constructor
    · intro h
      rw [← (List.takeWhile_prefix isBlank).eq_of_length h]
      exact blank_takeWhile cs
    · intro h
      rw [takeWhile_eq_self h]
  rw [hall]
  by_cases hcs : '\n' ∈ cs
  · obtain ⟨l, r, rfl, hl⟩ := List.eq_append_cons_of_mem hcs
    rw [endsLine_feed hl]
    constructor
    · intro h
      left
      rw [List.takeWhile_append_of_pos h, List.takeWhile_cons_of_pos (by decide)]
      simp
    · rintro (h | h)
      · rw [List.takeWhile_append] at h
        split at h
        next hfull => exact hall.1 hfull
        next => exact absurd ((List.takeWhile_prefix isBlank).subset h) hl
      · exact (blank_append.1 h).1
  · rw [endsLine_last hcs]
    exact (or_iff_right fun h => hcs ((List.takeWhile_prefix isBlank).subset h)).symm

end StackKeeper.Text

import StackKeeper.Kdl.Node
import StackKeeper.Proofs.Kdl.Scalar

/-!
# Documents that were written

A document whose nodes have one argument each can be written with a node on each line. It is read as
the nodes it was written from, unless a number is too large for a document.
-/

namespace StackKeeper.Kdl

variable {c : Char} {cs rest : List Char} {fuel : Nat} {name : String}

/-- An argument that can be written. -/
inductive Argument where
  | text (s : String)
  | number (i : Int)
  deriving DecidableEq, Repr

namespace Argument

def value : Argument → Value
  | text s => .string s
  | number i => .integer i

/-- Whether a document has room for the argument. -/
def Fits : Argument → Prop
  | text _ => True
  | number i => -(Nat.pow 2 127 : Int) ≤ i ∧ i < Nat.pow 2 127

instance (a : Argument) : Decidable a.Fits :=
  match a with
  | text _ => inferInstanceAs (Decidable True)
  | number _ => inferInstanceAs (Decidable (_ ∧ _))

def written : Argument → List Char
  | text s => quotedText s
  | number i => (toString i).toList

/-- A line with a node that has this argument. -/
def line (a : Argument) (name : String) : List Char :=
  name.toList ++ ' ' :: (a.written ++ ['\n'])

def node (a : Argument) (name : String) : Node := ⟨name, [⟨none, a.value⟩], []⟩

end Argument

/-- A document with a line for each node. -/
def written (nodes : List (String × Argument)) : List Char :=
  nodes.flatMap fun n => n.2.line n.1

variable {nodes : List (String × Argument)}

/-! ## Arguments that are read -/

theorem skipNodeSpace_of_ne (hc : isSpace c = false) (hback : c ≠ '\\') (hslash : c ≠ '/')
    (fuel : Nat) (cs : List Char) : skipNodeSpace fuel (c :: cs) = some (c :: cs) := by
  cases fuel with
  | zero => rfl
  | succ fuel =>
    unfold skipNodeSpace
    split
    next h => exact absurd (List.cons.inj h).1 hback
    next h => exact absurd (List.cons.inj h).1 hslash
    next h =>
      obtain ⟨rfl, rfl⟩ := List.cons.inj h
      rw [if_neg (by rw [hc]; nofun)]
    next h => cases h

theorem skipLineSpace_of_isBare (hc : isBare c = true) (fuel : Nat) (cs : List Char) :
    skipLineSpace fuel (c :: cs) = some (c :: cs) := by
  cases fuel with
  | zero => rfl
  | succ fuel =>
    unfold skipLineSpace
    split
    next h => exact absurd (List.cons.inj h).1 (ne_of_isBare hc rfl)
    next h => exact absurd (List.cons.inj h).1 (ne_of_isBare hc rfl)
    next h => exact absurd (List.cons.inj h).1 (ne_of_isBare hc rfl)
    next h =>
      obtain ⟨rfl, rfl⟩ := List.cons.inj h
      rw [isSpace_of_isBare hc, isNewline_of_isBare hc]
      rfl
    next h => cases h

def openings : List Char := ['"', '-', '0', '1', '2', '3', '4', '5', '6', '7', '8', '9']

theorem exists_opening (a : Argument) : ∃ c cs, a.written = c :: cs ∧ c ∈ openings := by
  cases a with
  | text s => exact ⟨_, _, rfl, List.mem_cons_self⟩
  | number i =>
    have hdigit : ∀ d < 10, d.digitChar ∈ openings := by decide
    obtain ⟨c, cs, hn⟩ := Text.exists_cons_toDigits i.natAbs
    obtain ⟨d, hd, rfl⟩ := Text.exists_digit_of_mem_toDigits (b := 10) (n := i.natAbs) (by decide)
      (hn ▸ List.mem_cons_self)
    rw [Argument.written, toList_toString, numberText, hn]
    split
    · exact ⟨_, _, rfl, by decide⟩
    · exact ⟨_, _, rfl, hdigit d hd⟩

/-- The first character of an argument is no space and no mark between the parts of a document. -/
theorem apart_of_opening (hc : c ∈ openings) : isSpace c = false ∧ isNewline c = false ∧
    c ≠ '\\' ∧ c ≠ '/' ∧ c ≠ ';' ∧ c ≠ '(' ∧ c ≠ '\x7b' ∧ c ≠ '\x7d' := by
  have hall : openings.all (fun c => !isSpace c && !isNewline c && c != '\\' && c != '/' &&
      c != ';' && c != '(' && c != '\x7b' && c != '\x7d') = true := by
    decide
  simpa [and_assoc] using List.all_eq_true.1 hall c hc

theorem nodeSpace_opening (hc : c ∈ openings) (cs : List Char) :
    nodeSpace (' ' :: c :: cs) = some (c :: cs) := by
  obtain ⟨hspace, -, hback, hslash, -⟩ := apart_of_opening hc
  exact skipNodeSpace_of_ne hspace hback hslash _ _

theorem endsNode_opening (hc : c ∈ openings) (cs : List Char) : endsNode (c :: cs) = false := by
  obtain ⟨-, hnewline, -, hslash, hsemicolon, -, -, hbrace⟩ := apart_of_opening hc
  unfold endsNode
  split
  next h => cases h
  next h => exact absurd (List.cons.inj h).1 hsemicolon
  next h => exact absurd (List.cons.inj h).1 hbrace
  next h => exact absurd (List.cons.inj h).1 hslash
  next => rw [afterNewline?_eq_none hnewline]; rfl

theorem afterType?_of_ne (hc : c ≠ '(') : afterType? (c :: cs) = some (c :: cs) := by
  unfold afterType?
  split
  next h => exact absurd (List.cons.inj h).1 hc
  next => rfl

theorem entry?_written (a : Argument) (rest : List Char) : entry? (a.written ++ '\n' :: rest) =
    if a.Fits then some (⟨none, a.value⟩, '\n' :: rest) else none := by
  have hequals : afterEquals? ('\n' :: rest) = none := rfl
  cases a with
  | text s =>
    rw [Argument.written, entry?, string?_quotedText s (by decide)]
    dsimp only
    rw [hequals]
    exact (if_pos trivial).symm
  | number i =>
    have htype : afterType? (numberText i ++ '\n' :: rest) =
        some (numberText i ++ '\n' :: rest) := by
      obtain ⟨c, cs, hi, hc⟩ := exists_opening (.number i)
      obtain ⟨-, -, -, -, -, hparen, -⟩ := apart_of_opening hc
      rw [Argument.written, toList_toString] at hi
      rw [hi, List.cons_append, afterType?_of_ne hparen]
    rw [Argument.written, toList_toString, entry?, string?_numberText]
    dsimp only
    rw [typedValue?, htype, Option.bind_eq_bind, Option.bind_some, scalar?_numberText]
    by_cases hi : (Argument.number i).Fits
    · have hint : integer? i = some (.integer i) := if_pos hi
      rw [if_pos hi, hint]
      rfl
    · have hint : integer? i = none := if_neg hi
      rw [if_neg hi, hint]
      rfl

theorem parts?_written (fuel : Nat) (a : Argument) (rest : List Char) :
    parts? (fuel + 2) .empty (' ' :: (a.written ++ '\n' :: rest)) =
      if a.Fits then some (⟨[⟨none, a.value⟩], none, false⟩, '\n' :: rest) else none := by
  have hend : ∀ e, parts? (fuel + 1) ⟨[e], none, false⟩ ('\n' :: rest) =
    some (⟨[e], none, false⟩, '\n' :: rest) := fun e => rfl
  have hentry := entry?_written a rest
  obtain ⟨c, cs, ha, hc⟩ := exists_opening a
  obtain ⟨-, -, -, hslash, -, -, hbrace, -⟩ := apart_of_opening hc
  rw [ha, List.cons_append] at hentry ⊢
  rw [parts?, nodeSpace_opening hc]
  simp only [Option.bind_eq_bind, Option.bind_some, endsNode_opening hc, Bool.false_eq_true,
    if_false]
  split
  next h => exact absurd (List.cons.inj h).1 hslash
  next h => exact absurd (List.cons.inj h).1 hbrace
  next =>
    rw [if_neg (by simp [Parts.empty]), hentry]
    by_cases ha : a.Fits
    · rw [if_pos ha, if_pos ha]
      exact hend _
    · rw [if_neg ha, if_neg ha]
      rfl

/-! ## Lines that are read -/

theorem exists_line (hname : isBareName name = true) (a : Argument) :
    ∃ c cs, a.line name = c :: cs ∧ isBare c = true := by
  simp only [isBareName, Bool.and_eq_true, Bool.not_eq_true', List.all_eq_true] at hname
  obtain ⟨⟨⟨hbare, hempty⟩, -⟩, -⟩ := hname
  cases hcs : name.toList with
  | nil =>
    rw [hcs] at hempty
    cases hempty
  | cons c cs =>
    rw [Argument.line, hcs]
    exact ⟨_, _, rfl, hbare c (hcs ▸ List.mem_cons_self)⟩

theorem node?_line (fuel : Nat) (hname : isBareName name = true) (a : Argument)
    (rest : List Char) : node? (fuel + 3) (a.line name ++ rest) =
      if a.Fits then some (a.node name, '\n' :: rest) else none := by
  have htype : afterType? (a.line name ++ rest) = some (a.line name ++ rest) := by
    obtain ⟨c, cs, hline, hc⟩ := exists_line hname a
    rw [hline, List.cons_append, afterType?_of_ne (ne_of_isBare hc rfl)]
  have hline : a.line name ++ rest = name.toList ++ ' ' :: (a.written ++ '\n' :: rest) := by
    simp [Argument.line]
  rw [node?, htype, hline]
  simp only [Option.bind_eq_bind, Option.bind_some, string?_name hname (c := ' ') rfl,
    parts?_written]
  by_cases ha : a.Fits
  · rw [if_pos ha, if_pos ha]
    rfl
  · rw [if_neg ha, if_neg ha]
    rfl

theorem nodes?_line (hname : isBareName name = true) (a : Argument) (rest : List Char) :
    nodes? (fuel + 4) (a.line name ++ rest) =
      if a.Fits then (nodes? (fuel + 3) rest).map fun (l, after) => (a.node name :: l, after)
      else none := by
  have hnode := node?_line fuel hname a rest
  obtain ⟨c, cs, hline, hc⟩ := exists_line hname a
  rw [hline, List.cons_append] at hnode ⊢
  rw [nodes?, lineSpace, skipLineSpace_of_isBare hc]
  simp only [Option.bind_eq_bind, Option.bind_some]
  split
  next h => cases h
  next h => exact absurd (List.cons.inj h).1 (ne_of_isBare hc rfl)
  next h => exact absurd (List.cons.inj h).1 (ne_of_isBare hc rfl)
  next =>
    rw [hnode]
    by_cases ha : a.Fits
    · rw [if_pos ha, if_pos ha]
      change (nodes? (fuel + 3) rest).bind _ = _
      cases nodes? (fuel + 3) rest <;> rfl
    · rw [if_neg ha, if_neg ha]
      rfl

theorem nodes?_written (hnames : ∀ n ∈ nodes, isBareName n.1 = true)
    (hfuel : nodes.length + 4 ≤ fuel) : nodes? fuel (written nodes) =
      if ∀ n ∈ nodes, n.2.Fits then some (nodes.map fun n => n.2.node n.1, []) else none := by
  induction nodes generalizing fuel with
  | nil =>
    obtain ⟨fuel, rfl⟩ := Nat.exists_eq_add_of_le' hfuel
    rfl
  | cons n nodes ih =>
    obtain ⟨fuel, rfl⟩ := Nat.exists_eq_add_of_le' (Nat.le_trans (Nat.le_add_left 4 _) hfuel)
    rw [List.length_cons] at hfuel
    have ih := ih (fun m hm => hnames m (List.mem_cons_of_mem _ hm)) (show _ ≤ fuel + 3 by omega)
    rw [written] at ih
    rw [written, List.flatMap_cons, nodes?_line (hnames n List.mem_cons_self), ih]
    by_cases hall : ∀ m ∈ n :: nodes, m.2.Fits
    · obtain ⟨hn, hnodes⟩ := List.forall_mem_cons.1 hall
      rw [if_pos hn, if_pos hnodes, if_pos hall]
      rfl
    · rw [if_neg hall]
      by_cases hn : n.2.Fits
      · rw [if_pos hn, if_neg fun hnodes => hall (List.forall_mem_cons.2 ⟨hn, hnodes⟩)]
        rfl
      · rw [if_neg hn]

theorem length_le_written (hnames : ∀ n ∈ nodes, isBareName n.1 = true) :
    nodes.length ≤ (written nodes).length := by
  induction nodes with
  | nil => exact Nat.le_refl _
  | cons n nodes ih =>
    have ih := ih fun m hm => hnames m (List.mem_cons_of_mem _ hm)
    obtain ⟨c, cs, hline, -⟩ := exists_line (hnames n List.mem_cons_self) n.2
    rw [written] at ih ⊢
    rw [List.flatMap_cons, hline, List.length_append, List.length_cons, List.length_cons]
    omega

theorem document?_eq_ok {l : List Node} (hc : c ≠ '\ufeff')
    (h : nodes? (depth (c :: cs).length) (c :: cs) = some (l, [])) :
    document? (String.ofList (c :: cs)) = .ok l := by
  rw [List.length_cons] at h
  simp [document?, hc, h]

theorem document?_eq_error (hc : c ≠ '\ufeff')
    (h : nodes? (depth (c :: cs).length) (c :: cs) = none) :
    document? (String.ofList (c :: cs)) = .error .unreadable := by
  rw [List.length_cons] at h
  simp [document?, hc, h]

/-- A document is read as the nodes it was written from. It is refused if a number of it is too
large. -/
theorem document?_written (hnames : ∀ n ∈ nodes, isBareName n.1 = true) :
    document? (String.ofList (written nodes)) =
      if ∀ n ∈ nodes, n.2.Fits then .ok (nodes.map fun n => n.2.node n.1)
      else .error .unreadable := by
  cases nodes with
  | nil => rfl
  | cons n nodes =>
    have hlength := length_le_written hnames
    have hfuel : (n :: nodes).length + 4 ≤ depth (written (n :: nodes)).length := by
      rw [depth]
      omega
    have hnodes := nodes?_written hnames hfuel
    obtain ⟨c, cs, hline, hc⟩ := exists_line (hnames n List.mem_cons_self) n.2
    rw [written, List.flatMap_cons, hline, List.cons_append] at hnodes ⊢
    have hmark : c ≠ '\ufeff' := ne_of_isBare hc rfl
    by_cases hall : ∀ m ∈ n :: nodes, m.2.Fits
    · rw [if_pos hall] at hnodes ⊢
      exact document?_eq_ok hmark hnodes
    · rw [if_neg hall] at hnodes ⊢
      exact document?_eq_error hmark hnodes

end StackKeeper.Kdl

import Mathlib.Data.List.Basic
import StackKeeper.Proofs.Source.Preparation
import StackKeeper.Proofs.Stack.Acceptance

/-!
# The directory of a project

A directory is taken exactly if it is relative and has no step up. What is made of it are its names
alone, so the project of a clone is in the clone, and nowhere else.
-/

namespace StackKeeper

open FileTree (IsName follow)

namespace Path

variable {p base : String} {piece : List Char}

/-! ## Names -/

/-- Nothing and a single dot between slashes stay in place. -/
def stays (piece : List Char) : Bool := piece.isEmpty || piece == ['.']

/-- The names in a path: the pieces between its slashes that do not stay in place. -/
def names (p : String) : List String :=
  ((Text.splitOnChar '/' p.toList).filter (!stays ·)).map String.ofList

theorem partOf_eq (h : piece ≠ ['.', '.']) : partOf piece =
    if stays piece then none else some (.normal (String.ofList piece)) := by
  have hdots : ¬(piece == ['.', '.']) = true := by simpa using h
  rw [partOf, if_neg hdots]
  rfl

theorem partOf_name {name : String} (hn : IsName name) :
    partOf name.toList = some (.normal name) := by
  have hempty : name.toList ≠ [] := fun h => hn.nonempty (String.toList_eq_nil_iff.1 h)
  have hdot : name.toList ≠ ['.'] := fun h => hn.ne_dot (String.toList_inj.1 h)
  have hdots : name.toList ≠ ['.', '.'] := fun h => hn.ne_dots (String.toList_inj.1 h)
  rw [partOf_eq hdots, stays, List.isEmpty_eq_false_iff.2 hempty, beq_false_of_ne hdot]
  simp

theorem filterMap_partOf {pieces : List (List Char)} (h : ['.', '.'] ∉ pieces) :
    pieces.filterMap partOf = ((pieces.filter (!stays ·)).map String.ofList).map .normal := by
  induction pieces with
  | nil => rfl
  | cons piece pieces ih =>
    rw [List.mem_cons, not_or] at h
    have hpart := partOf_eq (Ne.symm h.1)
    cases hstays : stays piece with
    | true =>
      rw [hstays] at hpart
      rw [List.filterMap_cons_none hpart, List.filter_cons_of_neg (by simp [hstays]), ih h.2]
    | false =>
      rw [hstays] at hpart
      rw [List.filterMap_cons_some hpart, List.filter_cons_of_pos (by simp [hstays]), ih h.2]
      rfl

theorem Inside.filterMap_partOf (h : Inside p) :
    (Text.splitOnChar '/' p.toList).filterMap partOf = (names p).map .normal :=
  Path.filterMap_partOf h.2

theorem Inside.isName (h : Inside p) : ∀ n ∈ names p, IsName n := by
  intro n hn
  obtain ⟨piece, hm, rfl⟩ := List.mem_map.1 hn
  obtain ⟨hm, hstays⟩ := List.mem_filter.1 hm
  simp only [stays, Bool.not_eq_true', Bool.or_eq_false_iff, List.isEmpty_eq_false_iff,
    beq_eq_false_iff_ne] at hstays
  have hne : ∀ cs : List Char, piece ≠ cs → String.ofList piece ≠ String.ofList cs := fun _ hne h =>
    hne (String.ofList_inj.1 h)
  refine ⟨hne [] hstays.1, ?_, hne ['.'] hstays.2, hne ['.', '.'] fun h' => h.2 (h' ▸ hm)⟩
  rw [String.toList_ofList]
  exact Text.not_mem_of_mem_splitOnChar piece hm

/-! ## Parts -/

theorem parts_eq {first : List Char} {more : List (List Char)}
    (hs : Text.splitOnChar '/' p.toList = first :: more) (hp : p ≠ "") : parts p =
      (if first = [] then [Part.root] else if first = ['.'] then [Part.current]
        else (partOf first).toList) ++ more.filterMap partOf := by
  have hempty : p.isEmpty = false := String.isEmpty_eq_false_iff.2 hp
  unfold parts
  rw [hs]
  cases first with
  | nil => simp [hempty]
  | cons c first => simp

theorem parts_append_slash (base q : String) : parts (base ++ "/" ++ q) =
    parts (base ++ "/") ++ (Text.splitOnChar '/' q.toList).filterMap partOf := by
  obtain ⟨first, more, hs⟩ := List.exists_cons_of_ne_nil (Text.splitOnChar_ne_nil '/' base.toList)
  have hsplit : ∀ q : String, Text.splitOnChar '/' (base ++ "/" ++ q).toList =
      first :: (more ++ Text.splitOnChar '/' q.toList) := by
    intro q
    have htext : (base ++ "/" ++ q).toList = base.toList ++ '/' :: q.toList := by simp
    rw [htext, Text.splitOnChar_append, hs, List.cons_append]
  have hslash : base ++ "/" ++ "" = base ++ "/" := String.append_empty
  have hfront := parts_eq (hsplit "") (by simp)
  rw [hslash] at hfront
  have hnothing : (Text.splitOnChar '/' "".toList).filterMap partOf = [] := rfl
  rw [parts_eq (hsplit q) (by simp), hfront, List.filterMap_append, List.filterMap_append,
    hnothing, List.append_nil, List.append_assoc]

theorem parts_slash (h : base ≠ "") : parts (base ++ "/") = parts base := by
  obtain ⟨first, more, hs⟩ := List.exists_cons_of_ne_nil (Text.splitOnChar_ne_nil '/' base.toList)
  have hsplit : Text.splitOnChar '/' (base ++ "/").toList = first :: (more ++ [[]]) := by
    have htext : (base ++ "/").toList = base.toList ++ '/' :: [] := by simp
    rw [htext, Text.splitOnChar_append, hs, List.cons_append]
    rfl
  have hnothing : [([] : List Char)].filterMap partOf = [] := rfl
  rw [parts_eq hsplit (by simp), parts_eq hs h, List.filterMap_append, hnothing, List.append_nil]

theorem parts_join (hp : isAbsolute p = false) (hbase : base ≠ "") : parts (join base p) =
    parts base ++ (Text.splitOnChar '/' p.toList).filterMap partOf := by
  have hempty : base.isEmpty = false := String.isEmpty_eq_false_iff.2 hbase
  unfold join
  rw [if_neg (by simp [hp]), hempty, Bool.false_or]
  split
  next hslash =>
    obtain ⟨l, hl⟩ := List.getLast?_eq_some_iff.1 (beq_iff_eq.1 hslash)
    have hb : base = String.ofList l ++ "/" := by
      apply String.toList_inj.1
      simp [hl]
    rw [hb]
    exact parts_append_slash _ p
  next => rw [parts_append_slash, parts_slash hbase]

/-- A path that stays inside has its names for parts, behind a dot in front of everything. -/
theorem Inside.parts_eq (h : Inside p) : ∃ front : List Part, (∀ part ∈ front, part = .current) ∧
    parts p = front ++ (names p).map .normal := by
  rw [← h.filterMap_partOf]
  by_cases hp : p = ""
  · subst hp
    exact ⟨[], nofun, rfl⟩
  obtain ⟨first, more, hs⟩ := List.exists_cons_of_ne_nil (Text.splitOnChar_ne_nil '/' p.toList)
  have hfirst : first ≠ [] := by
    rintro rfl
    have htext := Text.intercalate_splitOnChar '/' p.toList
    rw [hs] at htext
    cases more with
    | nil => exact hp (String.toList_eq_nil_iff.1 htext.symm)
    | cons l more =>
      have habs := h.1
      rw [isAbsolute, ← htext, List.intercalate_cons_cons] at habs
      cases habs
  rw [Path.parts_eq hs hp, hs, if_neg hfirst]
  by_cases hdot : first = ['.']
  · subst hdot
    exact ⟨[.current], by simp, rfl⟩
  · refine ⟨[], nofun, ?_⟩
    rw [if_neg hdot, List.nil_append, List.filterMap_cons]
    cases partOf first <;> rfl

/-! ## Names with slashes between them -/

section Joined

variable {names : List String} (hn : ∀ n ∈ names, IsName n)
include hn

theorem splitOnChar_names (hne : names ≠ []) :
    Text.splitOnChar '/' ("/".intercalate names).toList = names.map String.toList := by
  have hslash : ∀ l ∈ names.map String.toList, '/' ∉ l :=
    List.forall_mem_map.2 fun n hm => (hn n hm).noSlash
  have htext : ("/".intercalate names).toList = ['/'].intercalate (names.map String.toList) :=
    String.toList_intercalate
  rw [htext, Text.splitOnChar_intercalate (by simpa using hne) hslash]

theorem spells_names (hne : names ≠ []) : FileTree.Spells ("/".intercalate names) names where
  eq := by
    rw [splitOnChar_names hn hne, List.map_map]
    exact (List.map_congr_left fun n _ => String.ofList_toList).trans (List.map_id _)
  isName := hn

theorem isAbsolute_names : isAbsolute ("/".intercalate names) = false := by
  by_cases hne : names = []
  · subst hne
    rfl
  · exact (spells_names hn hne).isAbsolute_eq

theorem filterMap_partOf_names :
    (Text.splitOnChar '/' ("/".intercalate names).toList).filterMap partOf = names.map .normal := by
  by_cases hne : names = []
  · subst hne
    rfl
  · rw [splitOnChar_names hn hne, List.filterMap_map]
    exact List.filterMap_eq_map_iff_forall_eq_some.2 fun n hm => partOf_name (hn n hm)

theorem parts_names : parts ("/".intercalate names) = names.map .normal := by
  cases names with
  | nil => rfl
  | cons name names =>
    have hs := splitOnChar_names hn (List.cons_ne_nil name names)
    have hfilter := filterMap_partOf_names hn
    have hne := (spells_names hn (List.cons_ne_nil name names)).ne_empty
    have hname := hn name List.mem_cons_self
    have hempty : name.toList ≠ [] := fun h => hname.nonempty (String.toList_eq_nil_iff.1 h)
    have hdot : name.toList ≠ ['.'] := fun h => hname.ne_dot (String.toList_inj.1 h)
    rw [List.map_cons] at hs
    rw [hs, List.filterMap_cons, partOf_name hname] at hfilter
    rw [parts_eq hs hne, if_neg hempty, if_neg hdot, partOf_name hname, ← hfilter]
    rfl

end Joined

/-! ## Going down by names -/

/-- One path leads down from another one by names, as a text and on every machine. -/
structure Descends (base path : String) (names : List String) : Prop where
  isName : ∀ n ∈ names, IsName n
  parts_eq : parts path = parts base ++ names.map .normal
  follow_eq : ∀ here, follow here path = follow here base ++ names

theorem descends_join {names : List String} (hn : ∀ n ∈ names, IsName n) (base : String) :
    Descends base (join base ("/".intercalate names)) names where
  isName := hn
  parts_eq := by
    by_cases hbase : base = ""
    · subst hbase
      have hjoin : join "" ("/".intercalate names) = "/".intercalate names := by
        rw [join, if_neg (by simp [isAbsolute_names hn]), String.empty_append]
        exact if_pos rfl
      rw [hjoin]
      exact parts_names hn
    · rw [parts_join (isAbsolute_names hn) hbase, filterMap_partOf_names hn]
  follow_eq here := by
    have hpieces : FileTree.pieces ("/".intercalate names) = names := by
      by_cases hne : names = []
      · subst hne
        rfl
      · exact (spells_names hn hne).pieces_eq
    rw [FileTree.follow_eq, FileTree.follow_eq, FileTree.pieces_join (isAbsolute_names hn),
      FileTree.isAbsolute_join (isAbsolute_names hn), List.foldl_append, hpieces,
      FileTree.foldl_stride hn]

end Path

namespace GitSource

variable {s : GitSource} {request : SourceRequest} {directory : Option String} {d : String}
  {h : Transcript Host} {c : Checkout}

theorem eq_of_projectDirectory (hd : projectDirectory directory = .ok d) :
    Path.Inside (directoryText directory) ∧
      d = "/".intercalate (Path.names (directoryText directory)) := by
  have hin : Path.Inside (directoryText directory) := by
    by_cases hin : Path.Inside (directoryText directory)
    · exact hin
    · rw [(projectDirectory_eq directory).2 hin] at hd
      cases hd
  refine ⟨hin, ?_⟩
  obtain ⟨front, hfront, hparts⟩ := hin.parts_eq
  unfold projectDirectory at hd
  dsimp only at hd
  split at hd
  · cases hd
  · have hskipped : ∀ f : Path.Part → Option String, f .current = none → front.filterMap f = [] :=
      fun f hf => List.filterMap_eq_nil_iff.2 fun part hm => by rw [hfront part hm, hf]
    rw [← Except.ok.inj hd, ← directoryText, hparts, List.filterMap_append, hskipped _ rfl,
      List.nil_append, List.filterMap_map]
    exact congrArg _ List.filterMap_some

/-- The project of a clone that is handed out is where its names lead from the clone. -/
theorem Ready.descends (hr : Ready s request h c) :
    Path.Descends c.root c.directory (Path.names (directoryText request.directory)) := by
  cases hr with
  | mk accepted opened taken closed found =>
    obtain ⟨hin, rfl⟩ := eq_of_projectDirectory accepted.directory
    exact Path.descends_join hin.isName _

/-- A directory is taken exactly if it is relative and has no step up. What is made of it is a
relative path that consists of its names, in order. So the project is in the clone, wherever the
clone is. -/
theorem project_stays_inside (s : GitSource) (request : SourceRequest) :
    ((∃ d, projectDirectory request.directory = .ok d) ↔
      Path.Inside (directoryText request.directory)) ∧
    (∀ d, projectDirectory request.directory = .ok d →
      Path.isAbsolute d = false ∧
      d = "/".intercalate (Path.names (directoryText request.directory)) ∧
      Path.parts d = (Path.names (directoryText request.directory)).map .normal ∧
      ∀ root, Path.Descends root (Path.join root d)
        (Path.names (directoryText request.directory))) ∧
    ∀ h c, (s.prepare request).Ends h (.ok c) →
      Path.Descends c.root c.directory (Path.names (directoryText request.directory)) := by
  refine ⟨⟨fun ⟨d, hd⟩ => (eq_of_projectDirectory hd).1, (projectDirectory_eq _).1⟩, ?_,
    fun h c he => (ends_prepare_ok_iff.1 he).descends⟩
  intro d hd
  obtain ⟨hin, rfl⟩ := eq_of_projectDirectory hd
  exact ⟨Path.isAbsolute_names hin.isName, rfl, Path.parts_names hin.isName,
    Path.descends_join hin.isName⟩

example : projectDirectory (some " ./stacks//app/. ") = .ok "stacks/app" := by rfl

end GitSource

end StackKeeper

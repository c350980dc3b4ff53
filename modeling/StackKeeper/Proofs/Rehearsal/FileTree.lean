import StackKeeper.Proofs.Lists
import StackKeeper.Proofs.Results
import StackKeeper.Rehearsal.FileTree

/-!
# Where paths lead

A path that can be walked leads to the location its text names: dots stay in place, two dots go up,
names go down. Writing, and moving a file, change a tree at the locations they name and below them,
so a path that keeps clear of these leads to the same thing as before.
-/

namespace StackKeeper

namespace FileTree

variable {t t' : FileTree} {here l l' : Location} {x : Thing}

/-! ## The text of a path -/

def stride (here : Location) (name : String) : Location :=
  if name == "." then here else if name == ".." then here.dropLast else here ++ [name]

def follow (here : Location) (path : String) : Location :=
  (steps path).foldl stride (if Path.isAbsolute path then [] else here)

def pieces (path : String) : List String :=
  ((Text.splitOnChar '/' path.toList).map String.ofList).filter (!·.isEmpty)

/-- A text that names an entry of a directory. -/
structure IsName (name : String) : Prop where
  nonempty : name ≠ ""
  noSlash : '/' ∉ name.toList
  ne_dot : name ≠ "."
  ne_dots : name ≠ ".."

section Texts

variable {base p q name : String}

theorem IsName.stride_eq (hn : IsName name) (l : Location) : stride l name = l ++ [name] := by
  unfold stride
  rw [if_neg (by simpa using hn.ne_dot), if_neg (by simpa using hn.ne_dots)]

theorem foldl_stride {names : List String} (hn : ∀ n ∈ names, IsName n) (l : Location) :
    names.foldl stride l = l ++ names := by
  induction names generalizing l with
  | nil => exact (List.append_nil l).symm
  | cons name names ih =>
    have hname : stride l name = l ++ [name] := (hn name List.mem_cons_self).stride_eq l
    rw [List.foldl_cons, hname, ih fun n hm => hn n (List.mem_cons_of_mem _ hm), List.append_assoc]
    rfl

theorem splitOnChar_join (base : String) (hp : Path.isAbsolute p = false) :
    ∃ before, Text.splitOnChar '/' (Path.join base p).toList =
        before ++ Text.splitOnChar '/' p.toList ∧
      (before.map String.ofList).filter (!·.isEmpty) = pieces base := by
  unfold Path.join
  rw [if_neg (by simp [hp])]
  split
  · rename_i hb
    rcases Bool.or_eq_true_iff.1 hb with hb | hb
    · obtain rfl : base = "" := String.isEmpty_iff.1 hb
      exact ⟨[], by rw [String.empty_append, List.nil_append], rfl⟩
    · -- the slash at the end of the base is the one between the parts
      obtain ⟨l, hl⟩ := List.getLast?_eq_some_iff.1 (beq_iff_eq.1 hb)
      have hjoin : (base ++ p).toList = l ++ '/' :: p.toList := by simp [hl]
      have hbase : pieces base =
          ((Text.splitOnChar '/' l).map String.ofList).filter (!·.isEmpty) := by
        unfold pieces
        rw [hl, Text.splitOnChar_append, List.map_append, List.filter_append]
        exact List.append_nil _
      exact ⟨_, by rw [hjoin, Text.splitOnChar_append], hbase.symm⟩
  · have hjoin : (base ++ "/" ++ p).toList = base.toList ++ '/' :: p.toList := by simp
    exact ⟨_, by rw [hjoin, Text.splitOnChar_append], rfl⟩

theorem pieces_join (hp : Path.isAbsolute p = false) :
    pieces (Path.join base p) = pieces base ++ pieces p := by
  obtain ⟨before, hsplit, hbase⟩ := splitOnChar_join base hp
  unfold pieces at hbase ⊢
  rw [hsplit, List.map_append, List.filter_append, hbase]

theorem isAbsolute_join (hp : Path.isAbsolute p = false) :
    Path.isAbsolute (Path.join base p) = Path.isAbsolute base := by
  unfold Path.join
  rw [if_neg (by simp [hp])]
  by_cases hb : base = ""
  · subst hb
    change Path.isAbsolute ("" ++ p) = _
    rw [String.empty_append, hp]
    rfl
  · obtain ⟨c, cs, hc⟩ := List.exists_cons_of_ne_nil fun hn => hb (String.toList_eq_nil_iff.1 hn)
    split <;> simp [Path.isAbsolute, hc]

theorem join_append {e : String} (hp : Path.isAbsolute p = false)
    (he : Path.isAbsolute (p ++ e) = false) : Path.join base p ++ e = Path.join base (p ++ e) := by
  unfold Path.join
  simp only [hp, he, Bool.false_eq_true, if_false]
  split <;> simp only [String.append_assoc]

theorem getLast?_join (hp : Path.isAbsolute p = false) (hne : p ≠ "") :
    (Path.join base p).toList.getLast? = p.toList.getLast? := by
  obtain ⟨c, hc⟩ := Option.ne_none_iff_exists'.1 fun hn =>
    hne (String.toList_eq_nil_iff.1 (List.getLast?_eq_none_iff.1 hn))
  unfold Path.join
  rw [if_neg (by simp [hp])]
  split <;> rw [String.toList_append, List.getLast?_append, hc, Option.some_or]

theorem follow_eq (here : Location) (path : String) :
    follow here path = (pieces path).foldl stride (if Path.isAbsolute path then [] else here) := by
  have hsteps : steps path =
      pieces path ++ if path.toList.getLast? == some '/' then ["."] else [] := rfl
  unfold follow
  rw [hsteps, List.foldl_append]
  cases path.toList.getLast? == some '/' <;> rfl

theorem IsName.fileName?_eq (hn : IsName name) {before : List (List Char)}
    (hp : Text.splitOnChar '/' p.toList = before ++ [name.toList]) :
    Path.fileName? p = some name := by
  have hempty : name.toList ≠ [] := fun h => hn.nonempty (String.toList_eq_nil_iff.1 h)
  have hdot : name.toList ≠ ['.'] := fun h => hn.ne_dot (String.toList_inj.1 h)
  have hdots : name.toList ≠ ['.', '.'] := fun h => hn.ne_dots (String.toList_inj.1 h)
  have hpart : Path.partOf name.toList = some (.normal name) := by
    simp [Path.partOf, hempty, hdot, hdots]
  have hlast : (Path.parts p).getLast? = some (.normal name) := by
    unfold Path.parts
    rw [hp]
    rcases before with _ | ⟨_ | ⟨c, cs⟩, before⟩
    · obtain ⟨c, cs, hc⟩ := List.exists_cons_of_ne_nil hempty
      rw [hc] at hpart hdot ⊢
      have hdot : ¬(c = '.' ∧ cs = []) := fun h => hdot (by rw [h.1, h.2])
      simp [hpart, hdot]
    · simp [hpart]
    · simp [hpart]
  unfold Path.fileName?
  rw [hlast]

/-- The path is relative and goes down by the names. -/
structure Spells (p : String) (names : List String) : Prop where
  eq : (Text.splitOnChar '/' p.toList).map String.ofList = names
  isName : ∀ n ∈ names, IsName n

theorem IsName.spells (hn : IsName name) : Spells name [name] where
  eq := by rw [Text.splitOnChar_of_not_mem hn.noSlash, List.map_singleton, String.ofList_toList]
  isName := List.forall_mem_singleton.2 hn

namespace Spells

variable {names : List String}

theorem empty_not_mem (hs : Spells p names) : [] ∉ Text.splitOnChar '/' p.toList := by
  intro hm
  have hempty : String.ofList [] ∈ names := hs.eq ▸ List.mem_map_of_mem hm
  exact (hs.isName _ hempty).nonempty rfl

theorem pieces_eq (hs : Spells p names) : pieces p = names := by
  unfold pieces
  rw [hs.eq, List.filter_eq_self]
  intro n hn
  simpa using (hs.isName n hn).nonempty

theorem ne_empty (hs : Spells p names) : p ≠ "" := by
  rintro rfl
  exact hs.empty_not_mem List.mem_cons_self

theorem isAbsolute_eq (hs : Spells p names) : Path.isAbsolute p = false := by
  unfold Path.isAbsolute
  rw [beq_eq_false_iff_ne]
  intro hp
  obtain ⟨cs, hcs⟩ := List.head?_eq_some_iff.1 hp
  apply hs.empty_not_mem
  rw [hcs, Text.splitOnChar, if_pos rfl]
  exact List.mem_cons_self

theorem openEnd (hs : Spells p names) : p.toList.getLast? ≠ some '/' := by
  intro hp
  obtain ⟨cs, hcs⟩ := List.getLast?_eq_some_iff.1 hp
  apply hs.empty_not_mem
  rw [hcs, Text.splitOnChar_append]
  exact List.mem_append_right _ List.mem_cons_self

end Spells

end Texts

/-! ## Walking -/

theorem step_eq_ok {name : String} (hs : t.step here name = .ok l) :
    t.at? here = some .directory ∧ l = stride here name := by
  unfold step at hs
  unfold stride
  split at hs
  · cases hs
  · refine ⟨‹_›, ?_⟩
    split at hs
    · cases hs
    · rw [← apply_ite Except.ok, ← apply_ite Except.ok] at hs
      exact (Except.ok.inj hs).symm
  · cases hs

theorem step_congr (ha : t'.at? here = t.at? here) (name : String) :
    t'.step here name = t.step here name := by
  unfold step
  rw [ha]

theorem walk_cons_eq_ok {name : String} {names : List String}
    (hw : (name :: names).foldlM t.step here = .ok l) :
    ∃ l₁, t.step here name = .ok l₁ ∧ names.foldlM t.step l₁ = .ok l := by
  rw [List.foldlM_cons] at hw
  exact bind_eq_ok hw

theorem walk_eq_foldl {names : List String} (hw : names.foldlM t.step here = .ok l) :
    l = names.foldl stride here := by
  induction names generalizing here with
  | nil => exact (Except.ok.inj hw).symm
  | cons name names ih =>
    obtain ⟨l₁, hs, hw⟩ := walk_cons_eq_ok hw
    obtain ⟨-, rfl⟩ := step_eq_ok hs
    exact ih hw

/-- No step leads out of the region. -/
def Traps (t : FileTree) (S : Location → Prop) : Prop :=
  ∀ l name l', S l → t.step l name = .ok l' → S l'

section Regions

variable {S S' : Location → Prop}

theorem Traps.walk (hS : t.Traps S) {names : List String} (hl : S here)
    (hw : names.foldlM t.step here = .ok l) : S l := by
  induction names generalizing here with
  | nil => exact Except.ok.inj hw ▸ hl
  | cons name names ih =>
    obtain ⟨l₁, hs, hw⟩ := walk_cons_eq_ok hw
    exact ih (hS here name l₁ hl hs) hw

theorem Traps.or (hS : t.Traps S) (hS' : t.Traps S') : t.Traps fun l => S l ∨ S' l :=
  fun l name l' hl hs => hl.imp (hS l name l' · hs) (hS' l name l' · hs)

/-- What is not a directory is left neither upwards nor downwards. -/
theorem traps_below (hd : t.at? l ≠ some .directory) : t.Traps (l <+: ·) := by
  rintro m name m' ⟨r, rfl⟩ hs
  obtain ⟨hdir, rfl⟩ := step_eq_ok hs
  have hr : r ≠ [] := by
    rintro rfl
    rw [List.append_nil] at hdir
    exact hd hdir
  unfold stride
  split
  · exact ⟨r, rfl⟩
  · split
    · rw [List.dropLast_append_of_ne_nil hr]
      exact ⟨r.dropLast, rfl⟩
    · exact ⟨r ++ [name], (List.append_assoc l r [name]).symm⟩

/-- What is below a thing that is not a directory is not reached. -/
theorem traps_notBelow (hd : t.at? l ≠ some .directory) : t.Traps fun m => l <+: m → l = m := by
  intro m name m' hm hs hl
  obtain ⟨hdir, rfl⟩ := step_eq_ok hs
  have hne : l ≠ m := fun heq => hd (heq ▸ hdir)
  have hnot : ¬l <+: m := fun hl => hne (hm hl)
  unfold stride at hl ⊢
  split at hl
  · exact absurd hl hnot
  · split at hl
    · exact absurd (hl.trans (List.dropLast_prefix m)) hnot
    · rw [if_neg ‹_›, if_neg ‹_›]
      exact (List.prefix_concat_iff.1 hl).resolve_right hnot

/-- A walk that ends outside a region without exits was outside all the time. -/
theorem Traps.walk_congr (hS : t.Traps S) (ha : ∀ l, ¬S l → t'.at? l = t.at? l)
    {names : List String} (hw : names.foldlM t.step here = .ok l) (hl : ¬S l) :
    names.foldlM t'.step here = .ok l := by
  induction names generalizing here with
  | nil => exact hw
  | cons name names ih =>
    have hhere : ¬S here := fun hh => hl (hS.walk hh hw)
    obtain ⟨l₁, hs, hw⟩ := walk_cons_eq_ok hw
    rw [List.foldlM_cons, step_congr (ha here hhere), hs]
    exact ih hw

end Regions

theorem locate_eq_ok {path : String} (hl : t.locate here path = .ok l) :
    (steps path).foldlM t.step (if Path.isAbsolute path then [] else here) = .ok l := by
  unfold locate at hl
  split at hl
  · cases hl
  · split at hl
    · cases hl
    · split at hl
      · cases hl
      · exact hl

theorem locate_eq_follow {path : String} (hl : t.locate here path = .ok l) :
    l = follow here path :=
  walk_eq_foldl (locate_eq_ok hl)

theorem find_eq_ok {path : String} (hf : t.find here path = .ok (l, x)) :
    t.locate here path = .ok l ∧ t.at? l = some x := by
  unfold find at hf
  obtain ⟨m, hm, hf⟩ := bind_eq_ok hf
  cases ha : t.at? m with
  | none =>
    rw [ha] at hf
    cases hf
  | some y =>
    rw [ha] at hf
    cases hf
    exact ⟨hm, ha⟩

theorem read_eq_ok {path : String} {content : Bytes} (hr : t.read here path = .ok content) :
    t.locate here path = .ok (follow here path) ∧
      ∃ x, t.at? (follow here path) = some x ∧ x ≠ .directory := by
  unfold read at hr
  obtain ⟨⟨l, x⟩, hf, hr⟩ := bind_eq_ok hr
  obtain ⟨hl, hx⟩ := find_eq_ok hf
  obtain rfl := locate_eq_follow hl
  refine ⟨hl, x, hx, ?_⟩
  rintro rfl
  cases hr

/-! ## Paths that lead down -/

/-- From where the base leads, the path goes down by the names. -/
structure Below (base path : String) (names : List String) : Prop where
  pieces_eq : pieces path = pieces base ++ names
  isAbsolute_eq : Path.isAbsolute path = Path.isAbsolute base
  openEnd : path.toList.getLast? ≠ some '/'
  isName : ∀ n ∈ names, IsName n

namespace Below

variable {base path : String} {names : List String}

theorem follow_eq (hb : Below base path names) (here : Location) :
    follow here path = follow here base ++ names := by
  rw [FileTree.follow_eq, FileTree.follow_eq, hb.pieces_eq, hb.isAbsolute_eq, List.foldl_append,
    foldl_stride hb.isName]

theorem of_join {p : String} (hp : Spells p names) : Below base (Path.join base p) names where
  pieces_eq := by rw [pieces_join hp.isAbsolute_eq, hp.pieces_eq]
  isAbsolute_eq := isAbsolute_join hp.isAbsolute_eq
  openEnd := by
    rw [getLast?_join hp.isAbsolute_eq hp.ne_empty]
    exact hp.openEnd
  isName := hp.isName

theorem of_joined {p q : String} {more : List String} (hp : Spells p names) (hq : Spells q more) :
    Below base (Path.join (Path.join base p) q) (names ++ more) where
  pieces_eq := by
    rw [pieces_join hq.isAbsolute_eq, pieces_join hp.isAbsolute_eq, hp.pieces_eq, hq.pieces_eq,
      List.append_assoc]
  isAbsolute_eq := by rw [isAbsolute_join hq.isAbsolute_eq, isAbsolute_join hp.isAbsolute_eq]
  openEnd := by
    rw [getLast?_join hq.isAbsolute_eq hq.ne_empty]
    exact hq.openEnd
  isName n hn := (List.mem_append.1 hn).elim (hp.isName n) (hq.isName n)

theorem steps_eq (hb : Below base path names) : steps path = pieces base ++ names := by
  have hend : (path.toList.getLast? == some '/') = false := beq_eq_false_iff_ne.2 hb.openEnd
  change pieces path ++ _ = _
  rw [hend, hb.pieces_eq]
  exact List.append_nil _

theorem walk_of_locate (hb : Below base path names) (hl : t.locate here path = .ok l) :
    (pieces base).foldlM t.step (if Path.isAbsolute base then [] else here) =
      .ok (follow here base) := by
  have hw := locate_eq_ok hl
  rw [hb.steps_eq, hb.isAbsolute_eq, List.foldlM_append] at hw
  obtain ⟨r, hr, -⟩ := bind_eq_ok hw
  have heq : r = follow here base := by rw [walk_eq_foldl hr, ← FileTree.follow_eq]
  rw [hr, heq]

end Below

/-! ## Changing a tree -/

theorem at?_put_self (t : FileTree) (x : Thing) (hl : l ≠ []) : (t.put l x).at? l = some x := by
  have hl : ¬l.isEmpty = true := by simpa using hl
  unfold at? put
  rw [if_neg hl, List.lookup_cons, beq_self_eq_true]

theorem at?_put_of_ne (t : FileTree) (x : Thing) (hne : l ≠ l') : (t.put l' x).at? l = t.at? l := by
  have hkeep : (l != l') = true := bne_iff_ne.2 hne
  unfold at? put
  rw [List.lookup_cons, beq_false_of_ne hne, lookup_filter (p := (· != l')) hkeep]

theorem write_eq_ok {path : String} {content : Bytes} {mode : Host.Mode}
    (hw : t.write here path content mode = .ok t') :
    t.at? (follow here path) ≠ some .directory ∧ follow here path ≠ [] ∧
      ∃ mode, t' = t.put (follow here path) (.file content mode) := by
  unfold write at hw
  dsimp only at hw
  split at hw
  · -- a path that ends in a slash is refused, whatever it leads to
    split at hw <;> cases hw
  · obtain ⟨m, hm, hw⟩ := bind_eq_ok hw
    obtain rfl := locate_eq_follow hm
    split at hw
    case isTrue => cases hw
    case isFalse hne =>
      have hne : follow here path ≠ [] := by simpa using hne
      split at hw
      case h_1 => cases hw
      case h_2 => cases hw
      case h_3 hfile _ =>
        have hd : t.at? (follow here path) ≠ some .directory := by simp [hfile]
        exact ⟨hd, hne, _, (Except.ok.inj hw).symm⟩
      case h_4 hd _ => exact ⟨hd, hne, _, (Except.ok.inj hw).symm⟩

theorem at?_prune (t : FileTree) (hl : ¬l' <+: l) : (t.prune l').at? l = t.at? l := by
  have hkeep : (!l'.isPrefixOf l) = true := by
    rw [Bool.not_eq_true', Bool.eq_false_iff, ne_eq, List.isPrefixOf_iff_prefix]
    exact hl
  unfold at? prune
  rw [lookup_filter (p := fun m => !l'.isPrefixOf m) hkeep]

theorem at?_prune_self (t : FileTree) (hl : l ≠ []) : (t.prune l).at? l = none := by
  unfold at? prune
  rw [if_neg (by simpa using hl), List.lookup_eq_none_iff]
  rintro ⟨m, x⟩ hm
  have hkeep : (!l.isPrefixOf m) = true := (List.mem_filter.1 hm).2
  rw [bne_iff_ne]
  rintro rfl
  rw [List.isPrefixOf_iff_prefix.2 List.prefix_rfl] at hkeep
  cases hkeep

section Removing

variable {path : String}

theorem leadsToDirectory_eq_false (hd : ∀ l, t.find here path ≠ .ok (l, .directory)) :
    t.leadsToDirectory here path = false := by
  unfold leadsToDirectory
  split
  · exact absurd ‹_› (hd _)
  · rfl

theorem leadsToDirectory_of_removeTree (hp : follow here path ≠ [])
    (hr : t.removeTree here path = .ok t') : t'.leadsToDirectory here path = false := by
  unfold removeTree at hr
  obtain ⟨⟨l, x⟩, hf, hr⟩ := bind_eq_ok hr
  obtain rfl := locate_eq_follow (find_eq_ok hf).1
  cases x with
  | directory =>
    cases hr
    refine leadsToDirectory_eq_false fun l hl => ?_
    obtain ⟨hlocate, hat⟩ := find_eq_ok hl
    obtain rfl := locate_eq_follow hlocate
    rw [at?_prune_self t hp] at hat
    cases hat
  | file content mode => cases hr
  | program => cases hr

theorem leadsToDirectory_of_removeTree_eq_error {f : Host.Fault}
    (hr : t.removeTree here path = .error f) : t.leadsToDirectory here path = false := by
  refine leadsToDirectory_eq_false fun l hl => ?_
  unfold removeTree at hr
  rw [hl] at hr
  cases hr

end Removing

/-- What is at a location, and below it, as it is after a move to another place. -/
def uprooted (things : List (Location × Thing)) (origin place : Location) :
    List (Location × Thing) :=
  things.filterMap fun (l, x) =>
    if origin.isPrefixOf l then some (place ++ l.drop origin.length, x) else none

def moved (t : FileTree) (origin place : Location) : FileTree :=
  ⟨uprooted t.things origin place ++ ((t.prune origin).prune place).things⟩

section Moving

variable {origin place : Location}

theorem lookup_uprooted (things : List (Location × Thing)) (hp : ¬place <+: l) :
    (uprooted things origin place).lookup l = none := by
  rw [List.lookup_eq_none_iff]
  intro e he
  obtain ⟨⟨m, x⟩, -, hm⟩ := List.mem_filterMap.1 he
  obtain ⟨-, hm⟩ := Option.ite_none_right_eq_some.1 hm
  obtain rfl := Option.some.inj hm
  exact bne_iff_ne.2 fun heq => hp ⟨_, heq.symm⟩

theorem uprooted_cons (l : Location) (x : Thing) (things : List (Location × Thing)) :
    uprooted ((l, x) :: things) origin place =
      if origin <+: l then (place ++ l.drop origin.length, x) :: uprooted things origin place
      else uprooted things origin place := by
  unfold uprooted
  rw [List.filterMap_cons]
  by_cases hl : origin <+: l <;> simp [hl]

theorem lookup_uprooted_self {things : List (Location × Thing)}
    (hx : things.lookup origin = some x) :
    (uprooted things origin place).lookup place = some x := by
  induction things with
  | nil => cases hx
  | cons e things ih =>
    obtain ⟨l, y⟩ := e
    rw [List.lookup_cons] at hx
    rw [uprooted_cons]
    by_cases hl : origin = l
    · subst hl
      rw [beq_self_eq_true] at hx
      obtain rfl := Option.some.inj hx
      rw [if_pos List.prefix_rfl, List.drop_length, List.append_nil, List.lookup_cons,
        beq_self_eq_true]
    · rw [beq_false_of_ne hl] at hx
      split
      · -- what was below the thing is below it again
        rename_i hpre
        obtain ⟨r, rfl⟩ := hpre
        have hr : r ≠ [] := fun hr => hl (by rw [hr, List.append_nil])
        have hne : place ≠ place ++ r := fun heq => hr (List.self_eq_append_right.1 heq)
        rw [List.drop_left, List.lookup_cons, beq_false_of_ne hne]
        exact ih hx
      · exact ih hx

theorem at?_moved (t : FileTree) (ho : ¬origin <+: l) (hp : ¬place <+: l) :
    (t.moved origin place).at? l = t.at? l := by
  rw [← at?_prune t ho, ← at?_prune (t.prune origin) hp]
  unfold at? moved
  rw [List.lookup_append, lookup_uprooted t.things hp, Option.none_or]

theorem at?_moved_place (ho : origin ≠ []) (hp : place ≠ []) (hx : t.at? origin = some x) :
    (t.moved origin place).at? place = some x := by
  have ho : ¬origin.isEmpty = true := by simpa using ho
  have hp : ¬place.isEmpty = true := by simpa using hp
  unfold at? at hx ⊢
  rw [if_neg ho] at hx
  rw [if_neg hp]
  unfold moved
  rw [List.lookup_append, lookup_uprooted_self hx, Option.some_or]

end Moving

theorem rename_eq_ok {source target : String} (hr : t.rename here source target = .ok t') :
    t' = t.moved (follow here source) (follow here target) := by
  unfold rename at hr
  obtain ⟨⟨origin, x⟩, hfind, hr⟩ := bind_eq_ok hr
  obtain ⟨place, hplace, hr⟩ := bind_eq_ok hr
  obtain rfl := locate_eq_follow (find_eq_ok hfind).1
  obtain rfl := locate_eq_follow hplace
  dsimp only at hr
  split at hr
  case h_1 =>
    split at hr
    · cases hr
    · exact (Except.ok.inj hr).symm
  case h_2 => cases hr
  case h_3 => cases hr
  case h_4 => exact (Except.ok.inj hr).symm

/-! ## Files replaced at once -/

/-- A file is there before and after, and what else changed is at or below the draft. -/
structure Replaced (t t' : FileTree) (place draft : Location) : Prop where
  before : ∃ x, t.at? place = some x ∧ x ≠ .directory
  after : ∃ x, t'.at? place = some x ∧ x ≠ .directory
  free : t.at? draft ≠ some .directory
  rest : ∀ l, ¬place <+: l → ¬draft <+: l → t'.at? l = t.at? l

theorem at?_ne_directory {x : Thing} (hx : t.at? l = some x ∧ x ≠ .directory) :
    t.at? l ≠ some .directory := by
  rw [hx.1]
  exact fun heq => hx.2 (Option.some.inj heq)

theorem step_of_ne_directory (hx : t.at? l = some x ∧ x ≠ .directory) (name : String) :
    t.step l name = .error .notDirectory := by
  unfold step
  rw [hx.1]
  cases x with
  | directory => exact absurd rfl hx.2
  | _ => rfl

section Replacing

variable {place draft : Location} {base path : String} {names : List String}

/-- Until the draft takes its place, the file stays as it is. -/
theorem replaced_of_write {content : Bytes} {mode : Host.Mode}
    (hx : ∃ x, t.at? place = some x ∧ x ≠ .directory) (hpd : ¬follow here path <+: place)
    (hw : t.write here path content mode = .ok t') :
    t.Replaced t' place (follow here path) := by
  obtain ⟨hfree, -, mode, rfl⟩ := write_eq_ok hw
  have hkept : ∀ l, ¬follow here path <+: l →
      (t.put (follow here path) (.file content mode)).at? l = t.at? l := by
    intro l hl
    apply at?_put_of_ne
    rintro rfl
    exact hl List.prefix_rfl
  exact ⟨hx, by rwa [hkept place hpd], hfree, fun l _ hl => hkept l hl⟩

theorem replaced_of_rename {content : Bytes} {mode : Host.Mode} {target : String} {t'' : FileTree}
    (hx : ∃ x, t.at? (follow here target) = some x ∧ x ≠ .directory)
    (hw : t.write here path content mode = .ok t') (hr : t'.rename here path target = .ok t'')
    (hp : follow here target ≠ []) :
    t.Replaced t'' (follow here target) (follow here path) := by
  obtain ⟨hfree, hd, mode, rfl⟩ := write_eq_ok hw
  obtain rfl := rename_eq_ok hr
  have hdraft := at?_put_self t (.file content mode) hd
  have hafter := at?_moved_place hd hp hdraft
  refine ⟨hx, ⟨_, hafter, nofun⟩, hfree, ?_⟩
  intro l hl hld
  have hne : l ≠ follow here path := by
    rintro rfl
    exact hld List.prefix_rfl
  rw [at?_moved _ hld hl, at?_put_of_ne t _ hne]

namespace Replaced

theorem walk_congr (hr : t.Replaced t' place draft) {names : List String}
    (hw : names.foldlM t.step here = .ok l) (hp : ¬place <+: l) (hd : ¬draft <+: l) :
    names.foldlM t'.step here = .ok l := by
  obtain ⟨x, hx⟩ := hr.before
  have hS := (traps_below (at?_ne_directory hx)).or (traps_below hr.free)
  apply hS.walk_congr _ hw
  · exact fun h => h.elim hp hd
  · intro m hm
    exact hr.rest m (fun h => hm (.inl h)) fun h => hm (.inr h)

/-- Whether a walk down reaches its end does not change: it ends at the file in both trees, or
keeps clear of it. -/
theorem walk_down (hr : t.Replaced t' place draft) (hn : ∀ n ∈ names, IsName n)
    (hl : place <+: l → place = l) (hd : ¬draft <+: l ++ names) :
    names.foldlM t'.step l = names.foldlM t.step l := by
  obtain ⟨x, hx⟩ := hr.before
  obtain ⟨x', hx'⟩ := hr.after
  induction names generalizing l with
  | nil => rfl
  | cons name names ih =>
    rw [List.foldlM_cons, List.foldlM_cons]
    by_cases hpl : place <+: l
    · obtain rfl := hl hpl
      rw [step_of_ne_directory hx, step_of_ne_directory hx']
      rfl
    · have hdl : ¬draft <+: l := fun h => hd (h.trans (List.prefix_append l _))
      rw [step_congr (hr.rest l hpl hdl)]
      cases hs : t.step l name with
      | error e => rfl
      | ok m =>
        have hm := traps_notBelow (at?_ne_directory hx) l name m (fun h => absurd h hpl) hs
        obtain ⟨-, rfl⟩ := step_eq_ok hs
        rw [(hn name List.mem_cons_self).stride_eq] at hm ⊢
        apply ih (fun n h => hn n (List.mem_cons_of_mem _ h)) hm
        rwa [List.append_assoc]

/-- A path that leads down to somewhere else leads to the same thing as before. -/
theorem find_congr (hr : t.Replaced t' place draft) (hb : Below base path names)
    (hbase : (pieces base).foldlM t.step (if Path.isAbsolute base then [] else here) =
      .ok (follow here base))
    (hp : ¬place <+: follow here base) (hne : place ≠ follow here path)
    (hd : ¬draft <+: follow here path) : t'.find here path = t.find here path := by
  have hfollow := hb.follow_eq here
  have hdb : ¬draft <+: follow here base := fun h =>
    hd (hfollow ▸ h.trans (List.prefix_append _ _))
  have hlocate : t'.locate here path = t.locate here path := by
    unfold locate
    rw [hb.steps_eq, hb.isAbsolute_eq, List.foldlM_append, List.foldlM_append,
      hr.walk_congr hbase hp hdb, hbase]
    have hdown := hr.walk_down hb.isName (fun h => absurd h hp) (hfollow ▸ hd)
    change (if _ then _ else if _ then _ else if _ then _ else names.foldlM t'.step _) =
      if _ then _ else if _ then _ else if _ then _ else names.foldlM t.step _
    rw [hdown]
  unfold find
  rw [hlocate]
  apply bind_congr_ok
  intro l hl
  obtain ⟨x, hx⟩ := hr.before
  have hend : place <+: l → place = l := by
    have hw := locate_eq_ok hl
    rw [hb.steps_eq, hb.isAbsolute_eq, List.foldlM_append, hbase] at hw
    exact (traps_notBelow (at?_ne_directory hx)).walk (fun h => absurd h hp) hw
  obtain rfl := locate_eq_follow hl
  have hat := hr.rest _ (fun h => hne (hend h)) hd
  rw [hat]

end Replaced

end Replacing

end FileTree

end StackKeeper

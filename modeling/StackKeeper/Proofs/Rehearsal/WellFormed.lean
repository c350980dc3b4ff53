import StackKeeper.Proofs.Rehearsal.FileTree

/-!
# Well-formed trees

In a well-formed tree everything stands in a directory, under a name, and nowhere twice. A file that
is written to such a tree, or moved over another one within its directory, leaves it well-formed,
and what a directory lists is what stands right below it.
-/

namespace StackKeeper

namespace FileTree

variable {t : FileTree} {l l' place draft : Location} {x : Thing}

/-- Everything stands in a directory, under a name, and nowhere twice. -/
structure WellFormed (t : FileTree) : Prop where
  nodup : (t.things.map (·.1)).Nodup
  isName : ∀ e ∈ t.things, ∀ n ∈ e.1, IsName n
  closed : ∀ l n, t.at? (l ++ [n]) ≠ none → t.at? l = some .directory

theorem at?_eq_lookup (t : FileTree) (hl : l ≠ []) : t.at? l = t.things.lookup l := by
  have hl : ¬l.isEmpty = true := by simpa using hl
  unfold at?
  rw [if_neg hl]

theorem wellFormed_of_things (hnodup : (t.things.map (·.1)).Nodup)
    (hname : ∀ e ∈ t.things, ∀ n ∈ e.1, IsName n)
    (hparent : ∀ e ∈ t.things, t.at? e.1.dropLast = some .directory) : t.WellFormed where
  nodup := hnodup
  isName := hname
  closed l n hn := by
    obtain ⟨x, hx⟩ := Option.ne_none_iff_exists'.1 hn
    rw [at?_eq_lookup t (by simp)] at hx
    simpa using hparent _ (mem_of_lookup hx)

theorem WellFormed.at?_below (ht : t.WellFormed) (hl : t.at? l ≠ some .directory) {r : Location}
    (hr : r ≠ []) : t.at? (l ++ r) = none := by
  generalize hlength : r.length = k
  induction k generalizing r with
  | zero => exact absurd (List.length_eq_zero_iff.1 hlength) hr
  | succ k ih =>
    -- what is right above would have to be a directory
    have hsplit : l ++ r = l ++ r.dropLast ++ [r.getLast hr] := by
      rw [List.append_assoc, List.dropLast_concat_getLast]
    by_cases hn : t.at? (l ++ r) = none
    · exact hn
    · rw [hsplit] at hn
      have habove := ht.closed _ _ hn
      by_cases hempty : r.dropLast = []
      · rw [hempty, List.append_nil] at habove
        exact absurd habove hl
      · rw [ih hempty (by simp [hlength])] at habove
        cases habove

/-! ## Writing and moving -/

theorem at?_put (t : FileTree) (x : Thing) (hl : l ≠ []) (l' : Location) :
    (t.put l x).at? l' = if l' = l then some x else t.at? l' := by
  by_cases heq : l' = l
  · subst heq
    rw [if_pos rfl, at?_put_self t x hl]
  · rw [if_neg heq, at?_put_of_ne t x heq]

theorem WellFormed.put (ht : t.WellFormed) (hname : ∀ n ∈ l, IsName n) (hne : l ≠ [])
    (hfree : t.at? l ≠ some .directory) (hparent : t.at? l.dropLast = some .directory) :
    (t.put l x).WellFormed where
  nodup := by
    change (l :: (t.things.filter (·.1 != l)).map (·.1)).Nodup
    refine List.nodup_cons.2 ⟨fun hmem => ?_, ?_⟩
    · obtain ⟨e, he, heq⟩ := List.mem_map.1 hmem
      have hbne := (List.mem_filter.1 he).2
      rw [heq] at hbne
      simp at hbne
    · exact ht.nodup.sublist (List.filter_sublist.map _)
  isName e he := by
    rcases List.mem_cons.1 he with rfl | he
    · exact hname
    · exact ht.isName e (List.mem_filter.1 he).1
  closed l' n hn := by
    rw [at?_put t x hne] at hn ⊢
    by_cases heq : l' ++ [n] = l
    · subst heq
      have hdirectory : t.at? l' = some .directory := by simpa using hparent
      have hother : l' ≠ l' ++ [n] := by simp
      rw [if_neg hother]
      exact hdirectory
    · rw [if_neg heq] at hn
      have hdirectory := ht.closed l' n hn
      have hother : l' ≠ l := by
        rintro rfl
        exact hfree hdirectory
      rw [if_neg hother]
      exact hdirectory

section Moving

/-- What is moved within its directory, onto a free place or another file. -/
structure Movable (t : FileTree) (draft place : Location) (x : Thing) : Prop where
  ne_root : draft ≠ []
  place_ne_root : place ≠ []
  thing : t.at? draft = some x
  file : x ≠ .directory
  free : t.at? place ≠ some .directory

theorem WellFormed.eq_of_prefix (ht : t.WellFormed) (hne : draft ≠ [])
    (hthing : t.at? draft = some x) (hfile : x ≠ .directory) {e : Location × Thing}
    (he : e ∈ t.things) (hpre : draft <+: e.1) : e = (draft, x) := by
  obtain ⟨l, y⟩ := e
  obtain ⟨r, rfl⟩ := hpre
  have hy : t.at? (draft ++ r) = some y := by
    rw [at?_eq_lookup t (by simp [hne])]
    exact lookup_of_mem ht.nodup he
  have hr : r = [] := by
    by_cases hr : r = []
    · exact hr
    · have hdirectory : t.at? draft ≠ some .directory := by
        rw [hthing]
        exact fun heq => hfile (Option.some.inj heq)
      rw [ht.at?_below hdirectory hr] at hy
      cases hy
  subst hr
  rw [List.append_nil, hthing] at hy
  rw [List.append_nil, Option.some.inj hy]

theorem filterMap_uprooted {things : List (Location × Thing)} (h : ∀ e ∈ things, ¬draft <+: e.1) :
    things.filterMap (fun e : Location × Thing =>
      if draft.isPrefixOf e.1 then some (place ++ e.1.drop draft.length, e.2) else none) = [] := by
  rw [List.filterMap_eq_nil_iff]
  intro e he
  simp [h e he]

variable (ht : t.WellFormed) (hm : t.Movable draft place x)
include ht hm

theorem Movable.uprooted_eq : uprooted t.things draft place = [(place, x)] := by
  have honly : ∀ e ∈ t.things, draft <+: e.1 → e = (draft, x) :=
    fun e he hpre => ht.eq_of_prefix hm.ne_root hm.thing hm.file he hpre
  have hmem : (draft, x) ∈ t.things := by
    have hx := hm.thing
    rw [at?_eq_lookup t hm.ne_root] at hx
    exact mem_of_lookup hx
  have hnodup := ht.nodup
  obtain ⟨before, after, heq⟩ := List.append_of_mem hmem
  rw [heq] at honly hnodup
  rw [List.map_append, List.map_cons, List.nodup_append, List.nodup_cons] at hnodup
  have hbefore : ∀ e ∈ before, ¬draft <+: e.1 := by
    intro e he hpre
    have hsame := honly e (List.mem_append_left _ he) hpre
    have hne := hnodup.2.2 e.1 (List.mem_map_of_mem he) draft List.mem_cons_self
    rw [hsame] at hne
    exact hne rfl
  have hafter : ∀ e ∈ after, ¬draft <+: e.1 := by
    intro e he hpre
    have hsame := honly e (List.mem_append_right _ (List.mem_cons_of_mem _ he)) hpre
    have hname := List.mem_map_of_mem (f := (·.1)) he
    rw [hsame] at hname
    exact hnodup.2.1.1 hname
  rw [heq]
  unfold uprooted
  rw [List.filterMap_append, List.filterMap_cons, filterMap_uprooted hbefore,
    filterMap_uprooted hafter]
  simp

theorem Movable.moved_eq : t.moved draft place =
    ⟨(place, x) :: ((t.prune draft).prune place).things⟩ := by
  unfold moved
  rw [hm.uprooted_eq ht]
  rfl

theorem Movable.at?_moved_below {l : Location} (hl : l ≠ place)
    (hbelow : draft <+: l ∨ place <+: l) : (t.moved draft place).at? l = none := by
  have hroot : l ≠ [] := by
    rintro rfl
    rcases hbelow with h | h
    · exact hm.ne_root (List.prefix_nil.1 h)
    · exact hm.place_ne_root (List.prefix_nil.1 h)
  rw [at?_eq_lookup _ hroot, hm.moved_eq ht, List.lookup_cons, beq_false_of_ne hl,
    List.lookup_eq_none_iff]
  intro e he
  obtain ⟨he, hplace⟩ := List.mem_filter.1 he
  obtain ⟨-, hdraft⟩ := List.mem_filter.1 he
  refine bne_iff_ne.2 fun heq => ?_
  subst heq
  rcases hbelow with h | h
  · simp [List.isPrefixOf_iff_prefix.2 h] at hdraft
  · simp [List.isPrefixOf_iff_prefix.2 h] at hplace

theorem Movable.at?_moved (l : Location) : (t.moved draft place).at? l =
    if l = place then some x else if l = draft then none else t.at? l := by
  by_cases hl : l = place
  · rw [if_pos hl, hl]
    exact at?_moved_place hm.ne_root hm.place_ne_root hm.thing
  rw [if_neg hl]
  by_cases hdraft : draft <+: l
  · rw [hm.at?_moved_below ht hl (.inl hdraft)]
    obtain ⟨r, rfl⟩ := hdraft
    by_cases hr : r = []
    · simp [hr]
    · have hdirectory : t.at? draft ≠ some .directory := by
        rw [hm.thing]
        exact fun heq => hm.file (Option.some.inj heq)
      rw [if_neg (by simpa using hr), ht.at?_below hdirectory hr]
  · have hne : l ≠ draft := by
      rintro rfl
      exact hdraft List.prefix_rfl
    rw [if_neg hne]
    by_cases hplace : place <+: l
    · rw [hm.at?_moved_below ht hl (.inr hplace)]
      obtain ⟨r, rfl⟩ := hplace
      have hr : r ≠ [] := by
        rintro rfl
        exact hl (List.append_nil place)
      rw [ht.at?_below hm.free hr]
    · exact FileTree.at?_moved t hdraft hplace

theorem Movable.wellFormed (hname : ∀ n ∈ place, IsName n)
    (hparent : t.at? place.dropLast = some .directory) : (t.moved draft place).WellFormed where
  nodup := by
    rw [hm.moved_eq ht]
    change (place :: ((t.prune draft).prune place).things.map (·.1)).Nodup
    refine List.nodup_cons.2 ⟨fun hmem => ?_, ?_⟩
    · obtain ⟨e, he, heq⟩ := List.mem_map.1 hmem
      have hkept := (List.mem_filter.1 he).2
      have hself : place.isPrefixOf place = true := List.isPrefixOf_iff_prefix.2 List.prefix_rfl
      simp [heq, hself] at hkept
    · have hsub : (((t.prune draft).prune place).things.map (·.1)).Sublist (t.things.map (·.1)) :=
        (List.filter_sublist.trans List.filter_sublist).map _
      exact ht.nodup.sublist hsub
  isName e he := by
    rw [hm.moved_eq ht] at he
    rcases List.mem_cons.1 he with rfl | he
    · exact hname
    · exact ht.isName e (List.mem_filter.1 (List.mem_filter.1 he).1).1
  closed l n hn := by
    rw [hm.at?_moved ht] at hn ⊢
    -- directories stay, as what was moved is none and took the place of none
    have hkeeps : t.at? l = some .directory →
        (if l = place then some x else if l = draft then none else t.at? l) = some .directory := by
      intro hl
      have hplace : l ≠ place := by
        rintro rfl
        exact hm.free hl
      have hdraft : l ≠ draft := by
        rintro rfl
        rw [hm.thing] at hl
        exact hm.file (Option.some.inj hl)
      rw [if_neg hplace, if_neg hdraft]
      exact hl
    by_cases hplace : l ++ [n] = place
    · subst hplace
      rw [List.dropLast_concat] at hparent
      exact hkeeps hparent
    · rw [if_neg hplace] at hn
      by_cases hdraft : l ++ [n] = draft
      · exact absurd (if_pos hdraft) hn
      · rw [if_neg hdraft] at hn
        exact hkeeps (ht.closed l n hn)

end Moving

/-! ## Listing -/

theorem mem_children {e : Host.Entry} : e ∈ t.children l ↔
    ∃ x, (l ++ [e.name], x) ∈ t.things ∧ e.isDirectory = (x == .directory) := by
  unfold children
  rw [List.mem_mergeSort, List.mem_filterMap]
  constructor
  · rintro ⟨⟨l', x⟩, hmem, he⟩
    dsimp only at he
    split at he
    next name hpre hdrop =>
      cases he
      obtain ⟨r, rfl⟩ := List.isPrefixOf_iff_prefix.1 hpre
      rw [List.drop_left] at hdrop
      subst hdrop
      exact ⟨x, hmem, rfl⟩
    · cases he
  · rintro ⟨x, hmem, he⟩
    refine ⟨(l ++ [e.name], x), hmem, ?_⟩
    have hpre : l.isPrefixOf (l ++ [e.name]) = true :=
      List.isPrefixOf_iff_prefix.2 (List.prefix_append _ _)
    dsimp only
    rw [hpre, List.drop_left, ← he]

theorem WellFormed.mem_children_iff (ht : t.WellFormed) {e : Host.Entry} : e ∈ t.children l ↔
    ∃ x, t.at? (l ++ [e.name]) = some x ∧ e.isDirectory = (x == .directory) := by
  have hroot : l ++ [e.name] ≠ [] := by simp
  rw [mem_children]
  simp only [at?_eq_lookup t hroot]
  exact exists_congr fun x => and_congr_left fun _ => ⟨lookup_of_mem ht.nodup, mem_of_lookup⟩

theorem WellFormed.nodup_children (ht : t.WellFormed) (l : Location) :
    ((t.children l).map (·.name)).Nodup := by
  unfold children
  refine ((List.mergeSort_perm _ _).map _).nodup_iff.2 ?_
  refine List.pairwise_map.2 (List.Pairwise.filterMap _ ?_ (List.pairwise_map.1 ht.nodup))
  rintro ⟨l₁, x₁⟩ ⟨l₂, x₂⟩ hne e₁ h₁ e₂ h₂ heq
  dsimp only at h₁ h₂ hne
  split at h₁
  next n₁ hpre₁ hdrop₁ =>
    split at h₂
    next n₂ hpre₂ hdrop₂ =>
      cases h₁
      cases h₂
      obtain ⟨r₁, rfl⟩ := List.isPrefixOf_iff_prefix.1 hpre₁
      obtain ⟨r₂, rfl⟩ := List.isPrefixOf_iff_prefix.1 hpre₂
      rw [List.drop_left] at hdrop₁ hdrop₂
      subst hdrop₁ hdrop₂
      have heq : n₁ = n₂ := heq
      exact hne (by rw [heq])
    · cases h₂
  · cases h₁

/-! ## Going down from a directory -/

variable {here : Location} {base path name : String} {names : List String}

theorem step_name (hn : IsName name) (hsize : name.utf8ByteSize ≤ longestName) (here : Location) :
    t.step here name = match t.at? here with
      | none => .error .notFound
      | some .directory => .ok (here ++ [name])
      | some _ => .error .notDirectory := by
  have hshort : ¬longestName < name.utf8ByteSize := Nat.not_lt.2 hsize
  have hdot : ¬(name == ".") = true := by simpa using hn.ne_dot
  have hdots : ¬(name == "..") = true := by simpa using hn.ne_dots
  unfold step
  cases t.at? here with
  | none => rfl
  | some x =>
    cases x with
    | directory => exact (if_neg hshort).trans ((if_neg hdot).trans (if_neg hdots))
    | file content mode => rfl
    | program => rfl

theorem walk_of_find (hf : t.find here base = .ok (l, .directory)) :
    (pieces base).foldlM t.step (if Path.isAbsolute base then [] else here) = .ok l := by
  have hw := locate_eq_ok (find_eq_ok hf).1
  have hsteps : steps base = pieces base ++ if base.toList.getLast? == some '/' then ["."] else [] :=
    rfl
  rw [hsteps, List.foldlM_append] at hw
  obtain ⟨r, hr, hend⟩ := bind_eq_ok hw
  have hsame : r = l := by
    split at hend
    · obtain ⟨r', hstep, hlast⟩ := walk_cons_eq_ok hend
      have hstay : r' = r := (step_eq_ok hstep).2
      rw [← hstay]
      exact Except.ok.inj hlast
    · exact Except.ok.inj hend
  rw [hr, hsame]

theorem locate_below (hb : Below base path names) (hf : t.find here base = .ok (l, .directory))
    (hnul : '\x00' ∉ path.toList) (hne : path ≠ "") (hsize : path.utf8ByteSize ≤ longestPath) :
    t.locate here path = names.foldlM t.step l := by
  have hnul : ¬path.toList.contains '\x00' = true := by simpa using hnul
  have hempty : ¬path.isEmpty = true := fun h => hne (String.isEmpty_iff.1 h)
  have hshort : ¬longestPath < path.utf8ByteSize := Nat.not_lt.2 hsize
  unfold locate
  rw [if_neg hnul, if_neg hempty, if_neg hshort, hb.steps_eq, hb.isAbsolute_eq,
    List.foldlM_append, walk_of_find hf]
  rfl

theorem find_of_locate (hl : t.locate here path = .ok l) : t.find here path =
    match t.at? l with
    | some x => .ok (l, x)
    | none => .error .notFound := by
  unfold find
  rw [hl]
  cases ht : t.at? l with
  | none =>
    change (match t.at? l with | some x => _ | none => _) = _
    rw [ht]
    rfl
  | some x =>
    change (match t.at? l with | some x => _ | none => _) = _
    rw [ht]
    rfl

theorem rename_of_find {source target : String} {origin place : Location} {x : Thing}
    (hf : t.find here source = .ok (origin, x)) (hx : x ≠ .directory)
    (hl : t.locate here target = .ok place) (hfree : t.at? place ≠ some .directory) :
    t.rename here source target = .ok (t.moved origin place) := by
  unfold rename
  refine (bind_ok hf).trans ?_
  refine (bind_ok hl).trans ?_
  rcases ht : t.at? place with _ | _ | _ | _
  · cases x <;> rfl
  · exact absurd ht hfree
  · cases x <;> first | rfl | exact absurd rfl hx
  · cases x <;> first | rfl | exact absurd rfl hx

theorem Replaced.find_directory {t' : FileTree} {place draft : Location}
    (hr : t.Replaced t' place draft) (hf : t.find here path = .ok (l, .directory))
    (hp : ¬place <+: l) (hd : ¬draft <+: l) : t'.find here path = .ok (l, .directory) := by
  obtain ⟨hl, hx⟩ := find_eq_ok hf
  have hl' : t'.locate here path = .ok l := by
    have hw := hr.walk_congr (locate_eq_ok hl) hp hd
    unfold locate at hl ⊢
    split at hl
    · cases hl
    next hnul =>
      split at hl
      · cases hl
      next hempty =>
        split at hl
        · cases hl
        next hlong => rw [if_neg hnul, if_neg hempty, if_neg hlong, hw]
  unfold find
  rw [hl']
  change (match t'.at? l with | some x => _ | none => _) = _
  rw [hr.rest l hp hd, hx]
  rfl

theorem list_of_find (hf : t.find here path = .ok (l, .directory)) :
    t.list here path = .ok (t.children l) := by
  unfold list
  rw [hf]
  rfl

end FileTree

end StackKeeper

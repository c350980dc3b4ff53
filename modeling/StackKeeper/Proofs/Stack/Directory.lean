import StackKeeper.Proofs.Rehearsal.WellFormed
import StackKeeper.Proofs.Stack.FileStore

/-!
# The directory of a store

The manifest of a key stands in the directory of its namespace, next to its draft, and the store
lists the keys of exactly the manifests that are there.
-/

namespace StackKeeper

open FileTree (IsName Below follow)

/-! ## Names of manifests -/

theorem Path.splitName_json {name : String} (hn : name ≠ "") :
    Path.splitName (name ++ ".json") = (name, some "json") := by
  have hsplit : Text.splitAtFirst '.' (name ++ ".json").toList.reverse =
      some ("nosj".toList, name.toList.reverse) := by
    refine Text.splitAtFirst_eq_some_iff.2 ⟨?_, by decide⟩
    rw [String.toList_append, List.reverse_append]
    rfl
  obtain ⟨c, cs, hc⟩ : ∃ c cs, name.toList.reverse = c :: cs := by
    apply List.exists_cons_of_ne_nil
    simpa using hn
  have hdots : name ++ ".json" ≠ ".." := by
    intro heq
    have hlen := congrArg String.length heq
    rw [String.length_append] at hlen
    have hfive : ".json".length = 5 := by decide
    have htwo : "..".length = 2 := by decide
    omega
  unfold Path.splitName
  rw [hsplit, hc]
  dsimp only
  rw [if_neg hdots, ← hc, List.reverse_reverse, String.ofList_toList]
  rfl

theorem Path.splitName_eq_some {file name ext : String}
    (h : Path.splitName file = (name, some ext)) : file = name ++ "." ++ ext ∧ name ≠ "" := by
  unfold Path.splitName at h
  split at h
  · cases h
  · cases h
  next after before hbefore hsplit =>
    split at h
    · cases h
    · obtain ⟨hname, hext⟩ := Prod.ext_iff.1 h
      obtain rfl : String.ofList before.reverse = name := hname
      obtain rfl : String.ofList after.reverse = ext := Option.some.inj hext
      obtain ⟨hfile, -⟩ := Text.splitAtFirst_eq_some_iff.1 hsplit
      have hreverse := congrArg List.reverse hfile
      rw [List.reverse_reverse] at hreverse
      refine ⟨String.toList_inj.1 ?_, ?_⟩
      · simp [hreverse]
      · intro hempty
        have hnil : before.reverse = [] := String.ofList_eq_empty_iff.1 hempty
        exact hbefore (List.reverse_eq_nil_iff.1 hnil)

namespace Stack.FileStore

/-! ## Places -/

variable {s : FileStore} {k k' : Key} {m : Rehearsal} {here : Location} {t : FileTree}

/-- The manifest of a key is right in the directory of its namespace, and the file system takes the
names and paths of the manifest and its draft. -/
structure Fits (s : FileStore) (k : Key) : Prop where
  isName : IsName k.namespace
  nonempty : k.name ≠ ""
  noSlash : '/' ∉ k.name.toList
  noNul : '\x00' ∉ (s.path k).toList
  namespace_le : k.namespace.utf8ByteSize ≤ FileTree.longestName
  name_le : (k.name ++ ".json.tmp").utf8ByteSize ≤ FileTree.longestName
  path_le : (s.path k ++ ".tmp").utf8ByteSize ≤ FileTree.longestPath

namespace Fits

theorem folders_eq (hk : s.Fits k) : k.folders = [k.namespace] := by
  unfold Key.folders
  rw [Text.splitOnChar_of_not_mem hk.noSlash]
  rfl

theorem plain (hk : s.Fits k) : k.Plain := by
  intro d hd
  rw [hk.folders_eq] at hd
  exact List.mem_singleton.1 hd ▸ hk.isName

theorem leaf_eq (hk : s.Fits k) : k.leaf = k.name := by
  have hleaf := k.toList_leaf
  simp only [Text.splitOnChar_of_not_mem hk.noSlash, List.getLast_singleton] at hleaf
  exact String.toList_inj.1 hleaf

theorem below_path (hk : s.Fits k) :
    Below s.root (s.path k) [k.namespace, k.name ++ ".json"] := by
  have hb := s.below_spot hk.plain (e := ".json") (by decide) (by decide)
  rwa [hk.folders_eq, hk.leaf_eq] at hb

theorem draftPath_eq (hk : s.Fits k) : draftPath (s.path k) = s.path k ++ ".tmp" := by
  have hext : Path.extension? (k.name ++ ".json") = some "json" :=
    congrArg Prod.snd (Path.splitName_json hk.nonempty)
  unfold draftPath
  rw [s.fileName?_path hk.plain, hk.leaf_eq]
  dsimp only
  rw [hext]
  rfl

theorem below_draftPath (hk : s.Fits k) :
    Below s.root (draftPath (s.path k)) [k.namespace, k.name ++ ".json.tmp"] := by
  have hb := s.below_spot hk.plain (e := ".json.tmp") (by decide) (by decide)
  have happend := s.path_append hk.plain (e := ".tmp") (by decide)
  have hending : ".json" ++ ".tmp" = ".json.tmp" := by decide
  rw [hending] at happend
  rwa [hk.draftPath_eq, happend, ← hk.leaf_eq, ← List.singleton_append, ← hk.folders_eq]

theorem place_eq (hk : s.Fits k) (here : Location) :
    s.place here k = follow here s.root ++ [k.namespace, k.name ++ ".json"] :=
  hk.below_path.follow_eq here

theorem draftPlace_eq (hk : s.Fits k) (here : Location) :
    s.draftPlace here k = follow here s.root ++ [k.namespace, k.name ++ ".json.tmp"] :=
  hk.below_draftPath.follow_eq here

theorem not_place_prefix_draftPlace (hk : s.Fits k) (hk' : s.Fits k') (here : Location) :
    ¬s.place here k <+: s.draftPlace here k' := by
  rw [hk.place_eq, hk'.draftPlace_eq]
  intro hpre
  have heq := hpre.eq_of_length (by simp)
  have hnames := List.append_cancel_left heq
  simp only [List.cons.injEq, and_true] at hnames
  have hlast := congrArg (fun name => name.toList.getLast?) hnames.2
  simp at hlast

theorem not_draftPlace_prefix_place (hk : s.Fits k) (hk' : s.Fits k') (here : Location) :
    ¬s.draftPlace here k <+: s.place here k' := by
  apply s.not_draftPlace_prefix hk.plain hk'.plain
  rw [hk.folders_eq, hk'.folders_eq]
  rfl

theorem place_ne_draftPlace (hk : s.Fits k) (here : Location) :
    s.place here k ≠ s.draftPlace here k := fun h =>
  hk.not_place_prefix_draftPlace hk here (h ▸ List.prefix_rfl)

end Fits

/-! ## The directory on a machine -/

/-- The directory of a store is on the machine, and those of its namespaces can be opened. -/
structure StandsOn (s : FileStore) (m : Rehearsal) : Prop where
  wellFormed : m.tree.WellFormed
  root : m.tree.find m.here s.root = .ok (follow m.here s.root, .directory)
  folders : ∀ ns, m.tree.at? (follow m.here s.root ++ [ns]) = some .directory →
    m.tree.find m.here (Path.join s.root ns) = .ok (follow m.here s.root ++ [ns], .directory)

/-- There is room for the manifest of a key and its draft. -/
structure Admits (s : FileStore) (m : Rehearsal) (k : Key) : Prop extends s.Fits k where
  folder : ∀ x, m.tree.at? (follow m.here s.root ++ [k.namespace]) = some x → x = .directory
  draft : m.tree.at? (s.draftPlace m.here k) ≠ some .directory

section Requests

variable (hs : s.StandsOn m) (hk : s.Admits m k)
include hs hk

theorem locate_file {path file : String} (hb : Below s.root path [k.namespace, file])
    (hnul : '\x00' ∉ path.toList) (hpath : path.utf8ByteSize ≤ FileTree.longestPath)
    (hfile : file.utf8ByteSize ≤ FileTree.longestName) : m.tree.locate m.here path =
      if m.tree.at? (follow m.here s.root ++ [k.namespace]) = some .directory then
        .ok (follow m.here s.root ++ [k.namespace, file])
      else .error .notFound := by
  have hne : path ≠ "" := by
    rintro rfl
    have hpieces := hb.pieces_eq
    simp [FileTree.pieces, Text.splitOnChar] at hpieces
  have hroot : m.tree.at? (follow m.here s.root) = some .directory :=
    (FileTree.find_eq_ok hs.root).2
  have hname : IsName file := hb.isName file (by simp)
  have hstep := FileTree.step_name hk.isName hk.namespace_le (follow m.here s.root) (t := m.tree)
  rw [hroot] at hstep
  rw [FileTree.locate_below hb hs.root hnul hne hpath, List.foldlM_cons]
  refine (bind_ok hstep).trans ?_
  rw [List.foldlM_cons, FileTree.step_name hname hfile, List.append_assoc]
  cases hfolder : m.tree.at? (follow m.here s.root ++ [k.namespace]) with
  | none => rfl
  | some x =>
    obtain rfl := hk.folder x hfolder
    rfl

theorem locate_path : m.tree.locate m.here (s.path k) =
    if m.tree.at? (follow m.here s.root ++ [k.namespace]) = some .directory then
      .ok (s.place m.here k)
    else .error .notFound := by
  have hpath : (s.path k).utf8ByteSize ≤ FileTree.longestPath := by
    have hlong := hk.path_le
    rw [String.utf8ByteSize_append] at hlong
    omega
  have hfile : (k.name ++ ".json").utf8ByteSize ≤ FileTree.longestName := by
    have hlong := hk.name_le
    rw [String.utf8ByteSize_append] at hlong ⊢
    have hfive : ".json".utf8ByteSize = 5 := by decide
    have hnine : ".json.tmp".utf8ByteSize = 9 := by decide
    omega
  rw [hk.place_eq]
  exact locate_file hs hk hk.below_path hk.noNul hpath hfile

theorem locate_draftPath : m.tree.locate m.here (draftPath (s.path k)) =
    if m.tree.at? (follow m.here s.root ++ [k.namespace]) = some .directory then
      .ok (s.draftPlace m.here k)
    else .error .notFound := by
  have hnul : '\x00' ∉ (draftPath (s.path k)).toList := by
    rw [hk.draftPath_eq, String.toList_append, List.mem_append]
    have hending : '\x00' ∉ ".tmp".toList := by decide
    exact fun h => h.elim hk.noNul hending
  rw [hk.draftPlace_eq]
  refine locate_file hs hk hk.below_draftPath hnul ?_ hk.name_le
  rw [hk.draftPath_eq]
  exact hk.path_le

theorem folder_of_manifest (h : m.tree.at? (s.place m.here k) ≠ none) :
    m.tree.at? (follow m.here s.root ++ [k.namespace]) = some .directory := by
  rw [hk.place_eq] at h
  refine hs.wellFormed.closed _ (k.name ++ ".json") ?_
  rwa [List.append_assoc]

theorem read_path : m.tree.read m.here (s.path k) =
    match m.tree.at? (s.place m.here k) with
    | none => .error .notFound
    | some (.file content _) => .ok content
    | some .directory => .error .isDirectory
    | some .program => .ok [] := by
  have hlocate := locate_path hs hk
  unfold FileTree.read
  by_cases hfolder : m.tree.at? (follow m.here s.root ++ [k.namespace]) = some .directory
  · rw [if_pos hfolder] at hlocate
    rw [FileTree.find_of_locate hlocate]
    rcases m.tree.at? (s.place m.here k) with _ | _ | _ | _ <;> rfl
  · have hnone : m.tree.at? (s.place m.here k) = none := by
      by_cases hplace : m.tree.at? (s.place m.here k) = none
      · exact hplace
      · exact absurd (folder_of_manifest hs hk hplace) hfolder
    have hfind : m.tree.find m.here (s.path k) = .error .notFound := by
      rw [if_neg hfolder] at hlocate
      unfold FileTree.find
      rw [hlocate]
      rfl
    rw [hfind, hnone]
    rfl

end Requests

/-! ## Changes of one manifest -/

/-- Nothing but the manifest of a key and its draft is changed, and neither is a directory. -/
structure Touches (s : FileStore) (m : Rehearsal) (k : Key) (t : FileTree) : Prop where
  wellFormed : t.WellFormed
  before : ∃ x, m.tree.at? (s.place m.here k) = some x ∧ x ≠ .directory
  after : ∃ x, t.at? (s.place m.here k) = some x ∧ x ≠ .directory
  draftBefore : m.tree.at? (s.draftPlace m.here k) ≠ some .directory
  draftAfter : t.at? (s.draftPlace m.here k) ≠ some .directory
  rest : ∀ l, l ≠ s.place m.here k → l ≠ s.draftPlace m.here k → t.at? l = m.tree.at? l

namespace Touches

variable (ht : s.Touches m k t) (hk : s.Fits k)
include ht

theorem replaced : m.tree.Replaced t (s.place m.here k) (s.draftPlace m.here k) where
  before := ht.before
  after := ht.after
  free := ht.draftBefore
  rest l hl hd := by
    apply ht.rest
    · intro heq
      exact hl (heq ▸ List.prefix_rfl)
    · intro heq
      exact hd (heq ▸ List.prefix_rfl)

include hk

theorem at?_short {l : Location} (hl : l.length < (follow m.here s.root).length + 2) :
    t.at? l = m.tree.at? l := by
  apply ht.rest
  · intro heq
    simp [heq, hk.place_eq] at hl
  · intro heq
    simp [heq, hk.draftPlace_eq] at hl

theorem standsOn (hs : s.StandsOn m) : s.StandsOn { m with tree := t } := by
  have hlong : ∀ l : Location, l.length < (follow m.here s.root).length + 2 →
      ¬s.place m.here k <+: l ∧ ¬s.draftPlace m.here k <+: l := by
    intro l hl
    constructor
    · intro hpre
      have hle := hpre.length_le
      simp only [hk.place_eq, List.length_append, List.length_cons, List.length_nil] at hle
      omega
    · intro hpre
      have hle := hpre.length_le
      simp only [hk.draftPlace_eq, List.length_append, List.length_cons, List.length_nil] at hle
      omega
  obtain ⟨hp, hd⟩ := hlong (follow m.here s.root) (by omega)
  have hroot := ht.replaced.find_directory hs.root hp hd
  have hfolders : ∀ ns, t.at? (follow m.here s.root ++ [ns]) = some .directory →
      t.find m.here (Path.join s.root ns) = .ok (follow m.here s.root ++ [ns], .directory) := by
    intro ns hfolder
    have hlength : (follow m.here s.root ++ [ns]).length < (follow m.here s.root).length + 2 := by
      simp
    rw [ht.at?_short hk hlength] at hfolder
    obtain ⟨hp, hd⟩ := hlong _ hlength
    exact ht.replaced.find_directory (hs.folders ns hfolder) hp hd
  exact ⟨ht.wellFormed, hroot, hfolders⟩

theorem admits (hk' : s.Admits m k') : s.Admits { m with tree := t } k' := by
  have hlength : (follow m.here s.root ++ [k'.namespace]).length <
      (follow m.here s.root).length + 2 := by
    simp
  have hfolder : ∀ x, t.at? (follow m.here s.root ++ [k'.namespace]) = some x →
      x = .directory := by
    intro x hx
    rw [ht.at?_short hk hlength] at hx
    exact hk'.folder x hx
  have hdraft : t.at? (s.draftPlace m.here k') ≠ some .directory := by
    by_cases heq : s.draftPlace m.here k' = s.draftPlace m.here k
    · rw [heq]
      exact ht.draftAfter
    · have hne : s.draftPlace m.here k' ≠ s.place m.here k := fun h =>
        hk.not_place_prefix_draftPlace hk'.toFits m.here (h ▸ List.prefix_rfl)
      rw [ht.rest _ hne heq]
      exact hk'.draft
  exact ⟨hk'.toFits, hfolder, hdraft⟩

theorem at?_place (hk' : s.Fits k') (hne : k' ≠ k) :
    t.at? (s.place m.here k') = m.tree.at? (s.place m.here k') := by
  apply ht.rest
  · exact s.place_ne hk'.plain hk.plain hne m.here
  · intro h
    exact hk.not_draftPlace_prefix_place hk' m.here (h ▸ List.prefix_rfl)

end Touches

theorem StandsOn.isName_above (hs : s.StandsOn m) : ∀ n ∈ follow m.here s.root, IsName n := by
  intro n hn
  have hroot := (FileTree.find_eq_ok hs.root).2
  have hne : follow m.here s.root ≠ [] := List.ne_nil_of_mem hn
  rw [FileTree.at?_eq_lookup _ hne] at hroot
  exact hs.wellFormed.isName _ (mem_of_lookup hroot) n hn

theorem Fits.movable (hk : s.Fits k) {bytes : Bytes} {mode : Host.Mode}
    (hx : ∃ x, m.tree.at? (s.place m.here k) = some x ∧ x ≠ .directory)
    (hdraft : m.tree.at? (s.draftPlace m.here k) = some (.file bytes mode)) :
    m.tree.Movable (s.draftPlace m.here k) (s.place m.here k) (.file bytes mode) where
  ne_root := by simp [hk.draftPlace_eq]
  place_ne_root := by simp [hk.place_eq]
  thing := hdraft
  file := nofun
  free := by
    obtain ⟨x, hx, hfile⟩ := hx
    rw [hx]
    exact fun heq => hfile (Option.some.inj heq)

section Changes

variable (hs : s.StandsOn m) (hk : s.Admits m k)
  (hx : ∃ x, m.tree.at? (s.place m.here k) = some x ∧ x ≠ .directory) {bytes : Bytes}
  {mode : Host.Mode}
include hs hk hx

theorem folder_of_file :
    m.tree.at? (follow m.here s.root ++ [k.namespace]) = some .directory := by
  obtain ⟨x, hx, -⟩ := hx
  apply folder_of_manifest hs hk
  rw [hx]
  exact nofun

theorem write_draft (bytes : Bytes) :
    ∃ t, m.tree.write m.here (draftPath (s.path k)) bytes .default = .ok t := by
  have hfolder := folder_of_file hs hk hx
  have hlocate := locate_draftPath hs hk
  rw [if_pos hfolder] at hlocate
  have hslash : ¬((draftPath (s.path k)).toList.getLast? == some '/') = true := by
    simpa using hk.below_draftPath.openEnd
  have hroot : ¬(s.draftPlace m.here k).isEmpty = true := by
    rw [hk.draftPlace_eq]
    simp
  have habove : (s.draftPlace m.here k).dropLast = follow m.here s.root ++ [k.namespace] := by
    rw [hk.draftPlace_eq, List.dropLast_append_of_ne_nil (List.cons_ne_nil _ _)]
    rfl
  unfold FileTree.write
  dsimp only
  rw [if_neg hslash, hlocate]
  simp only [bind, Except.bind]
  rw [if_neg hroot, habove, hfolder]
  cases hd : m.tree.at? (s.draftPlace m.here k) with
  | none => exact ⟨_, rfl⟩
  | some x =>
    cases x with
    | directory => exact absurd hd hk.draft
    | file content before => exact ⟨_, rfl⟩
    | program => exact ⟨_, rfl⟩

/-- What is written as a draft stands at its place, and nothing else is changed. -/
theorem touches_write (hw : m.tree.write m.here (draftPath (s.path k)) bytes mode = .ok t) :
    s.Touches m k t ∧ ∃ mode, ∀ l, t.at? l =
      if l = s.draftPlace m.here k then some (.file bytes mode) else m.tree.at? l := by
  obtain ⟨hfree, hne, mode, ht⟩ := FileTree.write_eq_ok hw
  have hfree : m.tree.at? (s.draftPlace m.here k) ≠ some .directory := hfree
  have hne : s.draftPlace m.here k ≠ [] := hne
  have ht : t = m.tree.put (s.draftPlace m.here k) (.file bytes mode) := ht
  have hat : ∀ l, t.at? l =
      if l = s.draftPlace m.here k then some (.file bytes mode) else m.tree.at? l := by
    intro l
    rw [ht]
    exact FileTree.at?_put m.tree _ hne l
  have hdraft : t.at? (s.draftPlace m.here k) = some (.file bytes mode) := by
    rw [hat, if_pos rfl]
  have hother : ∀ l, l ≠ s.draftPlace m.here k → t.at? l = m.tree.at? l := by
    intro l hl
    rw [hat, if_neg hl]
  have hnames : ∀ n ∈ s.draftPlace m.here k, IsName n := by
    intro n hn
    rw [hk.draftPlace_eq] at hn
    rcases List.mem_append.1 hn with hn | hn
    · exact hs.isName_above n hn
    · exact hk.below_draftPath.isName n hn
  have habove : (s.draftPlace m.here k).dropLast = follow m.here s.root ++ [k.namespace] := by
    rw [hk.draftPlace_eq, List.dropLast_append_of_ne_nil (List.cons_ne_nil _ _)]
    rfl
  have hparent : m.tree.at? (s.draftPlace m.here k).dropLast = some .directory := by
    rw [habove]
    exact folder_of_file hs hk hx
  have hwell : t.WellFormed := by
    rw [ht]
    exact hs.wellFormed.put hnames hne hfree hparent
  refine ⟨⟨hwell, hx, ?_, hfree, ?_, fun l _ hl => hother l hl⟩, mode, hat⟩
  · rw [hother _ (hk.place_ne_draftPlace m.here)]
    exact hx
  · rw [hdraft]
    exact nofun

variable (hdraft : m.tree.at? (s.draftPlace m.here k) = some (.file bytes mode))
include hdraft

theorem rename_draft : m.tree.rename m.here (draftPath (s.path k)) (s.path k) =
    .ok (m.tree.moved (s.draftPlace m.here k) (s.place m.here k)) := by
  have hfolder := folder_of_file hs hk hx
  have hdraftLocated := locate_draftPath hs hk
  have hplaceLocated := locate_path hs hk
  rw [if_pos hfolder] at hdraftLocated hplaceLocated
  have hfound := FileTree.find_of_locate hdraftLocated
  rw [hdraft] at hfound
  exact FileTree.rename_of_find hfound nofun hplaceLocated (hk.movable hx hdraft).free

theorem touches_rename (hr : m.tree.rename m.here (draftPath (s.path k)) (s.path k) = .ok t) :
    s.Touches m k t ∧ ∀ l, t.at? l =
      if l = s.place m.here k then some (.file bytes mode)
      else if l = s.draftPlace m.here k then none else m.tree.at? l := by
  have hm := hk.movable hx hdraft
  have ht : t = m.tree.moved (s.draftPlace m.here k) (s.place m.here k) := by
    rw [rename_draft hs hk hx hdraft] at hr
    exact (Except.ok.inj hr).symm
  have hat : ∀ l, t.at? l = if l = s.place m.here k then some (.file bytes mode)
      else if l = s.draftPlace m.here k then none else m.tree.at? l := by
    intro l
    rw [ht]
    exact hm.at?_moved hs.wellFormed l
  have hplace : t.at? (s.place m.here k) = some (.file bytes mode) := by rw [hat, if_pos rfl]
  have hnames : ∀ n ∈ s.place m.here k, IsName n := by
    intro n hn
    rw [hk.place_eq] at hn
    rcases List.mem_append.1 hn with hn | hn
    · exact hs.isName_above n hn
    · exact hk.below_path.isName n hn
  have habove : (s.place m.here k).dropLast = follow m.here s.root ++ [k.namespace] := by
    rw [hk.place_eq, List.dropLast_append_of_ne_nil (List.cons_ne_nil _ _)]
    rfl
  have hparent : m.tree.at? (s.place m.here k).dropLast = some .directory := by
    rw [habove]
    exact folder_of_file hs hk hx
  have hwell : t.WellFormed := by
    rw [ht]
    exact hm.wellFormed hs.wellFormed hnames hparent
  refine ⟨⟨hwell, hx, ⟨_, hplace, nofun⟩, hk.draft, ?_, fun l hl hd => ?_⟩, hat⟩
  · rw [hat, if_neg (hk.place_ne_draftPlace m.here).symm, if_pos rfl]
    exact nofun
  · rw [hat, if_neg hl, if_neg hd]

end Changes

end Stack.FileStore

end StackKeeper

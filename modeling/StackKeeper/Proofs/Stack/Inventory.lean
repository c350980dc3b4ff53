import StackKeeper.Proofs.Stack.Listing
import StackKeeper.Proofs.Stack.Spec

/-!
# Inventories

A machine may name the entries of a directory in any order. What a store lists is the same for every
order: the keys of the manifests that are there, sorted, each of them once. A key that is listed can
be printed and read back, and leads to the manifest it was listed for.
-/

namespace StackKeeper

open FileTree (IsName Below follow)

variable {m : Rehearsal}

/-! ## Truthful machines -/

/-- What a machine tells of its files: what they hold, and what is in directories, in any order. -/
def Rehearsal.Tells (m : Rehearsal) : Exchange Host → Prop
  | ⟨.readFile path, content⟩ => content = m.tree.read m.here path
  | ⟨.listDirectory path, entries⟩ => ∃ shuffle : List Host.Entry → List Host.Entry,
      (∀ l, (shuffle l).Perm l) ∧ entries = (m.tree.list m.here path).map shuffle
  | _ => True

namespace FileTree

variable {t : FileTree} {here l : Location} {base path : String} {names : List String} {x : Thing}

/-- Names that a file system takes. -/
def Named (t : FileTree) : Prop :=
  ∀ e ∈ t.things, ∀ n ∈ e.1, n.utf8ByteSize ≤ longestName ∧ '\x00' ∉ n.toList

theorem WellFormed.walk_eq (ht : t.WellFormed)
    (hn : ∀ n ∈ names, IsName n ∧ n.utf8ByteSize ≤ longestName) (hat : t.at? (l ++ names) ≠ none) :
    names.foldlM t.step l = .ok (l ++ names) := by
  induction names generalizing l with
  | nil => exact congrArg Except.ok (List.append_nil l).symm
  | cons name names ih =>
    obtain ⟨⟨hname, hsize⟩, hrest⟩ := List.forall_mem_cons.1 hn
    have hdirectory : t.at? l = some .directory := by
      by_cases hd : t.at? l = some .directory
      · exact hd
      · exact absurd (ht.at?_below hd (List.cons_ne_nil name names)) hat
    have hstep := step_name hname hsize l (t := t)
    rw [hdirectory] at hstep
    rw [List.append_cons] at hat ⊢
    rw [List.foldlM_cons]
    exact (bind_ok hstep).trans (ih hrest hat)

theorem noNul_join {p : String} (hbase : '\x00' ∉ base.toList) (hp : '\x00' ∉ p.toList) :
    '\x00' ∉ (Path.join base p).toList := by
  have hslash : '\x00' ∉ "/".toList := by decide
  unfold Path.join
  split
  · exact hp
  · split
    · rw [String.toList_append, List.mem_append, not_or]
      exact ⟨hbase, hp⟩
    · rw [String.toList_append, String.toList_append, List.mem_append, List.mem_append, not_or,
        not_or]
      exact ⟨⟨hbase, hslash⟩, hp⟩

theorem noNul_of_find (hf : t.find here path = .ok (l, x)) : '\x00' ∉ path.toList := by
  intro hnul
  have hl := (find_eq_ok hf).1
  unfold locate at hl
  rw [if_pos (List.contains_iff_mem.2 hnul)] at hl
  cases hl

/-- A path that leads down to something is refused only for its length. -/
theorem WellFormed.find_below (ht : t.WellFormed) (hnamed : t.Named)
    (hf : t.find here base = .ok (l, .directory)) (hb : Below base path names) (hne : names ≠ [])
    (hnul : '\x00' ∉ path.toList) (hx : t.at? (l ++ names) = some x) : t.find here path =
      if longestPath < path.utf8ByteSize then .error .nameTooLong else .ok (l ++ names, x) := by
  have hmem : (l ++ names, x) ∈ t.things := by
    rw [at?_eq_lookup t (List.append_ne_nil_of_right_ne_nil l hne)] at hx
    exact mem_of_lookup hx
  have hsize : ∀ n ∈ names, IsName n ∧ n.utf8ByteSize ≤ longestName := fun n hn =>
    ⟨hb.isName n hn, (hnamed _ hmem n (List.mem_append_right l hn)).1⟩
  have hempty : path ≠ "" := by
    rintro rfl
    have hpieces := hb.pieces_eq
    have hnone : pieces "" = [] := rfl
    rw [hnone] at hpieces
    exact hne (List.append_eq_nil_iff.1 hpieces.symm).2
  split
  next hlong =>
    have hnul' : ¬path.toList.contains '\x00' = true := by simpa using hnul
    have hempty' : ¬path.isEmpty = true := fun h => hempty (String.isEmpty_iff.1 h)
    unfold find locate
    rw [if_neg hnul', if_neg hempty', if_pos hlong]
    rfl
  next hshort =>
    have hwalk := ht.walk_eq hsize (l := l) (by rw [hx]; nofun)
    have hlocate := (locate_below hb hf hnul hempty (Nat.le_of_not_lt hshort)).trans hwalk
    rw [find_of_locate hlocate, hx]

theorem WellFormed.at?_of_mem_children (ht : t.WellFormed) {e : Host.Entry}
    (he : e ∈ t.children l) (hdirectory : e.isDirectory = true) :
    t.at? (l ++ [e.name]) = some .directory := by
  obtain ⟨x, hx, hkind⟩ := ht.mem_children_iff.1 he
  rw [hdirectory] at hkind
  rw [hx, eq_of_beq hkind.symm]

end FileTree

namespace Stack.FileStore

variable {s : FileStore} {k : Key} {h : Transcript Host}

/-- The directory of a store is on the machine, in a tree that a file system can hold. -/
structure Stocked (s : FileStore) (m : Rehearsal) : Prop where
  wellFormed : m.tree.WellFormed
  named : m.tree.Named
  root : m.tree.find m.here s.root = .ok (follow m.here s.root, .directory)

/-- The paths of the directories of namespaces are not too long for the machine. -/
def WithinReach (s : FileStore) (m : Rehearsal) : Prop :=
  ∀ ns, m.tree.at? (follow m.here s.root ++ [ns]) = some .directory →
    (Path.join s.root ns).utf8ByteSize ≤ FileTree.longestPath

/-- The keys of the manifests, in order, each of them once. -/
structure Inventory (s : FileStore) (m : Rehearsal) (keys : List Key) : Prop where
  sorted : keys.Pairwise fun a b => Key.le a b = true ∧ a ≠ b
  mem_iff : ∀ k, k ∈ keys ↔ k.name ≠ "" ∧
    m.tree.at? (follow m.here s.root ++ [k.namespace, k.name ++ ".json"]) ≠ none

/-- The key is read back as it is printed, and what is read for it is its manifest and nothing else.
A machine can refuse the path for its length, but not because nothing is there. -/
structure Addresses (s : FileStore) (m : Rehearsal) (k : Key) : Prop where
  readBack : Key.ofText k.toText = .ok k
  place_eq : s.place m.here k = follow m.here s.root ++ [k.namespace, k.name ++ ".json"]
  find_eq : ∃ x, m.tree.at? (s.place m.here k) = some x ∧ m.tree.find m.here (s.path k) =
    if FileTree.longestPath < (s.path k).utf8ByteSize then .error .nameTooLong
    else .ok (s.place m.here k, x)
  get : ∀ h r, (s.get k).Ends h r → (∀ e ∈ h, m.Tells e) →
    (∃ content, h = [⟨.readFile (s.path k), content⟩]) ∧ ∀ text, r ≠ .error (.notFound text)

/-! ## Keys lead to manifests -/

theorem configOnly_mapError {α ε : Type} (x : Except ε α) (f : ε → String) :
    ConfigOnly (x.mapError fun e => .config (f e)) := by
  intro e he
  obtain ⟨own, -, rfl⟩ := mapError_eq_error_iff.1 he
  exact ⟨f own, rfl⟩

theorem kindOf_configOnly (v : Json) : ConfigOnly (Registry.kindOf v) := by
  unfold Registry.kindOf
  split
  · split
    · exact configOnly_ok _
    · exact configOnly_config _
  · exact configOnly_config _

theorem decodeStack_configOnly (r : Registry) (v : Json) : ConfigOnly (r.decodeStack v) := by
  unfold Registry.decodeStack Registry.decodeAs
  refine (kindOf_configOnly v).bind fun named => ?_
  dsimp only
  split
  · exact configOnly_config _
  · split
    · exact configOnly_config _
    · exact configOnly_mapError _ _

theorem ofText_configOnly (s : FileStore) (k : Key) (text : String) :
    ConfigOnly (s.ofText k text) := by
  unfold ofText
  refine (configOnly_mapError _ _).bind fun v => ?_
  exact (decodeStack_configOnly _ v).bind fun stack => configOnly_ok _

theorem judged_ne_notFound {content : Except Host.Fault Bytes} (h : content ≠ .error .notFound)
    (text : String) : s.judged k content ≠ .error (.notFound text) := by
  unfold judged
  split
  · exact absurd rfl h
  · nofun
  · split
    · intro he
      obtain ⟨_, hconfig⟩ := s.ofText_configOnly k _ _ he
      cases hconfig
    · nofun

namespace Stocked

variable (hs : s.Stocked m)
include hs

theorem names {names : List String} {x : FileTree.Thing} (hne : names ≠ [])
    (hx : m.tree.at? (follow m.here s.root ++ names) = some x) :
    ∀ n ∈ names, IsName n ∧ '\x00' ∉ n.toList := by
  rw [FileTree.at?_eq_lookup _ (List.append_ne_nil_of_right_ne_nil _ hne)] at hx
  have hmem := mem_of_lookup hx
  intro n hn
  have hn' := List.mem_append_right (follow m.here s.root) hn
  exact ⟨hs.wellFormed.isName _ hmem n hn', (hs.named _ hmem n hn').2⟩

theorem find_folder {ns : String}
    (hx : m.tree.at? (follow m.here s.root ++ [ns]) = some .directory) :
    m.tree.find m.here (Path.join s.root ns) =
      if FileTree.longestPath < (Path.join s.root ns).utf8ByteSize then .error .nameTooLong
      else .ok (follow m.here s.root ++ [ns], .directory) := by
  obtain ⟨hname, hnul⟩ := hs.names (by simp) hx ns (by simp)
  exact hs.wellFormed.find_below hs.named hs.root (.of_join hname.spells) (by simp)
    (FileTree.noNul_join (FileTree.noNul_of_find hs.root) hnul) hx

theorem addresses (hname : k.name ≠ "")
    (hat : m.tree.at? (follow m.here s.root ++ [k.namespace, k.name ++ ".json"]) ≠ none) :
    s.Addresses m k := by
  obtain ⟨x, hx⟩ := Option.ne_none_iff_exists'.1 hat
  have hnames := hs.names (by simp) hx
  obtain ⟨hns, hnsNul⟩ := hnames k.namespace (by simp)
  obtain ⟨hfile, hfileNul⟩ := hnames (k.name ++ ".json") (by simp)
  have hbelow : Below s.root (s.path k) [k.namespace, k.name ++ ".json"] :=
    Below.of_joined hns.spells hfile.spells
  have hplace : s.place m.here k = follow m.here s.root ++ [k.namespace, k.name ++ ".json"] :=
    hbelow.follow_eq m.here
  have hnul : '\x00' ∉ (s.path k).toList :=
    FileTree.noNul_join (FileTree.noNul_join (FileTree.noNul_of_find hs.root) hnsNul) hfileNul
  have hfind := hs.wellFormed.find_below hs.named hs.root hbelow (by simp) hnul hx
  rw [← hplace] at hx hfind
  have hread : m.tree.read m.here (s.path k) ≠ .error .notFound := by
    unfold FileTree.read
    rw [hfind]
    split
    · nofun
    · cases x <;> nofun
  refine ⟨Key.ofText_toText hns.nonempty hns.noSlash hname, hplace, ⟨x, hx, hfind⟩, ?_⟩
  intro h r hends htold
  rw [get_eq] at hends
  obtain ⟨content, h', rfl, hdone⟩ := Dialogue.ends_ask_iff.1 hends
  obtain ⟨rfl, rfl⟩ := Dialogue.ends_done_iff.1 hdone
  have hcontent : content = m.tree.read m.here (s.path k) := htold _ List.mem_cons_self
  exact ⟨⟨content, rfl⟩, judged_ne_notFound (hcontent ▸ hread)⟩

theorem list_folder {ns : String}
    (hx : m.tree.at? (follow m.here s.root ++ [ns]) = some .directory) :
    m.tree.list m.here (Path.join s.root ns) =
      if FileTree.longestPath < (Path.join s.root ns).utf8ByteSize then .error .nameTooLong
      else .ok (m.tree.children (follow m.here s.root ++ [ns])) := by
  have hfind := hs.find_folder hx
  split at hfind
  next hlong =>
    rw [if_pos hlong]
    unfold FileTree.list
    rw [hfind]
    rfl
  next hshort => rw [if_neg hshort, FileTree.list_of_find hfind]

theorem standsOn (hreach : s.WithinReach m) : s.StandsOn m where
  wellFormed := hs.wellFormed
  root := hs.root
  folders ns hx := by rw [hs.find_folder hx, if_neg (Nat.not_lt.2 (hreach ns hx))]

end Stocked

/-! ## Listing in any order -/

theorem ends_listDirectory {α : Type} {path : String} {r : α}
    {f : Except Host.Fault (List Host.Entry) → Host.Talk α}
    (hends : (Host.listDirectory path >>= f).Ends h r) (htold : ∀ e ∈ h, m.Tells e) :
    ∃ (shuffle : List Host.Entry → List Host.Entry) (h' : Transcript Host),
      (∀ l, (shuffle l).Perm l) ∧ (∀ e ∈ h', m.Tells e) ∧
      (f ((m.tree.list m.here path).map shuffle)).Ends h' r := by
  obtain ⟨entries, h', rfl, hrest⟩ := Dialogue.ends_ask_iff.1 hends
  obtain ⟨shuffle, hshuffle, hentries⟩ := htold _ List.mem_cons_self
  refine ⟨shuffle, h', hshuffle, fun e he => htold e (List.mem_cons_of_mem _ he), ?_⟩
  rw [← hentries]
  exact hrest

def entryKeys (s : FileStore) (m : Rehearsal) (e : Host.Entry) : List Key :=
  if e.isDirectory then s.keysAt m e.name else []

/-- The directories of namespaces are gone through in the order that the machine names them in. -/
theorem keysIn_tells {entries : List Host.Entry} {r : Except Error (List Key)}
    (hfolders : ∀ e ∈ entries, e.isDirectory = true →
      m.tree.find m.here (Path.join s.root e.name) =
        .ok (follow m.here s.root ++ [e.name], .directory))
    (hends : (s.keysIn entries).Ends h r) (htold : ∀ e ∈ h, m.Tells e) :
    ∃ keys, r = .ok keys ∧ keys.Perm (entries.flatMap (s.entryKeys m)) := by
  induction entries generalizing h r with
  | nil =>
    obtain ⟨-, rfl⟩ := Dialogue.ends_done_iff.1 hends
    exact ⟨[], rfl, .nil⟩
  | cons e rest ih =>
    have hrest := fun e he => hfolders e (List.mem_cons_of_mem _ he)
    rw [List.flatMap_cons, entryKeys]
    unfold keysIn at hends
    cases hdirectory : e.isDirectory with
    | false =>
      rw [hdirectory] at hends
      exact ih hrest hends htold
    | true =>
      rw [hdirectory] at hends
      have hlist := FileTree.list_of_find (hfolders e List.mem_cons_self hdirectory)
      obtain ⟨shuffle, h', hshuffle, htold', hends⟩ := ends_listDirectory hends htold
      rw [hlist] at hends
      obtain ⟨h₁, h₂, own, rfl, hown, hdone⟩ := Dialogue.ends_bind_iff.1 hends
      obtain ⟨keys, rfl, hkeys⟩ := ih hrest hown fun e he => htold' e (List.mem_append_left _ he)
      obtain ⟨-, rfl⟩ := Dialogue.ends_done_iff.1 hdone
      exact ⟨_, rfl, (((hshuffle _).filterMap _).map _).append hkeys⟩

/-- Where one directory cannot be listed for the length of its path, none is. -/
theorem keysIn_too_long {entries : List Host.Entry} {r : Except Error (List Key)}
    (hlists : ∀ e ∈ entries, e.isDirectory = true →
      m.tree.list m.here (Path.join s.root e.name) = .error .nameTooLong ∨
        ∃ files, m.tree.list m.here (Path.join s.root e.name) = .ok files)
    (hlong : ∃ e ∈ entries, e.isDirectory = true ∧
      m.tree.list m.here (Path.join s.root e.name) = .error .nameTooLong)
    (hends : (s.keysIn entries).Ends h r) (htold : ∀ e ∈ h, m.Tells e) :
    r = .error (.io Host.Fault.nameTooLong.message) := by
  induction entries generalizing h r with
  | nil =>
    obtain ⟨e, he, -⟩ := hlong
    cases he
  | cons e rest ih =>
    have hrest := fun e he => hlists e (List.mem_cons_of_mem _ he)
    -- if this is not the directory whose path is too long, a later one is
    have hlater : ¬(e.isDirectory = true ∧
        m.tree.list m.here (Path.join s.root e.name) = .error .nameTooLong) →
        ∃ e ∈ rest, e.isDirectory = true ∧
          m.tree.list m.here (Path.join s.root e.name) = .error .nameTooLong := by
      intro hnot
      obtain ⟨e', he', hbad⟩ := hlong
      rcases List.mem_cons.1 he' with rfl | he'
      · exact absurd hbad hnot
      · exact ⟨e', he', hbad⟩
    unfold keysIn at hends
    by_cases hdirectory : e.isDirectory = true
    · rw [hdirectory] at hends
      obtain ⟨shuffle, h', -, htold', hends⟩ := ends_listDirectory hends htold
      rcases hlists e List.mem_cons_self hdirectory with hlist | ⟨files, hlist⟩
      · rw [hlist] at hends
        obtain ⟨-, rfl⟩ := Dialogue.ends_done_iff.1 hends
        rfl
      · rw [hlist] at hends
        obtain ⟨h₁, h₂, own, rfl, hown, hdone⟩ := Dialogue.ends_bind_iff.1 hends
        have hbad := hlater fun hboth => by cases hlist.symm.trans hboth.2
        have hfail := ih hrest hbad hown fun e he => htold' e (List.mem_append_left _ he)
        obtain ⟨-, rfl⟩ := Dialogue.ends_done_iff.1 hdone
        rw [hfail]
        rfl
    · rw [Bool.eq_false_iff.2 hdirectory] at hends
      exact ih hrest (hlater fun hboth => hdirectory hboth.1) hends htold

theorem inventory_keys (hs : s.StandsOn m) : s.Inventory m ((s.keys m).mergeSort Key.le) where
  sorted := by
    have hordered := List.pairwise_mergeSort Key.le_trans Key.le_total (s.keys m)
    have hnodup : ((s.keys m).mergeSort Key.le).Nodup :=
      (List.mergeSort_perm _ _).nodup_iff.2 (nodup_keys hs)
    exact hordered.and hnodup
  mem_iff k := List.mem_mergeSort.trans (mem_keys_iff hs)

/-- What is listed is read from the entries of the directory of the store, in some order. -/
theorem ends_list {r : Except Error (List Key)}
    (hroot : m.tree.find m.here s.root = .ok (follow m.here s.root, .directory))
    (hends : s.list.Ends h r) (htold : ∀ e ∈ h, m.Tells e) :
    ∃ entries h' own, entries.Perm (m.tree.children (follow m.here s.root)) ∧
      (∀ e ∈ h', m.Tells e) ∧ (s.keysIn entries).Ends h' own ∧
      r = own.map (·.mergeSort Key.le) := by
  unfold list at hends
  obtain ⟨shuffle, h', hshuffle, htold', hends⟩ := ends_listDirectory hends htold
  rw [FileTree.list_of_find hroot] at hends
  obtain ⟨h₁, h₂, own, rfl, hown, hdone⟩ := Dialogue.ends_bind_iff.1 hends
  obtain ⟨-, rfl⟩ := Dialogue.ends_done_iff.1 hdone
  exact ⟨_, h₁, own, hshuffle _, fun e he => htold' e (List.mem_append_left _ he), hown, rfl⟩

/-- The order in which a machine names the entries of directories does not show in the list. -/
theorem list_tells (hs : s.StandsOn m) {r : Except Error (List Key)} (hends : s.list.Ends h r)
    (htold : ∀ e ∈ h, m.Tells e) : r = .ok ((s.keys m).mergeSort Key.le) := by
  obtain ⟨entries, h', own, hentries, htold', hown, rfl⟩ := ends_list hs.root hends htold
  have hfolders : ∀ e ∈ entries, e.isDirectory = true →
      m.tree.find m.here (Path.join s.root e.name) =
        .ok (follow m.here s.root ++ [e.name], .directory) := by
    intro e he hdirectory
    exact hs.folders e.name
      (hs.wellFormed.at?_of_mem_children (hentries.mem_iff.1 he) hdirectory)
  obtain ⟨keys, rfl, hkeys⟩ := keysIn_tells hfolders hown htold'
  have hperm : keys.Perm (s.keys m) := hkeys.trans (hentries.flatMap_right _)
  have hnodup := nodup_keys hs
  exact congrArg Except.ok
    (Key.mergeSort_eq (hperm.nodup_iff.2 hnodup) hnodup fun _ => hperm.mem_iff)

theorem list_too_long (hs : s.Stocked m) (hreach : ¬s.WithinReach m) {r : Except Error (List Key)}
    (hends : s.list.Ends h r) (htold : ∀ e ∈ h, m.Tells e) :
    r = .error (.io Host.Fault.nameTooLong.message) := by
  obtain ⟨entries, h', own, hentries, htold', hown, rfl⟩ := ends_list hs.root hends htold
  have hlists : ∀ e ∈ entries, e.isDirectory = true →
      m.tree.list m.here (Path.join s.root e.name) = .error .nameTooLong ∨
        ∃ files, m.tree.list m.here (Path.join s.root e.name) = .ok files := by
    intro e he hdirectory
    have hlist := hs.list_folder
      (hs.wellFormed.at?_of_mem_children (hentries.mem_iff.1 he) hdirectory)
    split at hlist
    · exact .inl hlist
    · exact .inr ⟨_, hlist⟩
  have hlong : ∃ e ∈ entries, e.isDirectory = true ∧
      m.tree.list m.here (Path.join s.root e.name) = .error .nameTooLong := by
    obtain ⟨ns, hns⟩ := Classical.not_forall.1 hreach
    obtain ⟨hx, hsize⟩ := Classical.not_imp.1 hns
    have hchild : (⟨ns, true⟩ : Host.Entry) ∈ m.tree.children (follow m.here s.root) :=
      hs.wellFormed.mem_children_iff.2 ⟨_, hx, rfl⟩
    have hlist := hs.list_folder hx
    rw [if_pos (Nat.lt_of_not_le hsize)] at hlist
    exact ⟨_, hentries.mem_iff.2 hchild, rfl, hlist⟩
  rw [keysIn_too_long hlists hlong hown htold']
  rfl

/-- A store whose directory is on the machine lists its inventory, in whatever order the machine
names files and directories, and each key that is listed leads to its manifest. If the path of a
namespace is too long for the machine, the list is refused. -/
theorem list_takes_inventory (hs : s.Stocked m) :
    (s.WithinReach m → ∃ keys, s.Inventory m keys ∧ m.play s.list = (.ok keys, m) ∧
      (∀ h r, s.list.Ends h r → (∀ e ∈ h, m.Tells e) → r = .ok keys) ∧
      ∀ k ∈ keys, s.Addresses m k) ∧
    (¬s.WithinReach m → ∀ h r, s.list.Ends h r → (∀ e ∈ h, m.Tells e) →
      r = .error (.io Host.Fault.nameTooLong.message)) := by
  refine ⟨fun hreach => ?_, fun hreach h r => list_too_long hs hreach⟩
  have hstands := hs.standsOn hreach
  have hkeys := inventory_keys hstands
  refine ⟨_, hkeys, play_list hstands, fun h r => list_tells hstands, fun k hk => ?_⟩
  obtain ⟨hname, hat⟩ := (hkeys.mem_iff k).1 hk
  exact hs.addresses hname hat

/-- A machine with manifests whose names have dots, and with things that are none. -/
def annex : Rehearsal :=
  { (default : Rehearsal) with
    tree := ⟨[(["stacks"], .directory), (["stacks", "infra"], .directory),
      (["stacks", "infra", "v1.2.json"], .file slip .default),
      (["stacks", "infra", ".json"], .file slip .default),
      (["stacks", "infra", "notes.txt"], .file [] .default),
      (["stacks", "infra", "old.json"], .directory),
      (["stacks", "app.json"], .file slip .default)]⟩ }

theorem stocked_annex : shelf.Stocked annex where
  wellFormed := by
    apply FileTree.wellFormed_of_things
    · decide
    · have hnames : ∀ n ∈ ["stacks", "infra", "v1.2.json", ".json", "notes.txt", "old.json",
          "app.json"], IsName n := by
        intro n hn
        simp only [List.mem_cons, List.not_mem_nil, or_false] at hn
        rcases hn with rfl | rfl | rfl | rfl | rfl | rfl | rfl
        all_goals exact ⟨by decide, by decide, by decide, by decide⟩
      have hsub : ∀ e ∈ annex.tree.things, e.1 ⊆ ["stacks", "infra", "v1.2.json", ".json",
          "notes.txt", "old.json", "app.json"] := by
        simp [annex]
      exact fun e he n hn => hnames n (hsub e he hn)
    · simp only [annex, List.forall_mem_cons]
      exact ⟨rfl, rfl, rfl, rfl, rfl, rfl, rfl, nofun⟩
  named := by
    unfold FileTree.Named
    decide
  root := rfl

theorem withinReach_annex : shelf.WithinReach annex := by
  intro ns hfolder
  have hhome : follow annex.here shelf.root = ["stacks"] := rfl
  rw [hhome, FileTree.at?_eq_lookup _ (by simp)] at hfolder
  have hmem := mem_of_lookup hfolder
  obtain rfl : ns = "infra" := by simpa [annex] using hmem
  decide

theorem list_takes_inventory_dotted : shelf.Stocked annex ∧ shelf.WithinReach annex ∧
    ∃ keys, annex.play shelf.list = (.ok keys, annex) ∧ shelf.Inventory annex keys ∧
      ⟨"infra", "v1.2"⟩ ∈ keys ∧ ⟨"infra", "old"⟩ ∈ keys ∧ ⟨"infra", ""⟩ ∉ keys ∧
      shelf.Addresses annex ⟨"infra", "v1.2"⟩ := by
  obtain ⟨keys, hkeys, hplay, -, haddresses⟩ :=
    (list_takes_inventory stocked_annex).1 withinReach_annex
  have hdotted : ⟨"infra", "v1.2"⟩ ∈ keys := (hkeys.mem_iff _).2 ⟨by decide, by decide⟩
  have hold : ⟨"infra", "old"⟩ ∈ keys := (hkeys.mem_iff _).2 ⟨by decide, by decide⟩
  have hnameless : ⟨"infra", ""⟩ ∉ keys := fun hm => ((hkeys.mem_iff _).1 hm).1 rfl
  exact ⟨stocked_annex, withinReach_annex, keys, hplay, hkeys, hdotted, hold, hnameless,
    haddresses _ hdotted⟩

end Stack.FileStore

end StackKeeper

import StackKeeper.Proofs.Stack.Directory

/-!
# The keys of a store

A store lists the keys of exactly the manifests that stand in the directories of its namespaces, each
of them once.
-/

/-! ## Order of keys -/

namespace StackKeeper.Stack.Key

theorem le_iff {a b : Key} : le a b = true ↔
    a.namespace < b.namespace ∨ a.namespace = b.namespace ∧ a.name ≤ b.name := by
  simp [le]

theorem le_trans (a b c : Key) (hab : le a b = true) (hbc : le b c = true) : le a c = true := by
  rw [le_iff] at hab hbc ⊢
  rcases hab with hab | ⟨hab, hname⟩
  · rcases hbc with hbc | ⟨hbc, -⟩
    · exact .inl (String.lt_trans hab hbc)
    · exact .inl (hbc ▸ hab)
  · rcases hbc with hbc | ⟨hbc, hname'⟩
    · exact .inl (hab ▸ hbc)
    · exact .inr ⟨hab.trans hbc, String.le_trans hname hname'⟩

theorem le_total (a b : Key) : (le a b || le b a) = true := by
  rw [Bool.or_eq_true, le_iff, le_iff]
  by_cases hns : a.namespace = b.namespace
  · rcases String.le_total a.name b.name with h | h
    · exact .inl (.inr ⟨hns, h⟩)
    · exact .inr (.inr ⟨hns.symm, h⟩)
  · by_cases hlt : a.namespace < b.namespace
    · exact .inl (.inl hlt)
    · by_cases hgt : b.namespace < a.namespace
      · exact .inr (.inl hgt)
      · exact absurd (String.le_antisymm (String.not_lt.1 hgt) (String.not_lt.1 hlt)) hns

theorem le_antisymm {a b : Key} (hab : le a b = true) (hba : le b a = true) : a = b := by
  rw [le_iff] at hab hba
  obtain ⟨hns, hname⟩ : a.namespace = b.namespace ∧ a.name = b.name := by
    rcases hab with hab | ⟨hns, hab⟩
    · rcases hba with hba | ⟨hns, -⟩
      · exact absurd hba (String.lt_asymm hab)
      · exact absurd (hns ▸ hab) (String.lt_irrefl _)
    · rcases hba with hba | ⟨-, hba⟩
      · exact absurd (hns ▸ hba) (String.lt_irrefl _)
      · exact ⟨hns, String.le_antisymm hab hba⟩
  rw [Key.mk.injEq]
  exact ⟨hns, hname⟩

/-- Keys in order are determined by which keys they are. -/
theorem mergeSort_eq {l l' : List Key} (hl : l.Nodup) (hl' : l'.Nodup)
    (h : ∀ k, k ∈ l ↔ k ∈ l') : l.mergeSort le = l'.mergeSort le := by
  have hperm : l.Perm l' := (List.perm_ext_iff_of_nodup hl hl').2 h
  have hsorted : ∀ l : List Key, (l.mergeSort le).Pairwise fun a b => le a b = true :=
    List.pairwise_mergeSort le_trans le_total
  refine List.Perm.eq_of_pairwise (fun _ _ _ _ => le_antisymm) (hsorted l) (hsorted l') ?_
  exact (List.mergeSort_perm l le).trans (hperm.trans (List.mergeSort_perm l' le).symm)

end StackKeeper.Stack.Key

/-! ## Keys of a directory -/

namespace StackKeeper.Stack.FileStore

open FileTree (follow)

variable {s : FileStore} {k : Key} {m : Rehearsal}

theorem stackName?_eq_some_iff {file name : String} :
    stackName? file = some name ↔ file = name ++ ".json" ∧ name ≠ "" := by
  constructor
  · intro h
    unfold stackName? at h
    split at h
    next hext =>
      have hsplit : Path.splitName file = (name, some "json") :=
        Prod.ext (Option.some.inj h) hext
      obtain ⟨hfile, hn⟩ := Path.splitName_eq_some hsplit
      have hdot : "." ++ "json" = ".json" := by decide
      rw [String.append_assoc, hdot] at hfile
      exact ⟨hfile, hn⟩
    · cases h
  · rintro ⟨rfl, hn⟩
    have hsplit := Path.splitName_json hn
    unfold stackName? Path.extension? Path.stem
    rw [hsplit]
    rfl

def keysAt (s : FileStore) (m : Rehearsal) (ns : String) : List Key :=
  ((m.tree.children (follow m.here s.root ++ [ns])).filterMap fun f => stackName? f.name).map
    (Key.mk ns)

def keys (s : FileStore) (m : Rehearsal) : List Key :=
  (m.tree.children (follow m.here s.root)).flatMap fun e =>
    if e.isDirectory then s.keysAt m e.name else []

theorem play_bind {α β : Type} (d : Host.Talk α) (f : α → Host.Talk β) (m : Rehearsal) :
    m.play (d >>= f) = (m.play d).2.play (f (m.play d).1) :=
  Dialogue.run_bind _ d f m

theorem play_listDirectory {α : Type} (path : String)
    (f : Except Host.Fault (List Host.Entry) → Host.Talk α) (m : Rehearsal) :
    m.play (Host.listDirectory path >>= f) = m.play (f (m.tree.list m.here path)) := rfl

theorem play_keysIn (m : Rehearsal) (entries : List Host.Entry)
    (hfolders : ∀ e ∈ entries, e.isDirectory = true →
      m.tree.find m.here (Path.join s.root e.name) =
        .ok (follow m.here s.root ++ [e.name], .directory)) :
    m.play (s.keysIn entries) =
      (.ok (entries.flatMap fun e => if e.isDirectory then s.keysAt m e.name else []), m) := by
  induction entries with
  | nil => rfl
  | cons e rest ih =>
    have hrest := ih fun e he => hfolders e (List.mem_cons_of_mem _ he)
    unfold keysIn
    rw [List.flatMap_cons]
    cases hdirectory : e.isDirectory with
    | false => exact hrest
    | true =>
      have hlist := FileTree.list_of_find (hfolders e List.mem_cons_self hdirectory)
      refine (play_listDirectory _ _ m).trans ?_
      rw [hlist]
      refine (play_bind _ _ m).trans ?_
      rw [hrest]
      rfl

theorem play_list (hs : s.StandsOn m) :
    m.play s.list = (.ok ((s.keys m).mergeSort Key.le), m) := by
  have hfolders : ∀ e ∈ m.tree.children (follow m.here s.root), e.isDirectory = true →
      m.tree.find m.here (Path.join s.root e.name) =
        .ok (follow m.here s.root ++ [e.name], .directory) := by
    intro e he hdirectory
    obtain ⟨x, hx, hkind⟩ := hs.wellFormed.mem_children_iff.1 he
    rw [hdirectory] at hkind
    have hfolder : x = .directory := by simpa using hkind.symm
    subst hfolder
    exact hs.folders e.name hx
  have hlist := FileTree.list_of_find hs.root
  unfold list
  refine (play_listDirectory _ _ m).trans ?_
  rw [hlist]
  refine (play_bind _ _ m).trans ?_
  rw [play_keysIn m _ hfolders]
  rfl

theorem mem_keysAt_iff (hs : s.StandsOn m) {ns : String} : k ∈ s.keysAt m ns ↔
    k.namespace = ns ∧ k.name ≠ "" ∧
      m.tree.at? (follow m.here s.root ++ [ns, k.name ++ ".json"]) ≠ none := by
  unfold keysAt
  rw [List.mem_map]
  constructor
  · rintro ⟨name, hname, rfl⟩
    obtain ⟨e, he, hstack⟩ := List.mem_filterMap.1 hname
    obtain ⟨hfile, hne⟩ := stackName?_eq_some_iff.1 hstack
    obtain ⟨x, hx, -⟩ := hs.wellFormed.mem_children_iff.1 he
    rw [hfile, List.append_assoc] at hx
    have hat : m.tree.at? (follow m.here s.root ++ [ns, name ++ ".json"]) = some x := hx
    rw [hat]
    exact ⟨rfl, hne, nofun⟩
  · rintro ⟨rfl, hne, hat⟩
    obtain ⟨x, hx⟩ := Option.ne_none_iff_exists'.1 hat
    let e : Host.Entry := ⟨k.name ++ ".json", x == .directory⟩
    have he : e ∈ m.tree.children (follow m.here s.root ++ [k.namespace]) := by
      refine hs.wellFormed.mem_children_iff.2 ⟨x, ?_, rfl⟩
      rw [List.append_assoc]
      exact hx
    have hstack : stackName? e.name = some k.name := stackName?_eq_some_iff.2 ⟨rfl, hne⟩
    exact ⟨k.name, List.mem_filterMap.2 ⟨e, he, hstack⟩, rfl⟩

theorem mem_keys_iff (hs : s.StandsOn m) : k ∈ s.keys m ↔ k.name ≠ "" ∧
    m.tree.at? (follow m.here s.root ++ [k.namespace, k.name ++ ".json"]) ≠ none := by
  unfold keys
  rw [List.mem_flatMap]
  constructor
  · rintro ⟨e, -, hk⟩
    split at hk
    · obtain ⟨hns, hne, hat⟩ := (mem_keysAt_iff hs).1 hk
      rw [hns]
      exact ⟨hne, hat⟩
    · cases hk
  · rintro ⟨hne, hat⟩
    have hfolder : m.tree.at? (follow m.here s.root ++ [k.namespace]) = some .directory := by
      refine hs.wellFormed.closed _ (k.name ++ ".json") ?_
      rwa [List.append_assoc]
    have he : (⟨k.namespace, true⟩ : Host.Entry) ∈ m.tree.children (follow m.here s.root) :=
      hs.wellFormed.mem_children_iff.2 ⟨_, hfolder, rfl⟩
    refine ⟨_, he, ?_⟩
    rw [if_pos rfl]
    exact (mem_keysAt_iff hs).2 ⟨rfl, hne, hat⟩

theorem nodup_keysAt (hs : s.StandsOn m) (ns : String) : (s.keysAt m ns).Nodup := by
  have hfiles := List.pairwise_map.1
    (hs.wellFormed.nodup_children (follow m.here s.root ++ [ns]))
  unfold keysAt
  refine List.pairwise_map.2 (List.Pairwise.filterMap _ ?_ hfiles)
  intro e e' hne name hname name' hname' heq
  have hsame : name = name' := congrArg Key.name heq
  rw [(stackName?_eq_some_iff.1 hname).1, (stackName?_eq_some_iff.1 hname').1, hsame] at hne
  exact hne rfl

theorem nodup_keys (hs : s.StandsOn m) : (s.keys m).Nodup := by
  have hfolders := List.pairwise_map.1 (hs.wellFormed.nodup_children (follow m.here s.root))
  unfold keys
  refine List.pairwise_flatMap.2 ⟨fun e _ => ?_, hfolders.imp ?_⟩
  · split
    · exact nodup_keysAt hs e.name
    · exact .nil
  · intro e e' hne k hk k' hk' heq
    split at hk
    · split at hk'
      · have hns := ((mem_keysAt_iff hs).1 hk).1
        have hns' := ((mem_keysAt_iff hs).1 hk').1
        exact hne (by rw [← hns, ← hns', heq])
      · cases hk'
    · cases hk

end StackKeeper.Stack.FileStore

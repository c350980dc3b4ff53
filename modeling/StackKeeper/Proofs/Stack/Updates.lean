import StackKeeper.Proofs.Stack.Listing
import StackKeeper.Proofs.Stack.Manifest
import StackKeeper.Proofs.Text.Utf8

/-!
# Updates of a manifest

On a machine whose file operations work, a store gives what its manifest says, and an update leaves
the manifest of the same stack with the new status, and everything else as it was.
-/

namespace StackKeeper.Stack.FileStore

open FileTree (follow)

variable {s : FileStore} {k k' : Key} {m : Rehearsal} {t t' : FileTree} {stack : Stack}

def manifest (stack : Stack) : Bytes := Utf8.encode (Json.pretty stack.encode)

theorem Touches.trans (ht : s.Touches m k t) (ht' : s.Touches { m with tree := t } k t') :
    s.Touches m k t' where
  wellFormed := ht'.wellFormed
  before := ht.before
  after := ht'.after
  draftBefore := ht.draftBefore
  draftAfter := ht'.draftAfter
  rest l hl hd := (ht'.rest l hl hd).trans (ht.rest l hl hd)

theorem Touches.mem_keys_iff (ht : s.Touches m k t) (hk : s.Fits k) (hs : s.StandsOn m)
    (k' : Key) : k' ∈ s.keys { m with tree := t } ↔ k' ∈ s.keys m := by
  rw [FileStore.mem_keys_iff (ht.standsOn hk hs), FileStore.mem_keys_iff hs]
  refine and_congr_right fun _ => not_congr ?_
  change t.at? (follow m.here s.root ++ [k'.namespace, k'.name ++ ".json"]) = none ↔ _
  by_cases hplace : follow m.here s.root ++ [k'.namespace, k'.name ++ ".json"] = s.place m.here k
  · obtain ⟨x, hx, -⟩ := ht.before
    obtain ⟨x', hx', -⟩ := ht.after
    rw [hplace, hx, hx']
    exact iff_of_false nofun nofun
  · have hdraft : follow m.here s.root ++ [k'.namespace, k'.name ++ ".json"] ≠
        s.draftPlace m.here k := by
      rw [hk.draftPlace_eq]
      intro heq
      have hnames := List.append_cancel_left heq
      simp only [List.cons.injEq, and_true] at hnames
      have hlast := congrArg (fun name => name.toList.getLast?) hnames.2
      simp at hlast
    rw [ht.rest _ hplace hdraft]

theorem judged_encode (s : FileStore) (k : Key) (text : String) :
    s.judged k (.ok (Utf8.encode text)) = s.ofText k text := by
  unfold judged
  dsimp only
  rw [Utf8.decode?_encode]

section Reading

variable (hs : s.StandsOn m) (hk : s.Admits m k)
include hs hk

theorem get_of_absent (hat : m.tree.at? (s.place m.here k) = none) :
    (m.play (s.get k)).1 = .error (missing k) := by
  rw [play_get, read_path hs hk, hat]
  rfl

theorem get_of_manifest {mode : Host.Mode}
    (hat : m.tree.at? (s.place m.here k) = some (.file (manifest stack) mode)) :
    (m.play (s.get k)).1 = s.ofText k (Json.pretty stack.encode) := by
  rw [play_get, read_path hs hk, hat]
  exact s.judged_encode k _

/-- A status that was put in place of another one is found, unless it is nested too deep. -/
theorem get_of_status {status : Status} {mode : Host.Mode} (hkeeps : s.Keeps k stack)
    (hstatus : status.Sound)
    (hat : m.tree.at? (s.place m.here k) = some (.file (manifest (stack.withStatus status)) mode)) :
    (status.Shallow → (m.play (s.get k)).1 = .ok (stack.withStatus status).toSeconds) ∧
      (¬status.Shallow → (m.play (s.get k)).1 = .error (s.overfull k)) := by
  have hkeeps' := hkeeps.withStatus hstatus
  rw [get_of_manifest hs hk hat]
  constructor
  · intro hshallow
    exact hkeeps'.ofText_pretty (shallow_withStatus.2 hshallow)
  · intro hdeep
    exact hkeeps'.ofText_pretty_error fun h => hdeep (shallow_withStatus.1 h)

theorem file_of_get (hget : (m.play (s.get k)).1 = .ok stack) :
    ∃ x, m.tree.at? (s.place m.here k) = some x ∧ x ≠ .directory := by
  rw [play_get, read_path hs hk] at hget
  rcases hat : m.tree.at? (s.place m.here k) with _ | _ | _ | _
  · rw [hat] at hget
    cases hget
  · rw [hat] at hget
    cases hget
  · exact ⟨_, rfl, nofun⟩
  · exact ⟨_, rfl, nofun⟩

end Reading

theorem get_congr {m m' : Rehearsal} (hs : s.StandsOn m) (hk : s.Admits m k)
    (hs' : s.StandsOn m') (hk' : s.Admits m' k) (hhere : m'.here = m.here)
    (hat : m'.tree.at? (s.place m.here k) = m.tree.at? (s.place m.here k)) :
    (m'.play (s.get k)).1 = (m.play (s.get k)).1 := by
  rw [play_get, play_get, read_path hs hk, read_path hs' hk', hhere, hat]

theorem play_updateStatus_error {e : Error} (hget : (m.play (s.get k)).1 = .error e)
    (status : Status) : m.play (s.updateStatus k status) = (.error e, m) := by
  rw [play_get] at hget
  rw [updateStatus_eq]
  refine (Rehearsal.play_ask _ _ m).trans ?_
  simp only [Rehearsal.answer]
  rw [show s.judged k (m.tree.read m.here (s.path k)) = _ from hget]
  rfl

theorem play_updateStatus_ok (hs : s.StandsOn m) (hk : s.Admits m k)
    (hget : (m.play (s.get k)).1 = .ok stack) (status : Status) : ∃ t mode,
      m.play (s.updateStatus k status) = (.ok (), { m with tree := t }) ∧ s.Touches m k t ∧
      t.at? (s.place m.here k) = some (.file (manifest (stack.withStatus status)) mode) := by
  have hx := file_of_get hs hk hget
  have hread : s.judged k (m.tree.read m.here (s.path k)) = .ok stack := by
    rw [play_get] at hget
    exact hget
  -- the draft is written
  obtain ⟨t, hwrite⟩ := write_draft hs hk hx (manifest (stack.withStatus status))
  obtain ⟨htouch, mode, hat⟩ := touches_write hs hk hx hwrite
  have hs' := htouch.standsOn hk.toFits hs
  have hk' := htouch.admits hk.toFits hk
  have hdraft := (hat (s.draftPlace m.here k)).trans (if_pos rfl)
  -- and takes the place of the manifest
  have hrename := rename_draft hs' hk' htouch.after hdraft
  obtain ⟨htouch', hat'⟩ := touches_rename hs' hk' htouch.after hdraft hrename
  have hplace := (hat' (s.place m.here k)).trans (if_pos rfl)
  refine ⟨_, mode, ?_, htouch.trans htouch', hplace⟩
  rw [updateStatus_eq]
  refine (Rehearsal.play_ask _ _ m).trans ?_
  simp only [Rehearsal.answer]
  rw [hread]
  change m.play (s.put k (stack.withStatus status)) = _
  rw [put_eq]
  refine (Rehearsal.play_ask _ _ m).trans ?_
  simp only [Rehearsal.answer]
  unfold manifest at hwrite
  rw [hwrite]
  refine (Rehearsal.play_ask _ _ { m with tree := t }).trans ?_
  simp only [Rehearsal.answer]
  rw [hrename]
  rfl

end StackKeeper.Stack.FileStore

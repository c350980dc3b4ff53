import StackKeeper.Proofs.Attempt.Outcome
import StackKeeper.Proofs.Keeper.Reconcile

/-!
# The commit of an outcome

An attempt works on the commit that is checked out. Until then, and if it never comes to that, it is
said to work on the commit that its specification names. This is the text as it was written, so it
is the commit of the revision exactly if there are no blanks around it.
-/

namespace StackKeeper

namespace Revision

theorem pinnedCommit?_of_ofParts {branch commit : Option String} {r : Revision}
    (hr : ofParts branch commit = .ok r) : r.pinnedCommit? = trimmed? commit := by
  unfold ofParts at hr
  split at hr
  next => cases hr
  next hnone =>
    cases hr
    exact hnone.symm
  next hsome =>
    cases hr
    exact hsome.symm
  next hnone =>
    cases hr
    exact hnone.symm

/-- A text that is not trimmed is taken for a commit in both readings only if trimming does not
change it. -/
theorem filter_eq_trimmed?_iff {commit : Option String} :
    commit.filter (!·.isEmpty) = trimmed? commit ↔ ∀ c ∈ commit, Text.trim c = c := by
  cases commit with
  | none => simp [trimmed?]
  | some c =>
    simp only [trimmed?, Option.map_some, Option.filter_some, Option.mem_some_iff,
      forall_eq']
    by_cases hc : c = ""
    · subst hc
      exact iff_of_true rfl rfl
    · have hkept : (!c.isEmpty) = true := by simpa using hc
      rw [if_pos hkept]
      constructor
      · intro heq
        split at heq
        · exact (Option.some.inj heq).symm
        · cases heq
      · intro htrim
        rw [htrim, if_pos hkept]

end Revision

namespace Attempt

open Stack

variable {mode : Mode} {h : Transcript Surroundings} {α : Type}

/-! ## The commit that is worked on -/

/-- After a step the attempt works on the commit that was checked out, or on the same as before if
none was. -/
def Tracks (p p' : Progress) (h : Transcript Surroundings) : Prop :=
  (∀ commit, ChecksOut h commit → p'.commit = some commit) ∧
    ((∀ commit, ¬ChecksOut h commit) → p'.commit = p.commit)

def Follows (m : Step α) : Prop := ∀ p, m.Ensures (fun h p' _ => Tracks p p' h) [] p

theorem not_checksOut {commit : String} (hq : ∀ e ∈ h, isPrepare e.request = false) :
    ¬ChecksOut h commit := by
  rintro ⟨source, checkout, hm, -⟩
  cases hq _ hm

theorem tracks_of_eq {p p' : Progress} (hq : ∀ e ∈ h, isPrepare e.request = false)
    (hp : p'.commit = p.commit) : Tracks p p' h :=
  ⟨fun _ hc => absurd hc (not_checksOut hq), fun _ => hp⟩

theorem Tracks.frame {p p' : Progress} (ht : Tracks p p' h) (h₀ h' : Transcript Surroundings)
    (hq₀ : ∀ e ∈ h₀, isPrepare e.request = false) (hq' : ∀ e ∈ h', isPrepare e.request = false) :
    Tracks p p' (h₀ ++ (h ++ h')) := by
  have hiff := checksOut_frame (h := h) h₀ h' hq₀ hq'
  exact ⟨fun commit hc => ht.1 commit ((hiff commit).1 hc),
    fun hn => ht.2 fun commit hc => hn commit ((hiff commit).2 hc)⟩

theorem follows_bind {m : Step α} {f : α → Step Outcome} (hm : Makes (isPrepare · = false) m)
    (hk : KeepsCommit m) (hf : ∀ a, Follows (f a)) : Follows (m >>= f) := by
  intro p
  refine Step.Ensures.seq ((hm.ensures p).and (hk p)) (fun h₁ p₁ a ha => ?_) fun h₁ p₁ s hs => ?_
  · obtain ⟨hq, hp⟩ := ha
    refine (hf a p₁).mono fun h₂ p' r ht => ?_
    have ht := ht.frame h₁ [] hq (List.forall_mem_nil _)
    rw [List.append_nil] at ht
    exact ⟨ht.1, fun hn => (ht.2 hn).trans hp⟩
  · exact tracks_of_eq hs.1 hs.2

theorem tracks_handedOut (p : Progress) (r : SourceRequest) (c : Checkout) :
    Tracks p { p with commit := some c.commit, checkout := some c }
      [⟨.prepare r, .ok (.ok c)⟩] := by
  constructor
  · rintro commit ⟨source, checkout, hm, rfl⟩
    cases List.mem_singleton.1 hm
    rfl
  · intro hn
    exact absurd ⟨r, c, List.mem_cons_self, rfl⟩ (hn c.commit)

theorem tracks_refused (p : Progress) (r : SourceRequest)
    {reply : Surroundings.Raced (Except Error Checkout)} {s : Stop}
    (hs : settle reply = .error s) : Tracks p p [⟨.prepare r, reply⟩] := by
  refine ⟨?_, fun _ => rfl⟩
  rintro commit ⟨source, checkout, hm, -⟩
  cases List.mem_singleton.1 hm
  cases hs

theorem follows_checkOut_bind {r : SourceRequest} {f : Checkout → Step Outcome}
    (hm : ∀ c, Makes (isPrepare · = false) (f c)) (hk : ∀ c, KeepsCommit (f c)) :
    Follows (Step.checkOut r >>= f) := by
  intro p
  refine (Step.ensures_bind _ _).2 ((Step.ensures_checkOut r).2 ⟨fun c => ?_, fun reply s hs => ?_⟩)
  · -- nothing is handed out later, and the commit stays
    refine Dialogue.ensures_iff.2 fun h₂ x he => ?_
    have hq := ((hm c).ensures _).of_ends he
    have hp := (hk c _).of_ends he
    have ht := tracks_handedOut p r c
    have ht' : Tracks p x.2 [⟨.prepare r, .ok (.ok c)⟩] :=
      ⟨fun commit hcom => hp.trans (ht.1 commit hcom), fun hn => hp.trans (ht.2 hn)⟩
    exact ht'.frame [] h₂ (List.forall_mem_nil _) hq
  · exact tracks_refused p r hs

theorem follows_drive (stack : Stack) (mode : Mode) (resolver : Resolver) :
    Follows (Step.drive stack mode resolver) := by
  have hC := covers_not_isPrepare.closed
  have hK := keepsCommit_closed
  refine follows_bind (makes_ofExcept _) (hK.ofExcept stack.spec.validate_configOnly) fun _ => ?_
  refine follows_bind (makes_ofExcept _) (hK.ofExcept stack.spec.revision_configOnly) fun _ => ?_
  have hbuild := Environment.neverCancels_build stack.spec stack.key.namespace resolver
  refine follows_bind (hC.search hbuild) (hK.search hbuild) fun environment => ?_
  have hresolve := Credentials.neverCancels_resolve resolver stack.spec stack.key.namespace
  refine follows_bind (hC.search hresolve) (hK.search hresolve) fun credentials => ?_
  exact follows_checkOut_bind (fun c => hC.proceed _ _ c) fun c => hK.proceed _ _ c

theorem concludes_drive (stack : Stack) (mode : Mode) (resolver : Resolver) :
    Concludes mode (Step.drive stack mode resolver) := by
  unfold Step.drive
  iterate 5 refine concludes_bind fun _ => ?_
  exact concludes_proceed _ _ _ _ _

/-! ## Whole attempts -/

variable {stack : Stack} {resolver : Resolver} {limit : Option Nat} {o : Outcome}

theorem run_tracks (he : (run stack mode resolver limit).Ends h (some o)) :
    (∀ commit, ChecksOut h commit → o.commit = some commit) ∧
      ((∀ commit, ¬ChecksOut h commit) → o.commit = stack.spec.commit.filter (!·.isEmpty)) := by
  obtain ⟨h₁, h₂, r, p, rfl, hd, hb, ho⟩ := run_ends_iff.1 he
  have hcommit : o.commit = p.commit := by
    cases r with
    | ok o' =>
      obtain rfl := Option.some.inj ho
      exact ((concludes_drive stack mode resolver _).of_ends hd o rfl).2
    | error s =>
      obtain ⟨e, -, rfl⟩ := Option.map_eq_some_iff.1 ho.symm
      rfl
  have hb₂ : ∀ e ∈ h₂, isPrepare e.request = false := by
    intro e hm
    obtain ⟨checkout, hr⟩ := giveBack_ends hb e hm
    rw [hr]
    rfl
  have ht := (follows_drive stack mode resolver _).of_ends hd
  have ht := ht.frame [⟨.start limit, ()⟩] h₂ (by simp [isPrepare]) hb₂
  rw [hcommit]
  exact ht

/-- An outcome tells of the commit that was checked out. Without a checkout it tells of the commit
that the revision fixes, or of none if that is a branch, exactly if the commit of the specification
has no blanks around it. The record shows what the outcome tells. -/
theorem run_commit (stack : Stack) (mode : Mode) (resolver : Resolver) (limit : Option Nat)
    {revision : Revision} {h : Transcript Surroundings} {o : Outcome}
    (hr : stack.spec.revision = .ok revision)
    (he : (run stack mode resolver limit).Ends h (some o)) :
    (∀ commit, ChecksOut h commit → o.commit = some commit) ∧
    ((∀ commit, ¬ChecksOut h commit) →
      (o.commit = revision.pinnedCommit? ↔ ∀ c ∈ stack.spec.commit, Text.trim c = c)) ∧
    ∀ previous now, (Status.record previous o now).lastUpdate.map (·.lastAttemptedCommit) =
      some o.commit := by
  obtain ⟨hchecked, hnone⟩ := run_tracks he
  refine ⟨hchecked, fun hn => ?_, fun _ _ => rfl⟩
  rw [hnone hn, Revision.pinnedCommit?_of_ofParts hr]
  exact Revision.filter_eq_trimmed?_iff

end Attempt

namespace Keeper

open Attempt

/-! ## Two commits -/

def pinned (commit : String) : Stack :=
  { sound with spec := { sound.spec with commit := some commit } }

/-- Everything works, but the source cannot be had. -/
def sourceless : Behaviour Surroundings := fun h r =>
  match r with
  | .prepare _ => .ok (.error (.source "git clone: unreachable"))
  | r => Surroundings.obliging h r

theorem revision_pinned {commit sha : String} (hsha : Revision.trimmed? (some commit) = some sha) :
    (pinned commit).spec.revision = .ok (.commit sha) := by
  have hbranch : Revision.trimmed? (pinned commit).spec.branch = none := rfl
  unfold Stack.Spec.revision Revision.ofParts
  rw [hbranch]
  simp only [pinned, hsha]

theorem sourceless_not_checksOut (stack : Stack) (commit : String) :
    ¬ChecksOut ((run stack .update default none).transcript sourceless []) commit := by
  have hrefused := Dialogue.forall_mem_transcript (b := sourceless)
    (P := fun x : Exchange Surroundings => ∀ source checkout,
      x ≠ ⟨.prepare source, .ok (.ok checkout)⟩)
    (fun h r source checkout heq => by cases heq) (run stack .update default none)
  rintro ⟨source, checkout, hm, -⟩
  exact hrefused _ hm source checkout rfl

/-- A commit without blanks around it is told of even if it never came to a checkout. -/
theorem run_commit_pinned : (pinned "c0ffee").spec.revision = .ok (.commit "c0ffee") ∧
    ∃ h o, (run (pinned "c0ffee") .update default none).Ends h (some o) ∧
      (∀ commit, ¬ChecksOut h commit) ∧ o.commit = some "c0ffee" := by
  have he := Dialogue.ends_transcript sourceless (run (pinned "c0ffee") .update default none)
  have hsha : Revision.trimmed? (some "c0ffee") = some "c0ffee" := by decide +kernel
  have hr := revision_pinned hsha
  obtain ⟨o, ho⟩ : ∃ o, (run (pinned "c0ffee") .update default none).result sourceless [] = some o :=
    ⟨_, rfl⟩
  rw [ho] at he
  have hn := sourceless_not_checksOut (pinned "c0ffee")
  obtain ⟨-, hpinned, -⟩ := run_commit _ _ _ _ hr he
  exact ⟨hr, _, o, he, hn, (hpinned hn).2 (by decide +kernel)⟩

/-- Of a commit with a blank in front the outcome tells as it was written, although the revision
fixes the commit without it. -/
theorem blank_told : (pinned " c0ffee").spec.revision = .ok (.commit "c0ffee") ∧
    ∃ h o, (run (pinned " c0ffee") .update default none).Ends h (some o) ∧
      (∀ commit, ¬ChecksOut h commit) ∧ o.commit = some " c0ffee" ∧
      o.commit ≠ (Revision.commit "c0ffee").pinnedCommit? := by
  have he := Dialogue.ends_transcript sourceless (run (pinned " c0ffee") .update default none)
  obtain ⟨o, ho, hcommit⟩ : ∃ o,
      (run (pinned " c0ffee") .update default none).result sourceless [] = some o ∧
        o.commit = some " c0ffee" := ⟨_, rfl, rfl⟩
  refine ⟨revision_pinned (by decide +kernel), _, o, ho ▸ he, sourceless_not_checksOut _, hcommit, ?_⟩
  rw [hcommit]
  decide

end Keeper

end StackKeeper

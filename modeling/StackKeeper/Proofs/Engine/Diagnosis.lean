import StackKeeper.Engine.CommandLine
import StackKeeper.Proofs.Dialogue.Transcript
import StackKeeper.Proofs.Text.Line

/-!
# Two ways to read a failed run

A run that is captured is diagnosed from all that it printed, one that is followed from the lines
that were received. The streams race, and a line that is no text closes its stream. The order of the
lines never matters to the diagnosis; what the lines behind such a line say can be missed.
-/

namespace StackKeeper.Engine

/-! ## Ranks -/

/-- The groups of phrases, the ones that outweigh the others first. -/
def phraseGroups : List (List String) :=
  [driftPhrases, conflictPhrases, pendingPhrases, notFoundPhrases]

/-- The place of the first group that has a phrase in the text. -/
def rank (cs : List Char) : Nat := phraseGroups.findIdx fun group => hasAny group cs

/-- The kinds of failures in the order of ranks. -/
def failureKinds : List String :=
  ["RefreshDrift", "EngineConflict", "EnginePendingOperations", "NotFound", "EngineFailed"]

theorem rank_lt (cs : List Char) : rank cs < failureKinds.length :=
  Nat.lt_succ_of_le List.findIdx_le_length

theorem getElem?_failureKinds_rank (operation output : String) :
    failureKinds[rank output.toList]? = some (diagnose operation output).kind := by
  simp only [rank, phraseGroups, List.findIdx_cons, List.findIdx_nil, diagnose]
  cases hasAny driftPhrases output.toList with
  | true => rfl
  | false =>
    cases hasAny conflictPhrases output.toList with
    | true => rfl
    | false =>
      cases hasAny pendingPhrases output.toList with
      | true => rfl
      | false => cases hasAny notFoundPhrases output.toList <;> rfl

theorem kind_diagnose_eq_iff {o₁ o₂ t₁ t₂ : String} :
    (diagnose o₁ t₁).kind = (diagnose o₂ t₂).kind ↔ rank t₁.toList = rank t₂.toList := by
  rw [← Option.some_inj, ← getElem?_failureKinds_rank, ← getElem?_failureKinds_rank]
  constructor
  · exact (List.getElem?_inj (rank_lt _) (by decide)).1
  · intro h
    rw [h]

theorem linewise_hasAny {group : List String} (h : group ∈ phraseGroups) :
    Text.Linewise (hasAny group) := by
  have hphrase : ∀ group ∈ phraseGroups, ∀ p ∈ group,
      p.toList ≠ [] ∧ '\n' ∉ p.toList ∧ '\r' ∉ p.toList := by
    decide
  apply Text.linewise_any
  intro p hp
  obtain ⟨hne, hn, hr⟩ := hphrase group h p hp
  exact Text.linewise_hasPhraseFolded hne hn hr

def rankAmong (texts : List (List Char)) : Nat :=
  phraseGroups.findIdx fun group => texts.any (hasAny group)

theorem findIdx_or {α : Type} (p q : α → Bool) (xs : List α) :
    (xs.findIdx fun x => p x || q x) = min (xs.findIdx p) (xs.findIdx q) := by
  induction xs with
  | nil => rfl
  | cons x xs ih =>
    rw [List.findIdx_cons, List.findIdx_cons, List.findIdx_cons, ih]
    cases p x <;> cases q x <;> simp

theorem findIdx_congr {α : Type} {p q : α → Bool} {xs : List α} (h : ∀ x ∈ xs, p x = q x) :
    xs.findIdx p = xs.findIdx q := by
  induction xs with
  | nil => rfl
  | cons x xs ih =>
    have hxs := ih fun y hy => h y (List.mem_cons_of_mem x hy)
    rw [List.findIdx_cons, List.findIdx_cons, h x List.mem_cons_self, hxs]

theorem rankAmong_cons (cs : List Char) (texts : List (List Char)) :
    rankAmong (cs :: texts) = min (rank cs) (rankAmong texts) :=
  findIdx_or (hasAny · cs) (fun group => texts.any (hasAny group)) phraseGroups

theorem rankAmong_append (texts texts' : List (List Char)) :
    rankAmong (texts ++ texts') = min (rankAmong texts) (rankAmong texts') := by
  simp only [rankAmong, List.any_append]
  exact findIdx_or _ _ _

theorem le_rankAmong_iff {n : Nat} {texts : List (List Char)} :
    n ≤ rankAmong texts ↔ n ≤ phraseGroups.length ∧ ∀ cs ∈ texts, n ≤ rank cs := by
  induction texts with
  | nil => simp [rankAmong, List.findIdx_eq_length_of_false]
  | cons cs texts ih =>
    rw [rankAmong_cons, Nat.le_min, ih, List.forall_mem_cons, and_left_comm]

/-- What is in a text linewise if it is in one of the others gives the text their rank. -/
theorem rank_eq_rankAmong {cs : List Char} {texts : List (List Char)}
    (h : ∀ f, Text.Linewise f → f cs = texts.any f) : rank cs = rankAmong texts := by
  apply findIdx_congr
  intro group hg
  exact h _ (linewise_hasAny hg)

/-! ## Receiving -/

/-- The lines received from two streams. Each time the next line comes from one of them, and a line
that is no text closes the stream. -/
inductive Received : List Bytes → List Bytes → List String → Prop
  | closed : Received [] [] []
  | out {line : Bytes} {s : String} {outs errs : List Bytes} {ls : List String}
      (h : Utf8.decode? line = some s) (rest : Received outs errs ls) :
      Received (line :: outs) errs (s :: ls)
  | outFault {line : Bytes} {outs errs : List Bytes} {ls : List String}
      (h : Utf8.decode? line = none) (rest : Received [] errs ls) : Received (line :: outs) errs ls
  | err {line : Bytes} {s : String} {outs errs : List Bytes} {ls : List String}
      (h : Utf8.decode? line = some s) (rest : Received outs errs ls) :
      Received outs (line :: errs) (s :: ls)
  | errFault {line : Bytes} {outs errs : List Bytes} {ls : List String}
      (h : Utf8.decode? line = none) (rest : Received outs [] ls) : Received outs (line :: errs) ls

def isText (line : Bytes) : Bool := (Utf8.decode? line).isSome

/-- The lines of two streams before the ones that close them. -/
def heard (outs errs : List Bytes) : List Bytes := outs.takeWhile isText ++ errs.takeWhile isText

/-- The lines of two streams from the ones that close them on. -/
def missed (outs errs : List Bytes) : List Bytes := outs.dropWhile isText ++ errs.dropWhile isText

theorem any_heard_append_missed (outs errs : List Bytes) (f : Bytes → Bool) :
    (heard outs errs ++ missed outs errs).any f = (outs.any f || errs.any f) := by
  have hsplit : ∀ lines : List Bytes,
      lines.any f = ((lines.takeWhile isText).any f || (lines.dropWhile isText).any f) := by
    intro lines
    rw [← List.any_append, List.takeWhile_append_dropWhile]
  rw [hsplit outs, hsplit errs]
  simp only [heard, missed, List.any_append, Bool.or_assoc, Bool.or_left_comm]

/-- Whatever the order, what is in one of the lines received is in one of those before the faults. -/
theorem Received.any_eq {outs errs : List Bytes} {ls : List String} (h : Received outs errs ls)
    (f : List Char → Bool) : (ls.any fun s => f s.toList) =
      (heard outs errs).any fun line => f (Utf8.decodeLossy line).toList := by
  induction h with
  | closed => rfl
  | out h rest ih =>
    simp only [heard, List.takeWhile_cons, isText, h, Option.isSome_some, if_true, List.cons_append,
      List.any_cons, Utf8.decodeLossy_of_decode? h, ih]
  | outFault h rest ih => simpa [heard, List.takeWhile_cons, isText, h] using ih
  | err h rest ih =>
    simp only [heard, List.takeWhile_cons, isText, h, Option.isSome_some, if_true, List.any_append,
      List.any_cons, Utf8.decodeLossy_of_decode? h, ih, Bool.or_left_comm]
  | errFault h rest ih => simpa [heard, List.takeWhile_cons, isText, h] using ih

theorem received_nil (errs : List Bytes) : Received [] errs (Text.readableLines.go errs) := by
  induction errs with
  | nil => exact .closed
  | cons line errs ih =>
    rw [Text.readableLines.go]
    split
    next s h => exact .err h ih
    next h => exact .errFault h .closed

theorem received_append (outs errs : List Bytes) : Received outs errs
    (Text.readableLines.go outs ++ Text.readableLines.go errs) := by
  induction outs with
  | nil => exact received_nil errs
  | cons line outs ih =>
    rw [Text.readableLines.go]
    split
    next s h => exact .out h ih
    next h => exact .outFault h (received_nil errs)

/-! ## Both diagnoses -/

abbrev linesOf (bytes : Bytes) : List Bytes := Text.byteLinesFrom [] bytes

def wording (line : Bytes) : List Char := (Utf8.decodeLossy line).toList

def printed (output : Host.Output) : String :=
  Utf8.decodeLossy output.stdout ++ "\n" ++ Utf8.decodeLossy output.stderr

/-- What may be received of the lines a program printed. -/
def ReceivedOf (output : Host.Output) (ls : List String) : Prop :=
  Received (linesOf output.stdout) (linesOf output.stderr) ls

def missedOf (output : Host.Output) : List Bytes :=
  missed (linesOf output.stdout) (linesOf output.stderr)

theorem linewise_printed {f : List Char → Bool} (hf : Text.Linewise f) (output : Host.Output) :
    f (printed output).toList = ((linesOf output.stdout).any (fun line => f (wording line)) ||
      (linesOf output.stderr).any fun line => f (wording line)) := by
  have hfeed : f (Engine.printed output).toList = (f (Utf8.decodeLossy output.stdout).toList ||
      f (Utf8.decodeLossy output.stderr).toList) := by
    rw [Engine.printed, String.toList_append, String.toList_append, List.append_assoc]
    exact hf.feed _ _
  rw [hfeed, hf.byteLines, hf.byteLines]
  rfl

theorem rank_received {output : Host.Output} {ls : List String} (h : ReceivedOf output ls) :
    rank ("\n".intercalate ls).toList =
      rankAmong ((heard (linesOf output.stdout) (linesOf output.stderr)).map wording) := by
  apply rank_eq_rankAmong
  intro f hf
  rw [hf.intercalate, h.any_eq f, List.any_map]
  rfl

theorem rank_printed {output : Host.Output} {ls : List String} (h : ReceivedOf output ls) :
    rank (printed output).toList = min (rank ("\n".intercalate ls).toList)
      (rankAmong ((missedOf output).map wording)) := by
  rw [rank_received h, ← rankAmong_append, ← List.map_append]
  apply rank_eq_rankAmong
  intro f hf
  rw [linewise_printed hf, List.any_map]
  exact (any_heard_append_missed _ _ fun line => f (wording line)).symm

section Runs

variable (c : Controller) (operation : String) (args : List String) {output : Host.Output}

theorem capture_ends (hfailed : output.succeeded = false) :
    (c.capture operation args).Ends [⟨.runProgram (c.command args), .ok output⟩]
      (.error (diagnose operation (printed output))) := by
  apply Dialogue.Leads.exchange
  change Dialogue.Ends (if output.succeeded then _ else _) _ _
  rw [hfailed]
  exact .stay _

theorem follow_ends (hfailed : output.succeeded = false) :
    (c.follow operation args).Ends [⟨.runProgram (c.command args), .ok output⟩]
      (.error (diagnose operation ("\n".intercalate
        (Text.readableLines output.stdout ++ Text.readableLines output.stderr)))) := by
  apply Dialogue.Leads.exchange
  change Dialogue.Ends (if output.succeeded then _ else _) _ _
  rw [hfailed]
  exact .stay _

end Runs

/-- A failed run that is captured is diagnosed from all that was printed, one that is followed from
the lines received. The failures are of the same kind exactly if no line that was missed outranks
what was received, whatever the order of the lines. -/
theorem Controller.follow_kind_eq_iff (c : Controller) (operation : String) (args : List String)
    {output : Host.Output} (hfailed : output.succeeded = false) :
    (c.capture operation args).Ends [⟨.runProgram (c.command args), .ok output⟩]
      (.error (diagnose operation (printed output))) ∧
    (∃ ls, ReceivedOf output ls ∧
      (c.follow operation args).Ends [⟨.runProgram (c.command args), .ok output⟩]
        (.error (diagnose operation ("\n".intercalate ls)))) ∧
    ∀ ls, ReceivedOf output ls →
      ((diagnose operation ("\n".intercalate ls)).kind = (diagnose operation (printed output)).kind ↔
        ∀ line ∈ missedOf output, rank ("\n".intercalate ls).toList ≤ rank (wording line)) := by
  refine ⟨?_, ⟨_, received_append _ _, ?_⟩, ?_⟩
  · exact capture_ends c operation args hfailed
  · exact follow_ends c operation args hfailed
  · intro ls h
    have hle : rank ("\n".intercalate ls).toList ≤ phraseGroups.length := List.findIdx_le_length
    -- all that was printed has the smaller one of the ranks of what was received and missed
    have hmin : ∀ m n : Nat, m = min m n ↔ m ≤ n := by omega
    rw [kind_diagnose_eq_iff, rank_printed h, hmin, le_rankAmong_iff, List.forall_mem_map]
    exact and_iff_right hle

theorem scan_ff : Utf8.scan [0xff] = [none] := by
  simp [Utf8.scan, Utf8.next]

theorem decode?_ff : Utf8.decode? [0xff] = none := by
  simp [Utf8.decode?, scan_ff]

theorem wording_ff : wording [0xff] = ['\ufffd'] := by
  simp [wording, Utf8.decodeLossy, scan_ff]

/-- The failure is told on one stream, and the other one has nothing but a byte that is no text. -/
def noisy : Host.Output := ⟨false, [0xff], Utf8.encode "no stack named"⟩

theorem Controller.follow_kind_noisy :
    noisy.succeeded = false ∧ ReceivedOf noisy ["no stack named"] ∧
      (diagnose "pulumi up" "no stack named").kind = (diagnose "pulumi up" (printed noisy)).kind := by
  have herrs : linesOf noisy.stderr = [Utf8.encode "no stack named"] := by
    rw [noisy, Utf8.encode_eq]
    decide
  have hreceived : ReceivedOf noisy ["no stack named"] := by
    rw [ReceivedOf, herrs]
    exact .outFault decode?_ff (.err (Utf8.decode?_encode _) .closed)
  have hmissed : missedOf noisy = [[0xff]] := by
    rw [missedOf, herrs]
    simp [missed, noisy, Text.byteLinesFrom, isText, decode?_ff, Utf8.decode?_encode]
  have hfailed : noisy.succeeded = false := rfl
  obtain ⟨-, -, hkind⟩ :=
    follow_kind_eq_iff (Controller.new "pulumi" "/project") "pulumi up" [] hfailed
  refine ⟨hfailed, hreceived, (hkind _ hreceived).2 ?_⟩
  rw [hmissed]
  intro line hl
  rw [List.mem_singleton.1 hl, wording_ff]
  decide

/-- The failure is told behind a byte that is no text. -/
def garbled : Host.Output := ⟨false, 0xff :: 10 :: Utf8.encode "error: [409] Conflict", []⟩

theorem linesOf_garbled :
    linesOf garbled.stdout = [0xff] :: linesOf (Utf8.encode "error: [409] Conflict") :=
  rfl

theorem received_garbled {ls : List String} (h : ReceivedOf garbled ls) : ls = [] := by
  rw [ReceivedOf, linesOf_garbled] at h
  cases h with
  | out h => cases decode?_ff.symm.trans h
  | outFault h rest =>
    cases rest
    rfl

theorem rank_garbled : rank (printed garbled).toList = 1 := by
  have hrank : rank (printed garbled).toList =
      rankAmong [['\ufffd'], "error: [409] Conflict".toList] := by
    apply rank_eq_rankAmong
    intro f hf
    have htext := hf.byteLines (Utf8.encode "error: [409] Conflict")
    rw [Utf8.decodeLossy_encode] at htext
    rw [linewise_printed hf, linesOf_garbled, List.any_cons, wording_ff, List.any_cons,
      List.any_cons, htext]
    simp [garbled, linesOf, Text.byteLinesFrom, wording]
  rw [hrank]
  decide

/-- A conflict that is told behind a byte that is no text is seen when the run is captured, but not
when it is followed. -/
theorem Controller.conflict_missed :
    ((Controller.new "pulumi" "/project").capture "pulumi up" []).Ends
      [⟨.runProgram ((Controller.new "pulumi" "/project").command []), .ok garbled⟩]
      (.error (diagnose "pulumi up" (printed garbled))) ∧
    (diagnose "pulumi up" (printed garbled)).kind = "EngineConflict" ∧
    ((Controller.new "pulumi" "/project").follow "pulumi up" []).Ends
      [⟨.runProgram ((Controller.new "pulumi" "/project").command []), .ok garbled⟩]
      (.error (diagnose "pulumi up" "")) ∧
    (diagnose "pulumi up" "").kind = "EngineFailed" := by
  refine ⟨capture_ends _ _ _ rfl, ?_, ?_, by decide⟩
  · have hkind := getElem?_failureKinds_rank "pulumi up" (printed garbled)
    rw [rank_garbled] at hkind
    exact (Option.some.inj hkind).symm
  · have hnone := received_garbled (received_append _ _)
    have hfailed : garbled.succeeded = false := rfl
    have hfollow := follow_ends (Controller.new "pulumi" "/project") "pulumi up" [] hfailed
    rw [Text.readableLines, Text.readableLines, hnone] at hfollow
    exact hfollow

end StackKeeper.Engine

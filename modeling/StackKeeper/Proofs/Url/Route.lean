import StackKeeper.Proofs.Lists
import StackKeeper.Proofs.Url.Percent
import StackKeeper.Url.Reader

/-!
# Paths

The names of a path are encoded when they are read, and names that are dots, plain or encoded, are
gone. Encoding makes no dots, so a path that was read is read again as it is.
-/

namespace StackKeeper.Url

variable {set : Char → Bool} {c : Char} {cs ds : List Char} {names done : List String}

/-! ## Dots -/

theorem encode_eq_cons {d : Char} {l : List Char} (hd : d ≠ '%') (h : encode set cs = d :: l) :
    ∃ rest, cs = d :: rest ∧ l = encode set rest := by
  cases cs with
  | nil => cases h
  | cons c rest =>
    rw [encode_cons] at h
    by_cases hc : set c = true
    · obtain ⟨more, hmore⟩ := encodeChar_of_set hc
      rw [hmore] at h
      exact absurd (List.cons.inj h).1.symm hd
    · rw [encodeChar_of_not_set (Bool.eq_false_iff.2 hc)] at h
      obtain ⟨rfl, rfl⟩ := List.cons.inj h
      exact ⟨rest, rfl, rfl⟩

/-- Where encoding brings no percent sign in, it changes nothing. -/
theorem encode_eq_self_of_percent (h : '%' ∉ encode set cs) : encode set cs = cs := by
  refine encode_eq_self fun c hc => Bool.eq_false_iff.2 fun hset => h ?_
  obtain ⟨l, hl⟩ := encodeChar_of_set hset
  exact List.mem_flatMap.2 ⟨c, hc, hl ▸ List.mem_cons_self⟩

/-- Whether the rest of an encoded dot stands in front. -/
def OpensDot (cs : List Char) : Prop :=
  ∃ rest, cs = '2' :: 'e' :: rest ∨ cs = '2' :: 'E' :: rest

theorem plainDots_cons (hc : c = '%' → ¬OpensDot cs) : plainDots (c :: cs) = c :: plainDots cs := by
  rw [plainDots]
  · rintro rest hpercent rfl
    exact hc hpercent ⟨rest, .inl rfl⟩
  · rintro rest hpercent rfl
    exact hc hpercent ⟨rest, .inr rfl⟩

theorem opensDot_of_encode (h : OpensDot (encode set cs)) : OpensDot cs := by
  obtain ⟨rest, h | h⟩ := h
  · obtain ⟨tail, rfl, htail⟩ := encode_eq_cons (by decide) h
    obtain ⟨tail', rfl, -⟩ := encode_eq_cons (by decide) htail.symm
    exact ⟨tail', .inl rfl⟩
  · obtain ⟨tail, rfl, htail⟩ := encode_eq_cons (by decide) h
    obtain ⟨tail', rfl, -⟩ := encode_eq_cons (by decide) htail.symm
    exact ⟨tail', .inr rfl⟩

theorem upperHex_dot : ∀ n < 16, (upperHex n = '2' → n = 2) ∧ upperHex n ≠ 'e' ∧
    (upperHex n = 'E' → n = 14) ∧ upperHex n ≠ '%' := by
  decide

theorem plainDots_escapeByte {b : UInt8} (hb : b.toNat ≠ 46) (cs : List Char) :
    plainDots (escapeByte b ++ cs) = escapeByte b ++ plainDots cs := by
  have hlt : b.toNat < 256 := b.toNat_lt
  obtain ⟨htwo, -, -, hhigh⟩ := upperHex_dot (b.toNat / 16) (by omega)
  obtain ⟨-, hsmall, hlarge, hlow⟩ := upperHex_dot (b.toNat % 16) (by omega)
  have hdot : ¬OpensDot (upperHex (b.toNat / 16) :: upperHex (b.toNat % 16) :: cs) := by
    rintro ⟨rest, h | h⟩
    · exact hsmall (List.cons.inj (List.cons.inj h).2).1
    · have hfirst := htwo (List.cons.inj h).1
      have hsecond := hlarge (List.cons.inj (List.cons.inj h).2).1
      omega
  rw [escapeByte, List.cons_append, List.cons_append, List.cons_append, List.nil_append,
    plainDots_cons fun _ => hdot, plainDots_cons fun h => absurd h hhigh,
    plainDots_cons fun h => absurd h hlow]
  rfl

theorem plainDots_escapes {bytes : Bytes} (hbytes : ∀ b ∈ bytes, b.toNat ≠ 46) (cs : List Char) :
    plainDots (bytes.flatMap escapeByte ++ cs) = bytes.flatMap escapeByte ++ plainDots cs := by
  induction bytes with
  | nil => rfl
  | cons b bytes ih =>
    obtain ⟨hb, hbytes⟩ := List.forall_mem_cons.1 hbytes
    rw [List.flatMap_cons, List.append_assoc, plainDots_escapeByte hb, ih hbytes, List.append_assoc]

/-- Encoding neither makes dots nor takes them away. -/
theorem plainDots_encode (cs : List Char) :
    plainDots (encode inPath cs) = encode inPath (plainDots cs) := by
  have hkept : ∀ c, inPath c = false → encodeChar inPath c = [c] := fun _ => encodeChar_of_not_set
  induction cs using plainDots.induct with
  | case1 rest ih =>
    rw [plainDots, encode_cons, encode_cons, encode_cons, encode_cons, hkept '%' (by decide),
      hkept '2' (by decide), hkept 'e' (by decide), hkept '.' (by decide), ← ih]
    exact plainDots.eq_1 _
  | case2 rest ih =>
    rw [plainDots, encode_cons, encode_cons, encode_cons, encode_cons, hkept '%' (by decide),
      hkept '2' (by decide), hkept 'E' (by decide), hkept '.' (by decide), ← ih]
    exact plainDots.eq_2 _
  | case3 c rest hsmall hlarge ih =>
    have hdot : c = '%' → ¬OpensDot rest := by
      rintro hc ⟨more, h | h⟩
      · exact hsmall more hc h
      · exact hlarge more hc h
    rw [plainDots_cons hdot, encode_cons, encode_cons, ← ih]
    by_cases hset : inPath c = true
    -- no escape is that of a dot, as a dot is not encoded in a path
    · have hbytes : ∀ b ∈ Utf8.encode (String.singleton c), b.toNat ≠ 46 := by
        intro b hb heq
        rw [Utf8.encode_singleton] at hb
        have hc : c = '.' :=
          Char.toNat_inj.1 ((Utf8.toNat_of_mem_utf8EncodeChar hb (by omega)).symm.trans heq)
        rw [hc] at hset
        exact absurd hset (by decide)
      rw [encodeChar, if_pos hset, plainDots_escapes hbytes]
    · rw [encodeChar_of_not_set (Bool.eq_false_iff.2 hset)]
      exact plainDots_cons fun hc h => hdot hc (opensDot_of_encode h)
  | case4 => rfl

/-! ## Names -/

/-- A name of a path as it is read. -/
structure IsSettled (name : String) : Prop where
  encoded : ∀ c ∈ name.toList, inPath c = false
  slash : '/' ∉ name.toList
  backslash : '\\' ∉ name.toList
  dot : plainDots name.toList ≠ ['.']
  dots : plainDots name.toList ≠ ['.', '.']

theorem isSettled_empty : IsSettled "" where
  encoded := nofun
  slash := nofun
  backslash := nofun
  dot := nofun
  dots := nofun

theorem not_mem_encode {d : Char} (hd : inUserInfo d = true) (hcs : d ∉ cs) :
    d ∉ encode set cs := by
  intro hm
  rcases mem_of_mem_encode hm with hm | ⟨b, hm⟩
  · exact hcs hm
  · rw [sparesEscapes_inUserInfo.not_set_of_mem_escapeByte hm] at hd
    cases hd

theorem addPiece_eq_of_isSettled {name : String} (h : IsSettled name) (isLast : Bool) :
    addPiece done name.toList isLast = done ++ [name] := by
  unfold addPiece
  rw [if_neg (by simpa using h.dots), if_neg (by simpa using h.dot), encode_eq_self h.encoded,
    String.ofList_toList]

theorem isSettled_of_mem_addPiece {piece : List Char} {isLast : Bool}
    (hdone : ∀ n ∈ done, IsSettled n) (hslash : '/' ∉ piece) (hback : '\\' ∉ piece) :
    ∀ n ∈ addPiece done piece isLast, IsSettled n := by
  have hend : ∀ n ∈ (if isLast then [""] else []), IsSettled n := by
    intro n hn
    split at hn
    · rw [List.mem_singleton.1 hn]
      exact isSettled_empty
    · cases hn
  have hplain : ∀ ds, '%' ∉ ds → plainDots (encode inPath piece) = ds → plainDots piece = ds := by
    rintro ds hds rfl
    rw [plainDots_encode] at hds ⊢
    exact (encode_eq_self_of_percent hds).symm
  intro n hn
  unfold addPiece at hn
  dsimp only at hn
  split at hn
  next =>
    rcases List.mem_append.1 hn with hn | hn
    · exact hdone n (List.dropLast_subset done hn)
    · exact hend n hn
  next hdots =>
    split at hn
    next =>
      rcases List.mem_append.1 hn with hn | hn
      · exact hdone n hn
      · exact hend n hn
    next hdot =>
      rcases List.mem_append.1 hn with hn | hn
      · exact hdone n hn
      · rw [List.mem_singleton.1 hn]
        constructor <;> rw [String.toList_ofList]
        · exact fun c hc => sparesEscapes_inPath.not_set_of_mem_encode hc
        · exact not_mem_encode (by decide) hslash
        · exact not_mem_encode (by decide) hback
        · exact fun h => hdot (beq_iff_eq.2 (hplain _ (by decide) h))
        · exact fun h => hdots (beq_iff_eq.2 (hplain _ (by decide) h))

theorem isSettled_of_mem_segments {pieces : List (List Char)} (hdone : ∀ n ∈ done, IsSettled n)
    (hpieces : ∀ p ∈ pieces, '/' ∉ p ∧ '\\' ∉ p) : ∀ n ∈ segments done pieces, IsSettled n := by
  induction pieces generalizing done with
  | nil => exact hdone
  | cons piece rest ih =>
    obtain ⟨⟨hslash, hback⟩, hrest⟩ := List.forall_mem_cons.1 hpieces
    exact ih (isSettled_of_mem_addPiece hdone hslash hback) hrest

theorem addPiece_last_ne_nil (done : List String) (piece : List Char) :
    addPiece done piece true ≠ [] := by
  unfold addPiece
  dsimp only
  split
  · exact List.append_ne_nil_of_right_ne_nil _ (by decide)
  · split
    · exact List.append_ne_nil_of_right_ne_nil _ (by decide)
    · exact List.append_ne_nil_of_right_ne_nil _ (List.cons_ne_nil _ _)

theorem segments_ne_nil {pieces : List (List Char)} (hne : pieces ≠ []) :
    segments done pieces ≠ [] := by
  induction pieces generalizing done with
  | nil => exact absurd rfl hne
  | cons piece rest ih =>
    cases rest with
    | nil => exact addPiece_last_ne_nil done piece
    | cons next rest => exact ih (List.cons_ne_nil next rest)

theorem segments_names (h : ∀ n ∈ names, IsSettled n) :
    segments done (names.map String.toList) = done ++ names := by
  induction names generalizing done with
  | nil => exact (List.append_nil done).symm
  | cons name names ih =>
    obtain ⟨hname, hnames⟩ := List.forall_mem_cons.1 h
    rw [List.map_cons, segments, addPiece_eq_of_isSettled hname, ih hnames, List.append_assoc]
    rfl

/-! ## Routes -/

/-- A route as it is read behind the host of a common scheme. -/
def Route.IsNormal (r : Route) : Prop :=
  ∃ names, r = .segments names ∧ names ≠ [] ∧ ∀ n ∈ names, IsSettled n

theorem not_mem_of_mem_pieces {p : List Char} (hp : p ∈ pieces true cs) : '/' ∉ p ∧ '\\' ∉ p := by
  refine ⟨Text.not_mem_of_mem_splitOnChar p hp, fun hm => ?_⟩
  obtain ⟨c, -, hc⟩ := List.mem_map.1 (Text.mem_of_mem_splitOnChar hp hm)
  split at hc
  next => cases hc
  next hslash =>
    rw [hc] at hslash
    exact hslash rfl

theorem isNormal_routeAfterHost (cs : List Char) : (routeAfterHost true cs).IsNormal := by
  cases cs with
  | nil => exact ⟨[""], rfl, by decide, fun n hn => List.mem_singleton.1 hn ▸ isSettled_empty⟩
  | cons c rest =>
    refine ⟨_, rfl, segments_ne_nil (Text.splitOnChar_ne_nil _ _), ?_⟩
    exact isSettled_of_mem_segments nofun fun p hp => not_mem_of_mem_pieces hp

theorem toList_routeText (names : List String) :
    (routeText (.segments names)).toList = names.flatMap fun n => '/' :: n.toList := by
  have hslash : ∀ n : String, ("/" ++ n).toList = '/' :: n.toList := by
    intro n
    rw [String.toList_append]
    rfl
  rw [routeText, String.toList_join, List.flatMap_map]
  simp only [hslash]

theorem flatMap_slash (name : String) (names : List String) :
    (name :: names).flatMap (fun n => '/' :: n.toList) =
      '/' :: ['/'].intercalate ((name :: names).map String.toList) := by
  induction names generalizing name with
  | nil => simp
  | cons next names ih =>
    rw [List.flatMap_cons, ih, List.map_cons, List.map_cons, List.map_cons,
      List.intercalate_cons_cons]
    simp

theorem pieces_intercalate (hne : names ≠ []) (h : ∀ n ∈ names, IsSettled n) :
    pieces true (['/'].intercalate (names.map String.toList)) = names.map String.toList := by
  have hslash : ∀ ds ∈ names.map String.toList, '/' ∉ ds :=
    List.forall_mem_map.2 fun n hn => (h n hn).slash
  have hkept : (['/'].intercalate (names.map String.toList)).map
      (fun c => if isSlash true c then '/' else c) = ['/'].intercalate (names.map String.toList) := by
    refine (List.map_congr_left fun c hc => ?_).trans (List.map_id _)
    rcases Text.mem_of_mem_intercalate hc with rfl | ⟨ds, hds, hc⟩
    · rfl
    · obtain ⟨n, hn, rfl⟩ := List.mem_map.1 hds
      have hplain : ¬isSlash true c = true := by
        simp only [isSlash, Bool.true_and, Bool.or_eq_true, beq_iff_eq]
        rintro (rfl | rfl)
        · exact (h n hn).slash hc
        · exact (h n hn).backslash hc
      exact if_neg hplain
  rw [pieces, hkept]
  exact Text.splitOnChar_intercalate (by simpa using hne) hslash

theorem Route.IsNormal.routeAfterHost_eq {r : Route} (h : r.IsNormal) :
    routeAfterHost true (routeText r).toList = r := by
  obtain ⟨names, rfl, hne, hnames⟩ := h
  have hpieces := pieces_intercalate hne hnames
  obtain ⟨name, names, rfl⟩ := List.exists_cons_of_ne_nil hne
  rw [toList_routeText, flatMap_slash, routeAfterHost, if_pos (by decide), hpieces,
    segments_names hnames, List.nil_append]

end StackKeeper.Url

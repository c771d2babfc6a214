import Oati.Library.HttpUrl

/-!
# Serialized URLs

A URL without credentials is read back from its serialization.

* `IsSegment`: a segment that the path state collects as it is; `pathState_segments`: the path
  state leaves such segments only.
* `Url.WellFormed`: the form of every URL that is read.
* `pathState_path`, `queryState_suffixText`: what is written is read back.
* `parse_text`: the round trip.
-/

namespace HttpUrl

variable {hosts : Hosts} {scheme : Scheme}

/-- The query and the fragment as they are written. -/
def suffixText (query fragment : Option (List Char)) : List Char :=
  query.elim [] ('?' :: ·) ++ fragment.elim [] ('#' :: ·)

/-- The serialization of a URL without credentials. -/
def Url.text (url : Url hosts) : List Char :=
  url.origin.text ++ (url.pathname ++ suffixText url.query url.fragment)

/-! ### Encoded characters -/

/-- A character of an encoding: of an encoded byte, or the character itself. -/
theorem mem_percentEncode {set : Char → Bool} {c d : Char} (h : d ∈ percentEncode set c) :
    d = '%' ∨ (∃ n < 16, d = hexDigit n) ∨ d = c ∧ set c = false := by
  rw [percentEncode] at h
  split_ifs at h with hset
  · obtain ⟨b, -, hb⟩ := List.mem_flatMap.mp h
    have hbound := b.toNat_lt
    simp only [List.mem_cons, List.not_mem_nil, or_false] at hb
    rcases hb with rfl | rfl | rfl
    · exact .inl rfl
    · exact .inr (.inl ⟨_, by omega, rfl⟩)
    · exact .inr (.inl ⟨_, by omega, rfl⟩)
  · exact .inr (.inr ⟨List.mem_singleton.mp h, by simpa using hset⟩)

/-- The characters of an encoding are not in the set. -/
theorem flatMap_percentEncode_clean {set : Char → Bool} (hpercent : set '%' = false)
    (hhex : ∀ n < 16, set (hexDigit n) = false) (text : List Char) :
    ∀ d ∈ text.flatMap (percentEncode set), set d = false := by
  intro d hd
  obtain ⟨c, -, hc⟩ := List.mem_flatMap.mp hd
  rcases mem_percentEncode hc with rfl | ⟨n, hn, rfl⟩ | ⟨rfl, hset⟩
  · exact hpercent
  · exact hhex n hn
  · exact hset

/-- A text without characters of the set is its own encoding. -/
theorem flatMap_percentEncode {set : Char → Bool} {text : List Char}
    (h : ∀ c ∈ text, set c = false) : text.flatMap (percentEncode set) = text := by
  induction text with
  | nil => rfl
  | cons c cs ih =>
    obtain ⟨hc, hcs⟩ := List.forall_mem_cons.mp h
    rw [List.flatMap_cons, ih hcs, percentEncode, hc]
    rfl

/-- The characters of segments. -/
def InSegment (c : Char) : Prop := pathSet c = false ∧ isSlash c = false

theorem inSegment_percentEncode {c : Char} (hslash : isSlash c = false) :
    ∀ d ∈ percentEncode pathSet c, InSegment d := by
  have hdigits : ∀ n < 16, pathSet (hexDigit n) = false ∧ isSlash (hexDigit n) = false := by decide
  intro d hd
  rcases mem_percentEncode hd with rfl | ⟨n, hn, rfl⟩ | ⟨rfl, hset⟩
  · exact ⟨rfl, rfl⟩
  · exact hdigits n hn
  · exact ⟨hset, hslash⟩

/-! ### What the path state leaves -/

/-- A segment that the parser does not change. -/
structure IsSegment (s : List Char) : Prop where
  clean : ∀ c ∈ s, InSegment c
  not_dot : dots s ≠ some 1
  not_dots : dots s ≠ some 2

theorem isSegment_nil : IsSegment [] where
  clean := fun _ h => absurd h List.not_mem_nil
  not_dot := by decide
  not_dots := by decide

/-- The end of a segment keeps the form of the path. -/
theorem endSegment_segments {path : List (List Char)} {buffer : List Char} {slash : Bool}
    (hpath : ∀ s ∈ path, IsSegment s) (hbuffer : ∀ c ∈ buffer, InSegment c) :
    ∀ s ∈ endSegment path buffer slash, IsSegment s := by
  have hdropped : ∀ s ∈ path.dropLast, IsSegment s := fun s hs =>
    hpath s (List.mem_of_mem_dropLast hs)
  have hempty : ∀ s ∈ [([] : List Char)], IsSegment s := by
    intro s hs
    rw [List.mem_singleton.mp hs]
    exact isSegment_nil
  rw [endSegment]
  split_ifs with hdouble _ hsingle
  · exact hdropped
  · exact List.forall_mem_append.mpr ⟨hdropped, hempty⟩
  · exact hpath
  · exact List.forall_mem_append.mpr ⟨hpath, hempty⟩
  · refine List.forall_mem_append.mpr ⟨hpath, fun s hs => ?_⟩
    rw [List.mem_singleton.mp hs]
    exact ⟨hbuffer, hsingle, hdouble⟩

theorem endSegment_ne_nil (path : List (List Char)) (buffer : List Char) :
    endSegment path buffer false ≠ [] := by
  rw [endSegment]
  split_ifs <;> simp_all

/-- The path state leaves segments that it would not change. Induction on the text. -/
theorem pathState_segments {text buffer : List Char} {path : List (List Char)}
    (hpath : ∀ s ∈ path, IsSegment s) (hbuffer : ∀ c ∈ buffer, InSegment c) :
    (pathState path buffer text).1 ≠ [] ∧ ∀ s ∈ (pathState path buffer text).1, IsSegment s := by
  induction text generalizing path buffer with
  | nil => exact ⟨endSegment_ne_nil path buffer, endSegment_segments hpath hbuffer⟩
  | cons c cs ih =>
    rw [pathState]
    split_ifs with hslash hend
    · exact ih (endSegment_segments hpath hbuffer) fun _ h => absurd h List.not_mem_nil
    · exact ⟨endSegment_ne_nil path buffer, endSegment_segments hpath hbuffer⟩
    · have hencoded := inSegment_percentEncode (c := c) (by simpa using hslash)
      exact ih hpath (List.forall_mem_append.mpr ⟨hbuffer, hencoded⟩)

/-! ### URLs that are read -/

/-- The form of a path, a query and a fragment that the parser leaves. -/
structure Url.WellFormed (url : Url hosts) : Prop where
  path_ne_nil : url.path ≠ []
  segments : ∀ s ∈ url.path, IsSegment s
  query_clean : ∀ q ∈ url.query, ∀ c ∈ q, specialQuerySet c = false
  fragment_clean : ∀ f ∈ url.fragment, ∀ c ∈ f, fragmentSet c = false

theorem fragmentState_clean (text : List Char) :
    ∀ f ∈ fragmentState text, ∀ c ∈ f, fragmentSet c = false := by
  intro f hf
  unfold fragmentState at hf
  split at hf
  next rest =>
    cases hf
    exact flatMap_percentEncode_clean (by decide) (by decide) rest
  next => cases hf

theorem queryState_clean (text : List Char) :
    (∀ q ∈ (queryState text).1, ∀ c ∈ q, specialQuerySet c = false) ∧
      ∀ f ∈ (queryState text).2, ∀ c ∈ f, fragmentSet c = false := by
  unfold queryState
  split
  next rest =>
    refine ⟨?_, fragmentState_clean _⟩
    rintro _ ⟨⟩
    exact flatMap_percentEncode_clean (by decide) (by decide) _
  next => exact ⟨by rintro _ ⟨⟩, fragmentState_clean _⟩

theorem urlAt_wellFormed (origin : Origin hosts) (text username password : List Char) :
    (urlAt origin text username password).WellFormed := by
  have hpath := @pathState_segments text [] [] (fun _ h => absurd h List.not_mem_nil)
    (fun _ h => absurd h List.not_mem_nil)
  have hquery := queryState_clean (pathState [] [] text).2
  exact ⟨hpath.1, hpath.2, hquery.1, hquery.2⟩

theorem wellFormed_of_authorityState {text : List Char} {url : Url hosts}
    (h : authorityState hosts scheme text = some url) : url.WellFormed := by
  rw [authorityState, Option.map_eq_some_iff] at h
  obtain ⟨origin, -, rfl⟩ := h
  exact urlAt_wellFormed ..

theorem wellFormed_of_resolve {origin : Origin hosts} {text : List Char} {url : Url hosts}
    (h : resolve origin ('/' :: text) = some url) : url.WellFormed := by
  rcases hdouble : beginsWithAuthority text with _ | _
  · rw [resolve_of_single origin hdouble] at h
    cases h
    exact urlAt_wellFormed ..
  · rw [resolve_of_double origin hdouble] at h
    exact wellFormed_of_authorityState h

/-! ### Reading a serialization -/

/-- Characters of a segment are collected as they are. -/
theorem pathState_append {s rest buffer : List Char} {path : List (List Char)}
    (h : ∀ c ∈ s, InSegment c) :
    pathState path buffer (s ++ rest) = pathState path (buffer ++ s) rest := by
  induction s generalizing buffer with
  | nil => rw [List.nil_append, List.append_nil]
  | cons c cs ih =>
    obtain ⟨⟨hc, hslash⟩, hcs⟩ := List.forall_mem_cons.mp h
    have hend : ¬ (c = '?' ∨ c = '#') := by
      rintro (rfl | rfl)
      · exact absurd hc (by decide)
      · exact absurd hc (by decide)
    rw [List.cons_append, pathState, hslash, if_neg Bool.false_ne_true, if_neg hend,
      percentEncode, hc, if_neg Bool.false_ne_true, ih hcs, List.append_assoc]
    rfl

theorem endSegment_of_isSegment {s : List Char} (h : IsSegment s) (path : List (List Char))
    (slash : Bool) : endSegment path s slash = path ++ [s] := by
  rw [endSegment, if_neg h.not_dots, if_neg h.not_dot]

/-- A path that is written is read back, whatever query and fragment follow. Induction on the
segments after the first. -/
theorem pathState_path {s : List Char} {segments path : List (List Char)}
    {query fragment : Option (List Char)} (hs : IsSegment s)
    (hsegments : ∀ s ∈ segments, IsSegment s) :
    pathState path [] (s ++ (segments.flatMap ('/' :: ·) ++ suffixText query fragment))
      = (path ++ s :: segments, suffixText query fragment) := by
  induction segments generalizing path s with
  | nil =>
    rw [pathState_append hs.clean, List.flatMap_nil, List.nil_append, List.nil_append]
    rcases query with _ | q
    · rcases fragment with _ | f
      · rw [suffixText, Option.elim_none, Option.elim_none, List.append_nil, pathState,
          endSegment_of_isSegment hs]
      · rw [suffixText, Option.elim_none, Option.elim_some, List.nil_append, pathState,
          if_neg (by decide), if_pos (.inr rfl), endSegment_of_isSegment hs]
    · rw [suffixText, Option.elim_some, List.cons_append, pathState, if_neg (by decide),
        if_pos (.inl rfl), endSegment_of_isSegment hs]
  | cons t rest ih =>
    obtain ⟨ht, hrest⟩ := List.forall_mem_cons.mp hsegments
    rw [pathState_append hs.clean, List.flatMap_cons, List.cons_append, List.cons_append,
      List.nil_append, pathState, if_pos (by decide), endSegment_of_isSegment hs,
      List.append_assoc, ih ht hrest, List.append_assoc]
    rfl

/-- A query and a fragment that are written are read back. -/
theorem queryState_suffixText {query fragment : Option (List Char)}
    (hquery : ∀ q ∈ query, ∀ c ∈ q, specialQuerySet c = false)
    (hfragment : ∀ f ∈ fragment, ∀ c ∈ f, fragmentSet c = false) :
    queryState (suffixText query fragment) = (query, fragment) := by
  have hlast : fragmentState (suffixText none fragment) = fragment := by
    rcases fragment with _ | f
    · rfl
    · exact congrArg some (flatMap_percentEncode (hfragment f rfl))
  rcases query with _ | q
  · rcases fragment with _ | f
    · rfl
    · exact Prod.ext rfl hlast
  · have hq : ∀ c ∈ q, (c != '#') = true := by
      intro c hc
      rw [bne_iff_ne]
      rintro rfl
      exact absurd (hquery q rfl _ hc) (by decide)
    have hstop : (suffixText none fragment).takeWhile (· != '#') = []
        ∧ (suffixText none fragment).dropWhile (· != '#') = suffixText none fragment := by
      rcases fragment with _ | f
      · exact ⟨rfl, rfl⟩
      · exact ⟨rfl, rfl⟩
    have htext : suffixText (some q) fragment = '?' :: (q ++ suffixText none fragment) := rfl
    rw [htext, queryState, List.takeWhile_append_of_pos hq, List.dropWhile_append_of_pos hq,
      hstop.1, hstop.2, List.append_nil, hlast, flatMap_percentEncode (hquery q rfl)]

/-! ### The round trip -/

/-- Characters outside of the sets are neither controls nor spaces. -/
theorem isC0ControlOrSpace_eq_false {c : Char} (h : c0ControlSet c = false) (hspace : c ≠ ' ') :
    isC0ControlOrSpace c = false := by
  simp only [c0ControlSet, Bool.or_eq_false_iff, decide_eq_false_iff_not, not_le] at h
  have hcode : c.toNat ≠ 0x20 := fun hcode => hspace (Char.toNat_inj.mp hcode)
  simp only [isC0ControlOrSpace, decide_eq_false_iff_not, not_le]
  omega

theorem cleanTail_eq_self {text : List Char} (h : ∀ c ∈ text, isC0ControlOrSpace c = false) :
    cleanTail text = text := by
  have hright : text.rdropWhile isC0ControlOrSpace = text := by
    rw [List.rdropWhile_eq_self_iff]
    intro hne
    simp [h _ (List.getLast_mem hne)]
  rw [cleanTail, hright, List.filter_eq_self]
  intro c hc
  have hcode := h c hc
  rw [Bool.not_eq_true', isTabOrNewline, Bool.or_eq_false_iff, Bool.or_eq_false_iff]
  refine ⟨⟨?_, ?_⟩, ?_⟩
  all_goals
    rw [decide_eq_false_iff_not]
    rintro rfl
    exact absurd hcode (by decide)

/-- No part of a serialization is removed. -/
theorem Url.WellFormed.clean {url : Url hosts} (h : url.WellFormed) :
    ∀ c ∈ url.pathname ++ suffixText url.query url.fragment, isC0ControlOrSpace c = false := by
  have hset : ∀ c, querySet c = false → isC0ControlOrSpace c = false := by
    intro c hc
    simp only [querySet, Bool.or_eq_false_iff] at hc
    refine isC0ControlOrSpace_eq_false hc.1 ?_
    rintro rfl
    exact absurd hc.2 (by decide)
  intro c hc
  rcases List.mem_append.mp hc with hpath | hsuffix
  · obtain ⟨s, hs, hcs⟩ := List.mem_flatMap.mp hpath
    rcases List.mem_cons.mp hcs with rfl | hmem
    · decide
    · have hin := ((h.segments s hs).clean c hmem).1
      simp only [pathSet, Bool.or_eq_false_iff] at hin
      exact hset c hin.1
  · rcases List.mem_append.mp hsuffix with hquery | hfragment
    · rcases hq : url.query with _ | q
      · rw [hq] at hquery
        cases hquery
      · rw [hq] at hquery
        rcases List.mem_cons.mp hquery with rfl | hmem
        · decide
        · have hin := h.query_clean q hq c hmem
          simp only [specialQuerySet, Bool.or_eq_false_iff] at hin
          exact hset c hin.1
    · rcases hf : url.fragment with _ | f
      · rw [hf] at hfragment
        cases hfragment
      · rw [hf] at hfragment
        rcases List.mem_cons.mp hfragment with rfl | hmem
        · decide
        · have hin := h.fragment_clean f hf c hmem
          simp only [fragmentSet, Bool.or_eq_false_iff] at hin
          refine isC0ControlOrSpace_eq_false hin.1 ?_
          rintro rfl
          exact absurd hin.2 (by decide)

/-- A URL without credentials is read back from its serialization. -/
theorem parse_text {url : Url hosts} (h : url.WellFormed)
    (hcredentials : url.includesCredentials = false) : parse hosts url.text = some url := by
  obtain ⟨origin, username, password, path, query, fragment⟩ := url
  rw [Url.includesCredentials, Bool.or_eq_false_iff, bne_eq_false_iff_eq, bne_eq_false_iff_eq]
    at hcredentials
  obtain ⟨rfl, rfl⟩ : username = [] ∧ password = [] := hcredentials
  obtain ⟨s, segments, rfl⟩ := List.exists_cons_of_ne_nil h.path_ne_nil
  obtain ⟨hs, hsegments⟩ := List.forall_mem_cons.mp h.segments
  have hclean := h.clean
  have htext : @Url.text hosts ⟨origin, [], [], s :: segments, query, fragment⟩
      = origin.text ++ '/' :: (s ++ (segments.flatMap ('/' :: ·) ++ suffixText query fragment)) := by
    rw [Url.text, Url.pathname, List.flatMap_cons, List.append_assoc]
    rfl
  have htail : cleanTail (s ++ (segments.flatMap ('/' :: ·) ++ suffixText query fragment))
      = s ++ (segments.flatMap ('/' :: ·) ++ suffixText query fragment) := by
    refine cleanTail_eq_self fun c hc => hclean c ?_
    rw [Url.pathname, List.flatMap_cons, List.append_assoc]
    exact List.mem_cons_of_mem '/' hc
  have hquery := queryState_suffixText h.query_clean h.fragment_clean
  rw [htext, parse_origin_append, htail, urlAt]
  simp only [pathState_path hs hsegments, hquery, List.nil_append]

end HttpUrl

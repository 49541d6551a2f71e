import RubyDoc.Proofs.Docstring.StandardForm

/-!
# Docstrings that are rewritten

Rewriting a docstring is reading it and writing it. A text that was rewritten is
rewritten to itself exactly if each of its tags is written like a tag in
standard form and its prose exposes no at sign. The prose may expose one where
trimming takes the blanks off its first line; then the whole prose has to be
such a tag itself.
-/

namespace RubyDoc

open RubyDoc.Text

namespace Tag

/-- A tag that is written like one in standard form. -/
def IsSettled (t : Tag) : Prop := ∃ u : Tag, u.IsStandard ∧ u.print = t.print

end Tag

namespace Docstring

/-- Read a docstring and write it. -/
def rewrite (content : String) : String := (parse content).print

variable {d : Docstring}

/-- There is no directive to look at. -/
theorem isDirective_of_mem_nil : ∀ p ∈ ([] : List Passage), p.IsDirective := by simp

/-- Without directives nothing is put behind the tags. -/
theorem written_nil (d : Docstring) : d.written [] = d.print := by
  rw [written, addDirectives, List.map_nil, joinNonEmpty]
  by_cases he : d.print = ""
  · rw [he]
    rfl
  · rw [List.filter_cons_of_pos (by simpa using he), List.filter_nil, joinLines_singleton]

/-- A docstring as reading makes it, with no at sign in front of its prose. -/
structure IsPlain (d : Docstring) : Prop where
  /-- No blanks stand around the prose. -/
  stripped : strip d.text = d.text
  /-- The lines of the prose are parted by newlines. -/
  joined : IsJoined d.text
  /-- No line of prose ends in blanks. -/
  ends : ∀ l ∈ lines d.text, stripEnd l = l
  /-- No line of prose looks like a tag. -/
  unmarked : ∀ l ∈ lines d.text, beginsWith "@" l = false
  /-- The tags are as reading makes them. -/
  tags : ∀ t ∈ d.tags, t.IsRead

theorem IsPlain.isWritable (h : d.IsPlain) : d.IsWritable :=
  ⟨h.stripped, h.joined, fun t ht => (h.tags t ht).tagName,
    fun t ht => (h.tags t ht).singleLine_passage⟩

/-- Tags that were read leave no lines to the prose. -/
theorem flatMap_left_eq_nil (h : ∀ t ∈ d.tags, t.IsRead) :
    (d.tags.flatMap fun t => t.passage.left) = [] := by
  rw [List.flatMap_eq_nil_iff]
  intro t ht
  have hlines : t.textLines = lines t.text := by rw [Tag.textLines, (h t ht).stripped]
  exact Tag.left_eq_nil (hlines ▸ (h t ht).notBlank)

/-- A plain docstring with directives behind it keeps its prose and the directives, and each
tag is read back by itself. -/
theorem parse_written_of_isPlain (h : d.IsPlain) {ds : List Passage}
    (hds : ∀ p ∈ ds, p.IsDirective) :
    parse (d.written ds) =
      { text := d.text, tags := d.tags.map Tag.reread
        directives := ds.map fun p => joinLines p.lines } := by
  have hparse := parse_written h.isWritable hds h.ends h.unmarked
  have hjoined := h.joined
  rw [IsJoined] at hjoined
  rwa [flatMap_left_eq_nil h.tags, List.append_nil, hjoined, h.stripped] at hparse

/-- A plain docstring keeps its prose, and each tag is read back by itself. -/
theorem parse_print_of_isPlain (h : d.IsPlain) :
    parse d.print = { text := d.text, tags := d.tags.map Tag.reread } := by
  have hparse := parse_written_of_isPlain h isDirective_of_mem_nil
  rwa [written_nil] at hparse

end Docstring

namespace Tag

/-- What is read back of a tag is as reading makes tags. -/
theorem IsRead.isRead_reread {t : Tag} (h : t.IsRead) : t.reread.IsRead := by
  have hempty : strip "" = "" ∧ IsJoined "" ∧ lines "" = [] := by decide
  have hplain : Docstring.IsPlain { tags := [t] } := by
    refine ⟨hempty.1, hempty.2.1, fun l hl => ?_, fun l hl => ?_, by simpa using h⟩
    · rw [hempty.2.2] at hl
      cases hl
    · rw [hempty.2.2] at hl
      cases hl
  have hparse := Docstring.parse_print_of_isPlain hplain
  have hmem : t.reread ∈ (Docstring.parse (Docstring.print { tags := [t] })).tags := by
    rw [hparse]
    exact List.mem_singleton_self _
  exact Docstring.isRead_of_mem_tags hmem

/-- What is read back of a tag depends on its passage alone. -/
theorem reread_congr {t u : Tag} (h : t.passage = u.passage) : t.reread = u.reread := by
  rw [reread, reread, h]

/-- A tag that was read is settled exactly if it is written the same after it is read back. -/
theorem isSettled_iff {t : Tag} (h : t.IsRead) : t.IsSettled ↔ t.reread.passage = t.passage := by
  have hread := h.isRead_reread
  constructor
  · rintro ⟨u, hu, hprint⟩
    have hsame := (print_eq_iff hu.isRead.singleLine_passage h.singleLine_passage).mp hprint
    rw [← reread_congr hsame, hu.reread, hsame]
  · intro hsame
    refine ⟨t.reread, (isStandard_iff hread).mpr (reread_congr hsame), ?_⟩
    exact (print_eq_iff hread.singleLine_passage h.singleLine_passage).mpr hsame

end Tag

namespace Docstring

variable {d : Docstring}

/-- A plain docstring is rewritten to itself exactly if its tags are settled. -/
theorem rewrite_print_iff (h : d.IsPlain) :
    rewrite d.print = d.print ↔ ∀ t ∈ d.tags, t.IsSettled := by
  have hparse := parse_print_of_isPlain h
  have hwritable : IsWritable { text := d.text, tags := d.tags.map Tag.reread } := by
    refine ⟨h.stripped, h.joined, fun t ht => ?_, fun t ht => ?_⟩
    · obtain ⟨u, hu, rfl⟩ := List.mem_map.mp ht
      exact (h.tags u hu).isRead_reread.tagName
    · obtain ⟨u, hu, rfl⟩ := List.mem_map.mp ht
      exact (h.tags u hu).isRead_reread.singleLine_passage
  have heq := written_eq_iff h.isWritable hwritable isDirective_of_mem_nil h.unmarked (by simp)
  rw [written_nil, written_nil] at heq
  rw [rewrite, hparse, heq]
  dsimp only
  rw [List.map_map, List.map_inj_left]
  constructor
  · rintro ⟨-, hall⟩ t ht
    exact (Tag.isSettled_iff (h.tags t ht)).mpr (hall t ht)
  · intro hall
    exact ⟨rfl, fun t ht => (Tag.isSettled_iff (h.tags t ht)).mp (hall t ht)⟩

/-! ### Prose that exposes an at sign -/

/-- A trimmed text begins with an at sign exactly if its first line does. -/
theorem beginsWith_at_iff {s : String} (hs : strip s = s) (hj : IsJoined s) :
    beginsWith "@" s = true ↔ ∃ l ∈ (lines s).head?, beginsWith "@" l = true := by
  have hfirst := (isBlankText_ends_of_strip hs).1
  rw [IsJoined] at hj
  cases hl : lines s with
  | nil =>
    rw [hl] at hj
    rw [← hj]
    decide
  | cons l ls =>
    rw [hl] at hfirst
    have hne : l ≠ "" := Tag.ne_empty_of_isBlankText (hfirst l rfl)
    have hhead := head?_joinLines hne ls
    rw [← hl, hj] at hhead
    have hsame : beginsWith "@" s = beginsWith "@" l := by
      rw [beginsWith_mark rfl, beginsWith_mark rfl, hhead]
    rw [hsame]
    simp

/-- The prose of a text as a passage, if its first line begins with an at sign. -/
theorem exists_exposed {content : String} (h : beginsWith "@" (parse content).text = true) :
    ∃ p : Passage, p.IsProper ∧ lines (parse content).text = p.lines := by
  obtain ⟨hstrip, hjoined, -, hclosed⟩ := text_parse content
  obtain ⟨head, hhead, hopens⟩ := (beginsWith_at_iff hstrip hjoined).mp h
  obtain ⟨more, hl⟩ := List.head?_eq_some_iff.mp hhead
  rw [hl] at hclosed
  exact ⟨⟨head, more⟩, ⟨hopens, hclosed⟩, hl⟩

/-- Without one in front of the prose a text is read to a plain docstring. -/
theorem isPlain_parse {content : String} (h : beginsWith "@" (parse content).text = false) :
    (parse content).IsPlain := by
  obtain ⟨hstrip, hjoined, hkept, hclosed⟩ := text_parse content
  refine ⟨hstrip, hjoined, fun l hl => (hkept l hl).2, fun l hl => ?_,
    fun t ht => isRead_of_mem_tags ht⟩
  rw [Bool.eq_false_iff] at h ⊢
  intro hat
  cases hls : lines (parse content).text with
  | nil =>
    rw [hls] at hl
    cases hl
  | cons k ks =>
    rw [hls] at hl hclosed
    rcases List.mem_cons.mp hl with rfl | hl
    · exact h ((beginsWith_at_iff hstrip hjoined).mpr ⟨l, by rw [hls]; rfl, hat⟩)
    · rw [hclosed l hl] at hat
      cases hat

/-- The lines of what is written of a text that exposes an at sign. -/
theorem lines_rewrite_exposed {content : String} {p : Passage}
    (hlines : lines (parse content).text = p.lines) :
    lines (rewrite content) =
      [] ++ (p :: (parse content).tags.map Tag.passage).flatMap Passage.lines := by
  obtain ⟨hstrip, hjoined, -, -⟩ := text_parse content
  have htext : IsJoined (strip (parse content).text) := by rwa [hstrip]
  rw [rewrite, lines_print htext fun t ht => (isRead_of_mem_tags ht).singleLine_passage, hstrip,
    hlines, List.flatMap_cons, List.nil_append]

/-- A text that is rewritten to itself has no at sign in front of its prose: the line would be
read as a tag or directive and be missing from the prose. -/
theorem unmarked_of_rewrite_eq {content : String} (h : rewrite content = content) :
    beginsWith "@" (parse content).text = false := by
  rw [Bool.eq_false_iff]
  intro hat
  obtain ⟨p, hp, hlines⟩ := exists_exposed hat
  obtain ⟨hstrip, hjoined, -, -⟩ := text_parse content
  have hread := lines_rewrite_exposed hlines
  rw [h] at hread
  have hproper : ∀ q ∈ p :: (parse content).tags.map Tag.passage, q.IsProper := by
    rw [List.forall_mem_cons]
    exact ⟨hp, fun q hq => by obtain ⟨t, -, rfl⟩ := List.mem_map.mp hq; exact t.passage_isProper⟩
  have hleft := flatMap_left_eq_nil (d := parse content) fun t ht => isRead_of_mem_tags ht
  have htext : (parse content).text = strip (joinLines p.left) := by
    rw [parse_passages (by simp) hproper hread, List.flatMap_cons, List.flatMap_map, hleft,
      List.map_nil, List.nil_append, List.append_nil]
  -- Count what is no blank: the first line is missing.
  have hcount : ∀ ls : List String, (strip (joinLines ls)).toList.filter (fun c => !isBlank c) =
      ls.flatMap fun l => l.toList.filter fun c => !isBlank c := fun ls => by
    rw [toList_strip, filter_trim, filter_joinLines]
  have hsame : p.left.flatMap (fun l => l.toList.filter fun c => !isBlank c) =
      p.lines.flatMap fun l => l.toList.filter fun c => !isBlank c := by
    rw [IsJoined, hlines] at hjoined
    rw [← hcount, ← hcount, ← htext, hjoined, hstrip]
  have hhead := head?_of_beginsWith_at hp.opens
  obtain ⟨cs, hcs⟩ := List.head?_eq_some_iff.mp hhead
  have hkept : p.left.flatMap (fun l => l.toList.filter fun c => !isBlank c) =
      (p.more.dropWhile isContinuation).flatMap fun l => l.toList.filter fun c => !isBlank c := by
    rw [Passage.left, List.flatMap_map]
    exact List.flatMap_congr fun l _ => by rw [toList_stripEnd, filter_trimEnd]
  have hmore : p.more.flatMap (fun l => l.toList.filter fun c => !isBlank c) =
      (p.more.takeWhile isContinuation).flatMap (fun l => l.toList.filter fun c => !isBlank c) ++
        (p.more.dropWhile isContinuation).flatMap fun l => l.toList.filter fun c => !isBlank c := by
    rw [← List.flatMap_append, List.takeWhile_append_dropWhile]
  have hone : isBlank '@' = false := by decide
  have hlength := congrArg List.length hsame
  rw [hkept, Passage.lines, List.flatMap_cons, hmore, hcs,
    List.filter_cons_of_pos (by simp [hone])] at hlength
  simp only [List.length_append, List.length_cons] at hlength
  omega

/-- What was read can be written line by line. -/
theorem isWritable_parse (content : String) : (parse content).IsWritable :=
  ⟨(text_parse content).1, (text_parse content).2.1, fun _ ht => (isRead_of_mem_tags ht).tagName,
    fun _ ht => (isRead_of_mem_tags ht).singleLine_passage⟩

/-- A written tag is read line by line. -/
theorem lines_print_of_isRead {t : Tag} (h : t.IsRead) :
    lines t.print = t.passage.lines := by
  have hlast : t.passage.lines.getLast? ≠ some "" := fun he =>
    t.ne_empty_of_mem_passage "" (List.mem_of_getLast? he) rfl
  rw [Tag.print, Tag.printLines_eq, lines_joinLines h.singleLine_passage hlast]

/-- The lines of what is written, and that it is a joined text. -/
theorem IsWritable.lines_print (h : d.IsWritable) :
    lines d.print = lines d.text ++ (d.tags.map Tag.passage).flatMap Passage.lines ∧
      IsJoined d.print := by
  have hlines := lines_written h.stripped h.joined h.tagLines isDirective_of_mem_nil
  rwa [written_nil, passages, List.append_nil] at hlines

/-- Prose that is written like a tag in standard form is as good as that tag. -/
theorem exists_plain_of_exposed {content : String} {u : Tag} (hu : u.IsStandard)
    (hprint : u.print = (parse content).text) :
    IsPlain { tags := u :: (parse content).tags } ∧
      (parse content).print = print { tags := u :: (parse content).tags } := by
  have hempty : strip "" = "" ∧ IsJoined "" ∧ lines "" = [] := by decide
  have hplain : IsPlain { tags := u :: (parse content).tags } := by
    refine ⟨hempty.1, hempty.2.1, fun l hl => ?_, fun l hl => ?_, ?_⟩
    · rw [hempty.2.2] at hl
      cases hl
    · rw [hempty.2.2] at hl
      cases hl
    · exact List.forall_mem_cons.mpr ⟨hu.isRead, fun t ht => isRead_of_mem_tags ht⟩
  refine ⟨hplain, ?_⟩
  obtain ⟨hlines, hjoined⟩ := (isWritable_parse content).lines_print
  obtain ⟨hlines', hjoined'⟩ := hplain.isWritable.lines_print
  rw [IsJoined] at hjoined hjoined'
  rw [← hjoined, ← hjoined', hlines, hlines', ← hprint, lines_print_of_isRead hu.isRead, hempty.2.2,
    List.nil_append, List.map_cons, List.flatMap_cons]

/-- Rewriting a text twice is rewriting it once exactly if each of its tags is written like a
tag in standard form, and its prose exposes no at sign or is written like such a tag itself. -/
theorem rewrite_rewrite_iff (content : String) :
    rewrite (rewrite content) = rewrite content ↔
      (beginsWith "@" (parse content).text = true →
        ∃ u : Tag, u.IsStandard ∧ u.print = (parse content).text) ∧
      ∀ t ∈ (parse content).tags, ∃ u : Tag, u.IsStandard ∧ u.print = t.print := by
  cases hat : beginsWith "@" (parse content).text with
  | false =>
    have hiff := rewrite_print_iff (isPlain_parse hat)
    exact ⟨fun h => ⟨by simp, hiff.mp h⟩, fun h => hiff.mpr h.2⟩
  | true =>
    obtain ⟨p, hp, hexposed⟩ := exists_exposed hat
    constructor
    · intro hfix
      have hplain := isPlain_parse (unmarked_of_rewrite_eq hfix)
      have hagain : rewrite (rewrite (rewrite content)) = rewrite (rewrite content) := by
        rw [hfix, hfix]
      have hsettled := (rewrite_print_iff hplain).mp hagain
      -- The lines fall into passages in one way, so the prose is what the first tag writes.
      have hlines := hplain.isWritable.lines_print.1
      rw [show (parse (rewrite content)).print = rewrite content from hfix,
        lines_rewrite_exposed hexposed] at hlines
      have hproper : ∀ q ∈ p :: (parse content).tags.map Tag.passage, q.IsProper := by
        rw [List.forall_mem_cons]
        refine ⟨hp, fun q hq => ?_⟩
        obtain ⟨t, -, rfl⟩ := List.mem_map.mp hq
        exact t.passage_isProper
      have hproper' : ∀ q ∈ (parse (rewrite content)).tags.map Tag.passage, q.IsProper := by
        intro q hq
        obtain ⟨t, -, rfl⟩ := List.mem_map.mp hq
        exact t.passage_isProper
      obtain ⟨-, hrest⟩ := prose_eq_of_append_eq (by simp) hplain.unmarked
        (head?_flatMap_lines hproper) (head?_flatMap_lines hproper') hlines
      have hps := passages_eq_of_lines_eq hproper hproper' hrest
      obtain ⟨t, ts, htags, hfirst, hothers⟩ := List.map_eq_cons_iff.mp hps.symm
      rw [htags, List.forall_mem_cons] at hsettled
      refine ⟨fun _ => ?_, fun s hs => ?_⟩
      · obtain ⟨u, hu, hprint⟩ := hsettled.1
        have hjoined := (text_parse content).2.1
        rw [IsJoined, hexposed, ← hfirst] at hjoined
        exact ⟨u, hu, by rw [hprint, Tag.print, Tag.printLines_eq, hjoined]⟩
      · have hmem := List.mem_map_of_mem (f := Tag.passage) hs
        rw [← hothers] at hmem
        obtain ⟨s', hs', hsame⟩ := List.mem_map.mp hmem
        obtain ⟨u, hu, hprint⟩ := hsettled.2 s' hs'
        refine ⟨u, hu, ?_⟩
        rw [hprint, Tag.print, Tag.print, Tag.printLines_eq, Tag.printLines_eq, hsame]
    · rintro ⟨htext, htags⟩
      obtain ⟨u, hu, hprint⟩ := htext rfl
      obtain ⟨hplain, hsame⟩ := exists_plain_of_exposed hu hprint
      have hiff := rewrite_print_iff hplain
      rw [← hsame] at hiff
      exact hiff.mpr (List.forall_mem_cons.mpr ⟨⟨u, hu, rfl⟩, htags⟩)

/-- A tag line without a proper tag name gets one more at sign each time. -/
example : rewrite "@-foo" = "@ @-foo" ∧ rewrite "@ @-foo" = "@ @ @-foo" := by decide +kernel

end Docstring

end RubyDoc

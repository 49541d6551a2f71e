import RubyDoc.Proofs.Docstring.Parsed
import RubyDoc.Proofs.Docstring.RoundTrip

/-!
# Docstrings that are written and read again

A docstring that is written with its directives is read again as prose, tags and
directives. The directives come back as they were, each tag comes back as what
its own passage says, and lines of a tag's text from the first blank one on fall
to the prose. What is written determines the prose lines and the passages, so
two docstrings are written alike exactly if these are the same.
-/

namespace RubyDoc

open RubyDoc.Text

/-! ### Lines that a tag leaves to the prose -/

namespace Tag

/-- The lines that a tag leaves to the prose are empty exactly if no line of its
text is blank. -/
theorem left_empty_iff (t : Tag) :
    (∀ l ∈ t.passage.left, l = "") ↔ ∀ l ∈ t.textLines, isBlankText l = false := by
  obtain ⟨hfirst, hlast⟩ := isBlankText_ends_of_strip (strip_strip t.text)
  change (∀ l ∈ t.textLines.head?, isBlankText l = false) at hfirst
  change (∀ l ∈ t.textLines.getLast?, isBlankText l = false) at hlast
  constructor
  · intro hleft l hl
    rw [Bool.eq_false_iff]
    intro hb
    -- A blank line is not the first, so it stands below; the last line follows it.
    obtain ⟨k, ks, hk⟩ := List.exists_cons_of_ne_nil (List.ne_nil_of_mem hl)
    have hmem : l ∈ ks := by
      rw [hk] at hl hfirst
      rcases List.mem_cons.mp hl with rfl | hl
      · rw [hfirst l rfl] at hb
        cases hb
      · exact hl
    have hmore : t.passage.more = ks.map ("  " ++ ·) := by
      rw [more_passage, hk]
      rfl
    have hdrop : t.passage.more.dropWhile isContinuation ≠ [] := by
      intro he
      rw [hmore, List.dropWhile_eq_nil_iff] at he
      have := he _ (List.mem_map_of_mem hmem)
      rw [isContinuation_indented, hb] at this
      cases this
    have hend := List.getLast_mem hdrop
    have hne := hleft _ (List.mem_map_of_mem hend)
    have hks : ks ≠ [] := List.ne_nil_of_mem hmem
    have hmap : ks.map ("  " ++ ·) ≠ [] := by simpa using hks
    have hsame : (t.passage.more.dropWhile isContinuation).getLast hdrop = "  " ++ ks.getLast hks := by
      have hsuffix := List.dropWhile_suffix isContinuation (l := t.passage.more)
      rw [hsuffix.getLast hdrop]
      simp only [hmore, List.getLast_map]
    have hnot : isBlankText (ks.getLast hks) = false := by
      refine hlast _ ?_
      rw [hk, List.getLast?_cons, List.getLast?_eq_some_getLast hks]
      rfl
    rw [hsame] at hne
    have hcont := isContinuation_indented (ks.getLast hks)
    rw [hnot] at hcont
    have hagain := isContinuation_stripEnd hcont
    rw [hne] at hagain
    cases hagain
  · intro hall l hl
    rw [left_eq_nil hall] at hl
    cases hl

/-- A tag that was read leaves nothing to the prose when it is written. -/
theorem IsRead.left_empty {t : Tag} (h : t.IsRead) : ∀ l ∈ t.passage.left, l = "" := by
  rw [left_empty_iff, Tag.textLines, h.stripped]
  exact h.notBlank

/-- A tag that was read is written as lines. -/
theorem IsRead.singleLine_passage {t : Tag} (h : t.IsRead) :
    ∀ l ∈ t.passage.lines, SingleLine l := by
  refine Tag.singleLine_passage ?_ h.types h.name
  rcases h.tagName with he | hn
  · rw [he]
    decide
  · exact hn.singleLine

/-- Tags that are written as lines are written alike exactly if their passages are
the same. -/
theorem print_eq_iff {t u : Tag} (ht : ∀ l ∈ t.passage.lines, SingleLine l)
    (hu : ∀ l ∈ u.passage.lines, SingleLine l) : t.print = u.print ↔ t.passage = u.passage := by
  have hlast : ∀ v : Tag, v.passage.lines.getLast? ≠ some "" := fun v he =>
    v.ne_empty_of_mem_passage "" (List.mem_of_getLast? he) rfl
  rw [print, print, printLines_eq, printLines_eq]
  constructor
  · intro he
    have hlines := congrArg lines he
    rw [lines_joinLines ht (hlast t), lines_joinLines hu (hlast u), Passage.lines, Passage.lines,
      List.cons.injEq] at hlines
    cases ht : t.passage
    cases hu : u.passage
    rw [ht, hu] at hlines
    rw [Passage.mk.injEq]
    exact hlines
  · intro he
    rw [he]

end Tag

/-! ### Directives -/

/-- The lines of one directive. -/
structure Passage.IsDirective (p : Passage) : Prop where
  /-- The first line opens a block. -/
  opening : IsOpeningLine p.head
  /-- It is one of a directive. -/
  mark : beginsWith "@!" p.head = true
  /-- All other lines belong to the directive. -/
  further : ∀ l ∈ p.more, IsFurtherLine l

namespace Passage.IsDirective

variable {p : Passage}

/-- A line that continues a block opens none. -/
theorem closed (h : p.IsDirective) : ∀ l ∈ p.more, beginsWith "@" l = false := by
  intro l hl
  rw [Bool.eq_false_iff]
  intro hat
  have hc := isContinuation_of_beginsWith_at hat
  rw [(h.further l hl).2] at hc
  cases hc

theorem isProper (h : p.IsDirective) : p.IsProper := ⟨h.opening.2, h.closed⟩

/-- The lines of a directive are read as that directive. -/
theorem block_eq (h : p.IsDirective) : p.block = .directive p.head p.more := by
  have hend : ∀ l ∈ p.more, stripEnd l = l := fun l hl => (h.further l hl).1.2
  rw [Passage.block, if_pos h.mark, h.opening.1.2, Passage.continued,
    List.takeWhile_eq_self_iff.mpr fun l hl => (h.further l hl).2]
  congr 1
  exact (List.map_congr_left hend).trans (List.map_id _)

/-- A directive leaves nothing to the prose. -/
theorem left_eq_nil (h : p.IsDirective) : p.left = [] := by
  rw [Passage.left, List.dropWhile_eq_nil_iff.mpr fun l hl => (h.further l hl).2, List.map_nil]

/-- A directive is written as lines of which none is empty. -/
theorem singleLine (h : p.IsDirective) : ∀ l ∈ p.lines, SingleLine l ∧ l ≠ "" := by
  intro l hl
  rw [Passage.lines] at hl
  rcases List.mem_cons.mp hl with rfl | hl
  · exact ⟨h.opening.1.1, Tag.ne_empty_of_isBlankText (Tag.isBlankText_of_isOpeningLine h.opening)⟩
  · have hf := h.further l hl
    exact ⟨hf.1.1, Tag.ne_empty_of_isBlankText (Tag.isBlankText_of_isFurtherLine hf)⟩

/-- The text of a directive is read line by line. -/
theorem lines_joinLines (h : p.IsDirective) :
    Text.lines (joinLines p.lines) = p.lines ∧ IsJoined (joinLines p.lines) := by
  have hlast : p.lines.getLast? ≠ some "" := fun he =>
    (h.singleLine "" (List.mem_of_getLast? he)).2 rfl
  have hsingle : ∀ l ∈ p.lines, SingleLine l := fun l hl => (h.singleLine l hl).1
  exact ⟨Text.lines_joinLines hsingle hlast, joined_joinLines hsingle hlast⟩

end Passage.IsDirective

/-- The directives that were read are the texts of directive passages. -/
theorem exists_directivePassages (content : String) :
    ∃ ps : List Passage, (Docstring.parse content).directives = ps.map (fun p => joinLines p.lines) ∧
      ∀ p ∈ ps, p.IsDirective := by
  have hall := fun x (hx : x ∈ (Docstring.parse content).directives) =>
    Docstring.mem_directives_parse hx
  generalize (Docstring.parse content).directives = xs at hall
  induction xs with
  | nil => exact ⟨[], rfl, by simp⟩
  | cons x xs ih =>
    obtain ⟨ps, hps, hdir⟩ := ih fun y hy => hall y (List.mem_cons_of_mem _ hy)
    obtain ⟨head, more, hx, hopen, hmark, hfurther⟩ := hall x List.mem_cons_self
    refine ⟨⟨head, more⟩ :: ps, ?_, ?_⟩
    · rw [hps, hx]
      rfl
    · intro p hp
      rcases List.mem_cons.mp hp with rfl | hp
      · exact ⟨hopen, hmark, hfurther⟩
      · exact hdir p hp

/-! ### Writing and reading -/

namespace Docstring

variable {d : Docstring} {ds : List Passage}

/-- The passages of a docstring that is written with directives. -/
def passages (d : Docstring) (ds : List Passage) : List Passage := d.tags.map Tag.passage ++ ds

/-- A docstring that is written with directives. -/
def written (d : Docstring) (ds : List Passage) : String :=
  addDirectives d.print (ds.map fun p => joinLines p.lines)

/-- A docstring whose prose and tags are written line by line. -/
structure IsWritable (d : Docstring) : Prop where
  /-- No blanks stand around the prose. -/
  stripped : strip d.text = d.text
  /-- The lines of the prose are parted by newlines. -/
  joined : IsJoined d.text
  /-- The tag names can be read or are empty. -/
  tagNames : ∀ t ∈ d.tags, t.tagName = "" ∨ Tag.IsTagName t.tagName
  /-- The tags are written as lines. -/
  tagLines : ∀ t ∈ d.tags, ∀ l ∈ t.passage.lines, SingleLine l

/-- The lines of what is written with directives, and that it is a joined text. -/
theorem lines_written (hstripped : strip d.text = d.text) (hjoined : IsJoined d.text)
    (htags : ∀ t ∈ d.tags, ∀ l ∈ t.passage.lines, SingleLine l) (hds : ∀ p ∈ ds, p.IsDirective) :
    lines (d.written ds) = lines d.text ++ (d.passages ds).flatMap Passage.lines ∧
      IsJoined (d.written ds) := by
  have htext : IsJoined (strip d.text) := by rwa [hstripped]
  have hprint : IsJoined d.print := by
    refine joined_joinNonEmpty fun p hp => ?_
    rcases List.mem_cons.mp hp with rfl | hp
    · exact htext
    · rw [List.mem_singleton.mp hp]
      exact (lines_join_print htags).2
  have hparts : ∀ p ∈ d.print :: ds.map fun p => joinLines p.lines, IsJoined p := by
    intro p hp
    rcases List.mem_cons.mp hp with rfl | hp
    · exact hprint
    · obtain ⟨q, hq, rfl⟩ := List.mem_map.mp hp
      exact (hds q hq).lines_joinLines.2
  have hlines : (ds.map fun p => joinLines p.lines).flatMap lines = ds.flatMap Passage.lines := by
    rw [List.flatMap_map]
    exact List.flatMap_congr fun p hp => (hds p hp).lines_joinLines.1
  refine ⟨?_, joined_joinNonEmpty hparts⟩
  rw [written, addDirectives, lines_joinNonEmpty hparts, List.flatMap_cons, hlines,
    lines_print htext htags, hstripped, passages, List.flatMap_append, List.append_assoc]

/-- Every passage of what is written opens one block. -/
theorem isProper_passages (d : Docstring) (hds : ∀ p ∈ ds, p.IsDirective) :
    ∀ p ∈ d.passages ds, p.IsProper := by
  intro p hp
  rcases List.mem_append.mp hp with hp | hp
  · obtain ⟨t, -, rfl⟩ := List.mem_map.mp hp
    exact t.passage_isProper
  · exact (hds p hp).isProper

/-- The directives among the passages are those put behind the tags, if no tag name begins
with an exclamation mark. -/
theorem filterMap_directiveText?_passages (htags : ∀ t ∈ d.tags, beginsWith "!" t.tagName = false)
    (hds : ∀ p ∈ ds, p.IsDirective) :
    ((d.passages ds).map Passage.block).filterMap Block.directiveText? =
      ds.map fun p => joinLines p.lines := by
  have hnone : (d.tags.map Tag.passage).filterMap (Block.directiveText? ∘ Passage.block) = [] := by
    rw [List.filterMap_map, List.filterMap_eq_nil_iff]
    exact fun t ht => Tag.directiveText?_block_passage (htags t ht)
  have hsome : ds.filterMap (Block.directiveText? ∘ Passage.block) =
      ds.map fun p => joinLines p.lines := by
    rw [← List.filterMap_eq_map']
    refine List.filterMap_congr fun p hp => ?_
    rw [Function.comp_apply, (hds p hp).block_eq]
    rfl
  rw [passages, List.filterMap_map, List.filterMap_append, hnone, hsome, List.nil_append]

/-- What is read of a docstring that was written with directives. -/
theorem parse_written (h : d.IsWritable) (hds : ∀ p ∈ ds, p.IsDirective)
    (hends : ∀ l ∈ lines d.text, stripEnd l = l)
    (hat : ∀ l ∈ lines d.text, beginsWith "@" l = false) :
    parse (d.written ds) =
      { text := strip (joinLines (lines d.text ++ d.tags.flatMap fun t => t.passage.left))
        tags := d.tags.map Tag.reread
        directives := ds.map fun p => joinLines p.lines } := by
  have htext : (lines d.text).map stripEnd = lines d.text :=
    (List.map_congr_left hends).trans (List.map_id _)
  have hleft : (d.passages ds).flatMap Passage.left = d.tags.flatMap fun t => t.passage.left := by
    have hnil : ds.flatMap Passage.left = [] := by
      rw [List.flatMap_eq_nil_iff]
      exact fun p hp => (hds p hp).left_eq_nil
    rw [passages, List.flatMap_append, hnil, List.append_nil, List.flatMap_map]
  have htags : ((d.passages ds).map Passage.block).filterMap Block.tag? = d.tags.map Tag.reread := by
    have hsome : (d.tags.map Tag.passage).filterMap (Block.tag? ∘ Passage.block) =
        d.tags.map Tag.reread := by
      rw [List.filterMap_map, ← List.filterMap_eq_map]
      exact List.filterMap_congr fun t ht => Tag.tag?_block_passage (h.tagNames t ht)
    have hnone : ds.filterMap (Block.tag? ∘ Passage.block) = [] := by
      rw [List.filterMap_eq_nil_iff]
      intro p hp
      rw [Function.comp_apply, (hds p hp).block_eq]
      rfl
    rw [passages, List.filterMap_map, List.filterMap_append, hsome, hnone, List.append_nil]
  have hdirs := filterMap_directiveText?_passages
    (fun t ht => Tag.beginsWith_bang_tagName (h.tagNames t ht)) hds
  have hlines := (lines_written h.stripped h.joined h.tagLines hds).1
  rw [parse_passages hat (d.isProper_passages hds) hlines, htext, hleft, htags, hdirs]

/-- Two docstrings are written alike exactly if they have the same prose and the
same passages. The count of passages makes sure that no prose line of the second
looks like a tag. -/
theorem written_eq_iff {d' : Docstring} (h : d.IsWritable) (h' : d'.IsWritable)
    (hds : ∀ p ∈ ds, p.IsDirective) (hat : ∀ l ∈ lines d.text, beginsWith "@" l = false)
    (hcount : d'.tags.length = d.tags.length) :
    d'.written ds = d.written ds ↔
      d'.text = d.text ∧ d'.tags.map Tag.passage = d.tags.map Tag.passage := by
  obtain ⟨hlines, hjoined⟩ := lines_written h.stripped h.joined h.tagLines hds
  obtain ⟨hlines', hjoined'⟩ := lines_written h'.stripped h'.joined h'.tagLines hds
  have hproper := d.isProper_passages hds
  have hproper' := d'.isProper_passages hds
  constructor
  · intro he
    have hlen : (d'.passages ds).length = (d.passages ds).length := by
      rw [passages, passages, List.length_append, List.length_append, List.length_map,
        List.length_map, hcount]
    rw [he, hlines] at hlines'
    have hat' := beginsWith_of_append_eq hproper hproper' hlen hat hlines'
    obtain ⟨htext, hrest⟩ := prose_eq_of_append_eq hat hat' (head?_flatMap_lines hproper)
      (head?_flatMap_lines hproper') hlines'
    have hps := passages_eq_of_lines_eq hproper hproper' hrest
    refine ⟨?_, ?_⟩
    · have hj := h.joined
      have hj' := h'.joined
      rw [IsJoined] at hj hj'
      rw [← hj', ← hj, htext]
    · rw [passages, passages] at hps
      exact (List.append_cancel_right hps).symm
  · rintro ⟨htext, htags⟩
    rw [IsJoined] at hjoined hjoined'
    rw [← hjoined', ← hjoined, hlines, hlines', passages, passages, htext, htags]

end Docstring

end RubyDoc

import Mathlib.Data.List.Basic
import RubyDoc.Proofs.Docstring.NormalForm

/-!
# Docstrings read back from what is written

A docstring in normal form is written as lines of prose and a passage for each
tag, and reading these lines gives the docstring back. Directives are not
written with a docstring, so one in normal form has none. For docstrings in
other forms it is said which lines are written, as far as those are joined.
-/

namespace RubyDoc

open RubyDoc.Text

/-! ### The lines of what is written -/

/-- Joined texts put together are read one after the other. -/
theorem lines_joinNonEmpty {parts : List String} (h : ∀ p ∈ parts, IsJoined p) :
    lines (joinNonEmpty parts) = parts.flatMap lines := by
  induction parts with
  | nil => rfl
  | cons p ps ih =>
    have hi := ih fun q hq => h q (List.mem_cons_of_mem _ hq)
    rw [joinNonEmpty] at hi ⊢
    rw [List.flatMap_cons, ← hi, List.filter_cons]
    by_cases hp : p = ""
    · subst hp
      rfl
    · rw [if_pos (by simpa using hp)]
      by_cases hr : ps.filter (· != "") = []
      · rw [hr, joinLines_singleton, joinLines_nil]
        exact (List.append_nil _).symm
      · rw [← List.singleton_append, joinLines_append (by simp) hr, joinLines_singleton,
          (h p (by simp)).lines_append hp]

/-- Joined texts put together are a joined text. -/
theorem joined_joinNonEmpty {parts : List String} (h : ∀ p ∈ parts, IsJoined p) :
    IsJoined (joinNonEmpty parts) := by
  have hempty : ∀ ps : List String, ps.flatMap lines = (ps.filter (· != "")).flatMap lines := by
    intro ps
    induction ps with
    | nil => rfl
    | cons p ps ih =>
      rw [List.flatMap_cons, List.filter_cons, ih]
      by_cases hp : p = ""
      · subst hp
        rfl
      · rw [if_pos (by simpa using hp), List.flatMap_cons]
  have hjoin : ((parts.filter (· != "")).map lines).map joinLines = parts.filter (· != "") := by
    have hid : ∀ p ∈ parts.filter (· != ""), (joinLines ∘ lines) p = p := fun p hp =>
      h p (List.mem_of_mem_filter hp)
    rw [List.map_map]
    exact (List.map_congr_left hid).trans (List.map_id _)
  have hne : ∀ ls ∈ (parts.filter (· != "")).map lines, ls ≠ [] := by
    intro ls hls he
    obtain ⟨p, hp, rfl⟩ := List.mem_map.mp hls
    have hj : IsJoined p := h p (List.mem_of_mem_filter hp)
    rw [IsJoined, he] at hj
    have := (List.mem_filter.mp hp).2
    rw [← hj] at this
    exact absurd this (by decide)
  rw [IsJoined, lines_joinNonEmpty h, hempty, List.flatMap_def, ← joinLines_flatten hne, hjoin,
    joinNonEmpty]

/-- The passages of tags are joined to a text that is read line by line. -/
theorem lines_join_print {tags : List Tag}
    (h : ∀ t ∈ tags, ∀ l ∈ t.passage.lines, SingleLine l) :
    lines (joinLines (tags.map Tag.print)) = (tags.map Tag.passage).flatMap Passage.lines ∧
      IsJoined (joinLines (tags.map Tag.print)) := by
  have hprint : tags.map Tag.print = (tags.map fun t => t.passage.lines).map joinLines := by
    rw [List.map_map]
    refine List.map_congr_left fun t _ => ?_
    rw [Tag.print, Tag.printLines_eq, Function.comp_apply]
  have hflat : (tags.map Tag.passage).flatMap Passage.lines =
      (tags.map fun t => t.passage.lines).flatten := by
    rw [List.flatMap_def, List.map_map, Function.comp_def]
  have hmem : ∀ l ∈ (tags.map fun t => t.passage.lines).flatten,
      ∃ t ∈ tags, l ∈ t.passage.lines := by
    intro l hl
    obtain ⟨ls, hls, hl⟩ := List.mem_flatten.mp hl
    obtain ⟨t, ht, rfl⟩ := List.mem_map.mp hls
    exact ⟨t, ht, hl⟩
  have hsingle : ∀ l ∈ (tags.map fun t => t.passage.lines).flatten, SingleLine l := by
    intro l hl
    obtain ⟨t, ht, hl⟩ := hmem l hl
    exact h t ht l hl
  have hlast : (tags.map fun t => t.passage.lines).flatten.getLast? ≠ some "" := by
    intro he
    obtain ⟨t, -, hl⟩ := hmem "" (List.mem_of_getLast? he)
    exact t.ne_empty_of_mem_passage "" hl rfl
  have hne : ∀ b ∈ tags.map fun t => t.passage.lines, b ≠ [] := by
    intro b hb
    obtain ⟨t, -, rfl⟩ := List.mem_map.mp hb
    exact List.cons_ne_nil _ _
  rw [hprint, joinLines_flatten hne, hflat]
  exact ⟨lines_joinLines hsingle hlast, joined_joinLines hsingle hlast⟩

namespace Docstring

/-- A docstring with a joined text is written as its lines and those of its tags. -/
theorem lines_print {d : Docstring} (htext : IsJoined (strip d.text))
    (htags : ∀ t ∈ d.tags, ∀ l ∈ t.passage.lines, SingleLine l) :
    lines d.print = lines (strip d.text) ++ (d.tags.map Tag.passage).flatMap Passage.lines := by
  obtain ⟨hlines, hjoined⟩ := lines_join_print htags
  have hparts : ∀ p ∈ [strip d.text, joinLines (d.tags.map Tag.print)], IsJoined p := by
    intro p hp
    rcases List.mem_cons.mp hp with rfl | hp
    · exact htext
    · rw [List.mem_singleton.mp hp]
      exact hjoined
  rw [print, lines_joinNonEmpty hparts, List.flatMap_cons, List.flatMap_singleton, hlines]

/-- A docstring that loses nothing when it is written and read. -/
structure IsNormal (d : Docstring) : Prop where
  /-- Nothing is set apart. -/
  directives : d.directives = []
  /-- No blanks stand around the prose. -/
  stripped : strip d.text = d.text
  /-- Its lines are parted by newlines. -/
  joined : IsJoined d.text
  /-- No line of prose ends in blanks or looks like a tag. -/
  textLines : ∀ l ∈ lines d.text, stripEnd l = l ∧ beginsWith "@" l = false
  /-- The tags are in normal form. -/
  tags : ∀ t ∈ d.tags, t.IsNormal

instance (d : Docstring) : Decidable d.IsNormal :=
  decidable_of_iff
    (d.directives = [] ∧ strip d.text = d.text ∧ IsJoined d.text ∧
      (∀ l ∈ lines d.text, stripEnd l = l ∧ beginsWith "@" l = false) ∧ ∀ t ∈ d.tags, t.IsNormal)
    ⟨fun ⟨di, st, jo, tl, ta⟩ => ⟨di, st, jo, tl, ta⟩,
      fun ⟨di, st, jo, tl, ta⟩ => ⟨di, st, jo, tl, ta⟩⟩

/-- Reading what is written of a docstring in normal form gives it back. -/
theorem parse_print (d : Docstring) (h : d.IsNormal) : parse d.print = d := by
  have hlines := lines_print (d := d) (by rw [h.stripped]; exact h.joined)
    fun t ht => (h.tags t ht).singleLine_passage
  rw [h.stripped] at hlines
  have hproper : ∀ p ∈ d.tags.map Tag.passage, p.IsProper := by
    intro p hp
    obtain ⟨t, -, rfl⟩ := List.mem_map.mp hp
    exact t.passage_isProper
  have hleft : (d.tags.map Tag.passage).flatMap Passage.left = [] := by
    rw [List.flatMap_eq_nil_iff]
    intro p hp
    obtain ⟨t, ht, rfl⟩ := List.mem_map.mp hp
    exact (h.tags t ht).left_passage
  have htext : (lines d.text).map stripEnd = lines d.text :=
    (List.map_congr_left fun l hl => (h.textLines l hl).1).trans (List.map_id _)
  have htags : ((d.tags.map Tag.passage).map Passage.block).filterMap Block.tag? = d.tags := by
    rw [List.map_map, List.filterMap_map]
    have hsome : ∀ t ∈ d.tags, (Block.tag? ∘ Passage.block ∘ Tag.passage) t = some t := by
      intro t ht
      have hr := Tag.tag?_block_passage (t := t) (.inr (h.tags t ht).tagName)
      rwa [(h.tags t ht).reread] at hr
    rw [List.filterMap_congr hsome, List.filterMap_some]
  have hdirectives :
      ((d.tags.map Tag.passage).map Passage.block).filterMap Block.directiveText? = [] := by
    rw [List.map_map, List.filterMap_map, List.filterMap_eq_nil_iff]
    exact fun t ht =>
      Tag.directiveText?_block_passage (Tag.beginsWith_bang_tagName (.inr (h.tags t ht).tagName))
  have hjoined := h.joined
  rw [parse_passages (fun l hl => (h.textLines l hl).2) hproper hlines, hleft, List.append_nil,
    htext, hjoined, h.stripped, htags, hdirectives, ← h.directives]

/-- Two paragraphs, and tags with all parts or with some. -/
def mixedTags : Docstring :=
  { text := "Reads the entries.\n\n  Indented prose stays as it is."
    tags := [
      { tagName := "param", types := some ["Hash{Symbol => Array<String, nil>}", "nil"]
        name := some "options", text := "what to read\nand how" },
      { tagName := "option", name := some "limit", text := "at most so many" },
      { tagName := "yieldparam" },
      { tagName := "raise", text := "if nothing is found" },
      { tagName := "return", types := some [] },
      { tagName := "see", text := "[Entries]" }] }

theorem parse_print_mixedTags : parse mixedTags.print = mixedTags :=
  parse_print mixedTags (by decide +kernel)

end Docstring

end RubyDoc

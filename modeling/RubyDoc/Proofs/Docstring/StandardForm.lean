import RubyDoc.Proofs.Docstring.Reread
import RubyDoc.Proofs.Docstring.SplitTypes

/-!
# Tags in standard form

A tag is in standard form if its first line, when it is read, falls into the
parts that it was written from: no part of the text stands where a name or a
type list is looked for, no list ends in an empty place, and no blank that the
line would lose stands at its end. These are exactly the tags that reading a
docstring yields and that are read back as they are.
-/

namespace RubyDoc

open RubyDoc.Text

/-- A name as it is read off a tag line: a word between spaces. Other blanks may stand in
it. -/
structure IsSpacedWord (name : String) : Prop where
  /-- The name is on one line. -/
  singleLine : SingleLine name
  /-- No space ends it early. -/
  spaceless : ∀ c ∈ name.toList, c ≠ ' '
  /-- It begins with a character that is no blank. -/
  start : ∃ c, name.toList.head? = some c ∧ isBlank c = false

namespace Tag

/-- A tag whose first line is read as it was written. -/
structure IsStandard (t : Tag) : Prop where
  /-- The tag name can be read. -/
  tagName : IsTagName t.tagName
  /-- No line of the text is blank or has blanks around it. -/
  text : t.HasPlainText
  /-- Types stand in tags of the typed sets alone. -/
  untyped : namedTypedTags.contains t.tagName = false → typedTags.contains t.tagName = false →
    t.types = none
  /-- Names stand in the tags that have them. -/
  unnamed : namedTypedTags.contains t.tagName = false → t.name = none
  /-- A type list has a type at its end. -/
  types : ∀ types ∈ t.types, (∀ ty ∈ types, TypeList.IsPlace ty) ∧ types.getLast? ≠ some ""
  /-- A name is a word, and ends in no blank where the line ends with it. -/
  named : ∀ name ∈ t.name, IsSpacedWord name ∧ (t.text = "" → strip name = name)
  /-- No text stands where a name is looked for. -/
  bare : namedTypedTags.contains t.tagName = true → t.name = none → t.text = ""
  /-- Where a type list is looked for in front, one stands if any is found. -/
  unlisted : (namedTypedTags.contains t.tagName || typedTags.contains t.tagName) = true →
    t.types = none → (TypeList.splitOff t.restText).1 = none
  /-- No type list is found behind a name. -/
  textUnlisted : namedTypedTags.contains t.tagName = true → t.types = none →
    ∀ name ∈ t.name, beginsWith "[" name = false → (TypeList.splitOff t.firstText).1 = none

end Tag

/-- Where no type list is found, the text stays whole. -/
theorem TypeList.splitOff_of_none {s : String} (h : (splitOff s).1 = none) :
    splitOff s = (none, s) := by
  unfold splitOff at h ⊢
  split at h
  · split at h
    · cases h
    · rfl
  · rfl

namespace Tag

/-- What stands behind the type list of a written tag. -/
def afterTypes (t : Tag) : String := String.ofList (trim (t.namePart ++ t.textPart))

/-- Without a type list that is all that stands behind the tag name. -/
theorem restText_eq_afterTypes {t : Tag} (hty : t.types = none) : t.restText = t.afterTypes := by
  rw [restText, typesPart, hty, List.nil_append, afterTypes]

/-- Without a name only text stands there. -/
theorem afterTypes_of_no_name {t : Tag} (hna : t.name = none) :
    t.afterTypes = strip t.firstText := by
  rw [afterTypes, namePart, hna, List.nil_append, trim_textPart]

/-- A line with a type list begins with its bracket. -/
theorem beginsWith_restText {t : Tag} {types : List String} (hty : t.types = some types) :
    beginsWith "[" t.restText = true := by
  rw [beginsWith, toList_restText_types hty]
  rfl

namespace HasPlainText

variable {t : Tag} (h : t.HasPlainText)

include h

/-- The text on the first line of a plain text. -/
theorem textPart_eq : t.textPart = if t.text = "" then [] else ' ' :: t.firstText.toList := by
  have hj := h.1
  rw [textPart, firstText, h.textLines_eq]
  cases hl : lines t.text with
  | nil =>
    rw [IsJoined, hl, joinLines_nil] at hj
    rw [if_pos hj.symm]
    rfl
  | cons l ls =>
    have hne : t.text ≠ "" := by
      intro he
      rw [he] at hl
      cases hl
    rw [if_neg hne]
    simp

/-- The first line of a plain text is empty only if the text is. -/
theorem firstText_eq_empty_iff : t.firstText = "" ↔ t.text = "" := by
  constructor
  · intro he
    rw [firstText, h.textLines_eq] at he
    cases hl : lines t.text with
    | nil =>
      have hj := h.1
      rw [IsJoined, hl] at hj
      exact hj.symm
    | cons l ls =>
      rw [hl] at he
      exact absurd he (h.2 l (by rw [hl]; exact List.mem_cons_self)).1
  · intro he
    rw [firstText, h.textLines_eq, he]
    rfl

/-- The first line of a plain text ends in no blank. -/
theorem getLast?_firstText : ∀ c ∈ t.firstText.toList.getLast?, isBlank c = false := by
  have hl := getLast?_trim t.firstText.toList
  rwa [← toList_strip, h.strip_firstText] at hl

/-- A name and the text behind it are not trimmed. -/
theorem trim_name_textPart {name : String} (hn : IsSpacedWord name)
    (hend : t.text = "" → strip name = name) :
    trim (name.toList ++ t.textPart) = name.toList ++ t.textPart := by
  obtain ⟨c, hc, hblank⟩ := hn.start
  refine trim_eq_self ?_ ?_
  · rw [List.head?_append, hc, Option.some_or]
    rintro d ⟨⟩
    exact hblank
  · rw [h.textPart_eq]
    by_cases htext : t.text = ""
    · have hl := getLast?_trim name.toList
      rw [← toList_strip, hend htext] at hl
      rw [if_pos htext, List.append_nil]
      exact hl
    · have hne : t.firstText.toList ≠ [] := by
        intro he
        exact htext (h.firstText_eq_empty_iff.mp (String.toList_eq_nil_iff.mp he))
      rw [if_neg htext, List.append_cons, List.getLast?_append_of_ne_nil _ hne]
      exact h.getLast?_firstText

/-- A name and the text behind it are told apart. -/
theorem cutAtSpace_name {name : String} (hn : IsSpacedWord name) :
    ∃ after, cutAtSpace (String.ofList (name.toList ++ t.textPart)) = (name, after) ∧
      strip after = t.firstText := by
  have hcut := cutAtSpace_word hn.spaceless t.head?_textPart
  rw [String.ofList_toList] at hcut
  refine ⟨_, hcut, ?_⟩
  rw [h.textPart_eq, strip, String.toList_ofList]
  by_cases htext : t.text = ""
  · rw [if_pos htext, h.firstText_eq_empty_iff.mpr htext]
    rfl
  · rw [if_neg htext, List.drop_one, List.tail_cons, ← strip, h.strip_firstText]

/-- A name stands before the text of the first line, and is told apart from it. -/
theorem cut_name {name : String} (hna : t.name = some name) (hword : IsSpacedWord name)
    (hend : t.text = "" → strip name = name) :
    t.afterTypes ≠ "" ∧ beginsWith "[" t.afterTypes = beginsWith "[" name ∧
      (cutAtSpace t.afterTypes).1 = name ∧
      strip (cutAtSpace t.afterTypes).2 = t.firstText := by
  obtain ⟨after, hcut, hafter⟩ := h.cutAtSpace_name hword
  obtain ⟨c, hc, -⟩ := hword.start
  obtain ⟨cs, hcs⟩ := List.head?_eq_some_iff.mp hc
  have hne : name ≠ "" := by
    rintro rfl
    cases hc
  have hrest : t.afterTypes = String.ofList (name.toList ++ t.textPart) := by
    rw [afterTypes, namePart_of_name hna hne, List.cons_append, trim_space_cons,
      h.trim_name_textPart hword hend]
  rw [hrest, hcut]
  refine ⟨?_, ?_, rfl, hafter⟩
  · rw [hcs]
    simp
  · rw [beginsWith_mark rfl, beginsWith_mark rfl, String.toList_ofList, hcs]
    rfl

end HasPlainText

/-- The word in front of a trimmed text is a name. -/
theorem isSpacedWord_cutAtSpace {s : String} (hs : SingleLine s) (hstrip : strip s = s)
    (hne : s ≠ "") : IsSpacedWord (cutAtSpace s).1 := by
  have hlist : s.toList ≠ [] := fun he => hne (String.toList_eq_nil_iff.mp he)
  obtain ⟨c, cs, hcs⟩ := List.exists_cons_of_ne_nil hlist
  have hblank : isBlank c = false := by
    have hhead := head?_trim s.toList
    rw [← toList_strip, hstrip, hcs] at hhead
    exact hhead c rfl
  have hspace : (c != ' ') = true := by
    rw [bne_iff_ne]
    rintro rfl
    rw [isBlank_space] at hblank
    cases hblank
  refine ⟨hs.cutAtSpace.1, fun d hd => ?_, c, ?_, hblank⟩
  · rw [cutAtSpace, String.toList_ofList] at hd
    simpa using List.mem_takeWhile_imp hd
  · rw [cutAtSpace, String.toList_ofList, hcs, List.takeWhile_cons, if_pos hspace, List.head?_cons]

/-- The ways to read the line of a tag that has types, a name and a text: nothing but types,
a name behind types or behind nothing, or a name with types behind it. -/
theorem readNamed_cases (rest : String) :
    (∃ types, TypeList.splitOff rest = (types, "") ∧ readNamed rest = (types, none, "")) ∨
    (∃ types after, TypeList.splitOff rest = (types, after) ∧ after ≠ "" ∧
      beginsWith "[" rest = true ∧
      readNamed rest = (types, some (cutAtSpace after).1, strip (cutAtSpace after).2)) ∨
    (beginsWith "[" rest = false ∧ rest ≠ "" ∧
      readNamed rest = ((TypeList.splitOff (strip (cutAtSpace rest).2)).1,
        some (cutAtSpace rest).1, (TypeList.splitOff (strip (cutAtSpace rest).2)).2)) := by
  rw [readNamed]
  split
  · next h =>
    rw [Bool.and_eq_true, bne_iff_ne, Bool.not_eq_true'] at h
    refine .inr (.inr ⟨h.2, h.1, ?_⟩)
    cases cutAtSpace rest with
    | mk word after => dsimp only
  · next h =>
    cases hs : TypeList.splitOff rest with
    | mk types after =>
      dsimp only
      split
      · next he =>
        rw [beq_iff_eq] at he
        exact .inl ⟨types, by rw [he], by rw [he]⟩
      · next hne =>
        rw [beq_iff_eq] at hne
        have hbr : beginsWith "[" rest = true := by
          rw [Bool.and_eq_true, bne_iff_ne, Bool.not_eq_true'] at h
          by_cases he : rest = ""
          · rw [he] at hs
            exact absurd (congrArg Prod.snd hs).symm hne
          · exact Bool.not_eq_false _ ▸ fun hb => h ⟨he, hb⟩
        refine .inr (.inl ⟨types, after, rfl, hne, hbr, ?_⟩)
        cases cutAtSpace after
        rfl

namespace IsStandard

variable {t : Tag} (h : t.IsStandard)

include h

/-- The type list of a tag in standard form is split off, if it may have one. -/
theorem splitOff_restText_eq
    (hlisted : (namedTypedTags.contains t.tagName || typedTags.contains t.tagName) = true) :
    TypeList.splitOff t.restText = (t.types, t.afterTypes) := by
  cases hty : t.types with
  | none =>
    rw [TypeList.splitOff_of_none (h.unlisted hlisted hty), restText_eq_afterTypes hty]
  | some types =>
    obtain ⟨hplaces, hlast⟩ := h.types types hty
    rw [splitOff_restText hty fun ty hm => (hplaces ty hm).fits.2.1,
      (TypeList.split_intercalate_iff hplaces).mpr hlast, afterTypes]

/-- A tag in standard form that could have a name has one if anything stands there. -/
theorem name_of_afterTypes (hn : namedTypedTags.contains t.tagName = true)
    (hne : t.afterTypes ≠ "") : ∃ name, t.name = some name := by
  cases hna : t.name with
  | some name => exact ⟨name, rfl⟩
  | none =>
    have htext := h.text.firstText_eq_empty_iff.mpr (h.bare hn hna)
    rw [afterTypes_of_no_name hna, htext] at hne
    exact absurd rfl hne

/-- The parts of a tag in standard form are told apart. -/
theorem readParts_eq :
    readParts t.tagName t.restText = (t.types, t.name, t.firstText) := by
  have hfirst := h.text.strip_firstText
  cases hn : namedTypedTags.contains t.tagName with
  | false =>
    have hna := h.unnamed hn
    cases hs : typedTags.contains t.tagName with
    | false =>
      have hty := h.untyped hn hs
      rw [readParts_untyped hn hs hty hna, hfirst, hty, hna]
    | true =>
      rw [readParts, if_neg (Bool.eq_false_iff.mp hn), if_pos hs, hna,
        h.splitOff_restText_eq (by rw [hs, Bool.or_true]), afterTypes_of_no_name hna, hfirst]
  | true =>
    have hsame := h.splitOff_restText_eq (by rw [hn, Bool.true_or])
    rw [readParts, if_pos hn]
    rcases readNamed_cases t.restText with ⟨types, hsplit, hread⟩ |
      ⟨types, after, hsplit, hne, -, hread⟩ | ⟨hbr, hne, hread⟩
    · rw [hsame, Prod.mk.injEq] at hsplit
      have hna : t.name = none := by
        cases hna : t.name with
        | none => rfl
        | some name =>
          obtain ⟨hword, hend⟩ := h.named name hna
          exact absurd hsplit.2 (h.text.cut_name hna hword hend).1
      have hempty := afterTypes_of_no_name hna
      rw [hsplit.2, hfirst] at hempty
      rw [hread, hsplit.1, hna, hempty]
    · rw [hsame, Prod.mk.injEq] at hsplit
      rw [← hsplit.2] at hne hread
      obtain ⟨name, hna⟩ := h.name_of_afterTypes hn hne
      obtain ⟨hword, hend⟩ := h.named name hna
      obtain ⟨-, -, hcut, htext⟩ := h.text.cut_name hna hword hend
      rw [hread, hsplit.1, hcut, htext, hna]
    · have hty : t.types = none := by
        cases hty : t.types with
        | none => rfl
        | some types =>
          rw [beginsWith_restText hty] at hbr
          cases hbr
      rw [restText_eq_afterTypes hty] at hbr hne hread ⊢
      obtain ⟨name, hna⟩ := h.name_of_afterTypes hn hne
      obtain ⟨hword, hend⟩ := h.named name hna
      obtain ⟨-, hmark, hcut, htext⟩ := h.text.cut_name hna hword hend
      have hunlisted := h.textUnlisted hn hty name hna (hmark.symm.trans hbr)
      rw [hread, hcut, htext, TypeList.splitOff_of_none hunlisted, hty, hna]

/-- A tag in standard form is read back as it is. -/
theorem reread : t.reread = t := by
  have hparts := h.readParts_eq
  rw [← h.text.strip_firstText] at hparts
  rw [reread_eq h.tagName hparts, h.text.readText_eq]

/-- A tag in standard form is as reading makes tags. -/
theorem isRead : t.IsRead where
  tagName := .inr h.tagName
  types types hty ty hm := by
    rcases (h.types types hty).1 ty hm with rfl | hitem
    · decide
    · exact hitem.singleLine
  name name hna := (h.named name hna).1.singleLine
  stripped := h.text.strip_text
  joined := h.text.1
  notBlank := h.text.textLines_eq ▸ h.text.notBlank
  textLines _ := h.text.2

end IsStandard

/-! ### Tags that are read back as they are -/

/-- A tag that could not be read is read back with one more at sign. -/
theorem reread_ne_of_empty {t : Tag} (hr : t.IsRead) (he : t.tagName = "") : t.reread ≠ t := by
  intro h
  have htext := congrArg (fun u : Tag => (u.text.toList.filter fun c => !isBlank c).length) h
  have hlines : t.textLines = lines t.text := by rw [textLines, hr.stripped]
  have hnot : ∀ l ∈ t.textLines, isBlankText l = false := hlines ▸ hr.notBlank
  have hmore : t.passage.continued = (t.textLines.drop 1).map fun l => stripEnd ("  " ++ l) := by
    rw [Passage.continued, List.takeWhile_eq_self_iff.mpr (isContinuation_more hnot), more_passage,
      List.map_map]
    rfl
  have hkeep : ∀ l : String, (stripEnd l).toList.filter (fun c => !isBlank c) =
      l.toList.filter fun c => !isBlank c := fun l => by rw [toList_stripEnd, filter_trimEnd]
  have hindent : ∀ l : String, (stripEnd ("  " ++ l)).toList.filter (fun c => !isBlank c) =
      l.toList.filter fun c => !isBlank c := fun l => by
    rw [hkeep, String.toList_append]
    rfl
  have hread : (t.reread.text.toList.filter fun c => !isBlank c).length =
      ((t.passage.head.toList.filter fun c => !isBlank c) ++
        (t.textLines.drop 1).flatMap fun l => l.toList.filter fun c => !isBlank c).length := by
    rw [reread, ofBlock, splitHead?_passage_of_empty he]
    dsimp only
    rw [filter_joinLines, List.flatMap_cons, hkeep, hmore, List.flatMap_map,
      List.flatMap_congr fun l _ => hindent l]
  have hwritten : (t.text.toList.filter fun c => !isBlank c).length =
      ((t.textPart.filter fun c => !isBlank c) ++
        (t.textLines.drop 1).flatMap fun l => l.toList.filter fun c => !isBlank c).length := by
    have hjoin : joinLines t.textLines = t.text := by rw [hlines, hr.joined]
    rw [← hjoin, filter_joinLines, textPart]
    cases t.textLines with
    | nil => rfl
    | cons l ls => simp [isBlank_space]
  have hat : isBlank '@' = false := by decide
  rw [hread, hwritten, toList_head, List.filter_cons_of_pos (by simp [hat])] at htext
  simp only [List.filter_append, List.length_append, List.length_cons] at htext
  omega

section Kept

variable {t : Tag} (hr : t.IsRead) (h : t.reread = t)

include hr h

theorem isTagName_of_reread : IsTagName t.tagName :=
  hr.tagName.resolve_left fun he => reread_ne_of_empty hr he h

/-- The parts of a tag that is read back as it is are those of its line. -/
theorem parts_of_reread : (readParts t.tagName t.restText).1 = t.types ∧
    (readParts t.tagName t.restText).2.1 = t.name := by
  have hread := ofBlock_eq (splitHead?_passage (isTagName_of_reread hr h)) t.passage.continued
  rw [← reread, h] at hread
  exact ⟨(congrArg Tag.types hread).symm, (congrArg Tag.name hread).symm⟩

/-- The rest of its line is a single line without blanks around it. -/
theorem restText_sound : SingleLine t.restText ∧ strip t.restText = t.restText := by
  have hhead : SingleLine (stripEnd t.passage.head) :=
    (hr.singleLine_passage t.passage.head (by simp [Passage.lines])).stripEnd
  exact (splitHead?_sound hhead (splitHead?_passage (isTagName_of_reread hr h))).2

theorem hasPlainText_of_reread : t.HasPlainText := by
  refine ⟨hr.joined, hr.textLines fun he => ?_⟩
  exact reread_ne_of_empty hr he h

/-- The type list of a tag that is read back as it is, is the one split off its line. -/
theorem splitOff_of_reread
    (hlisted : (namedTypedTags.contains t.tagName || typedTags.contains t.tagName) = true) :
    (TypeList.splitOff t.restText).1 = t.types := by
  have hparts := (parts_of_reread hr h).1
  rw [readParts] at hparts
  cases hn : namedTypedTags.contains t.tagName with
  | false =>
    rw [hn, Bool.false_or] at hlisted
    rwa [if_neg (Bool.eq_false_iff.mp hn), if_pos hlisted] at hparts
  | true =>
    rw [if_pos hn] at hparts
    rcases readNamed_cases t.restText with ⟨types, hsplit, hread⟩ |
      ⟨types, after, hsplit, -, -, hread⟩ | ⟨hbr, -, -⟩
    · rw [hsplit, ← hparts, hread]
    · rw [hsplit, ← hparts, hread]
    · cases hty : t.types with
      | none => rw [TypeList.splitOff_of_no_bracket hbr]
      | some types =>
        rw [beginsWith_restText hty] at hbr
        cases hbr

/-- What is split off the line is what was written there. -/
theorem splitOff_eq_of_reread
    (hlisted : (namedTypedTags.contains t.tagName || typedTags.contains t.tagName) = true) :
    TypeList.splitOff t.restText = (t.types, t.afterTypes) ∧
      ∀ types ∈ t.types,
        (∀ ty ∈ types, TypeList.IsPlace ty) ∧ types.getLast? ≠ some "" := by
  have hfirst := splitOff_of_reread hr h hlisted
  cases hty : t.types with
  | none =>
    rw [hty] at hfirst
    rw [TypeList.splitOff_of_none hfirst, restText_eq_afterTypes hty]
    exact ⟨rfl, by simp⟩
  | some types =>
    rw [hty] at hfirst
    obtain ⟨hline, hstrip⟩ := restText_sound hr h
    have hplaces := TypeList.isPlace_of_splitOff hline hstrip (Prod.ext hfirst rfl)
    have hsplit := splitOff_restText hty fun ty hm => (hplaces ty hm).fits.2.1
    have hsame := congrArg Prod.fst hsplit
    rw [hfirst, Option.some.injEq] at hsame
    refine ⟨by rw [hsplit, ← hsame, afterTypes], ?_⟩
    rintro _ ⟨⟩
    exact ⟨hplaces, (TypeList.split_intercalate_iff hplaces).mp hsame.symm⟩

/-- The name of a tag that is read back as it is, is the first word behind the types; without
a name nothing stands there. -/
theorem cutAtSpace_of_reread (hn : namedTypedTags.contains t.tagName = true) :
    (t.name = none → t.afterTypes = "") ∧
    ∀ name ∈ t.name, t.afterTypes ≠ "" ∧ (cutAtSpace t.afterTypes).1 = name ∧
      (beginsWith "[" t.afterTypes = false → t.types = none →
        (TypeList.splitOff (strip (cutAtSpace t.afterTypes).2)).1 = none) := by
  have hparts := parts_of_reread hr h
  have hsame := (splitOff_eq_of_reread hr h (by rw [hn, Bool.true_or])).1
  rw [readParts, if_pos hn] at hparts
  rcases readNamed_cases t.restText with ⟨types, hsplit, hread⟩ |
    ⟨types, after, hsplit, hne, hbr, hread⟩ | ⟨hbr, hne, hread⟩
  · rw [hsame, Prod.mk.injEq] at hsplit
    rw [hread] at hparts
    refine ⟨fun _ => hsplit.2, fun name hna => ?_⟩
    rw [← hparts.2] at hna
    cases hna
  · rw [hsame, Prod.mk.injEq] at hsplit
    rw [hread, ← hsplit.2] at hparts
    rw [← hsplit.2] at hne
    refine ⟨fun hna => ?_, fun name hna => ⟨hne, ?_, fun hno hty => ?_⟩⟩
    · rw [← hparts.2] at hna
      cases hna
    · rw [← hparts.2, Option.mem_some_iff] at hna
      exact hna
    · rw [restText_eq_afterTypes hty, hno] at hbr
      cases hbr
  · have hty : t.types = none := by
      cases hty : t.types with
      | none => rfl
      | some types =>
        rw [beginsWith_restText hty] at hbr
        cases hbr
    rw [hread, restText_eq_afterTypes hty] at hparts
    rw [restText_eq_afterTypes hty] at hne
    refine ⟨fun hna => ?_, fun name hna => ⟨hne, ?_, fun _ _ => ?_⟩⟩
    · rw [← hparts.2] at hna
      cases hna
    · rw [← hparts.2, Option.mem_some_iff] at hna
      exact hna
    · rw [hparts.1, hty]

/-- The name that is read back is a word, and ends in no blank where the line ends. -/
theorem isSpacedWord_of_reread (hn : namedTypedTags.contains t.tagName = true) {name : String}
    (hna : t.name = some name) : IsSpacedWord name ∧ (t.text = "" → strip name = name) := by
  obtain ⟨hne, hcut, -⟩ := (cutAtSpace_of_reread hr h hn).2 name hna
  obtain ⟨hline, hstrip⟩ := restText_sound hr h
  have hafter := (TypeList.splitOff_singleLine hline hstrip).2
  rw [(splitOff_eq_of_reread hr h (by rw [hn, Bool.true_or])).1] at hafter
  have hword : IsSpacedWord name := hcut ▸ isSpacedWord_cutAtSpace hafter.1 hafter.2 hne
  refine ⟨hword, fun htext => ?_⟩
  have hnonempty : name ≠ "" := by
    rintro rfl
    obtain ⟨c, hc, -⟩ := hword.start
    cases hc
  have hplain := hasPlainText_of_reread hr h
  have hshort : t.afterTypes = strip name := by
    rw [afterTypes, namePart_of_name hna hnonempty, hplain.textPart_eq, if_pos htext,
      List.append_nil, trim_space_cons, strip]
  -- The name is cut off its trimmed self, so nothing of it is trimmed.
  have hsub : name.toList.Sublist (trim name.toList) := by
    have hlist := congrArg String.toList hcut
    rw [cutAtSpace, hshort, String.toList_ofList, toList_strip] at hlist
    have htake : ((trim name.toList).takeWhile (· != ' ')).Sublist (trim name.toList) :=
      List.takeWhile_sublist _
    rwa [hlist] at htake
  have hback : (trim name.toList).Sublist name.toList :=
    (trimEnd_isPrefix _).sublist.trans (List.dropWhile_sublist _)
  rw [strip, hback.antisymm hsub, String.ofList_toList]

/-- A tag that was read and is read back as it is, is in standard form. -/
theorem isStandard_of_reread : t.IsStandard := by
  have hparts := parts_of_reread hr h
  have hplain := hasPlainText_of_reread hr h
  have hunnamed (hn : namedTypedTags.contains t.tagName = false) : t.name = none := by
    rw [← hparts.2, readParts, if_neg (Bool.eq_false_iff.mp hn)]
    split <;> rfl
  have huntyped (hn : namedTypedTags.contains t.tagName = false)
      (hs : typedTags.contains t.tagName = false) : t.types = none := by
    rw [← hparts.1, readParts, if_neg (Bool.eq_false_iff.mp hn), if_neg (Bool.eq_false_iff.mp hs)]
  refine ⟨isTagName_of_reread hr h, hplain, huntyped, hunnamed, ?_, ?_, ?_, ?_, ?_⟩
  · intro types hty
    cases hlisted : namedTypedTags.contains t.tagName || typedTags.contains t.tagName with
    | true => exact (splitOff_eq_of_reread hr h hlisted).2 types hty
    | false =>
      rw [Bool.or_eq_false_iff] at hlisted
      rw [huntyped hlisted.1 hlisted.2] at hty
      cases hty
  · intro name hna
    cases hn : namedTypedTags.contains t.tagName with
    | true => exact isSpacedWord_of_reread hr h hn hna
    | false =>
      rw [hunnamed hn] at hna
      cases hna
  · intro hn hna
    have hempty := (cutAtSpace_of_reread hr h hn).1 hna
    rw [afterTypes_of_no_name hna, hplain.strip_firstText, hplain.firstText_eq_empty_iff] at hempty
    exact hempty
  · intro hlisted hty
    rw [splitOff_of_reread hr h hlisted, hty]
  · intro hn hty name hna hbr
    obtain ⟨hword, hend⟩ := isSpacedWord_of_reread hr h hn hna
    obtain ⟨-, hmark, -, htext⟩ := hplain.cut_name hna hword hend
    rw [← htext]
    exact ((cutAtSpace_of_reread hr h hn).2 name hna).2.2 (hmark.trans hbr) hty

end Kept

/-- The standard form is that of the tags that are read back as they are. -/
theorem isStandard_iff {t : Tag} (hr : t.IsRead) : t.IsStandard ↔ t.reread = t :=
  ⟨IsStandard.reread, isStandard_of_reread hr⟩

end Tag

end RubyDoc

import RubyDoc.Proofs.Docstring.TagLine

/-!
# Tags in normal form

A tag is in normal form if it says nothing that its written form would lose:
its text has no blank lines and no blanks around its lines, its parts can be
told apart, and it has only the parts that its tag name allows. Such a tag is
read back from its passage as it is, and leaves nothing to the prose. Tags in
other forms may be read back as well; that is not said here.
-/

namespace RubyDoc

open RubyDoc.Text

/-- A line of text as it stands below a tag: it holds something, and no blanks
stand around it. -/
def IsTextLine (l : String) : Prop := l ≠ "" ∧ strip l = l

instance (l : String) : Decidable (IsTextLine l) :=
  inferInstanceAs (Decidable (l ≠ "" ∧ strip l = l))

/-- A name as it stands on a tag line. -/
def IsWrittenName (name : String) : Prop := name ≠ "" ∧ ∀ c ∈ name.toList, isBlank c = false

instance (name : String) : Decidable (IsWrittenName name) :=
  @instDecidableAnd _ _ _ (List.decidableBAll (fun c => isBlank c = false) name.toList)

namespace Tag

/-- A tag that loses nothing when it is written and read. -/
structure IsNormal (t : Tag) : Prop where
  /-- The tag name can be read. -/
  tagName : IsTagName t.tagName
  /-- The text has no line breaks but newlines between its lines. -/
  joined : IsJoined t.text
  /-- No line of the text is blank or has blanks around it. -/
  textLines : ∀ l ∈ lines t.text, IsTextLine l
  /-- Types stand in tags of the typed sets alone. -/
  untyped : namedTypedTags.contains t.tagName = false → typedTags.contains t.tagName = false →
    t.types = none
  /-- Names stand in the tags that have them. -/
  unnamed : namedTypedTags.contains t.tagName = false → t.name = none
  /-- Every type can stand in a list. -/
  items : ∀ types ∈ t.types, ∀ ty ∈ types, TypeList.IsItem ty
  /-- A name can be told from what stands around it. -/
  named : ∀ name ∈ t.name, IsWrittenName name
  /-- A name that no types stand before is not taken for a type list. -/
  nameBracket : t.types = none → ∀ name ∈ t.name, beginsWith "[" name = false
  /-- A text that no types stand before is not taken for a type list. -/
  textBracket : namedTypedTags.contains t.tagName || typedTags.contains t.tagName →
    t.types = none → beginsWith "[" t.text = false
  /-- A text that no name stands before is not taken for one. -/
  bare : namedTypedTags.contains t.tagName → t.name = none → t.text = ""

instance (t : Tag) : Decidable t.IsNormal :=
  decidable_of_iff
    (IsTagName t.tagName ∧ IsJoined t.text ∧ (∀ l ∈ lines t.text, IsTextLine l) ∧
      (namedTypedTags.contains t.tagName = false → typedTags.contains t.tagName = false →
        t.types = none) ∧
      (namedTypedTags.contains t.tagName = false → t.name = none) ∧
      (∀ types ∈ t.types, ∀ ty ∈ types, TypeList.IsItem ty) ∧
      (∀ name ∈ t.name, IsWrittenName name) ∧
      (t.types = none → ∀ name ∈ t.name, beginsWith "[" name = false) ∧
      (namedTypedTags.contains t.tagName || typedTags.contains t.tagName → t.types = none →
        beginsWith "[" t.text = false) ∧
      (namedTypedTags.contains t.tagName → t.name = none → t.text = ""))
    ⟨fun ⟨h1, h2, h3, h4, h5, h6, h7, h8, h9, h10⟩ => ⟨h1, h2, h3, h4, h5, h6, h7, h8, h9, h10⟩,
      fun ⟨h1, h2, h3, h4, h5, h6, h7, h8, h9, h10⟩ => ⟨h1, h2, h3, h4, h5, h6, h7, h8, h9, h10⟩⟩

end Tag

/-! ### Text of one or more lines -/

/-- The first line of joined lines begins the text. -/
theorem head?_joinLines {l : String} (h : l ≠ "") (ls : List String) :
    (joinLines (l :: ls)).toList.head? = l.toList.head? := by
  have hl : l.toList ≠ [] := fun he => h (String.toList_eq_nil_iff.mp he)
  obtain ⟨c, cs, hc⟩ := List.exists_cons_of_ne_nil hl
  cases ls with
  | nil => rw [joinLines_singleton]
  | cons m ms =>
    rw [toList_joinLines_cons _ (by simp), hc]
    rfl

/-- The last line of joined lines ends the text. -/
theorem getLast?_joinLines {l : String} (h : l ≠ "") (ls : List String) :
    (joinLines (ls ++ [l])).toList.getLast? = l.toList.getLast? := by
  have hl : l.toList ≠ [] := fun he => h (String.toList_eq_nil_iff.mp he)
  cases ls with
  | nil => rw [List.nil_append, joinLines_singleton]
  | cons m ms =>
    rw [joinLines_append (by simp) (by simp), joinLines_singleton, String.toList_append,
      List.getLast?_append, List.getLast?_eq_some_getLast hl, Option.some_or]

/-- Joined lines have no blanks around them if the first begins with none and the
last ends in none. -/
theorem strip_joinLines_of_ends {ls : List String} (hne : ∀ l ∈ ls, l ≠ "")
    (hh : ∀ l ∈ ls.head?, ∀ c ∈ l.toList.head?, isBlank c = false)
    (hl : ∀ l ∈ ls.getLast?, ∀ c ∈ l.toList.getLast?, isBlank c = false) :
    strip (joinLines ls) = joinLines ls := by
  have hhead : ∀ c ∈ (joinLines ls).toList.head?, isBlank c = false := by
    cases ls with
    | nil => simp
    | cons l ls =>
      rw [head?_joinLines (hne l (by simp))]
      exact hh l rfl
  have hlast : ∀ c ∈ (joinLines ls).toList.getLast?, isBlank c = false := by
    rcases List.eq_nil_or_concat ls with rfl | ⟨init, l, rfl⟩
    · simp
    · rw [List.concat_eq_append] at hne hl ⊢
      rw [getLast?_joinLines (hne l (by simp))]
      exact hl l (by simp)
  rw [strip, trim_eq_self hhead hlast, String.ofList_toList]

/-- Lines of text joined by newlines have no blanks around them. -/
theorem strip_joinLines {ls : List String} (h : ∀ l ∈ ls, IsTextLine l) :
    strip (joinLines ls) = joinLines ls := by
  have htrim : ∀ l ∈ ls, trim l.toList = l.toList := by
    intro l hl
    rw [← toList_strip, (h l hl).2]
  refine strip_joinLines_of_ends (fun l hl => (h l hl).1) (fun l hl => ?_) fun l hl => ?_
  · rw [← htrim l (List.mem_of_mem_head? hl)]
    exact head?_trim _
  · rw [← htrim l (List.mem_of_getLast? hl)]
    exact getLast?_trim _

/-- An indented line continues the block above it if it is not blank. -/
theorem isContinuation_indented (l : String) :
    isContinuation ("  " ++ l) = !isBlankText l := by
  have hl : ("  " ++ l).toList = ' ' :: ' ' :: l.toList := by
    rw [String.toList_append]
    rfl
  rw [isContinuation, hl]
  dsimp only
  rw [isBlankText, hl, List.all_cons, List.all_cons, isBlank_space, isBlankText]
  rfl

/-- The indentation of a line is trimmed away with all other blanks around it. -/
theorem strip_stripEnd_indented (l : String) : strip (stripEnd ("  " ++ l)) = strip l := by
  have hl : ("  " ++ l).toList = ' ' :: ' ' :: l.toList := by
    rw [String.toList_append]
    rfl
  rw [strip_stripEnd, strip, hl, trim_space_cons, trim_space_cons, ← strip]

namespace Tag

/-! ### Reading text without blank lines -/

section NotBlank

variable {t : Tag} (h : ∀ l ∈ t.textLines, isBlankText l = false)

include h

/-- Every line below a text without blank lines continues it. -/
theorem isContinuation_more : ∀ l ∈ t.passage.more, isContinuation l = true := by
  intro l hl
  rw [more_passage] at hl
  obtain ⟨k, hk, rfl⟩ := List.mem_map.mp hl
  rw [isContinuation_indented, h k (List.mem_of_mem_drop hk)]
  rfl

/-- A text without blank lines leaves nothing to the prose. -/
theorem left_eq_nil : t.passage.left = [] := by
  rw [Passage.left, List.dropWhile_eq_nil_iff.mpr (isContinuation_more h), List.map_nil]

/-- A text without blank lines is read back with its lines trimmed. -/
theorem readText_eq : t.readText = joinLines (t.textLines.map strip) := by
  have hmore : t.passage.continued.map strip = (t.textLines.drop 1).map strip := by
    rw [Passage.continued, List.takeWhile_eq_self_iff.mpr (isContinuation_more h), more_passage,
      List.map_map, List.map_map]
    exact List.map_congr_left fun l _ => strip_stripEnd_indented l
  have hkeep : ∀ l ∈ t.textLines.map strip, (l != "") = true := by
    intro l hl
    obtain ⟨k, hk, rfl⟩ := List.mem_map.mp hl
    have hb := isBlankText_strip k
    rw [h k hk] at hb
    rw [bne_iff_ne]
    intro he
    rw [he] at hb
    cases hb
  rw [readText, hmore, firstText]
  cases hl : t.textLines with
  | nil => rfl
  | cons l ls =>
    rw [hl] at hkeep
    rw [List.head?_cons, Option.getD_some, List.drop_succ_cons, List.drop_zero, ← List.map_cons,
      List.filter_eq_self.mpr hkeep]

end NotBlank

/-- A text of lines without blanks around them. -/
def HasPlainText (t : Tag) : Prop := IsJoined t.text ∧ ∀ l ∈ lines t.text, IsTextLine l

namespace HasPlainText

variable {t : Tag}

/-- A plain text is written as it is. -/
theorem strip_text (h : t.HasPlainText) : strip t.text = t.text := by
  have hs := strip_joinLines h.2
  rwa [h.1] at hs

/-- The written lines of a plain text are its lines. -/
theorem textLines_eq (h : t.HasPlainText) : t.textLines = lines t.text := by
  rw [Tag.textLines, h.strip_text]

/-- A plain text has no blank lines. -/
theorem notBlank (h : t.HasPlainText) : ∀ l ∈ t.textLines, isBlankText l = false := by
  rw [h.textLines_eq]
  exact fun l hl => isBlankText_of_strip (h.2 l hl).2 (h.2 l hl).1

/-- The first written line is stripped. -/
theorem strip_firstText (h : t.HasPlainText) : strip t.firstText = t.firstText := by
  rw [firstText, h.textLines_eq]
  cases hl : lines t.text with
  | nil => rfl
  | cons l ls => exact (h.2 l (by simp [hl])).2

/-- A plain text is read back. -/
theorem readText_eq (h : t.HasPlainText) : t.readText = t.text := by
  have hid : (lines t.text).map strip = lines t.text :=
    (List.map_congr_left fun l hl => (h.2 l hl).2).trans (List.map_id _)
  rw [Tag.readText_eq h.notBlank, h.textLines_eq, hid, h.1]

/-- What the first line of a plain text begins with, the text begins with. -/
theorem beginsWith_firstText (h : t.HasPlainText) :
    beginsWith "[" (strip t.firstText) = beginsWith "[" t.text := by
  have hj := h.1
  rw [h.strip_firstText, firstText, h.textLines_eq]
  cases hl : lines t.text with
  | nil =>
    rw [IsJoined, hl] at hj
    rw [← hj]
    rfl
  | cons l ls =>
    rw [IsJoined, hl] at hj
    rw [← hj, beginsWith_mark rfl, beginsWith_mark rfl, List.head?_cons, Option.getD_some,
      head?_joinLines (h.2 l (by simp [hl])).1]

end HasPlainText

/-! ### Reading tags in normal form -/

namespace IsNormal

variable {t : Tag}

theorem plainText (h : t.IsNormal) : t.HasPlainText := ⟨h.joined, h.textLines⟩

/-- A tag in normal form leaves nothing to the prose. -/
theorem left_passage (h : t.IsNormal) : t.passage.left = [] := left_eq_nil h.plainText.notBlank

/-- The parts of a tag in normal form are told apart. -/
theorem readParts_eq (h : t.IsNormal) :
    readParts t.tagName t.restText = (t.types, t.name, strip t.firstText) := by
  have hbal : ∀ types ∈ t.types, ∀ ty ∈ types, TypeList.Balanced ty := fun types hm ty hty =>
    (h.items types hm ty hty).balanced
  have hsplit : ∀ types ∈ t.types, TypeList.split (String.intercalate ", " types) = types :=
    fun types hm => TypeList.split_listed (h.items types hm)
  have hempty : t.text = "" → strip t.firstText = "" := by
    intro htext
    rw [firstText, h.plainText.textLines_eq, htext]
    rfl
  cases hn : namedTypedTags.contains t.tagName with
  | false =>
    have hna := h.unnamed hn
    cases hs : typedTags.contains t.tagName with
    | false =>
      have hty := h.untyped hn hs
      rw [readParts_untyped hn hs hty hna, hty, hna]
    | true =>
      cases hty : t.types with
      | none =>
        have hbr := h.plainText.beginsWith_firstText.trans
          (h.textBracket (by simp only [hs, Bool.or_true]) hty)
        rw [readParts_no_types hn hs hty hna hbr, hna]
      | some types =>
        rw [readParts_types hn hs hty (hbal types hty) hna, hsplit types hty, hna]
  | true =>
    cases hna : t.name with
    | none =>
      have htext := h.bare hn hna
      cases hty : t.types with
      | none => rw [readParts_bare hn hty hna htext, hempty htext]
      | some types =>
        rw [readParts_types_bare hn hty (hbal types hty) hna htext, hsplit types hty, hempty htext]
    | some name =>
      have hname := h.named name hna
      cases hty : t.types with
      | none =>
        have hbr := h.plainText.beginsWith_firstText.trans
          (h.textBracket (by simp only [hn, Bool.true_or]) hty)
        rw [readParts_name hn hty hna hname.1 hname.2 (h.nameBracket hty name hna) hbr]
      | some types =>
        rw [readParts_types_name hn hty (hbal types hty) hna hname.1 hname.2, hsplit types hty]

/-- A tag in normal form is read back as it is. -/
theorem reread (h : t.IsNormal) : t.reread = t := by
  rw [reread_eq h.tagName h.readParts_eq, h.plainText.readText_eq]

/-- A tag in normal form is written as lines. -/
theorem singleLine_passage (h : t.IsNormal) : ∀ l ∈ t.passage.lines, SingleLine l := by
  refine Tag.singleLine_passage h.tagName.singleLine (fun types hm ty hty => ?_) fun name hm c hc => ?_
  · exact (h.items types hm ty hty).singleLine
  · exact isLineBreak_eq_false ((h.named name hm).2 c hc)

end IsNormal

end Tag

end RubyDoc

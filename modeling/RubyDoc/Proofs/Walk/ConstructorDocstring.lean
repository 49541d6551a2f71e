import RubyDoc.Proofs.Docstring.Reread
import RubyDoc.Walk.Constructor

/-!
# The docstring of a constructor, made twice

Making the docstring of a constructor reads its earlier docstring, so making it
again reads what was written the first time. This module says exactly when the
second docstring is the first: no comment of a field has a blank line inside,
hand-written tags that are kept are written the same once they are read back,
and a field without a comment finds the text that it had before. Field types
with unbalanced brackets are left out.
-/

namespace RubyDoc

open RubyDoc.Text

/-! ### The parts of the docstring -/

/-- The tags that a constructor made of fields keeps. -/
def keptTags (fields : List FieldRecord) (tags : List Tag) : List Tag :=
  (tags.filter fun t => !t.isAmong "param" (some (fields.map FieldRecord.name))).filter fun t =>
    !t.isAmong "return" none

/-- The tag that says what the constructor makes. -/
def returnTag (path : String) : Tag := { tagName := "return", types := some [path] }

/-- The docstring of a constructor made of fields, before its directives are put
back. -/
def constructorParts (path : String) (fields : List FieldRecord) (d : Docstring) : Docstring :=
  { text := d.text
    tags := keptTags fields d.tags ++
      (fields.map (fieldTag (d.tagsNamed "param")) ++ [returnTag path]) }

theorem tags_foldl_addTag (written : List Tag) (fields : List FieldRecord) (d : Docstring) :
    fields.foldl (fun d f => d.addTag (fieldTag written f)) d =
      { d with tags := d.tags ++ fields.map (fieldTag written) } := by
  induction fields generalizing d with
  | nil => rw [List.foldl_nil, List.map_nil, List.append_nil]
  | cons f fs ih =>
    rw [List.foldl_cons, ih, Docstring.addTag, List.map_cons, List.append_assoc,
      List.singleton_append]

/-- The docstring of a constructor, part by part. -/
theorem constructorDocstring_eq (path : String) (fields : List FieldRecord) (earlier : String) :
    constructorDocstring path fields earlier =
      addDirectives (constructorParts path fields (Docstring.parse earlier)).print
        (Docstring.parse earlier).directives := by
  have hfields : (fields.map (fieldTag ((Docstring.parse earlier).tagsNamed "param"))).filter
      (fun t => !t.isAmong "return" none) =
        fields.map (fieldTag ((Docstring.parse earlier).tagsNamed "param")) := by
    rw [List.filter_eq_self]
    intro t ht
    obtain ⟨f, -, rfl⟩ := List.mem_map.mp ht
    rfl
  rw [constructorDocstring, extractDirectives]
  dsimp only
  rw [tags_foldl_addTag, Docstring.removeTags, Docstring.addTag, constructorParts]
  dsimp only
  rw [List.filter_append]
  unfold Docstring.tagsNamed at hfields ⊢
  dsimp only
  rw [hfields, List.append_assoc]
  rfl

/-! ### Tags of fields -/

/-- A field whose tag can be read back as one of that field. -/
structure FieldRecord.IsRegular (f : FieldRecord) : Prop where
  /-- The name can stand on a tag line. -/
  name : IsWrittenName f.name
  /-- The types have no line breaks, and their brackets are balanced. -/
  types : ∀ t ∈ f.types, SingleLine t ∧ TypeList.Balanced t

/-- The comment of a field as it is read back from its tag. -/
def FieldRecord.commentText (f : FieldRecord) : String := joinLines ((lines (strip f.doc)).map strip)

theorem isTagName_param : Tag.IsTagName "param" := by decide

/-- The tag of a regular field is read back as one of that field. -/
theorem reread_fieldTag (written : List Tag) {f : FieldRecord} (h : f.IsRegular) :
    (fieldTag written f).reread =
      { tagName := "param"
        types := some (TypeList.split (String.intercalate ", " f.types))
        name := some f.name
        text := (fieldTag written f).readText } :=
  Tag.reread_eq isTagName_param
    (Tag.readParts_types_name (t := fieldTag written f) rfl rfl (fun t ht => (h.types t ht).2) rfl
      h.name.1 h.name.2)

/-- The tag of a regular field is written as lines. -/
theorem singleLine_fieldTag (written : List Tag) {f : FieldRecord} (h : f.IsRegular) :
    ∀ l ∈ (fieldTag written f).passage.lines, SingleLine l := by
  refine Tag.singleLine_passage isTagName_param.singleLine ?_ ?_
  · intro types hm t ht
    rw [fieldTag, Option.mem_some_iff] at hm
    rw [← hm] at ht
    exact (h.types t ht).1
  · intro name hm c hc
    rw [fieldTag, Option.mem_some_iff] at hm
    rw [← hm] at hc
    exact isLineBreak_eq_false (h.name.2 c hc)

/-- The text that a field without a comment finds is plain. -/
theorem hasPlainText_fieldTag (content : String) {f : FieldRecord} (h : f.doc = "") :
    (fieldTag ((Docstring.parse content).tagsNamed "param") f).HasPlainText := by
  have htext : (fieldTag ((Docstring.parse content).tagsNamed "param") f).text =
      writtenText ((Docstring.parse content).tagsNamed "param") f.name := by
    rw [fieldTag, h]
    rfl
  rw [Tag.HasPlainText, htext, writtenText]
  split
  · next t ht =>
    have hmem := List.mem_filter.mp (List.mem_of_mem_filter (List.mem_of_getLast? ht))
    have hread := Docstring.isRead_of_mem_tags hmem.1
    refine ⟨hread.joined, hread.textLines ?_⟩
    rw [eq_of_beq hmem.2]
    decide
  · exact ⟨rfl, by decide⟩

/-- The written text of a field with a comment is the comment. -/
theorem textLines_fieldTag (written : List Tag) {f : FieldRecord} (h : f.doc ≠ "") :
    (fieldTag written f).textLines = lines (strip f.doc) := by
  rw [Tag.textLines, fieldTag]
  dsimp only
  rw [if_neg (by simpa using h)]

/-- The tag of a field leaves nothing to the prose exactly if its comment has no
blank line inside. -/
theorem left_fieldTag_iff (content : String) (f : FieldRecord) :
    (∀ l ∈ (fieldTag ((Docstring.parse content).tagsNamed "param") f).passage.left,
        isBlankText l = true) ↔
      ∀ l ∈ lines (strip f.doc), isBlankText l = false := by
  have hempty : (∀ l ∈ (fieldTag ((Docstring.parse content).tagsNamed "param") f).passage.left,
        isBlankText l = true) ↔
      ∀ l ∈ (fieldTag ((Docstring.parse content).tagsNamed "param") f).passage.left, l = "" := by
    refine forall₂_congr fun l hl => ⟨fun hb => ?_, fun he => by rw [he]; rfl⟩
    rw [Passage.left] at hl
    obtain ⟨k, -, rfl⟩ := List.mem_map.mp hl
    exact eq_empty_of_stripEnd (stripEnd_stripEnd k) hb
  rw [hempty, Tag.left_empty_iff]
  by_cases h : f.doc = ""
  · have hnone : ∀ l ∈ lines (strip f.doc), isBlankText l = false := by
      rw [h]
      decide
    exact ⟨fun _ => hnone, fun _ => (hasPlainText_fieldTag content h).notBlank⟩
  · rw [textLines_fieldTag _ h]

/-- The text that is read of the tag of a field with a comment. -/
theorem readText_fieldTag (written : List Tag) {f : FieldRecord} (h : f.doc ≠ "")
    (hb : ∀ l ∈ lines (strip f.doc), isBlankText l = false) :
    (fieldTag written f).readText = f.commentText := by
  have hlines := textLines_fieldTag written h
  rw [← hlines] at hb
  rw [Tag.readText_eq hb, hlines, FieldRecord.commentText]

/-! ### Reading the docstring again -/

theorem Tag.isAmong_some (tagName : String) (names : List String) (t : Tag) :
    t.isAmong tagName (some names) = (t.tagName == tagName && t.name.any names.contains) := by
  unfold Tag.isAmong
  cases t.name <;> rfl

theorem Tag.isAmong_none (tagName : String) (t : Tag) :
    t.isAmong tagName none = (t.tagName == tagName) := by
  unfold Tag.isAmong
  rw [Bool.and_true]

theorem mem_keptTags {fields : List FieldRecord} {tags : List Tag} {t : Tag} :
    t ∈ keptTags fields tags ↔
      t ∈ tags ∧ t.isAmong "param" (some (fields.map FieldRecord.name)) = false ∧
        t.tagName ≠ "return" := by
  rw [keptTags, List.mem_filter, List.mem_filter, Bool.not_eq_true', Bool.not_eq_true', and_assoc]
  refine and_congr_right fun _ => and_congr_right fun _ => ?_
  rw [Tag.isAmong_none, beq_eq_false_iff_ne]

/-- Paths, fields and an earlier docstring of which a constructor's docstring can be
read again part by part. -/
structure IsRegularInput (path : String) (fields : List FieldRecord) (earlier : String) :
    Prop where
  /-- The path has no line break. -/
  singleLine : SingleLine path
  /-- The tags of the fields can be read back. -/
  regular : ∀ f ∈ fields, f.IsRegular
  /-- The prose does not look like a tag. -/
  text : beginsWith "@" (Docstring.parse earlier).text = false
  /-- No tag that is kept is read back as one of a field. -/
  kept : ∀ t ∈ keptTags fields (Docstring.parse earlier).tags,
    t.reread.isAmong "param" (some (fields.map FieldRecord.name)) = false

section Parts

variable {path : String} {fields : List FieldRecord}

/-- The docstring of a constructor is written line by line. -/
theorem isWritable_constructorParts (hpath : SingleLine path) (hf : ∀ f ∈ fields, f.IsRegular)
    (content : String) :
    (constructorParts path fields (Docstring.parse content)).IsWritable := by
  obtain ⟨hstrip, hjoined, -, -⟩ := Docstring.text_parse content
  have htags : ∀ t ∈ (constructorParts path fields (Docstring.parse content)).tags,
      (t.tagName = "" ∨ Tag.IsTagName t.tagName) ∧ ∀ l ∈ t.passage.lines, SingleLine l := by
    intro t ht
    rw [constructorParts, List.mem_append, List.mem_append] at ht
    rcases ht with ht | ht | ht
    · have hread := Docstring.isRead_of_mem_tags (mem_keptTags.mp ht).1
      exact ⟨hread.tagName, hread.singleLine_passage⟩
    · obtain ⟨f, hmem, rfl⟩ := List.mem_map.mp ht
      exact ⟨.inr isTagName_param, singleLine_fieldTag _ (hf f hmem)⟩
    · rw [List.mem_singleton.mp ht]
      have hname : Tag.IsTagName "return" := by decide
      refine ⟨.inr hname, Tag.singleLine_passage hname.singleLine ?_ (by simp [returnTag])⟩
      intro types hm ty hty
      rw [returnTag, Option.mem_some_iff] at hm
      rw [← hm, List.mem_singleton] at hty
      rwa [hty]
  exact ⟨hstrip, hjoined, fun t ht => (htags t ht).1, fun t ht => (htags t ht).2⟩

/-- Prose that does not look like a tag as a whole has no line that does. -/
theorem beginsWith_lines_text {content : String}
    (h : beginsWith "@" (Docstring.parse content).text = false) :
    ∀ l ∈ lines (Docstring.parse content).text, beginsWith "@" l = false := by
  obtain ⟨-, hjoined, -, hrest⟩ := Docstring.text_parse content
  rw [IsJoined] at hjoined
  cases hl : lines (Docstring.parse content).text with
  | nil => simp
  | cons first others =>
    rw [hl] at hjoined hrest
    intro l hmem
    rcases List.mem_cons.mp hmem with rfl | hmem
    · by_cases he : l = ""
      · rw [he]
        rfl
      · rw [← hjoined, beginsWith_mark rfl, head?_joinLines he] at h
        rw [beginsWith_mark rfl, h]
    · exact hrest l hmem

/-- The return tag is read back as one. -/
theorem tagName_reread_returnTag (path : String) : (returnTag path).reread.tagName = "return" :=
  Tag.tagName_reread (.inr (show Tag.IsTagName "return" by decide))

/-- The tag of a regular field is one of those that are made anew. -/
theorem isAmong_reread_fieldTag (written : List Tag) {f : FieldRecord} (h : f.IsRegular)
    (hmem : f ∈ fields) :
    (fieldTag written f).reread.isAmong "param" (some (fields.map FieldRecord.name)) = true := by
  have hname : (fields.map FieldRecord.name).contains f.name = true :=
    List.contains_iff_mem.mpr (List.mem_map_of_mem hmem)
  rw [reread_fieldTag written h, Tag.isAmong_some]
  exact hname

/-- The tags that are kept the second time are those kept the first time, read back. -/
theorem keptTags_reread {earlier : String} (h : IsRegularInput path fields earlier) :
    keptTags fields ((constructorParts path fields (Docstring.parse earlier)).tags.map Tag.reread) =
      (keptTags fields (Docstring.parse earlier).tags).map Tag.reread := by
  have hkept : keptTags fields ((keptTags fields (Docstring.parse earlier).tags).map Tag.reread) =
      (keptTags fields (Docstring.parse earlier).tags).map Tag.reread := by
    rw [keptTags, List.filter_filter, List.filter_eq_self]
    intro u hu
    obtain ⟨t, ht, rfl⟩ := List.mem_map.mp hu
    have hread := Docstring.isRead_of_mem_tags (mem_keptTags.mp ht).1
    have hreturn : t.reread.isAmong "return" none = false := by
      rw [Tag.isAmong_none, Tag.tagName_reread hread.tagName, beq_eq_false_iff_ne]
      exact (mem_keptTags.mp ht).2.2
    rw [h.kept t ht, hreturn]
    rfl
  have hfields : keptTags fields ((fields.map
      (fieldTag ((Docstring.parse earlier).tagsNamed "param"))).map Tag.reread) = [] := by
    rw [List.eq_nil_iff_forall_not_mem]
    intro u hu
    obtain ⟨hmem, hnot, -⟩ := mem_keptTags.mp hu
    obtain ⟨t, ht, rfl⟩ := List.mem_map.mp hmem
    obtain ⟨f, hf, rfl⟩ := List.mem_map.mp ht
    rw [isAmong_reread_fieldTag _ (h.regular f hf) hf] at hnot
    cases hnot
  have hreturn : keptTags fields [(returnTag path).reread] = [] := by
    rw [List.eq_nil_iff_forall_not_mem]
    intro u hu
    obtain ⟨hmem, -, hnot⟩ := mem_keptTags.mp hu
    rw [List.mem_singleton.mp hmem] at hnot
    exact hnot (tagName_reread_returnTag path)
  have happend : ∀ ts us, keptTags fields (ts ++ us) = keptTags fields ts ++ keptTags fields us := by
    intro ts us
    rw [keptTags, List.filter_append, List.filter_append]
    rfl
  rw [constructorParts, List.map_append, List.map_append, happend, happend, hkept, hfields,
    List.map_singleton, hreturn, List.append_nil, List.append_nil]

/-- The tags of a name that are read back from those of fields are of fields of that
name. -/
theorem filter_reread_fieldTags (written : List Tag) (hf : ∀ f ∈ fields, f.IsRegular)
    (name : String) :
    ((fields.map (fieldTag written)).map Tag.reread).filter
        (fun t => t.name == some name && t.tagName == "param") =
      (fields.filter fun g => g.name == name).map fun g => (fieldTag written g).reread := by
  have hsame : ∀ g ∈ fields, ((fun t : Tag => t.name == some name && t.tagName == "param") ∘
      Tag.reread ∘ fieldTag written) g = (g.name == name) := by
    intro g hg
    rw [Function.comp_apply, Function.comp_apply, reread_fieldTag written (hf g hg)]
    dsimp only
    rw [Option.some_beq_some, beq_self_eq_true, Bool.and_true]
  rw [List.map_map, List.filter_map, List.filter_congr hsame, Function.comp_def]

/-- The text that a field without a comment finds the second time is that of the
last field of its name. -/
theorem writtenText_reread {earlier : String} (h : IsRegularInput path fields earlier)
    {f g : FieldRecord} (hg : g ∈ (fields.filter fun g => g.name == f.name).getLast?)
    (hf : f ∈ fields) :
    writtenText (((constructorParts path fields (Docstring.parse earlier)).tags.map Tag.reread).filter
      fun t => t.tagName == "param") f.name =
      (fieldTag ((Docstring.parse earlier).tagsNamed "param") g).readText := by
  have hname : (fields.map FieldRecord.name).contains f.name = true :=
    List.contains_iff_mem.mpr (List.mem_map_of_mem hf)
  have hkept : ((keptTags fields (Docstring.parse earlier).tags).map Tag.reread).filter
      (fun t => t.name == some f.name && t.tagName == "param") = [] := by
    rw [List.filter_eq_nil_iff]
    intro u hu hmatch
    obtain ⟨t, ht, rfl⟩ := List.mem_map.mp hu
    rw [Bool.and_eq_true, beq_iff_eq] at hmatch
    have hnot := h.kept t ht
    rw [Tag.isAmong_some, hmatch.2, hmatch.1, Bool.true_and, Option.any_some, hname] at hnot
    cases hnot
  have hreturn : [(returnTag path).reread].filter
      (fun t => t.name == some f.name && t.tagName == "param") = [] := by
    refine List.filter_cons_of_neg ?_
    rw [tagName_reread_returnTag, Bool.and_eq_true]
    exact fun hmatch => absurd hmatch.2 (by decide)
  have hfields := filter_reread_fieldTags ((Docstring.parse earlier).tagsNamed "param") h.regular
    f.name
  have hmem : g ∈ fields := List.mem_of_mem_filter (List.mem_of_getLast? hg)
  rw [writtenText, List.filter_filter, constructorParts, List.map_append, List.map_append,
    List.filter_append, List.filter_append, hkept, hfields, List.map_singleton, hreturn,
    List.append_nil, List.nil_append, List.getLast?_map, Option.mem_def.mp hg, Option.map_some,
    reread_fieldTag _ (h.regular g hmem)]

end Parts

/-! ### The same docstring twice -/

/-- When the docstring of a constructor made of fields stays as it is. -/
structure IsSettled (fields : List FieldRecord) (earlier : String) : Prop where
  /-- Every tag that is kept is written the same once it is read back. -/
  tags : ∀ t ∈ keptTags fields (Docstring.parse earlier).tags, t.reread.print = t.print
  /-- No comment of a field has a blank line inside. -/
  comments : ∀ f ∈ fields, ∀ l ∈ lines (strip f.doc), isBlankText l = false
  /-- A field without a comment finds the text it had before, although a field of
  its name has a comment. -/
  namesakes : ∀ f ∈ fields, f.doc = "" →
    ∀ g ∈ (fields.filter fun g => g.name == f.name).getLast?, g.doc ≠ "" →
      g.commentText = writtenText ((Docstring.parse earlier).tagsNamed "param") f.name

section Twice

variable {path : String} {fields : List FieldRecord} {earlier : String}

/-- The prose stays as it is exactly if no tag leaves a line to it that is not blank. -/
theorem text_reread_eq_iff :
    strip (joinLines (lines (Docstring.parse earlier).text ++
        (constructorParts path fields (Docstring.parse earlier)).tags.flatMap
          fun t => t.passage.left)) = (Docstring.parse earlier).text ↔
      ∀ f ∈ fields, ∀ l ∈ lines (strip f.doc), isBlankText l = false := by
  obtain ⟨hstrip, hjoined, -, -⟩ := Docstring.text_parse earlier
  rw [IsJoined] at hjoined
  have hbase : strip (joinLines (lines (Docstring.parse earlier).text)) =
      joinLines (lines (Docstring.parse earlier).text) := by rw [hjoined, hstrip]
  have hiff : ∀ ms : List String,
      strip (joinLines (lines (Docstring.parse earlier).text ++ ms)) =
          joinLines (lines (Docstring.parse earlier).text) ↔
        ∀ m ∈ ms, isBlankText m = true := fun ms => strip_joinLines_append_eq_iff hbase
  rw [hjoined] at hiff
  rw [hiff]
  constructor
  · intro hall f hf
    rw [← left_fieldTag_iff earlier f]
    intro l hl
    refine hall l (List.mem_flatMap.mpr ⟨_, ?_, hl⟩)
    exact List.mem_append_right _ (List.mem_append_left _ (List.mem_map_of_mem hf))
  · intro hall l hl
    obtain ⟨t, ht, hl⟩ := List.mem_flatMap.mp hl
    rw [constructorParts, List.mem_append, List.mem_append] at ht
    rcases ht with ht | ht | ht
    · rw [(Docstring.isRead_of_mem_tags (mem_keptTags.mp ht).1).left_empty l hl]
      rfl
    · obtain ⟨f, hf, rfl⟩ := List.mem_map.mp ht
      exact (left_fieldTag_iff earlier f).mpr (hall f hf) l hl
    · rw [List.mem_singleton.mp ht] at hl
      have hnone : ∀ l ∈ (returnTag path).textLines, isBlankText l = false := by
        have hempty : (returnTag path).textLines = [] := rfl
        simp [hempty]
      rw [Tag.left_eq_nil hnone] at hl
      cases hl

/-- The tag of a field without a comment is written the same exactly if the field
finds the same text. -/
theorem passage_fieldTag_eq_iff (content content' : String) {f : FieldRecord} (h : f.doc = "") :
    (fieldTag ((Docstring.parse content).tagsNamed "param") f).passage =
        (fieldTag ((Docstring.parse content').tagsNamed "param") f).passage ↔
      writtenText ((Docstring.parse content).tagsNamed "param") f.name =
        writtenText ((Docstring.parse content').tagsNamed "param") f.name := by
  have htext : ∀ written, (fieldTag written f).text = writtenText written f.name := by
    intro written
    rw [fieldTag, h]
    rfl
  constructor
  · intro he
    have hplain := hasPlainText_fieldTag content h
    have hplain' := hasPlainText_fieldTag content' h
    have hlines := Tag.textLines_eq_of_passage_eq he rfl rfl rfl
    rw [hplain.textLines_eq, hplain'.textLines_eq] at hlines
    have hj := hplain.1
    have hj' := hplain'.1
    rw [IsJoined] at hj hj'
    rw [← htext, ← htext, ← hj, ← hj', hlines]
  · intro he
    rw [fieldTag, fieldTag, he]

/-- What is read of the docstring that a constructor was given. -/
theorem parse_constructorDocstring (h : IsRegularInput path fields earlier) :
    Docstring.parse (constructorDocstring path fields earlier) =
      { text := strip (joinLines (lines (Docstring.parse earlier).text ++
          (constructorParts path fields (Docstring.parse earlier)).tags.flatMap
            fun t => t.passage.left))
        tags := (constructorParts path fields (Docstring.parse earlier)).tags.map Tag.reread
        directives := (Docstring.parse earlier).directives } := by
  obtain ⟨ps, hps, hdir⟩ := exists_directivePassages earlier
  have hwritable := isWritable_constructorParts h.singleLine h.regular earlier
  have hends : ∀ l ∈ lines (Docstring.parse earlier).text, stripEnd l = l := fun l hl =>
    ((Docstring.text_parse earlier).2.2.1 l hl).2
  rw [constructorDocstring_eq, hps]
  exact Docstring.parse_written hwritable hdir hends (beginsWith_lines_text h.text)

/-- Constructors of the same fields that keep as many tags have the same passages
exactly if the tags that are kept and those of the fields are written the same. -/
theorem passages_constructorParts_eq_iff (path : String) {d d' : Docstring}
    (hlen : (keptTags fields d'.tags).length = (keptTags fields d.tags).length) :
    (constructorParts path fields d').tags.map Tag.passage =
        (constructorParts path fields d).tags.map Tag.passage ↔
      (keptTags fields d'.tags).map Tag.passage = (keptTags fields d.tags).map Tag.passage ∧
        ∀ f ∈ fields, (fieldTag (d'.tagsNamed "param") f).passage =
          (fieldTag (d.tagsNamed "param") f).passage := by
  have hfields : (fields.map (fieldTag (d'.tagsNamed "param"))).map Tag.passage =
        (fields.map (fieldTag (d.tagsNamed "param"))).map Tag.passage ↔
      ∀ f ∈ fields, (fieldTag (d'.tagsNamed "param") f).passage =
          (fieldTag (d.tagsNamed "param") f).passage := by
    rw [List.map_map, List.map_map, List.map_inj_left]
    rfl
  rw [← hfields, constructorParts, constructorParts]
  dsimp only
  rw [List.map_append, List.map_append, List.map_append, List.map_append]
  constructor
  · intro he
    obtain ⟨hkept, hrest⟩ := List.append_inj he (by rw [List.length_map, List.length_map, hlen])
    exact ⟨hkept, List.append_cancel_right hrest⟩
  · rintro ⟨hkept, hrest⟩
    rw [hkept, hrest]

/-- The docstring of a constructor is the same the second time exactly if it has the
same prose and the same passages. -/
theorem constructorDocstring_twice_eq_iff_parts (h : IsRegularInput path fields earlier) :
    constructorDocstring path fields (constructorDocstring path fields earlier) =
        constructorDocstring path fields earlier ↔
      (Docstring.parse (constructorDocstring path fields earlier)).text =
          (Docstring.parse earlier).text ∧
        (keptTags fields (Docstring.parse (constructorDocstring path fields earlier)).tags).map
            Tag.passage = (keptTags fields (Docstring.parse earlier).tags).map Tag.passage ∧
          ∀ f ∈ fields, (fieldTag ((Docstring.parse
            (constructorDocstring path fields earlier)).tagsNamed "param") f).passage =
              (fieldTag ((Docstring.parse earlier).tagsNamed "param") f).passage := by
  obtain ⟨ps, hps, hdir⟩ := exists_directivePassages earlier
  have hagain : (Docstring.parse (constructorDocstring path fields earlier)).directives =
      ps.map fun p => joinLines p.lines := by
    rw [parse_constructorDocstring h, ← hps]
  have hlen : (keptTags fields (Docstring.parse
      (constructorDocstring path fields earlier)).tags).length =
        (keptTags fields (Docstring.parse earlier).tags).length := by
    rw [parse_constructorDocstring h, keptTags_reread h, List.length_map]
  have hcount : (constructorParts path fields (Docstring.parse
      (constructorDocstring path fields earlier))).tags.length =
        (constructorParts path fields (Docstring.parse earlier)).tags.length := by
    rw [constructorParts, constructorParts]
    dsimp only
    rw [List.length_append, List.length_append, hlen, List.length_append, List.length_append,
      List.length_map, List.length_map]
  have hiff := Docstring.written_eq_iff
    (isWritable_constructorParts h.singleLine h.regular earlier)
    (isWritable_constructorParts h.singleLine h.regular (constructorDocstring path fields earlier))
    hdir (beginsWith_lines_text h.text) hcount
  rw [Docstring.written, Docstring.written, ← hagain, ← constructorDocstring_eq, hagain, ← hps,
    ← constructorDocstring_eq, passages_constructorParts_eq_iff path hlen] at hiff
  exact hiff

/-- Making the docstring of a constructor again leaves it as it is exactly if it is
settled. -/
theorem constructorDocstring_twice_eq_iff (h : IsRegularInput path fields earlier) :
    constructorDocstring path fields (constructorDocstring path fields earlier) =
        constructorDocstring path fields earlier ↔
      IsSettled fields earlier := by
  have htext : (Docstring.parse (constructorDocstring path fields earlier)).text =
      (Docstring.parse earlier).text ↔
        ∀ f ∈ fields, ∀ l ∈ lines (strip f.doc), isBlankText l = false := by
    rw [parse_constructorDocstring h]
    exact text_reread_eq_iff
  have hkept : (keptTags fields (Docstring.parse
      (constructorDocstring path fields earlier)).tags).map Tag.passage =
        (keptTags fields (Docstring.parse earlier).tags).map Tag.passage ↔
      ∀ t ∈ keptTags fields (Docstring.parse earlier).tags, t.reread.print = t.print := by
    have hreread : keptTags fields (Docstring.parse
        (constructorDocstring path fields earlier)).tags =
          (keptTags fields (Docstring.parse earlier).tags).map Tag.reread := by
      rw [parse_constructorDocstring h, keptTags_reread h]
    have hread : ∀ t ∈ keptTags fields (Docstring.parse earlier).tags,
        t.IsRead ∧ t.reread.IsRead := by
      intro t ht
      have hmem := List.mem_map_of_mem (f := Tag.reread) ht
      rw [← hreread] at hmem
      exact ⟨Docstring.isRead_of_mem_tags (mem_keptTags.mp ht).1,
        Docstring.isRead_of_mem_tags (mem_keptTags.mp hmem).1⟩
    rw [hreread, List.map_map, List.map_inj_left]
    refine forall₂_congr fun t ht => ?_
    rw [Tag.print_eq_iff (hread t ht).2.singleLine_passage (hread t ht).1.singleLine_passage]
    rfl
  have hfinds : ∀ f ∈ fields, ∀ g ∈ (fields.filter fun g => g.name == f.name).getLast?,
      writtenText ((Docstring.parse (constructorDocstring path fields earlier)).tagsNamed "param")
        f.name = (fieldTag ((Docstring.parse earlier).tagsNamed "param") g).readText := by
    intro f hf g hg
    rw [Docstring.tagsNamed, parse_constructorDocstring h]
    exact writtenText_reread h hg hf
  rw [constructorDocstring_twice_eq_iff_parts h, htext, hkept]
  constructor
  · rintro ⟨hcomments, htags, hfields⟩
    refine ⟨htags, hcomments, fun f hf hdoc g hg hg' => ?_⟩
    have hmem : g ∈ fields := List.mem_of_mem_filter (List.mem_of_getLast? hg)
    have hsame := (passage_fieldTag_eq_iff _ earlier hdoc).mp (hfields f hf)
    rw [hfinds f hf g hg, readText_fieldTag _ hg' (hcomments g hmem)] at hsame
    exact hsame
  · intro hs
    refine ⟨hs.comments, hs.tags, fun f hf => ?_⟩
    by_cases hdoc : f.doc = ""
    · obtain ⟨g, hg⟩ : ∃ g, g ∈ (fields.filter fun g => g.name == f.name).getLast? := by
        have hmem : f ∈ fields.filter fun g => g.name == f.name :=
          List.mem_filter.mpr ⟨hf, beq_self_eq_true _⟩
        exact ⟨_, List.getLast?_eq_some_getLast (List.ne_nil_of_mem hmem)⟩
      obtain ⟨hmem, hname⟩ := List.mem_filter.mp (List.mem_of_getLast? hg)
      rw [passage_fieldTag_eq_iff _ earlier hdoc, hfinds f hf g hg]
      by_cases hg' : g.doc = ""
      · rw [(hasPlainText_fieldTag earlier hg').readText_eq, fieldTag, hg', eq_of_beq hname]
        rfl
      · rw [readText_fieldTag _ hg' (hs.comments g hmem), hs.namesakes f hf hdoc g hg hg']
    · rw [fieldTag, fieldTag, if_neg (by simpa using hdoc), if_neg (by simpa using hdoc)]

end Twice

end RubyDoc

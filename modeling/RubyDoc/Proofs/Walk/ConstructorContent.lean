import RubyDoc.Proofs.Docstring.Rewrite
import RubyDoc.Proofs.Docstring.SplitTypes
import RubyDoc.Proofs.Walk.Constructor

/-!
# What the docstring of a constructor says

The docstring that a constructor is given is read as what it was made of: the
prose and the tags written by hand that are kept, a tag for each field, the class
that it makes, and the directives. This holds if the docstring before was one that
is read back from its written form, with directives behind it. A last type that is
empty would be lost, and so would all of a comment from its first blank line on.
-/

namespace RubyDoc

open RubyDoc.Text

namespace Docstring

/-- A docstring that is read back from what is written of it. -/
def IsReadBack (d : Docstring) : Prop := parse d.print = d

instance (d : Docstring) : Decidable d.IsReadBack := inferInstanceAs (Decidable (_ = _))

/-- A text that is read as one directive and nothing else. -/
def IsDirectiveText (s : String) : Prop := parse s = { directives := [s] }

instance (s : String) : Decidable (IsDirectiveText s) := inferInstanceAs (Decidable (_ = _))

/-- Texts of directives are the lines of passages. -/
theorem exists_passages_of_isDirectiveText {ds : List String} (h : ∀ s ∈ ds, IsDirectiveText s) :
    ∃ ps : List Passage, ds = ps.map (fun p => joinLines p.lines) ∧ ∀ p ∈ ps, p.IsDirective := by
  induction ds with
  | nil => exact ⟨[], rfl, isDirective_of_mem_nil⟩
  | cons s rest ih =>
    obtain ⟨ps, hps, hdir⟩ := ih fun t ht => h t (List.mem_cons_of_mem _ ht)
    have hread : parse s = { directives := [s] } := h s List.mem_cons_self
    have hmem : s ∈ (parse s).directives := by
      rw [hread]
      exact List.mem_singleton_self s
    obtain ⟨head, more, hs, hopening, hmark, hfurther⟩ := mem_directives_parse hmem
    refine ⟨⟨head, more⟩ :: ps, ?_, List.forall_mem_cons.mpr ⟨⟨hopening, hmark, hfurther⟩, hdir⟩⟩
    rw [List.map_cons, ← hps]
    exact congrArg (· :: rest) hs

namespace IsReadBack

variable {d : Docstring} (h : d.IsReadBack)

include h

/-- The prose of a docstring that is read back does not look like a tag. -/
theorem unmarked : beginsWith "@" d.text = false := by
  have hfix : rewrite d.print = d.print := congrArg print h
  have hunmarked := unmarked_of_rewrite_eq hfix
  rwa [h] at hunmarked

/-- A docstring that is read back is plain. -/
theorem isPlain : d.IsPlain := by
  have hunmarked := unmarked h
  rw [← h] at hunmarked
  have hplain := isPlain_parse hunmarked
  rwa [h] at hplain

/-- Each of its tags is read back. -/
theorem reread_of_mem_tags : ∀ t ∈ d.tags, t.reread = t := by
  have hparse := parse_print_of_isPlain (isPlain h)
  rw [h] at hparse
  have htags : d.tags = d.tags.map Tag.reread := congrArg tags hparse
  exact List.map_inj_left.mp (htags.symm.trans (List.map_id _).symm)

/-- Directives behind it are set apart. -/
theorem parse_addDirectives {ds : List String} (hds : ∀ s ∈ ds, IsDirectiveText s) :
    parse (addDirectives d.print ds) = { d with directives := ds } := by
  obtain ⟨ps, rfl, hdir⟩ := exists_passages_of_isDirectiveText hds
  have hread := parse_written_of_isPlain (isPlain h) hdir
  have htags : d.tags.map Tag.reread = d.tags :=
    (List.map_congr_left (reread_of_mem_tags h)).trans (List.map_id _)
  rwa [htags] at hread

end IsReadBack

end Docstring

/-! ### Tags of fields -/

/-- A field whose tag says all that is known of the field. -/
structure FieldRecord.IsListed (f : FieldRecord) : Prop where
  /-- The name can stand on a tag line. -/
  name : IsWrittenName f.name
  /-- Every type can stand in a list, or is empty. -/
  places : ∀ t ∈ f.types, TypeList.IsPlace t
  /-- The last type is not empty. -/
  last : f.types.getLast? ≠ some ""
  /-- The comment has no blank line. -/
  comment : ∀ l ∈ lines f.doc, isBlankText l = false

/-- The text that was written last for a parameter. -/
def Docstring.lastText (d : Docstring) (name : String) : String :=
  ((d.tags.filter fun t => t.tagName == "param" && t.name == some name).getLast?.map Tag.text).getD ""

/-- The tag of a field: its name, its types, and its comment with each line trimmed, or the
text that was written last for its name. -/
def Docstring.contentTag (d : Docstring) (f : FieldRecord) : Tag :=
  { tagName := "param", types := some f.types, name := some f.name
    text := if f.doc = "" then d.lastText f.name else joinLines ((lines f.doc).map strip) }

/-- Whether the constructor of fields has its own tag in place of a tag: it is a return tag,
or the parameter tag of a field. -/
def isReplaced (fields : List FieldRecord) (t : Tag) : Bool :=
  t.tagName == "return" ||
    (t.tagName == "param" && t.name.any (fields.map FieldRecord.name).contains)

/-- What the docstring of a constructor says, from the earlier docstring and the directives
behind it. -/
def constructorContent (path : String) (fields : List FieldRecord) (d : Docstring)
    (ds : List String) : Docstring :=
  { text := d.text
    tags := d.tags.filter (fun t => !isReplaced fields t) ++ fields.map d.contentTag ++
      [returnTag path]
    directives := ds }

theorem keptTags_eq (fields : List FieldRecord) (tags : List Tag) :
    keptTags fields tags = tags.filter fun t => !isReplaced fields t := by
  rw [keptTags, List.filter_filter]
  refine List.filter_congr fun t _ => ?_
  rw [Tag.isAmong_some, Tag.isAmong_none, isReplaced, Bool.not_or]

theorem writtenText_eq (d : Docstring) (name : String) :
    writtenText (d.tagsNamed "param") name = d.lastText name := by
  have hfilter : (d.tagsNamed "param").filter (fun t => t.name == some name) =
      d.tags.filter fun t => t.tagName == "param" && t.name == some name := by
    rw [Docstring.tagsNamed, List.filter_filter]
    exact List.filter_congr fun t _ => Bool.and_comm _ _
  rw [writtenText, hfilter, Docstring.lastText]
  cases (d.tags.filter fun t => t.tagName == "param" && t.name == some name).getLast? <;> rfl

namespace FieldRecord.IsListed

variable {f : FieldRecord} (h : f.IsListed)

include h

/-- The tag of a listed field can be read back as one of that field. -/
theorem isRegular : f.IsRegular := by
  refine ⟨h.name, fun t ht => ?_⟩
  rcases h.places t ht with rfl | hitem
  · exact ⟨by decide, by decide⟩
  · exact ⟨hitem.singleLine, hitem.balanced⟩

/-- The tag of a listed field is read back as what it was made of. -/
theorem reread_fieldTag (content : String) :
    (fieldTag ((Docstring.parse content).tagsNamed "param") f).reread =
      (Docstring.parse content).contentTag f := by
  have htypes : TypeList.split (String.intercalate ", " f.types) = f.types :=
    (TypeList.split_intercalate_iff h.places).mpr h.last
  have htext : (fieldTag ((Docstring.parse content).tagsNamed "param") f).readText =
      if f.doc = "" then (Docstring.parse content).lastText f.name
      else joinLines ((lines f.doc).map strip) := by
    by_cases hdoc : f.doc = ""
    · rw [if_pos hdoc, (hasPlainText_fieldTag content hdoc).readText_eq, fieldTag, hdoc,
        ← writtenText_eq]
      rfl
    · obtain ⟨hsame, hblank⟩ := map_strip_lines_strip h.comment
      rw [if_neg hdoc, readText_fieldTag _ hdoc hblank, FieldRecord.commentText, hsame]
  rw [RubyDoc.reread_fieldTag _ h.isRegular, htypes, htext]
  rfl

end FieldRecord.IsListed

/-- The return tag of a path that is a type is read back. -/
theorem reread_returnTag {path : String} (h : TypeList.IsItem path) :
    (returnTag path).reread = returnTag path := by
  have hname : Tag.IsTagName "return" := by decide
  have hnamed : Tag.namedTypedTags.contains "return" = false := by decide
  have htyped : Tag.typedTags.contains "return" = true := by decide
  have hempty : IsJoined "" ∧ ∀ l ∈ lines "", IsTextLine l := by decide
  have hsplit : TypeList.split (String.intercalate ", " [path]) = [path] :=
    TypeList.split_listed fun t ht => List.mem_singleton.mp ht ▸ h
  have hparts := Tag.readParts_types (t := returnTag path) hnamed htyped rfl
    (fun t ht => List.mem_singleton.mp ht ▸ h.balanced) rfl
  have hplain : (returnTag path).HasPlainText := hempty
  rw [hsplit] at hparts
  rw [Tag.reread_eq hname hparts, hplain.readText_eq]
  rfl

/-! ### The docstring that is stored -/

section Stored

variable {path : String} {fields : List FieldRecord} {earlier : String}

/-- What is read of the docstring of a constructor, if its earlier docstring is one that is
read back with directives behind it. -/
theorem parse_constructorDocstring_of_isReadBack {d : Docstring} {ds : List String}
    (hd : d.IsReadBack) (hearlier : Docstring.parse earlier = { d with directives := ds })
    (hpath : TypeList.IsItem path) (hfields : ∀ f ∈ fields, f.IsListed) :
    Docstring.parse (constructorDocstring path fields earlier) =
      constructorContent path fields d ds := by
  have htags : (Docstring.parse earlier).tags = d.tags := by rw [hearlier]
  have hprose : (Docstring.parse earlier).text = d.text := by rw [hearlier]
  have hregular : IsRegularInput path fields earlier := by
    refine ⟨hpath.singleLine, fun f hf => (hfields f hf).isRegular, ?_, fun t ht => ?_⟩
    · rw [hprose]
      exact hd.unmarked
    · obtain ⟨hmem, hnot, -⟩ := mem_keptTags.mp ht
      rw [htags] at hmem
      rwa [hd.reread_of_mem_tags t hmem]
  have htext : strip (joinLines (lines (Docstring.parse earlier).text ++
      (constructorParts path fields (Docstring.parse earlier)).tags.flatMap
        fun t => t.passage.left)) = (Docstring.parse earlier).text :=
    text_reread_eq_iff.mpr fun f hf => (map_strip_lines_strip (hfields f hf).comment).2
  have hkept : (keptTags fields d.tags).map Tag.reread =
      d.tags.filter fun t => !isReplaced fields t := by
    rw [keptTags_eq]
    have hsame : ∀ t ∈ d.tags.filter (fun t => !isReplaced fields t), t.reread = id t :=
      fun t ht => hd.reread_of_mem_tags t (List.mem_of_mem_filter ht)
    exact (List.map_congr_left hsame).trans (List.map_id _)
  have hmade : (fields.map (fieldTag ((Docstring.parse earlier).tagsNamed "param"))).map Tag.reread =
      fields.map d.contentTag := by
    rw [List.map_map]
    refine List.map_congr_left fun f hf => ?_
    rw [Function.comp_apply, (hfields f hf).reread_fieldTag, hearlier]
    rfl
  rw [parse_constructorDocstring hregular, htext, hprose, constructorParts, List.map_append,
    List.map_append, htags, hkept, hmade, List.map_singleton, reread_returnTag hpath, hearlier,
    constructorContent, List.append_assoc]

end Stored

/-- **Content of a constructor's docstring.** Where the constructor of a class can be
registered, the docstring that is stored for it is read as the prose of its earlier
docstring, the tags that are kept in their order, a tag for each field in the order of
declaration, one return tag with the class, and the directives. -/
theorem parse_docstring_afterSynthesis (c : Context) (n : Node) (path classPath : String)
    {r : Records} (hk : r.store.IsKeyed) (hhome : HasConstructorHome r.store path)
    (hne : r.fields.fieldsFor path ≠ []) (hfields : ∀ f ∈ r.fields.fieldsFor path, f.IsListed)
    (hpath : TypeList.IsItem path) {d : Docstring} (hd : d.IsReadBack) {ds : List String}
    (hds : ∀ s ∈ ds, Docstring.IsDirectiveText s)
    (hearlier : (constructorAt r.store path).docstring = addDirectives d.print ds) :
    ∃ e, (afterSynthesis c n path classPath r).store.find? (constructorPath path) = some e ∧
      Docstring.parse e.docstring = constructorContent path (r.fields.fieldsFor path) d ds := by
  obtain ⟨r', hrun, hmade⟩ := synthesise_ok c n path classPath hk hne hhome
  have hafter : afterSynthesis c n path classPath r = r' := by rw [afterSynthesis, hrun]
  have hread : Docstring.parse (constructorAt r.store path).docstring =
      { d with directives := ds } := by
    rw [hearlier]
    exact hd.parse_addDirectives hds
  refine ⟨{ r.revisedMethod c n path with docstring := r.newDocstring path }, ?_, ?_⟩
  · rw [hafter, hmade.find?, if_pos rfl]
  · dsimp only
    rw [Records.newDocstring]
    exact parse_constructorDocstring_of_isReadBack hd hread hpath hfields

/-- A constructor's earlier docstring: prose, tags of two parameters, and tags of what it
returns and notes. -/
def handWritten : Docstring :=
  { text := "Builds a job."
    tags := [
      { tagName := "param", types := some ["Float"], name := some "size"
        text := "how many lines\nthere are" },
      { tagName := "return", types := some ["Object"] },
      { tagName := "param", name := some "other", text := "something else" },
      { tagName := "note", text := "Slow." }] }

/-- A class with that constructor and two fields, one of them with a comment. -/
def handWrittenRecords : Records :=
  { store := { entries := [
      ("", { name := "", kind := .root { children := ["Job"] } }),
      ("Job", { name := "Job"
                kind := .classSpace { serial := 1, children := ["Job#initialize"] } none }),
      ("Job#initialize", { name := "initialize", home := "Job", kind := .method {}
                           docstring := addDirectives handWritten.print ["@!visibility private"] })] }
    fields := { entries := [("Job", [
      { home := "Job", name := "size", types := ["Integer"] },
      { home := "Job", name := "title", types := ["String", "nil"]
        doc := " The title\n  as shown" }])] } }

theorem parse_docstring_handWrittenRecords :
    (∀ f ∈ handWrittenRecords.fields.fieldsFor "Job", f.IsListed) ∧ TypeList.IsItem "Job" ∧
    handWritten.IsReadBack ∧
    ∃ e, (afterSynthesis emptyContext default "Job" "Job" handWrittenRecords).store.find?
        (constructorPath "Job") = some e ∧
      Docstring.parse e.docstring = {
        text := "Builds a job."
        tags := [
          { tagName := "param", name := some "other", text := "something else" },
          { tagName := "note", text := "Slow." },
          { tagName := "param", types := some ["Integer"], name := some "size"
            text := "how many lines\nthere are" },
          { tagName := "param", types := some ["String", "nil"], name := some "title"
            text := "The title\nas shown" },
          { tagName := "return", types := some ["Job"] }]
        directives := ["@!visibility private"] } := by
  have hkeyed : handWrittenRecords.store.IsKeyed := Store.isKeyed_of_forall (by decide) (by decide)
  have hfields : ∀ f ∈ handWrittenRecords.fields.fieldsFor "Job", f.IsListed := by
    intro f hf
    rcases List.mem_pair.mp hf with rfl | rfl
    · exact ⟨by decide, by decide, by decide, by decide⟩
    · exact ⟨by decide, by decide, by decide, by decide⟩
  have hletters : ∀ c ∈ "Job".toList,
      TypeList.isOpening c = false ∧ TypeList.isClosing c = false ∧ c ≠ ',' := by
    simp [TypeList.isOpening, TypeList.isClosing]
  have hpath : TypeList.IsItem "Job" :=
    TypeList.isItem_of_plain (by decide) (by decide) (by decide) hletters
  have hread : handWritten.IsReadBack := by decide +kernel
  have hhome : HasConstructorHome handWrittenRecords.store "Job" := ⟨_, _, rfl, rfl⟩
  have hds : ∀ s ∈ ["@!visibility private"], Docstring.IsDirectiveText s := by decide +kernel
  obtain ⟨e, hfind, hcontent⟩ := parse_docstring_afterSynthesis emptyContext default "Job" "Job"
    hkeyed hhome (by decide) hfields hpath hread hds rfl
  exact ⟨hfields, hpath, hread, e, hfind, hcontent.trans (by decide +kernel)⟩

/-- An empty type at the end of a field's types does not count: it is not read back. -/
theorem not_parse_constructorDocstring_emptyType :
    ¬ ∀ (path : String) (fields : List FieldRecord) (d : Docstring) (ds : List String),
      fields ≠ [] →
      (∀ f ∈ fields, IsWrittenName f.name ∧ f.types ≠ [] ∧
        (∀ t ∈ f.types, strip t = t ∧ SingleLine t ∧ TypeList.Balanced t ∧
          TypeList.commasInside 0 none t.toList = true) ∧
        ∀ l ∈ lines f.doc, isBlankText l = false) →
      (∀ c ∈ path.toList,
        TypeList.isOpening c = false ∧ TypeList.isClosing c = false ∧ c ≠ ',') →
      d.IsReadBack → (∀ s ∈ ds, Docstring.IsDirectiveText s) →
      Docstring.parse (constructorDocstring path fields (addDirectives d.print ds)) =
        constructorContent path fields d ds := by
  intro hall
  have hletters : ∀ c ∈ "Foo".toList,
      TypeList.isOpening c = false ∧ TypeList.isClosing c = false ∧ c ≠ ',' := by
    simp [TypeList.isOpening, TypeList.isClosing]
  have hread := hall "Foo" [{ home := "Foo", name := "x", types := [""] }] {} [] (by decide)
    (by decide) hletters (by decide +kernel) (by decide)
  exact absurd hread (by decide +kernel)

end RubyDoc

import RubyDoc.Proofs.Docstring.Rewrite

/-!
# Directives and changes of the tags

While the tags of a docstring are changed its directives are set apart, and they are put
back behind the tags afterwards. Whatever texts the changes bring in, reading the result
finds these directives and no others: every line that a tag writes begins with an at sign
or is indented, and no tag line is one of a directive. What becomes of the tags and of the
prose is not said here.
-/

namespace RubyDoc

open RubyDoc.Text

/-- A change of the tags of a docstring. -/
inductive TagChange where
  /-- A tag is put after the others. -/
  | add (tag : Tag)
  /-- The first matching tag is given types, or a tag with them is added. -/
  | upsert (tagName : String) (types : Option (List String)) (name : Option String)
  /-- Tags are left out by their tag name, limited to the given names if any. -/
  | remove (tagName : String) (names : Option (List String))

namespace Docstring

/-- A docstring after one change of its tags. -/
def changeTag (d : Docstring) : TagChange → Docstring
  | .add tag => d.addTag tag
  | .upsert tagName types name => d.upsertTag tagName types name
  | .remove tagName names => d.removeTags tagName names

/-- A docstring after some changes of its tags, one after the other. -/
def changeTags (d : Docstring) (changes : List TagChange) : Docstring := changes.foldl changeTag d

end Docstring

/-- A tag whose name, types and parameter name leave it on one line that opens no directive.
Its text may be any. -/
structure Tag.HasTagHead (t : Tag) : Prop where
  /-- The tag name is on one line. -/
  tagName : SingleLine t.tagName
  /-- The tag name does not make the line one of a directive. -/
  unmarked : beginsWith "!" t.tagName = false
  /-- Every type is on one line. -/
  types : ∀ types ∈ t.types, ∀ type ∈ types, SingleLine type
  /-- The parameter name is on one line. -/
  name : ∀ name ∈ t.name, SingleLine name

instance (t : Tag) : Decidable t.HasTagHead :=
  decidable_of_iff
    (SingleLine t.tagName ∧ beginsWith "!" t.tagName = false ∧
      (∀ types ∈ t.types, ∀ type ∈ types, SingleLine type) ∧ ∀ name ∈ t.name, SingleLine name)
    ⟨fun ⟨h1, h2, h3, h4⟩ => ⟨h1, h2, h3, h4⟩, fun ⟨h1, h2, h3, h4⟩ => ⟨h1, h2, h3, h4⟩⟩

/-- Whether the tag that a change brings in has such a line. Leaving tags out is always fine. -/
def TagChange.HasTagHead : TagChange → Prop
  | .add tag => tag.HasTagHead
  | .upsert tagName types name => Tag.HasTagHead { tagName, types, name }
  | .remove _ _ => True

instance : DecidablePred TagChange.HasTagHead
  | .add tag => inferInstanceAs (Decidable tag.HasTagHead)
  | .upsert tagName types name => inferInstanceAs (Decidable (Tag.HasTagHead { tagName, types, name }))
  | .remove _ _ => inferInstanceAs (Decidable True)

namespace Tag

/-- Giving a tag other types leaves its line fit if the types are. -/
theorem HasTagHead.retype {t : Tag} (h : t.HasTagHead) {tagName : String}
    {types : Option (List String)} {name : Option String}
    (hnew : HasTagHead { tagName, types, name }) : HasTagHead { t with types } :=
  ⟨h.tagName, h.unmarked, hnew.types, h.name⟩

/-- A tag that was read has a fit line. -/
theorem IsRead.hasTagHead {t : Tag} (h : t.IsRead) : t.HasTagHead := by
  refine ⟨?_, beginsWith_bang_tagName h.tagName, h.types, h.name⟩
  rcases h.tagName with hempty | hname
  · rw [hempty]
    decide
  · exact hname.singleLine

end Tag

/-! ### What changes keep -/

/-- Setting types among tags keeps their lines fit. -/
theorem hasTagHead_upsertIn {tagName : String} {types : Option (List String)}
    {name : Option String} (hnew : Tag.HasTagHead { tagName, types, name }) {tags : List Tag}
    (h : ∀ t ∈ tags, t.HasTagHead) : ∀ t ∈ upsertIn tagName types name tags, t.HasTagHead := by
  induction tags with
  | nil =>
    intro t ht
    rw [upsertIn, List.mem_singleton] at ht
    exact ht ▸ hnew
  | cons tag tags ih =>
    obtain ⟨htag, htags⟩ := List.forall_mem_cons.mp h
    rw [upsertIn]
    split
    · exact List.forall_mem_cons.mpr ⟨htag.retype hnew, htags⟩
    · exact List.forall_mem_cons.mpr ⟨htag, ih htags⟩

namespace Docstring

variable {d : Docstring}

/-- A change of the tags leaves the prose. -/
theorem text_changeTag (d : Docstring) (change : TagChange) : (d.changeTag change).text = d.text := by
  cases change <;> rfl

/-- A change that brings in a fit tag keeps the lines of all tags fit. -/
theorem hasTagHead_changeTag (h : ∀ t ∈ d.tags, t.HasTagHead) {change : TagChange}
    (hchange : change.HasTagHead) : ∀ t ∈ (d.changeTag change).tags, t.HasTagHead := by
  cases change with
  | add tag =>
    intro t ht
    rcases List.mem_append.mp ht with ht | ht
    · exact h t ht
    · rw [List.mem_singleton.mp ht]
      exact hchange
  | upsert tagName types name => exact hasTagHead_upsertIn hchange h
  | remove tagName names => exact fun t ht => h t (List.mem_of_mem_filter ht)

/-- Any changes leave the prose, and those that bring in fit tags keep all lines fit. -/
theorem changeTags_spec {changes : List TagChange} (h : ∀ t ∈ d.tags, t.HasTagHead)
    (hchanges : ∀ change ∈ changes, change.HasTagHead) :
    (d.changeTags changes).text = d.text ∧ ∀ t ∈ (d.changeTags changes).tags, t.HasTagHead := by
  induction changes generalizing d with
  | nil => exact ⟨rfl, h⟩
  | cons change changes ih =>
    obtain ⟨hchange, hrest⟩ := List.forall_mem_cons.mp hchanges
    obtain ⟨htext, htags⟩ := ih (hasTagHead_changeTag h hchange) hrest
    rw [text_changeTag] at htext
    exact ⟨htext, htags⟩

/-- Directives that are put behind tags with fit lines are read back, and nothing else is
read as one. -/
theorem directives_parse_written {ds : List Passage} (hstripped : strip d.text = d.text)
    (hjoined : IsJoined d.text) (hat : ∀ l ∈ lines d.text, beginsWith "@" l = false)
    (htags : ∀ t ∈ d.tags, t.HasTagHead) (hds : ∀ p ∈ ds, p.IsDirective) :
    (parse (d.written ds)).directives = ds.map fun p => joinLines p.lines := by
  have hlines := (lines_written hstripped hjoined (fun t ht =>
    Tag.singleLine_passage (htags t ht).tagName (htags t ht).types (htags t ht).name) hds).1
  rw [parse_passages hat (d.isProper_passages hds) hlines]
  exact filterMap_directiveText?_passages (fun t ht => (htags t ht).unmarked) hds

end Docstring

/-- **Directives survive every change of the tags.** The directives that were set apart from a
text are found again, the same in the same order, after any tags were added, given types or
left out in between. The prose must not begin with an at sign, and the tags that come in must
stay on a line that opens no directive; their texts may be any. -/
theorem extractDirectives_changeTags {content : String}
    (hat : beginsWith "@" (Docstring.parse content).text = false) {changes : List TagChange}
    (hchanges : ∀ change ∈ changes, change.HasTagHead) :
    (extractDirectives (addDirectives ((extractDirectives content).1.changeTags changes).print
      (extractDirectives content).2)).2 = (extractDirectives content).2 := by
  have hplain := Docstring.isPlain_parse hat
  have hread : ∀ t ∈ (extractDirectives content).1.tags, t.HasTagHead := fun t ht =>
    (hplain.tags t ht).hasTagHead
  obtain ⟨htext, htags⟩ := Docstring.changeTags_spec hread hchanges
  have hprose : ((extractDirectives content).1.changeTags changes).text =
      (Docstring.parse content).text := htext
  obtain ⟨ps, hps, hdir⟩ := exists_directivePassages content
  have hdirectives : (extractDirectives content).2 = ps.map fun p => joinLines p.lines := hps
  rw [hdirectives]
  refine Docstring.directives_parse_written ?_ ?_ ?_ htags hdir
  · rw [hprose]
    exact hplain.stripped
  · rw [hprose]
    exact hplain.joined
  · rw [hprose]
    exact hplain.unmarked

/-- A text with two directives, one of them continued, and with a tag between them. -/
def markedText : String :=
  "Reads a record.\n@!macro [new] record\n  Keeps the record.\n@param name\n@!visibility private"

/-- A tag text with an empty line and a line that looks like a directive, a tag name that
cannot be read, and types that replace others. -/
def plainChanges : List TagChange :=
  [.add { tagName := "note", text := "First.\n\n@!scope class\n  Second." }, .add { tagName := "-x" },
    .upsert "param" (some ["Array<String", ""]) (some "name"), .remove "see" none]

theorem extractDirectives_plainChanges :
    beginsWith "@" (Docstring.parse markedText).text = false ∧
    (∀ change ∈ plainChanges, change.HasTagHead) ∧
    (extractDirectives (addDirectives
      ((extractDirectives markedText).1.changeTags plainChanges).print
        (extractDirectives markedText).2)).2 =
      ["@!macro [new] record\n  Keeps the record.", "@!visibility private"] := by
  have hat : beginsWith "@" (Docstring.parse markedText).text = false := by decide +kernel
  have hchanges : ∀ change ∈ plainChanges, change.HasTagHead := by decide +kernel
  have hread : (extractDirectives markedText).2 =
      ["@!macro [new] record\n  Keeps the record.", "@!visibility private"] := by decide +kernel
  refine ⟨hat, hchanges, ?_⟩
  rw [extractDirectives_changeTags hat hchanges, hread]

end RubyDoc

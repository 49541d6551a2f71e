import RubyDoc.Proofs.Docstring.RoundTrip
import RubyDoc.Proofs.TypeExpr.Legible
import RubyDoc.Proofs.TypeExpr.OneLine
import RubyDoc.Proofs.TypeExpr.Printer

/-!
# Documentation types read back from a docstring

What a node converts to can stand in a type list, so a list of it is split
where it was joined, and a tag that carries it is read back as it was written.
Names are read back if they are not empty: an empty name is not written.
-/

namespace RubyDoc

open RubyDoc.Text

/-- A text without newlines is on one line already. -/
theorem Text.unbreak_of_singleLine {s : String} (h : SingleLine s) : unbreak s = s := by
  have hfrom : ∀ cs : List Char, (∀ c ∈ cs, isLineBreak c = false) → unbreakFrom false cs = cs := by
    intro cs hcs
    induction cs with
    | nil => rfl
    | cons c cs ih =>
      rw [List.forall_mem_cons] at hcs
      have hnewline : (c == '\n') = false := by
        rw [beq_eq_false_iff_ne]
        rintro rfl
        exact absurd hcs.1 (by decide)
      rw [unbreakFrom, Bool.false_and, hnewline, ih hcs.2]
      rfl
  rw [unbreak, hfrom s.toList h, String.ofList_toList]

/-- A single line is the only line of its text. -/
theorem Text.lines_of_singleLine {s : String} (h : SingleLine s) (hne : s ≠ "") :
    lines s = [s] := by
  have hlines : lines (joinLines [s]) = [s] :=
    lines_joinLines (by simpa using h) (by simpa using hne)
  rwa [joinLines_singleton] at hlines

namespace Docstring

/-- A tag in normal form is read back from its own lines. -/
theorem parse_print_tag {t : Tag} (h : t.IsNormal) : parse t.print = { tags := [t] } := by
  have hlines : lines (joinLines ([t].map Tag.print)) =
      [] ++ ([t].map Tag.passage).flatMap Passage.lines :=
    (lines_join_print (by simpa using h.singleLine_passage)).1
  have hproper : ∀ p ∈ [t].map Tag.passage, p.IsProper := by simpa using t.passage_isProper
  have htag := Tag.tag?_block_passage (t := t) (.inr h.tagName)
  have hdirective :=
    Tag.directiveText?_block_passage (t := t) (Tag.beginsWith_bang_tagName (.inr h.tagName))
  have hparse := parse_passages (fun _ hl => absurd hl List.not_mem_nil) hproper hlines
  rw [h.reread] at htag
  rw [List.map_singleton, joinLines_singleton] at hparse
  rw [hparse]
  simp [h.left_passage, htag, hdirective]
  rfl

end Docstring

namespace TypeExpr

open TypeList

/-- The types of a node have no newlines left that could be made spaces. -/
theorem map_unbreak_print_ofNode (n : Node) : (ofNode n).print.map unbreak = (ofNode n).print :=
  (List.map_congr_left fun s hs => unbreak_of_singleLine (singleLine_print_ofNode n s hs)).trans
    (List.map_id _)

/-- What converting a node gives, if it gives something. -/
theorem eq_of_convert_ok {n : Node} {log : Log} {types : List String}
    (h : ((convert n).runWith log).1 = .ok types) : types = (ofNode n).print := by
  rw [convert, map_unbreak_print_ofNode, Reading.runWith_bind] at h
  cases hr : (report (ofNode n).issues).runWith log with
  | mk result log' =>
    rw [hr] at h
    cases result with
    | error fault => cases h
    | ok u => exact (Except.ok.inj h).symm

/-- The documentation types of a node whose texts can be shown can be shown. -/
theorem isShown_of_convert_ok {n : Node} (hn : ∀ s ∈ (ofNode n).texts, IsTypeText s) {log : Log}
    {types : List String} (h : ((convert n).runWith log).1 = .ok types) :
    ∀ t ∈ types, IsShown t := by
  rw [eq_of_convert_ok h]
  exact isShown_print (ofNode n) fun s hs => ⟨hn s hs, isOneLine_ofNode n s hs⟩

section Tags

variable {types : List String} (hty : ∀ t ∈ types, IsShown t) {text : String}
  (hl : SingleLine text) (hs : strip text = text)

include hl hs in
/-- A stripped text on one line is written as it is. -/
theorem isJoined_of_singleLine : IsJoined text ∧ ∀ l ∈ lines text, IsTextLine l := by
  by_cases he : text = ""
  · subst he
    decide
  · rw [IsJoined, lines_of_singleLine hl he, joinLines_singleton]
    exact ⟨rfl, by simpa [IsTextLine] using ⟨he, hs⟩⟩

include hty hl hs

/-- A return tag with types that can be shown and a text on one line is in normal form. -/
theorem isNormal_return : Tag.IsNormal { tagName := "return", text, types := some types } := by
  obtain ⟨hjoined, hlines⟩ := isJoined_of_singleLine hl hs
  have htag : Tag.IsTagName "return" := by decide
  have htyped : Tag.typedTags.contains "return" = true := by decide
  have hunnamed : Tag.namedTypedTags.contains "return" = false := by decide
  refine ⟨htag, hjoined, hlines, fun _ hno => ?_, fun _ => rfl, ?_, by simp, by simp, by simp,
    fun hnamed => ?_⟩
  · rw [htyped] at hno
    cases hno
  · rintro _ ⟨⟩ t ht
    exact (hty t ht).1.isItem (hty t ht).2
  · rw [hunnamed] at hnamed
    cases hnamed

/-- So is a parameter tag with a name. -/
theorem isNormal_param {name : String} (hn : IsWrittenName name) :
    Tag.IsNormal { tagName := "param", text, types := some types, name := some name } := by
  obtain ⟨hjoined, hlines⟩ := isJoined_of_singleLine hl hs
  have htag : Tag.IsTagName "param" := by decide
  have hnamed : Tag.namedTypedTags.contains "param" = true := by decide
  refine ⟨htag, hjoined, hlines, fun hno => ?_, fun hno => ?_, ?_, by simpa using hn, by simp,
    by simp, by simp⟩
  · rw [hnamed] at hno
    cases hno
  · rw [hnamed] at hno
    cases hno
  · rintro _ ⟨⟩ t ht
    exact (hty t ht).1.isItem (hty t ht).2

end Tags

/-- The documentation types of a node are read back: from a list, and from a tag with any
text on one line and any name that is written. A legible node has such types. -/
theorem parse_print_converted (n : Node) (hn : ∀ s ∈ (ofNode n).texts, IsTypeText s) (log : Log) :
    (n.IsLegible → ∃ types, ((convert n).runWith log).1 = .ok types) ∧
    ∀ types, ((convert n).runWith log).1 = .ok types →
      split (listed types) = types ∧
      ∀ text, SingleLine text → strip text = text →
        Docstring.parse (Tag.print { tagName := "return", text, types := some types }) =
          { tags := [{ tagName := "return", text, types := some types }] } ∧
        ∀ name, IsWrittenName name →
          Docstring.parse (Tag.print
            { tagName := "param", text, types := some types, name := some name }) =
            { tags := [{ tagName := "param", text, types := some types, name := some name }] } := by
  refine ⟨fun hlegible => ?_, fun types hok => ?_⟩
  · have hsome : ∀ m ∈ some n, m.IsLegible := by simpa using hlegible
    exact ⟨_, convertOptional_ok hsome log⟩
  have hty := isShown_of_convert_ok hn hok
  refine ⟨split_listed fun t ht => (hty t ht).1.isItem (hty t ht).2, fun text hl hs => ⟨?_, ?_⟩⟩
  · exact Docstring.parse_print_tag (isNormal_return hty hl hs)
  · exact fun name hname => Docstring.parse_print_tag (isNormal_param hty hl hs hname)

/-- The first place of a tuple. -/
def firstPlace : Node := ⟨"constant", true, none, 18, 19, ⟨0, 18⟩, ⟨0, 19⟩, some "A", []⟩

/-- Its second place. -/
def secondPlace : Node := ⟨"constant", true, none, 21, 22, ⟨0, 21⟩, ⟨0, 22⟩, some "B", []⟩

/-- A tuple of two places. -/
def pairOfPlaces : Node :=
  ⟨"array", true, some "value", 17, 23, ⟨0, 17⟩, ⟨0, 23⟩, some "[A, B]", [
    ⟨"[", false, none, 17, 18, ⟨0, 17⟩, ⟨0, 18⟩, some "[", []⟩,
    firstPlace,
    ⟨",", false, none, 19, 20, ⟨0, 19⟩, ⟨0, 20⟩, some ",", []⟩,
    secondPlace,
    ⟨"]", false, none, 22, 23, ⟨0, 22⟩, ⟨0, 23⟩, some "]", []⟩]⟩

/-- A key with that tuple. -/
def keyOfPlaces : Node :=
  ⟨"pair", true, none, 11, 23, ⟨0, 11⟩, ⟨0, 23⟩, some ":k => [A, B]", [
    ⟨"simple_symbol", true, some "key", 11, 13, ⟨0, 11⟩, ⟨0, 13⟩, some ":k", []⟩,
    ⟨"=>", false, none, 14, 16, ⟨0, 14⟩, ⟨0, 16⟩, some "=>", []⟩,
    pairOfPlaces]⟩

/-- A shape with that key. -/
def shapeOfPlaces : Node :=
  ⟨"hash", true, none, 10, 24, ⟨0, 10⟩, ⟨0, 24⟩, some "\x7b:k => [A, B]\x7d", [
    ⟨"\x7b", false, none, 10, 11, ⟨0, 10⟩, ⟨0, 11⟩, some "\x7b", []⟩,
    keyOfPlaces,
    ⟨"\x7d", false, none, 23, 24, ⟨0, 23⟩, ⟨0, 24⟩, some "\x7d", []⟩]⟩

/-- That shape, or nil. -/
def nilableShape : Node :=
  ⟨"call", true, none, 0, 25, ⟨0, 0⟩, ⟨0, 25⟩, some "T.nilable(\x7b:k => [A, B]\x7d)", [
    ⟨"constant", true, some "receiver", 0, 1, ⟨0, 0⟩, ⟨0, 1⟩, some "T", []⟩,
    ⟨".", false, some "operator", 1, 2, ⟨0, 1⟩, ⟨0, 2⟩, some ".", []⟩,
    ⟨"identifier", true, some "method", 2, 9, ⟨0, 2⟩, ⟨0, 9⟩, some "nilable", []⟩,
    ⟨"argument_list", true, some "arguments", 9, 25, ⟨0, 9⟩, ⟨0, 25⟩,
      some "(\x7b:k => [A, B]\x7d)", [
      ⟨"(", false, none, 9, 10, ⟨0, 9⟩, ⟨0, 10⟩, some "(", []⟩,
      shapeOfPlaces,
      ⟨")", false, none, 24, 25, ⟨0, 24⟩, ⟨0, 25⟩, some ")", []⟩]⟩]⟩

/-- The expression of that node, read from the inside. -/
theorem ofNode_nilableShape : ofNode nilableShape = .nilable (.shape (.cons (.reference "Symbol")
    (.tuple [.reference "A", .reference "B"]) .nil)) := by
  have hfirst : ofNode firstPlace = .reference "A" := by
    rw [ofNode, if_pos (by decide)]
    rfl
  have hsecond : ofNode secondPlace = .reference "B" := by
    rw [ofNode, if_pos (by decide)]
    rfl
  have hplaces : ofNode pairOfPlaces = .tuple [.reference "A", .reference "B"] := by
    have hmembers : membersOf pairOfPlaces = [firstPlace, secondPlace] := rfl
    rw [ofNode, if_neg (by decide), if_neg (by decide), if_neg (by decide), if_pos (by decide),
      List.attach_map_val, hmembers, List.map_cons, List.map_singleton, hfirst, hsecond]
  have hshape : ofNode shapeOfPlaces = .shape (.cons (.reference "Symbol")
      (.tuple [.reference "A", .reference "B"]) .nil) := by
    have hpairs : (membersOf shapeOfPlaces).filter Node.isPair = [keyOfPlaces] := rfl
    rw [ofNode, if_neg (by decide), if_neg (by decide), if_neg (by decide), if_neg (by decide),
      if_pos (by decide), hpairs, entriesOf, entriesOf, ← hplaces]
    rfl
  have hreceiver : receiverOf nilableShape = .typeModule (some "nilable") := by cbv
  rw [ofNode, if_neg (by decide), if_pos (by decide), hreceiver, ← hshape]
  rfl

theorem parse_print_converted_nilableShape :
    (∀ s ∈ (ofNode nilableShape).texts, IsTypeText s) ∧ nilableShape.IsLegible ∧
    ((convert nilableShape).runWith []).1 =
      .ok ["Hash\x7bSymbol => Array(A, B)\x7d", "nil"] ∧
    Docstring.parse "@param [Hash\x7bSymbol => Array(A, B)\x7d, nil] sizes [one] or [two]" =
      { tags := [
        { tagName := "param", types := some ["Hash\x7bSymbol => Array(A, B)\x7d", "nil"]
          name := some "sizes", text := "[one] or [two]" }] } := by
  have htexts : ∀ s ∈ (ofNode nilableShape).texts, IsTypeText s := by
    rw [ofNode_nilableShape]
    decide +kernel
  have hok : ((convert nilableShape).runWith []).1 =
      .ok ["Hash\x7bSymbol => Array(A, B)\x7d", "nil"] := by
    rw [convert, ofNode_nilableShape]
    decide +kernel
  have hread := ((parse_print_converted nilableShape htexts []).2 _ hok).2 "[one] or [two]"
    (by decide) (by decide)
  exact ⟨htexts, by decide +kernel, hok, hread.2 "sizes" (by decide)⟩

/-- The empty name holds no blank, but it is not written: the first word of the text is read
for it. -/
theorem not_parse_print_emptyName :
    ¬ ∀ (n : Node) (types : List String) (name text : String),
      (∀ s ∈ (ofNode n).texts, IsTypeText s) → ((convert n).runWith []).1 = .ok types →
      (∀ c ∈ name.toList, isBlank c = false) → SingleLine text → strip text = text →
      Docstring.parse (Tag.print
        { tagName := "param", text, types := some types, name := some name }) =
        { tags := [{ tagName := "param", text, types := some types, name := some name }] } := by
  intro hall
  have hnode : ofNode firstPlace = .reference "A" := by
    rw [ofNode, if_pos (by decide)]
    rfl
  have hok : ((convert firstPlace).runWith []).1 = .ok ["A"] := by
    rw [convert, hnode]
    decide +kernel
  have hread := hall firstPlace ["A"] "" "the value" (by rw [hnode]; decide) hok (by simp)
    (by decide) (by decide)
  exact absurd hread (by decide +kernel)

end TypeExpr

end RubyDoc

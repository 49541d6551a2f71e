import Mathlib.Data.List.Basic
import RubyDoc.Proofs.Docstring.Passage
import RubyDoc.Proofs.Docstring.TypeList
import RubyDoc.Proofs.Text.Word

/-!
# Written tags and how they are read

A written tag is a passage: its first line holds the tag name, the type list,
the parameter name and the first line of text, and its other lines the rest of
the text. This module says what reading makes of such a passage, part by part.
The texts are arbitrary here; only names and type lists have to be readable.
-/

namespace RubyDoc

open RubyDoc.Text

namespace Tag

/-- A word that can stand behind the at sign of a tag: a letter or underscore
and then word characters. -/
def IsTagName (s : String) : Prop :=
  s.toList.head?.any isNameStart = true ∧ s.toList.all isWord = true

instance (s : String) : Decidable (IsTagName s) :=
  inferInstanceAs (Decidable (_ ∧ _))

/-- The character list of a tag name, its first character apart. -/
theorem IsTagName.toList_eq {s : String} (h : IsTagName s) :
    ∃ c cs, s.toList = c :: cs ∧ isNameStart c = true ∧ ∀ d ∈ c :: cs, isWord d = true := by
  obtain ⟨hh, ha⟩ := h
  cases hs : s.toList with
  | nil => simp [hs] at hh
  | cons c cs =>
    rw [hs] at hh ha
    exact ⟨c, cs, rfl, by simpa using hh, List.all_eq_true.mp ha⟩

/-! ### The passage of a tag -/

/-- The lines of the text of a tag as they are written. -/
def textLines (t : Tag) : List String := lines (strip t.text)

/-- The first line of the text of a tag; empty if there is none. -/
def firstText (t : Tag) : String := t.textLines.head?.getD ""

/-- A tag as it is written. -/
def passage (t : Tag) : Passage :=
  { head := String.intercalate " " (t.headParts t.textLines)
    more := (t.textLines.drop 1).map ("  " ++ ·) }

theorem printLines_eq (t : Tag) : t.printLines = t.passage.lines := by
  rw [printLines, Passage.lines, passage, textLines]

theorem more_passage (t : Tag) : t.passage.more = (t.textLines.drop 1).map ("  " ++ ·) := by
  rw [passage]

/-- The type list on the first line of a tag. -/
def typesPart (t : Tag) : List Char :=
  match t.types with
  | some types => ' ' :: '[' :: ((String.intercalate ", " types).toList ++ [']'])
  | none => []

/-- The parameter name on the first line of a tag. -/
def namePart (t : Tag) : List Char :=
  match t.name with
  | some name => if name == "" then [] else ' ' :: name.toList
  | none => []

/-- The text on the first line of a tag. -/
def textPart (t : Tag) : List Char := (t.textLines.take 1).flatMap fun l => ' ' :: l.toList

/-- The text on a first line begins with a space. -/
theorem head?_textPart (t : Tag) : ∀ c ∈ t.textPart.head?, c = ' ' := by
  intro c hc
  unfold textPart at hc
  cases ht : t.textLines with
  | nil => simp [ht] at hc
  | cons l ls =>
    simp [ht] at hc
    exact hc.symm

/-- Parts are written with a space in front of all but the first. -/
theorem toList_intercalate_space (a : String) (parts : List String) :
    (String.intercalate " " (a :: parts)).toList =
      a.toList ++ parts.flatMap fun p => ' ' :: p.toList := by
  induction parts generalizing a with
  | nil => simp
  | cons b parts ih =>
    rw [String.intercalate_cons_cons, List.flatMap_cons, String.toList_append,
      String.toList_append, ih]
    simp

/-- The first line of a tag, part by part. -/
theorem toList_head (t : Tag) : t.passage.head.toList =
    '@' :: (t.tagName.toList ++ (t.typesPart ++ (t.namePart ++ t.textPart))) := by
  have hat : ("@" ++ t.tagName).toList = '@' :: t.tagName.toList := by
    rw [String.toList_append]
    rfl
  rw [passage, headParts, List.append_assoc, List.append_assoc, List.singleton_append,
    toList_intercalate_space, hat, List.flatMap_append, List.flatMap_append, typesPart, namePart,
    textPart, List.cons_append]
  congr 3
  · cases t.types with
    | none => rfl
    | some types =>
      dsimp only
      rw [List.flatMap_singleton, String.toList_append, String.toList_append]
      rfl
  · congr 1
    cases t.name with
    | none => rfl
    | some name =>
      dsimp only
      split
      · rfl
      · rw [List.flatMap_singleton]

/-- What stands behind the name of a written tag. -/
def restText (t : Tag) : String :=
  String.ofList (trim (t.typesPart ++ (t.namePart ++ t.textPart)))

/-- A space stands behind the name of a written tag, unless nothing does. -/
theorem head?_rest (t : Tag) :
    ∀ c ∈ (t.typesPart ++ (t.namePart ++ t.textPart)).head?, isBlank c = true := by
  have hspace : ∀ cs : List Char, ∀ c ∈ (' ' :: cs).head?, isBlank c = true := by
    intro cs c hc
    rw [List.head?_cons, Option.mem_some_iff] at hc
    rw [← hc]
    exact isBlank_space
  have htext : ∀ c ∈ t.textPart.head?, isBlank c = true := by
    intro c hc
    rw [head?_textPart t c hc]
    exact isBlank_space
  have hname : ∀ c ∈ (t.namePart ++ t.textPart).head?, isBlank c = true := by
    unfold namePart
    cases t.name with
    | none => rwa [List.nil_append]
    | some name =>
      dsimp only
      split
      · rwa [List.nil_append]
      · exact hspace _
  unfold typesPart
  cases t.types with
  | none => rwa [List.nil_append]
  | some types => exact hspace _

/-- A written tag opens one block. -/
theorem passage_isProper (t : Tag) : t.passage.IsProper := by
  constructor
  · rw [beginsWith, toList_head]
    rfl
  · intro l hl
    rw [more_passage] at hl
    obtain ⟨k, -, hk⟩ := List.mem_map.mp hl
    rw [← hk, beginsWith, String.toList_append]
    rfl

/-- No written line is empty. -/
theorem ne_empty_of_mem_passage (t : Tag) : ∀ l ∈ t.passage.lines, l ≠ "" := by
  intro l hl he
  rw [Passage.lines] at hl
  rcases List.mem_cons.mp hl with hl | hl
  · have hc := toList_head t
    rw [← hl, he] at hc
    exact absurd hc (by simp)
  · rw [more_passage] at hl
    obtain ⟨k, -, hk⟩ := List.mem_map.mp hl
    rw [he] at hk
    have hc := congrArg String.toList hk
    rw [String.toList_append] at hc
    exact absurd hc (by simp)

/-- A readable tag name has no line break. -/
theorem IsTagName.singleLine {s : String} (h : IsTagName s) : SingleLine s := fun c hc =>
  isLineBreak_eq_false (isBlank_of_isWord (List.all_eq_true.mp h.2 c hc))

/-- A tag whose name, types and parameter name have no line breaks is written
as lines. -/
theorem singleLine_passage {t : Tag} (h : SingleLine t.tagName)
    (hty : ∀ types ∈ t.types, ∀ ty ∈ types, SingleLine ty) (hna : ∀ name ∈ t.name, SingleLine name) :
    ∀ l ∈ t.passage.lines, SingleLine l := by
  have htext : ∀ l ∈ t.textLines, SingleLine l := fun l hl => singleLine_of_mem_lines hl
  have hparts : ∀ p ∈ t.headParts t.textLines, SingleLine p := by
    intro p hp
    rw [headParts, List.mem_append, List.mem_append, List.mem_append] at hp
    rcases hp with ((hp | hp) | hp) | hp
    · rw [List.mem_singleton.mp hp]
      exact SingleLine.append (by decide) h
    · cases ht : t.types with
      | none =>
        rw [ht] at hp
        cases hp
      | some types =>
        rw [ht] at hp
        rw [List.mem_singleton.mp hp]
        have hi : SingleLine (String.intercalate ", " types) :=
          SingleLine.intercalate (by decide) (hty types ht)
        exact (SingleLine.append (by decide) hi).append (by decide)
    · cases hn : t.name with
      | none =>
        rw [hn] at hp
        cases hp
      | some name =>
        rw [hn] at hp
        dsimp only at hp
        split at hp
        · cases hp
        · rw [List.mem_singleton.mp hp]
          exact hna name hn
    · exact htext p (List.mem_of_mem_take hp)
  intro l hl
  rw [Passage.lines] at hl
  rcases List.mem_cons.mp hl with rfl | hl
  · exact SingleLine.intercalate (by decide) hparts
  · rw [more_passage] at hl
    obtain ⟨k, hk, rfl⟩ := List.mem_map.mp hl
    exact SingleLine.append (by decide) (htext k (List.mem_of_mem_drop hk))

/-- A readable tag name begins with no exclamation mark, and neither does an empty one. -/
theorem beginsWith_bang_tagName {name : String} (h : name = "" ∨ IsTagName name) :
    beginsWith "!" name = false := by
  rcases h with rfl | h
  · rfl
  · obtain ⟨c, cs, hs, hc, -⟩ := h.toList_eq
    rw [beginsWith_mark rfl, hs, List.head?_cons, Option.some_beq_some, beq_eq_false_iff_ne]
    rintro rfl
    exact absurd hc (by decide)

/-- A tag is written as no directive if its name begins with no exclamation mark. -/
theorem beginsWith_directive_head {t : Tag} (h : beginsWith "!" t.tagName = false) :
    beginsWith "@!" t.passage.head = false := by
  have hsecond : ∀ c ∈ (t.tagName.toList ++ (t.typesPart ++ (t.namePart ++ t.textPart))).head?,
      ('!' == c) = false := by
    intro c hc
    rw [beq_eq_false_iff_ne]
    rintro rfl
    rw [beginsWith_mark rfl] at h
    cases hs : t.tagName.toList with
    | nil =>
      rw [hs, List.nil_append] at hc
      exact absurd (t.head?_rest '!' hc) (by decide)
    | cons d ds =>
      rw [hs, List.cons_append, List.head?_cons, Option.mem_some_iff] at hc
      rw [hs, hc] at h
      cases h
  rw [beginsWith, toList_head]
  cases hcs : t.tagName.toList ++ (t.typesPart ++ (t.namePart ++ t.textPart)) with
  | nil => rfl
  | cons c cs =>
    rw [hcs] at hsecond
    show ('@' == '@' && ('!' == c && List.isPrefixOf [] cs)) = false
    rw [hsecond c rfl]
    rfl

/-- The tag that is read of a written one. -/
def reread (t : Tag) : Tag := ofBlock (stripEnd t.passage.head) t.passage.continued

/-- The block that a written tag opens. -/
theorem block_passage {t : Tag} (h : t.tagName = "" ∨ IsTagName t.tagName) :
    t.passage.block = .tag (stripEnd t.passage.head) t.passage.continued := by
  rw [Passage.block, if_neg (by simp [beginsWith_directive_head (beginsWith_bang_tagName h)])]

theorem tag?_block_passage {t : Tag} (h : t.tagName = "" ∨ IsTagName t.tagName) :
    t.passage.block.tag? = some t.reread := by
  rw [block_passage h, Block.tag?, reread]

/-- A written tag is read as no directive. -/
theorem directiveText?_block_passage {t : Tag} (h : beginsWith "!" t.tagName = false) :
    t.passage.block.directiveText? = none := by
  rw [Passage.block, if_neg (by simp [beginsWith_directive_head h])]
  rfl

/-! ### Reading the first line -/

/-- The tag name ends at the first blank. -/
theorem splitHead?_stripEnd {name head : String} {tail : List Char} (hn : IsTagName name)
    (ht : ∀ c ∈ tail.head?, isBlank c = true)
    (hh : head.toList = '@' :: (name.toList ++ tail)) :
    splitHead? (stripEnd head) = some (name, String.ofList (trim tail)) := by
  obtain ⟨c, cs, hs, hc, hw⟩ := hn.toList_eq
  have hlast : ∀ d ∈ ('@' :: c :: cs).getLast?, isBlank d = false := by
    intro d hd
    rw [List.getLast?_cons_cons] at hd
    exact isBlank_of_isWord (hw d (List.mem_of_getLast? hd))
  have hend : (stripEnd head).toList = '@' :: c :: (cs ++ trimEnd tail) := by
    rw [toList_stripEnd, hh, hs]
    exact trimEnd_append hlast tail
  have hcs : ∀ d ∈ cs, isWord d = true := fun d hd => hw d (List.mem_cons_of_mem _ hd)
  have hstop : (trimEnd tail).dropWhile isWord = trimEnd tail ∧
      (trimEnd tail).takeWhile isWord = [] ∧ (trimEnd tail).head?.all isBlank = true := by
    cases he : trimEnd tail with
    | nil => exact ⟨rfl, rfl, rfl⟩
    | cons d ds =>
      have hd : isBlank d = true := ht d (head?_trimEnd (by rw [he]; rfl))
      have hdw : ¬ isWord d = true := by simp [isWord_of_isBlank hd]
      exact ⟨List.dropWhile_cons_of_neg hdw, List.takeWhile_cons_of_neg hdw, by simpa using hd⟩
  have hdrop : (cs ++ trimEnd tail).dropWhile isWord = trimEnd tail := by
    rw [List.dropWhile_append_of_pos hcs, hstop.1]
  have htake : (cs ++ trimEnd tail).takeWhile isWord = cs := by
    rw [List.takeWhile_append_of_pos hcs, hstop.2.1, List.append_nil]
  rw [splitHead?, hend]
  simp only [hc, if_true, hdrop, htake, hstop.2.2, trim_trimEnd]
  rw [← hs, String.ofList_toList]

/-- The name of a written tag is read. -/
theorem splitHead?_passage {t : Tag} (h : IsTagName t.tagName) :
    splitHead? (stripEnd t.passage.head) = some (t.tagName, t.restText) :=
  splitHead?_stripEnd h t.head?_rest t.toList_head

/-- The type list, name and text of a tag line, by the tag name and what stands
behind it. -/
def readParts (tagName rest : String) : Option (List String) × Option String × String :=
  if namedTypedTags.contains tagName then readNamed rest
  else if typedTags.contains tagName then
    ((TypeList.splitOff rest).1, none, (TypeList.splitOff rest).2)
  else (none, none, rest)

/-- The block of a tag with a readable name is read part by part. -/
theorem ofBlock_eq {head tagName rest : String} (h : splitHead? head = some (tagName, rest))
    (more : List String) :
    ofBlock head more =
      { tagName
        types := (readParts tagName rest).1
        name := (readParts tagName rest).2.1
        text := joinLines (((readParts tagName rest).2.2 :: more.map strip).filter (· != "")) } := by
  rw [ofBlock, h]
  rfl

/-- A word without spaces is cut off at the space behind it. -/
theorem cutAtSpace_word {name ys : List Char} (hn : ∀ c ∈ name, c ≠ ' ')
    (hy : ∀ c ∈ ys.head?, c = ' ') :
    cutAtSpace (String.ofList (name ++ ys)) = (String.ofList name, String.ofList (ys.drop 1)) := by
  have hn' : ∀ c ∈ name, (c != ' ') = true := fun c hc => by simpa using hn c hc
  have hstop : ys.takeWhile (· != ' ') = [] ∧ ys.dropWhile (· != ' ') = ys := by
    cases ys with
    | nil => exact ⟨rfl, rfl⟩
    | cons y ys =>
      have hs : ¬ (y != ' ') = true := by simp [hy y rfl]
      exact ⟨List.takeWhile_cons_of_neg hs, List.dropWhile_cons_of_neg hs⟩
  rw [cutAtSpace, String.toList_ofList, List.takeWhile_append_of_pos hn',
    List.dropWhile_append_of_pos hn', hstop.1, hstop.2, List.append_nil]

/-- The text on a first line, trimmed. -/
theorem trim_textPart (t : Tag) : String.ofList (trim t.textPart) = strip t.firstText := by
  unfold textPart firstText
  cases t.textLines with
  | nil => rfl
  | cons l ls => simp [trim_space_cons, strip]

/-- Trimming the text behind its space is trimming the text. -/
theorem trim_drop_trimEnd_textPart (t : Tag) :
    trim ((trimEnd t.textPart).drop 1) = trim t.textPart := by
  unfold textPart
  cases t.textLines with
  | nil => rfl
  | cons l ls =>
    simp only [List.take_succ_cons, List.take_zero, List.flatMap_cons, List.flatMap_nil,
      List.append_nil, trim_space_cons]
    by_cases he : trimEnd l.toList = []
    · have hb : trim l.toList = [] := by rw [← trim_trimEnd, he]; rfl
      have hs : trim (trimEnd (' ' :: l.toList)) = [] := by rw [trim_trimEnd, trim_space_cons, hb]
      have hn : trimEnd (' ' :: l.toList) = [] := by
        have hh := trimStart_trimEnd (' ' :: l.toList)
        have ht : trimStart (' ' :: l.toList) = trimStart l.toList :=
          List.dropWhile_cons_of_pos isBlank_space
        refine trimEnd_of_blank ?_
        intro c hc
        rcases List.mem_cons.mp hc with rfl | hc
        · exact isBlank_space
        · rw [trimEnd, List.reverse_eq_nil_iff, List.dropWhile_eq_nil_iff] at he
          exact he c (List.mem_reverse.mpr hc)
      rw [hn, hb]
      rfl
    · have ha := trimEnd_append_of_ne_nil he [' ']
      rw [List.singleton_append, List.singleton_append] at ha
      rw [ha, List.drop_one, List.tail_cons, trim_trimEnd]

/-- A name and a text behind it are told apart at the space. -/
theorem cutAtSpace_name_text (t : Tag) {name : String} (hne : name ≠ "")
    (hb : ∀ c ∈ name.toList, isBlank c = false) :
    ∃ after, cutAtSpace (String.ofList (trim (name.toList ++ t.textPart))) = (name, after) ∧
      strip after = strip t.firstText := by
  have hlist : name.toList ≠ [] := fun he => hne (String.toList_eq_nil_iff.mp he)
  have htrim : trim (name.toList ++ t.textPart) = name.toList ++ trimEnd t.textPart :=
    trim_append hlist (fun c hc => hb c (List.mem_of_head? hc))
      (fun c hc => hb c (List.mem_of_getLast? hc)) _
  have hsp : ∀ c ∈ name.toList, c ≠ ' ' := by
    rintro c hc rfl
    exact absurd (hb ' ' hc) (by decide)
  refine ⟨String.ofList ((trimEnd t.textPart).drop 1), ?_, ?_⟩
  · rw [htrim, cutAtSpace_word hsp fun c hc => head?_textPart t c (head?_trimEnd hc),
      String.ofList_toList]
  · rw [strip, String.toList_ofList, trim_drop_trimEnd_textPart, trim_textPart]

/-- A first line without types and name holds the text alone. -/
theorem restText_text {t : Tag} (hty : t.types = none) (hna : t.name = none) :
    t.restText = strip t.firstText := by
  rw [restText, typesPart, namePart, hty, hna, List.nil_append, List.nil_append, trim_textPart]

/-- A first line with types begins with their bracket. -/
theorem toList_restText_types {t : Tag} {types : List String} (hty : t.types = some types) :
    t.restText.toList = '[' :: ((String.intercalate ", " types).toList ++
      ']' :: trimEnd (t.namePart ++ t.textPart)) := by
  have hhead : ∀ c ∈ ('[' :: ((String.intercalate ", " types).toList ++ [']'])).head?,
      isBlank c = false := by
    simp
    decide
  have hlast : ∀ c ∈ ('[' :: ((String.intercalate ", " types).toList ++ [']'])).getLast?,
      isBlank c = false := by
    simp [List.getLast?_cons]
    decide
  have ha := trim_append (by simp) hhead hlast (t.namePart ++ t.textPart)
  rw [restText, typesPart, hty, String.toList_ofList]
  simp only [List.cons_append, trim_space_cons]
  simpa using ha

/-- A list of balanced types is taken off the first line. -/
theorem splitOff_restText {t : Tag} {types : List String} (hty : t.types = some types)
    (hbal : ∀ ty ∈ types, TypeList.Balanced ty) :
    TypeList.splitOff t.restText = (some (TypeList.split (String.intercalate ", " types)),
      String.ofList (trim (t.namePart ++ t.textPart))) := by
  rw [TypeList.splitOff_bracketed hbal (toList_restText_types hty), trim_trimEnd]

/-- The written name is no empty text. -/
theorem namePart_of_name {t : Tag} {name : String} (hna : t.name = some name) (hne : name ≠ "") :
    t.namePart = ' ' :: name.toList := by
  rw [namePart, hna]
  exact if_neg (by simpa using hne)

/-- A text that has a name in front is not empty. -/
theorem name_append_ne_empty {name : String} (hne : name ≠ "")
    (hb : ∀ c ∈ name.toList, isBlank c = false) (cs : List Char) :
    String.ofList (trim (name.toList ++ cs)) ≠ "" := by
  have hlist : name.toList ≠ [] := fun he => hne (String.toList_eq_nil_iff.mp he)
  have htrim := trim_append hlist (fun c hc => hb c (List.mem_of_head? hc))
    (fun c hc => hb c (List.mem_of_getLast? hc)) cs
  intro he
  have hnil := congrArg String.toList he
  rw [String.toList_ofList, htrim] at hnil
  exact hlist (List.append_eq_nil_iff.mp hnil).1

/-! ### What is read of each shape of tag -/

/-- A tag outside the typed sets has its text read. -/
theorem readParts_untyped {t : Tag} (hn : namedTypedTags.contains t.tagName = false)
    (hs : typedTags.contains t.tagName = false) (hty : t.types = none) (hna : t.name = none) :
    readParts t.tagName t.restText = (none, none, strip t.firstText) := by
  rw [readParts, if_neg (Bool.eq_false_iff.mp hn), if_neg (Bool.eq_false_iff.mp hs),
    restText_text hty hna]

/-- A tag with a type list alone has it and its text read. -/
theorem readParts_types {t : Tag} {types : List String}
    (hn : namedTypedTags.contains t.tagName = false) (hs : typedTags.contains t.tagName = true)
    (hty : t.types = some types) (hbal : ∀ ty ∈ types, TypeList.Balanced ty)
    (hna : t.name = none) :
    readParts t.tagName t.restText =
      (some (TypeList.split (String.intercalate ", " types)), none, strip t.firstText) := by
  rw [readParts, if_neg (Bool.eq_false_iff.mp hn), if_pos hs, splitOff_restText hty hbal, namePart, hna,
    List.nil_append, trim_textPart]

/-- A tag that could have a type list and has none may have a text without a
bracket in front. -/
theorem readParts_no_types {t : Tag} (hn : namedTypedTags.contains t.tagName = false)
    (hs : typedTags.contains t.tagName = true) (hty : t.types = none) (hna : t.name = none)
    (hbr : beginsWith "[" (strip t.firstText) = false) :
    readParts t.tagName t.restText = (none, none, strip t.firstText) := by
  rw [readParts, if_neg (Bool.eq_false_iff.mp hn), if_pos hs, restText_text hty hna,
    TypeList.splitOff_of_no_bracket hbr]

/-- A tag with a type list and a name has both read, and its text. -/
theorem readParts_types_name {t : Tag} {types : List String} {name : String}
    (hn : namedTypedTags.contains t.tagName = true) (hty : t.types = some types)
    (hbal : ∀ ty ∈ types, TypeList.Balanced ty) (hna : t.name = some name) (hne : name ≠ "")
    (hb : ∀ c ∈ name.toList, isBlank c = false) :
    readParts t.tagName t.restText =
      (some (TypeList.split (String.intercalate ", " types)), some name, strip t.firstText) := by
  obtain ⟨after, hcut, hafter⟩ := cutAtSpace_name_text t hne hb
  have hrest : trim (t.namePart ++ t.textPart) = trim (name.toList ++ t.textPart) := by
    rw [namePart_of_name hna hne, List.cons_append, trim_space_cons]
  have hbr : beginsWith "[" t.restText = true := by
    rw [beginsWith, toList_restText_types hty]
    rfl
  rw [readParts, if_pos hn, readNamed, if_neg (by simp [hbr]), splitOff_restText hty hbal, hrest]
  dsimp only
  rw [if_neg (by simpa using name_append_ne_empty hne hb t.textPart), hcut]
  dsimp only
  rw [hafter]

/-- A tag with a type list alone that could have a name has no text read. -/
theorem readParts_types_bare {t : Tag} {types : List String}
    (hn : namedTypedTags.contains t.tagName = true) (hty : t.types = some types)
    (hbal : ∀ ty ∈ types, TypeList.Balanced ty) (hna : t.name = none) (htext : t.text = "") :
    readParts t.tagName t.restText =
      (some (TypeList.split (String.intercalate ", " types)), none, "") := by
  have hpart : trim (t.namePart ++ t.textPart) = [] := by
    rw [namePart, textPart, textLines, hna, htext]
    rfl
  have hbr : beginsWith "[" t.restText = true := by
    rw [beginsWith, toList_restText_types hty]
    rfl
  rw [readParts, if_pos hn, readNamed, if_neg (by simp [hbr]), splitOff_restText hty hbal, hpart]
  rfl

/-- A tag with a name and no type list has its name read, and a text that could
be no type list. -/
theorem readParts_name {t : Tag} {name : String}
    (hn : namedTypedTags.contains t.tagName = true) (hty : t.types = none)
    (hna : t.name = some name) (hne : name ≠ "") (hb : ∀ c ∈ name.toList, isBlank c = false)
    (hbr : beginsWith "[" name = false) (htext : beginsWith "[" (strip t.firstText) = false) :
    readParts t.tagName t.restText = (none, some name, strip t.firstText) := by
  obtain ⟨after, hcut, hafter⟩ := cutAtSpace_name_text t hne hb
  have hrest : t.restText = String.ofList (trim (name.toList ++ t.textPart)) := by
    rw [restText, typesPart, hty, namePart_of_name hna hne, List.nil_append, List.cons_append,
      trim_space_cons]
  have hlist : name.toList ≠ [] := fun he => hne (String.toList_eq_nil_iff.mp he)
  have hhead : beginsWith "[" t.restText = false := by
    have htrim := trim_append hlist (fun c hc => hb c (List.mem_of_head? hc))
      (fun c hc => hb c (List.mem_of_getLast? hc)) t.textPart
    rw [beginsWith_mark rfl] at hbr ⊢
    rw [hrest, String.toList_ofList, htrim]
    cases hl : name.toList with
    | nil => exact absurd hl hlist
    | cons c cs =>
      rw [hl, List.head?_cons] at hbr
      rwa [List.cons_append, List.head?_cons]
  have hrestne : t.restText ≠ "" := by
    rw [hrest]
    exact name_append_ne_empty hne hb t.textPart
  rw [readParts, if_pos hn, readNamed, if_pos (by simp [hhead, hrestne]), hrest, hcut]
  dsimp only
  rw [hafter, TypeList.splitOff_of_no_bracket htext]

/-- A tag that is only a tag name is read as one. -/
theorem readParts_bare {t : Tag} (hn : namedTypedTags.contains t.tagName = true)
    (hty : t.types = none) (hna : t.name = none) (htext : t.text = "") :
    readParts t.tagName t.restText = (none, none, "") := by
  have hrest : t.restText = "" := by
    rw [restText, typesPart, namePart, textPart, textLines, hty, hna, htext]
    rfl
  rw [readParts, if_pos hn, hrest]
  rfl

/-- Tags that differ in nothing but their texts and are written alike have texts of
the same lines. -/
theorem textLines_eq_of_passage_eq {t u : Tag} (h : t.passage = u.passage)
    (hn : t.tagName = u.tagName) (hty : t.types = u.types) (hna : t.name = u.name) :
    t.textLines = u.textLines := by
  have hhead := toList_head t
  rw [h, toList_head, List.cons.injEq] at hhead
  have htext := hhead.2
  rw [typesPart, typesPart, namePart, namePart, hn, hty, hna] at htext
  have htext := List.append_cancel_left (List.append_cancel_left (List.append_cancel_left htext))
  have hfirst : u.textLines.take 1 = t.textLines.take 1 := by
    rw [textPart, textPart] at htext
    cases hu : u.textLines with
    | nil =>
      rw [hu] at htext
      cases ht : t.textLines with
      | nil => rfl
      | cons l ls =>
        rw [ht] at htext
        cases htext
    | cons k ks =>
      rw [hu] at htext
      cases ht : t.textLines with
      | nil =>
        rw [ht] at htext
        cases htext
      | cons l ls =>
        rw [ht] at htext
        simp only [List.take_succ_cons, List.take_zero, List.flatMap_cons, List.flatMap_nil,
          List.append_nil, List.cons.injEq, true_and, String.toList_inj] at htext
        rw [htext]
        rfl
  have hmore := more_passage t
  rw [h, more_passage] at hmore
  have hindent : Function.Injective (fun l : String => "  " ++ l) := by
    intro a b hab
    have hl := congrArg String.toList hab
    simp only [String.toList_append] at hl
    exact String.toList_inj.mp (List.append_cancel_left hl)
  have hrest := List.map_injective_iff.mpr hindent hmore
  rw [← List.take_append_drop 1 t.textLines, ← List.take_append_drop 1 u.textLines, hfirst, hrest]

/-- The text that is read of a written tag: the lines of its passage without the
blanks around them, up to the first blank one. -/
def readText (t : Tag) : String :=
  joinLines ((strip t.firstText :: t.passage.continued.map strip).filter (· != ""))

/-- What is read of a written tag with a readable name. -/
theorem reread_eq {t : Tag} (h : IsTagName t.tagName) {types : Option (List String)}
    {name : Option String} (hp : readParts t.tagName t.restText = (types, name, strip t.firstText)) :
    t.reread = { tagName := t.tagName, types, name, text := t.readText } := by
  rw [reread, ofBlock_eq (splitHead?_passage h), hp, readText]

/-- A line whose at sign stands before a blank or at its end has no tag name. -/
theorem splitHead?_passage_of_empty {t : Tag} (h : t.tagName = "") :
    splitHead? (stripEnd t.passage.head) = none := by
  have hat : ∀ c ∈ ['@'].getLast?, isBlank c = false := by
    rintro c ⟨⟩
    decide
  have hend : (stripEnd t.passage.head).toList =
      '@' :: trimEnd (t.typesPart ++ (t.namePart ++ t.textPart)) := by
    rw [toList_stripEnd, toList_head, h]
    exact trimEnd_append hat _
  rw [splitHead?, hend]
  cases he : trimEnd (t.typesPart ++ (t.namePart ++ t.textPart)) with
  | nil => rfl
  | cons c cs =>
    have hc := t.head?_rest c (head?_trimEnd (by rw [he]; rfl))
    have hn : isNameStart c = false := by
      rw [Bool.eq_false_iff]
      intro hs
      have hw := isWord_of_isNameStart c hs
      rw [isWord_of_isBlank hc] at hw
      cases hw
    exact if_neg (by rw [hn]; decide)

/-- A written tag keeps its name, or has none as before. -/
theorem tagName_reread {t : Tag} (h : t.tagName = "" ∨ IsTagName t.tagName) :
    t.reread.tagName = t.tagName := by
  rcases h with h | h
  · rw [reread, ofBlock, splitHead?_passage_of_empty h, h]
  · rw [reread, ofBlock_eq (splitHead?_passage h)]

end Tag

end RubyDoc

import Mathlib.Data.List.Induction
import RubyDoc.Proofs.Docstring.NormalForm

/-!
# What a docstring that was read can hold

Not every docstring comes from a text. This module says what reading makes sure
of: the prose has no blanks at its ends or at the ends of its lines and only
its first line can look like a tag, the parts of a tag are on one line, its text
has no blank lines, and a directive is the lines of one block.
-/

namespace RubyDoc

open RubyDoc.Text

/-- A line as a block keeps it: without a line break, and without blanks at its end. -/
def IsKeptLine (l : String) : Prop := SingleLine l ∧ stripEnd l = l

/-- The first line of a block. -/
def IsOpeningLine (l : String) : Prop := IsKeptLine l ∧ beginsWith "@" l = true

/-- A further line of a block. -/
def IsFurtherLine (l : String) : Prop := IsKeptLine l ∧ isContinuation l = true

/-- What the lines of a block are like. -/
def Block.IsSound : Block → Prop
  | prose line => IsKeptLine line ∧ beginsWith "@" line = false
  | tag head more =>
    IsOpeningLine head ∧ beginsWith "@!" head = false ∧ ∀ l ∈ more, IsFurtherLine l
  | directive head more =>
    IsOpeningLine head ∧ beginsWith "@!" head = true ∧ ∀ l ∈ more, IsFurtherLine l

/-! ### Lines of blocks -/

/-- A single line is kept without the blanks at its end. -/
theorem isKeptLine_stripEnd {l : String} (h : SingleLine l) : IsKeptLine (stripEnd l) :=
  ⟨h.stripEnd, stripEnd_stripEnd l⟩

/-- What a text begins with without its end, it begins with. -/
theorem beginsWith_of_stripEnd {start l : String} (h : beginsWith start (stripEnd l) = true) :
    beginsWith start l = true := by
  rw [beginsWith, List.isPrefixOf_iff_prefix] at h ⊢
  rw [toList_stripEnd] at h
  exact h.trans (trimEnd_isPrefix _)

/-- A beginning that ends in no blank is kept. -/
theorem beginsWith_stripEnd {start l : String}
    (hs : ∀ c ∈ start.toList.getLast?, isBlank c = false) (h : beginsWith start l = true) :
    beginsWith start (stripEnd l) = true := by
  rw [beginsWith, List.isPrefixOf_iff_prefix] at h ⊢
  obtain ⟨rest, hr⟩ := h
  rw [toList_stripEnd, ← hr, trimEnd_append hs]
  exact ⟨_, rfl⟩

/-- A beginning that ends in no blank tells lines apart before trimming and after. -/
theorem beginsWith_stripEnd_eq {start : String}
    (hs : ∀ c ∈ start.toList.getLast?, isBlank c = false) (l : String) :
    beginsWith start (stripEnd l) = beginsWith start l := by
  cases h : beginsWith start l with
  | true => exact beginsWith_stripEnd hs h
  | false =>
    rw [Bool.eq_false_iff]
    intro ht
    rw [beginsWith_of_stripEnd ht] at h
    cases h

/-- A line that continues a block does so without the blanks at its end. -/
theorem isContinuation_stripEnd {l : String} (h : isContinuation l = true) :
    isContinuation (stripEnd l) = true := by
  cases hl : l.toList with
  | nil => simp [isContinuation, hl] at h
  | cons c cs =>
    rw [isContinuation, hl, Bool.and_eq_true] at h
    obtain ⟨hc, hb⟩ := h
    have hne : trimEnd (c :: cs) ≠ [] := by
      intro he
      rw [trimEnd, List.reverse_eq_nil_iff, List.dropWhile_eq_nil_iff] at he
      have hall : isBlankText l = true := by
        rw [isBlankText, hl, List.all_eq_true]
        exact fun d hd => he d (List.mem_reverse.mpr hd)
      rw [hall] at hb
      cases hb
    obtain ⟨d, ds, hd⟩ := List.exists_cons_of_ne_nil hne
    have hhead : (c :: cs).head? = some d := head?_trimEnd (by rw [hd]; rfl)
    rw [List.head?_cons, Option.some.injEq] at hhead
    have hlast := getLast?_trimEnd (c :: cs)
    rw [isContinuation, toList_stripEnd, hl, hd, ← hhead]
    dsimp only
    rw [hc, isBlankText, toList_stripEnd, hl, Bool.true_and, Bool.not_eq_true', Bool.eq_false_iff]
    intro hall
    have hmem := List.getLast_mem hne
    have hnot := hlast _ (List.getLast?_eq_some_getLast hne)
    rw [List.all_eq_true.mp hall _ hmem] at hnot
    cases hnot

/-- The blocks of single lines are sound. -/
theorem Block.isSound_ofLines {ls : List String} (h : ∀ l ∈ ls, SingleLine l) :
    ∀ b ∈ Block.ofLines ls, b.IsSound := by
  have hat : ∀ c ∈ "@".toList.getLast?, isBlank c = false := by
    have hlast : "@".toList.getLast? = some '@' := by decide
    rw [hlast]
    rintro c ⟨⟩
    decide
  have hbang : ∀ c ∈ "@!".toList.getLast?, isBlank c = false := by
    have hlast : "@!".toList.getLast? = some '!' := by decide
    rw [hlast]
    rintro c ⟨⟩
    decide
  fun_induction Block.ofLines ls with
  | case1 => simp
  | case2 line rest hline more block ih =>
    have hhead : IsOpeningLine (stripEnd line) :=
      ⟨isKeptLine_stripEnd (h line (by simp)), beginsWith_stripEnd hat hline⟩
    have hmore : ∀ l ∈ more, IsFurtherLine l := by
      intro l hl
      obtain ⟨k, hk, rfl⟩ := List.mem_map.mp hl
      have hmem := (List.takeWhile_sublist _).subset hk
      exact ⟨isKeptLine_stripEnd (h k (List.mem_cons_of_mem _ hmem)),
        isContinuation_stripEnd (List.all_eq_true.mp List.all_takeWhile k hk)⟩
    intro b hb
    rcases List.mem_cons.mp hb with rfl | hb
    · cases hd : beginsWith "@!" line with
      | true =>
        simp only [block, hd]
        exact ⟨hhead, by rw [beginsWith_stripEnd_eq hbang, hd], hmore⟩
      | false =>
        simp only [block, hd]
        exact ⟨hhead, by rw [beginsWith_stripEnd_eq hbang, hd], hmore⟩
    · refine ih (fun l hl => h l (List.mem_cons_of_mem _ ?_)) b hb
      exact (List.dropWhile_sublist _).subset hl
  | case3 line rest hline ih =>
    intro b hb
    rcases List.mem_cons.mp hb with rfl | hb
    · refine ⟨isKeptLine_stripEnd (h line (by simp)), ?_⟩
      rw [beginsWith_stripEnd_eq hat]
      simpa using hline
    · exact ih (fun l hl => h l (List.mem_cons_of_mem _ hl)) b hb

/-- Every block of a text is sound. -/
theorem Block.isSound_lines (content : String) :
    ∀ b ∈ Block.ofLines (lines content), b.IsSound :=
  isSound_ofLines fun _ hl => singleLine_of_mem_lines hl

/-! ### The prose -/

/-- A kept line that is blank is empty. -/
theorem IsKeptLine.eq_empty {l : String} (h : IsKeptLine l) (hb : isBlankText l = true) :
    l = "" := eq_empty_of_stripEnd h.2 hb

/-- A kept line that is not empty ends in no blank. -/
theorem IsKeptLine.getLast? {l : String} (h : IsKeptLine l) :
    ∀ c ∈ l.toList.getLast?, isBlank c = false := by
  have hl := getLast?_trimEnd l.toList
  rwa [← toList_stripEnd, h.2] at hl

/-- Trimming the front of kept lines drops empty lines there and the blanks that
the first other line begins with. -/
theorem exists_trimStart_joinLines {ps : List String} (h : ∀ p ∈ ps, IsKeptLine p) :
    ∃ ls, trimStart (joinLines ps).toList = (joinLines ls).toList ∧ (∀ l ∈ ls, IsKeptLine l) ∧
      ∀ l ∈ ls.drop 1, l ∈ ps := by
  induction ps with
  | nil => exact ⟨[], rfl, by simp, by simp⟩
  | cons p ps ih =>
    obtain ⟨ls, htrim, hkept, hmem⟩ := ih fun q hq => h q (List.mem_cons_of_mem _ hq)
    have hp := h p (by simp)
    by_cases hempty : p = ""
    · subst hempty
      refine ⟨ls, ?_, hkept, fun l hl => List.mem_cons_of_mem _ (hmem l hl)⟩
      rw [← htrim]
      cases ps with
      | nil => rfl
      | cons q qs =>
        rw [toList_joinLines_cons "" (by simp)]
        exact List.dropWhile_cons_of_pos isBlank_newline
    · -- The first line that is not empty loses its indentation and ends the trimming.
      have hne : trimStart p.toList ≠ [] := by
        intro he
        rw [trimStart, List.dropWhile_eq_nil_iff] at he
        exact hempty (hp.eq_empty (List.all_eq_true.mpr he))
      have hfront : ∀ rest, trimStart (p.toList ++ rest) = trimStart p.toList ++ rest := by
        intro rest
        rw [trimStart, List.dropWhile_append, if_neg]
        · rfl
        · rw [List.isEmpty_iff]
          exact hne
      have hfirst : IsKeptLine (String.ofList (trimStart p.toList)) := by
        refine ⟨fun c hc => ?_, ?_⟩
        · rw [String.toList_ofList] at hc
          exact hp.1 c ((List.dropWhile_sublist _).subset hc)
        · have hend : trimEnd p.toList = p.toList := by rw [← toList_stripEnd, hp.2]
          rw [stripEnd, String.toList_ofList, ← trimStart_trimEnd, hend]
      refine ⟨String.ofList (trimStart p.toList) :: ps, ?_, ?_, ?_⟩
      · cases ps with
        | nil => rw [joinLines_singleton, joinLines_singleton, String.toList_ofList]
        | cons q qs =>
          have hps : q :: qs ≠ [] := List.cons_ne_nil _ _
          rw [toList_joinLines_cons p hps, toList_joinLines_cons _ hps, hfront,
            String.toList_ofList]
      · intro l hl
        rcases List.mem_cons.mp hl with rfl | hl
        · exact hfirst
        · exact h l (List.mem_cons_of_mem _ hl)
      · intro l hl
        exact List.mem_cons_of_mem _ hl

/-- Trimming the back of kept lines drops empty lines there. -/
theorem exists_trimEnd_joinLines {ls : List String} (h : ∀ l ∈ ls, IsKeptLine l) :
    ∃ ms, trimEnd (joinLines ls).toList = (joinLines ms).toList ∧ ms <+: ls ∧
      ms.getLast? ≠ some "" := by
  induction ls using List.reverseRecOn with
  | nil => exact ⟨[], rfl, List.prefix_refl _, by simp⟩
  | append_singleton init last ih =>
    obtain ⟨ms, htrim, hpre, hlast⟩ := ih fun l hl => h l (by simp [hl])
    have hl := h last (by simp)
    by_cases hempty : last = ""
    · subst hempty
      refine ⟨ms, ?_, hpre.trans (List.prefix_append _ _), hlast⟩
      rw [← htrim]
      cases init with
      | nil => rfl
      | cons i is =>
        rw [joinLines_append (by simp) (by simp), joinLines_singleton, String.append_empty,
          String.toList_append]
        have hdrop : ("\n".toList.reverse ++ (joinLines (i :: is)).toList.reverse).dropWhile isBlank =
            (joinLines (i :: is)).toList.reverse.dropWhile isBlank :=
          List.dropWhile_cons_of_pos isBlank_newline
        rw [trimEnd, List.reverse_append, hdrop, trimEnd]
    · refine ⟨init ++ [last], ?_, List.prefix_refl _, by simpa using hempty⟩
      refine trimEnd_eq_self ?_
      rw [getLast?_joinLines hempty]
      exact hl.getLast?

/-- Kept lines that are joined and stripped are kept lines that are joined; only
the first of them need not have been there before. -/
theorem exists_strip_joinLines {ps : List String} (h : ∀ p ∈ ps, IsKeptLine p) :
    ∃ ls, strip (joinLines ps) = joinLines ls ∧ lines (joinLines ls) = ls ∧
      (∀ l ∈ ls, IsKeptLine l) ∧ ∀ l ∈ ls.drop 1, l ∈ ps := by
  obtain ⟨ls, hstart, hkept, hmem⟩ := exists_trimStart_joinLines h
  obtain ⟨ms, hend, hpre, hlast⟩ := exists_trimEnd_joinLines hkept
  have hms : ∀ l ∈ ms, IsKeptLine l := fun l hl => hkept l (hpre.subset hl)
  refine ⟨ms, ?_, lines_joinLines (fun l hl => (hms l hl).1) hlast, hms, fun l hl => ?_⟩
  · rw [strip, trim, hstart, hend, String.ofList_toList]
  · exact hmem l ((hpre.sublist.drop 1).subset hl)

namespace Docstring

/-- The prose lines of a text. -/
theorem mem_proseLines {content l : String}
    (h : l ∈ (Block.ofLines (lines content)).filterMap Block.proseLine?) :
    IsKeptLine l ∧ beginsWith "@" l = false := by
  obtain ⟨b, hb, hl⟩ := List.mem_filterMap.mp h
  have hs := Block.isSound_lines content b hb
  cases b with
  | prose line =>
    rw [Block.proseLine?, Option.some.injEq] at hl
    rw [← hl]
    exact hs
  | tag head more => cases hl
  | directive head more => cases hl

/-- The prose that was read is stripped and made of kept lines, of which only the
first can look like a tag. -/
theorem text_parse (content : String) :
    strip (parse content).text = (parse content).text ∧ IsJoined (parse content).text ∧
      (∀ l ∈ lines (parse content).text, IsKeptLine l) ∧
      ∀ l ∈ (lines (parse content).text).drop 1, beginsWith "@" l = false := by
  obtain ⟨ls, htext, hlines, hkept, hmem⟩ :=
    exists_strip_joinLines fun l (hl : l ∈ (Block.ofLines (lines content)).filterMap
      Block.proseLine?) => (mem_proseLines hl).1
  have hparse : (parse content).text = joinLines ls := htext
  refine ⟨?_, ?_, ?_, ?_⟩
  · rw [parse, strip_strip]
  · rw [hparse, IsJoined, hlines]
  · rw [hparse, hlines]
    exact hkept
  · rw [hparse, hlines]
    exact fun l hl => (mem_proseLines (hmem l hl)).2

/-- A directive that was read is the lines of one block. -/
theorem mem_directives_parse {content x : String} (h : x ∈ (parse content).directives) :
    ∃ head more, x = joinLines (head :: more) ∧ IsOpeningLine head ∧
      beginsWith "@!" head = true ∧ ∀ l ∈ more, IsFurtherLine l := by
  obtain ⟨b, hb, hx⟩ := List.mem_filterMap.mp h
  have hs := Block.isSound_lines content b hb
  cases b with
  | prose line => cases hx
  | tag head more => cases hx
  | directive head more =>
    rw [Block.directiveText?, Option.some.injEq] at hx
    exact ⟨head, more, hx.symm, hs⟩

/-- A tag that was read is read from one block. -/
theorem mem_tags_parse {content : String} {t : Tag} (h : t ∈ (parse content).tags) :
    ∃ head more, t = Tag.ofBlock head more ∧ IsOpeningLine head ∧
      beginsWith "@!" head = false ∧ ∀ l ∈ more, IsFurtherLine l := by
  obtain ⟨b, hb, ht⟩ := List.mem_filterMap.mp h
  have hs := Block.isSound_lines content b hb
  cases b with
  | prose line => cases ht
  | directive head more => cases ht
  | tag head more =>
    rw [Block.tag?, Option.some.injEq] at ht
    exact ⟨head, more, ht.symm, hs⟩

end Docstring

/-! ### The parts of a tag -/

namespace Tag

/-- What reading makes sure of about a tag. -/
structure IsRead (t : Tag) : Prop where
  /-- The tag name is one that can be read, or there is none. -/
  tagName : t.tagName = "" ∨ IsTagName t.tagName
  /-- Every type is on one line. -/
  types : ∀ types ∈ t.types, ∀ ty ∈ types, SingleLine ty
  /-- The name is on one line. -/
  name : ∀ name ∈ t.name, SingleLine name
  /-- No blanks stand around the text. -/
  stripped : strip t.text = t.text
  /-- The lines of the text are parted by newlines. -/
  joined : IsJoined t.text
  /-- No line of the text is blank. -/
  notBlank : ∀ l ∈ lines t.text, isBlankText l = false
  /-- With a tag name, no line of the text has blanks around it. -/
  textLines : t.tagName ≠ "" → ∀ l ∈ lines t.text, IsTextLine l

/-- The name of a tag line is a tag name, and the rest is a part of the line. -/
theorem splitHead?_sound {line tagName rest : String} (hs : SingleLine line)
    (h : splitHead? line = some (tagName, rest)) :
    IsTagName tagName ∧ SingleLine rest ∧ strip rest = rest := by
  unfold splitHead? at h
  split at h
  · next c cs hline =>
    dsimp only at h
    split at h
    · next hc =>
      split at h
      · rw [Option.some.injEq, Prod.mk.injEq] at h
        obtain ⟨hname, hrest⟩ := h
        refine ⟨?_, ?_, ?_⟩
        · rw [← hname, IsTagName, String.toList_ofList, List.head?_cons, List.all_cons,
            isWord_of_isNameStart c hc, List.all_takeWhile]
          exact ⟨hc, rfl⟩
        · intro d hd
          rw [← hrest, String.toList_ofList] at hd
          have hmem := (List.dropWhile_sublist _).subset (mem_of_mem_trim hd)
          refine hs d ?_
          rw [hline]
          exact List.mem_cons_of_mem _ (List.mem_cons_of_mem _ hmem)
        · rw [← hrest, strip, String.toList_ofList, trim_trim]
      · cases h
    · cases h
  · cases h

/-- The name and the text of a tag that has both are parts of its line. -/
theorem readNamed_sound {rest : String} (hs : SingleLine rest) (hstrip : strip rest = rest) :
    (∀ types ∈ (readNamed rest).1, ∀ ty ∈ types, SingleLine ty) ∧
      (∀ name ∈ (readNamed rest).2.1, SingleLine name) ∧ SingleLine (readNamed rest).2.2 ∧
      strip (readNamed rest).2.2 = (readNamed rest).2.2 := by
  unfold readNamed
  split
  · obtain ⟨hname, hafter⟩ := hs.cutAtSpace
    obtain ⟨hty, htext, hst⟩ := TypeList.splitOff_singleLine hafter.strip (strip_strip _)
    generalize cutAtSpace rest = cut at hname hafter hty htext hst
    obtain ⟨word, after⟩ := cut
    dsimp only at hname hty htext hst ⊢
    generalize TypeList.splitOff (strip after) = off at hty htext hst
    obtain ⟨types, text⟩ := off
    refine ⟨hty, fun name hm => ?_, htext, hst⟩
    rw [Option.mem_some_iff] at hm
    rwa [← hm]
  · obtain ⟨hty, hafter, hst⟩ := TypeList.splitOff_singleLine hs hstrip
    generalize TypeList.splitOff rest = off at hty hafter hst
    obtain ⟨types, after⟩ := off
    dsimp only at hty hafter hst ⊢
    split
    · exact ⟨hty, by simp, hafter, hst⟩
    · obtain ⟨hname, htext⟩ := hafter.cutAtSpace
      refine ⟨hty, fun name hm => ?_, htext.strip, strip_strip _⟩
      rw [Option.mem_some_iff] at hm
      rwa [← hm]

/-- The parts of a tag are parts of its line, and no blanks stand around the text. -/
theorem readParts_sound (tagName : String) {rest : String} (hs : SingleLine rest)
    (hstrip : strip rest = rest) :
    (∀ types ∈ (readParts tagName rest).1, ∀ ty ∈ types, SingleLine ty) ∧
      (∀ name ∈ (readParts tagName rest).2.1, SingleLine name) ∧
      SingleLine (readParts tagName rest).2.2 ∧
      strip (readParts tagName rest).2.2 = (readParts tagName rest).2.2 := by
  unfold readParts
  split
  · exact readNamed_sound hs hstrip
  · split
    · obtain ⟨hty, htext, hst⟩ := TypeList.splitOff_singleLine hs hstrip
      exact ⟨hty, by simp, htext, hst⟩
    · exact ⟨by simp, by simp, hs, hstrip⟩

/-- A line of text is not blank. -/
theorem isBlankText_of_isTextLine {l : String} (h : IsTextLine l) : isBlankText l = false :=
  isBlankText_of_strip h.2 h.1

/-- A further line of a block is not blank. -/
theorem isBlankText_of_isFurtherLine {l : String} (h : IsFurtherLine l) :
    isBlankText l = false := by
  have hc := h.2
  unfold isContinuation at hc
  split at hc
  · cases hc
  · rw [Bool.and_eq_true, Bool.not_eq_true'] at hc
    exact hc.2

/-- The first line of a block is not blank. -/
theorem isBlankText_of_isOpeningLine {l : String} (h : IsOpeningLine l) :
    isBlankText l = false := by
  have hh := head?_of_beginsWith_at h.2
  obtain ⟨cs, hcs⟩ := List.head?_eq_some_iff.mp hh
  have hat : isBlank '@' = false := by decide
  rw [isBlankText, hcs, List.all_cons, hat, Bool.false_and]

/-- A line that is not blank is not empty. -/
theorem ne_empty_of_isBlankText {l : String} (h : isBlankText l = false) : l ≠ "" := by
  rintro rfl
  cases h

/-- The tag of a block without a tag name has the whole block as its text. -/
theorem isRead_whole {head : String} {more : List String} (hh : IsOpeningLine head)
    (hm : ∀ l ∈ more, IsFurtherLine l) :
    IsRead { tagName := "", text := joinLines (head :: more) } := by
  have hkept : ∀ l ∈ head :: more, IsKeptLine l ∧ isBlankText l = false := by
    intro l hl
    rcases List.mem_cons.mp hl with rfl | hl
    · exact ⟨hh.1, isBlankText_of_isOpeningLine hh⟩
    · exact ⟨(hm l hl).1, isBlankText_of_isFurtherLine (hm l hl)⟩
  have hlast : (head :: more).getLast? ≠ some "" := by
    intro he
    exact ne_empty_of_isBlankText (hkept "" (List.mem_of_getLast? he)).2 rfl
  have hlines := lines_joinLines (fun l hl => (hkept l hl).1.1) hlast
  constructor
  · exact .inl rfl
  · simp
  · simp
  · refine strip_joinLines_of_ends (fun l hl => ne_empty_of_isBlankText (hkept l hl).2) ?_ ?_
    · intro l hl c hc
      rw [← Option.mem_some_iff.mp hl, head?_of_beginsWith_at hh.2] at hc
      rw [← Option.mem_some_iff.mp hc]
      decide
    · exact fun l hl => (hkept l (List.mem_of_getLast? hl)).1.getLast?
  · exact joined_joinLines (fun l hl => (hkept l hl).1.1) hlast
  · rw [hlines]
    exact fun l hl => (hkept l hl).2
  · exact fun he => absurd rfl he

/-- What reading the block of a tag makes sure of. -/
theorem isRead_ofBlock {head : String} {more : List String} (hh : IsOpeningLine head)
    (hm : ∀ l ∈ more, IsFurtherLine l) : (ofBlock head more).IsRead := by
  cases hhead : splitHead? head with
  | none =>
    rw [ofBlock, hhead]
    exact isRead_whole hh hm
  | some found =>
    obtain ⟨tagName, rest⟩ := found
    obtain ⟨hname, hrest, hstrip⟩ := splitHead?_sound hh.1.1 hhead
    obtain ⟨hty, hna, hfirst, hfirstStrip⟩ := readParts_sound tagName hrest hstrip
    rw [ofBlock_eq hhead]
    have hls : ∀ l ∈ ((readParts tagName rest).2.2 :: more.map strip).filter (· != ""),
        SingleLine l ∧ IsTextLine l := by
      intro l hl
      obtain ⟨hmem, hne⟩ := List.mem_filter.mp hl
      have hne : l ≠ "" := by simpa using hne
      rcases List.mem_cons.mp hmem with rfl | hmem
      · exact ⟨hfirst, hne, hfirstStrip⟩
      · obtain ⟨k, hk, rfl⟩ := List.mem_map.mp hmem
        exact ⟨(hm k hk).1.1.strip, hne, strip_strip k⟩
    generalize ((readParts tagName rest).2.2 :: more.map strip).filter (· != "") = ls at hls
    have hlast : ls.getLast? ≠ some "" := fun he => (hls "" (List.mem_of_getLast? he)).2.1 rfl
    have hlines := lines_joinLines (fun l hl => (hls l hl).1) hlast
    constructor
    · exact .inr hname
    · exact hty
    · exact hna
    · exact strip_joinLines fun l hl => (hls l hl).2
    · exact joined_joinLines (fun l hl => (hls l hl).1) hlast
    · rw [hlines]
      exact fun l hl => isBlankText_of_isTextLine (hls l hl).2
    · rw [hlines]
      exact fun _ l hl => (hls l hl).2

end Tag

/-- What reading makes sure of holds of every tag of a text. -/
theorem Docstring.isRead_of_mem_tags {content : String} {t : Tag} (h : t ∈ (parse content).tags) :
    t.IsRead := by
  obtain ⟨head, more, rfl, hh, -, hm⟩ := mem_tags_parse h
  exact Tag.isRead_ofBlock hh hm

end RubyDoc

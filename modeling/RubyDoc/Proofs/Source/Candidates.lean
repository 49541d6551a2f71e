import Mathlib.Algebra.Ring.Nat
import RubyDoc.Proofs.Source
import RubyDoc.Proofs.Text.Newlines

/-!
# Comments that document statements

The rows of a tree count newlines and its columns count bytes, while the index of comments
looks at lines that end at any line break and at characters. Both agree on a comment if
lines end at newlines up to it: it is indexed exactly if blanks alone stand before it on its
line, each of them one byte long. Behind another line break the row of a comment is that of
some other line, and a blank of several bytes moves the comment itself into what is looked at.
-/

namespace RubyDoc

open RubyDoc.Text

/-- Where a node stands in a text: the lines above, what is before it on its line, and the
rest with the character that the node begins with. -/
structure Node.Standing (text : String) (n : Node) where
  /-- The lines above. -/
  above : List Char
  /-- What is before the node on its line. -/
  before : List Char
  /-- The first character of the node. -/
  first : Char
  /-- What is behind it. -/
  rest : List Char
  /-- These are the text. -/
  parts : text.toList = above ++ before ++ first :: rest
  /-- The lines above are whole. -/
  ends : EndsLine above
  /-- What is before the node is on one row. -/
  onRow : '\n' ∉ before
  /-- The row counts the newlines above. -/
  row : n.start.row = above.count '\n'
  /-- The column counts the bytes before the node. -/
  column : n.start.column = (before.map Char.utf8Size).sum
  /-- A node begins with what it says. -/
  mark : isBlank first = false

namespace Source

/-- Whether a comment may document a statement: the index has it for some row. -/
def IsCandidate (s : Source) (c : Node) : Prop := ∃ row, s.comments.lookup row = some c

/-- If no two comments end on one row, the index has every comment that begins its line. -/
theorem isCandidate_ofTree_iff {root c : Node} {text : String} (path : String) (hasErrors : Bool)
    (hc : c ∈ root.ofKind "comment")
    (hrows : ((root.ofKind "comment").map Node.lastRow).Nodup) :
    (ofTree root text path hasErrors).IsCandidate c ↔ isLineStart (lines text) c.start = true := by
  have hmem (row : Nat) : (row, c) ∈ (ofTree root text path hasErrors).comments ↔
      isLineStart (lines text) c.start = true ∧ c.lastRow = row := by
    rw [ofTree, indexComments, List.mem_reverse, List.mem_map]
    constructor
    · rintro ⟨m, hm, he⟩
      obtain ⟨hrow, rfl⟩ := Prod.mk.inj he
      exact ⟨(List.mem_filter.mp hm).2, hrow⟩
    · rintro ⟨hstart, hrow⟩
      exact ⟨c, List.mem_filter.mpr ⟨hc, hstart⟩, Prod.ext hrow rfl⟩
  constructor
  · rintro ⟨row, hrow⟩
    exact ((hmem row).mp (mem_of_lookup_eq_some hrow)).1
  · intro hstart
    refine ⟨c.lastRow, lookup_of_mem ?_ ((hmem c.lastRow).mpr ⟨hstart, rfl⟩)⟩
    have hsub : ((ofTree root text path hasErrors).comments.map Prod.fst).reverse =
        ((root.ofKind "comment").filter fun m => isLineStart (lines text) m.start).map
          Node.lastRow := by
      rw [ofTree, indexComments, List.map_reverse, List.reverse_reverse, List.map_map]
      rfl
    have hnodup : ((ofTree root text path hasErrors).comments.map Prod.fst).reverse.Nodup := by
      rw [hsub]
      exact hrows.sublist (List.filter_sublist.map _)
    exact List.pairwise_reverse.mp hnodup |>.imp Ne.symm

/-- Characters have as many bytes as they are, or more if one of them is longer. -/
theorem length_le_bytes (cs : List Char) :
    cs.length ≤ (cs.map Char.utf8Size).sum ∧
      ((cs.map Char.utf8Size).sum = cs.length → ∀ c ∈ cs, c.utf8Size = 1) := by
  induction cs with
  | nil => exact ⟨le_rfl, fun _ c hc => absurd hc List.not_mem_nil⟩
  | cons c cs ih =>
    have hpos := Char.utf8Size_pos c
    rw [List.map_cons, List.sum_cons, List.length_cons]
    refine ⟨by omega, fun hsum => List.forall_mem_cons.mpr ⟨by omega, ih.2 (by omega)⟩⟩

theorem bytes_eq_length {cs : List Char} (h : ∀ c ∈ cs, c.utf8Size = 1) :
    (cs.map Char.utf8Size).sum = cs.length := by
  induction cs with
  | nil => rfl
  | cons c cs ih =>
    obtain ⟨hc, hcs⟩ := List.forall_mem_cons.mp h
    rw [List.map_cons, List.sum_cons, List.length_cons, hc, ih hcs]
    omega

/-- **Comments that may document a statement.** If no two comments of a tree end on the same
row, and lines end at newlines up to a comment, then the comment is a candidate exactly if
the characters before it on its line are blanks of one byte. -/
theorem isCandidate_iff {root c : Node} {text : String} (path : String) (hasErrors : Bool)
    (hc : c ∈ root.ofKind "comment")
    (hrows : ((root.ofKind "comment").map Node.lastRow).Nodup) (s : c.Standing text)
    (habove : breaksAtNewlines s.above = true) (hbefore : ∀ d ∈ s.before, isLineBreak d = false) :
    (ofTree root text path hasErrors).IsCandidate c ↔
      ∀ d ∈ s.before, isBlank d = true ∧ d.utf8Size = 1 := by
  rw [isCandidate_ofTree_iff path hasErrors hc hrows]
  have hfirst : isLineBreak s.first = false := by
    refine Bool.eq_false_iff.mpr fun hbreak => ?_
    have hblank := isBlank_of_isLineBreak s.first hbreak
    rw [s.mark] at hblank
    cases hblank
  obtain ⟨more, hmore⟩ := head?_splitLines_append hbefore hfirst s.rest
  obtain ⟨hsplit, hcount⟩ :=
    splitLines_append_of_endsLine habove s.ends (s.before ++ s.first :: s.rest)
  have hline : (lines text)[c.start.row]? = some (String.ofList (s.before ++ s.first :: more)) := by
    rw [lines, s.parts, List.append_assoc, hsplit, List.getElem?_map, s.row, ← hcount,
      List.getElem?_append_right le_rfl, Nat.sub_self, ← List.head?_eq_getElem?, hmore]
    rfl
  rw [isLineStart, hline]
  dsimp only
  rw [String.toList_ofList, s.column]
  obtain ⟨hle, hbytes⟩ := length_le_bytes s.before
  constructor
  · intro hall
    -- A longer blank would move the first character of the comment into what is looked at.
    have hlength : (s.before.map Char.utf8Size).sum = s.before.length := by
      by_contra hne
      have hshown : s.first ∈
          (s.before ++ s.first :: more).take (s.before.map Char.utf8Size).sum := by
        obtain ⟨k, hk⟩ : ∃ k, (s.before.map Char.utf8Size).sum - s.before.length = k + 1 :=
          ⟨(s.before.map Char.utf8Size).sum - s.before.length - 1, by omega⟩
        rw [List.take_append, hk, List.take_succ_cons]
        exact List.mem_append_right _ List.mem_cons_self
      have hblank := List.all_eq_true.mp hall s.first hshown
      rw [s.mark] at hblank
      cases hblank
    rw [hlength, List.take_left] at hall
    exact fun d hd => ⟨List.all_eq_true.mp hall d hd, hbytes hlength d hd⟩
  · intro hall
    rw [bytes_eq_length fun d hd => (hall d hd).2, List.take_left, List.all_eq_true]
    exact fun d hd => (hall d hd).1

end Source

/-- An indented comment below a line that holds a longer character and ends with a carriage
return. -/
def indentedComment : Node :=
  ⟨"comment", true, none, 10, 17, ⟨1, 2⟩, ⟨1, 9⟩, some "# Docs.", []⟩

/-- The tree that it stands in. -/
def indentedTree : Node :=
  ⟨"program", true, none, 0, 24, ⟨0, 0⟩, ⟨3, 0⟩, some "É = 1\r\n\t # Docs.\nC = 3\n", [
    ⟨"assignment", true, none, 0, 6, ⟨0, 0⟩, ⟨0, 6⟩, some "É = 1", [
      ⟨"constant", true, some "left", 0, 2, ⟨0, 0⟩, ⟨0, 2⟩, some "É", []⟩,
      ⟨"=", false, none, 3, 4, ⟨0, 3⟩, ⟨0, 4⟩, some "=", []⟩,
      ⟨"integer", true, some "right", 5, 6, ⟨0, 5⟩, ⟨0, 6⟩, some "1", []⟩]⟩,
    indentedComment,
    ⟨"assignment", true, none, 18, 23, ⟨2, 0⟩, ⟨2, 5⟩, some "C = 3", [
      ⟨"constant", true, some "left", 18, 19, ⟨2, 0⟩, ⟨2, 1⟩, some "C", []⟩,
      ⟨"=", false, none, 20, 21, ⟨2, 2⟩, ⟨2, 3⟩, some "=", []⟩,
      ⟨"integer", true, some "right", 22, 23, ⟨2, 4⟩, ⟨2, 5⟩, some "3", []⟩]⟩]⟩

namespace Source

theorem isCandidate_indentedComment :
    (ofTree indentedTree indentedTree.written "(string)" false).IsCandidate indentedComment := by
  have hmem : indentedComment ∈ indentedTree.ofKind "comment" := List.mem_cons_self
  have hrows : ((indentedTree.ofKind "comment").map Node.lastRow).Nodup := by decide +kernel
  let s : indentedComment.Standing indentedTree.written :=
    { above := "É = 1\r\n".toList, before := ['\t', ' '], first := '#'
      rest := " Docs.\nC = 3\n".toList
      parts := by decide +kernel
      ends := by decide +kernel
      onRow := by decide
      row := by decide +kernel
      column := by decide +kernel
      mark := by decide }
  have habove : breaksAtNewlines s.above = true := by decide +kernel
  have hbefore : ∀ d ∈ s.before, isLineBreak d = false :=
    List.forall_mem_cons.mpr ⟨by decide, List.forall_mem_singleton.mpr (by decide)⟩
  have hblank : ∀ d ∈ s.before, isBlank d = true ∧ d.utf8Size = 1 :=
    List.forall_mem_cons.mpr ⟨by decide, List.forall_mem_singleton.mpr (by decide)⟩
  exact (isCandidate_iff "(string)" false hmem hrows s habove hbefore).mpr hblank

/-- Behind a form feed the row of a comment is that of an empty line, so that a comment with
code before it is indexed. -/
example :
    (indexComments
      ⟨"program", true, none, 0, 30, ⟨0, 0⟩, ⟨3, 0⟩, some "A = 1\x0c\nB = 2 # not docs\nC = 3\n",
        [⟨"comment", true, none, 13, 23, ⟨1, 6⟩, ⟨1, 16⟩, some "# not docs", []⟩]⟩
      (lines "A = 1\x0c\nB = 2 # not docs\nC = 3\n")).map Prod.fst = [1] := by decide +kernel

end Source

end RubyDoc

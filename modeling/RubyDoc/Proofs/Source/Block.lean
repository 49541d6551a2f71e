import Mathlib.Data.List.Chain
import RubyDoc.Proofs.Source
import RubyDoc.Proofs.Text.OuterLines

/-!
# The block of comments above a statement

The search for the comments of a statement goes from a row to the comment that ends on the
row above, and on from the row where that comment starts. A comment that ends no earlier
than it starts takes the search up, so it comes to an end; the comments that it met stand
row to row above the statement, and none stands above them. What is left of their lines is
joined without the empty lines around it. Which comments are indexed is not the matter here.
-/

namespace RubyDoc

open RubyDoc.Text

namespace Node

/-- Every line of a comment is trimmed at its end. -/
theorem isBlank_of_getLast?_commentLines {text l : String} (h : l ∈ commentLines text) :
    ∀ c ∈ l.toList.getLast?, isBlank c = false := by
  have htrimmed : ∃ k, l = stripEnd k := by
    rw [commentLines] at h
    split at h
    · obtain ⟨k, -, rfl⟩ := List.mem_map.mp h
      exact ⟨k, rfl⟩
    · exact ⟨_, List.mem_singleton.mp h⟩
  obtain ⟨k, rfl⟩ := htrimmed
  rw [toList_stripEnd]
  exact getLast?_trimEnd k.toList

end Node

namespace Source

/-- The search from a row, with the comments found so far, ends with a block of comments. -/
inductive SearchEnds (comments : List (Nat × Node)) : Nat → List Node → List Node → Prop where
  /-- No comment ends on the row above. -/
  | done {row : Nat} {found : List Node} (h : commentAbove? comments row = none) :
      SearchEnds comments row found found
  /-- A comment ends on the row above, and the search goes on from where it starts. -/
  | more {row : Nat} {found block : List Node} {c : Node} (h : commentAbove? comments row = some c)
      (rest : SearchEnds comments c.start.row (c :: found) block) :
      SearchEnds comments row found block

/-- A block of comments row to row above a node, as far up as there are any. -/
structure IsBlockAbove (comments : List (Nat × Node)) (n : Node) (block : List Node) : Prop where
  /-- Each comment ends on the row above the next one, the last on the row above the node. -/
  adjacent : (block ++ [n]).IsChain fun c d => c.lastRow + 1 = d.start.row
  /-- The comments are those that the index has for their rows. -/
  indexed : ∀ c ∈ block, comments.lookup c.lastRow = some c
  /-- No indexed comment ends on the row above the first one. -/
  maximal : ∀ first ∈ (block ++ [n]).head?, ∀ e ∈ comments, e.1 + 1 ≠ first.start.row

/-- Every entry of an index is about the row that its comment ends on. -/
def AreRows (comments : List (Nat × Node)) : Prop := ∀ e ∈ comments, e.1 = e.2.lastRow

/-- No comment of an index starts below the row that it ends on. -/
def GoUp (comments : List (Nat × Node)) : Prop := ∀ e ∈ comments, e.2.start.row ≤ e.1

variable {comments : List (Nat × Node)}

theorem commentAbove?_eq_some {row : Nat} {c : Node} (h : commentAbove? comments row = some c) :
    0 < row ∧ comments.lookup (row - 1) = some c := by
  rw [commentAbove?] at h
  split at h
  · cases h
  · next hrow => exact ⟨Nat.pos_of_ne_zero hrow, h⟩

/-- A search that goes on is one from a row further up. -/
theorem GoUp.start_lt (hup : GoUp comments) {row : Nat} {c : Node}
    (h : commentAbove? comments row = some c) : c.start.row < row := by
  obtain ⟨hrow, hc⟩ := commentAbove?_eq_some h
  have hstart : c.start.row ≤ row - 1 := hup _ (mem_of_lookup_eq_some hc)
  omega

/-- A search ends with one block only. -/
theorem SearchEnds.unique {row : Nat} {found block block' : List Node}
    (h : SearchEnds comments row found block) (h' : SearchEnds comments row found block') :
    block = block' := by
  induction h with
  | done hnone =>
    cases h' with
    | done => rfl
    | more hsome =>
      rw [hnone] at hsome
      cases hsome
  | more hsome _ ih =>
    cases h' with
    | done hnone =>
      rw [hnone] at hsome
      cases hsome
    | more hsome' rest' =>
      obtain rfl := Option.some.inj (hsome.symm.trans hsome')
      exact ih rest'

/-- Every round of a search goes up by a row at least. -/
theorem SearchEnds.length_le (hup : GoUp comments) {row : Nat} {found block : List Node}
    (h : SearchEnds comments row found block) : block.length ≤ row + found.length := by
  induction h with
  | done => omega
  | more hsome _ ih =>
    have hlt := hup.start_lt hsome
    rw [List.length_cons] at ih
    omega

/-- Leaving out the comments of a row leaves those of the other rows. -/
theorem lookup_withoutRowAbove (comments : List (Nat × Node)) {row r : Nat} (h : r ≠ row - 1) :
    (withoutRowAbove comments row).lookup r = comments.lookup r := by
  induction comments with
  | nil => rfl
  | cons e rest ih =>
    obtain ⟨k, m⟩ := e
    rw [withoutRowAbove] at ih ⊢
    by_cases hk : k = row - 1
    · rw [List.filter_cons_of_neg (by simp [hk]), ih, List.lookup_cons,
        beq_eq_false_iff_ne.mpr (hk ▸ h)]
    · rw [List.filter_cons_of_pos (by simpa using hk), List.lookup_cons, List.lookup_cons, ih]

theorem commentAbove?_congr {left : List (Nat × Node)} {row : Nat}
    (h : ∀ r < row, left.lookup r = comments.lookup r) :
    commentAbove? left row = commentAbove? comments row := by
  rw [commentAbove?, commentAbove?]
  split
  · rfl
  · exact h (row - 1) (by omega)

/-- The search ends, and with the block above the row. The comments that are left out on the
way stand below all those that are still looked for. -/
theorem searchEnds_blockAbove (hup : GoUp comments) {left : List (Nat × Node)} {row : Nat}
    (h : ∀ r < row, left.lookup r = comments.lookup r) (found : List Node) :
    SearchEnds comments row found (blockAbove left row ++ found) := by
  fun_induction blockAbove left row generalizing found with
  | case1 left row hnone =>
    rw [commentAbove?_congr h] at hnone
    exact .done hnone
  | case2 left row c hsome ih =>
    rw [commentAbove?_congr h] at hsome
    have hlt := hup.start_lt hsome
    have hleft : ∀ r < c.start.row, (withoutRowAbove left row).lookup r = comments.lookup r := by
      intro r hr
      rw [lookup_withoutRowAbove left (by omega), h r (by omega)]
    rw [List.append_assoc, List.singleton_append]
    exact .more hsome (ih hleft (c :: found))

/-! ### What the search finds -/

/-- Comments that a search has found above a node on its way to a row. -/
structure AreFound (comments : List (Nat × Node)) (n : Node) (row : Nat) (found : List Node) :
    Prop where
  /-- The search goes on from where the first one starts. -/
  start : ∀ first ∈ (found ++ [n]).head?, first.start.row = row
  /-- They stand row to row. -/
  adjacent : (found ++ [n]).IsChain fun c d => c.lastRow + 1 = d.start.row
  /-- They are those that the index has for their rows. -/
  indexed : ∀ c ∈ found, comments.lookup c.lastRow = some c

/-- A round of the search finds one more comment. -/
theorem AreFound.more {n c : Node} {row : Nat} {found : List Node}
    (h : AreFound comments n row found) (hrows : AreRows comments)
    (hc : commentAbove? comments row = some c) :
    AreFound comments n c.start.row (c :: found) := by
  obtain ⟨hrow, hlookup⟩ := commentAbove?_eq_some hc
  have hlast : row - 1 = c.lastRow := hrows _ (mem_of_lookup_eq_some hlookup)
  refine ⟨fun first hfirst => ?_, ?_, ?_⟩
  · rw [← Option.some.inj hfirst]
  · refine h.adjacent.cons fun d hd => ?_
    have hstart := h.start d hd
    omega
  · exact List.forall_mem_cons.mpr ⟨hlast ▸ hlookup, h.indexed⟩

/-- Where a search ends, the block is complete. -/
theorem AreFound.isBlockAbove {n : Node} {row : Nat} {found block : List Node}
    (h : AreFound comments n row found) (hrows : AreRows comments)
    (hends : SearchEnds comments row found block) : IsBlockAbove comments n block := by
  induction hends with
  | done hnone =>
    refine ⟨h.adjacent, h.indexed, fun first hfirst e he hrow => ?_⟩
    rw [h.start first hfirst] at hrow
    -- The row of the entry is the one above, so the index has a comment for it.
    have hlookup : comments.lookup e.1 = none := by
      rw [commentAbove?, if_neg (by omega), ← hrow] at hnone
      exact hnone
    have hne := List.lookup_eq_none_iff.mp hlookup e he
    rw [bne_self_eq_false] at hne
    cases hne
  | more hsome _ ih => exact ih (h.more hrows hsome)

/-! ### Sources -/

theorem areRows_ofTree (root : Node) (text path : String) (hasErrors : Bool) :
    AreRows (ofTree root text path hasErrors).comments := by
  intro e he
  rw [ofTree, indexComments, List.mem_reverse, List.mem_map] at he
  obtain ⟨c, -, rfl⟩ := he
  rfl

/-- Comments that end no earlier than they start take a search up. -/
theorem goUp_ofTree {root : Node} (h : ∀ c ∈ root.ofKind "comment", c.start.row ≤ c.finish.row)
    (text path : String) (hasErrors : Bool) :
    GoUp (ofTree root text path hasErrors).comments := by
  intro e he
  rw [ofTree, indexComments, List.mem_reverse, List.mem_map] at he
  obtain ⟨c, hc, rfl⟩ := he
  have hrow := h c (List.mem_filter.mp hc).1
  dsimp only
  rw [Node.lastRow]
  split
  · next hcut =>
    rw [Bool.and_eq_true, decide_eq_true_eq] at hcut
    omega
  · exact hrow

/-- The texts of nodes are read if they have one each. -/
theorem mapM_legible (ms : List Node) :
    match ms.mapM Node.legible with
    | .error _ => ∃ m ∈ ms, m.text = none
    | .ok texts => ms.map Node.text = texts.map some := by
  induction ms with
  | nil => rfl
  | cons m ms ih =>
    rw [List.mapM_cons, Node.legible]
    cases htext : m.text with
    | none => exact ⟨m, List.mem_cons_self, htext⟩
    | some text =>
      cases hrest : ms.mapM Node.legible with
      | error fault =>
        rw [hrest] at ih
        obtain ⟨k, hk, hnone⟩ := ih
        exact ⟨k, List.mem_cons_of_mem _ hk, hnone⟩
      | ok texts =>
        rw [hrest] at ih
        exact congrArg₂ List.cons htext ih

/-- **The comments of a statement.** If every comment of a tree ends no earlier than it
starts, the search from a statement ends, after as many rounds as the block has comments and
with that block alone: comments row to row above the statement, as the index has them, with
none above them. A statement that was given no docstring has the lines of these comments,
joined by newlines and without the empty lines around them; it has none only if one of the
comments is not legible. -/
theorem docstringOf_block {root : Node} {overridden : List (NodeKey × String)} {n : Node}
    (hends : ∀ c ∈ root.ofKind "comment", c.start.row ≤ c.finish.row)
    (hplain : overridden.lookup n.key = none) (text path : String) (hasErrors : Bool) :
    ∃ block, (∀ found, SearchEnds (ofTree root text path hasErrors).comments n.start.row [] found ↔
        found = block) ∧
      IsBlockAbove (ofTree root text path hasErrors).comments n block ∧
      block.length ≤ n.start.row ∧
      match (ofTree root text path hasErrors).docstringOf overridden n with
      | .error _ => ∃ c ∈ block, c.text = none
      | .ok docstring => ∃ texts : List String, block.map Node.text = texts.map some ∧
          IsWithoutOuterLines (joinLines (texts.flatMap Node.commentLines)) docstring := by
  have hup := goUp_ofTree hends text path hasErrors
  have hrows := areRows_ofTree root text path hasErrors
  have hsearch := searchEnds_blockAbove hup (fun r (_ : r < n.start.row) => rfl) []
  rw [List.append_nil] at hsearch
  have hnone : AreFound (ofTree root text path hasErrors).comments n n.start.row [] :=
    ⟨fun first hfirst => by rw [← Option.some.inj hfirst], List.isChain_singleton n, by simp⟩
  refine ⟨_, fun found => ⟨fun h => h.unique hsearch, fun h => h ▸ hsearch⟩,
    hnone.isBlockAbove hrows hsearch, by simpa using hsearch.length_le hup, ?_⟩
  have htexts := mapM_legible
    (blockAbove (ofTree root text path hasErrors).comments n.start.row)
  rw [docstringOf, hplain]
  cases hread : (blockAbove (ofTree root text path hasErrors).comments n.start.row).mapM
      Node.legible with
  | error fault =>
    rw [hread] at htexts
    exact htexts
  | ok texts =>
    rw [hread] at htexts
    refine ⟨texts, htexts, isWithoutOuterLines_joinLines fun l hl => ?_⟩
    obtain ⟨comment, -, hcomment⟩ := List.mem_flatMap.mp hl
    exact Node.isBlank_of_getLast?_commentLines hcomment

end Source

/-- A class below a comment of its own and a block of lines, which stands below code that has
a comment behind it. -/
def describedTree : Node :=
  ⟨"program", true, none, 0, 51, ⟨0, 0⟩, ⟨7, 0⟩,
    some "X = 1 # One.\n=begin\nTwo.\n=end\n# Three.\nclass A\nend\n", [
    ⟨"assignment", true, none, 0, 5, ⟨0, 0⟩, ⟨0, 5⟩, some "X = 1", [
      ⟨"constant", true, some "left", 0, 1, ⟨0, 0⟩, ⟨0, 1⟩, some "X", []⟩,
      ⟨"=", false, none, 2, 3, ⟨0, 2⟩, ⟨0, 3⟩, some "=", []⟩,
      ⟨"integer", true, some "right", 4, 5, ⟨0, 4⟩, ⟨0, 5⟩, some "1", []⟩]⟩,
    ⟨"comment", true, none, 6, 12, ⟨0, 6⟩, ⟨0, 12⟩, some "# One.", []⟩,
    ⟨"comment", true, none, 13, 30, ⟨1, 0⟩, ⟨4, 0⟩, some "=begin\nTwo.\n=end\n", []⟩,
    ⟨"comment", true, none, 30, 38, ⟨4, 0⟩, ⟨4, 8⟩, some "# Three.", []⟩,
    ⟨"class", true, none, 39, 50, ⟨5, 0⟩, ⟨6, 3⟩, some "class A\nend", [
      ⟨"class", false, none, 39, 44, ⟨5, 0⟩, ⟨5, 5⟩, some "class", []⟩,
      ⟨"constant", true, some "name", 45, 46, ⟨5, 6⟩, ⟨5, 7⟩, some "A", []⟩,
      ⟨"end", false, none, 47, 50, ⟨6, 0⟩, ⟨6, 3⟩, some "end", []⟩]⟩]⟩

namespace Source

theorem docstringOf_block_describedTree :
    ∃ n ∈ describedTree.ofKind "class", ∃ block,
      SearchEnds (ofTree describedTree describedTree.written "(string)" false).comments
        n.start.row [] block ∧
      IsBlockAbove (ofTree describedTree describedTree.written "(string)" false).comments n block ∧
      ((ofTree describedTree describedTree.written "(string)" false).docstringOf [] n).toOption =
        some "Two.\nThree." := by
  have hends : ∀ c ∈ describedTree.ofKind "comment", c.start.row ≤ c.finish.row := by
    decide +kernel
  have hdocstring : ∃ n ∈ describedTree.ofKind "class",
      ((ofTree describedTree describedTree.written "(string)" false).docstringOf [] n).toOption =
        some "Two.\nThree." := by decide +kernel
  obtain ⟨n, hn, hdocstring⟩ := hdocstring
  have hplain : ([] : List (NodeKey × String)).lookup n.key = none := rfl
  obtain ⟨block, hsearch, hblock, -⟩ :=
    docstringOf_block hends hplain describedTree.written "(string)" false
  exact ⟨n, hn, block, (hsearch block).mpr rfl, hblock, hdocstring⟩

end Source

end RubyDoc

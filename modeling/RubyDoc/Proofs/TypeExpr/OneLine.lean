import RubyDoc.Proofs.Text.Lines
import RubyDoc.Proofs.TypeExpr.Kinds
import RubyDoc.Proofs.TypeExpr.Printer

/-!
# Texts of a node on one line

A type expression shows a text of its node without blanks, or with every run of
them squeezed to a space. So no line break is left in it, whatever the source
looks like; that is an induction over what the node writes. Printing puts
texts on one line together to types on one line.
-/

namespace RubyDoc.TypeExpr

open RubyDoc.Text

theorem singleLine_withoutBlanks (s : String) : SingleLine (withoutBlanks s) := by
  intro c hc
  rw [toList_withoutBlanks, List.mem_filter, Bool.not_eq_true'] at hc
  exact isLineBreak_eq_false hc.2

/-- The only blanks left after squeezing are spaces. -/
theorem singleLine_squeeze (s : String) : SingleLine (squeeze s) := by
  have hfrom : ∀ (inRun : Bool) (cs : List Char), ∀ c ∈ squeezeFrom inRun cs,
      isLineBreak c = false := by
    intro inRun cs
    fun_induction squeezeFrom inRun cs with
    | case1 => simp
    | case2 c cs hb ih => exact ih
    | case3 inRun c cs hb hr ih => exact List.forall_mem_cons.mpr ⟨by decide, ih⟩
    | case4 inRun c cs hb ih =>
      exact List.forall_mem_cons.mpr ⟨isLineBreak_eq_false (Bool.eq_false_iff.mpr hb), ih⟩
  intro c hc
  rw [squeeze, String.toList_ofList] at hc
  exact hfrom false s.toList c hc

/-- An expression of texts on single lines. -/
def IsOneLine (t : TypeExpr) : Prop := ∀ s ∈ t.texts, SingleLine s

theorem singleLine_of_mem_textsOfAll {ts : List TypeExpr} (h : ∀ t ∈ ts, t.IsOneLine) :
    ∀ s ∈ textsOfAll ts, SingleLine s := by
  induction ts with
  | nil => simp [textsOfAll]
  | cons t ts ih =>
    rw [textsOfAll, List.forall_mem_append]
    exact ⟨h t List.mem_cons_self, ih fun u hu => h u (List.mem_cons_of_mem _ hu)⟩

theorem isOneLine_withText (n : Node) {make : String → TypeExpr}
    (h : ∀ text, (make text).IsOneLine) : (withText n make).IsOneLine := by
  rw [withText]
  split
  · exact h _
  · simp [IsOneLine, texts]

theorem isOneLine_ofReference (n : Node) : (ofReference n).IsOneLine :=
  isOneLine_withText n fun text => by simp [IsOneLine, texts, singleLine_withoutBlanks]

theorem isOneLine_ofOther (n : Node) : (ofOther n).IsOneLine :=
  isOneLine_withText n fun text => by simp [IsOneLine, texts]

theorem isOneLine_ofMethod (n : Node) (name : Option String) {arguments : List TypeExpr}
    (h : ∀ t ∈ arguments, t.IsOneLine) (first : Option Node) :
    (ofMethod n name arguments first).IsOneLine := by
  unfold ofMethod
  split
  · next inner _ =>
    rw [IsOneLine, texts]
    exact h inner List.mem_cons_self
  · rw [IsOneLine, texts]
    exact singleLine_of_mem_textsOfAll h
  · simp [IsOneLine, texts]
  · simp [IsOneLine, texts]
  · exact isOneLine_withText _ fun text => by simp [IsOneLine, texts, singleLine_withoutBlanks]
  · split
    · exact isOneLine_withText n fun text => by simp [IsOneLine, texts, singleLine_squeeze]
    · exact isOneLine_withText n fun text => by simp [IsOneLine, texts]
  · exact isOneLine_withText n fun text => by simp [IsOneLine, texts]

theorem isOneLine_ofContainer {container : String} (hc : SingleLine container)
    {members : List TypeExpr} (h : ∀ t ∈ members, t.IsOneLine) :
    (ofContainer container members).IsOneLine := by
  rw [ofContainer.eq_def]
  split
  · simpa [IsOneLine, texts] using hc
  · next first _ name hl =>
    have hall : ∀ p ∈ collections, SingleLine p.2 := by decide
    have hname := hall (container, name) (mem_of_lookup_eq_some hl)
    rw [IsOneLine, texts, List.forall_mem_cons]
    exact ⟨hname, h first List.mem_cons_self⟩
  · next key value _ =>
    split
    · rw [IsOneLine, texts, List.forall_mem_append]
      exact ⟨h key List.mem_cons_self, h value (List.mem_cons_of_mem _ List.mem_cons_self)⟩
    · rw [IsOneLine, texts, List.forall_mem_cons]
      exact ⟨hc, singleLine_of_mem_textsOfAll h⟩
  · rw [IsOneLine, texts, List.forall_mem_cons]
    exact ⟨hc, singleLine_of_mem_textsOfAll h⟩

theorem isOneLine_ofPlainKey? {key : Node} {t : TypeExpr} (h : ofPlainKey? key = some t) :
    t.IsOneLine := by
  rw [ofPlainKey?] at h
  split at h
  · cases h
    rw [IsOneLine, texts]
    decide
  · split at h
    · cases h
      rw [IsOneLine, texts]
      decide
    · cases h

/-- The keys and values of a shape are on one line if those of its pairs are. -/
theorem singleLine_entriesOf {pairs : List Node}
    (h : ∀ p ∈ pairs, ∀ c ∈ p.children, (ofNode c).IsOneLine) :
    ∀ s ∈ textsOfEntries (entriesOf pairs), SingleLine s := by
  induction pairs with
  | nil => simp [entriesOf, textsOfEntries]
  | cons pair pairs ih =>
    have hchild := h pair List.mem_cons_self
    have hrest := ih fun p hp => h p (List.mem_cons_of_mem _ hp)
    rw [entriesOf]
    split
    · next key value hkey hvalue =>
      rw [textsOfEntries, List.forall_mem_append, List.forall_mem_append]
      refine ⟨⟨?_, hchild value (Node.mem_of_child? hvalue)⟩, hrest⟩
      cases hplain : ofPlainKey? key with
      | none => exact hchild key (Node.mem_of_child? hkey)
      | some t => exact isOneLine_ofPlainKey? hplain
    · exact hrest

/-- What a node shows as it is written is on one line: its blanks are left out or squeezed. -/
theorem Writes.isOneLine {n : Node} {t : TypeExpr} (h : Writes n t) : t.IsOneLine := by
  induction h with
  | reference hk => exact isOneLine_ofReference _
  | @otherCall n hk hr => exact isOneLine_withText n fun text => by simp [IsOneLine, texts]
  | @typeCall n name hk hr hs ih =>
    exact isOneLine_ofMethod n name (List.forall_mem_map.mpr ih) _
  | @container n object text hk ho hl hs ih =>
    exact isOneLine_ofContainer (singleLine_withoutBlanks text) (List.forall_mem_map.mpr ih)
  | tuple hk hs ih =>
    rw [IsOneLine, texts]
    exact singleLine_of_mem_textsOfAll (List.forall_mem_map.mpr ih)
  | shape hk hs ih =>
    rw [IsOneLine, texts]
    exact singleLine_entriesOf ih
  | group hk hi hs ih => rwa [IsOneLine, texts]
  | other => exact isOneLine_ofOther _
  | illegibleCall | procedure | missing | illegibleObject | nilLiteral | boolLiteral =>
    simp [IsOneLine, texts]

theorem isOneLine_ofNode (n : Node) : (ofNode n).IsOneLine := (writes_ofNode n).isOneLine

/-- So every documentation type of a node is on one line. -/
theorem singleLine_print_ofNode (n : Node) : ∀ s ∈ (ofNode n).print, SingleLine s :=
  singleLine_print (ofNode n) (isOneLine_ofNode n)

end RubyDoc.TypeExpr

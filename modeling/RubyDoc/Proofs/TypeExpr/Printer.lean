import RubyDoc.Proofs.Docstring.Sealed
import RubyDoc.Proofs.Lookup
import RubyDoc.TypeExpr.Printer

/-!
# Documentation types that can stand in a list

The documentation types of an expression are made of the texts it shows as they
are written and of brackets, separators and arrows. So what holds of these texts
holds of the types, by induction on the expression, if it is kept when texts are
listed and put into brackets behind a name. To be on one line is kept; so is to be
balanced, trimmed and free of separating commas, as every bracket that printing
adds is filled with sealed text.
-/

namespace RubyDoc.TypeExpr

open RubyDoc.Text TypeList

mutual

/-- The texts that an expression shows as they are written: class names,
arguments, containers and calls. -/
def texts : TypeExpr → List String
  | reference name | classOf name | container name => [name]
  | verbatim text => [text]
  | nilable inner | group inner => texts inner
  | union members | tuple members => textsOfAll members
  | collection name member => name :: texts member
  | hash key value => texts key ++ texts value
  | generic name members => name :: textsOfAll members
  | shape entries => textsOfEntries entries
  | nilLiteral | boolLiteral _ | procedure | untyped | noreturn | missing | unsupported _
  | illegible => []

/-- The texts of a list of expressions. -/
def textsOfAll : List TypeExpr → List String
  | [] => []
  | t :: ts => texts t ++ textsOfAll ts

/-- The texts of keys and values. -/
def textsOfEntries : ShapeEntries → List String
  | .nil => []
  | .cons key value rest => texts key ++ texts value ++ textsOfEntries rest

end

/-! ### Printed types -/

theorem printAll_eq_map (ts : List TypeExpr) : printAll ts = ts.map print := by
  induction ts with
  | nil => rfl
  | cons t ts ih => rw [printAll, List.map_cons, ih]

/-- A text that can be shown for a type: the text of a type, on one line. -/
def IsShown (s : String) : Prop := IsTypeText s ∧ SingleLine s

instance (s : String) : Decidable (IsShown s) :=
  inferInstanceAs (Decidable (IsTypeText s ∧ SingleLine s))

/-- A text that can stand in brackets: sealed, on one line. -/
def IsFilling (s : String) : Prop := IsSealed s.toList ∧ SingleLine s

theorem IsShown.isFilling {s : String} (h : IsShown s) : IsFilling s := ⟨h.1.isSealed, h.2⟩

theorem IsFilling.append {s t : String} (hs : IsFilling s) (ht : IsFilling t) :
    IsFilling (s ++ t) := by
  refine ⟨?_, hs.2.append ht.2⟩
  rw [String.toList_append]
  exact hs.1.append ht.1

theorem isFilling_listed {types : List String} (h : ∀ t ∈ types, IsFilling t) :
    IsFilling (listed types) :=
  ⟨IsSealed.listed fun t ht => (h t ht).1,
    SingleLine.intercalate (by decide) fun t ht => (h t ht).2⟩

/-- A bracket is no line break. -/
theorem singleLine_bracket {c : Char} (h : isOpening c = true ∨ isClosing c = true) :
    isLineBreak c = false := by
  simp only [isOpening, isClosing, Bool.or_eq_true, beq_iff_eq] at h
  rcases h with (((rfl | rfl) | rfl) | rfl) | (((rfl | rfl) | rfl) | rfl) <;> rfl

section Bracketed

variable {opening closing : Char} (ho : isOpening opening = true) (hc : isClosing closing = true)
  {name inside s : String}
  (hs : s.toList = name.toList ++ opening :: (inside.toList ++ [closing]))

include ho hc hs

theorem singleLine_bracketed (hn : SingleLine name) (hi : SingleLine inside) : SingleLine s := by
  intro c hcs
  rw [hs, List.mem_append, List.mem_cons, List.mem_append, List.mem_singleton] at hcs
  rcases hcs with hname | rfl | hinside | rfl
  · exact hn c hname
  · exact singleLine_bracket (.inl ho)
  · exact hi c hinside
  · exact singleLine_bracket (.inr hc)

/-- A name with something in brackets behind it can be shown for a type. -/
theorem isShown_bracketed (hn : IsShown name) (hi : IsFilling inside) : IsShown s :=
  ⟨hn.1.bracketed ho hc hi.1 hs, singleLine_bracketed ho hc hs hn.2 hi.2⟩

end Bracketed

/-- A choice of types is put into brackets without a name. -/
theorem toList_squareBracketed (inside : String) :
    ("[" ++ inside ++ "]").toList = "".toList ++ '[' :: (inside.toList ++ [']']) := by
  rw [String.toList_append, String.toList_append]
  rfl

theorem isFilling_squareBracketed {inside : String} (hi : IsFilling inside) :
    IsFilling ("[" ++ inside ++ "]") := by
  have htext := toList_squareBracketed inside
  refine ⟨?_, singleLine_bracketed (by decide) (by decide) htext (by decide) hi.2⟩
  rw [htext]
  exact (IsSealed.bracketed (by decide) (by decide) hi.1).1

/-- Only known items and new ones are put into a list. -/
theorem mem_of_mem_insertNew {known items : List String} {s : String}
    (h : s ∈ insertNew known items) : s ∈ known ∨ s ∈ items := by
  induction items generalizing known with
  | nil => exact .inl h
  | cons item items ih =>
    rw [insertNew] at h
    rcases ih h with hk | hi
    · split at hk
      · exact .inl hk
      · rcases List.mem_append.mp hk with hk | hk
        · exact .inl hk
        · exact .inr (List.mem_singleton.mp hk ▸ List.mem_cons_self)
    · exact .inr (List.mem_cons_of_mem _ hi)

/-! ### What printing keeps -/

/-- The types and names that are printed whatever the source says. -/
def fixedTexts : List String :=
  aliases.map Prod.snd ++
    [nilType, "true", "false", "Proc", anyType, voidType, "T.class_of", "Hash", "Array"]

/-- A property of the texts shown for types, and one of the texts in their brackets, that
printing keeps: the fixed texts have the first, and whatever is put together from texts with
these properties has them again. -/
structure KeptByPrinting (Shown Filling : String → Prop) : Prop where
  /-- A type can stand in brackets. -/
  filling_of_shown {s : String} : Shown s → Filling s
  /-- What does not come from the source. -/
  shown_fixed : ∀ s ∈ fixedTexts, Shown s
  /-- Types separated by commas. -/
  filling_listed {types : List String} : (∀ t ∈ types, Filling t) → Filling (listed types)
  /-- Keys and values of a hash. -/
  filling_arrow {keys values : String} : Filling keys → Filling values →
    Filling (keys ++ " => " ++ values)
  /-- A choice of types in a place of a tuple. -/
  filling_choice {inside : String} : Filling inside → Filling ("[" ++ inside ++ "]")
  /-- A name with something in brackets behind it. -/
  shown_bracketed {opening closing : Char} {name inside s : String} : isOpening opening = true →
    isClosing closing = true → s.toList = name.toList ++ opening :: (inside.toList ++ [closing]) →
    Shown name → Filling inside → Shown s

namespace KeptByPrinting

variable {Shown Filling : String → Prop}

section Parts

variable (k : KeptByPrinting Shown Filling)

include k

theorem shown_displayName {name : String} (h : Shown name) : Shown (displayName name) := by
  rw [displayName]
  cases hl : aliases.lookup name with
  | none => exact h
  | some shown =>
    have hmem := List.mem_map_of_mem (f := Prod.snd) (mem_of_lookup_eq_some hl)
    exact k.shown_fixed shown (List.mem_append_left _ hmem)

/-- Several types separated by commas can stand in brackets. -/
theorem filling_listedTypes {types : List String} (h : ∀ t ∈ types, Shown t) :
    Filling (listed types) :=
  k.filling_listed fun t ht => k.filling_of_shown (h t ht)

/-- A place of a tuple can stand in brackets. -/
theorem filling_tuplePlace {types : List String} (h : ∀ t ∈ types, Shown t) :
    Filling (tuplePlace types) := by
  rw [tuplePlace.eq_def]
  split
  · next type => exact k.filling_of_shown (h type List.mem_cons_self)
  · exact k.filling_choice (k.filling_listedTypes h)

theorem shown_hashType {keys values : String} (hk : Filling keys) (hv : Filling values) :
    Shown (hashType keys values) := by
  have htext : (hashType keys values).toList =
      "Hash".toList ++ '{' :: ((keys ++ " => " ++ values).toList ++ ['}']) := by
    rw [hashType]
    simp only [String.toList_append, List.append_assoc]
    rfl
  have hname : Shown "Hash" := k.shown_fixed _ (by decide)
  exact k.shown_bracketed (by decide) (by decide) htext hname (k.filling_arrow hk hv)

theorem shown_shapeType {entries : List (List String × List String)}
    (h : ∀ e ∈ entries, (∀ t ∈ e.1, Shown t) ∧ ∀ t ∈ e.2, Shown t) :
    Shown (shapeType entries) := by
  rw [shapeType]
  split
  · exact k.shown_fixed _ (by decide)
  · refine k.shown_hashType (k.filling_listed fun t ht => ?_) (k.filling_listedTypes fun t ht => ?_)
    · rcases mem_of_mem_insertNew ht with hn | ht
      · cases hn
      · obtain ⟨e, he, rfl⟩ := List.mem_map.mp ht
        exact k.filling_listedTypes (h e he).1
    · rcases mem_of_mem_insertNew ht with hn | ht
      · cases hn
      · obtain ⟨e, he, ht⟩ := List.mem_flatMap.mp ht
        exact (h e he).2 t ht

/-- A generic type in angle brackets. -/
theorem shown_generic {name members : String} (hn : Shown name) (hm : Filling members) :
    Shown (name ++ "<" ++ members ++ ">") := by
  have htext : (name ++ "<" ++ members ++ ">").toList =
      name.toList ++ '<' :: (members.toList ++ ['>']) := by
    simp only [String.toList_append, List.append_assoc]
    rfl
  exact k.shown_bracketed (by decide) (by decide) htext hn hm

/-- A type in round brackets behind a fixed name. -/
theorem shown_round {start name members : String} (hn : Shown name)
    (hs : start.toList = name.toList ++ ['(']) (hm : Filling members) :
    Shown (start ++ members ++ ")") := by
  have htext : (start ++ members ++ ")").toList =
      name.toList ++ '(' :: (members.toList ++ [')']) := by
    rw [String.toList_append, String.toList_append, hs]
    simp
  exact k.shown_bracketed (by decide) (by decide) htext hn hm

end Parts

mutual

/-- What printing keeps holds of every documentation type if it holds of the texts that the
expression shows. -/
theorem shown_print (k : KeptByPrinting Shown Filling) :
    (t : TypeExpr) → (∀ s ∈ t.texts, Shown s) → ∀ s ∈ t.print, Shown s
  | .reference name, h, s, hs => by
    rw [print, List.mem_singleton] at hs
    exact hs ▸ k.shown_displayName (h name (by simp [texts]))
  | .boolLiteral value, _, s, hs => by
    rw [print, List.mem_singleton] at hs
    cases value <;> exact hs ▸ k.shown_fixed _ (by decide)
  | .nilLiteral, _, s, hs | .procedure, _, s, hs | .untyped, _, s, hs | .noreturn, _, s, hs
  | .missing, _, s, hs | .unsupported _, _, s, hs | .illegible, _, s, hs => by
    rw [print, List.mem_singleton] at hs
    exact hs ▸ k.shown_fixed _ (by decide)
  | .nilable inner, h, s, hs => by
    rw [print, List.mem_append, List.mem_singleton] at hs
    rw [texts] at h
    rcases hs with hs | rfl
    · exact k.shown_print inner h s hs
    · exact k.shown_fixed _ (by decide)
  | .union members, h, s, hs => by
    rw [print, List.mem_flatten] at hs
    rw [texts] at h
    obtain ⟨types, ht, hs⟩ := hs
    exact k.shown_printAll members h types ht s hs
  | .classOf name, h, s, hs => by
    rw [print, List.mem_singleton] at hs
    have hname := k.shown_displayName (h name (by simp [texts]))
    have hclass : Shown "T.class_of" := k.shown_fixed _ (by decide)
    exact hs ▸ k.shown_round hclass rfl (k.filling_of_shown hname)
  | .verbatim text, h, s, hs => by
    rw [print, List.mem_singleton] at hs
    exact hs ▸ h text (by simp [texts])
  | .container name, h, s, hs => by
    rw [print, List.mem_singleton] at hs
    exact hs ▸ h name (by simp [texts])
  | .collection name member, h, s, hs => by
    rw [print, List.mem_singleton] at hs
    rw [texts, List.forall_mem_cons] at h
    exact hs ▸ k.shown_generic h.1 (k.filling_listedTypes (k.shown_print member h.2))
  | .hash key value, h, s, hs => by
    rw [print, List.mem_singleton] at hs
    rw [texts, List.forall_mem_append] at h
    exact hs ▸ k.shown_hashType (k.filling_listedTypes (k.shown_print key h.1))
      (k.filling_listedTypes (k.shown_print value h.2))
  | .generic name members, h, s, hs => by
    rw [print, List.mem_singleton] at hs
    rw [texts, List.forall_mem_cons] at h
    refine hs ▸ k.shown_generic h.1 (k.filling_listed fun t ht => ?_)
    obtain ⟨types, hm, rfl⟩ := List.mem_map.mp ht
    exact k.filling_listedTypes (k.shown_printAll members h.2 types hm)
  | .tuple members, h, s, hs => by
    rw [print, List.mem_singleton] at hs
    rw [texts] at h
    have harray : Shown "Array" := k.shown_fixed _ (by decide)
    refine hs ▸ k.shown_round harray rfl (k.filling_listed fun t ht => ?_)
    obtain ⟨types, hm, rfl⟩ := List.mem_map.mp ht
    exact k.filling_tuplePlace (k.shown_printAll members h types hm)
  | .shape entries, h, s, hs => by
    rw [print, List.mem_singleton] at hs
    rw [texts] at h
    exact hs ▸ k.shown_shapeType (k.shown_printEntries entries h)
  | .group inner, h, s, hs => by
    rw [print] at hs
    rw [texts] at h
    exact k.shown_print inner h s hs

theorem shown_printAll (k : KeptByPrinting Shown Filling) :
    (ts : List TypeExpr) → (∀ s ∈ textsOfAll ts, Shown s) →
    ∀ types ∈ printAll ts, ∀ s ∈ types, Shown s
  | [], _, types, ht => by
    rw [printAll] at ht
    cases ht
  | t :: ts, h, types, ht => by
    rw [textsOfAll, List.forall_mem_append] at h
    rw [printAll, List.mem_cons] at ht
    rcases ht with rfl | ht
    · exact k.shown_print t h.1
    · exact k.shown_printAll ts h.2 types ht

theorem shown_printEntries (k : KeptByPrinting Shown Filling) :
    (entries : ShapeEntries) → (∀ s ∈ textsOfEntries entries, Shown s) →
    ∀ e ∈ printEntries entries, (∀ t ∈ e.1, Shown t) ∧ ∀ t ∈ e.2, Shown t
  | .nil, _, e, he => by
    rw [printEntries] at he
    cases he
  | .cons key value rest, h, e, he => by
    rw [textsOfEntries, List.forall_mem_append, List.forall_mem_append] at h
    rw [printEntries, List.mem_cons] at he
    rcases he with rfl | he
    · exact ⟨k.shown_print key h.1.1, k.shown_print value h.1.2⟩
    · exact k.shown_printEntries rest h.2 e he

end

end KeptByPrinting

theorem keptByPrinting_isShown : KeptByPrinting IsShown IsFilling where
  filling_of_shown := IsShown.isFilling
  shown_fixed := by decide
  filling_listed := isFilling_listed
  filling_arrow hk hv := by
    have harrow : IsFilling " => " := ⟨by decide, by decide⟩
    exact (hk.append harrow).append hv
  filling_choice := isFilling_squareBracketed
  shown_bracketed ho hc := isShown_bracketed ho hc

/-- Every documentation type can be shown if the texts it is made of can. -/
theorem isShown_print (t : TypeExpr) (h : ∀ s ∈ t.texts, IsShown s) : ∀ s ∈ t.print, IsShown s :=
  keptByPrinting_isShown.shown_print t h

theorem keptByPrinting_singleLine : KeptByPrinting SingleLine SingleLine where
  filling_of_shown h := h
  shown_fixed := by decide
  filling_listed := SingleLine.intercalate (by decide)
  filling_arrow hk hv := by
    have harrow : SingleLine " => " := by decide
    exact (hk.append harrow).append hv
  filling_choice hi :=
    singleLine_bracketed (by decide) (by decide) (toList_squareBracketed _) (by decide) hi
  shown_bracketed ho hc := singleLine_bracketed ho hc

/-- Every documentation type is on one line if the texts it is made of are: balanced or not. -/
theorem singleLine_print (t : TypeExpr) (h : ∀ s ∈ t.texts, SingleLine s) :
    ∀ s ∈ t.print, SingleLine s :=
  keptByPrinting_singleLine.shown_print t h

end RubyDoc.TypeExpr

import RubyDoc.Proofs.Docstring.TypeList

/-!
# Sealed texts

A printed type is made of names, brackets and other types. A text is sealed if
it closes every bracket it opens and cannot make the `>` behind it part of an
arrow. Sealed texts can be put together and put into brackets, and what stands
in brackets hides its commas. So a bracket behind a name gives one item of a
type list, whatever sealed text it holds.
-/

namespace RubyDoc.TypeList

open RubyDoc.Text

/-! ### Depth of texts put together -/

/-- The character before what follows a text, from the one before the text. -/
def lastOf (previous : Option Char) (cs : List Char) : Option Char := cs.getLast?.or previous

theorem lastOf_cons (p : Option Char) (c : Char) (cs : List Char) :
    lastOf p (c :: cs) = lastOf (some c) cs := by
  rw [lastOf, lastOf, List.getLast?_cons, Option.some_or]
  cases cs.getLast? <;> rfl

/-- A text that does not end in an equals sign leaves none to what follows it. -/
theorem lastOf_ne {p : Option Char} {cs : List Char} (hp : p ≠ some '=')
    (h : cs.getLast? ≠ some '=') : lastOf p cs ≠ some '=' := by
  rw [lastOf]
  cases hl : cs.getLast? with
  | none => exact hp
  | some c => rwa [Option.some_or, ← hl]

theorem depthThrough_append (depth : Int) (p : Option Char) (xs ys : List Char) :
    depthThrough depth p (xs ++ ys) =
      depthThrough (depthThrough depth p xs) (lastOf p xs) ys := by
  induction xs generalizing depth p with
  | nil => rfl
  | cons x xs ih => rw [List.cons_append, depthThrough, ih, depthThrough, lastOf_cons]

theorem staysAbove_append (bound depth : Int) (p : Option Char) (xs ys : List Char) :
    staysAbove bound depth p (xs ++ ys) =
      (staysAbove bound depth p xs &&
        staysAbove bound (depthThrough depth p xs) (lastOf p xs) ys) := by
  induction xs generalizing depth p with
  | nil =>
    rw [List.nil_append, staysAbove, depthThrough, lastOf, List.getLast?_nil, Option.none_or]
    cases ys with
    | nil => rw [staysAbove, Bool.and_self]
    | cons y ys => rw [staysAbove, ← Bool.and_assoc, Bool.and_self]
  | cons x xs ih =>
    rw [List.cons_append, staysAbove, ih, staysAbove, depthThrough, lastOf_cons, Bool.and_assoc]

theorem commasInside_append (depth : Int) (p : Option Char) (xs ys : List Char) :
    commasInside depth p (xs ++ ys) =
      (commasInside depth p xs && commasInside (depthThrough depth p xs) (lastOf p xs) ys) := by
  induction xs generalizing depth p with
  | nil => rfl
  | cons x xs ih =>
    rw [List.cons_append, commasInside, ih, commasInside, depthThrough, lastOf_cons,
      Bool.and_assoc]

/-- A text above a bound is above a lower one. -/
theorem staysAbove_of_le {bound bound' : Int} (hb : bound' ≤ bound) {depth : Int}
    {p : Option Char} {cs : List Char} (h : staysAbove bound depth p cs = true) :
    staysAbove bound' depth p cs = true := by
  induction cs generalizing depth p with
  | nil =>
    rw [staysAbove, decide_eq_true_eq] at h ⊢
    omega
  | cons c cs ih =>
    rw [staysAbove, Bool.and_eq_true, decide_eq_true_eq] at h ⊢
    exact ⟨by omega, ih h.2⟩

/-- Every comma of a text inside brackets stands inside brackets. -/
theorem commasInside_of_staysAbove {depth : Int} {p : Option Char} {cs : List Char}
    (h : staysAbove 1 depth p cs = true) : commasInside depth p cs = true := by
  induction cs generalizing depth p with
  | nil => rfl
  | cons c cs ih =>
    rw [staysAbove, Bool.and_eq_true, decide_eq_true_eq] at h
    have hdepth : (depth != 0) = true := by
      rw [bne_iff_ne]
      omega
    rw [commasInside, hdepth, Bool.or_true, ih h.2, Bool.and_self]

/-! ### Sealed texts -/

/-- Text that can stand in brackets without changing what they close. -/
structure IsSealed (cs : List Char) : Prop where
  /-- It closes no bracket that it did not open. -/
  above : staysAbove 0 0 none cs = true
  /-- It closes all that it opened. -/
  closed : depthThrough 0 none cs = 0
  /-- A `>` behind it is no arrow. -/
  unequal : cs.getLast? ≠ some '='

instance (cs : List Char) : Decidable (IsSealed cs) :=
  decidable_of_iff
    (staysAbove 0 0 none cs = true ∧ depthThrough 0 none cs = 0 ∧ cs.getLast? ≠ some '=')
    ⟨fun ⟨ab, cl, un⟩ => ⟨ab, cl, un⟩, fun ⟨ab, cl, un⟩ => ⟨ab, cl, un⟩⟩

namespace IsSealed

theorem nil : IsSealed [] := by decide

section Counted

variable {cs : List Char} (h : IsSealed cs) (depth : Int) {p : Option Char} (hp : p ≠ some '=')

include h hp

/-- A sealed text leaves the depth as it is. -/
theorem depthThrough_eq : depthThrough depth p cs = depth := by
  have hadd := depthThrough_add 0 depth none cs
  rwa [h.closed, Int.zero_add, depthThrough_congr (by simp) hp] at hadd

/-- A sealed text stays at its own level. -/
theorem staysAbove_eq : staysAbove depth depth p cs = true := by
  have hadd := staysAbove_add 0 0 depth none cs
  rwa [h.above, Int.zero_add, staysAbove_congr (by simp) hp] at hadd

end Counted

/-- Sealed texts are sealed together. -/
theorem append {xs ys : List Char} (hx : IsSealed xs) (hy : IsSealed ys) : IsSealed (xs ++ ys) := by
  have hlast : lastOf none xs ≠ some '=' := lastOf_ne (by simp) hx.unequal
  refine ⟨?_, ?_, ?_⟩
  · rw [staysAbove_append, hx.above, hx.closed, hy.staysAbove_eq 0 hlast, Bool.and_self]
  · rw [depthThrough_append, hx.closed, hy.depthThrough_eq 0 hlast]
  · rw [List.getLast?_append]
    cases hl : ys.getLast? with
    | none => exact hx.unequal
    | some c => rw [Option.some_or, ← hl]; exact hy.unequal

/-- Sealed text is sealed in brackets, where its commas are hidden. -/
theorem bracketed {opening closing : Char} (ho : isOpening opening = true)
    (hc : isClosing closing = true) {cs : List Char} (h : IsSealed cs) :
    IsSealed (opening :: (cs ++ [closing])) ∧
      commasInside 0 none (opening :: (cs ++ [closing])) = true := by
  have hopening : some opening ≠ some '=' := fun he => by
    rw [Option.some.inj he] at ho
    cases ho
  have hclosing : closing ≠ '=' ∧ closing ≠ ',' ∧ isOpening closing = false := by
    simp only [isClosing, Bool.or_eq_true, beq_iff_eq] at hc
    rcases hc with ((rfl | rfl) | rfl) | rfl <;> decide
  have hcomma : opening ≠ ',' := fun he => by
    rw [he] at ho
    cases ho
  have hlast : lastOf (some opening) cs ≠ some '=' := lastOf_ne hopening h.unequal
  have hcloses : closes (lastOf (some opening) cs) closing = true := by
    rw [closes, hc, beq_eq_false_iff_ne.mpr hlast, Bool.and_false]
    rfl
  have hup : depthAfter 0 none opening = 1 := if_pos ho
  have hdown : depthAfter 1 (lastOf (some opening) cs) closing = 0 := by
    rw [depthAfter, if_neg (by simp [hclosing.2.2]), if_pos hcloses]
    rfl
  have hinside : staysAbove 1 1 (some opening) cs = true := h.staysAbove_eq 1 hopening
  have hdepth : depthThrough 1 (some opening) cs = 1 := h.depthThrough_eq 1 hopening
  refine ⟨⟨?_, ?_, ?_⟩, ?_⟩
  · rw [staysAbove, hup, staysAbove_append, staysAbove_of_le (by omega) hinside, hdepth,
      staysAbove, hdown]
    rfl
  · rw [depthThrough, hup, depthThrough_append, hdepth, depthThrough, hdown, depthThrough]
  · rw [← List.cons_append, List.getLast?_concat, ne_eq, Option.some.injEq]
    exact hclosing.1
  · rw [commasInside, hup, commasInside_append, commasInside_of_staysAbove hinside, hdepth,
      commasInside, bne_iff_ne.mpr hcomma, bne_iff_ne.mpr hclosing.2.1]
    rfl

/-- Types of a list are sealed together, with the separators between them. -/
theorem listed {types : List String} (h : ∀ t ∈ types, IsSealed t.toList) :
    IsSealed (String.intercalate ", " types).toList := by
  induction types with
  | nil => exact nil
  | cons t ts ih =>
    have ht := h t List.mem_cons_self
    cases ts with
    | nil => rwa [String.intercalate_singleton]
    | cons u us =>
      have hrest := ih fun v hv => h v (List.mem_cons_of_mem _ hv)
      have hsep : IsSealed ", ".toList := by decide
      rw [String.intercalate_cons_cons, String.toList_append, String.toList_append]
      exact (ht.append hsep).append hrest

end IsSealed

/-! ### Texts of types -/

/-- A text as it can stand for a type in a longer one: trimmed, balanced, with its
commas inside brackets, and not ending in an equals sign. -/
structure IsTypeText (s : String) : Prop where
  /-- The text is not empty. -/
  nonempty : s ≠ ""
  /-- No blanks stand around it. -/
  stripped : strip s = s
  /-- Its brackets are balanced. -/
  balanced : Balanced s
  /-- No comma in it separates types. -/
  commas : commasInside 0 none s.toList = true
  /-- A `>` behind it is no arrow. -/
  unequal : s.toList.getLast? ≠ some '='

instance (s : String) : Decidable (IsTypeText s) :=
  decidable_of_iff
    (s ≠ "" ∧ strip s = s ∧ Balanced s ∧ commasInside 0 none s.toList = true ∧
      s.toList.getLast? ≠ some '=')
    ⟨fun ⟨ne, st, ba, co, un⟩ => ⟨ne, st, ba, co, un⟩,
      fun ⟨ne, st, ba, co, un⟩ => ⟨ne, st, ba, co, un⟩⟩

namespace IsTypeText

variable {s : String}

/-- The text of a type is sealed. -/
theorem isSealed (h : IsTypeText s) : IsSealed s.toList := ⟨h.balanced.1, h.balanced.2, h.unequal⟩

/-- The text of a type on one line can stand in a list. -/
theorem isItem (h : IsTypeText s) (hl : SingleLine s) : IsItem s :=
  ⟨h.nonempty, h.stripped, hl, h.balanced, h.commas⟩

/-- Sealed text in brackets behind a name is the text of a type. -/
theorem bracketed {name inside : String} {opening closing : Char} (ho : isOpening opening = true)
    (hc : isClosing closing = true) (hn : IsTypeText name) (hi : IsSealed inside.toList)
    (hs : s.toList = name.toList ++ opening :: (inside.toList ++ [closing])) : IsTypeText s := by
  obtain ⟨hsealed, hcommas⟩ := IsSealed.bracketed ho hc hi
  have hlast : lastOf none name.toList ≠ some '=' := lastOf_ne (by simp) hn.unequal
  have hwhole := hn.isSealed.append hsealed
  rw [← hs] at hwhole
  have hclosing : isBlank closing = false := by
    simp only [isClosing, Bool.or_eq_true, beq_iff_eq] at hc
    rcases hc with ((rfl | rfl) | rfl) | rfl <;> rfl
  have hhead : ∀ c ∈ s.toList.head?, isBlank c = false := by
    have hname := head?_trim name.toList
    rw [← toList_strip, hn.stripped] at hname
    have hne : name.toList ≠ [] := fun he => hn.nonempty (String.toList_eq_nil_iff.mp he)
    rw [List.head?_eq_some_head hne] at hname
    rwa [hs, List.head?_append, List.head?_eq_some_head hne, Option.some_or]
  have hend : ∀ c ∈ s.toList.getLast?, isBlank c = false := by
    rw [hs, ← List.cons_append, ← List.append_assoc, List.getLast?_concat]
    intro c hcl
    rwa [← Option.mem_some_iff.mp hcl]
  refine ⟨?_, ?_, ⟨hwhole.above, hwhole.closed⟩, ?_, hwhole.unequal⟩
  · rintro rfl
    simp at hs
  · rw [strip, trim_eq_self hhead hend, String.ofList_toList]
  · rw [hs, commasInside_append, hn.commas, hn.balanced.2,
      commasInside_congr (q := none) hlast (by simp), hcommas, Bool.and_self]

end IsTypeText

end RubyDoc.TypeList

import Mathlib.Data.List.TakeWhile
import RubyDoc.Text.Blank

/-!
# Trimmed texts

A text is trimmed exactly if no blank stands at its ends, and trimming twice is
trimming once. Of two texts put together only the outer ends are trimmed, as
long as the inner ones hold more than blanks. Blanks inside a text are not
looked at here.
-/

namespace RubyDoc.Text

/-- A list that begins with no blank loses nothing at its front. -/
theorem trimStart_eq_self {cs : List Char} (h : ∀ c ∈ cs.head?, isBlank c = false) :
    trimStart cs = cs := by
  cases cs with
  | nil => rfl
  | cons c cs => exact List.dropWhile_cons_of_neg (by simp [h c (by simp)])

/-- What is left after trimming the front begins with no blank. -/
theorem head?_trimStart (cs : List Char) : ∀ c ∈ (trimStart cs).head?, isBlank c = false := by
  intro c hc
  induction cs with
  | nil => cases hc
  | cons d cs ih =>
    cases hd : isBlank d with
    | true =>
      rw [trimStart, List.dropWhile_cons_of_pos hd] at hc
      exact ih hc
    | false =>
      rw [trimStart, List.dropWhile_cons_of_neg (by simp [hd])] at hc
      cases hc
      exact hd

/-- A list that finishes with no blank loses nothing at its back. -/
theorem trimEnd_eq_self {cs : List Char} (h : ∀ c ∈ cs.getLast?, isBlank c = false) :
    trimEnd cs = cs := by
  have hr : trimStart cs.reverse = cs.reverse :=
    trimStart_eq_self (by rwa [List.head?_reverse])
  rw [trimStart] at hr
  rw [trimEnd, hr, List.reverse_reverse]

/-- What is left after trimming the back finishes with no blank. -/
theorem getLast?_trimEnd (cs : List Char) : ∀ c ∈ (trimEnd cs).getLast?, isBlank c = false := by
  intro c hc
  rw [trimEnd, List.getLast?_reverse] at hc
  exact head?_trimStart cs.reverse c hc

/-- Trimming the back keeps a prefix. -/
theorem trimEnd_isPrefix (cs : List Char) : trimEnd cs <+: cs := by
  have hs := List.dropWhile_suffix isBlank (l := cs.reverse)
  simpa [trimEnd] using List.reverse_prefix.mpr hs

/-- Only blanks are trimmed off the back. -/
theorem exists_trimEnd_append (cs : List Char) :
    ∃ blanks, cs = trimEnd cs ++ blanks ∧ ∀ c ∈ blanks, isBlank c = true := by
  have hcut : cs.reverse.takeWhile isBlank ++ cs.reverse.dropWhile isBlank = cs.reverse :=
    List.takeWhile_append_dropWhile
  refine ⟨(cs.reverse.takeWhile isBlank).reverse, ?_, fun c hc => ?_⟩
  · rw [trimEnd, ← List.reverse_append, hcut, List.reverse_reverse]
  · exact List.all_eq_true.mp List.all_takeWhile c (List.mem_reverse.mp hc)

/-- Trimming the back leaves the front as it is. -/
theorem head?_trimEnd {cs : List Char} {c : Char} (h : (trimEnd cs).head? = some c) :
    cs.head? = some c := by
  obtain ⟨rest, hr⟩ := trimEnd_isPrefix cs
  rw [← hr, List.head?_append, h, Option.some_or]

/-- A trimmed list begins with no blank. -/
theorem head?_trim (cs : List Char) : ∀ c ∈ (trim cs).head?, isBlank c = false := by
  intro c hc
  exact head?_trimStart cs c (head?_trimEnd hc)

/-- A trimmed list finishes with no blank. -/
theorem getLast?_trim (cs : List Char) : ∀ c ∈ (trim cs).getLast?, isBlank c = false :=
  getLast?_trimEnd _

/-- Trimming leaves nothing new. -/
theorem mem_of_mem_trim {cs : List Char} {c : Char} (h : c ∈ trim cs) : c ∈ cs :=
  (List.dropWhile_sublist _).subset ((trimEnd_isPrefix _).subset h)

/-- A list without blanks at its ends is trimmed. -/
theorem trim_eq_self {cs : List Char} (hh : ∀ c ∈ cs.head?, isBlank c = false)
    (hl : ∀ c ∈ cs.getLast?, isBlank c = false) : trim cs = cs := by
  rw [trim, trimStart_eq_self hh, trimEnd_eq_self hl]

/-- Trimming twice is trimming once. -/
theorem trim_trim (cs : List Char) : trim (trim cs) = trim cs :=
  trim_eq_self (head?_trim cs) (getLast?_trim cs)

/-- The space in front of a text is trimmed away. -/
theorem trim_space_cons (cs : List Char) : trim (' ' :: cs) = trim cs := by
  rw [trim, trim, trimStart, List.dropWhile_cons_of_pos isBlank_space, trimStart]

/-- The blanks behind a text without blanks at its end are all that is trimmed. -/
theorem trimEnd_append {xs : List Char} (h : ∀ c ∈ xs.getLast?, isBlank c = false)
    (ys : List Char) :
    trimEnd (xs ++ ys) = xs ++ trimEnd ys := by
  have hx := trimEnd_eq_self h
  rw [trimEnd] at hx
  rw [trimEnd, List.reverse_append, List.dropWhile_append, trimEnd]
  split
  · next he =>
    rw [List.isEmpty_iff] at he
    rw [hx, he, List.reverse_nil, List.append_nil]
  · rw [List.reverse_append, List.reverse_reverse]

/-- Where something is left of the back, the front is kept whole. -/
theorem trimEnd_append_of_ne_nil {ys : List Char} (h : trimEnd ys ≠ []) (xs : List Char) :
    trimEnd (xs ++ ys) = xs ++ trimEnd ys := by
  rw [trimEnd] at h
  rw [trimEnd, List.reverse_append, List.dropWhile_append, if_neg, List.reverse_append,
    List.reverse_reverse, trimEnd]
  intro he
  rw [List.isEmpty_iff] at he
  exact h (by rw [he, List.reverse_nil])

/-- The blanks behind the last character that is no blank are dropped. -/
theorem trimEnd_cons {c : Char} {cs : List Char} (h : isBlank c = false ∨ trimEnd cs ≠ []) :
    trimEnd (c :: cs) = c :: trimEnd cs := by
  rcases h with hc | hne
  · have hlast : ∀ d ∈ [c].getLast?, isBlank d = false := by simpa using hc
    exact trimEnd_append hlast cs
  · exact trimEnd_append_of_ne_nil hne [c]

/-- Blanks only are trimmed away, also from the back. -/
theorem trimEnd_of_blank {cs : List Char} (h : ∀ c ∈ cs, isBlank c = true) : trimEnd cs = [] := by
  have hd : cs.reverse.dropWhile isBlank = [] := by
    rw [List.dropWhile_eq_nil_iff]
    intro c hc
    exact h c (List.mem_reverse.mp hc)
  rw [trimEnd, hd, List.reverse_nil]

/-- It does not matter which end is trimmed first. -/
theorem trimStart_trimEnd (cs : List Char) : trimStart (trimEnd cs) = trimEnd (trimStart cs) := by
  have hpre : ∀ c ∈ cs.takeWhile isBlank, isBlank c = true := fun c hc =>
    List.all_eq_true.mp List.all_takeWhile c hc
  have hcs : cs.takeWhile isBlank ++ trimStart cs = cs := List.takeWhile_append_dropWhile
  have hcore := head?_trimStart cs
  cases hc : trimStart cs with
  | nil =>
    have hall : ∀ c ∈ cs, isBlank c = true := by
      rw [hc, List.append_nil] at hcs
      rwa [hcs] at hpre
    rw [trimEnd_of_blank hall]
    rfl
  | cons c core =>
    rw [hc] at hcs hcore
    have hb := hcore c rfl
    have hne : trimEnd (c :: core) ≠ [] := by
      intro he
      rw [trimEnd, List.reverse_eq_nil_iff, List.dropWhile_eq_nil_iff] at he
      have := he c (by simp)
      rw [hb] at this
      cases this
    have hend : trimEnd cs = cs.takeWhile isBlank ++ trimEnd (c :: core) := by
      rw [← trimEnd_append_of_ne_nil hne, hcs]
    have hstart : trimStart (trimEnd (c :: core)) = trimEnd (c :: core) := by
      refine trimStart_eq_self fun d hd => ?_
      have := head?_trimEnd hd
      rw [List.head?_cons, Option.some.injEq] at this
      rw [← this]
      exact hb
    rw [hend, trimStart, List.dropWhile_append_of_pos hpre]
    exact hstart

/-- Trimming the back beforehand changes nothing. -/
theorem trim_trimEnd (cs : List Char) : trim (trimEnd cs) = trim cs := by
  rw [trim, trimStart_trimEnd, trimEnd_eq_self (getLast?_trimEnd _), trim]

/-- Blanks behind a text are trimmed off its back. -/
theorem trimEnd_append_blank (xs : List Char) {ys : List Char} (h : ∀ c ∈ ys, isBlank c = true) :
    trimEnd (xs ++ ys) = trimEnd xs := by
  rw [trimEnd, List.reverse_append,
    List.dropWhile_append_of_pos fun c hc => h c (List.mem_reverse.mp hc), trimEnd]

/-- Blanks behind a text are trimmed away. -/
theorem trim_append_blank (xs : List Char) {ys : List Char} (h : ∀ c ∈ ys, isBlank c = true) :
    trim (xs ++ ys) = trim xs := by
  rw [← trim_trimEnd, trimEnd_append_blank xs h, trim_trimEnd]

/-- Trimming the back of a part beforehand changes nothing. -/
theorem trimEnd_cons_trimEnd (c : Char) (cs : List Char) :
    trimEnd (c :: trimEnd cs) = trimEnd (c :: cs) := by
  obtain ⟨blanks, hcs, hblank⟩ := exists_trimEnd_append cs
  have hsplit : c :: cs = (c :: trimEnd cs) ++ blanks := congrArg (c :: ·) hcs
  rw [hsplit, trimEnd_append_blank _ hblank]

/-- Trimming the back leaves all that is no blank. -/
theorem filter_trimEnd (cs : List Char) :
    (trimEnd cs).filter (fun c => !isBlank c) = cs.filter fun c => !isBlank c := by
  obtain ⟨blanks, hcs, hblank⟩ := exists_trimEnd_append cs
  have hnone : blanks.filter (fun c => !isBlank c) = [] := by
    rw [List.filter_eq_nil_iff]
    intro c hc
    simp [hblank c hc]
  have hkeep := congrArg (List.filter fun c => !isBlank c) hcs
  rw [List.filter_append, hnone, List.append_nil] at hkeep
  exact hkeep.symm

/-- What is no blank behind a blank stands behind it. -/
theorem exists_of_blank_cons {c : Char} {cs : List Char} (hc : isBlank c = true)
    (h : ∃ d ∈ c :: cs, isBlank d = false) : ∃ d ∈ cs, isBlank d = false := by
  obtain ⟨d, hd, hb⟩ := h
  rcases List.mem_cons.mp hd with rfl | hd
  · rw [hc] at hb
    cases hb
  · exact ⟨d, hd, hb⟩

/-- A text that holds something still does without the blanks at its end. -/
theorem trimEnd_ne_nil {cs : List Char} (h : ∃ c ∈ cs, isBlank c = false) : trimEnd cs ≠ [] := by
  obtain ⟨c, hc, hb⟩ := h
  intro he
  have hkept : c ∈ (trimEnd cs).filter fun c => !isBlank c := by
    rw [filter_trimEnd, List.mem_filter, hb]
    exact ⟨hc, rfl⟩
  rw [he] at hkept
  cases hkept

/-- Trimming leaves all that is no blank. -/
theorem filter_trim (cs : List Char) :
    (trim cs).filter (fun c => !isBlank c) = cs.filter fun c => !isBlank c := by
  have hstart : ∀ ds : List Char,
      (ds.dropWhile isBlank).filter (fun c => !isBlank c) = ds.filter fun c => !isBlank c := by
    intro ds
    induction ds with
    | nil => rfl
    | cons d ds ih =>
      cases hd : isBlank d with
      | true => rw [List.dropWhile_cons_of_pos hd, ih, List.filter_cons_of_neg (by simp [hd])]
      | false => rw [List.dropWhile_cons_of_neg (by simp [hd])]
  rw [trim, trimEnd, List.filter_reverse, hstart, ← List.filter_reverse, List.reverse_reverse,
    trimStart, hstart]

/-- A first character that is no blank is kept, with all before the blanks at
the end. -/
theorem trim_append {xs : List Char} (hne : xs ≠ []) (hh : ∀ c ∈ xs.head?, isBlank c = false)
    (hl : ∀ c ∈ xs.getLast?, isBlank c = false) (ys : List Char) :
    trim (xs ++ ys) = xs ++ trimEnd ys := by
  have hs : trimStart (xs ++ ys) = xs ++ ys := by
    refine trimStart_eq_self fun c hc => ?_
    cases xs with
    | nil => exact absurd rfl hne
    | cons x xs => exact hh c hc
  rw [trim, hs, trimEnd_append hl]

@[simp] theorem strip_stripEnd (s : String) : strip (stripEnd s) = strip s := by
  rw [strip, toList_stripEnd, trim_trimEnd, strip]

@[simp] theorem strip_strip (s : String) : strip (strip s) = strip s := by
  rw [strip, toList_strip, trim_trim, strip]

@[simp] theorem stripEnd_stripEnd (s : String) : stripEnd (stripEnd s) = stripEnd s := by
  rw [stripEnd, toList_stripEnd, trimEnd_eq_self (getLast?_trimEnd _), stripEnd]

/-- A blank text without blanks at its end is empty. -/
theorem eq_empty_of_stripEnd {s : String} (h : stripEnd s = s) (hb : isBlankText s = true) :
    s = "" := by
  rw [← h, stripEnd, trimEnd_of_blank fun c hc => List.all_eq_true.mp hb c hc]

/-- A text that is not empty and ends in no blank is no blank text. -/
theorem isBlankText_of_strip {s : String} (h : strip s = s) (hne : s ≠ "") :
    isBlankText s = false := by
  have hl : trim s.toList = s.toList := by rw [← toList_strip, h]
  cases hs : s.toList with
  | nil => exact absurd (String.toList_eq_nil_iff.mp hs) hne
  | cons c cs =>
    have hc := head?_trim s.toList c (by rw [hl, hs]; rfl)
    simp [isBlankText, hs, hc]

/-- Nothing is left after trimming exactly if there are only blanks. -/
theorem trim_eq_nil_iff {cs : List Char} : trim cs = [] ↔ ∀ c ∈ cs, isBlank c = true := by
  have hstart : trimStart cs = [] ↔ ∀ c ∈ cs, isBlank c = true := List.dropWhile_eq_nil_iff
  rw [← hstart]
  constructor
  · intro h
    cases hs : trimStart cs with
    | nil => rfl
    | cons d ds =>
      rw [trim, hs, trimEnd, List.reverse_eq_nil_iff, List.dropWhile_eq_nil_iff] at h
      have hd := head?_trimStart cs d (by rw [hs]; rfl)
      rw [h d (by simp)] at hd
      cases hd
  · intro h
    rw [trim, h]
    rfl

/-- Trimming a text does not make it blank, nor keep it from being so. -/
theorem isBlankText_strip (s : String) : isBlankText (strip s) = isBlankText s := by
  rw [Bool.eq_iff_iff, isBlankText, isBlankText, List.all_eq_true, List.all_eq_true, toList_strip,
    ← trim_eq_nil_iff, ← trim_eq_nil_iff, trim_trim]

/-- A text begins with a mark if that is its first character. -/
theorem beginsWith_mark {start : String} {mark : Char} (h : start.toList = [mark]) (s : String) :
    beginsWith start s = (s.toList.head? == some mark) := by
  rw [beginsWith, h]
  cases s.toList with
  | nil => rfl
  | cons c cs =>
    rw [List.isPrefixOf_cons_cons, List.isPrefixOf_nil_left, Bool.and_true, List.head?_cons,
      Option.some_beq_some, BEq.comm]

end RubyDoc.Text

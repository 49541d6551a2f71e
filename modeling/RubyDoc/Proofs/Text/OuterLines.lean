import Mathlib.Data.List.Induction
import RubyDoc.Proofs.Text.Lines

/-!
# The empty lines around a text

Lines that end in no blank are joined, and the newlines at the two ends are taken off. What
is left begins and ends with a character of its own, so that trimming its end once more
takes nothing. Blank lines that are not empty are not the matter here: a line that ends in
no blank is empty if it is blank.
-/

namespace RubyDoc.Text

/-- A text without the empty lines around it. -/
structure IsWithoutOuterLines (whole inner : String) : Prop where
  /-- Newlines alone stand around it. -/
  around : ∃ i j, whole.toList = List.replicate i '\n' ++ inner.toList ++ List.replicate j '\n'
  /-- It begins with no newline. -/
  head : ∀ c ∈ inner.toList.head?, c ≠ '\n'
  /-- It ends in no newline, nor in another blank. -/
  last : ∀ c ∈ inner.toList.getLast?, isBlank c = false

/-- The newlines at the front of a text. -/
theorem exists_newlines_append (cs : List Char) :
    ∃ i, cs = List.replicate i '\n' ++ cs.dropWhile (· == '\n') := by
  have hall : ∀ c ∈ cs.takeWhile (· == '\n'), c = '\n' := fun c hc =>
    eq_of_beq (List.all_eq_true.mp List.all_takeWhile c hc)
  refine ⟨(cs.takeWhile (· == '\n')).length, ?_⟩
  rw [← List.eq_replicate_of_mem hall]
  exact List.takeWhile_append_dropWhile.symm

theorem ne_newline_of_head?_dropWhile {cs : List Char} {c : Char}
    (h : (cs.dropWhile (· == '\n')).head? = some c) : c ≠ '\n' := by
  have hhead := List.head?_dropWhile_not (· == '\n') cs
  rw [h] at hhead
  simpa using hhead

/-- In front of the newlines at its end, a join of lines that end in no blank ends in none. -/
theorem isBlank_of_head?_reverse_joinLines {ls : List String}
    (h : ∀ l ∈ ls, ∀ c ∈ l.toList.getLast?, isBlank c = false) :
    ∀ c ∈ ((joinLines ls).toList.reverse.dropWhile (· == '\n')).head?, isBlank c = false := by
  induction ls using List.reverseRecOn with
  | nil =>
    intro c hc
    cases hc
  | append_singleton ls l ih =>
    have hrest := ih fun k hk => h k (List.mem_append_left _ hk)
    have hl := h l (List.mem_append_right _ (List.mem_singleton.mpr rfl))
    have hjoin : (joinLines (ls ++ [l])).toList.reverse = l.toList.reverse ++
        if ls = [] then [] else '\n' :: (joinLines ls).toList.reverse := by
      by_cases hls : ls = []
      · rw [hls, List.nil_append, joinLines_singleton, if_pos rfl, List.append_nil]
      · rw [joinLines_append hls (List.cons_ne_nil l []), joinLines_singleton, if_neg hls]
        simp
    rw [hjoin]
    cases hlast : l.toList.reverse with
    | nil =>
      rw [List.nil_append]
      split
      · intro c hc
        cases hc
      · rwa [List.dropWhile_cons_of_pos (by decide)]
    | cons d ds =>
      have hd : isBlank d = false := by
        refine hl d ?_
        rw [← List.head?_reverse, hlast]
        rfl
      have hnewline : d ≠ '\n' := by
        rintro rfl
        exact absurd hd (by decide)
      rw [List.cons_append, List.dropWhile_cons_of_neg (by simpa using hnewline)]
      intro c hc
      rw [← Option.some.inj hc]
      exact hd

/-- **Outer empty lines.** Of lines that end in no blank the text that is left has no empty
lines around it and ends in no blank. -/
theorem isWithoutOuterLines_joinLines {ls : List String}
    (h : ∀ l ∈ ls, ∀ c ∈ l.toList.getLast?, isBlank c = false) :
    IsWithoutOuterLines (joinLines ls) (stripEnd (stripNewlines (joinLines ls))) := by
  have hlast := isBlank_of_head?_reverse_joinLines h
  obtain ⟨i, hfront⟩ := exists_newlines_append (joinLines ls).toList
  have hhead : ∀ c ∈ ((joinLines ls).toList.dropWhile (· == '\n')).head?, c ≠ '\n' :=
    fun c hc => ne_newline_of_head?_dropWhile hc
  rw [stripEnd, stripNewlines, String.toList_ofList]
  generalize (joinLines ls).toList.dropWhile (· == '\n') = rest at *
  obtain ⟨j, hback⟩ := exists_newlines_append rest.reverse
  have hrest : rest = (rest.reverse.dropWhile (· == '\n')).reverse ++ List.replicate j '\n' := by
    have hreverse := congrArg List.reverse hback
    rwa [List.reverse_reverse, List.reverse_append, List.reverse_replicate] at hreverse
  have hends : ∀ c ∈ (rest.reverse.dropWhile (· == '\n')).reverse.getLast?, isBlank c = false := by
    intro c hc
    rw [List.getLast?_reverse] at hc
    refine hlast c ?_
    rw [hfront, List.reverse_append, List.dropWhile_append]
    cases hdrop : rest.reverse.dropWhile (· == '\n') with
    | nil =>
      rw [hdrop] at hc
      cases hc
    | cons d ds =>
      rw [hdrop] at hc
      exact hc
  rw [trimEnd_eq_self hends]
  generalize (rest.reverse.dropWhile (· == '\n')).reverse = inner at *
  refine ⟨⟨i, j, ?_⟩, ?_, ?_⟩
  · rw [String.toList_ofList, List.append_assoc, ← hrest]
    exact hfront
  · rw [String.toList_ofList]
    intro c hc
    refine hhead c ?_
    rw [hrest, List.head?_append, hc, Option.some_or]
    rfl
  · rwa [String.toList_ofList]

end RubyDoc.Text

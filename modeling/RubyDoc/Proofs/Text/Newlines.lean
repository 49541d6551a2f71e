import RubyDoc.Proofs.Text.Lines

/-!
# Texts whose lines end at newlines

A text may break its lines at newlines alone, where a carriage return in front of one
belongs to it. Up to the end of such a line there are as many lines as newlines, and what
follows is split into lines as if it stood alone. What the lines of other texts are is said
where lines are defined.
-/

namespace RubyDoc.Text

/-- Whether every line break is a newline, alone or behind a carriage return. -/
def breaksAtNewlines : List Char → Bool
  | [] => true
  | '\r' :: '\n' :: cs => breaksAtNewlines cs
  | c :: cs => (c == '\n' || !isLineBreak c) && breaksAtNewlines cs

/-- Whether a text is empty or ends with a newline, so that what follows begins a line. -/
def EndsLine (cs : List Char) : Prop := ∀ c ∈ cs.getLast?, c = '\n'

instance (cs : List Char) : Decidable (EndsLine cs) :=
  decidable_of_iff (cs.getLast?.all (· == '\n') = true) (by
    rw [EndsLine]
    cases cs.getLast? <;> simp)

theorem EndsLine.of_cons {c : Char} {cs : List Char} (h : EndsLine (c :: cs)) : EndsLine cs := by
  cases cs with
  | nil =>
    intro d hd
    cases hd
  | cons d ds =>
    intro e he
    exact h e (by rwa [List.getLast?_cons_cons])

theorem EndsLine.ne_nil {c : Char} {cs : List Char} (h : EndsLine (c :: cs)) (hc : c ≠ '\n') :
    cs ≠ [] := by
  rintro rfl
  exact hc (h c rfl)

theorem consFirst_append {α : Type} (c : α) {ls : List (List α)} (h : ls ≠ [])
    (ms : List (List α)) : consFirst c (ls ++ ms) = consFirst c ls ++ ms := by
  cases ls with
  | nil => exact absurd rfl h
  | cons first others => rfl

theorem length_consFirst {α : Type} (c : α) {ls : List (List α)} (h : ls ≠ []) :
    (consFirst c ls).length = ls.length := by
  cases ls with
  | nil => exact absurd rfl h
  | cons first others => rfl

/-- Behind whole lines that end at newlines, the rest of a text has the lines that it has alone;
in front of it there is one line for each newline. -/
theorem splitLines_append_of_endsLine {cs : List Char} (h : breaksAtNewlines cs = true)
    (hends : EndsLine cs) (rest : List Char) :
    splitLines (cs ++ rest) = splitLines cs ++ splitLines rest ∧
      (splitLines cs).length = cs.count '\n' := by
  fun_induction breaksAtNewlines cs with
  | case1 => exact ⟨rfl, rfl⟩
  | case2 cs ih =>
    obtain ⟨hsplit, hcount⟩ := ih h hends.of_cons.of_cons
    have hrest : splitLines ('\r' :: '\n' :: cs ++ rest) = [] :: splitLines (cs ++ rest) := rfl
    have halone : splitLines ('\r' :: '\n' :: cs) = [] :: splitLines cs := rfl
    refine ⟨by rw [hrest, halone, hsplit, List.cons_append], ?_⟩
    rw [halone, List.length_cons, hcount, List.count_cons_of_ne (by decide), List.count_cons_self]
  | case3 c cs _ ih =>
    rw [Bool.and_eq_true, Bool.or_eq_true] at h
    obtain ⟨hsplit, hcount⟩ := ih h.2 hends.of_cons
    by_cases hc : c = '\n'
    · subst hc
      have hrest : splitLines ('\n' :: cs ++ rest) = [] :: splitLines (cs ++ rest) := rfl
      have halone : splitLines ('\n' :: cs) = [] :: splitLines cs := rfl
      refine ⟨by rw [hrest, halone, hsplit, List.cons_append], ?_⟩
      rw [halone, List.length_cons, hcount, List.count_cons_self]
    · have hbreak : isLineBreak c = false := by simpa [hc] using h.1
      have hlines := splitLines_ne_nil (hends.ne_nil hc)
      rw [List.cons_append, splitLines_cons_of_not_break hbreak, splitLines_cons_of_not_break hbreak,
        hsplit, consFirst_append c hlines, length_consFirst c hlines, hcount,
        List.count_cons_of_ne hc]
      exact ⟨rfl, rfl⟩

/-- Characters that break no line stand in the line of the character behind them. -/
theorem head?_splitLines_append {cs : List Char} (h : ∀ c ∈ cs, isLineBreak c = false) {d : Char}
    (hd : isLineBreak d = false) (ds : List Char) :
    ∃ more, (splitLines (cs ++ d :: ds)).head? = some (cs ++ d :: more) := by
  induction cs with
  | nil =>
    rw [List.nil_append, splitLines_cons_of_not_break hd]
    cases splitLines ds with
    | nil => exact ⟨[], rfl⟩
    | cons first others => exact ⟨first, rfl⟩
  | cons c cs ih =>
    obtain ⟨more, hmore⟩ := ih fun e he => h e (List.mem_cons_of_mem _ he)
    refine ⟨more, ?_⟩
    rw [List.cons_append, splitLines_cons_of_not_break (h c List.mem_cons_self)]
    cases hlines : splitLines (cs ++ d :: ds) with
    | nil =>
      rw [hlines] at hmore
      cases hmore
    | cons first others =>
      rw [hlines] at hmore
      rw [consFirst, List.head?_cons, Option.some.inj hmore]
      rfl

end RubyDoc.Text

import RubyDoc.Proofs.Text.Trim
import RubyDoc.Text.Lines

/-!
# Joined lines

Single lines that are joined by newlines come back when the result is read line
by line, as long as the last one is not empty. A text that is the join of its
lines is called joined; it has no line breaks but newlines, and none at its
end. What other line breaks do to a text is not said here.
-/

namespace RubyDoc.Text

/-- No character of the text ends a line. -/
def SingleLine (s : String) : Prop := ∀ c ∈ s.toList, isLineBreak c = false

instance (s : String) : Decidable (SingleLine s) :=
  List.decidableBAll (fun c => isLineBreak c = false) s.toList

/-- A text that is its lines with newlines between them. -/
def IsJoined (s : String) : Prop := joinLines (lines s) = s

instance (s : String) : Decidable (IsJoined s) :=
  inferInstanceAs (Decidable (joinLines (lines s) = s))

/-! ### Single lines -/

/-- What is no blank ends no line. -/
theorem isLineBreak_eq_false {c : Char} (h : isBlank c = false) : isLineBreak c = false :=
  Bool.eq_false_iff.mpr fun hbreak => Bool.eq_false_iff.mp h (isBlank_of_isLineBreak c hbreak)

/-- Two texts on one line are so together. -/
theorem SingleLine.append {s t : String} (hs : SingleLine s) (ht : SingleLine t) :
    SingleLine (s ++ t) := by
  intro c hc
  rw [String.toList_append, List.mem_append] at hc
  rcases hc with hc | hc
  · exact hs c hc
  · exact ht c hc

/-- Lines put together with a separator on one line are on one line. -/
theorem SingleLine.intercalate {sep : String} {parts : List String} (hs : SingleLine sep)
    (h : ∀ p ∈ parts, SingleLine p) : SingleLine (String.intercalate sep parts) := by
  induction parts with
  | nil => simp [SingleLine]
  | cons p ps ih =>
    have hp := h p (by simp)
    cases ps with
    | nil => rwa [String.intercalate_singleton]
    | cons q qs =>
      rw [String.intercalate_cons_cons]
      exact (hp.append hs).append (ih fun r hr => h r (List.mem_cons_of_mem _ hr))

/-- Trimming the end of a line leaves a line. -/
theorem SingleLine.stripEnd {s : String} (hs : SingleLine s) : SingleLine (stripEnd s) := by
  intro c hc
  rw [toList_stripEnd] at hc
  exact hs c ((trimEnd_isPrefix _).subset hc)

/-- Trimming both ends of a line leaves a line. -/
theorem SingleLine.strip {s : String} (hs : SingleLine s) : SingleLine (strip s) := by
  intro c hc
  rw [toList_strip] at hc
  exact hs c (mem_of_mem_trim hc)

/-- Both parts of a line cut at a space are lines. -/
theorem SingleLine.cutAtSpace {s : String} (hs : SingleLine s) :
    SingleLine (cutAtSpace s).1 ∧ SingleLine (cutAtSpace s).2 := by
  constructor
  · intro c hc
    rw [Text.cutAtSpace, String.toList_ofList] at hc
    exact hs c ((List.takeWhile_sublist _).subset hc)
  · intro c hc
    rw [Text.cutAtSpace, String.toList_ofList] at hc
    exact hs c ((List.dropWhile_sublist _).subset (List.mem_of_mem_drop hc))

/-- No line that is read has a line break. -/
theorem singleLine_of_mem_lines {s l : String} (h : l ∈ lines s) : SingleLine l := by
  have hsplit : ∀ cs : List Char, ∀ k ∈ splitLines cs, ∀ c ∈ k, isLineBreak c = false := by
    intro cs
    fun_induction splitLines cs with
    | case1 => simp
    | case2 cs ih =>
      intro k hk
      rcases List.mem_cons.mp hk with rfl | hk
      · simp
      · exact ih k hk
    | case3 c cs _ hc ih =>
      intro k hk
      rcases List.mem_cons.mp hk with rfl | hk
      · simp
      · exact ih k hk
    | case4 c cs _ hc ih =>
      have hc : isLineBreak c = false := by simpa using hc
      cases hs : splitLines cs with
      | nil =>
        intro k hk d hd
        rw [consFirst, List.mem_singleton] at hk
        rw [hk, List.mem_singleton] at hd
        rw [hd]
        exact hc
      | cons first others =>
        rw [hs] at ih
        intro k hk d hd
        rw [consFirst] at hk
        rcases List.mem_cons.mp hk with rfl | hk
        · rcases List.mem_cons.mp hd with rfl | hd
          · exact hc
          · exact ih first (by simp) d hd
        · exact ih k (List.mem_cons_of_mem _ hk) d hd
  obtain ⟨cs, hcs, rfl⟩ := List.mem_map.mp h
  intro c hc
  rw [String.toList_ofList] at hc
  exact hsplit _ cs hcs c hc

/-! ### Joining -/

@[simp] theorem joinLines_nil : joinLines [] = "" := rfl

@[simp] theorem joinLines_singleton (l : String) : joinLines [l] = l :=
  String.intercalate_singleton

/-- Joining two runs of lines puts a newline between them. -/
theorem joinLines_append {ls ms : List String} (hl : ls ≠ []) (hm : ms ≠ []) :
    joinLines (ls ++ ms) = joinLines ls ++ "\n" ++ joinLines ms :=
  String.intercalate_append_of_ne_nil hl hm

/-- A newline stands behind every line but the last. -/
theorem toList_joinLines_cons (l : String) {ms : List String} (hm : ms ≠ []) :
    (joinLines (l :: ms)).toList = l.toList ++ '\n' :: (joinLines ms).toList := by
  rw [← List.singleton_append, joinLines_append (by simp) hm, joinLines_singleton,
    String.toList_append, String.toList_append, List.append_assoc]
  rfl

/-- What is no blank in joined lines is what is none in the lines. -/
theorem filter_joinLines (ls : List String) :
    (joinLines ls).toList.filter (fun c => !isBlank c) =
      ls.flatMap fun l => l.toList.filter fun c => !isBlank c := by
  induction ls with
  | nil => rfl
  | cons l ls ih =>
    rw [List.flatMap_cons, ← ih]
    by_cases hls : ls = []
    · rw [hls, joinLines_singleton, joinLines_nil]
      exact (List.append_nil _).symm
    · rw [toList_joinLines_cons l hls, List.filter_append,
        List.filter_cons_of_neg (by simp [isBlank_newline])]

/-- Joined lines are trimmed to their first part exactly if the other lines are blank. -/
theorem strip_joinLines_append_eq_iff {ls ms : List String}
    (h : strip (joinLines ls) = joinLines ls) :
    strip (joinLines (ls ++ ms)) = joinLines ls ↔ ∀ m ∈ ms, isBlankText m = true := by
  have hblank : (∀ m ∈ ms, isBlankText m = true) ↔
      (joinLines ms).toList.filter (fun c => !isBlank c) = [] := by
    rw [filter_joinLines, List.flatMap_eq_nil_iff]
    refine forall₂_congr fun m _ => ?_
    rw [isBlankText, List.all_eq_true, List.filter_eq_nil_iff]
    simp
  rw [hblank]
  constructor
  · intro he
    have hf := congrArg (fun s => s.toList.filter fun c => !isBlank c) he
    simp only [toList_strip, filter_trim, filter_joinLines, List.flatMap_append] at hf
    rw [filter_joinLines]
    exact List.append_cancel_left (hf.trans (List.append_nil _).symm)
  · intro hf
    have hall : ∀ c ∈ (joinLines ms).toList, isBlank c = true := by
      intro c hc
      have := List.filter_eq_nil_iff.mp hf c hc
      simpa using this
    by_cases hls : ls = []
    · subst hls
      rw [List.nil_append, joinLines_nil, ← String.toList_eq_nil_iff, toList_strip]
      exact trim_eq_nil_iff.mpr hall
    · by_cases hms : ms = []
      · rw [hms, List.append_nil, h]
      · rw [joinLines_append hls hms, strip, String.toList_append, String.toList_append,
          List.append_assoc, trim_append_blank _ fun c hc => ?_, ← strip, h]
        rcases List.mem_append.mp hc with hc | hc
        · rw [List.mem_singleton.mp hc]
          exact isBlank_newline
        · exact hall c hc

/-- Joining blocks of lines is joining all their lines. -/
theorem joinLines_flatten {blocks : List (List String)} (h : ∀ b ∈ blocks, b ≠ []) :
    joinLines (blocks.map joinLines) = joinLines blocks.flatten := by
  induction blocks with
  | nil => rfl
  | cons b bs ih =>
    cases bs with
    | nil => simp [joinLines]
    | cons d ds =>
      have hb := h b (by simp)
      have hd : (d :: ds).flatten ≠ [] := by
        have := h d (by simp)
        simp [this]
      have hi := ih fun e he => h e (List.mem_cons_of_mem _ he)
      have hc : joinLines (joinLines b :: (d :: ds).map joinLines) =
          joinLines b ++ "\n" ++ joinLines ((d :: ds).map joinLines) :=
        String.intercalate_cons_of_ne_nil (by simp)
      rw [List.map_cons, List.flatten_cons, hc, hi, joinLines_append hb hd]

/-! ### Reading joined lines -/

/-- A character that breaks no line stands in front of the first line behind it. -/
theorem splitLines_cons_of_not_break {c : Char} (hc : isLineBreak c = false) (cs : List Char) :
    splitLines (c :: cs) = consFirst c (splitLines cs) := by
  have hr : c ≠ '\r' := by rintro rfl; exact absurd hc (by decide)
  rw [splitLines.eq_3 _ _ (by intro _ hcr; exact absurd hcr hr), hc]
  rfl

/-- A line is read up to the newline that ends it. -/
theorem splitLines_append_newline {cs : List Char} (h : ∀ c ∈ cs, isLineBreak c = false)
    (rest : List Char) : splitLines (cs ++ '\n' :: rest) = cs :: splitLines rest := by
  induction cs with
  | nil => rfl
  | cons c cs ih =>
    have hi := ih fun d hd => h d (List.mem_cons_of_mem _ hd)
    rw [List.cons_append, splitLines_cons_of_not_break (h c List.mem_cons_self), hi]
    rfl

/-- A last line without a line end is read as it is. -/
theorem splitLines_single {cs : List Char} (h : ∀ c ∈ cs, isLineBreak c = false)
    (hne : cs ≠ []) : splitLines cs = [cs] := by
  induction cs with
  | nil => exact absurd rfl hne
  | cons c cs ih =>
    rw [splitLines_cons_of_not_break (h c List.mem_cons_self)]
    cases cs with
    | nil => rfl
    | cons d ds =>
      rw [ih (fun e he => h e (List.mem_cons_of_mem _ he)) (by simp)]
      rfl

/-- Lines that are joined and ended by a newline are read before what follows. -/
theorem lines_joinLines_append {ls : List String} (h : ∀ l ∈ ls, SingleLine l) (hne : ls ≠ [])
    (s : String) : lines (joinLines ls ++ "\n" ++ s) = ls ++ lines s := by
  induction ls with
  | nil => exact absurd rfl hne
  | cons l ls ih =>
    have hl := h l (by simp)
    have hread : ∀ t, lines (l ++ "\n" ++ t) = l :: lines t := by
      intro t
      have hn : (l ++ "\n" ++ t).toList = l.toList ++ '\n' :: t.toList := by simp
      rw [lines, hn, splitLines_append_newline hl, List.map_cons, String.ofList_toList, lines]
    cases ls with
    | nil =>
      rw [joinLines_singleton, hread]
      rfl
    | cons m ms =>
      have hi := ih (fun k hk => h k (List.mem_cons_of_mem _ hk)) (by simp)
      have hj : joinLines (l :: m :: ms) ++ "\n" ++ s =
          l ++ "\n" ++ (joinLines (m :: ms) ++ "\n" ++ s) := by
        rw [← List.singleton_append, joinLines_append (by simp) (by simp), joinLines_singleton]
        simp only [String.append_assoc]
      rw [hj, hread, hi, ← List.cons_append]

/-- Single lines joined by newlines come back as the lines of the text. -/
theorem lines_joinLines {ls : List String} (h : ∀ l ∈ ls, SingleLine l)
    (hlast : ls.getLast? ≠ some "") : lines (joinLines ls) = ls := by
  rcases List.eq_nil_or_concat ls with rfl | ⟨init, last, rfl⟩
  · rfl
  · rw [List.concat_eq_append] at h hlast ⊢
    have hl : last.toList ≠ [] := by
      intro he
      exact hlast (by simp [String.toList_eq_nil_iff.mp he])
    have hsingle : lines last = [last] := by
      rw [lines, splitLines_single (h last (by simp)) hl]
      simp
    by_cases hi : init = []
    · rw [hi, List.nil_append, joinLines_singleton, hsingle]
    · rw [joinLines_append hi (by simp), joinLines_singleton,
        lines_joinLines_append (fun l hl => h l (by simp [hl])) hi, hsingle]

/-- Single lines of which the last is not empty make a joined text. -/
theorem joined_joinLines {ls : List String} (h : ∀ l ∈ ls, SingleLine l)
    (hlast : ls.getLast? ≠ some "") : IsJoined (joinLines ls) := by
  rw [IsJoined, lines_joinLines h hlast]

/-- A joined text is read before what stands behind it. -/
theorem IsJoined.lines_append {s : String} (h : IsJoined s) (hne : s ≠ "") (t : String) :
    lines (s ++ "\n" ++ t) = lines s ++ lines t := by
  have hl : lines s ≠ [] := by
    intro he
    rw [IsJoined, he] at h
    exact hne h.symm
  have ha := lines_joinLines_append (fun _ hl => singleLine_of_mem_lines hl) hl t
  rwa [h] at ha

/-! ### The first and the last line -/

/-- A text that is not empty has lines. -/
theorem splitLines_ne_nil {cs : List Char} (h : cs ≠ []) : splitLines cs ≠ [] := by
  fun_cases splitLines cs with
  | case1 => exact absurd rfl h
  | case2 cs => exact List.cons_ne_nil _ _
  | case3 c cs => exact List.cons_ne_nil _ _
  | case4 c cs =>
    cases splitLines cs with
    | nil => exact List.cons_ne_nil _ _
    | cons first others => exact List.cons_ne_nil _ _

/-- A last character that is no blank stands in the last line. -/
theorem mem_getLast?_splitLines {cs : List Char} {d : Char} (h : cs.getLast? = some d)
    (hd : isBlank d = false) : ∀ l ∈ (splitLines cs).getLast?, d ∈ l := by
  have hbreak : ∀ (c : Char) (ds : List Char), isBlank c = true →
      (c :: ds).getLast? = some d → ds ≠ [] ∧ ds.getLast? = some d := by
    intro c ds hc hlast
    cases ds with
    | nil =>
      rw [List.getLast?_singleton, Option.some.injEq] at hlast
      rw [hlast, hd] at hc
      cases hc
    | cons e es =>
      rw [List.getLast?_cons_cons] at hlast
      exact ⟨List.cons_ne_nil _ _, hlast⟩
  have hskip : ∀ ds : List Char, ds ≠ [] →
      ([] :: splitLines ds).getLast? = (splitLines ds).getLast? := by
    intro ds hds
    obtain ⟨l, ls, hl⟩ := List.exists_cons_of_ne_nil (splitLines_ne_nil hds)
    rw [hl, List.getLast?_cons_cons]
  fun_induction splitLines cs with
  | case1 => cases h
  | case2 cs ih =>
    obtain ⟨-, h⟩ := hbreak '\r' _ (by decide) h
    obtain ⟨hne, h⟩ := hbreak '\n' _ isBlank_newline h
    rw [hskip cs hne]
    exact ih h
  | case3 c cs _ hc ih =>
    obtain ⟨hne, h⟩ := hbreak c _ (isBlank_of_isLineBreak c hc) h
    rw [hskip cs hne]
    exact ih h
  | case4 c cs _ hc ih =>
    cases cs with
    | nil =>
      rw [List.getLast?_singleton, Option.some.injEq] at h
      intro l hl
      rw [splitLines, consFirst, List.getLast?_singleton, Option.mem_some_iff] at hl
      rw [← hl, h]
      exact List.mem_singleton_self d
    | cons e es =>
      rw [List.getLast?_cons_cons] at h
      have hi := ih h
      obtain ⟨first, others, hl⟩ :=
        List.exists_cons_of_ne_nil (splitLines_ne_nil (List.cons_ne_nil e es))
      rw [hl] at hi ⊢
      rw [consFirst]
      cases others with
      | nil =>
        intro l hmem
        rw [List.getLast?_singleton, Option.mem_some_iff] at hmem
        rw [← hmem]
        exact List.mem_cons_of_mem _ (hi first rfl)
      | cons next more =>
        rw [List.getLast?_cons_cons] at hi ⊢
        exact hi

/-- A first character that is no blank stands in the first line. -/
theorem mem_head?_splitLines {cs : List Char} {c : Char} (h : cs.head? = some c)
    (hc : isBlank c = false) : ∀ l ∈ (splitLines cs).head?, c ∈ l := by
  obtain ⟨ds, rfl⟩ := List.head?_eq_some_iff.mp h
  intro l hl
  rw [splitLines_cons_of_not_break (isLineBreak_eq_false hc)] at hl
  cases hd : splitLines ds with
  | nil =>
    rw [hd] at hl
    rw [← Option.some.inj hl]
    exact List.mem_cons_self
  | cons first others =>
    rw [hd] at hl
    rw [← Option.some.inj hl]
    exact List.mem_cons_self

/-- A text with a character that is no blank is not blank. -/
theorem isBlankText_of_mem {cs : List Char} {c : Char} (hc : isBlank c = false) (hmem : c ∈ cs) :
    isBlankText (String.ofList cs) = false := by
  rw [isBlankText, String.toList_ofList, Bool.eq_false_iff]
  intro hall
  rw [List.all_eq_true.mp hall c hmem] at hc
  cases hc

/-- A text without blanks around it begins with a line that is not blank and
finishes with one. -/
theorem isBlankText_ends_of_strip {s : String} (h : strip s = s) :
    (∀ l ∈ (lines s).head?, isBlankText l = false) ∧
      ∀ l ∈ (lines s).getLast?, isBlankText l = false := by
  have htrim : trim s.toList = s.toList := by rw [← toList_strip, h]
  have hfirst := head?_trim s.toList
  have hlast := getLast?_trim s.toList
  rw [htrim] at hfirst hlast
  constructor
  · intro l hl
    rw [lines, List.head?_map] at hl
    obtain ⟨cs, hcs, rfl⟩ := Option.map_eq_some_iff.mp hl
    cases hs : s.toList.head? with
    | none =>
      rw [List.head?_eq_none_iff.mp hs] at hcs
      cases hcs
    | some c =>
      have hc := hfirst c hs
      exact isBlankText_of_mem hc (mem_head?_splitLines hs hc cs hcs)
  · intro l hl
    rw [lines, List.getLast?_map] at hl
    obtain ⟨cs, hcs, rfl⟩ := Option.map_eq_some_iff.mp hl
    cases hs : s.toList.getLast? with
    | none =>
      rw [List.getLast?_eq_none_iff.mp hs] at hcs
      cases hcs
    | some d =>
      have hd := hlast d hs
      exact isBlankText_of_mem hd (mem_getLast?_splitLines hs hd cs hcs)

/-! ### Lines that are trimmed -/

/-- No line is blank but perhaps the first. -/
def OnlyFirstBlank (ls : List (List Char)) : Prop := ∀ l ∈ ls.drop 1, ∃ c ∈ l, isBlank c = false

theorem drop_one_consFirst (c : Char) (ls : List (List Char)) :
    (consFirst c ls).drop 1 = ls.drop 1 := by
  cases ls <;> rfl

/-- The lines of a text hold nothing else. -/
theorem mem_of_mem_splitLines {cs l : List Char} (hl : l ∈ splitLines cs) {c : Char} (hc : c ∈ l) :
    c ∈ cs := by
  fun_induction splitLines cs generalizing l with
  | case1 => cases hl
  | case2 cs ih =>
    rcases List.mem_cons.mp hl with rfl | hl
    · cases hc
    · exact List.mem_cons_of_mem _ (List.mem_cons_of_mem _ (ih hl hc))
  | case3 d cs _ _ ih =>
    rcases List.mem_cons.mp hl with rfl | hl
    · cases hc
    · exact List.mem_cons_of_mem _ (ih hl hc)
  | case4 d cs _ _ ih =>
    cases hcs : splitLines cs with
    | nil =>
      rw [hcs] at hl
      rw [List.mem_singleton.mp hl] at hc
      rw [List.mem_singleton.mp hc]
      exact List.mem_cons_self
    | cons first others =>
      rw [hcs] at hl ih
      rcases List.mem_cons.mp hl with rfl | hl
      · rcases List.mem_cons.mp hc with rfl | hc
        · exact List.mem_cons_self
        · exact List.mem_cons_of_mem _ (ih List.mem_cons_self hc)
      · exact List.mem_cons_of_mem _ (ih (List.mem_cons_of_mem _ hl) hc)

/-- Lines that differ in blanks at their ends do so behind one more character. -/
theorem map_trimEnd_consFirst (c : Char) {ls ms : List (List Char)}
    (h : ls.map trimEnd = ms.map trimEnd) :
    (consFirst c ls).map trimEnd = (consFirst c ms).map trimEnd := by
  cases ls with
  | nil =>
    obtain rfl : ms = [] := List.map_eq_nil_iff.mp h.symm
    rfl
  | cons l ls =>
    cases ms with
    | nil => cases h
    | cons m ms =>
      obtain ⟨hfirst, hothers⟩ := List.cons.inj h
      have htrim : trimEnd (c :: l) = trimEnd (c :: m) := by
        rw [← trimEnd_cons_trimEnd, hfirst, trimEnd_cons_trimEnd]
      rw [consFirst, consFirst, List.map_cons, List.map_cons, htrim, hothers]

/-- Blanks behind a character stand in its line, if no line but the first is blank. -/
theorem map_trimEnd_consFirst_of_blank (c : Char) {cs : List Char}
    (hblank : ∀ d ∈ cs, isBlank d = true) (h : OnlyFirstBlank (splitLines cs)) :
    (consFirst c (splitLines cs)).map trimEnd = [trimEnd [c]] := by
  have hothers : (splitLines cs).drop 1 = [] := by
    rw [List.eq_nil_iff_forall_not_mem]
    intro l hl
    obtain ⟨d, hd, hb⟩ := h l hl
    rw [hblank d (mem_of_mem_splitLines (List.mem_of_mem_drop hl) hd)] at hb
    cases hb
  cases hls : splitLines cs with
  | nil => rfl
  | cons first others =>
    rw [hls] at hothers
    have hfirst : trimEnd (c :: first) = trimEnd [c] :=
      trimEnd_append_blank [c] fun d hd =>
        hblank d (mem_of_mem_splitLines (hls ▸ List.mem_cons_self) hd)
    obtain rfl : others = [] := hothers
    rw [consFirst, List.map_singleton, hfirst]

/-- Blanks at the end of a text stand at the end of its last line, if no line but the
first is blank. -/
theorem map_trimEnd_splitLines {cs : List Char} (hne : ∃ c ∈ cs, isBlank c = false)
    (h : OnlyFirstBlank (splitLines cs)) :
    (splitLines (trimEnd cs)).map trimEnd = (splitLines cs).map trimEnd := by
  have hbegin : ∀ {c : Char} {ds : List Char},
      (∀ es, c = '\r' → ds = '\n' :: es → False) →
        ∀ es, c = '\r' → trimEnd ds = '\n' :: es → False := by
    intro c ds hc es hr hn
    obtain ⟨more, hmore⟩ := trimEnd_isPrefix ds
    exact hc (es ++ more) hr (by rw [← hmore, hn, List.cons_append])
  fun_induction splitLines cs with
  | case1 => rfl
  | case2 cs ih =>
    have hcs := exists_of_blank_cons (by decide) (exists_of_blank_cons (by decide) hne)
    have hnil := trimEnd_ne_nil hcs
    have hall : OnlyFirstBlank (splitLines cs) := fun l hl => h l (List.mem_of_mem_drop hl)
    rw [trimEnd_cons (.inr (by rw [trimEnd_cons (.inr hnil)]; exact List.cons_ne_nil _ _)),
      trimEnd_cons (.inr hnil), splitLines, List.map_cons, List.map_cons, ih hcs hall]
  | case3 c cs hc hbreak ih =>
    have hcs := exists_of_blank_cons (isBlank_of_isLineBreak c hbreak) hne
    have hnil := trimEnd_ne_nil hcs
    have hall : OnlyFirstBlank (splitLines cs) := fun l hl => h l (List.mem_of_mem_drop hl)
    rw [trimEnd_cons (.inr hnil), splitLines.eq_3 _ _ (hbegin hc), if_pos hbreak, List.map_cons,
      List.map_cons, ih hcs hall]
  | case4 c cs hc hbreak ih =>
    have hall : OnlyFirstBlank (splitLines cs) := by rwa [OnlyFirstBlank, drop_one_consFirst] at h
    by_cases hcs : ∃ d ∈ cs, isBlank d = false
    · rw [trimEnd_cons (.inr (trimEnd_ne_nil hcs)), splitLines.eq_3 _ _ (hbegin hc), if_neg hbreak]
      exact map_trimEnd_consFirst c (ih hcs hall)
    · have hblank : ∀ d ∈ cs, isBlank d = true := fun d hd =>
        Bool.of_not_eq_false fun hb => hcs ⟨d, hd, hb⟩
      have hc' : isBlank c = false := by
        obtain ⟨d, hd, hb⟩ := hne
        rcases List.mem_cons.mp hd with rfl | hd
        · exact hb
        · exact absurd ⟨d, hd, hb⟩ hcs
      have hend : trimEnd (c :: cs) = [c] := by
        rw [trimEnd_cons (.inl hc'), trimEnd_of_blank hblank]
      have hone : splitLines [c] = [[c]] :=
        splitLines_single (by simpa using hbreak) (List.cons_ne_nil c [])
      rw [hend, hone, map_trimEnd_consFirst_of_blank c hblank hall, List.map_singleton]

/-- A text that begins with a line break begins with an empty line. -/
theorem nil_mem_splitLines_of_break {c : Char} (hc : isLineBreak c = true) (cs : List Char) :
    [] ∈ splitLines (c :: cs) := by
  rw [splitLines.eq_def]
  split
  · next he => cases he
  · exact List.mem_cons_self
  · next d ds he =>
    rw [(List.cons.inj he).1] at hc
    rw [if_pos hc]
    exact List.mem_cons_self

/-- Blanks in front of a text stand in front of its first line, if no line is blank. -/
theorem map_trim_splitLines_trimStart {cs : List Char}
    (h : ∀ l ∈ splitLines cs, ∃ c ∈ l, isBlank c = false) :
    (splitLines (trimStart cs)).map trim = (splitLines cs).map trim := by
  induction cs with
  | nil => rfl
  | cons c cs ih =>
    by_cases hc : isBlank c = true
    · have hbreak : isLineBreak c = false := by
        refine Bool.eq_false_iff.mpr fun hb => ?_
        obtain ⟨d, hd, -⟩ := h [] (nil_mem_splitLines_of_break hb cs)
        cases hd
      rw [splitLines_cons_of_not_break hbreak] at h ⊢
      rw [trimStart, List.dropWhile_cons_of_pos hc, ← trimStart]
      cases hls : splitLines cs with
      | nil =>
        rw [hls] at h
        obtain ⟨d, hd, -⟩ := exists_of_blank_cons hc (h [c] List.mem_cons_self)
        cases hd
      | cons first others =>
        rw [hls] at h ih
        have hfirst := exists_of_blank_cons hc (h (c :: first) List.mem_cons_self)
        have hothers : ∀ l ∈ others, ∃ d ∈ l, isBlank d = false := fun l hl =>
          h l (List.mem_cons_of_mem _ hl)
        have htrim : trim (c :: first) = trim first := by
          rw [trim, trim, trimStart, List.dropWhile_cons_of_pos hc, trimStart]
        rw [ih (List.forall_mem_cons.mpr ⟨hfirst, hothers⟩), consFirst, List.map_cons,
          List.map_cons, htrim]
    · rw [trimStart, List.dropWhile_cons_of_neg hc]

/-- Blanks around a text stand around its lines, if no line is blank. -/
theorem map_trim_splitLines_trim {cs : List Char}
    (h : ∀ l ∈ splitLines cs, ∃ c ∈ l, isBlank c = false) :
    (splitLines (trim cs)).map trim = (splitLines cs).map trim := by
  have hstart := map_trim_splitLines_trimStart h
  cases hcs : trimStart cs with
  | nil =>
    rw [hcs] at hstart
    rw [trim, hcs]
    exact hstart
  | cons c ds =>
    have hhead : ∃ d ∈ c :: ds, isBlank d = false :=
      ⟨c, List.mem_cons_self, head?_trimStart cs c (by rw [hcs]; rfl)⟩
    have hall : ∀ l ∈ (splitLines (c :: ds)).map trim, l ≠ [] := by
      rw [← hcs, hstart]
      intro l hl he
      obtain ⟨k, hk, rfl⟩ := List.mem_map.mp hl
      obtain ⟨d, hd, hb⟩ := h k hk
      rw [trim_eq_nil_iff.mp he d hd] at hb
      cases hb
    have hfirst : OnlyFirstBlank (splitLines (c :: ds)) := by
      intro l hl
      by_contra hnone
      refine hall _ (List.mem_map_of_mem (List.mem_of_mem_drop hl)) (trim_eq_nil_iff.mpr ?_)
      exact fun d hd => Bool.of_not_eq_false fun hb => hnone ⟨d, hd, hb⟩
    have hend := congrArg (List.map trim) (map_trimEnd_splitLines hhead hfirst)
    have htrim : trim ∘ trimEnd = trim := funext trim_trimEnd
    rw [List.map_map, List.map_map, htrim] at hend
    rw [trim, hcs, hend, ← hcs, hstart]

/-- A text without blank lines has the same lines without the blanks around it, but for
blanks around the lines, and none of them is blank either. -/
theorem map_strip_lines_strip {s : String} (h : ∀ l ∈ lines s, isBlankText l = false) :
    (lines (strip s)).map strip = (lines s).map strip ∧
      ∀ l ∈ lines (strip s), isBlankText l = false := by
  have hchars : ∀ l ∈ splitLines s.toList, ∃ c ∈ l, isBlank c = false := by
    intro l hl
    have hb := h (String.ofList l) (List.mem_map_of_mem hl)
    rw [isBlankText, String.toList_ofList, List.all_eq_false] at hb
    obtain ⟨c, hc, hn⟩ := hb
    exact ⟨c, hc, Bool.eq_false_iff.mpr hn⟩
  have hmap : ∀ cs : List Char, ((splitLines cs).map String.ofList).map strip =
      ((splitLines cs).map trim).map String.ofList := by
    intro cs
    rw [List.map_map, List.map_map]
    refine List.map_congr_left fun l _ => ?_
    rw [Function.comp_apply, strip, String.toList_ofList, Function.comp_apply]
  have hlines : (lines (strip s)).map strip = (lines s).map strip := by
    rw [lines, lines, toList_strip, hmap, hmap, map_trim_splitLines_trim hchars]
  refine ⟨hlines, fun l hl => ?_⟩
  have hmem : strip l ∈ (lines (strip s)).map strip := List.mem_map_of_mem hl
  rw [hlines] at hmem
  obtain ⟨k, hk, he⟩ := List.mem_map.mp hmem
  rw [← isBlankText_strip, ← he, isBlankText_strip]
  exact h k hk

end RubyDoc.Text

import RubyDoc.Proofs.Report.Console

/-!
# Reading markup

A console that reads tags by their names. A tag behind an odd number of backslashes is text.
A tag that closes a named one needs an open one of that name, and a tag that closes the last one
needs any that is open; a text with another closing tag is refused. Such a console reads markup:
nothing of an escaped text is read as a tag, and a marked part closes what it opens.
-/

namespace RubyDoc.Report

/-- The name of a tag: what stands before its value or its closing bracket. -/
def tagName (inside : List Char) : List Char := inside.takeWhile fun c => c != '=' && c != ']'

/-- The tags that are open behind a tag, unless it closes what is not open. -/
def openedBehind (opened : List (List Char)) (inside : List Char) : Option (List (List Char)) :=
  match tagName inside with
  | ['/'] => opened.tail?
  | '/' :: name => if name ∈ opened then some (opened.erase name) else none
  | name => some (name :: opened)

/-- Whether all closing tags close one that is open; the number counts the backslashes just
passed. -/
def readsFrom (opened : List (List Char)) (slashes : Nat) : List Char → Bool
  | [] => true
  | c :: cs =>
    if c == '\\' then readsFrom opened (slashes + 1) cs
    else if c == '[' then
      match _ : tag? cs with
      | some (inside, after) =>
        if slashes % 2 == 1 then readsFrom opened 0 after
        else
          match openedBehind opened inside with
          | some opened => readsFrom opened 0 after
          | none => false
      | none => readsFrom opened 0 cs
    else readsFrom opened 0 cs
termination_by cs => cs.length
decreasing_by
  · simp
  · exact Nat.lt_succ_of_lt (length_tag? ‹_›)
  · exact Nat.lt_succ_of_lt (length_tag? ‹_›)
  · simp
  · simp

/-- A console that reads tags by their names. -/
def tagConsole : Console where
  refuses item := item.texts.any fun s => !readsFrom [] 0 s.toList

variable {opened : List (List Char)} {slashes : Nat} {c : Char} {cs inside after rest : List Char}

/-! ### One step -/

theorem readsFrom_backslash :
    readsFrom opened slashes ('\\' :: cs) = readsFrom opened (slashes + 1) cs := by
  rw [readsFrom]
  rfl

theorem readsFrom_of_ne (hslash : c ≠ '\\') (hbracket : c ≠ '[') :
    readsFrom opened slashes (c :: cs) = readsFrom opened 0 cs := by
  rw [readsFrom, if_neg (by simpa using hslash), if_neg (by simpa using hbracket)]

theorem readsFrom_bracket (h : tag? cs = none) :
    readsFrom opened slashes ('[' :: cs) = readsFrom opened 0 cs := by
  rw [readsFrom, if_neg (by decide), if_pos (by decide)]
  split
  · next htag => cases h.symm.trans htag
  · rfl

/-- A tag that is escaped opens and closes nothing. -/
theorem readsFrom_escapedTag (h : tag? cs = some (inside, after)) (hodd : slashes % 2 = 1) :
    readsFrom opened slashes ('[' :: cs) = readsFrom opened 0 after := by
  rw [readsFrom, if_neg (by decide), if_pos (by decide)]
  split
  · next htag =>
    cases h.symm.trans htag
    rw [if_pos (by simpa using hodd)]
  · next htag => cases h.symm.trans htag

/-- One that is not escaped opens or closes something. -/
theorem readsFrom_tag {behind : List (List Char)} (h : tag? cs = some (inside, after))
    (heven : slashes % 2 = 0) (hopened : openedBehind opened inside = some behind) :
    readsFrom opened slashes ('[' :: cs) = readsFrom behind 0 after := by
  rw [readsFrom, if_neg (by decide), if_pos (by decide)]
  split
  · next htag =>
    cases h.symm.trans htag
    rw [if_neg (by simp [heven]), hopened]
  · next htag => cases h.symm.trans htag

/-- Backslashes are counted. -/
theorem readsFrom_replicate (n : Nat) :
    readsFrom opened slashes (List.replicate n '\\' ++ cs) = readsFrom opened (slashes + n) cs := by
  induction n generalizing slashes with
  | zero => rfl
  | succ n ih =>
    rw [List.replicate_succ, List.cons_append, readsFrom_backslash, ih, Nat.add_right_comm,
      Nat.add_assoc]

/-! ### Escaped texts -/

theorem escapeFrom_backslash : escapeFrom slashes ('\\' :: cs) = escapeFrom (slashes + 1) cs := by
  rw [escapeFrom]
  rfl

theorem escapeFrom_of_ne (hslash : c ≠ '\\') (hbracket : c ≠ '[') :
    escapeFrom slashes (c :: cs) = List.replicate slashes '\\' ++ c :: escapeFrom 0 cs := by
  rw [escapeFrom, if_neg (by simpa using hslash), if_neg (by simpa using hbracket)]

theorem escapeFrom_tag (h : tag? cs = some (inside, after)) :
    escapeFrom slashes ('[' :: cs) =
      List.replicate (2 * slashes + 1) '\\' ++ '[' :: (inside ++ escapeFrom 0 after) := by
  rw [escapeFrom, if_neg (by decide), if_pos (by decide)]
  split
  · next htag =>
    cases h.symm.trans htag
    rfl
  · next htag => cases h.symm.trans htag

theorem escapeFrom_bracket (h : tag? cs = none) :
    escapeFrom slashes ('[' :: cs) = List.replicate slashes '\\' ++ '[' :: escapeFrom 0 cs := by
  rw [escapeFrom, if_neg (by decide), if_pos (by decide)]
  split
  · next htag => cases h.symm.trans htag
  · rfl

/-- Texts are escaped in five steps. -/
theorem escapeFrom_induction {motive : Nat → List Char → Prop} (nil : ∀ n, motive n [])
    (backslash : ∀ n cs, motive (n + 1) cs → motive n ('\\' :: cs))
    (tag : ∀ n cs inside after, tag? cs = some (inside, after) → motive 0 after →
      motive n ('[' :: cs))
    (bracket : ∀ n cs, tag? cs = none → motive 0 cs → motive n ('[' :: cs))
    (other : ∀ n c cs, c ≠ '\\' → c ≠ '[' → motive 0 cs → motive n (c :: cs))
    (slashes : Nat) (cs : List Char) : motive slashes cs := by
  induction slashes, cs using escapeFrom.induct with
  | case1 slashes => exact nil slashes
  | case2 slashes c cs hslash ih =>
    rw [beq_iff_eq.mp hslash]
    exact backslash slashes cs ih
  | case3 slashes c cs hslash hbracket inside after htag ih =>
    rw [beq_iff_eq.mp hbracket]
    exact tag slashes cs inside after htag ih
  | case4 slashes c cs hslash hbracket htag ih =>
    rw [beq_iff_eq.mp hbracket]
    exact bracket slashes cs htag ih
  | case5 slashes c cs hslash hbracket ih =>
    exact other slashes c cs (by simpa using hslash) (by simpa using hbracket) ih

/-- What is behind a tag does not matter to it. -/
theorem tagEnd_append (h : tagEnd cs = some (inside, after)) (rest : List Char) :
    tagEnd (inside ++ rest) = some (inside, rest) := by
  induction cs generalizing inside with
  | nil => cases h
  | cons c cs ih =>
    rw [tagEnd] at h
    split at h
    · next hclose =>
      cases h
      rw [List.singleton_append, tagEnd, if_pos hclose]
    · next hclose =>
      split at h
      · cases h
      · next hopen =>
        obtain ⟨⟨inside, after⟩, hend, hr⟩ := Option.map_eq_some_iff.mp h
        cases hr
        rw [List.cons_append, tagEnd, if_neg hclose, if_neg hopen, ih hend]
        rfl

theorem tag?_append (h : tag? cs = some (inside, after)) (rest : List Char) :
    tag? (inside ++ rest) = some (inside, rest) := by
  cases cs with
  | nil => cases h
  | cons c cs =>
    rw [tag?] at h
    split at h
    · next hbegins =>
      obtain ⟨⟨inside, after⟩, hend, hr⟩ := Option.map_eq_some_iff.mp h
      cases hr
      rw [List.cons_append, tag?, if_pos hbegins, tagEnd_append hend]
      rfl
    · cases h

/-- Backslashes end no tag. -/
theorem tagEnd_replicate_append (n : Nat) (h : tagEnd rest = none) :
    tagEnd (List.replicate n '\\' ++ rest) = none := by
  induction n with
  | zero => exact h
  | succ n ih =>
    rw [List.replicate_succ, List.cons_append, tagEnd, if_neg (by decide), if_neg (by decide), ih]
    rfl

theorem tagEnd_replicate_bracket (n : Nat) (rest : List Char) :
    tagEnd (List.replicate n '\\' ++ '[' :: rest) = none :=
  tagEnd_replicate_append n (by rw [tagEnd, if_neg (by decide), if_pos (by decide)])

theorem tagEnd_cons_of_ne (hclose : c ≠ ']') (hopen : c ≠ '[') :
    tagEnd (c :: cs) = (tagEnd cs).map fun r => (c :: r.1, r.2) := by
  rw [tagEnd, if_neg (by simpa using hclose), if_neg (by simpa using hopen)]

theorem ne_and_tagEnd_of_cons (h : tagEnd (c :: cs) = none) (hne : c ≠ '[') :
    c ≠ ']' ∧ tagEnd cs = none := by
  rw [tagEnd] at h
  split at h
  · cases h
  · next hclose =>
    rw [if_neg (by simpa using hne), Option.map_eq_none_iff] at h
    exact ⟨by simpa using hclose, h⟩

/-- Where no tag ends in a text and behind it, none ends in the escaped text. -/
theorem tagEnd_escapeFrom (h : tagEnd cs = none) (hrest : tagEnd rest = none) (slashes : Nat) :
    tagEnd (escapeFrom slashes cs ++ rest) = none := by
  induction slashes, cs using escapeFrom_induction with
  | nil slashes =>
    rw [escapeFrom]
    exact tagEnd_replicate_append slashes hrest
  | backslash slashes cs ih =>
    rw [escapeFrom_backslash]
    exact ih (ne_and_tagEnd_of_cons h (by decide)).2
  | tag slashes cs inside after htag ih =>
    rw [escapeFrom_tag htag, List.append_assoc]
    exact tagEnd_replicate_bracket _ _
  | bracket slashes cs htag ih =>
    rw [escapeFrom_bracket htag, List.append_assoc]
    exact tagEnd_replicate_bracket _ _
  | other slashes c cs hslash hbracket ih =>
    obtain ⟨hclose, hend⟩ := ne_and_tagEnd_of_cons h hbracket
    rw [escapeFrom_of_ne hslash hbracket, List.append_assoc]
    refine tagEnd_replicate_append slashes ?_
    rw [List.cons_append, tagEnd_cons_of_ne hclose hbracket, ih hend]
    rfl

/-- A backslash that was passed comes first. -/
theorem exists_escapeFrom_succ (slashes : Nat) (cs : List Char) :
    ∃ behind, escapeFrom (slashes + 1) cs = '\\' :: behind := by
  induction slashes, cs using escapeFrom_induction with
  | nil slashes =>
    rw [escapeFrom]
    exact ⟨_, List.replicate_succ⟩
  | backslash slashes cs ih =>
    rw [escapeFrom_backslash]
    exact ih
  | tag slashes cs inside after htag ih =>
    rw [escapeFrom_tag htag, List.replicate_succ]
    exact ⟨_, rfl⟩
  | bracket slashes cs htag ih =>
    rw [escapeFrom_bracket htag, List.replicate_succ]
    exact ⟨_, rfl⟩
  | other slashes c cs hslash hbracket ih =>
    rw [escapeFrom_of_ne hslash hbracket, List.replicate_succ]
    exact ⟨_, rfl⟩

theorem tag?_of_beginsTag_eq_false (h : beginsTag c = false) (cs : List Char) :
    tag? (c :: cs) = none := by
  rw [tag?, h]
  rfl

theorem tag?_of_tagEnd (h : tagEnd cs = none) : tag? cs = none := by
  cases cs with
  | nil => rfl
  | cons c cs =>
    cases hbegins : beginsTag c with
    | false => exact tag?_of_beginsTag_eq_false hbegins cs
    | true =>
      have hne : c ≠ '[' := by
        rintro rfl
        cases hbegins
      rw [tag?, (ne_and_tagEnd_of_cons h hne).2, if_pos hbegins]
      rfl

/-- What begins no tag begins none when it is escaped. -/
theorem tag?_escapeFrom (h : tag? cs = none) (hrest : tagEnd rest = none) (slashes : Nat) :
    tag? (escapeFrom slashes cs ++ rest) = none := by
  induction slashes, cs using escapeFrom_induction with
  | nil slashes =>
    rw [escapeFrom]
    exact tag?_of_tagEnd (tagEnd_replicate_append slashes hrest)
  | backslash slashes cs =>
    obtain ⟨behind, hbehind⟩ := exists_escapeFrom_succ slashes cs
    rw [escapeFrom_backslash, hbehind]
    exact tag?_of_beginsTag_eq_false (by decide) _
  | tag slashes cs inside after htag =>
    rw [escapeFrom_tag htag, List.append_assoc]
    exact tag?_of_tagEnd (tagEnd_replicate_bracket _ _)
  | bracket slashes cs htag =>
    rw [escapeFrom_bracket htag, List.append_assoc]
    exact tag?_of_tagEnd (tagEnd_replicate_bracket _ _)
  | other slashes c cs hslash hbracket =>
    rw [escapeFrom_of_ne hslash hbracket]
    cases slashes with
    | succ slashes => exact tag?_of_beginsTag_eq_false (by decide) _
    | zero =>
      change tag? (c :: (escapeFrom 0 cs ++ rest)) = none
      cases hbegins : beginsTag c with
      | false => exact tag?_of_beginsTag_eq_false hbegins _
      | true =>
        rw [tag?, if_pos hbegins, Option.map_eq_none_iff] at h ⊢
        exact tagEnd_escapeFrom h hrest 0

/-- No tag is read in an escaped text. -/
theorem exists_readsFrom_escapeFrom (hrest : tagEnd rest = none) (opened : List (List Char))
    (slashes : Nat) (cs : List Char) :
    ∃ n, readsFrom opened 0 (escapeFrom slashes cs ++ rest) = readsFrom opened n rest := by
  induction slashes, cs using escapeFrom_induction with
  | nil slashes =>
    rw [escapeFrom]
    exact ⟨_, readsFrom_replicate slashes⟩
  | backslash slashes cs ih =>
    rw [escapeFrom_backslash]
    exact ih
  | tag slashes cs inside after htag ih =>
    rw [escapeFrom_tag htag, List.append_assoc, readsFrom_replicate, List.cons_append,
      List.append_assoc, readsFrom_escapedTag (tag?_append htag _) (by omega)]
    exact ih
  | bracket slashes cs htag ih =>
    rw [escapeFrom_bracket htag, List.append_assoc, readsFrom_replicate, List.cons_append,
      readsFrom_bracket (tag?_escapeFrom htag hrest 0)]
    exact ih
  | other slashes c cs hslash hbracket ih =>
    rw [escapeFrom_of_ne hslash hbracket, List.append_assoc, readsFrom_replicate,
      List.cons_append, readsFrom_of_ne hslash hbracket]
    exact ih

theorem closeSlash_eq_or (cs : List Char) :
    closeSlash cs = cs ∨ closeSlash cs = cs ++ ['\\'] := by
  rw [closeSlash]
  split
  · exact .inl rfl
  · exact .inr rfl
  · exact .inl rfl

theorem exists_readsFrom_escape (hrest : tagEnd rest = none) (opened : List (List Char))
    (s : String) :
    ∃ n, readsFrom opened 0 ((escape s).toList ++ rest) = readsFrom opened n rest := by
  rw [escape, String.toList_ofList]
  rcases closeSlash_eq_or (escapeFrom 0 s.toList) with hclose | hclose
  · rw [hclose]
    exact exists_readsFrom_escapeFrom hrest opened 0 s.toList
  · have hslash : tagEnd ('\\' :: rest) = none := tagEnd_replicate_append 1 hrest
    obtain ⟨n, hn⟩ := exists_readsFrom_escapeFrom hslash opened 0 s.toList
    rw [hclose, List.append_assoc]
    exact ⟨n + 1, hn.trans readsFrom_backslash⟩

/-! ### Texts without brackets -/

theorem exists_readsFrom_plain (h : '[' ∉ cs) (opened : List (List Char)) (slashes : Nat)
    (rest : List Char) : ∃ n, readsFrom opened slashes (cs ++ rest) = readsFrom opened n rest := by
  induction cs generalizing slashes with
  | nil => exact ⟨slashes, rfl⟩
  | cons c cs ih =>
    obtain ⟨hbracket, hcs⟩ := not_or.mp (mt List.mem_cons.mpr h)
    rw [List.cons_append]
    by_cases hslash : c = '\\'
    · rw [hslash, readsFrom_backslash]
      exact ih hcs (slashes + 1)
    · rw [readsFrom_of_ne hslash (Ne.symm hbracket)]
      exact ih hcs 0

/-- No backslash is left over where the last character is none. -/
theorem readsFrom_plain (h : '[' ∉ cs) (hlast : cs.getLast? ≠ some '\\') :
    readsFrom opened 0 (cs ++ rest) = readsFrom opened 0 rest := by
  rcases List.eq_nil_or_concat cs with rfl | ⟨before, c, rfl⟩
  · rfl
  · rw [List.concat_eq_append] at h hlast ⊢
    obtain ⟨hbefore, hc⟩ := not_or.mp (mt List.mem_append.mpr h)
    obtain ⟨n, hn⟩ := exists_readsFrom_plain hbefore opened 0 (c :: rest)
    rw [List.getLast?_concat, ne_eq, Option.some_inj] at hlast
    rw [List.append_assoc]
    exact hn.trans (readsFrom_of_ne hlast (Ne.symm (mt List.mem_singleton.mpr hc)))

/-! ### Marked parts -/

theorem openedBehind_opening (h : tagName inside = c :: cs) (hne : c ≠ '/')
    (opened : List (List Char)) : openedBehind opened inside = some ((c :: cs) :: opened) := by
  rw [openedBehind, h]
  split
  · next heq => exact absurd (List.cons.inj heq).1 hne
  · next heq => exact absurd (List.cons.inj heq).1 hne
  · rfl

theorem openedBehind_closing (h : tagName inside = '/' :: c :: cs) (opened : List (List Char)) :
    openedBehind ((c :: cs) :: opened) inside = some opened := by
  rw [openedBehind, h]
  change (if c :: cs ∈ (c :: cs) :: opened then _ else none) = some opened
  rw [if_pos List.mem_cons_self, List.erase_cons_head]

/-- The styles name tags, and closing ones behind a slash. -/
theorem tag?_style : ∀ style ∈ styles,
    tag? (style.toList ++ [']']) = some (style.toList ++ [']'], []) ∧
    tag? ('/' :: style.toList ++ [']']) = some ('/' :: style.toList ++ [']'], []) ∧
    tagName (style.toList ++ [']']) = style.toList ∧
    tagName ('/' :: style.toList ++ [']']) = '/' :: style.toList ∧
    style.toList ≠ [] ∧ style.toList.head? ≠ some '/' := by decide

theorem readsFrom_openTag {style : String} (h : style ∈ styles) :
    readsFrom opened 0 (("[" ++ style ++ "]").toList ++ rest) =
      readsFrom (style.toList :: opened) 0 rest := by
  obtain ⟨htag, -, hname, -, hne, hslash⟩ := tag?_style style h
  have hopened : openedBehind opened (style.toList ++ [']']) = some (style.toList :: opened) := by
    cases hstyle : style.toList with
    | nil => exact absurd hstyle hne
    | cons c cs =>
      rw [hstyle] at hname hslash
      exact openedBehind_opening hname (fun hc => hslash (congrArg some hc)) opened
  rw [String.toList_append, String.toList_append]
  change readsFrom opened 0 ('[' :: (style.toList ++ [']'] ++ rest)) = _
  exact readsFrom_tag (tag?_append htag rest) rfl hopened

/-- A closing tag closes the last one that was opened, if no backslash stands before it. -/
theorem exists_readsFrom_closeTag {style : String} (h : style ∈ styles) (slashes : Nat) :
    ∃ opened', readsFrom (style.toList :: opened) slashes (("[/" ++ style ++ "]").toList ++ rest) =
      readsFrom opened' 0 rest := by
  obtain ⟨-, htag, -, hname, hne, -⟩ := tag?_style style h
  have hopened : openedBehind (style.toList :: opened) ('/' :: style.toList ++ [']']) =
      some opened := by
    cases hstyle : style.toList with
    | nil => exact absurd hstyle hne
    | cons c cs =>
      rw [hstyle] at hname
      exact openedBehind_closing hname opened
  rw [String.toList_append, String.toList_append]
  change ∃ opened', readsFrom _ slashes ('[' :: ('/' :: style.toList ++ [']'] ++ rest)) = _
  rcases Nat.mod_two_eq_zero_or_one slashes with heven | hodd
  · exact ⟨opened, readsFrom_tag (tag?_append htag rest) heven hopened⟩
  · exact ⟨_, readsFrom_escapedTag (tag?_append htag rest) hodd⟩

/-- No tag ends before one that begins. -/
theorem tagEnd_closeTag (style : String) (rest : List Char) :
    tagEnd (("[/" ++ style ++ "]").toList ++ rest) = none := by
  rw [String.toList_append, String.toList_append]
  exact tagEnd_replicate_bracket 0 _

/-- A text whose markup can be read is read, whatever is open before it. -/
theorem readsFrom_of_wellMarked {s : String} (h : WellMarked s) (opened : List (List Char)) :
    readsFrom opened 0 s.toList = true := by
  induction h generalizing opened with
  | plain h =>
    obtain ⟨n, hn⟩ := exists_readsFrom_plain h opened 0 []
    rw [List.append_nil] at hn
    rw [hn, readsFrom]
  | escaped s =>
    obtain ⟨n, hn⟩ := exists_readsFrom_escape (show tagEnd [] = none from rfl) opened s
    rw [List.append_nil] at hn
    rw [hn, readsFrom]
  | @styled before style text after hstyle hbefore hlast htext hafter ih =>
    rw [marked, String.toList_append, String.toList_append, String.toList_append,
      String.toList_append, List.append_assoc, readsFrom_plain hbefore hlast, List.append_assoc,
      List.append_assoc, readsFrom_openTag hstyle]
    have htext' : ∃ n, readsFrom (style.toList :: opened) 0
        (text.toList ++ (("[/" ++ style ++ "]").toList ++ after.toList)) =
          readsFrom (style.toList :: opened) n (("[/" ++ style ++ "]").toList ++ after.toList) := by
      rcases htext with hplain | ⟨s, rfl⟩
      · exact exists_readsFrom_plain hplain _ 0 _
      · exact exists_readsFrom_escape (tagEnd_closeTag style _) _ s
    obtain ⟨n, hn⟩ := htext'
    obtain ⟨opened', hclose⟩ := exists_readsFrom_closeTag hstyle n
    rw [hn, hclose]
    exact ih opened'

/-- **Tags are read.** A console that reads tags by their names takes everything whose markup can
be read. -/
theorem readsMarkup_tagConsole : tagConsole.ReadsMarkup := by
  refine ⟨fun item h => List.any_eq_false.mpr fun s hs => ?_⟩
  rw [readsFrom_of_wellMarked (h s hs)]
  decide

/-- A path that closes what is not open is refused. -/
example : tagConsole.refuses (treeItem [.node "[cyan]method[/cyan] Foo#[/x]" []]) = true := by
  decide +kernel

end RubyDoc.Report

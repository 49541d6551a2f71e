import RubyDoc.Proofs.Docstring.Sealed

/-!
# Types that were read

The types that are split off a text can stand in a list again: the scanner that
finds the end of the list stops at the first bracket without a partner, so what
is inside is balanced, and the scanner that splits it cuts at depth zero, so
every item is. Only empty places of a list are no types.
-/

namespace RubyDoc.TypeList

open RubyDoc.Text

/-- A place of a type list: a type, or nothing. -/
def IsPlace (s : String) : Prop := s = "" ∨ IsItem s

instance (s : String) : Decidable (IsPlace s) := inferInstanceAs (Decidable (s = "" ∨ IsItem s))

/-- What the scanner finds in a bracket is balanced, counted from its depth. -/
theorem upToClose_balanced_inside {n : Nat} {p : Option Char} {cs inside after : List Char}
    (hn : 1 ≤ n) (h : upToClose n p cs = some (inside, after)) :
    staysAbove 1 n p inside = true ∧ depthThrough n p inside = 1 := by
  induction cs generalizing n p inside with
  | nil => cases h
  | cons c cs ih =>
    have hpass : ∀ m : Nat, 1 ≤ m → depthAfter n p c = m →
        (upToClose m (some c) cs).map (fun r => (c :: r.1, r.2)) = some (inside, after) →
        staysAbove 1 n p inside = true ∧ depthThrough n p inside = 1 := by
      intro m hm hdepth hup
      rw [Option.map_eq_some_iff] at hup
      obtain ⟨⟨rest, after'⟩, hr, heq⟩ := hup
      rw [Prod.mk.injEq] at heq
      obtain ⟨rfl, rfl⟩ := heq
      obtain ⟨habove, hend⟩ := ih hm hr
      have hbound : (1 : Int) ≤ n := by omega
      rw [staysAbove, depthThrough, hdepth, decide_eq_true hbound, habove, hend]
      exact ⟨rfl, rfl⟩
    rw [upToClose] at h
    split at h
    · next ho =>
      exact hpass (n + 1) (by omega) (if_pos ho) h
    · next ho =>
      split at h
      · next hc =>
        have hdepth : depthAfter n p c = n - 1 := by rw [depthAfter, if_neg ho, if_pos hc]
        split at h
        · next hone =>
          rw [Option.some.injEq, Prod.mk.injEq] at h
          rw [← h.1, beq_iff_eq.mp hone]
          exact ⟨rfl, rfl⟩
        · next hone =>
          rw [beq_iff_eq] at hone
          exact hpass (n - 1) (by omega) (by omega) h
      · next hc => exact hpass n hn (by rw [depthAfter, if_neg ho, if_neg hc]) h

/-- What the list scanner knows about an item, from the character before it. -/
def IsCut (p : Option Char) (cs : List Char) : Prop :=
  staysAbove 0 0 p cs = true ∧ depthThrough 0 p cs = 0 ∧ commasInside 0 p cs = true

theorem IsCut.congr {p q : Option Char} (hp : p ≠ some '=') (hq : q ≠ some '=') {cs : List Char}
    (h : IsCut p cs) : IsCut q cs := by
  rw [IsCut, staysAbove_congr hq hp, depthThrough_congr hq hp, commasInside_congr hq hp]
  exact h

/-- The items of balanced text are balanced, with their commas inside brackets. -/
theorem isCut_cutAtCommas {depth : Int} {p : Option Char} {cs : List Char}
    (ha : staysAbove 0 depth p cs = true) (he : depthThrough depth p cs = 0) :
    ∃ first others, cutAtCommas depth p cs = first :: others ∧
      (staysAbove 0 depth p first = true ∧ depthThrough depth p first = 0 ∧
        commasInside depth p first = true) ∧
      ∀ item ∈ others, IsCut none item := by
  induction cs generalizing depth p with
  | nil => exact ⟨[], [], rfl, ⟨ha, he, rfl⟩, by simp⟩
  | cons c cs ih =>
    rw [staysAbove, Bool.and_eq_true] at ha
    rw [depthThrough] at he
    obtain ⟨first, others, hcut, hfirst, hothers⟩ := ih ha.2 he
    rw [cutAtCommas, hcut]
    split
    · next hcomma =>
      rw [Bool.and_eq_true, beq_iff_eq, beq_iff_eq] at hcomma
      obtain ⟨rfl, hzero⟩ := hcomma
      rw [hzero] at hfirst
      rw [depthAfter_comma] at hzero
      subst hzero
      refine ⟨[], first :: others, rfl, ⟨rfl, rfl, rfl⟩, ?_⟩
      rw [List.forall_mem_cons]
      exact ⟨IsCut.congr (by decide) (by simp) hfirst, hothers⟩
    · next hcomma =>
      have hc : (c != ',' || depth != 0) = true := by
        rw [Bool.or_eq_true, bne_iff_ne, bne_iff_ne]
        by_cases hcc : c = ','
        · subst hcc
          rw [depthAfter_comma] at hcomma
          exact .inr fun hz => hcomma (by rw [hz]; rfl)
        · exact .inl hcc
      refine ⟨c :: first, others, rfl, ⟨?_, ?_, ?_⟩, hothers⟩
      · rw [staysAbove, ha.1, hfirst.1, Bool.and_self]
      · rw [depthThrough, hfirst.2.1]
      · rw [commasInside, hc, hfirst.2.2, Bool.and_self]

/-- A blank is neither a bracket nor a comma. -/
theorem depthAfter_blank {c : Char} (hc : isBlank c = true) (depth : Int) (p : Option Char) :
    depthAfter depth p c = depth := by
  have hno : isOpening c = false ∧ isClosing c = false := by
    constructor <;> rw [Bool.eq_false_iff] <;> intro hb <;>
      simp only [isOpening, isClosing, Bool.or_eq_true, beq_iff_eq] at hb <;>
      rcases hb with ((rfl | rfl) | rfl) | rfl <;> exact absurd hc (by decide)
  rw [depthAfter, closes, hno.1, hno.2]
  rfl

/-- Trimming an item leaves it balanced. -/
theorem IsCut.trim {cs : List Char} (h : IsCut none cs) : IsCut none (trim cs) := by
  have hstart : ∀ ds, IsCut none ds → IsCut none (trimStart ds) := by
    intro ds hds
    induction ds with
    | nil => exact hds
    | cons c ds ih =>
      by_cases hc : isBlank c = true
      · rw [trimStart, List.dropWhile_cons_of_pos hc]
        have hceq : some c ≠ some '=' := by
          rintro ⟨⟩
          cases hc
        obtain ⟨ha, he, hco⟩ := hds
        rw [staysAbove, depthAfter_blank hc, Bool.and_eq_true] at ha
        rw [depthThrough, depthAfter_blank hc] at he
        rw [commasInside, depthAfter_blank hc, Bool.and_eq_true] at hco
        exact ih (IsCut.congr hceq (by simp) ⟨ha.2, he, hco.2⟩)
      · rw [trimStart, List.dropWhile_cons_of_neg hc]
        exact hds
  have hblanks : ∀ (bs : List Char) (depth : Int) (p : Option Char), (∀ c ∈ bs, isBlank c = true) →
      depthThrough depth p bs = depth := by
    intro bs
    induction bs with
    | nil => exact fun _ _ _ => rfl
    | cons c bs ih =>
      intro depth p hb
      rw [List.forall_mem_cons] at hb
      rw [depthThrough, depthAfter_blank hb.1, ih _ _ hb.2]
  obtain ⟨ha, he, hco⟩ := hstart cs h
  obtain ⟨bs, hbs, hblank⟩ := exists_trimEnd_append (trimStart cs)
  rw [hbs, staysAbove_append, Bool.and_eq_true] at ha
  rw [hbs, depthThrough_append, hblanks _ _ _ hblank] at he
  rw [hbs, commasInside_append, Bool.and_eq_true] at hco
  exact ⟨ha.1, he, hco.1⟩

/-- The inside of a bracket is balanced by itself. -/
theorem balanced_of_upToClose {cs inside after : List Char}
    (h : upToClose 1 (some '[') cs = some (inside, after)) :
    staysAbove 0 0 none inside = true ∧ depthThrough 0 none inside = 0 := by
  obtain ⟨habove, hend⟩ := upToClose_balanced_inside (Nat.le_refl 1) h
  have hdown := staysAbove_add 0 0 1 (some '[') inside
  have hcount := depthThrough_add 0 1 (some '[') inside
  rw [staysAbove_congr (q := some '[') (by simp) (by decide),
    depthThrough_congr (q := some '[') (by simp) (by decide)]
  refine ⟨hdown.symm.trans habove, ?_⟩
  have hsum : depthThrough 0 (some '[') inside + 1 = 1 := hcount.symm.trans hend
  omega

/-- Every type that is split off a text is a place of a list. -/
theorem isPlace_of_splitOff {s rest : String} {types : List String} (hs : SingleLine s)
    (hstrip : strip s = s) (h : splitOff s = (some types, rest)) : ∀ t ∈ types, IsPlace t := by
  intro t ht
  have hline : SingleLine t := (splitOff_singleLine hs hstrip).1 types (by rw [h]; rfl) t ht
  unfold splitOff at h
  split at h
  · split at h
    · next inside after hup =>
      rw [Prod.mk.injEq, Option.some.injEq] at h
      obtain ⟨habove, hend⟩ := balanced_of_upToClose hup
      obtain ⟨first, others, hcut, hfirst, hothers⟩ := isCut_cutAtCommas habove hend
      rw [← h.1, split, String.toList_ofList, hcut] at ht
      obtain ⟨x, hx, rfl⟩ := List.mem_map.mp ht
      obtain ⟨item, hitem, rfl⟩ := exists_of_mem_itemsOf hx
      have hitem : IsCut none item := by
        rcases List.mem_cons.mp hitem with rfl | hm
        · exact hfirst
        · exact hothers item hm
      obtain ⟨ha, he, hco⟩ := hitem.trim
      by_cases hempty : trim item = []
      · exact .inl (by rw [hempty])
      · refine .inr ⟨by simpa using hempty, ?_, hline, ?_, ?_⟩
        · rw [strip, String.toList_ofList, trim_trim]
        · rw [Balanced, String.toList_ofList]
          exact ⟨ha, he⟩
        · rw [String.toList_ofList]
          exact hco
    · cases h
  · cases h

/-- What a place of a list is like, empty or not. -/
theorem IsPlace.fits {s : String} (h : IsPlace s) :
    strip s = s ∧ Balanced s ∧ commasInside 0 none s.toList = true := by
  rcases h with rfl | h
  · decide
  · exact ⟨h.stripped, h.balanced, h.commas⟩

/-- A list of places is split where it was joined exactly if it does not end in an empty
one. -/
theorem split_intercalate_iff {types : List String} (h : ∀ t ∈ types, IsPlace t) :
    split (String.intercalate ", " types) = types ↔ types.getLast? ≠ some "" := by
  rcases List.eq_nil_or_concat types with rfl | ⟨init, last, rfl⟩
  · exact ⟨fun _ => by simp, fun _ => rfl⟩
  · rw [List.concat_eq_append] at h ⊢
    rw [split_intercalate_concat fun t ht => (h t ht).fits, List.getLast?_concat]
    by_cases hl : last = ""
    · subst hl
      simp
    · simp [hl]

end RubyDoc.TypeList

import RubyDoc.Docstring.TypeList
import RubyDoc.Proofs.Text.Lines

/-!
# Bracket depth of types

The two scanners of a type list both follow the bracket depth. This module says
what a balanced text is, how depth behaves when texts are put together, and
that a list of balanced types is found again by both scanners. Brackets are
counted and not paired by shape, as the scanners do it.
-/

namespace RubyDoc.TypeList

open RubyDoc.Text

/-- The depth after a text, from the depth and the character before it. -/
def depthThrough : Int → Option Char → List Char → Int
  | depth, _, [] => depth
  | depth, previous, c :: cs => depthThrough (depthAfter depth previous c) (some c) cs

/-- Whether the depth stays at a bound or above it all the way. -/
def staysAbove (bound : Int) : Int → Option Char → List Char → Bool
  | depth, _, [] => decide (bound ≤ depth)
  | depth, previous, c :: cs =>
    decide (bound ≤ depth) && staysAbove bound (depthAfter depth previous c) (some c) cs

/-- Whether every comma stands inside brackets. -/
def commasInside : Int → Option Char → List Char → Bool
  | _, _, [] => true
  | depth, previous, c :: cs =>
    (c != ',' || depth != 0) && commasInside (depthAfter depth previous c) (some c) cs

/-- No bracket is closed that was not opened, and all of them are closed. -/
def Balanced (s : String) : Prop :=
  staysAbove 0 0 none s.toList = true ∧ depthThrough 0 none s.toList = 0

/-- A type as it can stand in a list: trimmed, on one line, balanced, and with
its commas inside brackets. -/
structure IsItem (s : String) : Prop where
  /-- The type is no empty text. -/
  nonempty : s ≠ ""
  /-- No blanks stand around it. -/
  stripped : strip s = s
  /-- It has no line break. -/
  singleLine : SingleLine s
  /-- Its brackets are balanced. -/
  balanced : Balanced s
  /-- No comma in it separates types. -/
  commas : commasInside 0 none s.toList = true

instance (s : String) : Decidable (Balanced s) :=
  inferInstanceAs (Decidable (_ ∧ _))

instance (s : String) : Decidable (IsItem s) :=
  decidable_of_iff
    (s ≠ "" ∧ strip s = s ∧ SingleLine s ∧ Balanced s ∧ commasInside 0 none s.toList = true)
    ⟨fun ⟨ne, st, sl, ba, co⟩ => ⟨ne, st, sl, ba, co⟩,
      fun ⟨ne, st, sl, ba, co⟩ => ⟨ne, st, sl, ba, co⟩⟩

/-! ### Depth along a text -/

/-- Only an equals sign before a character can change what it closes. -/
theorem depthAfter_congr {p q : Option Char} (hp : p ≠ some '=') (hq : q ≠ some '=')
    (depth : Int) (c : Char) : depthAfter depth p c = depthAfter depth q c := by
  simp [depthAfter, closes, hp, hq]

/-- Depth is counted from where it starts. -/
theorem depthAfter_add (depth k : Int) (p : Option Char) (c : Char) :
    depthAfter (depth + k) p c = depthAfter depth p c + k := by
  unfold depthAfter
  split
  · omega
  · split <;> omega

/-- A comma leaves the depth as it is. -/
@[simp] theorem depthAfter_comma (depth : Int) (p : Option Char) :
    depthAfter depth p ',' = depth := by
  simp [depthAfter, isOpening, closes, isClosing]

theorem depthThrough_congr {p q : Option Char} (hp : p ≠ some '=') (hq : q ≠ some '=')
    (depth : Int) (cs : List Char) : depthThrough depth p cs = depthThrough depth q cs := by
  cases cs with
  | nil => rfl
  | cons c cs => rw [depthThrough, depthThrough, depthAfter_congr hp hq]

theorem staysAbove_congr {p q : Option Char} (hp : p ≠ some '=') (hq : q ≠ some '=')
    (bound depth : Int) (cs : List Char) :
    staysAbove bound depth p cs = staysAbove bound depth q cs := by
  cases cs with
  | nil => rfl
  | cons c cs => rw [staysAbove, staysAbove, depthAfter_congr hp hq]

theorem commasInside_congr {p q : Option Char} (hp : p ≠ some '=') (hq : q ≠ some '=')
    (depth : Int) (cs : List Char) : commasInside depth p cs = commasInside depth q cs := by
  cases cs with
  | nil => rfl
  | cons c cs => rw [commasInside, commasInside, depthAfter_congr hp hq]

/-- A text has the same depth inside a bracket, counted from that bracket. -/
theorem depthThrough_add (depth k : Int) (p : Option Char) (cs : List Char) :
    depthThrough (depth + k) p cs = depthThrough depth p cs + k := by
  induction cs generalizing depth p with
  | nil => rfl
  | cons c cs ih => rw [depthThrough, depthAfter_add, ih, depthThrough]

theorem staysAbove_add (bound depth k : Int) (p : Option Char) (cs : List Char) :
    staysAbove (bound + k) (depth + k) p cs = staysAbove bound depth p cs := by
  induction cs generalizing depth p with
  | nil => simp [staysAbove]
  | cons c cs ih => rw [staysAbove, staysAbove, depthAfter_add, ih]; simp

/-- Types are joined by a comma and a space. -/
theorem toList_separator : ", ".toList = [',', ' '] := rfl

/-! ### The end of a list -/

/-- The scanner passes over a text that never falls below its own level. -/
theorem upToClose_append {n : Nat} {p : Option Char} {cs : List Char} (hn : 1 ≤ n)
    (hs : staysAbove 1 n p cs = true) (he : depthThrough n p cs = 1) (rest : List Char) :
    ∃ q, upToClose n p (cs ++ rest) = (upToClose 1 q rest).map fun r => (cs ++ r.1, r.2) := by
  induction cs generalizing n p with
  | nil =>
    have h1 : n = 1 := by
      rw [depthThrough] at he
      omega
    subst h1
    exact ⟨p, by simp⟩
  | cons c cs ih =>
    rw [staysAbove, Bool.and_eq_true] at hs
    rw [depthThrough] at he
    have hs := hs.2
    rw [List.cons_append, upToClose]
    unfold depthAfter at hs he
    by_cases ho : isOpening c = true
    · rw [if_pos ho] at hs he ⊢
      obtain ⟨q, hq⟩ := ih (n := n + 1) (by omega) (by exact_mod_cast hs) (by exact_mod_cast he)
      exact ⟨q, by rw [hq]; cases upToClose 1 q rest <;> rfl⟩
    · rw [if_neg ho] at hs he ⊢
      by_cases hc : closes p c = true
      · rw [if_pos hc] at hs he ⊢
        have hb : (1 : Int) ≤ (n : Int) - 1 := by
          cases cs <;> simp [staysAbove] at hs <;> omega
        have hd : ((n - 1 : Nat) : Int) = (n : Int) - 1 := by omega
        obtain ⟨q, hq⟩ := ih (n := n - 1) (by omega) (by rw [hd]; exact hs) (by rw [hd]; exact he)
        have hne : (n == 1) = false := by simp; omega
        exact ⟨q, by rw [hne, hq]; cases upToClose 1 q rest <;> rfl⟩
      · rw [if_neg hc] at hs he ⊢
        obtain ⟨q, hq⟩ := ih hn hs he
        exact ⟨q, by rw [hq]; cases upToClose 1 q rest <;> rfl⟩

/-- The scanner passes over balanced text inside one bracket. -/
theorem upToClose_balanced {s : String} (h : Balanced s) {p : Option Char} (hp : p ≠ some '=')
    (rest : List Char) : ∃ q, upToClose 1 p (s.toList ++ rest) =
      (upToClose 1 q rest).map fun r => (s.toList ++ r.1, r.2) := by
  refine upToClose_append (Nat.le_refl 1) ?_ ?_ rest
  · rw [staysAbove_congr hp (q := none) (by simp)]
    exact (staysAbove_add 0 0 1 none s.toList).trans h.1
  · rw [depthThrough_congr hp (q := none) (by simp)]
    have ha := depthThrough_add 0 1 none s.toList
    rw [h.2] at ha
    exact ha

/-- The bracket behind a list of balanced types ends it. -/
theorem upToClose_listed {types : List String} (h : ∀ t ∈ types, Balanced t) {p : Option Char}
    (hp : p ≠ some '=') (after : List Char) :
    upToClose 1 p ((String.intercalate ", " types).toList ++ ']' :: after) =
      some ((String.intercalate ", " types).toList, after) := by
  have hend : ∀ q, upToClose 1 q (']' :: after) = some ([], after) := by
    intro q
    simp [upToClose, isOpening, closes, isClosing]
  induction types generalizing p with
  | nil => simpa using hend p
  | cons t ts ih =>
    have ht := h t (by simp)
    cases ts with
    | nil =>
      obtain ⟨q, hq⟩ := upToClose_balanced ht hp (']' :: after)
      rw [String.intercalate_singleton, hq, hend q]
      simp
    | cons u us =>
      have hi := ih (fun v hv => h v (List.mem_cons_of_mem _ hv)) (p := some ' ') (by decide)
      rw [String.intercalate_cons_cons]
      simp only [String.toList_append, List.append_assoc]
      obtain ⟨q, hq⟩ := upToClose_balanced ht hp
        (", ".toList ++ ((String.intercalate ", " (u :: us)).toList ++ ']' :: after))
      have hsep : upToClose 1 q (", ".toList ++
          ((String.intercalate ", " (u :: us)).toList ++ ']' :: after)) =
          some (", ".toList ++ (String.intercalate ", " (u :: us)).toList, after) := by
        rw [toList_separator, List.cons_append, upToClose, if_neg (by decide),
          if_neg (by simp [closes, isClosing]), List.cons_append, upToClose, if_neg (by decide),
          if_neg (by decide), List.nil_append, hi]
        rfl
      rw [hq, hsep]
      rfl

/-! ### The items of a list -/

/-- A character that is no comma, or stands inside brackets, separates nothing. -/
theorem not_separates {depth : Int} {c : Char} (p : Option Char)
    (h : (c != ',' || depth != 0) = true) :
    ¬ (c == ',' && depthAfter depth p c == 0) = true := by
  intro hc
  rw [Bool.and_eq_true, beq_iff_eq, beq_iff_eq] at hc
  obtain ⟨rfl, hz⟩ := hc
  rw [depthAfter_comma] at hz
  simp [hz] at h

/-- A text whose commas all stand inside brackets is one item. -/
theorem cutAtCommas_single {depth : Int} {p : Option Char} {cs : List Char}
    (h : commasInside depth p cs = true) : cutAtCommas depth p cs = [cs] := by
  induction cs generalizing depth p with
  | nil => rfl
  | cons c cs ih =>
    rw [commasInside, Bool.and_eq_true] at h
    rw [cutAtCommas, if_neg (not_separates p h.1), ih h.2]
    rfl

/-- The first comma outside brackets ends the first item. -/
theorem cutAtCommas_append_comma {depth : Int} {p : Option Char} {cs : List Char}
    (h : commasInside depth p cs = true) (he : depthThrough depth p cs = 0) (rest : List Char) :
    cutAtCommas depth p (cs ++ ',' :: rest) = cs :: cutAtCommas 0 (some ',') rest := by
  induction cs generalizing depth p with
  | nil =>
    rw [depthThrough] at he
    rw [List.nil_append, cutAtCommas]
    simp [he]
  | cons c cs ih =>
    rw [commasInside, Bool.and_eq_true] at h
    rw [depthThrough] at he
    rw [List.cons_append, cutAtCommas, if_neg (not_separates p h.1), ih h.2 he]
    rfl

/-- A list of types is cut where it was joined; the space behind each comma
goes to the item after it. -/
theorem cutAtCommas_listed {t : String} {ts : List String}
    (h : ∀ u ∈ t :: ts, Balanced u ∧ commasInside 0 none u.toList = true)
    {p : Option Char} (hp : p ≠ some '=') :
    cutAtCommas 0 p (String.intercalate ", " (t :: ts)).toList =
      t.toList :: ts.map fun u => ' ' :: u.toList := by
  induction ts generalizing t p with
  | nil =>
    have hc := (h t (by simp)).2
    rw [commasInside_congr (q := p) (by simp) hp] at hc
    rw [String.intercalate_singleton, cutAtCommas_single hc]
    rfl
  | cons u us ih =>
    obtain ⟨⟨-, he⟩, hc⟩ := h t (by simp)
    rw [commasInside_congr (q := p) (by simp) hp] at hc
    rw [depthThrough_congr (q := p) (by simp) hp] at he
    have hi := ih (fun v hv => h v (List.mem_cons_of_mem _ hv)) (p := some ' ') (by decide)
    rw [String.intercalate_cons_cons]
    simp only [String.toList_append, List.append_assoc, toList_separator, List.cons_append,
      List.nil_append]
    have hspace : depthAfter 0 (some ',') ' ' = 0 := by decide
    rw [cutAtCommas_append_comma hc he, cutAtCommas, if_neg (by decide), hspace, hi]
    rfl

/-- All items are kept, trimmed, but for a blank one at the end. -/
theorem itemsOf_eq {items trimmed : List (List Char)} {last : List Char}
    (h : items.map trim = trimmed ++ [last]) :
    itemsOf items = trimmed ++ if last = [] then [] else [last] := by
  induction items generalizing trimmed with
  | nil => simp at h
  | cons item items ih =>
    cases trimmed with
    | nil =>
      rw [List.nil_append, List.map_cons, List.cons.injEq, List.map_eq_nil_iff] at h
      rw [h.2, itemsOf, ← h.1, List.nil_append]
      simp only [List.isEmpty_iff]
    | cons t ts =>
      rw [List.cons_append, List.map_cons, List.cons.injEq] at h
      have hne : items ≠ [] := by
        rintro rfl
        simp at h
      rw [itemsOf, ih h.2, h.1, List.cons_append]
      exact hne

/-- Joining trimmed types and splitting the text gives the types back, but for an empty one
at the end. -/
theorem split_intercalate_concat {types : List String} {last : String}
    (h : ∀ t ∈ types ++ [last],
      strip t = t ∧ Balanced t ∧ commasInside 0 none t.toList = true) :
    split (String.intercalate ", " (types ++ [last])) =
      types ++ if last = "" then [] else [last] := by
  have htrim : ∀ u ∈ types ++ [last], trim u.toList = u.toList := fun u hu => by
    rw [← toList_strip, (h u hu).1]
  have hitems : (cutAtCommas 0 none (String.intercalate ", " (types ++ [last])).toList).map trim =
      types.map String.toList ++ [last.toList] := by
    rw [← List.map_singleton, ← List.map_append]
    cases htypes : types ++ [last] with
    | nil => simp at htypes
    | cons t ts =>
      rw [htypes] at h htrim
      rw [cutAtCommas_listed (fun u hu => (h u hu).2) (by simp), List.map_cons, List.map_map,
        List.map_cons, htrim t List.mem_cons_self]
      congr 1
      refine List.map_congr_left fun u hu => ?_
      rw [Function.comp_apply, trim_space_cons, htrim u (List.mem_cons_of_mem _ hu)]
  rw [split, itemsOf_eq hitems, List.map_append, List.map_map]
  congr 1
  · exact (List.map_congr_left fun u _ => String.ofList_toList).trans (List.map_id' types)
  · by_cases hl : last = ""
    · subst hl
      rfl
    · rw [if_neg hl, if_neg (by simpa using hl), List.map_singleton, String.ofList_toList]

/-- Joining types and splitting the text gives the types back. -/
theorem split_listed {types : List String} (h : ∀ t ∈ types, IsItem t) :
    split (String.intercalate ", " types) = types := by
  rcases List.eq_nil_or_concat types with rfl | ⟨init, last, rfl⟩
  · rfl
  · rw [List.concat_eq_append] at h ⊢
    have hne : last ≠ "" := (h last (by simp)).nonempty
    rw [split_intercalate_concat fun t ht =>
      ⟨(h t ht).stripped, (h t ht).balanced, (h t ht).commas⟩, if_neg hne]

/-- Without brackets and commas, a text that is trimmed and on one line is a type. -/
theorem isItem_of_plain {s : String} (hne : s ≠ "") (hstrip : strip s = s)
    (hs : SingleLine s)
    (h : ∀ c ∈ s.toList, isOpening c = false ∧ isClosing c = false ∧ c ≠ ',') : IsItem s := by
  have hdepth : ∀ c ∈ s.toList, ∀ p, depthAfter 0 p c = 0 := by
    intro c hc p
    rw [depthAfter, closes, (h c hc).1, (h c hc).2.1]
    rfl
  have hall : ∀ (cs : List Char) (p : Option Char), (∀ c ∈ cs, c ∈ s.toList) →
      staysAbove 0 0 p cs = true ∧ depthThrough 0 p cs = 0 ∧ commasInside 0 p cs = true := by
    intro cs
    induction cs with
    | nil => exact fun _ _ => ⟨rfl, rfl, rfl⟩
    | cons c cs ih =>
      intro p hmem
      have hc := hmem c List.mem_cons_self
      obtain ⟨habove, hthrough, hcommas⟩ := ih (some c) fun d hd => hmem d (List.mem_cons_of_mem _ hd)
      refine ⟨?_, ?_, ?_⟩
      · rw [staysAbove, hdepth c hc, habove]
        rfl
      · rw [depthThrough, hdepth c hc, hthrough]
      · rw [commasInside, hdepth c hc, hcommas, bne_iff_ne.mpr (h c hc).2.2]
        rfl
  obtain ⟨habove, hthrough, hcommas⟩ := hall s.toList none fun _ hc => hc
  exact ⟨hne, hstrip, hs, ⟨habove, hthrough⟩, hcommas⟩

/-! ### A bracketed list in front of a text -/

/-- A text that does not begin with a square bracket has no type list. -/
theorem splitOff_of_no_bracket {s : String} (h : beginsWith "[" s = false) :
    splitOff s = (none, s) := by
  unfold splitOff
  split
  · next cs hs => simp [beginsWith, hs] at h
  · rfl

/-- A bracketed list of balanced types is taken off whole; how it is split is
a matter of its inside alone. -/
theorem splitOff_bracketed {types : List String} (h : ∀ t ∈ types, Balanced t) {s : String}
    {after : List Char}
    (hs : s.toList = '[' :: ((String.intercalate ", " types).toList ++ ']' :: after)) :
    splitOff s = (some (split (String.intercalate ", " types)), String.ofList (trim after)) := by
  unfold splitOff
  rw [hs]
  simp only [upToClose_listed h (p := some '[') (by decide), String.ofList_toList]

/-! ### Types and rests are parts of the text -/

/-- What the scanner finds inside and after a bracket stands in the text. -/
theorem upToClose_eq_append {n : Nat} {p : Option Char} {cs inside after : List Char}
    (h : upToClose n p cs = some (inside, after)) : ∃ c, cs = inside ++ c :: after := by
  induction cs generalizing n p inside with
  | nil => cases h
  | cons d ds ih =>
    have hpass : ∀ m q, (upToClose m q ds).map (fun r => (d :: r.1, r.2)) = some (inside, after) →
        ∃ c, d :: ds = inside ++ c :: after := by
      intro m q hm
      rw [Option.map_eq_some_iff] at hm
      obtain ⟨r, hr, heq⟩ := hm
      rw [Prod.mk.injEq] at heq
      obtain ⟨hinside, hafter⟩ := heq
      have hrest : upToClose m q ds = some (r.1, after) := by rw [hr, ← hafter]
      obtain ⟨c, hc⟩ := ih hrest
      exact ⟨c, by rw [← hinside, List.cons_append, ← hc]⟩
    rw [upToClose] at h
    split at h
    · exact hpass _ _ h
    · split at h
      · split at h
        · rw [Option.some.injEq, Prod.mk.injEq] at h
          exact ⟨d, by rw [← h.1, ← h.2, List.nil_append]⟩
        · exact hpass _ _ h
      · exact hpass _ _ h

/-- Every item stands in the text. -/
theorem mem_of_mem_cutAtCommas {depth : Int} {p : Option Char} {cs item : List Char} {c : Char}
    (h : item ∈ cutAtCommas depth p cs) (hc : c ∈ item) : c ∈ cs := by
  induction cs generalizing depth p item with
  | nil =>
    rw [cutAtCommas, List.mem_singleton] at h
    rw [h] at hc
    cases hc
  | cons d ds ih =>
    rw [cutAtCommas] at h
    split at h
    · rcases List.mem_cons.mp h with rfl | h
      · cases hc
      · exact List.mem_cons_of_mem _ (ih h hc)
    · cases hcut : cutAtCommas (depthAfter depth p d) (some d) ds with
      | nil =>
        rw [hcut, consFirst, List.mem_singleton] at h
        rw [h, List.mem_singleton] at hc
        rw [hc]
        exact List.mem_cons_self
      | cons first others =>
        rw [hcut, consFirst] at h
        rcases List.mem_cons.mp h with rfl | h
        · rcases List.mem_cons.mp hc with rfl | hc
          · exact List.mem_cons_self
          · exact List.mem_cons_of_mem _ (ih (by rw [hcut]; exact List.mem_cons_self) hc)
        · exact List.mem_cons_of_mem _ (ih (by rw [hcut]; exact List.mem_cons_of_mem _ h) hc)

/-- Every item that counts is a trimmed one. -/
theorem exists_of_mem_itemsOf {items : List (List Char)} {x : List Char} (h : x ∈ itemsOf items) :
    ∃ item ∈ items, x = trim item := by
  induction items with
  | nil => cases h
  | cons item items ih =>
    cases items with
    | nil =>
      rw [itemsOf] at h
      split at h
      · cases h
      · exact ⟨item, by simp, List.mem_singleton.mp h⟩
    | cons next more =>
      rw [itemsOf] at h
      · rcases List.mem_cons.mp h with rfl | h
        · exact ⟨item, by simp, rfl⟩
        · obtain ⟨found, hm, hx⟩ := ih h
          exact ⟨found, List.mem_cons_of_mem _ hm, hx⟩
      · simp

/-- The types of a list on one line are on one line. -/
theorem singleLine_of_mem_split {s t : String} (hs : SingleLine s) (h : t ∈ split s) :
    SingleLine t := by
  rw [split] at h
  obtain ⟨x, hx, rfl⟩ := List.mem_map.mp h
  obtain ⟨item, hitem, rfl⟩ := exists_of_mem_itemsOf hx
  intro c hc
  rw [String.toList_ofList] at hc
  exact hs c (mem_of_mem_cutAtCommas hitem (mem_of_mem_trim hc))

/-- A text on one line is split into types and a rest on one line; where the text
has no blanks around it, the rest has none. -/
theorem splitOff_singleLine {s : String} (hs : SingleLine s) (hstrip : strip s = s) :
    (∀ types ∈ (splitOff s).1, ∀ t ∈ types, SingleLine t) ∧ SingleLine (splitOff s).2 ∧
      strip (splitOff s).2 = (splitOff s).2 := by
  unfold splitOff
  split
  · next cs hcs =>
    split
    · next inside after hup =>
      obtain ⟨d, hd⟩ := upToClose_eq_append hup
      have hmem : ∀ c ∈ inside ++ d :: after, isLineBreak c = false := by
        intro c hc
        refine hs c ?_
        rw [hcs, hd]
        exact List.mem_cons_of_mem _ hc
      refine ⟨fun types hm t ht => ?_, fun c hc => ?_, ?_⟩
      · rw [Option.mem_some_iff] at hm
        rw [← hm] at ht
        refine singleLine_of_mem_split (fun c hc => hmem c ?_) ht
        rw [String.toList_ofList] at hc
        exact List.mem_append_left _ hc
      · rw [String.toList_ofList] at hc
        exact hmem c (List.mem_append_right _ (List.mem_cons_of_mem _ (mem_of_mem_trim hc)))
      · rw [strip, String.toList_ofList, trim_trim]
    · exact ⟨by simp, hs, hstrip⟩
  · exact ⟨by simp, hs, hstrip⟩

end RubyDoc.TypeList

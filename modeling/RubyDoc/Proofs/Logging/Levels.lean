import RubyDoc.Logging.Levels
import RubyDoc.Proofs.Logging.Settings
import RubyDoc.Proofs.Yaml.Document

/-!
# Levels on the maps of settings

A level that is put on maps of a document changes nothing else: every collection stays, or is a
map that has the level from then on. The loggers get it one by one. A list names loggers by
their places in it, which comes to nothing unless it is empty; a map names them by its entries,
and may be one of them itself.
-/

namespace RubyDoc.Logging

open RubyDoc.Yaml

variable {word : String} {d d₀ d' : Document} {p : Part} {place : Nat}
  {entries : List (Value × Part)}

/-! ### Documents with a level on some maps -/

theorem levelled_levelled (word : String) (entries : List (Value × Part)) :
    levelled word (levelled word entries) = levelled word entries :=
  Value.putEntry_putEntry ..

/-- Entries with a level among them do not get longer by another one. -/
theorem length_levelled (h : (Value.under entries "level").isSome = true) (word : String) :
    (levelled word entries).length = entries.length := by
  rw [levelled, Value.length_putEntry, if_pos h]
  rfl

/-- A document is another one but for a level that is put on some of its maps. -/
structure IsLevelled (word : String) (d₀ d : Document) : Prop where
  /-- The whole is the same part. -/
  root : d.root = d₀.root
  /-- There are as many cells. -/
  size : d.cells.size = d₀.cells.size
  /-- A collection stays, or is a map that has the level. -/
  cellAt : ∀ place, d.cellAt place = d₀.cellAt place ∨
    ∃ entries, d₀.cellAt place = .map entries ∧ d.cellAt place = .map (levelled word entries)

namespace IsLevelled

theorem refl (word : String) (d : Document) : IsLevelled word d d := ⟨rfl, rfl, fun _ => .inl rfl⟩

/-- To put the level on one more map is nothing else. -/
theorem put (h : IsLevelled word d₀ d) (hcell : d.cellAt place = .map entries) :
    IsLevelled word d₀ (d.put place (.map (levelled word entries))) := by
  have hlt := Document.lt_size_of_cellAt hcell
  refine ⟨h.root, ?_, fun other => ?_⟩
  · rw [← h.size]
    exact Array.size_setIfInBounds
  · by_cases hsame : place = other
    · subst hsame
      rw [Document.cellAt_put_self hlt]
      rcases h.cellAt place with hkept | ⟨entries₀, h₀, hput⟩
      · exact .inr ⟨entries, hkept.symm.trans hcell, rfl⟩
      · obtain rfl := Cell.map.inj (hcell.symm.trans hput)
        exact .inr ⟨entries₀, h₀, congrArg _ (levelled_levelled word entries₀)⟩
    · rw [Document.cellAt_put_of_ne hsame]
      exact h.cellAt other

/-- The same parts are maps. -/
theorem isMap_eq (h : IsLevelled word d₀ d) (p : Part) : d.isMap p = d₀.isMap p := by
  cases p with
  | plain v => rfl
  | shared place =>
    rw [Document.isMap, Document.isMap, Document.entriesOf?, Document.entriesOf?]
    rcases h.cellAt place with hkept | ⟨entries, h₀, hput⟩
    · rw [hkept]
    · rw [h₀, hput]
      rfl

/-- The settings are the same parts. -/
theorem setting?_eq (h : IsLevelled word d₀ d) {key : String} (hkey : key ≠ "level") :
    d.setting? key = d₀.setting? key := by
  rw [Document.setting?, Document.setting?, h.root]
  cases d₀.root with
  | plain v => rfl
  | shared place =>
    rw [Document.entriesOf?, Document.entriesOf?]
    rcases h.cellAt place with hkept | ⟨entries, h₀, hput⟩
    · rw [hkept]
    · rw [h₀, hput, Option.bind_some, Option.bind_some, levelled, Value.under_putEntry,
        if_neg hkey.symm]

end IsLevelled

/-! ### One map -/

/-- A level is put on maps only. -/
theorem putLevel_eq_ok_iff : putLevel word d p = .ok d' ↔ ∃ place entries, p = .shared place ∧
    d.cellAt place = .map entries ∧ d' = d.put place (.map (levelled word entries)) := by
  cases p with
  | plain v => exact ⟨nofun, nofun⟩
  | shared place =>
    rw [putLevel]
    constructor
    · intro h
      split at h
      · next entries hcell => exact ⟨place, entries, rfl, hcell, (Except.ok.inj h).symm⟩
      · cases h
      · cases h
    · rintro ⟨_, entries, ⟨⟩, hcell, rfl⟩
      rw [hcell]

theorem putLevel_of_cellAt (h : d.cellAt place = .map entries) (word : String) :
    putLevel word d (.shared place) = .ok (d.put place (.map (levelled word entries))) :=
  putLevel_eq_ok_iff.mpr ⟨place, entries, rfl, h, rfl⟩

theorem putLevel_eq_error (h : d.isMap p = false) (word : String) :
    putLevel word d p = .error .badShape := by
  cases p with
  | plain v => rfl
  | shared place =>
    rw [putLevel]
    split
    · next hcell =>
      rw [Document.isMap, Document.entriesOf?_shared hcell] at h
      cases h
    · rfl
    · rfl

theorem IsLevelled.putLevel (h : IsLevelled word d₀ d) (hput : putLevel word d p = .ok d') :
    IsLevelled word d₀ d' := by
  obtain ⟨place, entries, rfl, hcell, rfl⟩ := putLevel_eq_ok_iff.mp hput
  exact h.put hcell

theorem exists_putLevel (h : d.isMap p = true) (word : String) :
    ∃ d', putLevel word d p = .ok d' := by
  obtain ⟨place, entries, rfl, hcell⟩ := Document.isMap_iff.mp h
  exact ⟨_, putLevel_of_cellAt hcell word⟩

/-! ### Loggers that a list names -/

/-- A part of a list names a map of the list by its place. -/
def LeadsToMap (d : Document) (items : List Part) (item : Part) : Prop :=
  ∃ n i p, position? item = some n ∧ placeIn items.length n = some i ∧ items[i]? = some p ∧
    d.isMap p = true

theorem placeIn_lt {length i : Nat} {n : Int} (h : placeIn length n = some i) : i < length := by
  rw [placeIn] at h
  split at h
  · rw [← Option.some.inj h]
    omega
  · split at h
    · rw [← Option.some.inj h]
      omega
    · cases h

/-- A level is put on the logger that is named, or the part names none: then the shape is wrong,
or the place is none of the list. -/
theorem putListedLevel_cases (h : IsLevelled word d₀ d) (items : List Part) (item : Part) :
    (LeadsToMap d₀ items item ∧
      ∃ d', putListedLevel word items d item = .ok d' ∧ IsLevelled word d₀ d') ∨
    ¬ LeadsToMap d₀ items item ∧ (putListedLevel word items d item = .error .badShape ∨
      ∃ n, position? item = some n ∧ placeIn items.length n = none ∧
        putListedLevel word items d item = .error .outOfRange) := by
  rw [putListedLevel]
  cases hposition : position? item with
  | none =>
    refine .inr ⟨?_, .inl rfl⟩
    rintro ⟨n, i, p, hn, -⟩
    rw [hposition] at hn
    cases hn
  | some n =>
    dsimp only
    cases hplace : placeIn items.length n with
    | none =>
      refine .inr ⟨?_, .inr ⟨n, rfl, hplace, rfl⟩⟩
      rintro ⟨n', i, p, hn, hi, -⟩
      rw [hposition] at hn
      rw [← Option.some.inj hn, hplace] at hi
      cases hi
    | some i =>
      obtain ⟨p, hitem⟩ : ∃ p, items[i]? = some p :=
        ⟨_, List.getElem?_eq_getElem (placeIn_lt hplace)⟩
      rw [Option.bind_some, hitem]
      dsimp only
      cases hmap : d.isMap p with
      | true =>
        obtain ⟨d', hput⟩ := exists_putLevel hmap word
        refine .inl ⟨⟨n, i, p, hposition, hplace, hitem, ?_⟩, d', hput, h.putLevel hput⟩
        rw [← h.isMap_eq, hmap]
      | false =>
        refine .inr ⟨?_, .inl (putLevel_eq_error hmap word)⟩
        rintro ⟨n', i', p', hn, hi, hp, hmap'⟩
        rw [hposition] at hn
        rw [← Option.some.inj hn, hplace] at hi
        rw [← Option.some.inj hi, hitem] at hp
        rw [← Option.some.inj hp, ← h.isMap_eq, hmap] at hmap'
        cases hmap'

/-- Where all parts of a list name maps of it, a level is put on these. -/
theorem exists_foldlM_putListedLevel (h : IsLevelled word d₀ d) {items rest : List Part}
    (hrest : ∀ item ∈ rest, LeadsToMap d₀ items item) :
    ∃ d', rest.foldlM (putListedLevel word items) d = .ok d' ∧ IsLevelled word d₀ d' := by
  induction rest generalizing d with
  | nil => exact ⟨d, rfl, h⟩
  | cons item rest ih =>
    obtain ⟨hitem, hrest⟩ := List.forall_mem_cons.mp hrest
    rcases putListedLevel_cases h items item with ⟨-, d₁, hput, h₁⟩ | ⟨hnone, -⟩
    · obtain ⟨d', hfold, h'⟩ := ih h₁ hrest
      refine ⟨d', ?_, h'⟩
      rw [List.foldlM_cons, hput]
      exact hfold
    · exact absurd hitem hnone

/-- The first of some things that is not of a kind is one thing. -/
theorem eq_of_first {α : Type} {q : α → Prop} {xs before before' : List α} {x x' : α}
    (h : before ++ [x] <+: xs) (hbefore : ∀ y ∈ before, q y) (hx : ¬ q x)
    (h' : before' ++ [x'] <+: xs) (hbefore' : ∀ y ∈ before', q y) (hx' : ¬ q x') : x = x' := by
  have hmem : ∀ {y : α} {ys zs : List α}, ys ++ [y] <+: zs → y ∈ zs := fun hle =>
    hle.subset (List.mem_append_right _ List.mem_cons_self)
  rcases List.prefix_or_prefix_of_prefix h h' with hle | hle
  · rcases List.prefix_concat_iff.mp hle with heq | hle
    · exact (List.cons.inj (List.append_inj' heq rfl).2).1
    · exact absurd (hbefore' x (hmem hle)) hx
  · rcases List.prefix_concat_iff.mp hle with heq | hle
    · exact (List.cons.inj (List.append_inj' heq rfl).2).1.symm
    · exact absurd (hbefore x' (hmem hle)) hx'

/-- A list names loggers by places of which one is met that there is not, before any part that
names no map. -/
def NamesNoPlace (d : Document) (items : List Part) : Prop :=
  ∃ before item n, before ++ [item] <+: items ∧ (∀ other ∈ before, LeadsToMap d items other) ∧
    position? item = some n ∧ placeIn items.length n = none

/-- A part that names no place names no map. -/
theorem not_leadsToMap {items : List Part} {item : Part} {n : Int}
    (hposition : position? item = some n) (hplace : placeIn items.length n = none) :
    ¬ LeadsToMap d items item := by
  rintro ⟨n', i, p, hn, hi, -⟩
  rw [hposition] at hn
  rw [← Option.some.inj hn, hplace] at hi
  cases hi

/-- A list with anything in it has a first part that names no map, for a map names none. -/
theorem exists_first_not_leadsToMap {items : List Part} (h : items ≠ []) (d : Document) :
    ∃ before item, before ++ [item] <+: items ∧ (∀ other ∈ before, LeadsToMap d items other) ∧
      ¬ LeadsToMap d items item := by
  have hsome : ∃ item ∈ items, ¬ LeadsToMap d items item := by
    by_contra hall
    push Not at hall
    obtain ⟨first, rest, rfl⟩ := List.exists_cons_of_ne_nil h
    obtain ⟨_, _, p, -, -, hitem, hmap⟩ := hall first List.mem_cons_self
    obtain ⟨_, _, _, hposition, -⟩ := hall p (List.mem_of_getElem? hitem)
    obtain ⟨place, entries, rfl, -⟩ := Document.isMap_iff.mp hmap
    cases hposition
  classical
  obtain ⟨item, hitem⟩ := Option.isSome_iff_exists.mp
    (List.find?_isSome (p := fun item => ¬ LeadsToMap d items item).mpr (by simpa using hsome))
  obtain ⟨hnot, before, rest, hsplit, hbefore⟩ := List.find?_eq_some_iff_append.mp hitem
  refine ⟨before, item, ⟨rest, ?_⟩, by simpa using hbefore, by simpa using hnot⟩
  rw [hsplit, List.append_assoc]
  rfl

/-- A list with anything in it is never gone through: its first part that names no map is a
problem. -/
theorem foldlM_putListedLevel_eq_error {items : List Part} (hne : items ≠ []) (word : String)
    (d : Document) : ∃ problem, items.foldlM (putListedLevel word items) d = .error problem ∧
      (problem = .badShape ∧ ¬ NamesNoPlace d items ∨
        problem = .outOfRange ∧ NamesNoPlace d items) := by
  obtain ⟨before, item, hbegins, hbefore, hnot⟩ := exists_first_not_leadsToMap hne d
  obtain ⟨d₁, hgoes, h₁⟩ := exists_foldlM_putListedLevel (.refl word d) hbefore
  obtain ⟨rest, hrest⟩ := hbegins
  have hfold : ∀ {problem}, putListedLevel word items d₁ item = .error problem →
      items.foldlM (putListedLevel word items) d = .error problem := by
    intro problem hitem
    generalize putListedLevel word items = f at hgoes hitem ⊢
    rw [← hrest, List.append_assoc, List.foldlM_append, hgoes]
    change f d₁ item >>= _ = _
    rw [hitem]
    rfl
  rcases putListedLevel_cases h₁ items item with ⟨hleads, -⟩ | ⟨-, hbad | ⟨n, hn, hrange, hout⟩⟩
  · exact absurd hleads hnot
  · refine ⟨.badShape, hfold hbad, .inl ⟨rfl, ?_⟩⟩
    rintro ⟨before', item', n, hbegins', hbefore', hn, hrange⟩
    obtain rfl := eq_of_first ⟨rest, hrest⟩ hbefore hnot hbegins' hbefore'
      (not_leadsToMap hn hrange)
    rw [putListedLevel, hn] at hbad
    dsimp only at hbad
    rw [hrange] at hbad
    cases hbad
  · exact ⟨.outOfRange, hfold hout, .inr ⟨rfl, before, item, n, ⟨rest, hrest⟩, hbefore, hn, hrange⟩⟩

/-! ### Loggers that a map names -/

/-- The loggers that a map names all take a level: they are maps, and where the map is one of
them it has a level in this entry or one before, so that it does not get longer. -/
structure NamesMaps (d : Document) (place : Nat) (entries : List (Value × Part)) : Prop where
  /-- All entries are maps. -/
  isMap : ∀ e ∈ entries, d.isMap e.2 = true
  /-- The map has a level of its own by the time that it is met. -/
  level : ∀ before e, before ++ [e] <+: entries → e.2 = .shared place →
    (Value.under (before ++ [e]) "level").isSome = true

/-- A map gets longer while it is gone through: it is one of its own entries, and had no level. -/
def GrowsInUse (d : Document) (place : Nat) (entries : List (Value × Part)) : Prop :=
  Value.under entries "level" = none ∧ ∃ before e, before ++ [e] <+: entries ∧
    (∀ e ∈ before, d.isMap e.2 = true) ∧ e.2 = .shared place

/-- What is not found in a map is not found in the first of its entries. -/
theorem under_eq_none_of_isPrefix {first : List (Value × Part)} {name : String}
    (h : Value.under entries name = none) (hfirst : first <+: entries) :
    Value.under first name = none := by
  obtain ⟨rest, rfl⟩ := hfirst
  rw [Value.under_append, Option.or_eq_none_iff] at h
  exact h.1

section Named

variable {size i : Nat} {e : Value × Part} {current : List (Value × Part)}

theorem putNamedLevel_of_isMap_eq_false (hcurrent : d.cellAt place = .map current)
    (hentry : current[i]? = some e) (hmap : d.isMap e.2 = false) (word : String) :
    putNamedLevel word (.shared place) size d i = .error .badShape := by
  rw [putNamedLevel, Document.entriesOf?_shared hcurrent, Option.getD_some, hentry]
  dsimp only
  rw [putLevel_eq_error hmap]
  rfl

/-- A map that is an entry gets the level if the map of loggers has its first length after that. -/
theorem putNamedLevel_of_putLevel (hcurrent : d.cellAt place = .map current)
    (hentry : current[i]? = some e) (hput : putLevel word d e.2 = .ok d')
    {after : List (Value × Part)} (hafter : d'.cellAt place = .map after) :
    putNamedLevel word (.shared place) size d i =
      if after.length = size then .ok d' else .error .changedInUse := by
  rw [putNamedLevel, Document.entriesOf?_shared hcurrent, Option.getD_some, hentry]
  dsimp only
  rw [hput]
  change (if (d'.entriesOf? (.shared place)).any _ = true then _ else _) = _
  rw [Document.entriesOf?_shared hafter, Option.any_some]
  by_cases hsize : after.length = size
  · rw [if_neg (by simpa using hsize), if_pos hsize]
    rfl
  · rw [if_pos (by simpa using hsize), if_neg hsize]
    rfl

/-- An entry that is another map gets the level, and the map of loggers stays. -/
theorem exists_putNamedLevel_of_ne (hcurrent : d.cellAt place = .map current)
    (hentry : current[i]? = some e) (hmap : d.isMap e.2 = true) (hne : e.2 ≠ .shared place)
    (hsize : current.length = size) (word : String) :
    ∃ d', putNamedLevel word (.shared place) size d i = .ok d' ∧ putLevel word d e.2 = .ok d' ∧
      d'.cellAt place = .map current := by
  obtain ⟨other, entries, hother, hcell⟩ := Document.isMap_iff.mp hmap
  have hput := putLevel_of_cellAt hcell word
  have hkept : (d.put other (.map (levelled word entries))).cellAt place = .map current := by
    rw [Document.cellAt_put_of_ne (fun heq => hne (hother.trans (congrArg _ heq))), hcurrent]
  rw [← hother] at hput
  refine ⟨_, ?_, hput, hkept⟩
  rw [putNamedLevel_of_putLevel hcurrent hentry hput hkept, if_pos hsize]

/-- The map of loggers itself gets the level, but may not get longer. -/
theorem putNamedLevel_self (hcurrent : d.cellAt place = .map current)
    (hentry : current[i]? = some e) (hself : e.2 = .shared place) (word : String) :
    putNamedLevel word (.shared place) size d i =
      if (levelled word current).length = size then
        .ok (d.put place (.map (levelled word current)))
      else .error .changedInUse := by
  have hput := putLevel_of_cellAt hcurrent word
  rw [← hself] at hput
  exact putNamedLevel_of_putLevel hcurrent hentry hput
    (Document.cellAt_put_self (Document.lt_size_of_cellAt hcurrent))

/-- The first entry that is met behind some others. -/
theorem getElem?_behind (before : List (Value × Part)) (e : Value × Part)
    (rest : List (Value × Part)) : (before ++ e :: rest)[before.length]? = some e := by
  rw [List.getElem?_append_right (Nat.le_refl _), Nat.sub_self]
  rfl

/-- The rest of a map is gone through one entry after the other. -/
theorem foldlM_range'_cons (before : List (Value × Part)) (e : Value × Part)
    (rest : List (Value × Part)) (f : Document → Nat → Except Problem Document) (d : Document) :
    (List.range' before.length (e :: rest).length).foldlM f d =
      f d before.length >>= (List.range' (before ++ [e]).length rest.length).foldlM f := by
  rw [List.length_cons, List.range'_succ, List.foldlM_cons, List.length_append]
  rfl

/-- A map of loggers that got a level in front of its own cannot be gone through: its own is a
text by the time that it is met. -/
theorem foldlM_putNamedLevel_of_late {before rest : List (Value × Part)}
    (hentries : entries = before ++ rest)
    (hcurrent : d.cellAt place = .map (levelled word entries))
    (hbefore : Value.under before "level" = none)
    (hrest : (Value.under rest "level").isSome = true) :
    (List.range' before.length rest.length).foldlM
      (putNamedLevel word (.shared place) entries.length) d = .error .badShape := by
  induction rest generalizing d before with
  | nil => cases hrest
  | cons e rest ih =>
    have hall : (Value.under entries "level").isSome = true := by
      rw [hentries, Value.under_append, hbefore]
      exact hrest
    have hlength := length_levelled hall word
    have hlevelled : levelled word entries = before ++ levelled word (e :: rest) := by
      rw [levelled, hentries, Value.putEntry_append, hbefore]
      rfl
    rw [foldlM_range'_cons]
    by_cases hkey : e.1 = .text "level"
    · have hentry : (levelled word entries)[before.length]? = some (e.1, .plain (.text word)) := by
        rw [hlevelled, levelled, Value.putEntry_cons, if_pos hkey]
        exact getElem?_behind ..
      rw [putNamedLevel_of_isMap_eq_false hcurrent hentry rfl]
      rfl
    · have hentry : (levelled word entries)[before.length]? = some e := by
        rw [hlevelled, levelled, Value.putEntry_cons, if_neg hkey]
        exact getElem?_behind ..
      have hgoes : ∀ d₁ : Document, d₁.cellAt place = .map (levelled word entries) →
          (List.range' (before ++ [e]).length rest.length).foldlM
            (putNamedLevel word (.shared place) entries.length) d₁ = .error .badShape := by
        intro d₁ hcurrent₁
        refine ih ?_ hcurrent₁ ?_ ?_
        · rw [hentries, List.append_assoc]
          rfl
        · rw [Value.under_append, hbefore, Value.under_cons, if_neg hkey]
          rfl
        · rw [Value.under_cons, if_neg hkey] at hrest
          exact hrest
      cases hmap : d.isMap e.2 with
      | false =>
        rw [putNamedLevel_of_isMap_eq_false hcurrent hentry hmap]
        rfl
      | true =>
        by_cases hself : e.2 = .shared place
        · rw [putNamedLevel_self hcurrent hentry hself, levelled_levelled, if_pos hlength]
          refine hgoes _ ?_
          exact Document.cellAt_put_self (Document.lt_size_of_cellAt hcurrent)
        · obtain ⟨d₁, hgoes₁, -, hcurrent₁⟩ :=
            exists_putNamedLevel_of_ne hcurrent hentry hmap hself hlength word
          rw [hgoes₁]
          exact hgoes d₁ hcurrent₁

/-- The first entries of a map of loggers were gone through: they are maps, and the map itself is
among them only behind a level of its own. -/
structure GoneThrough (word : String) (d₀ d : Document) (place : Nat)
    (entries before : List (Value × Part)) : Prop where
  /-- Only the level was put on some maps. -/
  same : IsLevelled word d₀ d
  /-- The entries are maps. -/
  isMap : ∀ e ∈ before, d₀.isMap e.2 = true
  /-- The map has a level in its own entry or one before. -/
  level : ∀ first e, first ++ [e] <+: before → e.2 = .shared place →
    (Value.under (first ++ [e]) "level").isSome = true
  /-- The map is as it was, or has the level in one of the first entries. -/
  cell : d.cellAt place = .map entries ∨
    (Value.under before "level").isSome = true ∧ d.cellAt place = .map (levelled word entries)

namespace GoneThrough

variable {before rest : List (Value × Part)}

/-- At first no entry was gone through. -/
theorem nil (word : String) (hcell : d.cellAt place = .map entries) :
    GoneThrough word d d place entries [] :=
  ⟨.refl word d, nofun, fun _ _ hle => absurd (List.prefix_nil.mp hle) (by simp), .inl hcell⟩

/-- The next entry is met as it was at first. -/
theorem exists_current (h : GoneThrough word d₀ d place entries before)
    (hentries : entries = before ++ e :: rest) :
    ∃ current, d.cellAt place = .map current ∧ current[before.length]? = some e ∧
      current.length = entries.length ∧ levelled word current = levelled word entries := by
  rcases h.cell with hcell | ⟨hsome, hcell⟩
  · exact ⟨entries, hcell, hentries ▸ getElem?_behind .., rfl, rfl⟩
  · have hlevelled : levelled word entries = levelled word before ++ e :: rest := by
      rw [levelled, hentries, Value.putEntry_append, if_pos hsome]
      rfl
    refine ⟨_, hcell, ?_, length_levelled ?_ word, levelled_levelled word entries⟩
    · rw [hlevelled, ← length_levelled hsome word]
      exact getElem?_behind ..
    · rw [hentries, Value.under_append, Option.isSome_or, hsome]
      rfl

/-- One more entry is gone through if it is a map, and not the map itself without a level. -/
theorem snoc (h : GoneThrough word d₀ d place entries before) (hsame : IsLevelled word d₀ d')
    (hmap : d₀.isMap e.2 = true)
    (hlevel : e.2 = .shared place → (Value.under (before ++ [e]) "level").isSome = true)
    (hcell : d'.cellAt place = .map entries ∨ (Value.under (before ++ [e]) "level").isSome = true ∧
      d'.cellAt place = .map (levelled word entries)) :
    GoneThrough word d₀ d' place entries (before ++ [e]) := by
  refine ⟨hsame, fun e' he' => ?_, fun first e' hle hself => ?_, hcell⟩
  · rcases List.mem_append.mp he' with he' | he'
    · exact h.isMap e' he'
    · rw [List.mem_singleton.mp he', hmap]
  · rcases List.prefix_concat_iff.mp hle with heq | hle
    · obtain rfl := (List.cons.inj (List.append_inj' heq rfl).2).1
      rw [heq]
      exact hlevel hself
    · exact h.level first e' hle hself

/-- **One logger of a map.** Its entry is gone through as those before, or it is no map, or it is
the map of loggers itself and had no level so far. -/
theorem step (h : GoneThrough word d₀ d place entries before)
    (hentries : entries = before ++ e :: rest) :
    (∃ d', putNamedLevel word (.shared place) entries.length d before.length = .ok d' ∧
      GoneThrough word d₀ d' place entries (before ++ [e])) ∨
    (d₀.isMap e.2 = false ∧
      putNamedLevel word (.shared place) entries.length d before.length = .error .badShape) ∨
    d₀.isMap e.2 = true ∧ e.2 = .shared place ∧ Value.under (before ++ [e]) "level" = none ∧
      putNamedLevel word (.shared place) entries.length d before.length =
        if (levelled word entries).length = entries.length then
          .ok (d.put place (.map (levelled word entries)))
        else .error .changedInUse := by
  obtain ⟨current, hcell, hentry, hlength, hput⟩ := h.exists_current hentries
  have hmap₀ := h.same.isMap_eq e.2
  cases hmap : d.isMap e.2 with
  | false =>
    refine .inr (.inl ⟨hmap₀ ▸ hmap, ?_⟩)
    exact putNamedLevel_of_isMap_eq_false hcell hentry hmap word
  | true =>
    rw [hmap] at hmap₀
    by_cases hself : e.2 = .shared place
    · have hnow : putNamedLevel word (.shared place) entries.length d before.length = _ :=
        putNamedLevel_self hcell hentry hself word
      rw [hput] at hnow
      cases hlevel : Value.under (before ++ [e]) "level" with
      | none => exact .inr (.inr ⟨hmap₀.symm, hself, rfl, hnow⟩)
      | some v =>
        have hsome : (Value.under (before ++ [e]) "level").isSome = true :=
          Option.isSome_of_eq_some hlevel
        have hall : (Value.under entries "level").isSome = true := by
          rw [hentries, List.append_cons, Value.under_append, Option.isSome_or, hsome]
          rfl
        rw [if_pos (length_levelled hall word)] at hnow
        refine .inl ⟨_, hnow, h.snoc ?_ hmap₀.symm (fun _ => hsome) (.inr ⟨hsome, ?_⟩)⟩
        · rw [← hput]
          exact h.same.put hcell
        · exact Document.cellAt_put_self (Document.lt_size_of_cellAt hcell)
    · obtain ⟨d₁, hgoes, hputs, hcell₁⟩ :=
        exists_putNamedLevel_of_ne hcell hentry hmap hself hlength word
      refine .inl ⟨d₁, hgoes, h.snoc (h.same.putLevel hputs) hmap₀.symm
        (fun hown => absurd hown hself) ?_⟩
      rw [hcell₁]
      rcases h.cell with hkept | ⟨hsome, hlevelled⟩
      · exact .inl (hcell.symm.trans hkept)
      · refine .inr ⟨?_, hcell.symm.trans hlevelled⟩
        rw [Value.under_append, Option.isSome_or, hsome]
        rfl

/-- A map does not get longer if an entry that is no map is met first. -/
theorem not_growsInUse (h : GoneThrough word d₀ d place entries before)
    (hbegins : before ++ [e] <+: entries) (h₀ : d₀.cellAt place = .map entries)
    (hmap : d₀.isMap e.2 = false) : ¬ GrowsInUse d₀ place entries := by
  rintro ⟨hnone, first, own, hfirst, hmaps, hown⟩
  have hne : first ++ [own] ≠ before ++ [e] := by
    intro heq
    obtain rfl := (List.cons.inj (List.append_inj' heq rfl).2).1
    rw [hown, Document.isMap, Document.entriesOf?_shared h₀] at hmap
    cases hmap
  rcases List.prefix_or_prefix_of_prefix hfirst hbegins with hle | hle
  · have hsome := h.level first own ((List.prefix_concat_iff.mp hle).resolve_left hne) hown
    rw [under_eq_none_of_isPrefix hnone hfirst] at hsome
    cases hsome
  · have hmem := (List.prefix_concat_iff.mp hle).resolve_left hne.symm
    rw [hmaps e (hmem.subset (List.mem_append_right _ List.mem_cons_self))] at hmap
    cases hmap

end GoneThrough

/-- **All loggers of a map.** They are gone through if all are maps, and the map itself is among
them behind a level of its own. Otherwise the first that is not so is a problem. -/
theorem foldlM_putNamedLevel_cases {before rest : List (Value × Part)}
    (hentries : entries = before ++ rest) (h₀ : d₀.cellAt place = .map entries)
    (h : GoneThrough word d₀ d place entries before) :
    NamesMaps d₀ place entries ∧ (∃ d', (List.range' before.length rest.length).foldlM
        (putNamedLevel word (.shared place) entries.length) d = .ok d' ∧ IsLevelled word d₀ d') ∨
    ¬ NamesMaps d₀ place entries ∧ ∃ problem, (List.range' before.length rest.length).foldlM
        (putNamedLevel word (.shared place) entries.length) d = .error problem ∧
      (problem = .badShape ∧ ¬ GrowsInUse d₀ place entries ∨
        problem = .changedInUse ∧ GrowsInUse d₀ place entries) := by
  induction rest generalizing d before with
  | nil =>
    rw [List.append_nil] at hentries
    subst hentries
    exact .inl ⟨⟨h.isMap, h.level⟩, d, rfl, h.same⟩
  | cons e rest ih =>
    have hnext : entries = (before ++ [e]) ++ rest := by
      rw [hentries, List.append_cons]
    have hbegins : before ++ [e] <+: entries := ⟨rest, hnext.symm⟩
    rw [foldlM_range'_cons]
    rcases h.step hentries with ⟨d₁, hgoes, h₁⟩ | ⟨hmap, hbad⟩ | ⟨hmap, hself, hnone, hlate⟩
    · rw [hgoes]
      exact ih hnext h₁
    · rw [hbad]
      refine .inr ⟨fun hnames => ?_, .badShape, rfl,
        .inl ⟨rfl, h.not_growsInUse hbegins h₀ hmap⟩⟩
      rw [hnames.isMap e (hbegins.subset (List.mem_append_right _ List.mem_cons_self))] at hmap
      cases hmap
    · rw [hlate]
      refine .inr ⟨fun hnames => ?_, ?_⟩
      · have hown := hnames.level before e hbegins hself
        rw [hnone] at hown
        cases hown
      cases hrest : (Value.under rest "level").isSome with
      | true =>
        have hall : (Value.under entries "level").isSome = true := by
          rw [hnext, Value.under_append, hnone]
          exact hrest
        obtain ⟨current, hcell, -⟩ := h.exists_current hentries
        have hcell₁ := Document.cellAt_put_self (c := .map (levelled word entries))
          (Document.lt_size_of_cellAt hcell)
        rw [if_pos (length_levelled hall word)]
        refine ⟨.badShape, foldlM_putNamedLevel_of_late hnext hcell₁ hnone hrest,
          .inl ⟨rfl, fun hgrows => ?_⟩⟩
        rw [hgrows.1] at hall
        cases hall
      | false =>
        rw [Option.isSome_eq_false_iff, Option.isNone_iff_eq_none] at hrest
        have hgone : Value.under entries "level" = none := by
          rw [hnext, Value.under_append, hnone, hrest]
          rfl
        have hlonger : (levelled word entries).length ≠ entries.length := by
          rw [levelled, Value.length_putEntry, hgone]
          exact Nat.succ_ne_self _
        rw [if_neg hlonger]
        exact ⟨.changedInUse, rfl, .inr ⟨rfl, hgone, before, e, hbegins, h.isMap, hself⟩⟩

end Named

end RubyDoc.Logging

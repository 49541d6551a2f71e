import RubyDoc.Proofs.Logging.Levels

/-!
# Settings with another level

A level that is asked for goes in place of the levels of loggers, of the root and of handlers.
Most settings that it cannot be put into are met by writing in the long format. Those that refuse
it otherwise name loggers by a place that there is not, have the loggers among themselves, or
have handlers that are no map.
-/

namespace RubyDoc.Logging

open RubyDoc.Yaml

variable {word : String} {d d₀ d' : Document} {p : Part} {entries : List (Value × Part)}

/-! ### Loggers of any shape -/

/-- Loggers that all take a level: there are none, or a map names maps only. -/
inductive TakesLevels (d : Document) : Part → Prop
  /-- An empty text, or empty bytes. -/
  | plain {v : Value} (h : problemOfPlain v = none) : TakesLevels d (.plain v)
  /-- An empty list. -/
  | list {place : Nat} (h : d.cellAt place = .list []) : TakesLevels d (.shared place)
  /-- An empty set. -/
  | set {place : Nat} (h : d.cellAt place = .set []) : TakesLevels d (.shared place)
  /-- A map. -/
  | map {place : Nat} {entries : List (Value × Part)} (h : d.cellAt place = .map entries)
      (hnames : NamesMaps d place entries) : TakesLevels d (.shared place)

/-- Loggers that take no level, which is met by nothing: they are named by a place that there is
not, or are among themselves. -/
inductive Overreaches (d : Document) : Part → Prop
  /-- The first byte is no place among the bytes. -/
  | bytes {b : UInt8} {rest : List UInt8} (h : rest.length < b.toNat) :
      Overreaches d (.plain (.bytes (b :: rest)))
  /-- A part of a list is no place in it. -/
  | list {place : Nat} {items : List Part} (h : d.cellAt place = .list items)
      (hnames : NamesNoPlace d items) : Overreaches d (.shared place)
  /-- A map gets longer while it is gone through. -/
  | map {place : Nat} {entries : List (Value × Part)} (h : d.cellAt place = .map entries)
      (hgrows : GrowsInUse d place entries) : Overreaches d (.shared place)

theorem problemOfPlain_cases {v : Value} {problem : Problem} (h : problemOfPlain v = some problem) :
    problem = .badShape ∧ ¬ Overreaches d (.plain v) ∨
      problem = .outOfRange ∧ Overreaches d (.plain v) := by
  cases v with
  | bytes content =>
    cases content with
    | nil => cases h
    | cons b rest =>
      rw [problemOfPlain, Option.some.injEq] at h
      by_cases hrange : rest.length < b.toNat
      · rw [if_pos hrange] at h
        exact .inr ⟨h.symm, .bytes hrange⟩
      · rw [if_neg hrange] at h
        refine .inl ⟨h.symm, ?_⟩
        rintro ⟨hrange'⟩
        exact hrange hrange'
  | text s =>
    rw [problemOfPlain] at h
    split at h
    · cases h
    · exact .inl ⟨(Option.some.inj h).symm, nofun⟩
  | _ => exact .inl ⟨(Option.some.inj h).symm, nofun⟩

/-- A level is put on the loggers if all take it. Otherwise this is a problem, which is met by
something unless the loggers overreach. -/
theorem putLoggerLevels_cases (word : String) (d : Document) (p : Part) :
    TakesLevels d p ∧ (∃ d', putLoggerLevels word d p = .ok d' ∧ IsLevelled word d d') ∨
    ¬ TakesLevels d p ∧ ∃ problem, putLoggerLevels word d p = .error problem ∧
      (problem.isContained = false ↔ Overreaches d p) := by
  cases p with
  | plain v =>
    rw [putLoggerLevels]
    cases hplain : problemOfPlain v with
    | none => exact .inl ⟨.plain hplain, d, rfl, .refl word d⟩
    | some problem =>
      refine .inr ⟨?_, problem, rfl, ?_⟩
      · rintro ⟨hnone⟩
        rw [hplain] at hnone
        cases hnone
      · rcases problemOfPlain_cases (d := d) hplain with ⟨rfl, hfine⟩ | ⟨rfl, hover⟩
        · exact ⟨nofun, fun h => absurd h hfine⟩
        · exact ⟨fun _ => hover, fun _ => rfl⟩
  | shared place =>
    rw [putLoggerLevels]
    cases hcell : d.cellAt place with
    | set items =>
      dsimp only
      cases items with
      | nil => exact .inl ⟨.set hcell, d, rfl, .refl word d⟩
      | cons item rest =>
        refine .inr ⟨?_, .badShape, rfl, nofun, ?_⟩
        · rintro (_ | h | h | h) <;> cases hcell.symm.trans h
        · rintro (_ | h | h) <;> cases hcell.symm.trans h
    | list items =>
      dsimp only
      cases items with
      | nil => exact .inl ⟨.list hcell, d, rfl, .refl word d⟩
      | cons item rest =>
        obtain ⟨problem, hfold, hcases⟩ :=
          foldlM_putListedLevel_eq_error (List.cons_ne_nil item rest) word d
        refine .inr ⟨?_, problem, hfold, ?_⟩
        · rintro (_ | h | h | h) <;> cases hcell.symm.trans h
        · rcases hcases with ⟨rfl, hfine⟩ | ⟨rfl, hover⟩
          · refine ⟨nofun, ?_⟩
            rintro (_ | ⟨h, hnames⟩ | ⟨h⟩) <;> cases hcell.symm.trans h
            exact absurd hnames hfine
          · exact ⟨fun _ => .list hcell hover, fun _ => rfl⟩
    | map entries =>
      dsimp only
      rw [List.range_eq_range']
      rcases foldlM_putNamedLevel_cases rfl hcell (GoneThrough.nil word hcell) with
        ⟨hnames, hok⟩ | ⟨hnot, problem, hfold, hcases⟩
      · exact .inl ⟨.map hcell hnames, hok⟩
      · refine .inr ⟨?_, problem, hfold, ?_⟩
        · rintro (_ | h | h | ⟨h, hnames⟩) <;> cases hcell.symm.trans h
          exact hnot hnames
        · rcases hcases with ⟨rfl, hfine⟩ | ⟨rfl, hover⟩
          · refine ⟨nofun, ?_⟩
            rintro (_ | ⟨h, -⟩ | ⟨h, hgrows⟩) <;> cases hcell.symm.trans h
            exact absurd hgrows hfine
          · exact ⟨fun _ => .map hcell hover, fun _ => rfl⟩

/-! ### Handlers and settings -/

/-- Loggers that take a level do not overreach. -/
theorem TakesLevels.not_overreaches (h : TakesLevels d p) : ¬ Overreaches d p := by
  cases h with
  | @plain v hplain =>
    rintro ⟨-⟩
    cases hplain
  | list hcell =>
    rintro (_ | ⟨hcell', before, item, -, hbegins, -⟩ | ⟨hcell', -⟩) <;>
      cases hcell.symm.trans hcell'
    exact absurd (List.prefix_nil.mp hbegins) (by simp)
  | set hcell => rintro (_ | ⟨hcell', -⟩ | ⟨hcell', -⟩) <;> cases hcell.symm.trans hcell'
  | map hcell hnames =>
    rintro (_ | ⟨hcell', -⟩ | ⟨hcell', hnone, before, e, hbegins, -, hself⟩) <;>
      cases hcell.symm.trans hcell'
    have hsome := hnames.level before e hbegins hself
    rw [under_eq_none_of_isPrefix hnone hbegins] at hsome
    cases hsome

/-- A handler gets the level only if it has one, and then it is a map. -/
theorem exists_putHandlerLevel (h : IsLevelled word d₀ d) (p : Part) (i : Nat) :
    ∃ d', putHandlerLevel word p d i = .ok d' ∧ IsLevelled word d₀ d' := by
  rw [putHandlerLevel]
  split
  · exact ⟨d, rfl, h⟩
  · next e _ =>
    split
    · next hlevel =>
      have hmap : d.isMap e.2 = true := by
        rw [Document.isMap]
        cases hentries : d.entriesOf? e.2 with
        | none =>
          rw [hentries] at hlevel
          cases hlevel
        | some entries => rfl
      obtain ⟨d', hput⟩ := exists_putLevel hmap word
      exact ⟨d', hput, h.putLevel hput⟩
    · exact ⟨d, rfl, h⟩

/-- So a level can be put on the handlers of any map. -/
theorem exists_putHandlerLevels (h : IsLevelled word d₀ d) (hmap : d.isMap p = true) :
    ∃ d', putHandlerLevels word d p = .ok d' ∧ IsLevelled word d₀ d' := by
  obtain ⟨entries, hentries⟩ := Option.isSome_iff_exists.mp hmap
  rw [putHandlerLevels, hentries]
  dsimp only
  generalize List.range entries.length = is
  clear hmap hentries
  induction is generalizing d with
  | nil => exact ⟨d, rfl, h⟩
  | cons i is ih =>
    obtain ⟨d₁, hone, h₁⟩ := exists_putHandlerLevel h p i
    obtain ⟨d', hrest, h'⟩ := ih h₁
    refine ⟨d', ?_, h'⟩
    rw [List.foldlM_cons, hone]
    exact hrest

/-- Settings that refuse a level in a way that nothing meets: the loggers overreach, or the
handlers are no map and the settings before them take the level. -/
inductive RefusesLevel (d : Document) : Prop
  | loggers {p : Part} (h : d.setting? "loggers" = some p) (hover : Overreaches d p)
  | handlers {p : Part} (h : d.setting? "handlers" = some p) (hmap : d.isMap p = false)
      (hloggers : ∀ p, d.setting? "loggers" = some p → TakesLevels d p)
      (hroot : ∀ p, d.setting? "root" = some p → d.isMap p = true)

/-- A level is put on the loggers, if there are any, or they do not take it. -/
theorem changeSetting_loggers_cases (word : String) (d : Document) :
    (∀ p, d.setting? "loggers" = some p → TakesLevels d p) ∧
      (∃ d', changeSetting "loggers" (putLoggerLevels word) d = .ok d' ∧ IsLevelled word d d') ∨
    ∃ p, d.setting? "loggers" = some p ∧ ¬ TakesLevels d p ∧
      ∃ problem, changeSetting "loggers" (putLoggerLevels word) d = .error problem ∧
        (problem.isContained = false ↔ Overreaches d p) := by
  rw [changeSetting]
  cases hloggers : d.setting? "loggers" with
  | none => exact .inl ⟨nofun, d, rfl, .refl word d⟩
  | some p =>
    rcases putLoggerLevels_cases word d p with ⟨htakes, hok⟩ | hnot
    · exact .inl ⟨fun _ hp => Option.some.inj hp ▸ htakes, hok⟩
    · exact .inr ⟨p, rfl, hnot⟩

/-- A change that goes with maps only is made to a setting, or the setting is no map. -/
theorem changeSetting_cases {key : String} {change : Document → Part → Except Problem Document}
    {problem : Problem} (h : IsLevelled word d₀ d) (hkey : key ≠ "level")
    (hok : ∀ p, d.isMap p = true → ∃ d', change d p = .ok d' ∧ IsLevelled word d₀ d')
    (hbad : ∀ p, d.isMap p = false → change d p = .error problem) :
    (∀ p, d₀.setting? key = some p → d₀.isMap p = true) ∧
      (∃ d', changeSetting key change d = .ok d' ∧ IsLevelled word d₀ d') ∨
    (∃ p, d₀.setting? key = some p ∧ d₀.isMap p = false) ∧
      changeSetting key change d = .error problem := by
  rw [changeSetting, h.setting?_eq hkey]
  cases hsetting : d₀.setting? key with
  | none => exact .inl ⟨nofun, d, rfl, h⟩
  | some p =>
    dsimp only
    cases hmap : d₀.isMap p with
    | true =>
      refine .inl ⟨fun _ hp => Option.some.inj hp ▸ hmap, hok p ?_⟩
      rw [h.isMap_eq, hmap]
    | false =>
      refine .inr ⟨⟨p, rfl, hmap⟩, hbad p ?_⟩
      rw [h.isMap_eq, hmap]

/-- **Putting a level into settings.** The settings have it on some of their maps then and are
the same otherwise, or it is a problem to put it there. This problem is met by something unless
the settings refuse the level. -/
theorem overrideLevel_cases (word : String) (d : Document) :
    ¬ RefusesLevel d ∧ (∃ d', overrideLevel word d = .ok d' ∧ IsLevelled word d d') ∨
    ∃ problem, overrideLevel word d = .error problem ∧
      (problem.isContained = false ↔ RefusesLevel d) := by
  rcases changeSetting_loggers_cases word d with ⟨htakes, d₁, hd₁, h₁⟩ |
    ⟨p, hp, hnot, problem, hproblem, hover⟩
  · have hloggers : overrideLevel word d = changeSetting "root" (putLevel word) d₁ >>=
        changeSetting "handlers" (putHandlerLevels word) := by
      rw [overrideLevel, hd₁]
      rfl
    have hfine : ∀ p, d.setting? "loggers" = some p → ¬ Overreaches d p := fun p hp =>
      (htakes p hp).not_overreaches
    rw [hloggers]
    rcases changeSetting_cases h₁ (show "root" ≠ "level" by decide)
        (fun p hmap => (exists_putLevel hmap word).imp fun _ hput => ⟨hput, h₁.putLevel hput⟩)
        (fun p hmap => putLevel_eq_error hmap word) with
      ⟨hroot, d₂, hd₂, h₂⟩ | ⟨⟨p, hp, hmap⟩, hbad⟩
    · have hhandlers : ∀ p, d₂.isMap p = false →
          putHandlerLevels word d₂ p = .error .handlersNotMap := by
        intro p hmap
        rw [Document.isMap, Option.isSome_eq_false_iff, Option.isNone_iff_eq_none] at hmap
        rw [putHandlerLevels, hmap]
      rw [hd₂]
      rcases changeSetting_cases h₂ (show "handlers" ≠ "level" by decide)
          (fun p => exists_putHandlerLevels h₂) hhandlers with
        ⟨hmaps, hok⟩ | ⟨⟨p, hp, hmap⟩, hbad⟩
      · refine .inl ⟨?_, hok⟩
        rintro (⟨hp, hover⟩ | ⟨hp, hmap, -⟩)
        · exact hfine _ hp hover
        · rw [hmaps _ hp] at hmap
          cases hmap
      · exact .inr ⟨_, hbad, fun _ => .handlers hp hmap htakes hroot, fun _ => rfl⟩
    · rw [hbad]
      refine .inr ⟨.badShape, rfl, fun hcontained => absurd hcontained (by decide), ?_⟩
      rintro (⟨hp, hover⟩ | ⟨-, -, -, hroot⟩)
      · exact absurd hover (hfine _ hp)
      · rw [hroot p hp] at hmap
        cases hmap
  · rw [overrideLevel, hproblem]
    refine .inr ⟨problem, rfl, hover.trans ⟨.loggers hp, ?_⟩⟩
    rintro (⟨hp', hover⟩ | ⟨-, -, hloggers, -⟩)
    · exact Option.some.inj (hp.symm.trans hp') ▸ hover
    · exact absurd (hloggers p hp) hnot

/-! ### Handlers that can write -/

/-- A value without what is inside of it. All collections are alike. -/
def outside : Value → Value
  | .list _ | .set _ | .map _ => .list []
  | v => v

theorem outside_seen (d d' : Document) (depth : Nat) (p : Part) :
    outside (d.seen depth p) = outside (d'.seen depth p) := by
  have hcollection : ∀ (d : Document) place, outside (d.seen depth (.shared place)) = .list [] := by
    intro d place
    cases depth <;> (rw [Document.seen]; cases d.cellAt place <;> rfl)
  cases p with
  | plain v => cases depth <;> rfl
  | shared place => rw [hcollection, hcollection]

/-- Two maps have the same settings but for their levels and what is inside of settings. -/
def IsLikeSettings (xs ys : List (Value × Value)) : Prop :=
  ∀ name, name ≠ "level" → (Value.under xs name).map outside = (Value.under ys name).map outside

section Like

variable {xs ys : List (Value × Value)}

theorem IsLikeSettings.map_eq (h : IsLikeSettings xs ys) {name : String} (hname : name ≠ "level")
    {β : Type} (f : Value → β) (hf : ∀ v, f (outside v) = f v) :
    (Value.under xs name).map f = (Value.under ys name).map f := by
  have hboth := congrArg (Option.map f) (h name hname)
  rw [Option.map_map, Option.map_map] at hboth
  rwa [show f ∘ outside = f from funext hf] at hboth

theorem IsLikeSettings.all_isBound (h : IsLikeSettings xs ys) {name : String}
    (hname : name ≠ "level") :
    (Value.under xs name).all isBound = (Value.under ys name).all isBound := by
  have hall : ∀ v : Option Value, v.all isBound = (v.map isBound).all id := by
    intro v
    cases v <;> rfl
  rw [hall, hall, h.map_eq hname isBound fun v => by cases v <;> rfl]

theorem HandlerKind.ofEntries?_eq (entries : List (Value × Value)) :
    ofEntries? entries =
      match (Value.under entries "()").map fun maker => all.find? fun kind => names kind.path maker,
        (Value.under entries "class").map fun c => all.find? fun kind => c == .text kind.path with
      | some kind, none => kind
      | none, some kind => kind
      | _, _ => none := by
  rw [ofEntries?, maker?]
  cases Value.under entries "()" <;> cases Value.under entries "class" <;> rfl

/-- Settings that are alike ask for the same kind of handler. -/
theorem IsLikeSettings.ofEntries?_eq (h : IsLikeSettings xs ys) :
    HandlerKind.ofEntries? xs = HandlerKind.ofEntries? ys := by
  rw [HandlerKind.ofEntries?_eq, HandlerKind.ofEntries?_eq,
    h.map_eq (show "()" ≠ "level" by decide) _ fun v => by cases v <;> rfl,
    h.map_eq (show "class" ≠ "level" by decide) _ fun v => by cases v <;> rfl]

/-- So they describe handlers that can write, or both do not. -/
theorem IsLikeSettings.describesWriter_eq (h : IsLikeSettings xs ys) :
    describesWriter (.map xs) = describesWriter (.map ys) := by
  rw [describesWriter, describesWriter, h.ofEntries?_eq,
    h.all_isBound (show "capacity" ≠ "level" by decide),
    h.all_isBound (show "flushLevel" ≠ "level" by decide)]

end Like

/-- A map that may have got the level is like it was. -/
theorem isLikeSettings_seen (d d₀ : Document) (depth : Nat) {now : List (Value × Part)}
    (hnow : now = entries ∨ now = levelled word entries) :
    IsLikeSettings (now.map fun e => (e.1, d.seen depth e.2))
      (entries.map fun e => (e.1, d₀.seen depth e.2)) := by
  intro name hname
  have hsame : Value.under now name = Value.under entries name := by
    rcases hnow with rfl | rfl
    · rfl
    · rw [levelled, Value.under_putEntry, if_neg hname.symm]
  rw [Value.under_map, Value.under_map, hsame, Option.map_map, Option.map_map]
  exact congrArg (Option.map · _) (funext fun p => outside_seen d d₀ depth p)

/-- Only maps describe handlers that cannot write. -/
theorem describesWriter_seen_of_isMap_eq_false {place : Nat} (h : d.isMap (.shared place) = false)
    (depth : Nat) : describesWriter (d.seen depth (.shared place)) = true := by
  cases hcell : d.cellAt place with
  | map entries =>
    rw [Document.isMap, Document.entriesOf?_shared hcell] at h
    cases h
  | list items => cases depth <;> (rw [Document.seen, hcell]; rfl)
  | set items => cases depth <;> rw [Document.seen, hcell] <;> rfl

namespace IsLevelled

/-- A map was one before, maybe without the level. -/
theorem exists_before (h : IsLevelled word d₀ d) {place : Nat} {now : List (Value × Part)}
    (hnow : d.cellAt place = .map now) : ∃ entries, d₀.cellAt place = .map entries ∧
      (now = entries ∨ now = levelled word entries) := by
  rcases h.cellAt place with hkept | ⟨entries, h₀, hput⟩
  · exact ⟨now, hkept.symm.trans hnow, .inl rfl⟩
  · exact ⟨entries, h₀, .inr (Cell.map.inj (hnow.symm.trans hput))⟩

/-- A part describes a handler that can write if it did so before. -/
theorem describesWriter_seen (h : IsLevelled word d₀ d) (depth : Nat) (p : Part) :
    describesWriter (d.seen depth p) = describesWriter (d₀.seen depth p) := by
  cases p with
  | plain v => cases depth <;> rfl
  | shared place =>
    have hsame := h.isMap_eq (.shared place)
    cases hmap : d.isMap (.shared place) with
    | false =>
      rw [hmap] at hsame
      rw [describesWriter_seen_of_isMap_eq_false hmap,
        describesWriter_seen_of_isMap_eq_false hsame.symm]
    | true =>
      obtain ⟨_, now, ⟨⟩, hcell⟩ := Document.isMap_iff.mp hmap
      obtain ⟨entries, h₀, hnow⟩ := h.exists_before hcell
      cases depth with
      | zero =>
        rw [Document.seen, Document.seen, hcell, h₀]
        rfl
      | succ depth =>
        rw [Document.seen_map hcell, Document.seen_map h₀]
        exact (isLikeSettings_seen d d₀ depth hnow).describesWriter_eq

/-- Handlers that are seen in a map with another level can write if those seen before can. -/
theorem of_mem_seen (h : IsLevelled word d₀ d) {depth : Nat} {inner : List (Value × Value)}
    (hinner : d.seen (depth + 1) p = .map inner)
    (hdescribe : ∀ before, d₀.seen (depth + 1) p = .map before →
      ∀ e ∈ before, describesWriter e.2 = true) : ∀ e ∈ inner, describesWriter e.2 = true := by
  intro e he
  rcases Document.of_seen_eq_map hinner with rfl | ⟨place, now, rfl, hcell, rfl⟩
  · exact hdescribe inner rfl e he
  · obtain ⟨entries, h₀, hnow⟩ := h.exists_before hcell
    obtain ⟨part, hpart, rfl⟩ := List.mem_map.mp he
    dsimp only
    rw [h.describesWriter_seen]
    rcases (show part ∈ entries ∨ part.2 = .plain (.text word) from hnow.elim
      (fun hsame => .inl (hsame ▸ hpart)) fun hput => Value.of_mem_putEntry (hput ▸ hpart))
      with hkept | hlevel
    · exact hdescribe _ (Document.seen_map h₀ depth) _ (List.mem_map_of_mem hkept)
    · rw [hlevel]
      cases depth <;> rfl

/-- Settings with another level describe handlers that can write if they did so before. -/
theorem describeWriters (h : IsLevelled word d₀ d) (hdescribe : DescribeWriters d₀.entries) :
    DescribeWriters d.entries := by
  intro inner hinner
  cases hroot : d₀.root with
  | plain v =>
    have hsame : d.entries = d₀.entries := by
      rw [Document.entries, Document.entries, Document.value, Document.value, h.root, hroot]
      rfl
    exact hdescribe inner (hsame ▸ hinner)
  | shared place =>
    have hroot' := h.root.trans hroot
    cases hmap : d.isMap (.shared place) with
    | false =>
      rw [Document.entries_eq_nil hroot' hmap] at hinner
      cases hinner
    | true =>
      obtain ⟨_, now, ⟨⟩, hcell⟩ := Document.isMap_iff.mp hmap
      obtain ⟨entries, h₀, hnow⟩ := h.exists_before hcell
      rw [Document.entries_eq hroot' hcell, Value.under_map, h.size] at hinner
      obtain ⟨part, hpart, hseen⟩ := Option.map_eq_some_iff.mp hinner
      have hpart₀ : Value.under entries "handlers" = some part := by
        rcases hnow with rfl | rfl
        · exact hpart
        · rw [levelled, Value.under_putEntry, if_neg (by decide)] at hpart
          exact hpart
      refine h.of_mem_seen hseen fun before hbefore => hdescribe before ?_
      rw [Document.entries_eq hroot h₀, Value.under_map, hpart₀, Option.map_some, hbefore]

end IsLevelled

end RubyDoc.Logging

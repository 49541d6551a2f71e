import RubyDoc.Field
import RubyDoc.Config.Basic
import RubyDoc.Proofs.Lookup

/-!
# Fields that are recorded one after the other

What the ledger holds for a namespace after a field is recorded, and which
fields are left when a run does not allow a repeated one: the first of each
name. When a constructor is due is said by the count of fields it was made of.
-/

namespace RubyDoc

/-- The first field of each name. -/
def firstOfEachName : List FieldRecord → List FieldRecord
  | [] => []
  | f :: fs => f :: (firstOfEachName fs).filter fun g => g.name != f.name

/-- The fields that a run keeps of those declared in one namespace. -/
def Config.kept (config : Config) (fs : List FieldRecord) : List FieldRecord :=
  if config.allowDuplicateFields then fs else firstOfEachName fs

/-- The names that are left are those that were there. -/
theorem any_firstOfEachName (fs : List FieldRecord) (name : String) :
    ((firstOfEachName fs).any fun f => f.name == name) = fs.any fun f => f.name == name := by
  induction fs with
  | nil => rfl
  | cons g gs ih =>
    rw [firstOfEachName, List.any_cons, List.any_cons, List.any_filter, ← ih]
    by_cases hg : g.name = name
    · rw [beq_iff_eq.mpr hg, Bool.true_or, Bool.true_or]
    · rw [beq_eq_false_iff_ne.mpr hg, Bool.false_or, Bool.false_or]
      congr 1
      funext f
      by_cases hf : f.name = name
      · have hne : f.name ≠ g.name := fun he => hg (he ▸ hf)
        rw [bne_iff_ne.mpr hne, Bool.true_and]
      · rw [beq_eq_false_iff_ne.mpr hf, Bool.and_false]

/-- One field more is left exactly if its name is new. -/
theorem firstOfEachName_append (fs : List FieldRecord) (f : FieldRecord) :
    firstOfEachName (fs ++ [f]) =
      if fs.any fun g => g.name == f.name then firstOfEachName fs
      else firstOfEachName fs ++ [f] := by
  induction fs with
  | nil => rfl
  | cons g gs ih =>
    rw [List.cons_append, firstOfEachName, ih, List.any_cons]
    by_cases hg : g.name = f.name
    · rw [beq_iff_eq.mpr hg, Bool.true_or, if_pos rfl, firstOfEachName]
      split
      · rfl
      · rw [List.filter_append, List.filter_cons_of_neg (by simp [hg]), List.filter_nil,
          List.append_nil]
    · rw [beq_eq_false_iff_ne.mpr hg, Bool.false_or, firstOfEachName]
      split
      · rfl
      · rw [List.filter_append, List.filter_cons_of_pos (by simpa using Ne.symm hg),
          List.filter_nil, List.cons_append]

/-- The names of the fields that are left are pairwise distinct. -/
theorem nodup_firstOfEachName (fs : List FieldRecord) :
    ((firstOfEachName fs).map FieldRecord.name).Nodup := by
  induction fs with
  | nil => exact List.nodup_nil
  | cons g gs ih =>
    rw [firstOfEachName, List.map_cons, List.nodup_cons]
    constructor
    · intro hmem
      obtain ⟨f, hf, hname⟩ := List.mem_map.mp hmem
      have hne := (List.mem_filter.mp hf).2
      rw [hname] at hne
      simp at hne
    · exact List.Nodup.sublist (List.Sublist.map _ List.filter_sublist) ih

namespace Ledger

/-- The number of fields that the last constructor of a namespace was made of. -/
def mark (l : Ledger) (home : String) : Nat := (l.synthesised.lookup home).getD 0

@[simp] theorem mark_append (l : Ledger) (f : FieldRecord) (home : String) :
    (l.append f).mark home = l.mark home := rfl

@[simp] theorem fieldsFor_markSynthesised (l : Ledger) (home path : String) :
    (l.markSynthesised path).fieldsFor home = l.fieldsFor home := rfl

/-- Making a constructor counts the fields of its own namespace only. -/
theorem mark_markSynthesised (l : Ledger) (home path : String) :
    (l.markSynthesised path).mark home =
      if home = path then (l.fieldsFor path).length else l.mark home := by
  rw [mark, markSynthesised, List.lookup_cons]
  by_cases h : home = path
  · rw [beq_iff_eq.mpr h, if_pos h]
    rfl
  · rw [beq_eq_false_iff_ne.mpr h, if_neg h]
    rfl

/-- A field is recorded behind those of its own namespace only. -/
theorem fieldsFor_append (l : Ledger) (f : FieldRecord) (home : String) :
    (l.append f).fieldsFor home =
      if home = f.home then l.fieldsFor home ++ [f] else l.fieldsFor home := by
  obtain ⟨entries, synthesised⟩ := l
  rw [fieldsFor, append, fieldsFor]
  dsimp only
  induction entries with
  | nil =>
    rw [appendIn, List.lookup_cons, List.lookup_nil]
    by_cases h : home = f.home
    · rw [beq_iff_eq.mpr h, if_pos h]
      rfl
    · rw [beq_eq_false_iff_ne.mpr h, if_neg h]
  | cons entry rest ih =>
    obtain ⟨path, fields⟩ := entry
    rw [appendIn]
    by_cases hp : path = f.home
    · rw [if_pos (beq_iff_eq.mpr hp), List.lookup_cons, List.lookup_cons]
      by_cases h : home = path
      · rw [beq_iff_eq.mpr h, if_pos (h.trans hp)]
        rfl
      · rw [beq_eq_false_iff_ne.mpr h, if_neg fun he => h (he.trans hp.symm)]
    · rw [if_neg (by simpa using hp), List.lookup_cons, List.lookup_cons]
      by_cases h : home = path
      · rw [beq_iff_eq.mpr h, if_neg fun he => hp (h.symm.trans he)]
      · rw [beq_eq_false_iff_ne.mpr h]
        exact ih

/-- A namespace with more fields than its constructor was made of is listed. -/
theorem mem_unsynthesised {l : Ledger} {home : String}
    (h : l.mark home < (l.fieldsFor home).length) : home ∈ l.unsynthesised := by
  have hmem : (home, l.fieldsFor home) ∈ l.entries := by
    rw [fieldsFor] at h ⊢
    cases hl : l.entries.lookup home with
    | none =>
      rw [hl] at h
      exact absurd h (Nat.not_lt_zero _)
    | some fields =>
      rw [Option.getD_some]
      exact mem_of_lookup_eq_some hl
  rw [unsynthesised, List.mem_map]
  exact ⟨_, List.mem_filter.mpr ⟨hmem, decide_eq_true h⟩, rfl⟩

end Ledger

/-- Record a field, unless the run does not allow a repeated one. -/
def Config.keep (config : Config) (l : Ledger) (f : FieldRecord) : Ledger :=
  if l.hasField f.home f.name && !config.allowDuplicateFields then l else l.append f

/-- Recording a field that is declared keeps what the run keeps of one field more. -/
theorem fieldsFor_keep {config : Config} {l : Ledger} {fs : List FieldRecord} {home : String}
    (h : l.fieldsFor home = config.kept (fs.filter fun f => f.home == home)) (f : FieldRecord) :
    (config.keep l f).fieldsFor home =
      config.kept ((fs ++ [f]).filter fun f => f.home == home) := by
  rw [List.filter_append]
  by_cases hhome : f.home = home
  · rw [List.filter_cons_of_pos (by simpa using hhome), List.filter_nil, Config.keep]
    subst hhome
    rw [Ledger.hasField, h]
    unfold Config.kept at h ⊢
    cases hallow : config.allowDuplicateFields with
    | true =>
      rw [hallow, if_pos rfl] at h
      rw [Bool.not_true, Bool.and_false, if_neg Bool.false_ne_true, if_pos rfl,
        Ledger.fieldsFor_append, if_pos rfl, h]
    | false =>
      rw [hallow, if_neg Bool.false_ne_true] at h
      rw [Bool.not_false, Bool.and_true, if_neg Bool.false_ne_true, if_neg Bool.false_ne_true,
        any_firstOfEachName, firstOfEachName_append]
      split
      · exact h
      · rw [Ledger.fieldsFor_append, if_pos rfl, h]
  · rw [List.filter_cons_of_neg (by simpa using hhome), List.filter_nil, List.append_nil, ← h,
      Config.keep]
    split
    · rfl
    · rw [Ledger.fieldsFor_append, if_neg fun he => hhome he.symm]

end RubyDoc

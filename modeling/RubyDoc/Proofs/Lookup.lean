import Mathlib.Data.List.Nodup

/-!
# Looking up entries

Entries have a key, and the first one of a key is found. What is found is an entry; an entry is
found if no other one has its key.
-/

namespace RubyDoc

variable {κ α : Type} [BEq κ] [LawfulBEq κ] {entries : List (κ × α)} {key : κ} {a : α}

/-- What is found under a key is an entry. -/
theorem mem_of_lookup_eq_some (h : entries.lookup key = some a) : (key, a) ∈ entries := by
  obtain ⟨before, behind, rfl, -⟩ := List.lookup_eq_some_iff.mp h
  exact List.mem_append_right _ List.mem_cons_self

/-- An entry is found under its key if no other entry has it. -/
theorem lookup_of_mem (hnodup : (entries.map Prod.fst).Nodup) (h : (key, a) ∈ entries) :
    entries.lookup key = some a := by
  obtain ⟨before, behind, rfl⟩ := List.append_of_mem h
  refine List.lookup_eq_some_iff.mpr ⟨before, behind, rfl, fun e he => ?_⟩
  rw [List.map_append, List.nodup_append] at hnodup
  have hne : e.1 ≠ key := hnodup.2.2 e.1 (List.mem_map_of_mem he) key List.mem_cons_self
  rw [bne_iff_ne]
  exact hne.symm

end RubyDoc

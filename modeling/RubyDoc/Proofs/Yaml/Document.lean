import RubyDoc.Proofs.Value
import RubyDoc.Yaml.Document

/-!
# Cells of documents

A collection is put into a cell without touching the others, and the entries of a map document
are what is seen of the parts in its cell.
-/

namespace RubyDoc.Yaml.Document

variable {d : Document} {p : Part} {place other : Nat} {c : Cell}
  {entries : List (Value × Part)}

/-- Where a map is, there is a cell. -/
theorem lt_size_of_cellAt (h : d.cellAt place = .map entries) : place < d.cells.size := by
  refine Nat.lt_of_not_le fun hout => ?_
  rw [cellAt, Array.getD_eq_getD_getElem?, Array.getElem?_eq_none hout] at h
  cases h

theorem cellAt_put_self (h : place < d.cells.size) : (d.put place c).cellAt place = c := by
  rw [cellAt, put, Array.getD_eq_getD_getElem?, Array.getElem?_setIfInBounds_self_of_lt h]
  rfl

theorem cellAt_put_of_ne (h : place ≠ other) : (d.put place c).cellAt other = d.cellAt other := by
  rw [cellAt, cellAt, put, Array.getD_eq_getD_getElem?, Array.getD_eq_getD_getElem?,
    Array.getElem?_setIfInBounds_ne h]

/-- A map has a cell of its own. -/
theorem entriesOf?_eq_some_iff :
    d.entriesOf? p = some entries ↔ ∃ place, p = .shared place ∧ d.cellAt place = .map entries := by
  cases p with
  | plain v => exact ⟨nofun, nofun⟩
  | shared place =>
    rw [entriesOf?]
    constructor
    · intro h
      split at h
      · next hcell => exact ⟨place, rfl, hcell.trans (congrArg _ (Option.some.inj h))⟩
      · cases h
      · cases h
    · rintro ⟨_, ⟨⟩, hcell⟩
      rw [hcell]

theorem entriesOf?_shared (h : d.cellAt place = .map entries) :
    d.entriesOf? (.shared place) = some entries := entriesOf?_eq_some_iff.mpr ⟨place, rfl, h⟩

/-- Whether a part is a map. -/
def isMap (d : Document) (p : Part) : Bool := (d.entriesOf? p).isSome

theorem isMap_iff : d.isMap p = true ↔ ∃ place entries, p = .shared place ∧
    d.cellAt place = .map entries := by
  rw [isMap, Option.isSome_iff_exists]
  simp only [entriesOf?_eq_some_iff]
  exact exists_comm

/-- What is seen of a map are its entries, each seen less deep. -/
theorem seen_map (h : d.cellAt place = .map entries) (depth : Nat) :
    d.seen (depth + 1) (.shared place) =
      .map (entries.map fun e => (e.1, d.seen depth e.2)) := by
  rw [seen, h]

/-- Only a map is seen as one, unless a value is one already. -/
theorem of_seen_eq_map {depth : Nat} {inner : List (Value × Value)}
    (h : d.seen (depth + 1) p = .map inner) : p = .plain (.map inner) ∨
      ∃ place entries, p = .shared place ∧ d.cellAt place = .map entries ∧
        inner = entries.map fun e => (e.1, d.seen depth e.2) := by
  cases p with
  | plain v =>
    rw [seen] at h
    exact .inl (congrArg _ h)
  | shared place =>
    cases hcell : d.cellAt place with
    | map entries =>
      rw [seen_map hcell] at h
      exact .inr ⟨place, entries, rfl, hcell, (Value.map.inj h).symm⟩
    | list items =>
      rw [seen, hcell] at h
      cases h
    | set items =>
      rw [seen, hcell] at h
      cases h

/-- The entries of a document that is a map. -/
theorem entries_eq (hroot : d.root = .shared place) (hcell : d.cellAt place = .map entries) :
    d.entries = entries.map fun e => (e.1, d.seen (d.cells.size + 7) e.2) := by
  rw [Document.entries, value, depth, hroot, seen_map hcell]

/-- A document that is no map has no entries. -/
theorem entries_eq_nil (hroot : d.root = .shared place)
    (hmap : d.isMap (.shared place) = false) : d.entries = [] := by
  rw [Document.entries, value, depth, hroot]
  split
  · next inner hinner =>
    rcases of_seen_eq_map hinner with hplain | ⟨_, found, ⟨⟩, hcell, -⟩
    · cases hplain
    · rw [isMap, entriesOf?_shared hcell] at hmap
      cases hmap
  · rfl

end RubyDoc.Yaml.Document

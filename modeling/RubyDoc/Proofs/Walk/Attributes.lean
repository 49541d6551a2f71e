import RubyDoc.Proofs.Walk.Edit
import RubyDoc.Proofs.Walk.Root
import RubyDoc.Proofs.Walk.Sound

/-!
# Attribute tables

A handle means the namespace with its serial number, as long as that is the one at its path.
Another namespace that is registered there gets a number that none had before. So edits of the
store that leave a namespace at its path leave its entry for an attribute too, unless that very
attribute is put in.
-/

namespace RubyDoc

open ObjectPath

/-! ### Entries -/

/-- Putting an attribute in gives it an entry, and leaves those of the others. -/
theorem AttributeTable.lookup_put (name : String) (slots : Slots) (table : AttributeTable)
    (other : String) : (table.put name slots).lookup other =
      if other = name then some slots else table.lookup other := by
  induction table with
  | nil =>
    rw [put, List.lookup_cons]
    by_cases h : other = name
    · simp [h]
    · simp [h, beq_eq_false_iff_ne.mpr h]
  | cons first rest ih =>
    rw [put]
    by_cases hfirst : first.1 = name
    · rw [if_pos (beq_iff_eq.mpr hfirst), List.lookup_cons, List.lookup_cons, hfirst]
      by_cases h : other = name
      · simp [h]
      · simp [h, beq_eq_false_iff_ne.mpr h]
    · rw [if_neg fun h => hfirst (beq_iff_eq.mp h), List.lookup_cons, List.lookup_cons, ih]
      by_cases h : other = first.1
      · simp [h, hfirst]
      · simp [beq_eq_false_iff_ne.mpr h]

namespace Members

/-- What a namespace has in the table of a scope for an attribute. -/
def slotsOf (m : Members) (scope : Scope) (name : String) : Option Slots :=
  (m.attributes scope).bind fun table => table.lookup name

theorem attributes_adopt (m : Members) (child : String) (scope : Scope) :
    (m.adopt child).attributes scope = m.attributes scope := by
  rw [adopt]
  split
  · rfl
  · cases scope <;> rfl

/-- Members with tables for the same scopes and the same serial number are meant by the same
handle. -/
theorem handle_congr {m m' : Members}
    (hscopes : ∀ scope, (m'.attributes scope).isSome = (m.attributes scope).isSome)
    (hserial : m'.serial = m.serial) (path : String) : m'.handle path = m.handle path := by
  rw [handle, handle, scopes, scopes, hserial]
  simp only [hscopes]

theorem handle_adopt (m : Members) (child path : String) :
    (m.adopt child).handle path = m.handle path :=
  handle_congr (fun scope => by rw [attributes_adopt]) (m.serial_adopt child) path

theorem handle_putAttribute (m : Members) (scope : Scope) (name : String) (slots : Slots)
    (path : String) : (m.putAttribute scope name slots).handle path = m.handle path := by
  refine handle_congr (fun other => ?_) (m.serial_putAttribute scope name slots) path
  rw [attributes_putAttribute]
  split
  · rw [Option.isSome_map]
  · rfl

/-- The entry of an attribute that is put in, where there is a table for it. -/
theorem slotsOf_putAttribute (m : Members) {scope : Scope} (hscope : m.scopes.contains scope = true)
    (name : String) (slots : Slots) (other : String) :
    (m.putAttribute scope name slots).slotsOf scope other =
      if other = name then some slots else m.slotsOf scope other := by
  have htable : (m.attributes scope).isSome = true := by
    rw [scopes, List.contains_iff_mem] at hscope
    exact (List.mem_filter.mp hscope).2
  obtain ⟨table, htable⟩ := Option.isSome_iff_exists.mp htable
  rw [slotsOf, attributes_putAttribute, if_pos rfl, slotsOf, htable, Option.map_some,
    Option.bind_some, Option.bind_some, AttributeTable.lookup_put]

/-- Putting in another attribute leaves the entry. -/
theorem slotsOf_putAttribute_of_ne (m : Members) {scope other : Scope} {name n : String}
    (h : ¬ (scope = other ∧ name = n)) (slots : Slots) :
    (m.putAttribute scope name slots).slotsOf other n = m.slotsOf other n := by
  rw [slotsOf, attributes_putAttribute, slotsOf]
  split
  · next hscope =>
    cases m.attributes other with
    | none => rfl
    | some table =>
      rw [Option.map_some, Option.bind_some, AttributeTable.lookup_put,
        if_neg fun hname => h ⟨hscope.symm, hname.symm⟩, Option.bind_some]
  · rfl

end Members

/-! ### The members that a handle means -/

namespace Store

/-- The members of the namespace that a handle means, as long as it is at its path. -/
def membersOf (s : Store) (h : Handle) : Option Members :=
  ((s.find? h.path).bind Entity.members?).filter fun m => m.serial == h.serial

variable {s s' : Store} {h : Handle} {m : Members}

theorem membersOf_eq_some_iff :
    s.membersOf h = some m ↔
      (∃ e, s.find? h.path = some e ∧ e.members? = some m) ∧ m.serial = h.serial := by
  rw [membersOf, Option.filter_eq_some_iff, Option.bind_eq_some_iff, beq_iff_eq]

/-- Members that are changed, but for their serial numbers, are those of the same handle. -/
theorem membersOf_map {f : Members → Members} (hf : ∀ m, (f m).serial = m.serial)
    (hmap : (s'.find? h.path).bind Entity.members? =
      ((s.find? h.path).bind Entity.members?).map f) :
    s'.membersOf h = (s.membersOf h).map f := by
  rw [membersOf, membersOf, hmap]
  cases (s.find? h.path).bind Entity.members? with
  | none => rfl
  | some m =>
    rw [Option.map_some, Option.filter_some, Option.filter_some, hf]
    split <;> rfl

/-- Editing entities in place leaves what they hold. -/
theorem membersOf_modify (s : Store) (path : String) {f : Entity → Entity}
    (hf : ∀ e, Entity.IsEdited e (f e)) (h : Handle) :
    (s.modify path f).membersOf h = s.membersOf h := by
  rw [membersOf, membersOf, find?_modify]
  split
  · cases s.find? h.path with
    | none => rfl
    | some e => rw [Option.map_some, Option.bind_some, Option.bind_some, (hf e).members]
  · rfl

/-- A change through a handle changes what it means. -/
theorem membersOf_editMembers (s : Store) (handle : Handle) {f : Members → Members}
    (hf : ∀ m, (f m).serial = m.serial) (h : Handle) :
    (s.editMembers handle f).membersOf h =
      if h.path = handle.path ∧ h.serial = handle.serial then (s.membersOf h).map f
      else s.membersOf h := by
  have hmembers : ∀ e : Entity,
      (if h.path = handle.path ∧ isMeant handle e then e.mapMembers f else e).members? =
        e.members?.map fun m =>
          if h.path = handle.path ∧ m.serial = handle.serial then f m else m := by
    intro e
    rw [isMeant]
    cases hm : e.members? with
    | none => simp [hm]
    | some m =>
      simp only [Option.any_some, beq_iff_eq, Option.map_some]
      split
      · rw [Entity.members?_mapMembers, hm, Option.map_some]
      · exact hm
  have hmap : (s.editMembers handle f).membersOf h = (s.membersOf h).map fun m =>
      if h.path = handle.path ∧ m.serial = handle.serial then f m else m := by
    refine membersOf_map (fun m => ?_) ?_
    · split
      · exact hf m
      · rfl
    · rw [find?_editMembers_eq]
      cases s.find? h.path with
      | none => rfl
      | some e => exact hmembers e
  rw [hmap]
  cases hm : s.membersOf h with
  | none => split <;> rfl
  | some m =>
    rw [Option.map_some, (membersOf_eq_some_iff.mp hm).2]
    split <;> rfl

/-- Registering puts another namespace, with the next serial number, where the path of the
entity is the one of the handle. Elsewhere a child may be listed. -/
theorem membersOf_attach {e : Entity} (ha : s.attach e = .ok s') (h : Handle) :
    (h.path = e.path ∧ ((s'.membersOf h).isSome = true → h.serial = s.nextSerial)) ∨
      h.path ≠ e.path ∧ (s'.membersOf h = s.membersOf h ∨
        s'.membersOf h = (s.membersOf h).map fun m => m.adopt e.path) := by
  obtain ⟨home, known, -, -, rfl⟩ := (attach_eq_ok_iff s s' e).mp ha
  rw [membersOf_editMembers _ _ (fun m => m.serial_adopt e.path)]
  by_cases hp : h.path = e.path
  · refine .inl ⟨hp, fun hsome => ?_⟩
    have hkept : ((s.placed e).membersOf h).isSome = true := by
      split at hsome
      · rwa [Option.isSome_map] at hsome
      · exact hsome
    obtain ⟨m, hm⟩ := Option.isSome_iff_exists.mp hkept
    obtain ⟨⟨found, hfound, hmembers⟩, hserial⟩ := membersOf_eq_some_iff.mp hm
    obtain ⟨-, own, -, rfl⟩ | ⟨hother, -⟩ := members?_of_find?_placed hfound hmembers
    · exact hserial.symm
    · exact absurd hp hother
  · refine .inr ⟨hp, ?_⟩
    have hsame : (s.placed e).membersOf h = s.membersOf h := by
      rw [membersOf, membersOf, find?_placed, if_neg hp]
    rw [hsame]
    split
    · exact .inr rfl
    · exact .inl rfl

end Store

/-! ### The entry of an attribute -/

/-- An attribute of a namespace, for one scope. -/
structure Attribute where
  /-- The namespace. -/
  home : Handle
  /-- The scope of its accessors. -/
  scope : Scope
  /-- Its name. -/
  name : String

namespace Attribute

variable (a : Attribute)

/-- The path of its reader. -/
def reader : String := (Entity.newMethod a.home.path a.name a.scope).path

/-- The path of its writer. -/
def writer : String := (Entity.newMethod a.home.path (a.name ++ "=") a.scope).path

/-- The slots for a reader or a writer, or for both. -/
def slots (read write : Bool) : Slots :=
  { read := if read then some a.reader else none
    write := if write then some a.writer else none }

/-- Its entry in the table of its scope, as long as its namespace is at its path. -/
def entryIn (s : Store) : Option Slots :=
  (s.membersOf a.home).bind fun m => m.slotsOf a.scope a.name

variable {a}

/-- Members that are changed, but for the entry. -/
theorem entryIn_of_map {s s' : Store} {f : Members → Members}
    (hmap : s'.membersOf a.home = (s.membersOf a.home).map f)
    (hf : ∀ m, (f m).slotsOf a.scope a.name = m.slotsOf a.scope a.name) :
    a.entryIn s' = a.entryIn s := by
  rw [entryIn, hmap, entryIn]
  cases s.membersOf a.home with
  | none => rfl
  | some m => rw [Option.map_some, Option.bind_some, Option.bind_some, hf]

theorem entryIn_of_eq {s s' : Store} (h : s'.membersOf a.home = s.membersOf a.home) :
    a.entryIn s' = a.entryIn s := by
  rw [entryIn, h, entryIn]

end Attribute

namespace Store

variable {V : Option Visibility → Prop} {T : Handle → Scope → String → Prop} {s s' : Store}
  {a : Attribute}

theorem nextSerial_editMembers (s : Store) (handle : Handle) (f : Members → Members) :
    (s.editMembers handle f).nextSerial = s.nextSerial := by
  rw [editMembers]
  split
  · rfl
  · split <;> rfl

theorem nextSerial_attach {e : Entity} (ha : s.attach e = .ok s') :
    s'.nextSerial = s.nextSerial + 1 := by
  obtain ⟨home, m, -, -, rfl⟩ := (attach_eq_ok_iff s s' e).mp ha
  rw [nextSerial_editMembers, placed]

/-- No serial number is given twice. -/
theorem Edit.nextSerial_le (h : Edit V T s s') : s.nextSerial ≤ s'.nextSerial := by
  cases h with
  | register _ ha => exact nextSerial_attach ha ▸ Nat.le_succ _
  | modify => exact Nat.le_refl _
  | put => exact (nextSerial_editMembers s _ _).symm ▸ Nat.le_refl _

theorem Edits.nextSerial_le (h : Relation.ReflTransGen (Edit V T) s s') :
    s.nextSerial ≤ s'.nextSerial := by
  induction h with
  | refl => exact Nat.le_refl _
  | tail _ hlast ih => exact ih.trans hlast.nextSerial_le

/-- An edit that leaves the namespace of an attribute where it is leaves the entry, unless the
attribute is put in. -/
theorem Edit.entryIn (h : Edit V T s s') (hserial : a.home.serial < s.nextSerial)
    (hT : ∀ handle : Handle, handle.path = a.home.path → handle.serial = a.home.serial →
      ¬ T handle a.scope a.name)
    (hstays : (s'.membersOf a.home).isSome = true) :
    (s.membersOf a.home).isSome = true ∧ a.entryIn s' = a.entryIn s := by
  cases h with
  | @register _ e _ ha =>
    rcases membersOf_attach ha a.home with ⟨-, hnew⟩ | ⟨-, hsame | hadopts⟩
    · exact absurd (hnew hstays) (Nat.ne_of_lt hserial)
    · exact ⟨hsame ▸ hstays, Attribute.entryIn_of_eq hsame⟩
    · rw [hadopts, Option.isSome_map] at hstays
      refine ⟨hstays, Attribute.entryIn_of_map hadopts fun m => ?_⟩
      rw [Members.slotsOf, Members.attributes_adopt, Members.slotsOf]
  | modify path hf =>
    have hsame := membersOf_modify s path hf a.home
    exact ⟨hsame ▸ hstays, Attribute.entryIn_of_eq hsame⟩
  | @put handle scope name hname slots =>
    have hmembers := membersOf_editMembers s handle
      (fun m => m.serial_putAttribute scope name slots) a.home
    split at hmembers
    · next hmeant =>
      rw [hmembers, Option.isSome_map] at hstays
      refine ⟨hstays, Attribute.entryIn_of_map hmembers fun m => ?_⟩
      refine m.slotsOf_putAttribute_of_ne (fun hsame => ?_) slots
      exact hT handle hmeant.1.symm hmeant.2.symm (hsame.1 ▸ hsame.2 ▸ hname)
    · exact ⟨hmembers ▸ hstays, Attribute.entryIn_of_eq hmembers⟩

/-- A row of edits leaves the entry of an attribute that none of them puts in, if the namespace
is where it was at the end. -/
theorem Edits.entryIn (h : Relation.ReflTransGen (Edit V T) s s')
    (hserial : a.home.serial < s.nextSerial)
    (hT : ∀ handle : Handle, handle.path = a.home.path → handle.serial = a.home.serial →
      ¬ T handle a.scope a.name)
    (hstays : (s'.membersOf a.home).isSome = true) : a.entryIn s' = a.entryIn s := by
  have hboth : (s.membersOf a.home).isSome = true ∧ a.entryIn s' = a.entryIn s := by
    induction h with
    | refl => exact ⟨hstays, rfl⟩
    | tail hfirst hlast ih =>
      obtain ⟨hbefore, hentry⟩ :=
        hlast.entryIn (hserial.trans_le (Edits.nextSerial_le hfirst)) hT hstays
      exact ⟨(ih hbefore).1, hentry.trans (ih hbefore).2⟩
  exact hboth.2

end Store

end RubyDoc

import RubyDoc.Proofs.Walk.Change

/-!
# Sound stores

In a sound store every entity stands under its own path, and all paths that a
namespace names are taken: those of its children, none of them listed twice, and
those of the readers and writers in its tables. Every change of the store keeps this,
since no path is ever given up. That a child belongs to the namespace that lists it
is not claimed; a later registration can take its place.
-/

namespace RubyDoc

namespace AttributeTable

/-- What is in a table after an attribute was put in. -/
theorem mem_put {name : String} {slots : Slots} {table : AttributeTable} {entry : String × Slots}
    (h : entry ∈ table.put name slots) : entry.2 = slots ∨ entry ∈ table := by
  induction table with
  | nil =>
    rw [put, List.mem_singleton] at h
    rw [h]
    exact .inl rfl
  | cons first rest ih =>
    rw [put] at h
    split at h
    · rcases List.mem_cons.mp h with rfl | h
      · exact .inl rfl
      · exact .inr (List.mem_cons_of_mem _ h)
    · rcases List.mem_cons.mp h with rfl | h
      · exact .inr List.mem_cons_self
      · exact (ih h).imp_right (List.mem_cons_of_mem _)

end AttributeTable

namespace Members

/-- Whether a reader or a writer in some table is at a path. -/
def NamesSlot (m : Members) (path : String) : Prop :=
  ∃ scope table, m.attributes scope = some table ∧ ∃ entry ∈ table, entry.2.Names path

/-- Members that name only paths that are taken, and no child twice. -/
structure IsRegistered (m : Members) (keys : List String) : Prop where
  /-- No child is listed twice. -/
  nodup : m.children.Nodup
  /-- Every child is registered. -/
  children : ∀ child ∈ m.children, child ∈ keys
  /-- Every reader and every writer is registered. -/
  slots : ∀ path, m.NamesSlot path → path ∈ keys

variable {m : Members} {keys : List String}

/-- An attribute changes the table of its scope and no other. -/
theorem attributes_putAttribute (m : Members) (scope : Scope) (name : String) (slots : Slots)
    (other : Scope) :
    (m.putAttribute scope name slots).attributes other =
      if other = scope then (m.attributes other).map (AttributeTable.put name slots)
      else m.attributes other := by
  cases scope <;> cases other <;> rfl

/-- A namespace without children and attributes names nothing. -/
theorem isRegistered_empty : IsRegistered {} keys := by
  refine ⟨List.nodup_nil, fun child hc => absurd hc List.not_mem_nil, ?_⟩
  rintro path ⟨scope, table, htable, entry, hentry, -⟩
  have hnil : table = [] := by
    cases scope <;> exact (Option.some.inj htable).symm
  rw [hnil] at hentry
  cases hentry

namespace IsRegistered

variable (h : m.IsRegistered keys)

include h

/-- Paths stay taken. -/
theorem mono {more : List String} (hsub : ∀ path ∈ keys, path ∈ more) : m.IsRegistered more :=
  ⟨h.nodup, fun child hc => hsub child (h.children child hc),
    fun path hp => hsub path (h.slots path hp)⟩

/-- The serial number does not matter. -/
theorem withSerial (serial : Nat) : ({ m with serial } : Members).IsRegistered keys := by
  refine ⟨h.nodup, h.children, fun path hp => h.slots path ?_⟩
  obtain ⟨scope, table, htable, hentry⟩ := hp
  exact ⟨scope, table, by cases scope <;> exact htable, hentry⟩

/-- A child that is registered may be listed. -/
theorem adopt {child : String} (hc : child ∈ keys) : (m.adopt child).IsRegistered keys := by
  rw [Members.adopt]
  split
  · exact h
  · next hnew =>
    refine ⟨?_, fun c hmem => ?_, fun path hp => h.slots path ?_⟩
    · rw [List.nodup_append]
      refine ⟨h.nodup, by simp, fun c hmem c' hmem' he => hnew ?_⟩
      rw [List.contains_iff_mem, ← List.mem_singleton.mp hmem', ← he]
      exact hmem
    · rcases List.mem_append.mp hmem with hmem | hmem
      · exact h.children c hmem
      · rwa [List.mem_singleton.mp hmem]
    · obtain ⟨scope, table, htable, hentry⟩ := hp
      exact ⟨scope, table, by cases scope <;> exact htable, hentry⟩

/-- An attribute may be put in if its reader and its writer are registered. -/
theorem putAttribute (scope : Scope) (name : String) {slots : Slots}
    (hs : ∀ path, slots.Names path → path ∈ keys) :
    (m.putAttribute scope name slots).IsRegistered keys := by
  refine ⟨?_, ?_, ?_⟩
  · cases scope <;> exact h.nodup
  · cases scope <;> exact h.children
  · rintro path ⟨other, table, htable, entry, hentry, hpath⟩
    rw [attributes_putAttribute] at htable
    split at htable
    · obtain ⟨before, hbefore, rfl⟩ := Option.map_eq_some_iff.mp htable
      rcases AttributeTable.mem_put hentry with heq | hentry
      · exact hs path (heq ▸ hpath)
      · exact h.slots path ⟨other, before, hbefore, entry, hentry, hpath⟩
    · exact h.slots path ⟨other, table, htable, entry, hentry, hpath⟩

end IsRegistered

end Members

namespace Store

/-- A store whose entities stand under their own paths, and whose namespaces name only
paths that are taken. -/
structure IsSound (s : Store) : Prop where
  /-- Every entity stands under its path, and no path is taken twice. -/
  isKeyed : s.IsKeyed
  /-- The members of every namespace are registered. -/
  members : ∀ path e m, s.find? path = some e → e.members? = some m → m.IsRegistered s.keys

variable {D : Declaration → Prop} {s s' : Store}

/-- What is registered in a sound store has members that are. -/
theorem IsSound.registers (h : s.IsSound) {e : Entity} (he : s.Registers D e) {m : Members}
    (hm : e.members? = some m) : m.IsRegistered s.keys := by
  obtain rfl | ⟨path, known, hfind, hknown, -⟩ := he.members hm
  · exact Members.isRegistered_empty
  · exact h.members path known m hfind hknown

/-- Changing the members of the namespace that a handle means keeps a store sound, if
the members stay registered. -/
theorem IsSound.editMembers (h : s.IsSound) (handle : Handle) {f : Members → Members}
    (hf : ∀ m : Members, m.IsRegistered s.keys → (f m).IsRegistered s.keys) :
    (s.editMembers handle f).IsSound := by
  refine ⟨h.isKeyed.editMembers _ _, fun path e m hfind hm => ?_⟩
  rw [keys_editMembers]
  rw [find?_editMembers] at hfind
  split at hfind
  · obtain ⟨known, hknown, rfl⟩ := Option.map_eq_some_iff.mp hfind
    split at hm
    · rw [Entity.members?_mapMembers] at hm
      obtain ⟨before, hbefore, rfl⟩ := Option.map_eq_some_iff.mp hm
      exact hf before (h.members path known before hknown hbefore)
    · exact h.members path known m hknown hm
  · exact h.members path e m hfind hm

/-- Editing an entity in place keeps a store sound. -/
theorem IsSound.modify (h : s.IsSound) (path : String) {f : Entity → Entity}
    (hf : ∀ e, Entity.IsEdited e (f e)) : (s.modify path f).IsSound := by
  refine ⟨h.isKeyed.modify fun e => (hf e).path, fun p e m hfind hm => ?_⟩
  rw [keys_modify]
  rw [find?_modify] at hfind
  split at hfind
  · obtain ⟨known, hknown, rfl⟩ := Option.map_eq_some_iff.mp hfind
    rw [(hf known).members] at hm
    exact h.members p known m hknown hm
  · exact h.members p e m hfind hm

/-- Registering an entity whose members are registered keeps a store sound. -/
theorem IsSound.attach (h : s.IsSound) {e : Entity}
    (he : ∀ m, e.members? = some m → m.IsRegistered s.keys) (ha : s.attach e = .ok s') :
    s'.IsSound := by
  obtain ⟨home, members, -, -, rfl⟩ := (attach_eq_ok_iff s s' e).mp ha
  have hkept : ∀ p ∈ s.keys, p ∈ (s.placed e).keys := by
    intro p hp
    rw [keys_placed]
    split
    · exact hp
    · exact List.mem_append_left _ hp
  have hpath : e.path ∈ (s.placed e).keys :=
    mem_keys_iff.mpr ⟨_, by rw [find?_placed, if_pos rfl]⟩
  have hplaced : (s.placed e).IsSound := by
    refine ⟨h.isKeyed.placed e, fun p found m hf hm => Members.IsRegistered.mono ?_ hkept⟩
    obtain ⟨-, own, hown, rfl⟩ | ⟨-, hf⟩ := members?_of_find?_placed hf hm
    · exact (he own hown).withSerial _
    · exact h.members p found m hf hm
  exact hplaced.editMembers _ fun m hm => hm.adopt hpath

/-- One change keeps a store sound. -/
theorem IsSound.change (h : s.IsSound) (hc : Change D s s') : s'.IsSound := by
  cases hc with
  | register he ha => exact h.attach (fun m hm => h.registers he hm) ha
  | edit path hf => exact h.modify path (Entity.isEdited_of_method hf)
  | reopen _ _ hf => exact h.modify _ hf
  | slots handle scope name hslots =>
    exact h.editMembers handle fun m hm => hm.putAttribute scope name hslots

theorem IsSound.changes (h : s.IsSound) (hc : Changes D s s') : s'.IsSound := by
  induction hc with
  | refl => exact h
  | tail _ hlast ih => exact ih.change hlast

/-- The children of a namespace in a sound store are found, each under its path. -/
theorem IsSound.childrenOf (h : s.IsSound) {path : String} {e : Entity} {m : Members}
    (hfind : s.find? path = some e) (hm : e.members? = some m) :
    ∃ children, s.childrenOf path = .ok children ∧ children.map Entity.path = m.children := by
  obtain ⟨children, hchildren, hpaths, -⟩ :=
    h.isKeyed.childrenOf hfind hm (h.members path e m hfind hm).children
  exact ⟨children, hchildren, hpaths⟩

/-- A row of changes only adds paths, behind those that there are. -/
theorem Changes.paths_isPrefix (h : Changes D s s') : s.paths <+: s'.paths := by
  rw [paths_eq, paths_eq]
  exact h.keys_isPrefix.filter _

end Store

end RubyDoc

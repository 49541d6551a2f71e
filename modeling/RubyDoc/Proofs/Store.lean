import Mathlib.Data.List.Basic
import RubyDoc.Proofs.Lookup
import RubyDoc.Store

/-!
# What is registered after a change of the store

Every change of the store is followed by looking up one path: the path that was
changed has the changed entity, all others have what they had. Entries are known
by their paths and what is found at each, as long as no path stands twice. Which
serial number a namespace gets is not followed here.
-/

namespace RubyDoc

/-! ### Entities that are changed -/

namespace Entity

variable {e : Entity}

@[simp] theorem path_mapMembers (f : Members → Members) (e : Entity) :
    (e.mapMembers f).path = e.path := by
  unfold mapMembers path
  cases e.kind <;> rfl

@[simp] theorem home_mapMembers (f : Members → Members) (e : Entity) :
    (e.mapMembers f).home = e.home := rfl

@[simp] theorem facts?_mapMembers (f : Members → Members) (e : Entity) :
    (e.mapMembers f).facts? = e.facts? := by
  unfold mapMembers facts?
  cases e.kind <;> rfl

@[simp] theorem isMethod_mapMembers (f : Members → Members) (e : Entity) :
    (e.mapMembers f).isMethod = e.isMethod := by
  rw [isMethod, facts?_mapMembers, isMethod]

@[simp] theorem members?_mapMembers (f : Members → Members) (e : Entity) :
    (e.mapMembers f).members? = e.members?.map f := by
  unfold mapMembers members?
  cases e.kind <;> rfl

@[simp] theorem mapMembers_mapMembers (f g : Members → Members) (e : Entity) :
    (e.mapMembers f).mapMembers g = e.mapMembers fun m => g (f m) := by
  unfold mapMembers
  cases e.kind <;> rfl

@[simp] theorem path_docstring (e : Entity) (docstring : String) :
    ({ e with docstring } : Entity).path = e.path := rfl

@[simp] theorem isMethod_docstring (e : Entity) (docstring : String) :
    ({ e with docstring } : Entity).isMethod = e.isMethod := rfl

/-- A method has no members to change. -/
theorem mapMembers_of_isMethod (f : Members → Members) (h : e.isMethod = true) :
    e.mapMembers f = e := by
  cases e with
  | mk name home docstring source file line kind =>
    cases kind with
    | method facts => rfl
    | root m => cases h
    | moduleSpace m => cases h
    | classSpace m superclass => cases h
    | constant value => cases h

end Entity

/-- A child that is listed is not listed again. -/
theorem Members.adopt_adopt (m : Members) (path : String) :
    (m.adopt path).adopt path = m.adopt path := by
  have hlisted : (m.adopt path).children.contains path = true := by
    unfold adopt
    split
    · next h => exact h
    · simp
  rw [adopt, if_pos hlisted]

/-- Listing a child twice is listing it once. -/
theorem Entity.mapMembers_adopt_adopt (e : Entity) (path : String) :
    (e.mapMembers fun m => m.adopt path).mapMembers (fun m => m.adopt path) =
      e.mapMembers fun m => m.adopt path := by
  simp only [mapMembers_mapMembers, Members.adopt_adopt]

namespace Store

/-! ### Looking up after a change -/

/-- The paths that are taken, in order of first registration. -/
def keys (s : Store) : List String := s.entries.map Prod.fst

/-- A path that is taken has an entity. -/
theorem contains_of_mem_keys {s : Store} {p : String} (h : p ∈ s.keys) : s.contains p = true := by
  obtain ⟨entry, he, rfl⟩ := List.mem_map.mp h
  rw [contains, find?, Option.isSome_iff_ne_none]
  intro hnone
  have hne := List.lookup_eq_none_iff.mp hnone entry he
  simp at hne

/-- What is found at a path is an entry. -/
theorem mem_entries_of_find? {s : Store} {p : String} {e : Entity} (h : s.find? p = some e) :
    (p, e) ∈ s.entries :=
  mem_of_lookup_eq_some h

/-- A path is taken if something is found there. -/
theorem mem_keys_iff {s : Store} {p : String} : p ∈ s.keys ↔ ∃ e, s.find? p = some e := by
  constructor
  · intro h
    exact Option.isSome_iff_exists.mp (contains_of_mem_keys h)
  · rintro ⟨e, he⟩
    exact List.mem_map_of_mem (f := Prod.fst) (mem_entries_of_find? he)

theorem lookup_map_second (f : String → Entity → Entity) (entries : List (String × Entity))
    (q : String) :
    (entries.map fun entry => (entry.1, f entry.1 entry.2)).lookup q =
      (entries.lookup q).map (f q) := by
  induction entries with
  | nil => rfl
  | cons entry rest ih =>
    rw [List.map_cons, List.lookup_cons, List.lookup_cons, ih]
    by_cases h : q = entry.1
    · subst h
      simp
    · simp [beq_eq_false_iff_ne.mpr h]

theorem find?_modify (s : Store) (path : String) (f : Entity → Entity) (q : String) :
    (s.modify path f).find? q = if q = path then (s.find? q).map f else s.find? q := by
  have hsame : (fun entry : String × Entity =>
      if entry.1 == path then (entry.1, f entry.2) else entry) =
        fun entry => (entry.1, (if entry.1 = path then f else id) entry.2) := by
    funext entry
    by_cases h : entry.1 = path
    · simp [h]
    · simp [h]
  rw [find?, modify]
  dsimp only
  rw [hsame, lookup_map_second (fun p => if p = path then f else id)]
  split
  · rfl
  · exact Option.map_id_fun ▸ rfl

/-- Every entity is changed in place, those at other paths by nothing. -/
theorem find?_modify_eq (s : Store) (path : String) (f : Entity → Entity) (q : String) :
    (s.modify path f).find? q = (s.find? q).map fun e => if q = path then f e else e := by
  rw [find?_modify]
  split
  · rfl
  · rw [Option.map_id']

theorem keys_modify (s : Store) (path : String) (f : Entity → Entity) :
    (s.modify path f).keys = s.keys := by
  rw [keys, modify, List.map_map, keys]
  refine List.map_congr_left fun entry _ => ?_
  rw [Function.comp_apply]
  split <;> rfl

theorem lookup_setEntry (path : String) (e : Entity) (entries : List (String × Entity))
    (q : String) :
    (setEntry path e entries).lookup q = if q = path then some e else entries.lookup q := by
  induction entries with
  | nil =>
    rw [setEntry, List.lookup_cons]
    by_cases h : q = path
    · simp [h]
    · simp [h, beq_eq_false_iff_ne.mpr h]
  | cons entry rest ih =>
    rw [setEntry]
    by_cases hp : entry.1 = path
    · rw [if_pos (by simpa using hp), List.lookup_cons, List.lookup_cons, hp]
      by_cases hq : q = path
      · simp [hq]
      · simp [hq, beq_eq_false_iff_ne.mpr hq]
    · rw [if_neg (by simpa using hp), List.lookup_cons, List.lookup_cons, ih]
      by_cases hq : q = entry.1
      · simp [hq, hp]
      · simp [beq_eq_false_iff_ne.mpr hq]

theorem find?_place (s : Store) (path : String) (e : Entity) (q : String) :
    (s.place path e).find? q = if q = path then some e else s.find? q :=
  lookup_setEntry path e s.entries q

/-- Placing an entity adds its path at the end, unless it is taken already. -/
theorem keys_place (s : Store) (path : String) (e : Entity) :
    (s.place path e).keys = if s.contains path then s.keys else s.keys ++ [path] := by
  have hset : ∀ entries : List (String × Entity), (setEntry path e entries).map Prod.fst =
      if (entries.lookup path).isSome then entries.map Prod.fst
      else entries.map Prod.fst ++ [path] := by
    intro entries
    induction entries with
    | nil => rfl
    | cons entry rest ih =>
      rw [setEntry, List.lookup_cons]
      by_cases h : entry.1 = path
      · simp [h]
      · have hne : (path == entry.1) = false := by
          rw [beq_eq_false_iff_ne]
          exact fun he => h he.symm
        rw [if_neg (by simpa using h), List.map_cons, ih, hne]
        split <;> rfl
  exact hset s.entries

theorem find?_editMethod (s : Store) (path : String) (f : Entity → Entity) (q : String) :
    (s.editMethod path f).find? q =
      if q = path then (s.find? q).map fun e => if e.isMethod then f e else e
      else s.find? q :=
  find?_modify s path _ q

theorem keys_editMethod (s : Store) (path : String) (f : Entity → Entity) :
    (s.editMethod path f).keys = s.keys :=
  keys_modify s path _

/-- Only the namespace that a handle means is changed. -/
theorem find?_editMembers (s : Store) (h : Handle) (f : Members → Members) (q : String) :
    (s.editMembers h f).find? q =
      if q = h.path then (s.find? q).map fun e => if isMeant h e then e.mapMembers f else e
      else s.find? q := by
  rw [editMembers]
  split
  · next hmeant =>
    rw [find?_modify]
    split
    · next hq =>
      subst hq
      cases he : s.find? h.path with
      | none => rfl
      | some e =>
        rw [he, Option.any_some] at hmeant
        rw [Option.map_some, Option.map_some, if_pos hmeant]
    · rfl
  · next hmeant =>
    have hsame : s.find? q = if q = h.path
        then (s.find? q).map (fun e => if isMeant h e then e.mapMembers f else e)
        else s.find? q := by
      split
      · next hq =>
        subst hq
        cases he : s.find? h.path with
        | none => rfl
        | some e =>
          rw [he, Option.any_some] at hmeant
          rw [Option.map_some, if_neg hmeant]
      · rfl
    split
    · exact hsame
    · exact hsame

theorem find?_editMembers_eq (s : Store) (handle : Handle) (f : Members → Members) (q : String) :
    (s.editMembers handle f).find? q = (s.find? q).map fun e =>
      if q = handle.path ∧ isMeant handle e then e.mapMembers f else e := by
  rw [find?_editMembers]
  split
  · next hq => simp only [hq, true_and]
  · next hq => simp only [hq, false_and, if_false, Option.map_id']

theorem keys_editMembers (s : Store) (h : Handle) (f : Members → Members) :
    (s.editMembers h f).keys = s.keys := by
  rw [editMembers]
  split
  · exact keys_modify s h.path _
  · split <;> rfl

/-! ### Registering -/

theorem namespaceAt_eq_ok_iff (s : Store) (path : String) (e : Entity) (m : Members) :
    s.namespaceAt path = .ok (e, m) ↔ s.find? path = some e ∧ e.members? = some m := by
  rw [namespaceAt]
  cases hf : s.find? path with
  | none => simp
  | some found =>
    dsimp only
    cases hm : found.members? with
    | none =>
      simp only [reduceCtorEq, Option.some.injEq, false_iff, not_and]
      rintro rfl
      simp [hm]
    | some members =>
      simp only [Except.ok.injEq, Prod.mk.injEq, Option.some.injEq]
      constructor
      · rintro ⟨rfl, rfl⟩
        exact ⟨rfl, hm⟩
      · rintro ⟨rfl, h⟩
        rw [hm, Option.some.injEq] at h
        exact ⟨rfl, h⟩

/-- An entity as it is kept once it is registered. -/
def numbered (s : Store) (e : Entity) : Entity :=
  e.mapMembers fun m => { m with serial := s.nextSerial }

/-- A store with an entity at its path, before the namespace around it lists it. -/
def placed (s : Store) (e : Entity) : Store :=
  { s.place e.path (s.numbered e) with nextSerial := s.nextSerial + 1 }

theorem find?_placed (s : Store) (e : Entity) (q : String) :
    (s.placed e).find? q = if q = e.path then some (s.numbered e) else s.find? q :=
  find?_place s e.path (s.numbered e) q

theorem keys_placed (s : Store) (e : Entity) :
    (s.placed e).keys = if s.contains e.path then s.keys else s.keys ++ [e.path] :=
  keys_place s e.path (s.numbered e)

/-- A namespace of the store is the one that was placed, with the next serial number, or it was
there before. -/
theorem members?_of_find?_placed {s : Store} {e found : Entity} {q : String} {m : Members}
    (hfound : (s.placed e).find? q = some found) (hm : found.members? = some m) :
    q = e.path ∧ (∃ own, e.members? = some own ∧ m = { own with serial := s.nextSerial }) ∨
      q ≠ e.path ∧ s.find? q = some found := by
  rw [find?_placed] at hfound
  split at hfound
  · next hq =>
    rw [← Option.some.inj hfound, numbered, Entity.members?_mapMembers] at hm
    obtain ⟨own, hown, rfl⟩ := Option.map_eq_some_iff.mp hm
    exact .inl ⟨hq, own, hown, rfl⟩
  · next hq => exact .inr ⟨hq, hfound⟩

/-- Registering needs the namespace around the entity, and nothing else. -/
theorem attach_eq_ok_iff (s s' : Store) (e : Entity) :
    s.attach e = .ok s' ↔ ∃ home m, s.find? e.home = some home ∧ home.members? = some m ∧
      s' = (s.placed e).editMembers (m.handle e.home) fun m => m.adopt e.path := by
  rw [attach]
  cases hn : s.namespaceAt e.home with
  | error fault =>
    simp only [Except.map, reduceCtorEq, false_iff, not_exists, not_and]
    intro home m hf hm
    rw [(namespaceAt_eq_ok_iff s e.home home m).mpr ⟨hf, hm⟩] at hn
    cases hn
  | ok found =>
    obtain ⟨home, m⟩ := found
    obtain ⟨hf, hm⟩ := (namespaceAt_eq_ok_iff s e.home home m).mp hn
    simp only [Except.map, Except.ok.injEq]
    constructor
    · intro h
      exact ⟨home, m, hf, hm, h.symm⟩
    · rintro ⟨home', m', hf', hm', h⟩
      rw [hf, Option.some.injEq] at hf'
      subst hf'
      rw [hm, Option.some.injEq] at hm'
      subst hm'
      exact h.symm

section Attach

variable {s s' : Store} {e : Entity}

/-- After registering, the path of the entity has it, and the namespace around it
lists it. -/
theorem find?_attach (h : s.attach e = .ok s') (hne : e.path ≠ e.home) (q : String) :
    s'.find? q =
      if q = e.path then some (s.numbered e)
      else if q = e.home then (s.find? q).map (Entity.mapMembers fun m => m.adopt e.path)
      else s.find? q := by
  obtain ⟨home, m, hf, hm, rfl⟩ := (attach_eq_ok_iff s s' e).mp h
  rw [find?_editMembers, find?_placed]
  by_cases hq : q = e.path
  · rw [if_pos hq, if_pos hq, if_neg (by rw [hq]; exact hne)]
  · rw [if_neg hq, if_neg hq]
    have hpath : (m.handle e.home).path = e.home := rfl
    rw [hpath]
    split
    · next hhome =>
      have hmeant : isMeant (m.handle e.home) home = true := by
        rw [isMeant, hm, Option.any_some]
        exact beq_self_eq_true _
      rw [hhome, hf, Option.map_some, Option.map_some, if_pos hmeant]
    · rfl

/-- After registering, the path of the entity has it, whatever members it has by then. -/
theorem exists_find?_attach (h : s.attach e = .ok s') :
    ∃ f, s'.find? e.path = some (e.mapMembers f) := by
  obtain ⟨home, m, -, -, rfl⟩ := (attach_eq_ok_iff s s' e).mp h
  rw [find?_editMembers_eq, find?_placed, if_pos rfl, Option.map_some, numbered]
  split
  · exact ⟨_, congrArg some (Entity.mapMembers_mapMembers _ _ e)⟩
  · exact ⟨_, rfl⟩

/-- Registering takes the path of the entity and no other. -/
theorem keys_attach (h : s.attach e = .ok s') :
    s'.keys = if s.contains e.path then s.keys else s.keys ++ [e.path] := by
  obtain ⟨home, m, hf, hm, rfl⟩ := (attach_eq_ok_iff s s' e).mp h
  rw [keys_editMembers, keys_placed]

/-- Registering at another path than the empty one leaves the first root where it is. -/
theorem formerRoot_attach (h : s.attach e = .ok s') (hne : e.path ≠ e.home) (hroot : e.path ≠ "") :
    s'.formerRoot = s.formerRoot := by
  obtain ⟨home, m, hf, hm, rfl⟩ := (attach_eq_ok_iff s s' e).mp h
  have hmeant : ((s.placed e).find? (m.handle e.home).path).any (isMeant (m.handle e.home)) =
      true := by
    have hhome : (m.handle e.home).path ≠ e.path := hne.symm
    have hfound : s.find? (m.handle e.home).path = some home := hf
    rw [find?_placed, if_neg hhome, hfound, Option.any_some, isMeant, hm, Option.any_some]
    exact beq_self_eq_true _
  rw [editMembers, if_pos hmeant, modify, placed, place]
  dsimp only
  rw [if_neg]
  simp [hroot]

end Attach

/-! ### Entries by their paths -/

/-- Entries with the same paths, none of them twice, are the same if the same is
found at every path. -/
theorem entries_eq_of_find? {s s' : Store} (hk : s'.keys = s.keys) (hn : s.keys.Nodup)
    (h : ∀ p ∈ s.keys, s'.find? p = s.find? p) : s'.entries = s.entries := by
  have hext : ∀ xs ys : List (String × Entity), ys.map Prod.fst = xs.map Prod.fst →
      (xs.map Prod.fst).Nodup → (∀ p ∈ xs.map Prod.fst, ys.lookup p = xs.lookup p) → ys = xs := by
    intro xs
    induction xs with
    | nil =>
      intro ys hk _ _
      exact List.map_eq_nil_iff.mp hk
    | cons x xs ih =>
      intro ys hk hn h
      cases ys with
      | nil => cases hk
      | cons y ys =>
        rw [List.map_cons, List.map_cons, List.cons.injEq] at hk
        rw [List.map_cons, List.nodup_cons] at hn
        have hfirst := h x.1 (by simp)
        rw [List.lookup_cons, List.lookup_cons, hk.1, beq_self_eq_true] at hfirst
        have hxy : y = x := by
          cases x
          cases y
          rw [Prod.mk.injEq]
          exact ⟨hk.1, Option.some.inj hfirst⟩
        rw [hxy, ih ys hk.2 hn.2 fun p hp => ?_]
        have hne : (p == x.1) = false := by
          rw [beq_eq_false_iff_ne]
          rintro rfl
          exact hn.1 hp
        have hrest := h p (by simp [hp])
        rwa [List.lookup_cons, List.lookup_cons, hk.1, hne] at hrest
  exact hext s.entries s'.entries hk hn h

/-- A store whose entities stand under their own paths, none of them twice. -/
structure IsKeyed (s : Store) : Prop where
  /-- No path is taken twice. -/
  nodup : s.keys.Nodup
  /-- Every entity stands under its path. -/
  path : ∀ p e, s.find? p = some e → e.path = p

/-- A store is keyed if its entries are, one by one. -/
theorem isKeyed_of_forall {s : Store} (hn : s.keys.Nodup)
    (h : ∀ entry ∈ s.entries, entry.2.path = entry.1) : s.IsKeyed :=
  ⟨hn, fun _ _ hf => h _ (mem_entries_of_find? hf)⟩

/-- What stands at a path is what the entry of that path has. -/
theorem IsKeyed.find?_eq_some_iff {s : Store} (h : s.IsKeyed) {p : String} {e : Entity} :
    s.find? p = some e ↔ (p, e) ∈ s.entries :=
  ⟨mem_entries_of_find?, lookup_of_mem h.nodup⟩

/-- The children of a namespace are found, each under its path, if they are registered. -/
theorem IsKeyed.childrenOf {s : Store} (h : s.IsKeyed) {path : String} {e : Entity} {m : Members}
    (hfind : s.find? path = some e) (hm : e.members? = some m)
    (hchildren : ∀ child ∈ m.children, child ∈ s.keys) :
    ∃ children, s.childrenOf path = .ok children ∧ children.map Entity.path = m.children ∧
      ∀ child ∈ children, s.find? child.path = some child := by
  have hfound : ∀ look : String → Except Fault Entity,
      (∀ child e, s.find? child = some e → look child = .ok e) →
      ∀ listed : List String, (∀ child ∈ listed, child ∈ s.keys) →
        ∃ children, listed.mapM look = .ok children ∧ children.map Entity.path = listed ∧
          ∀ child ∈ children, s.find? child.path = some child := by
    intro look hlook listed hlisted
    induction listed with
    | nil => exact ⟨[], rfl, rfl, fun child hc => absurd hc List.not_mem_nil⟩
    | cons child rest ih =>
      rw [List.forall_mem_cons] at hlisted
      obtain ⟨found, hfound⟩ := mem_keys_iff.mp hlisted.1
      obtain ⟨children, hrest, hpaths, hall⟩ := ih hlisted.2
      have hpath := h.path child found hfound
      refine ⟨found :: children, ?_, ?_, ?_⟩
      · rw [List.mapM_cons, hlook child found hfound, hrest]
        rfl
      · rw [List.map_cons, hpath, hpaths]
      · rw [List.forall_mem_cons, hpath]
        exact ⟨hfound, hall⟩
  rw [Store.childrenOf, (namespaceAt_eq_ok_iff s path e m).mpr ⟨hfind, hm⟩]
  exact hfound _ (fun child e he => by rw [he]) m.children hchildren

/-- The paths but the empty one, as far as they are taken. -/
theorem paths_eq (s : Store) : s.paths = s.keys.filter fun path => path != "" := by
  rw [paths, keys, List.filter_map]
  rfl

/-- The method with an identity is a method at the path of that identity. -/
theorem findOrNewMethod_spec {s : Store} (h : s.IsKeyed) (home name : String) (scope : Scope) :
    (s.findOrNewMethod home name scope).isMethod = true ∧
      (s.findOrNewMethod home name scope).path = (Entity.newMethod home name scope).path := by
  rw [findOrNewMethod, method?]
  cases hf : s.find? (Entity.newMethod home name scope).path with
  | none => exact ⟨rfl, rfl⟩
  | some e =>
    dsimp only
    split
    · next hm => exact ⟨hm, h.path _ e hf⟩
    · exact ⟨rfl, rfl⟩

end Store

end RubyDoc

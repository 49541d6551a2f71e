import RubyDoc.Proofs.Walk.Opening
import RubyDoc.Proofs.Walk.Tree

/-!
# Room for a namespace

What a namespace lists, and what is in its tables, changes with everything that is
registered inside it. All else about it is changed by declarations at its own path
only. As long as these declare neither a constant nor a method, nothing but a namespace
ever stands at the path, and none stands further in while none stands there. So making
sure of a namespace further in finds it, or makes a placeholder of it.
-/

namespace RubyDoc

open ObjectPath Text

/-! ### Entities without what they hold -/

namespace Entity

/-- An entity without what it holds. -/
def bare (e : Entity) : Entity := e.mapMembers fun _ => {}

theorem bare_mapMembers (f : Members → Members) (e : Entity) : (e.mapMembers f).bare = e.bare := by
  rw [bare, mapMembers_mapMembers, bare]

theorem shape_bare (e : Entity) : e.bare.shape = e.shape := shape_mapMembers e _

/-- Only methods are edited. -/
theorem isMethod_of_shape {e : Entity} (h : e.shape = .namespace) : e.isMethod = false := by
  rw [Bool.eq_false_iff]
  intro hm
  obtain ⟨parameters, hp⟩ := e.isMethod_iff.mp hm
  rw [h] at hp
  cases hp

/-- An entity that is edited is a namespace if it was one. -/
theorem IsEdited.shape_iff {e e' : Entity} (h : e.IsEdited e') :
    e'.shape = .namespace ↔ e.shape = .namespace := by
  rw [← isNamespace_iff, ← isNamespace_iff, h.members]

end Entity

namespace Store

variable {s s' : Store} {path : String}

/-- What stands at a path, without what it holds. -/
def bareAt (s : Store) (path : String) : Option Entity := (s.find? path).map Entity.bare

/-- Changing what a namespace holds changes nothing else about it. -/
theorem bareAt_editMembers (s : Store) (handle : Handle) (f : Members → Members) (q : String) :
    (s.editMembers handle f).bareAt q = s.bareAt q := by
  rw [bareAt, find?_editMembers_eq, Option.map_map, bareAt]
  congr 1
  funext e
  rw [Function.comp_apply]
  split
  · exact Entity.bare_mapMembers f e
  · rfl

/-- Changing what stands at one path leaves what stands at another. -/
theorem bareAt_modify_of_ne {q : String} (hq : q ≠ path) (f : Entity → Entity) :
    (s.modify path f).bareAt q = s.bareAt q := by
  rw [bareAt, find?_modify, if_neg hq, bareAt]

section Attach

variable {e : Entity} (ha : s.attach e = .ok s') (hne : e.path ≠ "")

include ha hne

/-- Registering puts the entity at its path, and leaves what stands elsewhere. -/
theorem bareAt_attach (q : String) :
    s'.bareAt q = if q = e.path then some e.bare else s.bareAt q := by
  rw [bareAt, find?_attach ha (Entity.path_ne_home hne)]
  by_cases hq : q = e.path
  · rw [if_pos hq, if_pos hq, Option.map_some, numbered, Entity.bare_mapMembers]
  · rw [if_neg hq, if_neg hq, bareAt]
    split
    · rw [Option.map_map]
      congr 1
      exact funext fun known => Entity.bare_mapMembers _ known
    · rfl

theorem shapeAt_attach_eq (q : String) :
    s'.shapeAt q = if q = e.path then some e.shape else s.shapeAt q := by
  have hbare := congrArg (Option.map Entity.shape) (bareAt_attach ha hne q)
  rw [bareAt, Option.map_map, Function.comp_def] at hbare
  simp only [Entity.shape_bare] at hbare
  rw [shapeAt, hbare]
  split
  · rw [Option.map_some, Entity.shape_bare]
  · rw [bareAt, Option.map_map, Function.comp_def, shapeAt]
    simp only [Entity.shape_bare]

end Attach

/-! ### What is registered for a declaration -/

/-- What is registered for a declaration in a store. -/
structure Makes (s : Store) (d : Declaration) (e : Entity) : Prop where
  /-- It stands at the path that is declared. -/
  path : d.path = e.path
  /-- It is a namespace unless a constant or a method is declared. -/
  shape : e.shape = .namespace ↔ d.kind ≠ .constant ∧ d.kind ≠ .method
  /-- A namespace belongs to the one around its path. -/
  home : e.shape = .namespace → e.home = (split e.path).1
  /-- A placeholder is made where there is no namespace. -/
  placeholder : d.kind = .placeholder →
    e = .placeholder (split e.path).1 (split e.path).2 ∧
      ∀ known, s.find? e.path = some known → known.shape ≠ .namespace

/-- A class or module is made for its declaration. -/
theorem makes_of_split {d : Declaration} (hkind : d.kind = .classSpace ∨ d.kind = .moduleSpace)
    (hp : beginsWith "::" d.path = false) {e : Entity} {m : Members} (hm : e.members? = some m)
    (hroot : e.kind.name ≠ "root") (hhome : e.home = (split d.path).1)
    (hname : e.name = (split d.path).2) : s.Makes d e := by
  have hpath : e.path = d.path := by
    rw [Entity.path_of_members? hm hroot, hhome, hname, join_split hp]
  have hshape := e.isNamespace_iff.mp ⟨m, hm⟩
  refine ⟨hpath.symm, ?_, fun _ => by rw [hpath, hhome], fun h => ?_⟩
  · rcases hkind with hk | hk <;> simp [hk, hshape]
  · rw [h] at hkind
    rcases hkind with hk | hk <;> cases hk

/-- Whatever is registered is registered for a declaration. -/
theorem Registers.exists_makes {D : Declaration → Prop} {e : Entity}
    (hD : ∀ d, D d → d.kind ≠ .constant → d.kind ≠ .method → beginsWith "::" d.path = false)
    (he : s.Registers D e) : ∃ d, D d ∧ s.Makes d e := by
  cases he with
  | @method _ d hd hkind he =>
    obtain ⟨parameters, hshape⟩ := e.isMethod_iff.mp he.isMethod
    refine ⟨d, hd, he.path.symm, ?_, ?_, ?_⟩ <;> simp [hshape, hkind]
  | @constant _ d value hd hkind he hpath hhome =>
    have hshape : e.shape = .constant := by rw [Entity.shape, he]
    refine ⟨d, hd, hpath.symm, ?_, ?_, ?_⟩ <;> simp [hshape, hkind]
  | @placeholder d hd hkind hmissing =>
    have hp := hD d hd (by rw [hkind]; decide) (by rw [hkind]; decide)
    have hpath := path_placeholder hp
    refine ⟨d, hd, hpath.symm, by rw [hkind]; simp [Entity.placeholder, Entity.shape],
      fun _ => by rw [hpath]; rfl, fun _ => ⟨by rw [hpath], fun known hfind hshape => ?_⟩⟩
    rw [hpath] at hfind
    obtain ⟨m, hm⟩ := known.isNamespace_iff.mpr hshape
    rw [hmissing known hfind] at hm
    cases hm
  | @moduleSpace _ d hd hkind hhome hname he hnew =>
    have hp := hD d hd (by rw [hkind]; decide) (by rw [hkind]; decide)
    have hm : e.members? = some {} := by rw [Entity.members?, he, EntityKind.members?]
    exact ⟨d, hd, makes_of_split (.inr hkind) hp hm (by rw [he, EntityKind.name]; decide) hhome hname⟩
  | @classSpace _ d superclass hd hkind hhome hname he hnew =>
    have hp := hD d hd (by rw [hkind]; decide) (by rw [hkind]; decide)
    have hm : e.members? = some (inheritedMembers (s.find? d.path)) := by
      rw [Entity.members?, he, EntityKind.members?]
    exact ⟨d, hd, makes_of_split (.inl hkind) hp hm (by rw [he, EntityKind.name]; decide) hhome hname⟩

end Store

/-! ### Room -/

/-- A declaration that leaves room for a namespace at a path. -/
structure Declaration.LeavesRoom (d : Declaration) (path : String) : Prop where
  /-- It is not at the empty path. -/
  ne_empty : d.path ≠ ""
  /-- A class or module has a path that does not begin with the separator. -/
  anchored : d.kind ≠ .constant → d.kind ≠ .method → beginsWith "::" d.path = false
  /-- No constant and no method is declared at the path. -/
  free : d.path = path → d.kind ≠ .constant ∧ d.kind ≠ .method

namespace Store

/-- A store where a namespace stands at a path or may come to stand there. -/
structure HasRoomAt (s : Store) (path : String) : Prop where
  /-- Entities stand under their paths. -/
  isKeyed : s.IsKeyed
  /-- A namespace stands at the root. -/
  root : s.shapeAt "" = some .namespace
  /-- Nothing but a namespace stands at the path. -/
  free : ∀ e, s.find? path = some e → e.shape = .namespace
  /-- A namespace stands there if one stands further in. -/
  inner : ∀ q, s.shapeAt q = some .namespace → path ∈ lineage q → s.shapeAt path = some .namespace

namespace HasRoomAt

variable {s s' : Store} {path : String} (h : s.HasRoomAt path)

include h

/-- There is room still after entities were changed in place. -/
theorem of_find? (hk : s'.IsKeyed) {f : String → Entity → Entity}
    (hfind : ∀ q, s'.find? q = (s.find? q).map (f q))
    (hf : ∀ q e, (f q e).shape = .namespace ↔ e.shape = .namespace) : s'.HasRoomAt path := by
  have hshape : ∀ q, s'.shapeAt q = some .namespace ↔ s.shapeAt q = some .namespace := by
    intro q
    rw [shapeAt, hfind, shapeAt]
    cases s.find? q with
    | none => rfl
    | some e => simp only [Option.map_some, Option.some.injEq, hf]
  refine ⟨hk, (hshape "").mpr h.root, fun e he => ?_, fun q hq hway => ?_⟩
  · rw [hfind] at he
    obtain ⟨known, hknown, rfl⟩ := Option.map_eq_some_iff.mp he
    exact (hf path known).mpr (h.free known hknown)
  · exact (hshape path).mpr (h.inner q ((hshape q).mp hq) hway)

theorem modify (target : String) {f : Entity → Entity} (hf : ∀ e, Entity.IsEdited e (f e)) :
    (s.modify target f).HasRoomAt path := by
  refine h.of_find? (h.isKeyed.modify fun e => (hf e).path)
    (fun q => find?_modify_eq s target f q) fun q e => ?_
  split
  · exact (hf e).shape_iff
  · rfl

/-- There is room still after something was registered that leaves it. -/
theorem attach {d : Declaration} (hd : d.LeavesRoom path) {e : Entity} (he : s.Makes d e)
    (ha : s.attach e = .ok s') : s'.HasRoomAt path := by
  have hne : e.path ≠ "" := he.path ▸ hd.ne_empty
  have hshape := shapeAt_attach_eq ha hne
  have hspace : path = e.path → e.shape = .namespace := fun hp =>
    he.shape.mpr (hd.free (he.path.trans hp.symm))
  refine ⟨h.isKeyed.attach ha, ?_, fun known hknown => ?_, fun q hq hway => ?_⟩
  · rw [hshape, if_neg fun hroot => hne hroot.symm, h.root]
  · have hat : s'.shapeAt path = some known.shape := by rw [shapeAt, hknown, Option.map_some]
    rw [hshape] at hat
    split at hat
    · next hp =>
      rw [← Option.some.inj hat]
      exact hspace hp
    · obtain ⟨e', hfind, hsame⟩ := Option.map_eq_some_iff.mp hat
      rw [← hsame]
      exact h.free e' hfind
  · rw [hshape]
    by_cases hp : path = e.path
    · rw [if_pos hp, hspace hp]
    · rw [if_neg hp]
      rw [hshape] at hq
      by_cases hqe : q = e.path
      · -- The namespace that is registered belongs to one that the path is around too.
        rw [if_pos hqe] at hq
        obtain ⟨home, m, hfind, hm, -⟩ := (attach_eq_ok_iff s s' e).mp ha
        have hat : s.shapeAt e.home = some .namespace := by
          rw [shapeAt, hfind, Option.map_some, home.isNamespace_iff.mp ⟨m, hm⟩]
        rw [hqe, lineage_of_ne hne, ← he.home (Option.some.inj hq)] at hway
        exact h.inner _ hat ((List.mem_cons.mp hway).resolve_left hp)
      · rw [if_neg hqe] at hq
        exact h.inner q hq hway

end HasRoomAt

variable {D : Declaration → Prop} {s s' : Store} {path : String}

theorem HasRoomAt.change (h : s.HasRoomAt path) (hD : ∀ d, D d → d.LeavesRoom path)
    (hc : Change D s s') : s'.HasRoomAt path := by
  cases hc with
  | register he ha =>
    obtain ⟨d, hd, hmakes⟩ := he.exists_makes fun d hd => (hD d hd).anchored
    exact h.attach (hD d hd) hmakes ha
  | edit target hf => exact h.modify target (Entity.isEdited_of_method hf)
  | reopen _ _ hf => exact h.modify _ hf
  | slots handle scope name _ =>
    refine h.of_find? (h.isKeyed.editMembers _ _) (fun q => find?_editMembers_eq s handle _ q)
      fun q e => ?_
    split
    · rw [Entity.shape_mapMembers]
    · rfl

/-- A row of changes by declarations that leave room for a namespace leaves room. -/
theorem HasRoomAt.changes (h : s.HasRoomAt path) (hD : ∀ d, D d → d.LeavesRoom path)
    (hc : Changes D s s') : s'.HasRoomAt path := by
  induction hc with
  | refl => exact h
  | tail _ hlast ih => exact ih.change hD hlast

/-- Editing methods leaves the namespace at a path. -/
theorem HasRoomAt.bareAt_editMethod (h : s.HasRoomAt path) (target : String)
    (f : Entity → Entity) : (s.editMethod target f).bareAt path = s.bareAt path := by
  rw [bareAt, find?_editMethod, bareAt]
  split
  · cases hfind : s.find? path with
    | none => rfl
    | some e =>
      rw [Option.map_some, Entity.isMethod_of_shape (h.free e hfind), if_neg Bool.false_ne_true]
  · rfl

/-- Changes that declare no more than a placeholder at a path leave what stands there, or
make the placeholder if it was missing. -/
theorem bareAt_changes (h : s.HasRoomAt path)
    (hD : ∀ d, D d → d.LeavesRoom path ∧ (d.path = path → d.kind = .placeholder))
    (hc : Changes D s s') :
    s'.bareAt path = s.bareAt path ∨
      (∃ d, D d ∧ d.path = path) ∧ s.bareAt path = none ∧
        s'.bareAt path = some (.placeholder (split path).1 (split path).2) := by
  induction hc with
  | refl => exact .inl rfl
  | @tail s₁ s₂ hfirst hlast ih =>
    have hroom := h.changes (fun d hd => (hD d hd).1) hfirst
    cases hlast with
    | @register _ e he ha =>
      obtain ⟨d, hd, hmakes⟩ := he.exists_makes fun d hd => (hD d hd).1.anchored
      have hne : e.path ≠ "" := hmakes.path ▸ (hD d hd).1.ne_empty
      have hat := bareAt_attach ha hne path
      by_cases hp : path = e.path
      · have hdpath : d.path = path := hmakes.path.trans hp.symm
        obtain ⟨heq, hmissing⟩ := hmakes.placeholder ((hD d hd).2 hdpath)
        rw [← hp] at heq hmissing
        rw [if_pos hp, heq] at hat
        have hnone : s₁.bareAt path = none := by
          cases hfind : s₁.find? path with
          | none => rw [bareAt, hfind, Option.map_none]
          | some known => exact absurd (hroom.free known hfind) (hmissing known hfind)
        rcases ih with hsame | ⟨-, -, hmade⟩
        · exact .inr ⟨⟨d, hd, hdpath⟩, hsame.symm.trans hnone, hat⟩
        · rw [hnone] at hmade
          cases hmade
      · rwa [hat, if_neg hp]
    | edit target hf => rwa [hroom.bareAt_editMethod target _]
    | @reopen d hd hkind f hf =>
      have hne : path ≠ d.path := by
        intro hp
        rw [(hD d hd).2 hp.symm] at hkind
        rcases hkind with hkind | hkind <;> cases hkind
      rwa [bareAt_modify_of_ne hne f]
    | slots handle scope name _ => rwa [bareAt_editMembers s₁ handle _ path]

/-- Changes that declare nothing at a path leave what stands there. -/
theorem bareAt_changes_of_ne (h : s.HasRoomAt path)
    (hD : ∀ d, D d → d.LeavesRoom path ∧ d.path ≠ path) (hc : Changes D s s') :
    s'.bareAt path = s.bareAt path := by
  have hpassed := bareAt_changes h (fun d hd => ⟨(hD d hd).1, fun hp => absurd hp (hD d hd).2⟩) hc
  refine hpassed.resolve_right fun hmade => ?_
  obtain ⟨⟨d, hd, hp⟩, -⟩ := hmade
  exact (hD d hd).2 hp

end Store

end RubyDoc

import RubyDoc.Proofs.Store.Tree
import RubyDoc.Proofs.Walk.Change

/-!
# Declarations that make up a tree

A declaration fits in with those before it and beside it if everything declared at its
path belongs to one namespace, and if it leaves a namespace with members its members: a
constant or a method would take them away, and so would a module that takes the place
of a class. A class takes over the members of what it replaces, so it always may.
Changes by declarations that fit in keep the store a tree.
-/

namespace RubyDoc

open ObjectPath Text

/-- The name of the kind of entity that a declaration makes. -/
def DeclaredKind.made : DeclaredKind → String
  | .placeholder | .moduleSpace => "module"
  | .classSpace => "class"
  | .constant => "constant"
  | .method => "method"

namespace Declaration

/-- The namespace that what is declared belongs to: that of its path for a class or
module, wherever it is written, and for the rest the one it is written in. -/
def owner (d : Declaration) : String :=
  match d.kind with
  | .constant | .method => d.home
  | .placeholder | .moduleSpace | .classSpace => (split d.path).1

/-- A declaration that fits in with others, itself among them. -/
structure FitsIn (declared : List Declaration) (d : Declaration) : Prop where
  /-- Its path is not empty. -/
  path : d.path ≠ ""
  /-- A class or module has a path that does not begin with the separator. -/
  anchored : d.kind ≠ .constant → d.kind ≠ .method → beginsWith "::" d.path = false
  /-- All that is declared at its path belongs to one namespace. -/
  owner : ∀ x ∈ declared, x.path = d.path → x.owner = d.owner
  /-- If anything belongs to it, it is a namespace that keeps its members. -/
  keeps : (∃ x ∈ declared, x.owner = d.path) → d.kind ≠ .constant ∧ d.kind ≠ .method ∧
    (d.kind = .moduleSpace → ∀ x ∈ declared, x.path = d.path → x.kind ≠ .classSpace)

instance (declared : List Declaration) (d : Declaration) : Decidable (d.FitsIn declared) :=
  decidable_of_iff
    (d.path ≠ "" ∧ (d.kind ≠ .constant → d.kind ≠ .method → beginsWith "::" d.path = false) ∧
      (∀ x ∈ declared, x.path = d.path → x.owner = d.owner) ∧
      ((∃ x ∈ declared, x.owner = d.path) → d.kind ≠ .constant ∧ d.kind ≠ .method ∧
        (d.kind = .moduleSpace → ∀ x ∈ declared, x.path = d.path → x.kind ≠ .classSpace)))
    ⟨fun h => ⟨h.1, h.2.1, h.2.2.1, h.2.2.2⟩, fun h => ⟨h.path, h.anchored, h.owner, h.keeps⟩⟩

end Declaration

/-! ### Entities that are changed -/

namespace Entity

@[simp] theorem name_mapMembers (f : Members → Members) (e : Entity) :
    (e.mapMembers f).kind.name = e.kind.name := by
  unfold mapMembers
  cases e.kind <;> rfl

/-- Members with the same children make no other children. -/
theorem children_mapMembers {f : Members → Members} (hf : ∀ m, (f m).children = m.children)
    (e : Entity) : (e.mapMembers f).children = e.children := by
  have hmembers := members?_mapMembers f e
  cases hm : e.members? with
  | none =>
    rw [hm] at hmembers
    rw [children_eq_nil hmembers, children_eq_nil hm]
  | some m =>
    rw [hm] at hmembers
    rw [children_eq hmembers, children_eq hm, hf]

/-- A namespace other than the root stands at the path that its own namespace and its name
make. -/
theorem path_of_members? {e : Entity} {m : Members} (hm : e.members? = some m)
    (hroot : e.kind.name ≠ "root") : e.path = join e.home e.name := by
  rw [path]
  rw [members?] at hm
  revert hm hroot
  cases e.kind <;> simp [EntityKind.members?, EntityKind.name]

theorem IsEdited.children {e e' : Entity} (h : e.IsEdited e') : e'.children = e.children := by
  rw [Entity.children, h.members, Entity.children]

end Entity

/-- A namespace that adopts a child lists it behind the others, unless it does already. -/
theorem Members.children_adopt (m : Members) (path : String) :
    (m.adopt path).children =
      if path ∈ m.children then m.children else m.children ++ [path] := by
  rw [adopt]
  simp only [List.contains_iff_mem]
  split <;> rfl

namespace Store

variable {s s' : Store}

section Attach

variable {e : Entity} (ha : s.attach e = .ok s') (hne : e.path ≠ "")

include ha hne

/-- Registering changes what belongs to what at one path only. -/
theorem homeAt_attach (q : String) :
    s'.homeAt q = if q = e.path then some e.home else s.homeAt q := by
  rw [homeAt, find?_attach ha (Entity.path_ne_home hne)]
  split
  · rfl
  · split
    · rw [Option.map_map]
      rfl
    · rfl

/-- Registering an entity that lists what was listed at its path has it listed by its
namespace, and changes no other list. -/
theorem childrenAt_attach (hsame : e.children = s.childrenAt e.path) (q : String) :
    s'.childrenAt q =
      if q = e.home ∧ e.path ∉ s.childrenAt q then s.childrenAt q ++ [e.path]
      else s.childrenAt q := by
  have hhome := Entity.path_ne_home hne
  rw [childrenAt, find?_attach ha hhome]
  by_cases hq : q = e.path
  · have hnumbered : (s.numbered e).children = e.children :=
      Entity.children_mapMembers (by intro _; rfl) e
    rw [if_pos hq, if_neg (by rw [hq]; exact fun h => hhome h.1), Option.map_some,
      Option.getD_some, hnumbered, hsame, hq]
  · rw [if_neg hq]
    by_cases hqh : q = e.home
    · obtain ⟨home, m, hfind, hm, -⟩ := (attach_eq_ok_iff s s' e).mp ha
      subst hqh
      have hadopted := Entity.members?_mapMembers (fun m => m.adopt e.path) home
      rw [hm] at hadopted
      rw [if_pos rfl, hfind, Option.map_some, Option.map_some, Option.getD_some,
        Entity.children_eq hadopted, Members.children_adopt, childrenAt_eq hfind,
        Entity.children_eq hm]
      by_cases hlisted : e.path ∈ m.children
      · rw [if_pos hlisted, if_neg fun h => h.2 hlisted]
      · rw [if_neg hlisted, if_pos ⟨rfl, hlisted⟩]
    · rw [if_neg hqh, if_neg fun h => hqh h.1, childrenAt]

end Attach

/-- A tree in which everything but the root was declared where it stands, for the
namespace that it belongs to and as what it is. -/
structure IsTreeOf (declared : List Declaration) (s : Store) : Prop extends s.IsTree where
  /-- Everything but the root was declared. -/
  declared : ∀ p e, p ≠ "" → s.find? p = some e →
    ∃ d ∈ declared, d.path = p ∧ d.owner = e.home ∧ d.kind.made = e.kind.name

namespace IsTreeOf

variable {declared more : List Declaration} {D : Declaration → Prop}

theorem mono (h : s.IsTreeOf declared) (hsub : ∀ d ∈ declared, d ∈ more) : s.IsTreeOf more := by
  refine ⟨h.toIsTree, fun p e hne hfind => ?_⟩
  obtain ⟨d, hd, hp⟩ := h.declared p e hne hfind
  exact ⟨d, hsub d hd, hp⟩

/-- If anything is listed at a path but the empty one, something is declared for the
namespace there. -/
theorem exists_owner (h : s.IsTreeOf declared) {c path : String} (hc : c ∈ s.childrenAt path) :
    ∃ x ∈ declared, x.owner = path := by
  obtain ⟨hne, hhome⟩ := h.children path c hc
  obtain ⟨child, hchild, rfl⟩ := Option.map_eq_some_iff.mp hhome
  obtain ⟨x, hx, -, howner, -⟩ := h.declared c child hne hchild
  exact ⟨x, hx, howner⟩

/-- Nothing is listed where a declaration keeps no members. -/
theorem childrenAt_eq_nil (h : s.IsTreeOf declared) {d : Declaration} (hd : d.FitsIn declared)
    (hkind : d.kind = .constant ∨ d.kind = .method) : s.childrenAt d.path = [] := by
  refine List.eq_nil_iff_forall_not_mem.mpr fun c hc => ?_
  obtain ⟨hconstant, hmethod, -⟩ := hd.keeps (h.exists_owner hc)
  exact hkind.elim hconstant hmethod

/-- What fits in with the declarations belongs to no other namespace than what it
replaces. -/
theorem eq_of_homeAt (h : s.IsTreeOf declared) {d : Declaration} (hd : d.FitsIn declared)
    {home : String} (hhome : s.homeAt d.path = some home) : home = d.owner := by
  obtain ⟨e, hfind, rfl⟩ := Option.map_eq_some_iff.mp hhome
  obtain ⟨x, hx, hpath, howner, -⟩ := h.declared d.path e hd.path hfind
  rw [← howner]
  exact hd.owner x hx hpath

end IsTreeOf

/-! ### Registering in a tree -/

/-- What is registered without harm to a tree: it is declared as what it is, belongs to the
namespace of what it replaces, and lists what that has listed. -/
structure Replaces (declared : List Declaration) (s : Store) (e : Entity) : Prop where
  /-- It does not stand at the root. -/
  path : e.path ≠ ""
  /-- It is declared. -/
  declared : ∃ d ∈ declared, d.path = e.path ∧ d.owner = e.home ∧ d.kind.made = e.kind.name
  /-- It belongs to the namespace of what stands at its path. -/
  home : ∀ home, s.homeAt e.path = some home → home = e.home
  /-- It lists what is listed at its path. -/
  children : e.children = s.childrenAt e.path

namespace IsTreeOf

variable {declared : List Declaration} (h : s.IsTreeOf declared) {d : Declaration} {e : Entity}

include h

/-- What a declaration that fits in makes, the list of children being the one at its path,
may be registered. -/
theorem replaces (hd : d ∈ declared) (hfit : d.FitsIn declared) (hpath : e.path = d.path)
    (howner : d.owner = e.home) (hmade : d.kind.made = e.kind.name)
    (hchildren : e.children = s.childrenAt d.path) : s.Replaces declared e := by
  refine ⟨hpath ▸ hfit.path, ⟨d, hd, hpath.symm, howner, hmade⟩, fun home hhome => ?_, ?_⟩
  · rw [hpath] at hhome
    rw [← howner]
    exact h.eq_of_homeAt hfit hhome
  · rw [hpath]
    exact hchildren

/-- A method may be registered, be it new or at hand. -/
theorem replaces_method (hd : d ∈ declared) (hfit : d.FitsIn declared) (hkind : d.kind = .method)
    (he : s.IsMethodFor d e) : s.Replaces declared e := by
  have hname := (Entity.isMethod_iff_name e).mp he.isMethod
  have hchildren : e.children = s.childrenAt d.path := by
    have hm : e.members? = none := by
      rw [Entity.members?]
      revert hname
      cases e.kind <;> simp [EntityKind.members?, EntityKind.name]
    rw [h.childrenAt_eq_nil hfit (.inr hkind), Entity.children_eq_nil hm]
  rcases he.home with hhome | ⟨known, hfind, hknown, hhome⟩
  · refine h.replaces hd hfit he.path ?_ ?_ hchildren
    · rw [Declaration.owner, hkind, hhome]
    · rw [hkind, hname]
      rfl
  · have hne : e.path ≠ "" := he.path ▸ hfit.path
    obtain ⟨x, hx, hpath, howner, hmade⟩ := h.declared e.path known hne hfind
    refine ⟨hne, ⟨x, hx, hpath, howner.trans hhome, ?_⟩, fun home hat => ?_, he.path ▸ hchildren⟩
    · rw [hmade, (Entity.isMethod_iff_name known).mp hknown, hname]
    · rw [homeAt, hfind, Option.map_some, Option.some.injEq] at hat
      rw [← hat, hhome]

/-- Nothing is listed where a module is to stand that replaces no module. -/
theorem childrenAt_of_moduleSpace (hfit : d.FitsIn declared) (hkind : d.kind = .moduleSpace)
    (hnew : (s.find? d.path).any Entity.isModule = false) : s.childrenAt d.path = [] := by
  refine List.eq_nil_iff_forall_not_mem.mpr fun c hc => ?_
  obtain ⟨-, -, hkeeps⟩ := hfit.keeps (h.exists_owner hc)
  obtain ⟨known, hknown⟩ := exists_of_mem_childrenAt hc
  obtain ⟨x, hx, hpath, -, hmade⟩ := h.declared d.path known hfit.path hknown
  -- It is a namespace, for it has children, but it is no module, and nothing declares a root.
  have hclass : x.kind = .classSpace := by
    rw [hknown, Option.any_some, Entity.isModule] at hnew
    rw [childrenAt_eq hknown, Entity.children, Entity.members?] at hc
    revert hmade hnew hc
    cases known.kind <;> cases x.kind <;>
      simp [DeclaredKind.made, EntityKind.name, EntityKind.members?]
  exact hkeeps hkind x hx hpath hclass

omit h in
/-- A class takes over what is listed at its path. -/
theorem children_inheritedMembers (path : String) :
    (inheritedMembers (s.find? path)).children = s.childrenAt path := by
  rw [inheritedMembers, childrenAt]
  cases s.find? path with
  | none => rfl
  | some e =>
    rw [Option.bind_some, Option.map_some, Option.getD_some]
    cases hm : e.members? with
    | none =>
      rw [Entity.children_eq_nil hm]
      rfl
    | some m =>
      rw [Entity.children_eq hm]
      rfl

/-- A constant may be registered; nothing is listed where it is to stand. -/
theorem replaces_constant (hd : d ∈ declared) (hfit : d.FitsIn declared) (hkind : d.kind = .constant)
    {value : String} (he : e.kind = .constant value) (hpath : e.path = d.path)
    (hhome : e.home = d.home) : s.Replaces declared e := by
  have hm : e.members? = none := by
    rw [Entity.members?, he]
    rfl
  refine h.replaces hd hfit hpath ?_ ?_ ?_
  · rw [Declaration.owner, hkind, hhome]
  · rw [hkind, he]
    rfl
  · rw [h.childrenAt_eq_nil hfit (.inl hkind), Entity.children_eq_nil hm]

/-- A class, module or placeholder may be registered, if it lists what is listed at its
path. -/
theorem replaces_namespace (hd : d ∈ declared) (hfit : d.FitsIn declared)
    (hkind : d.kind ≠ .constant ∧ d.kind ≠ .method) (hmade : d.kind.made = e.kind.name)
    {m : Members} (hm : e.members? = some m) (hhome : e.home = (split d.path).1)
    (hname : e.name = (split d.path).2) (hchildren : m.children = s.childrenAt d.path) :
    s.Replaces declared e := by
  have hroot : e.kind.name ≠ "root" := by
    rw [← hmade]
    cases d.kind <;> decide
  refine h.replaces hd hfit ?_ ?_ hmade ?_
  · rw [Entity.path_of_members? hm hroot, hhome, hname]
    exact join_split (hfit.anchored hkind.1 hkind.2)
  · rw [Declaration.owner, hhome]
    revert hkind
    cases d.kind <;> simp
  · rw [Entity.children_eq hm, hchildren]

/-- Whatever declarations that fit in register may be registered. -/
theorem replaces_of_registers {D : Declaration → Prop}
    (hD : ∀ d, D d → d ∈ declared ∧ d.FitsIn declared) (he : s.Registers D e) :
    s.Replaces declared e := by
  cases he with
  | method hd hkind he => exact h.replaces_method (hD _ hd).1 (hD _ hd).2 hkind he
  | constant hd hkind he hpath hhome =>
    exact h.replaces_constant (hD _ hd).1 (hD _ hd).2 hkind he hpath hhome
  | @placeholder d hd hkind hmissing =>
    refine h.replaces_namespace (hD d hd).1 (hD d hd).2 (by rw [hkind]; decide) ?_ rfl rfl rfl ?_
    · rw [hkind]
      rfl
    · rw [childrenAt]
      cases hfind : s.find? d.path with
      | none => rfl
      | some known =>
        rw [Option.map_some, Option.getD_some, Entity.children_eq_nil (hmissing known hfind)]
  | @moduleSpace _ d hd hkind hhome hname he hnew =>
    have hm : e.members? = some {} := by
      rw [Entity.members?, he]
      rfl
    refine h.replaces_namespace (hD d hd).1 (hD d hd).2 (by rw [hkind]; decide) ?_ hm hhome hname ?_
    · rw [hkind, he]
      rfl
    · rw [h.childrenAt_of_moduleSpace (hD d hd).2 hkind hnew]
  | @classSpace _ d superclass hd hkind hhome hname he hnew =>
    have hm : e.members? = some (inheritedMembers (s.find? d.path)) := by
      rw [Entity.members?, he]
      rfl
    refine h.replaces_namespace (hD d hd).1 (hD d hd).2 (by rw [hkind]; decide) ?_ hm hhome hname ?_
    · rw [hkind, he]
      rfl
    · rw [children_inheritedMembers]

/-- Registering what may be registered keeps a tree. -/
theorem attach (he : s.Replaces declared e) (ha : s.attach e = .ok s') : s'.IsTreeOf declared := by
  have hne := he.path
  have hpath := Entity.path_ne_home hne
  have hfind := find?_attach ha hpath
  have hhomes := homeAt_attach ha hne
  have hlists := childrenAt_attach ha hne he.children
  -- Every list keeps what was in it.
  have hkept : ∀ p, ∀ c ∈ s.childrenAt p, c ∈ s'.childrenAt p := by
    intro p c hc
    rw [hlists]
    split
    · exact List.mem_append_left _ hc
    · exact hc
  refine ⟨⟨h.isKeyed.attach ha, ?_, ?_, fun p home hp hhome => ?_, fun p => ?_, fun p c hc => ?_⟩,
    fun p x hp hx => ?_⟩
  · obtain ⟨root, m, hroot, hm⟩ := h.root
    rw [hfind, if_neg fun heq => hne heq.symm, hroot]
    split
    · refine ⟨_, m.adopt e.path, rfl, ?_⟩
      rw [Entity.members?_mapMembers, hm, Option.map_some]
    · exact ⟨root, m, rfl, hm⟩
  · rw [formerRoot_attach ha hpath hne, h.formerRoot]
  · rw [hhomes] at hhome
    split at hhome
    · next hpe =>
      rw [hpe, ← Option.some.inj hhome, hlists]
      by_cases hlisted : e.path ∈ s.childrenAt e.home
      · rwa [if_neg fun hnew => hnew.2 hlisted]
      · rw [if_pos ⟨rfl, hlisted⟩]
        exact List.mem_append_right _ (List.mem_singleton_self _)
    · exact hkept home p (h.listed p home hp hhome)
  · rw [hlists]
    split
    · next hnew =>
      rw [List.nodup_append]
      refine ⟨h.nodup p, by simp, fun c hc c' hc' heq => hnew.2 ?_⟩
      rwa [← List.mem_singleton.mp hc', ← heq]
    · exact h.nodup p
  · have hlisted : c ∈ s.childrenAt p ∨ c = e.path ∧ p = e.home := by
      rw [hlists] at hc
      split at hc
      · next hnew =>
        exact (List.mem_append.mp hc).imp_right fun hlast => ⟨List.mem_singleton.mp hlast, hnew.1⟩
      · exact .inl hc
    rw [hhomes]
    rcases hlisted with hold | ⟨rfl, rfl⟩
    · obtain ⟨hc, hhome⟩ := h.children p c hold
      refine ⟨hc, ?_⟩
      split
      · next hce =>
        rw [hce] at hhome
        rw [he.home p hhome]
      · exact hhome
    · exact ⟨hne, if_pos rfl⟩
  · rw [hfind] at hx
    split at hx
    · next hpe =>
      obtain ⟨d, hd, hdpath, howner, hmade⟩ := he.declared
      rw [← Option.some.inj hx, hpe, numbered, Entity.home_mapMembers, Entity.name_mapMembers]
      exact ⟨d, hd, hdpath, howner, hmade⟩
    · split at hx
      · obtain ⟨known, hknown, rfl⟩ := Option.map_eq_some_iff.mp hx
        rw [Entity.home_mapMembers, Entity.name_mapMembers]
        exact h.declared p known hp hknown
      · exact h.declared p x hp hx

/-- Changing entities in place keeps a tree, if they keep their namespaces, their kinds and
their children. -/
theorem of_find? (hk : s'.IsKeyed) (hformer : s'.formerRoot = none)
    {f : String → Entity → Entity} (hfind : ∀ p, s'.find? p = (s.find? p).map (f p))
    (hf : ∀ p e, (f p e).home = e.home ∧ (f p e).kind.name = e.kind.name ∧
      (f p e).children = e.children) : s'.IsTreeOf declared := by
  have hlists : ∀ p, s'.childrenAt p = s.childrenAt p := by
    intro p
    rw [childrenAt, hfind, Option.map_map, childrenAt]
    congr 2
    exact funext fun e => (hf p e).2.2
  have hhomes : ∀ p, s'.homeAt p = s.homeAt p := by
    intro p
    rw [homeAt, hfind, Option.map_map, homeAt]
    congr 1
    exact funext fun e => (hf p e).1
  refine ⟨⟨hk, ?_, hformer, fun p home hp hhome => ?_, fun p => ?_, fun p c hc => ?_⟩,
    fun p x hp hx => ?_⟩
  · obtain ⟨root, m, hroot, hm⟩ := h.root
    have hkind := (hf "" root).2.1
    refine ⟨f "" root, ?_⟩
    rw [hfind, hroot, Option.map_some]
    rw [Entity.members?] at hm ⊢
    revert hm hkind
    cases root.kind <;> cases (f "" root).kind <;> simp [EntityKind.members?, EntityKind.name]
  · rw [hlists]
    exact h.listed p home hp (hhomes p ▸ hhome)
  · rw [hlists]
    exact h.nodup p
  · rw [hhomes]
    exact h.children p c (hlists p ▸ hc)
  · rw [hfind] at hx
    obtain ⟨known, hknown, rfl⟩ := Option.map_eq_some_iff.mp hx
    rw [(hf p known).1, (hf p known).2.1]
    exact h.declared p known hp hknown

/-- Editing an entity in place keeps a tree. -/
theorem modify (path : String) {f : Entity → Entity} (hf : ∀ e, Entity.IsEdited e (f e)) :
    (s.modify path f).IsTreeOf declared := by
  refine h.of_find? (h.isKeyed.modify fun e => (hf e).path) h.formerRoot
    (fun p => find?_modify_eq s path f p) fun p e => ?_
  split
  · exact ⟨(hf e).home, (hf e).kind, (hf e).children⟩
  · exact ⟨rfl, rfl, rfl⟩

/-- Changing members of a namespace other than the children keeps a tree. -/
theorem editMembers (handle : Handle) {f : Members → Members}
    (hf : ∀ m, (f m).children = m.children) : (s.editMembers handle f).IsTreeOf declared := by
  refine h.of_find? (h.isKeyed.editMembers _ _) ?_ (fun p => find?_editMembers_eq s handle f p)
    fun p e => ?_
  · rw [Store.editMembers]
    split
    · exact h.formerRoot
    · rw [h.formerRoot]
      exact h.formerRoot
  · split
    · exact ⟨Entity.home_mapMembers f e, Entity.name_mapMembers f e, Entity.children_mapMembers hf e⟩
    · exact ⟨rfl, rfl, rfl⟩

/-- One change by declarations that fit in keeps a tree. -/
theorem change {D : Declaration → Prop} (hD : ∀ d, D d → d ∈ declared ∧ d.FitsIn declared)
    (hc : Change D s s') : s'.IsTreeOf declared := by
  cases hc with
  | register he ha => exact h.attach (h.replaces_of_registers hD he) ha
  | edit path hf => exact h.modify path (Entity.isEdited_of_method hf)
  | reopen _ _ hf => exact h.modify _ hf
  | slots handle scope name hslots =>
    refine h.editMembers handle fun m => ?_
    cases scope <;> rfl

theorem changes {D : Declaration → Prop} (hD : ∀ d, D d → d ∈ declared ∧ d.FitsIn declared)
    (hc : Changes D s s') : s'.IsTreeOf declared := by
  induction hc with
  | refl => exact h
  | tail _ hlast ih => exact ih.change hD hlast

end IsTreeOf

end Store

end RubyDoc

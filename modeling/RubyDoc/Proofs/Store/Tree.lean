import Mathlib.Data.List.Count
import Mathlib.Data.List.Nodup
import Mathlib.Logic.Relation
import RubyDoc.Proofs.ObjectPath
import RubyDoc.Proofs.Store

/-!
# Stores that are trees

In a store that is a tree every entity but the root is listed by its own namespace and
by no other. The paths get longer from a namespace to its members, so that nothing
leads back to itself. Following the lists of children from the root then comes by
every entity exactly once, and comes to an end. Why the store of a run is a tree is
not said here.
-/

namespace RubyDoc

/-- The paths that an entity lists as its children; none but for a namespace. -/
def Entity.children (e : Entity) : List String := (e.members?.map Members.children).getD []

theorem Entity.children_eq {e : Entity} {m : Members} (h : e.members? = some m) :
    e.children = m.children := by
  rw [children, h, Option.map_some, Option.getD_some]

theorem Entity.children_eq_nil {e : Entity} (h : e.members? = none) : e.children = [] := by
  rw [children, h, Option.map_none, Option.getD_none]

namespace Store

/-- The children that are listed at a path. -/
def childrenAt (s : Store) (path : String) : List String :=
  ((s.find? path).map Entity.children).getD []

/-- The namespace that what stands at a path belongs to. -/
def homeAt (s : Store) (path : String) : Option String := (s.find? path).map Entity.home

/-- A store in which the lists of children make up a tree. -/
structure IsTree (s : Store) : Prop where
  /-- Entities stand under their paths. -/
  isKeyed : s.IsKeyed
  /-- A namespace stands at the empty path. -/
  root : ∃ e m, s.find? "" = some e ∧ e.members? = some m
  /-- It is the first one. -/
  formerRoot : s.formerRoot = none
  /-- Every other entity is listed by its namespace. -/
  listed : ∀ p home, p ≠ "" → s.homeAt p = some home → p ∈ s.childrenAt home
  /-- No child is listed twice. -/
  nodup : ∀ p, (s.childrenAt p).Nodup
  /-- What a namespace lists belongs to it. -/
  children : ∀ p, ∀ c ∈ s.childrenAt p, c ≠ "" ∧ s.homeAt c = some p

/-- Whether what stands at a path, not the empty one, belongs to the namespace at another. -/
def BelongsTo (s : Store) (p home : String) : Prop := p ≠ "" ∧ s.homeAt p = some home

/-- The entities below a namespace, each in front of those below it. The number bounds the
depth. -/
def below (s : Store) : Nat → String → Except Fault (List Entity)
  | 0, _ => .error .endless
  | depth + 1, path => do
    let children ← s.childrenOf path
    let found ← children.mapM fun child =>
      if child.isNamespace then (s.below depth child.path).map (child :: ·) else .ok [child]
    return found.flatten

variable {s : Store}

/-- Children are listed where something stands. -/
theorem exists_of_mem_childrenAt {c path : String} (h : c ∈ s.childrenAt path) :
    ∃ e, s.find? path = some e := by
  rw [childrenAt] at h
  cases hf : s.find? path with
  | none =>
    rw [hf] at h
    cases h
  | some e => exact ⟨e, rfl⟩

/-- What a namespace lists. -/
theorem childrenAt_eq {path : String} {e : Entity} (hfind : s.find? path = some e) :
    s.childrenAt path = e.children := by
  rw [childrenAt, hfind, Option.map_some, Option.getD_some]

/-- Nothing belongs to two namespaces. -/
theorem rightUnique_belongsTo (s : Store) : Relator.RightUnique s.BelongsTo := by
  rintro p home home' ⟨-, h⟩ ⟨-, h'⟩
  rw [h] at h'
  exact Option.some.inj h'

namespace IsTree

variable (h : s.IsTree)

include h

/-- What belongs to a namespace has a longer path. -/
theorem length_lt_of_belongsTo {p home : String} (hp : s.BelongsTo p home) :
    home.length < p.length := by
  obtain ⟨hne, hhome⟩ := hp
  obtain ⟨e, hfind, rfl⟩ := Option.map_eq_some_iff.mp hhome
  have hpath := h.isKeyed.path p e hfind
  rw [← hpath] at hne ⊢
  exact Entity.length_home_lt hne

theorem length_le_of_chain {p q : String} (hp : Relation.ReflTransGen s.BelongsTo p q) :
    q.length ≤ p.length := by
  induction hp with
  | refl => exact Nat.le_refl _
  | tail _ hlast ih =>
    have hlt := h.length_lt_of_belongsTo hlast
    omega

/-- Two members of one namespace are the same if something is below both. -/
theorem eq_of_chains {p c c' home : String} (hc : s.BelongsTo c home) (hc' : s.BelongsTo c' home)
    (hp : Relation.ReflTransGen s.BelongsTo p c) (hp' : Relation.ReflTransGen s.BelongsTo p c') :
    c = c' := by
  -- Of two paths on one chain one is below the other, and then so is its namespace.
  have hsame : ∀ {c c' : String}, s.BelongsTo c home → s.BelongsTo c' home →
      Relation.ReflTransGen s.BelongsTo c c' → c = c' := by
    intro c c' hc hc' hchain
    rcases Relation.ReflTransGen.cases_head hchain with heq | ⟨next, hfirst, hrest⟩
    · exact heq
    · rw [s.rightUnique_belongsTo hfirst hc] at hrest
      have hle := h.length_le_of_chain hrest
      have hlt := h.length_lt_of_belongsTo hc'
      omega
  rcases hp.total_of_right_unique s.rightUnique_belongsTo hp' with hchain | hchain
  · exact hsame hc hc' hchain
  · exact (hsame hc' hc hchain).symm

/-- Every entity but the root is below the root. -/
theorem chain_to_root {p : String} {e : Entity} (hne : p ≠ "") (hfind : s.find? p = some e) :
    Relation.TransGen s.BelongsTo p "" := by
  induction hn : p.length using Nat.strongRecOn generalizing p e with
  | ind n ih =>
    have hhome : s.homeAt p = some e.home := by rw [homeAt, hfind, Option.map_some]
    have hfirst : s.BelongsTo p e.home := ⟨hne, hhome⟩
    by_cases hroot : e.home = ""
    · rw [hroot] at hfirst
      exact .single hfirst
    · obtain ⟨home, hfound⟩ := exists_of_mem_childrenAt (h.listed p e.home hne hhome)
      exact .head hfirst (ih _ (hn ▸ h.length_lt_of_belongsTo hfirst) hroot hfound rfl)

/-- A namespace lists what belongs to it, and nothing else. -/
theorem mem_childrenAt_iff (c path : String) : c ∈ s.childrenAt path ↔ s.BelongsTo c path :=
  ⟨h.children path c, fun hc => h.listed c path hc.1 hc.2⟩

end IsTree

/-- Whether some entities are those at some paths and below them, each once. -/
structure AreBranches (s : Store) (paths : List String) (es : List Entity) : Prop where
  /-- None is there twice. -/
  nodup : (es.map Entity.path).Nodup
  /-- They are those at the paths and below them. -/
  mem_iff : ∀ e, e ∈ es ↔
    s.find? e.path = some e ∧ ∃ c ∈ paths, Relation.ReflTransGen s.BelongsTo e.path c

namespace IsTree

variable (h : s.IsTree) {c : String} {e : Entity}

theorem areBranches_nil : s.AreBranches [] [] := by
  refine ⟨List.nodup_nil, fun e => ⟨fun he => absurd he List.not_mem_nil, ?_⟩⟩
  rintro ⟨-, c, hc, -⟩
  cases hc

include h

/-- An entity without members is all there is at its path and below it. -/
theorem areBranches_leaf (hfind : s.find? c = some e) (hm : e.members? = none) :
    s.AreBranches [c] [e] := by
  have hpath := h.isKeyed.path c e hfind
  refine ⟨by simp, fun x => ?_⟩
  rw [List.mem_singleton]
  constructor
  · rintro rfl
    rw [hpath]
    exact ⟨hfind, c, List.mem_singleton_self c, .refl⟩
  · rintro ⟨hx, c', hc', hchain⟩
    rw [List.mem_singleton.mp hc'] at hchain
    rcases Relation.ReflTransGen.cases_tail hchain with heq | ⟨y, -, hlast⟩
    · rw [← heq, hfind] at hx
      exact (Option.some.inj hx).symm
    · have hlisted := (h.mem_childrenAt_iff y c).mpr hlast
      rw [childrenAt_eq hfind, Entity.children_eq_nil hm] at hlisted
      cases hlisted

/-- A namespace comes with what is below it. -/
theorem areBranches_node {es : List Entity} (hfind : s.find? c = some e)
    (hes : s.AreBranches (s.childrenAt c) es) :
    s.AreBranches [c] (e :: es) := by
  have hpath := h.isKeyed.path c e hfind
  refine ⟨?_, fun x => ?_⟩
  · rw [List.map_cons, List.nodup_cons]
    refine ⟨fun hmem => ?_, hes.nodup⟩
    obtain ⟨x, hx, heq⟩ := List.mem_map.mp hmem
    obtain ⟨-, child, hchild, hchain⟩ := (hes.mem_iff x).mp hx
    have hlong := h.length_le_of_chain hchain
    have hlonger := h.length_lt_of_belongsTo ((h.mem_childrenAt_iff child c).mp hchild)
    rw [heq, hpath] at hlong
    omega
  · rw [List.mem_cons, hes.mem_iff]
    constructor
    · rintro (rfl | ⟨hx, child, hchild, hchain⟩)
      · rw [hpath]
        exact ⟨hfind, c, List.mem_singleton_self c, .refl⟩
      · have hlast := (h.mem_childrenAt_iff child c).mp hchild
        exact ⟨hx, c, List.mem_singleton_self c, hchain.tail hlast⟩
    · rintro ⟨hx, c', hc', hchain⟩
      rw [List.mem_singleton.mp hc'] at hchain
      rcases Relation.ReflTransGen.cases_tail hchain with heq | ⟨child, hchain, hlast⟩
      · rw [← heq, hfind] at hx
        exact .inl (Option.some.inj hx).symm
      · exact .inr ⟨hx, child, (h.mem_childrenAt_iff child c).mpr hlast, hchain⟩

/-- Different members of one namespace have nothing below them in common. -/
theorem areBranches_cons {home : String} {cs : List String} {es es' : List Entity}
    (hc : s.BelongsTo c home) (hcs : ∀ c' ∈ cs, s.BelongsTo c' home) (hnew : c ∉ cs)
    (hes : s.AreBranches [c] es) (hes' : s.AreBranches cs es') :
    s.AreBranches (c :: cs) (es ++ es') := by
  refine ⟨?_, fun x => ?_⟩
  · rw [List.map_append, List.nodup_append]
    refine ⟨hes.nodup, hes'.nodup, fun p hp q hq heq => hnew ?_⟩
    obtain ⟨x, hx, rfl⟩ := List.mem_map.mp hp
    obtain ⟨y, hy, rfl⟩ := List.mem_map.mp hq
    obtain ⟨-, c₁, hc₁, hchain⟩ := (hes.mem_iff x).mp hx
    obtain ⟨-, c₂, hc₂, hchain'⟩ := (hes'.mem_iff y).mp hy
    rw [List.mem_singleton.mp hc₁] at hchain
    rw [← heq] at hchain'
    rwa [h.eq_of_chains hc (hcs c₂ hc₂) hchain hchain']
  · rw [List.mem_append, hes.mem_iff, hes'.mem_iff, ← and_or_left, List.exists_mem_cons_iff,
      List.exists_mem_cons_iff]
    simp

end IsTree

/-- How many paths are longer than a path. -/
def longer (s : Store) (path : String) : Nat := s.keys.countP fun p => path.length < p.length

/-- Fewer paths are longer than a longer path. -/
theorem longer_lt {p q : String} (hp : p ∈ s.keys) (hlt : q.length < p.length) :
    s.longer p < s.longer q := by
  have hfewer : s.longer p =
      (s.keys.filter fun x => q.length < x.length).countP fun x => p.length < x.length := by
    rw [List.countP_filter, longer]
    refine List.countP_congr fun x _ => ?_
    simp only [decide_eq_true_eq, Bool.and_eq_true]
    omega
  have hall : s.longer q = (s.keys.filter fun x => q.length < x.length).length :=
    List.countP_eq_length_filter
  rw [hfewer, hall, List.countP_lt_length_iff]
  exact ⟨p, List.mem_filter.mpr ⟨hp, by simpa using hlt⟩, by simp⟩

/-- What is found one after the other at members of one namespace are their branches, if what
is found at each is its own. -/
theorem IsTree.exists_mapM (h : s.IsTree) {home : String} {f : Entity → Except Fault (List Entity)}
    (hone : ∀ c : Entity, s.find? c.path = some c → s.BelongsTo c.path home →
      ∃ es, f c = .ok es ∧ s.AreBranches [c.path] es)
    {cs : List Entity} (hcs : ∀ c ∈ cs, s.find? c.path = some c ∧ s.BelongsTo c.path home)
    (hnodup : (cs.map Entity.path).Nodup) :
    ∃ found, cs.mapM f = .ok found ∧ s.AreBranches (cs.map Entity.path) found.flatten := by
  induction cs with
  | nil => exact ⟨[], rfl, areBranches_nil⟩
  | cons c cs ih =>
    rw [List.forall_mem_cons] at hcs
    rw [List.map_cons, List.nodup_cons] at hnodup
    obtain ⟨⟨hc, hbelongs⟩, hcs⟩ := hcs
    obtain ⟨es, hes, hbranch⟩ := hone c hc hbelongs
    obtain ⟨found, hfound, hbranches⟩ := ih hcs hnodup.2
    refine ⟨es :: found, ?_, ?_⟩
    · rw [List.mapM_cons, hes, hfound]
      rfl
    · rw [List.flatten_cons, List.map_cons]
      refine h.areBranches_cons hbelongs (fun c' hc' => ?_) hnodup.1 hbranch hbranches
      obtain ⟨x, hx, rfl⟩ := List.mem_map.mp hc'
      exact (hcs x hx).2

/-- Following the lists of children in a tree comes to an end, and comes by everything below
a namespace exactly once. -/
theorem IsTree.exists_below (h : s.IsTree) {depth : Nat} {path : String} {e : Entity} {m : Members}
    (hfind : s.find? path = some e) (hm : e.members? = some m) (hdepth : s.longer path < depth) :
    ∃ es, s.below depth path = .ok es ∧ s.AreBranches (s.childrenAt path) es := by
  induction depth generalizing path e m with
  | zero => omega
  | succ depth ih =>
    have hlisted : s.childrenAt path = m.children := by
      rw [childrenAt_eq hfind, Entity.children_eq hm]
    have hregistered : ∀ c ∈ m.children, c ∈ s.keys := by
      intro c hc
      rw [← hlisted] at hc
      obtain ⟨child, hchild, -⟩ := Option.map_eq_some_iff.mp (h.children path c hc).2
      exact mem_keys_iff.mpr ⟨child, hchild⟩
    obtain ⟨children, hchildren, hpaths, hstored⟩ := h.isKeyed.childrenOf hfind hm hregistered
    have hmembers : ∀ c ∈ children, s.find? c.path = some c ∧ s.BelongsTo c.path path := by
      intro c hc
      refine ⟨hstored c hc, (h.mem_childrenAt_iff c.path path).mp ?_⟩
      rw [hlisted, ← hpaths]
      exact List.mem_map_of_mem hc
    have hone : ∀ c : Entity, s.find? c.path = some c → s.BelongsTo c.path path →
        ∃ es, (if c.isNamespace then (s.below depth c.path).map (c :: ·) else Except.ok [c]) =
          .ok es ∧ s.AreBranches [c.path] es := by
      intro c hc hbelongs
      rw [Entity.isNamespace]
      cases hm' : c.members? with
      | none => exact ⟨[c], rfl, h.areBranches_leaf hc hm'⟩
      | some m' =>
        have hfewer := longer_lt (mem_keys_iff.mpr ⟨c, hc⟩) (h.length_lt_of_belongsTo hbelongs)
        obtain ⟨es, hes, hbelow⟩ := ih hc hm' (by omega)
        rw [hes]
        exact ⟨c :: es, rfl, h.areBranches_node hc hbelow⟩
    obtain ⟨found, hfound, hbranches⟩ := h.exists_mapM hone hmembers
      (by rw [hpaths, ← hlisted]; exact h.nodup path)
    rw [hpaths, ← hlisted] at hbranches
    refine ⟨found.flatten, ?_, hbranches⟩
    rw [below, hchildren]
    have hgathered : (do
        let found ← children.mapM fun child =>
          if child.isNamespace then (s.below depth child.path).map (child :: ·) else .ok [child]
        return found.flatten : Except Fault (List Entity)) = .ok found.flatten := by
      rw [hfound]
      rfl
    exact hgathered

/-- The entities but the root are those that stand at their paths, the empty one left out. -/
theorem IsKeyed.mem_entities_iff (h : s.IsKeyed) (e : Entity) :
    e ∈ s.entities ↔ e.path ≠ "" ∧ s.find? e.path = some e := by
  rw [entities, List.mem_map]
  constructor
  · rintro ⟨⟨p, found⟩, hmem, rfl⟩
    obtain ⟨hentry, hne⟩ := List.mem_filter.mp hmem
    have hfind := h.find?_eq_some_iff.mpr hentry
    have hpath := h.path p found hfind
    rw [bne_iff_ne] at hne
    dsimp only at hne ⊢
    rw [hpath]
    exact ⟨hne, hfind⟩
  · rintro ⟨hne, hfind⟩
    exact ⟨(e.path, e), List.mem_filter.mpr ⟨mem_entries_of_find? hfind, bne_iff_ne.mpr hne⟩, rfl⟩

/-- The paths of the entities are the paths. -/
theorem IsKeyed.map_path_entities (h : s.IsKeyed) : s.entities.map Entity.path = s.paths := by
  rw [entities, paths, List.map_map]
  refine List.map_congr_left fun entry hentry => ?_
  exact h.path _ _ (h.find?_eq_some_iff.mpr (List.mem_filter.mp hentry).1)

theorem IsKeyed.nodup_paths (h : s.IsKeyed) : s.paths.Nodup := by
  rw [paths_eq]
  exact h.nodup.filter _

/-- Following the lists of children from the root of a tree comes by every entity but the
root, each once, if the depth is not bounded by less than the number of entries. -/
theorem IsTree.below_root (h : s.IsTree) {depth : Nat} (hdepth : s.entries.length < depth) :
    ∃ es, s.below depth "" = .ok es ∧ es.Perm s.entities := by
  obtain ⟨root, m, hroot, hm⟩ := h.root
  have hlonger : s.longer "" ≤ s.entries.length := by
    have hkeys : s.keys.length = s.entries.length := List.length_map ..
    rw [← hkeys]
    exact List.countP_le_length
  obtain ⟨es, hes, hbranches⟩ := h.exists_below hroot hm (Nat.lt_of_le_of_lt hlonger hdepth)
  refine ⟨es, hes, ?_⟩
  have hpaths : (s.entities.map Entity.path).Nodup := by
    rw [h.isKeyed.map_path_entities]
    exact h.isKeyed.nodup_paths
  refine (List.perm_ext_iff_of_nodup (hbranches.nodup.of_map _) (hpaths.of_map _)).mpr fun e => ?_
  rw [hbranches.mem_iff, h.isKeyed.mem_entities_iff]
  constructor
  · rintro ⟨hfind, c, hc, hchain⟩
    have hlong := h.length_le_of_chain hchain
    have hlonger := h.length_lt_of_belongsTo ((h.mem_childrenAt_iff c "").mp hc)
    refine ⟨fun he => ?_, hfind⟩
    rw [he, String.length_empty] at hlong
    omega
  · rintro ⟨hne, hfind⟩
    obtain ⟨c, hchain, hlast⟩ := Relation.TransGen.tail'_iff.mp (h.chain_to_root hne hfind)
    exact ⟨hfind, c, (h.mem_childrenAt_iff c "").mpr hlast, hchain⟩

/-- The number of entities is the number of entries but the root. -/
theorem IsTree.length_entities (h : s.IsTree) : s.entities.length = s.size := by
  obtain ⟨root, m, hroot, -⟩ := h.root
  have hpaths : s.entities.length = s.paths.length := by
    rw [← h.isKeyed.map_path_entities, List.length_map]
  have herase : s.keys.erase "" = s.paths := by
    rw [paths_eq, h.isKeyed.nodup.erase_eq_filter]
  rw [hpaths, ← herase, List.length_erase_of_mem (mem_keys_iff.mpr ⟨root, hroot⟩), size, keys,
    List.length_map]

end Store

end RubyDoc

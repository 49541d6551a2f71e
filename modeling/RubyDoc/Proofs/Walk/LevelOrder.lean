import Mathlib.Logic.Relation
import RubyDoc.Proofs.Walk.NestedTypes

/-!
# What a visit in level order meets

A visit goes from every node on to its children, but not into the arguments of
`params` and `returns` calls. If it comes to its end, it has met exactly the sites that
are reached by going down so; in which order is not said here.
-/

namespace RubyDoc

namespace Site

/-- A visit goes on from a site to a child of it that holds no arguments of a closed call. -/
def Opens (s t : Site) : Prop := t ∈ s.node.sites ∧ ¬ s.node.IsClosedAt t.index

/-- The sites that are reached from one on by going down. -/
abbrev Reaches : Site → Site → Prop := Relation.ReflTransGen Opens

/-- The sites that are visited below one are those that a visit goes on to. -/
theorem mem_openSites_iff {s t : Site} {inner : List Site} (h : s.node.openSites = .ok inner) :
    t ∈ inner ↔ s.Opens t := by
  cases hname : s.node.callName with
  | error fault =>
    rw [Node.openSites, hname] at h
    cases h
  | ok name =>
    rw [Node.openSites_of_callName hname] at h
    rw [← Except.ok.inj h, List.mem_filter, Opens, Node.isClosedAt_iff hname, Bool.not_eq_true',
      Bool.not_eq_true]

end Site

/-- A visit that comes to its end has met what is reached from the sites in its queue. -/
theorem mem_levelOrderFrom_iff {queue : List Site} (h : (levelOrderFrom queue).2 = none)
    (t : Site) : t ∈ (levelOrderFrom queue).1 ↔ ∃ s ∈ queue, s.Reaches t := by
  induction queue using levelOrderFrom.induct with
  | case1 =>
    rw [levelOrderFrom]
    simp
  | case2 s queue fault hfault =>
    rw [levelOrderFrom_cons_error hfault] at h
    cases h
  | case3 s queue inner hinner ih =>
    rw [levelOrderFrom_cons_ok hinner] at h ⊢
    dsimp only at h ⊢
    rw [List.mem_cons, ih h]
    constructor
    · rintro (rfl | ⟨u, hu, hreach⟩)
      · exact ⟨t, List.mem_cons_self, .refl⟩
      · rcases List.mem_append.mp hu with hu | hu
        · exact ⟨u, List.mem_cons_of_mem _ hu, hreach⟩
        · exact ⟨s, List.mem_cons_self, .head ((Site.mem_openSites_iff hinner).mp hu) hreach⟩
    · rintro ⟨u, hu, hreach⟩
      rcases List.mem_cons.mp hu with rfl | hu
      · rcases hreach.cases_head with heq | ⟨v, hopens, hrest⟩
        · exact .inl heq.symm
        · have hv := (Site.mem_openSites_iff hinner).mpr hopens
          exact .inr ⟨v, List.mem_append_right _ hv, hrest⟩
      · exact .inr ⟨u, List.mem_append_left _ hu, hreach⟩

/-- A visit from a site that comes to its end has met what is reached from it. -/
theorem Site.mem_levelOrder_iff {s : Site} (h : s.levelOrder.2 = none) (t : Site) :
    t ∈ s.levelOrder.1 ↔ s.Reaches t := by
  rw [levelOrder, mem_levelOrderFrom_iff h]
  simp

end RubyDoc

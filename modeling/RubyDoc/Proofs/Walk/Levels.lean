import Mathlib.Data.List.Shortlex
import RubyDoc.Proofs.Walk.LevelOrder

/-!
# The levels of a visit

An address tells by the indices of children how a site is come to from one above it. Of two
addresses the shorter comes first, and of two of one length the one with the smaller index
where they differ first: so they go level by level, in a level by the order of the parents
and then by the place among the children. A visit comes by all that it reaches in the order of
addresses, and by each address once. It comes to its end if and only if the names of all
calls that it reaches can be read.
-/

namespace RubyDoc

/-- One address comes before another. -/
abbrev Precedes : List Nat → List Nat → Prop := List.Shortlex (· < ·)

/-- Children of two nodes come in the order of their parents. -/
theorem Precedes.concat {a b : List Nat} (h : Precedes a b) (i k : Nat) :
    Precedes (a ++ [i]) (b ++ [k]) := by
  rcases List.shortlex_def.mp h with hlength | ⟨hlength, hlex⟩
  · exact .of_length_lt (by simpa using hlength)
  · refine .of_lex (by simpa using hlength) ?_
    clear h
    induction hlex with
    | nil => simp at hlength
    | cons _ ih => exact .cons (ih (by simpa using hlength))
    | rel hlt => exact .rel hlt

/-- A child comes before another child of the same node that stands behind it. -/
theorem precedes_concat_of_lt (a : List Nat) {i k : Nat} (h : i < k) :
    Precedes (a ++ [i]) (a ++ [k]) :=
  List.Shortlex.append_left ((List.shortlex_singleton_iff i k).mpr h) a

namespace Node

/-- The children of a node stand in the order of their indices. -/
theorem pairwise_sites (n : Node) : n.sites.Pairwise fun s t => s.index < t.index := by
  rw [sites, List.pairwise_map, List.pairwise_iff_getElem]
  intro i j hi hj hij
  simpa using hij

end Node

namespace Site

/-- An address that leads from a site to one that a visit reaches from it. -/
inductive Leads (s : Site) : List Nat → Site → Prop
  /-- The empty address leads nowhere else. -/
  | here : s.Leads [] s
  /-- The way goes on to a child that a visit goes on to. -/
  | onward {a : List Nat} {t u : Site} (h : s.Leads a t) (hu : t.Opens u) :
      s.Leads (a ++ [u.index]) u

variable {s t u : Site} {a b : List Nat}

theorem Leads.trans (h : s.Leads a t) (h' : t.Leads b u) : s.Leads (a ++ b) u := by
  induction h' with
  | here => rwa [List.append_nil]
  | onward _ hu ih =>
    rw [← List.append_assoc]
    exact ih.onward hu

/-- What an address leads to is the site itself, or it is come to by one of its children. -/
theorem Leads.cases_head (h : s.Leads a t) :
    (a = [] ∧ t = s) ∨ ∃ u b, s.Opens u ∧ a = u.index :: b ∧ u.Leads b t := by
  induction h with
  | here => exact .inl ⟨rfl, rfl⟩
  | @onward a t v _ hv ih =>
    rcases ih with ⟨rfl, rfl⟩ | ⟨u, b, hu, rfl, hb⟩
    · exact .inr ⟨v, [], hv, rfl, .here⟩
    · exact .inr ⟨u, b ++ [v.index], hu, rfl, hb.onward hv⟩

/-- The sites that a visit reaches are those that an address leads to. -/
theorem reaches_iff_exists_leads : s.Reaches t ↔ ∃ a, s.Leads a t := by
  constructor
  · intro h
    induction h with
    | refl => exact ⟨[], .here⟩
    | tail _ hlast ih =>
      obtain ⟨a, ha⟩ := ih
      exact ⟨_, ha.onward hlast⟩
  · rintro ⟨a, h⟩
    induction h with
    | here => exact .refl
    | onward _ hu ih => exact ih.tail hu

/-- Some sites are what is reached from a site in level order: they are come by in the order of
their addresses, and there is one for each address that leads to a site. -/
def IsLevelOrder (s : Site) (visited : List Site) : Prop :=
  ∃ stops : List (List Nat × Site), stops.map Prod.snd = visited ∧
    stops.Pairwise (fun p q => Precedes p.1 q.1) ∧ ∀ a t, (a, t) ∈ stops ↔ s.Leads a t

end Site

/-! ### The queue of a visit -/

/-- What is reached from a site with its address comes with an address that continues it. -/
def Continues (q p : List Nat × Site) : Prop := ∃ b, q.1 = p.1 ++ b ∧ p.2.Leads b q.2

/-- A queue holds what is left of one level and, behind it, what is known of the next: sites
stand in the order of their addresses, and each stands before the children of those in
front of it. -/
def IsLinedUp (queue : List (List Nat × Site)) : Prop :=
  queue.Pairwise fun p q => Precedes p.1 q.1 ∧ ∀ i, Precedes q.1 (p.1 ++ [i])

/-- The children of a site that come into the queue, with their addresses. -/
def stopsBelow (a : List Nat) (inner : List Site) : List (List Nat × Site) :=
  inner.map fun t => (a ++ [t.index], t)

theorem map_stopsBelow (a : List Nat) (inner : List Site) :
    (stopsBelow a inner).map Prod.snd = inner := by
  rw [stopsBelow, List.map_map]
  exact List.map_id _

/-- The queue stays lined up when its first site gives place to its children at the end. -/
theorem IsLinedUp.step {a : List Nat} {s : Site} {rest : List (List Nat × Site)}
    (h : IsLinedUp ((a, s) :: rest)) {inner : List Site} (hinner : s.node.openSites = .ok inner) :
    IsLinedUp (rest ++ stopsBelow a inner) := by
  obtain ⟨hfirst, hrest⟩ := List.pairwise_cons.mp h
  refine List.pairwise_append.mpr ⟨hrest, ?_, ?_⟩
  · have hsorted : inner.Pairwise fun t u => t.index < u.index := by
      cases hname : s.node.callName with
      | error fault =>
        rw [Node.openSites, hname] at hinner
        cases hinner
      | ok name =>
        rw [Node.openSites_of_callName hname] at hinner
        rw [← Except.ok.inj hinner]
        exact s.node.pairwise_sites.filter _
    refine List.pairwise_map.mpr (hsorted.imp fun hlt => ⟨precedes_concat_of_lt a hlt, fun i => ?_⟩)
    exact .of_length_lt (by simp)
  · intro q hq child hchild
    obtain ⟨t, -, rfl⟩ := List.mem_map.mp hchild
    obtain ⟨hbefore, hbehind⟩ := hfirst q hq
    exact ⟨hbehind t.index, fun i => hbefore.concat t.index i⟩

/-- A visit that comes to its end comes by what is reached from its queue in the order of
addresses. -/
theorem exists_stops {queue : List (List Nat × Site)} (h : IsLinedUp queue)
    (hend : (levelOrderFrom (queue.map Prod.snd)).2 = none) :
    ∃ stops : List (List Nat × Site),
      stops.map Prod.snd = (levelOrderFrom (queue.map Prod.snd)).1 ∧
      stops.Pairwise (fun p q => Precedes p.1 q.1) ∧
      ∀ q, q ∈ stops ↔ ∃ p ∈ queue, Continues q p := by
  induction hsites : queue.map Prod.snd using levelOrderFrom.induct generalizing queue with
  | case1 =>
    rw [List.map_eq_nil_iff.mp hsites]
    refine ⟨[], ?_, .nil, fun q => ?_⟩
    · rw [levelOrderFrom]
      rfl
    · simp
  | case2 s sites fault hfault =>
    rw [hsites, levelOrderFrom_cons_error hfault] at hend
    cases hend
  | case3 s sites inner hinner ih =>
    obtain ⟨⟨a, s⟩, rest, rfl, rfl, rfl⟩ := List.map_eq_cons_iff.mp hsites
    have hnext : (rest ++ stopsBelow a inner).map Prod.snd = rest.map Prod.snd ++ inner := by
      rw [List.map_append, map_stopsBelow]
    rw [hsites, levelOrderFrom_cons_ok hinner, ← hnext] at hend
    obtain ⟨stops, hvisited, hordered, hmem⟩ := ih (h.step hinner) hend hnext
    rw [levelOrderFrom_cons_ok hinner]
    refine ⟨(a, s) :: stops, ?_, List.pairwise_cons.mpr ⟨fun q hq => ?_, hordered⟩, fun q => ?_⟩
    · rw [List.map_cons, hvisited]
    · -- What is come by later continues an address that was in the queue behind the first.
      obtain ⟨p, hp, b, hb, -⟩ := (hmem q).mp hq
      rw [hb]
      refine List.Shortlex.append_right b ?_
      rcases List.mem_append.mp hp with hp | hp
      · exact ((List.pairwise_cons.mp h).1 p hp).1
      · obtain ⟨t, -, rfl⟩ := List.mem_map.mp hp
        exact .of_length_lt (by simp)
    · rw [List.mem_cons, hmem]
      constructor
      · rintro (rfl | ⟨p, hp, hq⟩)
        · exact ⟨(a, s), List.mem_cons_self, [], (List.append_nil a).symm, .here⟩
        · rcases List.mem_append.mp hp with hp | hp
          · exact ⟨p, List.mem_cons_of_mem _ hp, hq⟩
          · obtain ⟨t, ht, rfl⟩ := List.mem_map.mp hp
            obtain ⟨b, hb, hleads⟩ := hq
            have hopens := (Site.mem_openSites_iff hinner).mp ht
            refine ⟨(a, s), List.mem_cons_self, t.index :: b, ?_, ?_⟩
            · rw [hb, List.append_assoc, List.singleton_append]
            · exact (Site.Leads.here.onward hopens).trans hleads
      · rintro ⟨p, hp, b, hb, hleads⟩
        rcases List.mem_cons.mp hp with rfl | hp
        · rcases hleads.cases_head with ⟨rfl, hsame⟩ | ⟨t, b, hopens, rfl, hrest⟩
          · exact .inl (Prod.ext (hb.trans (List.append_nil a)) hsame)
          · have ht := (Site.mem_openSites_iff hinner).mpr hopens
            refine .inr ⟨(a ++ [t.index], t), ?_, b, ?_, hrest⟩
            · exact List.mem_append_right _ (List.mem_map_of_mem ht)
            · rw [hb, List.append_assoc, List.singleton_append]
        · exact .inr ⟨p, List.mem_append_left _ hp, b, hb, hleads⟩

/-- A visit comes to its end if and only if the names of all calls that are reached from its
queue can be read. -/
theorem levelOrderFrom_eq_none_iff (queue : List Site) :
    (levelOrderFrom queue).2 = none ↔
      ∀ s ∈ queue, ∀ t, s.Reaches t → ∃ name, t.node.callName = .ok name := by
  induction queue using levelOrderFrom.induct with
  | case1 =>
    rw [levelOrderFrom]
    simp
  | case2 s queue fault hfault =>
    rw [levelOrderFrom_cons_error hfault]
    refine ⟨fun h => absurd h (Option.some_ne_none fault), fun h => ?_⟩
    obtain ⟨name, hname⟩ := h s List.mem_cons_self s .refl
    rw [Node.openSites_of_callName hname] at hfault
    cases hfault
  | case3 s queue inner hinner ih =>
    rw [levelOrderFrom_cons_ok hinner]
    dsimp only
    rw [ih]
    refine ⟨fun h t ht u hreach => ?_, fun h t ht u hreach => ?_⟩
    · rcases List.mem_cons.mp ht with rfl | ht
      · rcases hreach.cases_head with rfl | ⟨v, hopens, hrest⟩
        · cases hname : t.node.callName with
          | error fault =>
            rw [Node.openSites, hname] at hinner
            cases hinner
          | ok name => exact ⟨name, rfl⟩
        · exact h v (List.mem_append_right _ ((Site.mem_openSites_iff hinner).mpr hopens)) u hrest
      · exact h t (List.mem_append_left _ ht) u hreach
    · rcases List.mem_append.mp ht with ht | ht
      · exact h t (List.mem_cons_of_mem _ ht) u hreach
      · exact h s List.mem_cons_self u (.head ((Site.mem_openSites_iff hinner).mp ht) hreach)

/-- **A visit goes level by level.** It comes by all that is reached from its site, by every
address once, in the order of addresses. It is broken off only by a call with a name that
cannot be read, and only if it reaches one. -/
theorem Site.isLevelOrder_levelOrder (s : Site) :
    (s.levelOrder.2 = none ↔ ∀ t, s.Reaches t → ∃ name, t.node.callName = .ok name) ∧
      (s.levelOrder.2 = none → s.IsLevelOrder s.levelOrder.1) := by
  refine ⟨?_, fun hend => ?_⟩
  · rw [levelOrder, levelOrderFrom_eq_none_iff]
    simp
  · have hqueue : IsLinedUp [([], s)] := List.pairwise_singleton _ _
    obtain ⟨stops, hvisited, hordered, hmem⟩ := exists_stops hqueue hend
    refine ⟨stops, hvisited, hordered, fun a t => ?_⟩
    rw [hmem]
    constructor
    · rintro ⟨p, hp, b, rfl, hleads⟩
      rw [List.mem_singleton.mp hp] at hleads ⊢
      exact hleads
    · exact fun hleads => ⟨([], s), List.mem_singleton.mpr rfl, a, rfl, hleads⟩

/-! ### A name that cannot be read -/

/-- A name that is one of the two bytes of a character. -/
def cutName : Node := ⟨"identifier", true, some "method", 0, 1, ⟨0, 0⟩, ⟨0, 1⟩, none, []⟩

/-- A call of that name. -/
def cutCall : Node := ⟨"call", true, none, 0, 2, ⟨0, 0⟩, ⟨0, 2⟩, some "é", [cutName]⟩

/-- A source with that call. -/
def cutTree : Node := ⟨"program", true, none, 0, 2, ⟨0, 0⟩, ⟨0, 2⟩, some "é", [cutCall]⟩

/-- The visit is broken off at the call. It does not come by the name of the call, which an
address leads to. -/
theorem not_isLevelOrder_cutTree :
    ¬ (Site.ofRoot cutTree).IsLevelOrder (Site.ofRoot cutTree).levelOrder.1 := by
  rintro ⟨stops, hvisited, -, hmem⟩
  have hcall : (Site.ofRoot cutTree).Opens ⟨cutCall, some cutTree, 0⟩ :=
    ⟨List.mem_singleton_self _, fun h => absurd h.2 (by decide +kernel)⟩
  have hname : Site.Opens ⟨cutCall, some cutTree, 0⟩ ⟨cutName, some cutCall, 0⟩ :=
    ⟨List.mem_singleton_self _, fun h => absurd h.2 (by decide +kernel)⟩
  have hstop := (hmem _ _).mpr ((Site.Leads.here.onward hcall).onward hname)
  have hmet := List.mem_map_of_mem (f := fun p : List Nat × Site => p.2.node.kind) hstop
  have hkinds : (Site.ofRoot cutTree).levelOrder.1.map (fun t => t.node.kind) =
      ["program", "call"] := by decide +kernel
  rw [← hvisited, List.map_map] at hkinds
  rw [show stops.map (fun p => p.2.node.kind) = ["program", "call"] from hkinds] at hmet
  exact absurd hmet (by decide)

end RubyDoc

import RubyDoc.Node.LevelOrder
import RubyDoc.Proofs.Lookup

/-!
# Legible trees

A tree is legible if no node in it cuts a character. Whatever is read off a
legible tree is read without a fault: texts, names of calls and keyword arguments, and it is
visited in level order to its end. What the keyword arguments are is not said here.
-/

namespace RubyDoc.Node

mutual

/-- Whether all nodes of a tree have a property. -/
def everywhere (p : Node → Bool) : Node → Bool
  | n@⟨_, _, _, _, _, _, _, _, children⟩ => p n && everywhereIn p children

/-- Whether all nodes of a list of trees have a property. -/
def everywhereIn (p : Node → Bool) : List Node → Bool
  | [] => true
  | n :: ns => n.everywhere p && everywhereIn p ns

end

theorem everywhereIn_iff (p : Node → Bool) (ns : List Node) :
    everywhereIn p ns = true ↔ ∀ n ∈ ns, n.everywhere p = true := by
  induction ns with
  | nil => simp [everywhereIn]
  | cons n ns ih => rw [everywhereIn, Bool.and_eq_true, ih, List.forall_mem_cons]

theorem everywhere_iff (p : Node → Bool) (n : Node) :
    n.everywhere p = true ↔ p n = true ∧ ∀ c ∈ n.children, c.everywhere p = true := by
  cases n
  rw [everywhere, Bool.and_eq_true, everywhereIn_iff]

section Everywhere

variable {p : Node → Bool} {n : Node} (h : n.everywhere p = true)

include h

theorem everywhere_of_mem_children {c : Node} (hc : c ∈ n.children) : c.everywhere p = true :=
  ((everywhere_iff p n).mp h).2 c hc

theorem everywhere_of_child? {c : Node} {field : String} (hc : n.child? field = some c) :
    c.everywhere p = true :=
  everywhere_of_mem_children h (mem_of_child? hc)

theorem everywhere_of_mem_sites {s : Site} (hs : s ∈ n.sites) : s.node.everywhere p = true := by
  refine everywhere_of_mem_children h ?_
  rw [← map_node_sites]
  exact List.mem_map_of_mem hs

theorem everywhere_of_mem_argumentSites {s : Site} (hs : s ∈ n.argumentSites) :
    s.node.everywhere p = true := by
  rw [argumentSites] at hs
  split at hs
  · next list hl =>
    exact everywhere_of_mem_sites (everywhere_of_child? h hl) (List.mem_filter.mp hs).1
  · cases hs

theorem everywhere_of_mem_bodySites {s : Site} (hs : s ∈ n.bodySites) :
    s.node.everywhere p = true := by
  rw [bodySites] at hs
  split at hs
  · next body hb =>
    exact everywhere_of_mem_sites (everywhere_of_child? h hb) (List.mem_filter.mp hs).1
  · exact everywhere_of_mem_sites h (List.mem_filter.mp hs).1

end Everywhere

/-- No node of the tree cuts a character. -/
def IsLegible (n : Node) : Prop := n.everywhere (fun m => m.text.isSome) = true

instance (n : Node) : Decidable n.IsLegible := inferInstanceAs (Decidable (_ = true))

/-- The text of a node; empty if it cannot be read. -/
def written (n : Node) : String := n.text.getD ""

/-- A text that is read is the text. -/
theorem written_of_legible {n : Node} {text : String} (h : n.legible = .ok text) :
    n.written = text := by
  rw [legible] at h
  rw [written]
  cases ht : n.text with
  | none =>
    rw [ht] at h
    cases h
  | some t =>
    rw [ht] at h
    exact Except.ok.inj h

section Legible

variable {n : Node} (h : n.IsLegible)

include h

theorem IsLegible.of_child? {c : Node} {field : String} (hc : n.child? field = some c) :
    c.IsLegible :=
  everywhere_of_child? h hc

theorem IsLegible.of_mem_sites {s : Site} (hs : s ∈ n.sites) : s.node.IsLegible :=
  everywhere_of_mem_sites h hs

theorem IsLegible.of_mem_argumentSites {s : Site} (hs : s ∈ n.argumentSites) : s.node.IsLegible :=
  everywhere_of_mem_argumentSites h hs

theorem IsLegible.of_mem_arguments {a : Node} (ha : a ∈ n.arguments) : a.IsLegible := by
  obtain ⟨s, hs, rfl⟩ := List.mem_map.mp ha
  exact h.of_mem_argumentSites hs

theorem IsLegible.of_mem_namedChildren {c : Node} (hc : c ∈ n.namedChildren) : c.IsLegible :=
  everywhere_of_mem_children h (List.mem_filter.mp hc).1

theorem IsLegible.of_mem_hashPairs {c : Node} (hc : c ∈ n.hashPairs) : c.IsLegible :=
  h.of_mem_namedChildren (List.mem_filter.mp hc).1

/-- A legible node is read. -/
theorem IsLegible.legible_eq : n.legible = .ok n.written := by
  have htext := ((everywhere_iff _ n).mp h).1
  obtain ⟨text, ht⟩ := Option.isSome_iff_exists.mp htext
  rw [legible, written, ht]
  rfl

/-- The name of a legible call is read. -/
theorem IsLegible.callName_eq :
    n.callName = .ok (if n.isCall then (n.child? "method").map written else none) := by
  rw [callName]
  split
  · cases hm : n.child? "method" with
    | none => rfl
    | some name =>
      dsimp only
      rw [(h.of_child? hm).legible_eq]
      rfl
  · rfl

/-- The name that a legible node stands for is read. -/
theorem IsLegible.symbolName_ok : ∃ name, n.symbolName = .ok name := by
  rw [symbolName, h.legible_eq]
  exact ⟨_, rfl⟩

end Legible

/-- Names that are read, with legible values. -/
def LegibleValues (keywords : Keywords) : Prop := ∀ entry ∈ keywords, entry.2.IsLegible

theorem legibleValues_put {keywords : Keywords} (h : LegibleValues keywords) (key : String)
    {value : Node} (hv : value.IsLegible) : LegibleValues (keywords.put key value) := by
  induction keywords with
  | nil => exact fun entry he => List.mem_singleton.mp he ▸ hv
  | cons entry rest ih =>
    obtain ⟨k, v⟩ := entry
    have htail : LegibleValues rest := fun e he => h e (List.mem_cons_of_mem _ he)
    rw [Keywords.put]
    split
    · intro e he
      rcases List.mem_cons.mp he with rfl | he
      · exact hv
      · exact htail e he
    · intro e he
      rcases List.mem_cons.mp he with rfl | he
      · exact h _ List.mem_cons_self
      · exact ih htail e he

/-- Putting a legible pair into a mapping succeeds. -/
theorem putPair_ok {keywords : Keywords} (h : LegibleValues keywords) {pair : Node}
    (hp : pair.IsLegible) : ∃ more, putPair keywords pair = .ok more ∧ LegibleValues more := by
  rw [putPair]
  split
  · next key value hkey hvalue =>
    obtain ⟨name, hname⟩ := (hp.of_child? hkey).symbolName_ok
    rw [hname]
    exact ⟨_, rfl, legibleValues_put h name (hp.of_child? hvalue)⟩
  · exact ⟨_, rfl, h⟩

/-- The mapping of legible pairs is read. -/
theorem pairsByName_ok {pairs : List Node} (h : ∀ p ∈ pairs, p.IsLegible) :
    ∃ keywords, pairsByName pairs = .ok keywords ∧ LegibleValues keywords := by
  have hfold : ∀ (ps : List Node) (known : Keywords), (∀ p ∈ ps, p.IsLegible) →
      LegibleValues known →
        ∃ keywords, ps.foldlM putPair known = .ok keywords ∧ LegibleValues keywords := by
    intro ps
    induction ps with
    | nil => exact fun known _ hk => ⟨known, rfl, hk⟩
    | cons p ps ih =>
      intro known hps hk
      obtain ⟨more, hmore, hm⟩ := putPair_ok hk (hps p List.mem_cons_self)
      rw [List.foldlM_cons, hmore]
      exact ih more (fun q hq => hps q (List.mem_cons_of_mem _ hq)) hm
  exact hfold pairs [] h fun entry he => absurd he List.not_mem_nil

/-- The keyword arguments of a legible call are read. -/
theorem IsLegible.keywordArguments_ok {n : Node} (h : n.IsLegible) :
    ∃ keywords, n.keywordArguments = .ok keywords ∧ LegibleValues keywords := by
  refine pairsByName_ok fun p hp => ?_
  obtain ⟨a, ha, hmem⟩ := List.mem_flatMap.mp hp
  have hlegible := h.of_mem_arguments ha
  split at hmem
  · rwa [List.mem_singleton.mp hmem]
  · split at hmem
    · exact hlegible.of_mem_hashPairs hmem
    · cases hmem

/-- A value under a name is legible. -/
theorem LegibleValues.of_lookup {keywords : Keywords} (h : LegibleValues keywords) {key : String}
    {value : Node} (hl : keywords.lookup key = some value) : value.IsLegible :=
  h (key, value) (mem_of_lookup_eq_some hl)

end RubyDoc.Node

namespace RubyDoc

/-- A visit in level order that begins at legible sites meets legible sites alone, and
goes on to the end. -/
theorem levelOrderFrom_legible {queue : List Site} (h : ∀ s ∈ queue, s.node.IsLegible) :
    (∀ s ∈ (levelOrderFrom queue).1, s.node.IsLegible) ∧ (levelOrderFrom queue).2 = none := by
  induction queue using levelOrderFrom.induct with
  | case1 =>
    rw [levelOrderFrom]
    exact ⟨fun s hs => absurd hs List.not_mem_nil, rfl⟩
  | case2 s queue fault hfault =>
    have hname := (h s List.mem_cons_self).callName_eq
    rw [Node.openSites, hname, Except.map] at hfault
    cases hfault
  | case3 s queue inner hinner ih =>
    have hs := h s List.mem_cons_self
    have hsub : ∀ t ∈ inner, t ∈ s.node.sites := by
      obtain ⟨name, hname⟩ : ∃ name, s.node.callName = .ok name := ⟨_, hs.callName_eq⟩
      rw [Node.openSites, hname, Except.map] at hinner
      intro t ht
      rw [← Except.ok.inj hinner] at ht
      split at ht
      · exact (List.mem_filter.mp ht).1
      · exact ht
    have hqueue : ∀ t ∈ queue ++ inner, t.node.IsLegible := by
      intro t ht
      rcases List.mem_append.mp ht with ht | ht
      · exact h t (List.mem_cons_of_mem _ ht)
      · exact hs.of_mem_sites (hsub t ht)
    obtain ⟨hall, hend⟩ := ih hqueue
    rw [levelOrderFrom_cons_ok hinner]
    exact ⟨fun t ht => (List.mem_cons.mp ht).elim (fun he => he ▸ hs) (hall t), hend⟩

/-- The visit of a legible tree. -/
theorem Site.levelOrder_legible {s : Site} (h : s.node.IsLegible) :
    (∀ t ∈ s.levelOrder.1, t.node.IsLegible) ∧ s.levelOrder.2 = none :=
  levelOrderFrom_legible fun _ ht => List.mem_singleton.mp ht ▸ h

end RubyDoc

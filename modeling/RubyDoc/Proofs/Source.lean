import RubyDoc.Proofs.Node.Legible
import RubyDoc.Node.Source

/-!
# Docstrings of legible sources

If the comments of a source are legible, every statement in it has a docstring:
the one it was given, or the text of the comments above it. Comments of a legible
tree are legible. Which comments stand above a statement is not restated here.
-/

namespace RubyDoc

namespace Node

/-- The nodes of a kind in a list of trees, tree by tree. -/
theorem ofKindIn_eq (kind : String) (ns : List Node) :
    ofKindIn kind ns = ns.flatMap (ofKind kind) := by
  induction ns with
  | nil => rw [ofKindIn, List.flatMap_nil]
  | cons n ns ih => rw [ofKindIn, ih, List.flatMap_cons]

/-- What all nodes of a tree have, those of a kind have. -/
theorem of_mem_ofKind {p : Node → Bool} {n m : Node} {kind : String}
    (h : n.everywhere p = true) (hm : m ∈ n.ofKind kind) : p m = true := by
  induction hw : n.weight using Nat.strongRecOn generalizing n with
  | ind w ih =>
    obtain ⟨hself, hchildren⟩ := (everywhere_iff p n).mp h
    have hcases : m = n ∨ m ∈ ofKindIn kind n.children := by
      cases n
      rw [ofKind, List.mem_append] at hm
      rcases hm with hm | hm
      · split at hm
        · exact .inl (List.mem_singleton.mp hm)
        · cases hm
      · exact .inr hm
    rcases hcases with rfl | hbelow
    · exact hself
    · rw [ofKindIn_eq] at hbelow
      obtain ⟨c, hc, hmem⟩ := List.mem_flatMap.mp hbelow
      exact ih _ (hw ▸ weight_lt_of_mem_children hc) (hchildren c hc) hmem rfl

end Node

namespace Source

/-- No comment of the source cuts a character. -/
def HasLegibleComments (s : Source) : Prop := ∀ c ∈ s.comments, c.2.text.isSome = true

/-- The comments of a legible tree are legible. -/
theorem hasLegibleComments_ofTree {root : Node} (h : root.IsLegible) (text path : String)
    (hasErrors : Bool) : (ofTree root text path hasErrors).HasLegibleComments := by
  intro c hc
  rw [ofTree, indexComments, List.mem_reverse, List.mem_map] at hc
  obtain ⟨m, hm, rfl⟩ := hc
  exact Node.of_mem_ofKind h (List.mem_filter.mp hm).1

theorem mem_of_commentAbove? {comments : List (Nat × Node)} {row : Nat} {c : Node}
    (h : commentAbove? comments row = some c) : ∃ r, (r, c) ∈ comments := by
  rw [commentAbove?] at h
  split at h
  · cases h
  · exact ⟨row - 1, mem_of_lookup_eq_some h⟩

/-- The comments above a row are comments of the source. -/
theorem mem_of_mem_blockAbove {comments : List (Nat × Node)} {row : Nat} {m : Node}
    (h : m ∈ blockAbove comments row) : ∃ r, (r, m) ∈ comments := by
  fun_induction blockAbove comments row with
  | case1 => cases h
  | case2 comments row c hc ih =>
    rcases List.mem_append.mp h with h | h
    · obtain ⟨r, hr⟩ := ih h
      exact ⟨r, (List.mem_filter.mp hr).1⟩
    · rw [List.mem_singleton.mp h]
      exact mem_of_commentAbove? hc

/-- The docstring of a statement of a legible source. -/
def docText (s : Source) (overridden : List (NodeKey × String)) (n : Node) : String :=
  (overridden.lookup n.key).getD (blockText ((blockAbove s.comments n.start.row).map Node.written))

/-- The docstring of a statement is found. -/
theorem docstringOf_eq {s : Source} (h : s.HasLegibleComments)
    (overridden : List (NodeKey × String)) (n : Node) :
    s.docstringOf overridden n = .ok (s.docText overridden n) := by
  have hread : ∀ ms : List Node, (∀ m ∈ ms, m.text.isSome = true) →
      ms.mapM Node.legible = .ok (ms.map Node.written) := by
    intro ms hms
    induction ms with
    | nil => rfl
    | cons m ms ih =>
      obtain ⟨text, ht⟩ := Option.isSome_iff_exists.mp (hms m List.mem_cons_self)
      rw [List.mapM_cons, ih fun k hk => hms k (List.mem_cons_of_mem _ hk), Node.legible, ht,
        List.map_cons, Node.written, ht]
      rfl
  rw [docstringOf, docText]
  cases overridden.lookup n.key with
  | some docstring => rfl
  | none =>
    have hblock := hread (blockAbove s.comments n.start.row) fun m hm => by
      obtain ⟨r, hr⟩ := mem_of_mem_blockAbove hm
      exact h (r, m) hr
    rw [hblock]
    rfl

end Source

end RubyDoc

import RubyDoc.Proofs.Result
import RubyDoc.Proofs.Store.Tree
import RubyDoc.Report.Basic

/-!
# Reports of trees

The labels of a printed tree, taken from top to bottom, are those of the entities that
following the lists of children comes by. So the report of a store that is a tree has
one label for every entity but the root, as many as it says. How labels are laid out
is not said here.
-/

namespace RubyDoc

namespace Report

mutual

/-- The labels of a branch, from top to bottom. -/
def Branch.labels : Branch → List String
  | .node label branches => label :: labelsOf branches

/-- The labels of some branches, from top to bottom. -/
def labelsOf : List Branch → List String
  | [] => []
  | b :: rest => b.labels ++ labelsOf rest

end

/-- Branches are made one after the other if entities are found one after the other, and
have their labels if each branch has. -/
theorem exists_mapM_of_mapM {verbose : Bool} {f : Entity → Except Fault Branch}
    {g : Entity → Except Fault (List Entity)}
    (h : ∀ e below, g e = .ok below → ∃ b, f e = .ok b ∧ b.labels = below.map (label verbose))
    {es : List Entity} {found : List (List Entity)} (hfound : es.mapM g = .ok found) :
    ∃ bs, es.mapM f = .ok bs ∧ labelsOf bs = found.flatten.map (label verbose) := by
  induction es generalizing found with
  | nil => exact ⟨[], rfl, by rw [← Except.ok.inj hfound]; rfl⟩
  | cons e es ih =>
    rw [List.mapM_cons] at hfound
    obtain ⟨below, hg, hfound⟩ := exists_of_bind_eq_ok hfound
    obtain ⟨rest, hgs, hfound⟩ := exists_of_bind_eq_ok hfound
    obtain ⟨b, hb, hlabels⟩ := h e below hg
    obtain ⟨bs, hbs, hrest⟩ := ih hgs
    refine ⟨b :: bs, ?_, ?_⟩
    · rw [List.mapM_cons, hb, hbs]
      rfl
    · rw [← Except.ok.inj hfound, labelsOf, hlabels, hrest, List.flatten_cons, List.map_append]

/-- If the entities below a namespace are found, its branches are made, and their labels are
those of the entities. -/
theorem exists_branches {s : Store} {depth : Nat} {e : Entity} {es : List Entity}
    (h : s.below depth e.path = .ok es) (verbose : Bool) :
    ∃ bs, branches s verbose depth e = .ok bs ∧ labelsOf bs = es.map (label verbose) := by
  induction depth generalizing e es with
  | zero => cases h
  | succ depth ih =>
    rw [Store.below] at h
    obtain ⟨children, hchildren, h⟩ := exists_of_bind_eq_ok h
    obtain ⟨found, hfound, hes⟩ := exists_of_bind_eq_ok h
    have hone : ∀ (child : Entity) (below : List Entity),
        (if child.isNamespace then (s.below depth child.path).map (child :: ·)
          else Except.ok [child]) = .ok below →
        ∃ b, (if child.isNamespace then
            (branches s verbose depth child).map (Branch.node (label verbose child))
          else Except.ok (Branch.node (label verbose child) [])) = .ok b ∧
          b.labels = below.map (label verbose) := by
      intro child below hbelow
      split at hbelow
      · next hnamespace =>
        cases hinside : s.below depth child.path with
        | error fault =>
          rw [hinside] at hbelow
          cases hbelow
        | ok inside =>
          rw [hinside] at hbelow
          obtain ⟨bs, hbs, hlabels⟩ := ih hinside
          refine ⟨.node (label verbose child) bs, ?_, ?_⟩
          · rw [if_pos hnamespace, hbs]
            rfl
          · rw [← Except.ok.inj hbelow, Branch.labels, hlabels, List.map_cons]
      · next hnamespace =>
        refine ⟨.node (label verbose child) [], if_neg hnamespace, ?_⟩
        rw [← Except.ok.inj hbelow]
        rfl
    obtain ⟨bs, hbs, hlabels⟩ := exists_mapM_of_mapM hone hfound
    refine ⟨bs, ?_, ?_⟩
    · rw [branches, hchildren]
      exact hbs
    · rw [← Except.ok.inj hes]
      exact hlabels

/-- The report of a store that is a tree is made. Its labels are those of the entities but
the root, each once, and it says how many they are. -/
theorem exists_ofStore {s : Store} (h : s.IsTree) (verbose : Bool) :
    ∃ top, ofStore s verbose = .ok [treeItem top, countItem s.size] ∧
      (labelsOf top).Perm (s.entities.map (label verbose)) ∧ (labelsOf top).length = s.size := by
  obtain ⟨root, m, hroot, -⟩ := h.root
  have hpath : s.root.path = "" := by
    rw [Store.root, h.formerRoot, hroot]
    exact h.isKeyed.path "" root hroot
  obtain ⟨es, hes, hperm⟩ := h.below_root (Nat.lt_succ_self s.entries.length)
  rw [← hpath] at hes
  obtain ⟨top, htop, hlabels⟩ := exists_branches hes verbose
  refine ⟨top, ?_, ?_, ?_⟩
  · rw [ofStore, htop]
    rfl
  · rw [hlabels]
    exact hperm.map _
  · rw [hlabels, List.length_map, hperm.length_eq, h.length_entities]

end Report

end RubyDoc

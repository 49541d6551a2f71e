import RubyDoc.Proofs.Report.Tree
import RubyDoc.Proofs.Run.Attributes
import RubyDoc.Proofs.Run.Tree
import RubyDoc.Proofs.Walk.Nesting

/-!
# Reports of runs

In a store that a run comes by, the children of namespaces are registered, and following them
comes to an end because paths get longer on the way. So a report is made if a namespace stands
at the empty path. A constant without a name takes the place of the root there, and then none is
made.
-/

namespace RubyDoc

/-- The branches below a namespace are made if children are registered and have longer paths. -/
theorem Report.exists_branches_of_nests {s : Store} (hsound : s.IsSound) (hnests : s.Nests)
    (verbose : Bool) {depth : Nat} {e found : Entity} {m : Members}
    (hfind : s.find? e.path = some found) (hm : found.members? = some m)
    (hdepth : s.longer e.path < depth) : ∃ bs, branches s verbose depth e = .ok bs := by
  induction depth generalizing e found m with
  | zero => omega
  | succ depth ih =>
    obtain ⟨children, hchildren, hpaths, hstored⟩ :=
      hsound.isKeyed.childrenOf hfind hm (hsound.members e.path found m hfind hm).children
    rw [branches, hchildren]
    refine exists_mapM_eq_ok fun child hchild => ?_
    split
    · next hnamespace =>
      obtain ⟨m', hm'⟩ := Option.isSome_iff_exists.mp hnamespace
      have hlisted : child.path ∈ m.children := hpaths ▸ List.mem_map_of_mem hchild
      have hlonger := hnests e.path found m hfind hm child.path hlisted
      have hfewer := Store.longer_lt (Store.mem_keys_iff.mpr ⟨child, hstored child hchild⟩) hlonger
      obtain ⟨bs, hbs⟩ := ih (hstored child hchild) hm' (by omega)
      refine ⟨.node (label verbose child) bs, ?_⟩
      rw [hbs]
      rfl
    · exact ⟨_, rfl⟩

namespace Run

variable {config : Config} {r : Records}

/-- Namespaces nest in every state that a run comes by. -/
theorem nests_of_reaches (h : Reaches config r) : r.store.Nests := by
  induction h with
  | refl =>
    intro path e m hfind hm
    rw [find?_start] at hfind
    split at hfind
    · rw [← Option.some.inj hfind] at hm
      rw [← Option.some.inj hm]
      exact nofun
    · cases hfind
  | tail hfirst hstep ih =>
    exact ih.changes (isNumbered_of_reaches hfirst)
      (hstep.changes (isSound_of_reaches hfirst).isKeyed)

/-- The first root has the empty path in every state that a run comes by. -/
theorem path_root_of_reaches (h : Reaches config r) : r.store.root.path = "" := by
  have hkeeps : r.store.KeepsRoot := by
    induction h with
    | refl => exact nofun
    | tail hfirst hstep ih =>
      have hk := (isSound_of_reaches hfirst).isKeyed
      exact ih.changes hk (hstep.changes hk)
  exact hkeeps.path_root (isSound_of_reaches h).isKeyed

/-- The report of a run is made if and only if a namespace stands at the empty path. -/
theorem exists_ofStore_iff (h : Reaches config r) (verbose : Bool) :
    (∃ items, Report.ofStore r.store verbose = .ok items) ↔
      r.store.shapeAt "" = some .namespace := by
  have hpath := path_root_of_reaches h
  constructor
  · rintro ⟨items, hitems⟩
    obtain ⟨top, htop, -⟩ := exists_of_bind_eq_ok hitems
    rw [Report.branches] at htop
    obtain ⟨children, hchildren, -⟩ := exists_of_bind_eq_ok htop
    rw [hpath, Store.childrenOf] at hchildren
    split at hchildren
    · cases hchildren
    · next e m hnamespace =>
      obtain ⟨hfind, hm⟩ := (Store.namespaceAt_eq_ok_iff _ _ e m).mp hnamespace
      rw [Store.shapeAt, hfind, Option.map_some, e.isNamespace_iff.mp ⟨m, hm⟩]
  · intro hshape
    obtain ⟨e, hfind, hspace⟩ := Option.map_eq_some_iff.mp hshape
    obtain ⟨m, hm⟩ := e.isNamespace_iff.mpr hspace
    rw [← hpath] at hfind
    have hdepth : r.store.longer r.store.root.path < r.store.entries.length + 1 := by
      have hkeys : r.store.keys.length = r.store.entries.length := List.length_map ..
      exact Nat.lt_succ_of_le (hkeys ▸ List.countP_le_length)
    obtain ⟨top, htop⟩ := Report.exists_branches_of_nests (isSound_of_reaches h)
      (nests_of_reaches h) verbose hfind hm hdepth
    rw [Report.ofStore, htop]
    exact ⟨_, rfl⟩

/-- A run may be given sources one after the other. -/
theorem IsGiven.documentAll {run : Run} (h : IsGiven config run) (sources : List SourceText) :
    IsGiven config (run.documentAll sources) := by
  induction sources generalizing run with
  | nil => exact h
  | cons s rest ih => exact ih (h.source s.text s.path s.outcome)

/-- This holds of a fresh run, whatever its sources are. -/
theorem exists_ofStore_storeAfter_iff (config : Config) (sources : List SourceText)
    (verbose : Bool) :
    (∃ items, Report.ofStore (storeAfter config sources) verbose = .ok items) ↔
      (storeAfter config sources).shapeAt "" = some .namespace :=
  exists_ofStore_iff (IsGiven.start.documentAll sources).reaches verbose

end Run

end RubyDoc

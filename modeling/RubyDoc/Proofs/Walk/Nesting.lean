import RubyDoc.Proofs.Store.Tree
import RubyDoc.Proofs.Walk.Standing

/-!
# Namespaces that nest

In every store that a walk comes by the paths get longer from a namespace to what it lists, be
it there still or not. What is declared at the empty path is no exception: it takes the place of
the root that would list it. So to follow the lists of children leads nowhere twice.
-/

namespace RubyDoc

namespace Store

/-- A store in which namespaces list longer paths than theirs. -/
def Nests (s : Store) : Prop :=
  ∀ path e m, s.find? path = some e → e.members? = some m →
    ∀ c ∈ m.children, path.length < c.length

variable {D : Declaration → Prop} {s s' : Store}

/-- What is registered lists longer paths, for it lists none or those of what it takes over. -/
theorem Nests.registers (h : s.Nests) {e : Entity} (he : s.Registers D e) {m : Members}
    (hm : e.members? = some m) : ∀ c ∈ m.children, e.path.length < c.length := by
  obtain rfl | ⟨path, known, hfind, hknown, hpath⟩ := he.members hm
  · exact fun c hc => absurd hc List.not_mem_nil
  · intro c hc
    have hlt := h path known m hfind hknown c hc
    have hle := hpath ▸ ObjectPath.length_join_split_le path
    omega

/-- Entities that are changed in place nest if they list no shorter paths. -/
theorem Nests.of_find? (h : s.Nests) {f : String → Entity → Entity}
    (hfind : ∀ q, s'.find? q = (s.find? q).map (f q))
    (hf : ∀ q e m', (f q e).members? = some m' →
      ∃ m, e.members? = some m ∧ ∀ c ∈ m'.children, c ∈ m.children ∨ q.length < c.length) :
    s'.Nests := by
  intro path e' m' he' hm' c hc
  rw [hfind] at he'
  obtain ⟨e, he, rfl⟩ := Option.map_eq_some_iff.mp he'
  obtain ⟨m, hm, hchildren⟩ := hf path e m' hm'
  exact (hchildren c hc).elim (h path e m he hm c) id

theorem Nests.modify (h : s.Nests) (path : String) {f : Entity → Entity}
    (hf : ∀ e : Entity, e.IsEdited (f e)) : (s.modify path f).Nests := by
  refine h.of_find? (find?_modify_eq s path f) fun q e m' hm' => ?_
  split at hm'
  · exact ⟨m', (hf e).members ▸ hm', fun c hc => .inl hc⟩
  · exact ⟨m', hm', fun c hc => .inl hc⟩

/-- Registering keeps a store nested: the namespace around what is registered lists its path,
which is longer, unless it is the empty one. Then it has taken the place of that namespace. -/
theorem Nests.attach (h : s.Nests) (hnumbered : s.IsNumbered) {e : Entity}
    (he : ∀ m, e.members? = some m → ∀ c ∈ m.children, e.path.length < c.length)
    (hempty : e.path = "" → e.home = "") (ha : s.attach e = .ok s') : s'.Nests := by
  obtain ⟨home, m, hhome, hm, rfl⟩ := (attach_eq_ok_iff s s' e).mp ha
  have hplaced : (s.placed e).Nests := by
    intro path found m' hfound hm'
    obtain ⟨rfl, own, hown, rfl⟩ | ⟨-, hfound⟩ := members?_of_find?_placed hfound hm'
    · exact he own hown
    · exact h path found m' hfound hm'
  intro path found m' hfound hm' c hc
  rw [find?_editMembers_eq] at hfound
  obtain ⟨known, hknown, rfl⟩ := Option.map_eq_some_iff.mp hfound
  split at hm'
  · next hmeant =>
    obtain ⟨rfl, hserial⟩ := hmeant
    rw [Entity.members?_mapMembers] at hm'
    obtain ⟨before, hbefore, rfl⟩ := Option.map_eq_some_iff.mp hm'
    have hchild : c ∈ before.children ∨ c = e.path := by
      rw [Members.adopt] at hc
      split at hc
      · exact .inl hc
      · exact (List.mem_append.mp hc).imp_right List.mem_singleton.mp
    rcases hchild with hchild | rfl
    · exact hplaced _ known before hknown hbefore c hchild
    · by_cases hpath : e.path = ""
      · -- The namespace that would list it has another serial number than what is there now.
        have hplace : (m.handle e.home).path = e.path := (hempty hpath).trans hpath.symm
        obtain ⟨-, own, hown, rfl⟩ | ⟨hother, -⟩ := members?_of_find?_placed hknown hbefore
        · rw [isMeant, hbefore, Option.any_some] at hserial
          have hlt := (hnumbered e.home home m hhome hm).serial
          exact absurd (beq_iff_eq.mp hserial) (Nat.ne_of_gt hlt)
        · exact absurd hplace hother
      · exact e.length_home_lt hpath
  · exact hplaced path known m' hknown hm' c hc

/-- What is registered belongs to the namespace at the empty path if it takes its place. -/
theorem Registers.home_eq_empty {e : Entity} (he : s.Registers D e) (h : e.path = "") :
    e.home = "" := by
  refine Entity.home_eq_empty ?_ h
  cases he with
  | method _ _ he =>
    rw [(e.isMethod_iff_name).mp he.isMethod]
    decide
  | constant _ _ he =>
    rw [he]
    exact (by decide : "constant" ≠ "root")
  | placeholder => exact (by decide : "module" ≠ "root")
  | moduleSpace _ _ _ _ he =>
    rw [he]
    exact (by decide : "module" ≠ "root")
  | classSpace _ _ _ _ he =>
    rw [he]
    exact (by decide : "class" ≠ "root")

/-- A change keeps a store nested. -/
theorem Nests.change (h : s.Nests) (hnumbered : s.IsNumbered) (hc : Change D s s') : s'.Nests := by
  cases hc with
  | register he ha =>
    exact h.attach hnumbered (fun m hm => h.registers he hm) he.home_eq_empty ha
  | edit path hf => exact h.modify path (Entity.isEdited_of_method hf)
  | reopen _ _ hf => exact h.modify _ hf
  | slots handle scope name _ =>
    refine h.of_find? (find?_editMembers_eq s handle _) fun q e m' hm' => ?_
    split at hm'
    · rw [Entity.members?_mapMembers] at hm'
      obtain ⟨m, hm, rfl⟩ := Option.map_eq_some_iff.mp hm'
      exact ⟨m, hm, fun c hc => .inl (by cases scope <;> exact hc)⟩
    · exact ⟨m', hm', fun c hc => .inl hc⟩

theorem Nests.changes (h : s.Nests) (hnumbered : s.IsNumbered) (hc : Changes D s s') :
    s'.Nests := by
  induction hc with
  | refl => exact h
  | tail hfirst hlast ih => exact ih.change (hnumbered.changes hfirst) hlast

/-! ### The first root -/

/-- A store whose first root, if it is kept aside, has the empty path. -/
def KeepsRoot (s : Store) : Prop := ∀ e, s.formerRoot = some e → e.path = ""

/-- The first root has the empty path, wherever it is kept. -/
theorem KeepsRoot.path_root (h : s.KeepsRoot) (hk : s.IsKeyed) : s.root.path = "" := by
  rw [root]
  cases hformer : s.formerRoot with
  | some e => exact h e hformer
  | none =>
    rw [Option.getD_none]
    cases hfind : s.find? "" with
    | some e => exact hk.path "" e hfind
    | none => rfl

/-- What a namespace holds is no part of its path. -/
theorem KeepsRoot.editMembers (h : s.KeepsRoot) (handle : Handle) (f : Members → Members) :
    (s.editMembers handle f).KeepsRoot := by
  intro e he
  rw [Store.editMembers] at he
  split at he
  · exact h e he
  · split at he
    · obtain ⟨known, hknown, rfl⟩ := Option.map_eq_some_iff.mp he
      rw [Entity.path_mapMembers]
      exact h known hknown
    · exact h e he

/-- What takes the empty path leaves the root that was there aside. -/
theorem KeepsRoot.attach (h : s.KeepsRoot) (hk : s.IsKeyed) {e : Entity}
    (ha : s.attach e = .ok s') : s'.KeepsRoot := by
  obtain ⟨home, m, -, -, rfl⟩ := (attach_eq_ok_iff s s' e).mp ha
  refine KeepsRoot.editMembers (fun known hknown => ?_) _ _
  rw [placed, place] at hknown
  dsimp only at hknown
  split at hknown
  · exact hk.path "" known hknown
  · exact h known hknown

/-- A change leaves the first root under the empty path. -/
theorem KeepsRoot.change (h : s.KeepsRoot) (hk : s.IsKeyed) (hc : Change D s s') :
    s'.KeepsRoot := by
  cases hc with
  | register _ ha => exact h.attach hk ha
  | edit => exact h
  | reopen => exact h
  | slots handle => exact h.editMembers handle _

theorem KeepsRoot.changes (h : s.KeepsRoot) (hk : s.IsKeyed) (hc : Changes D s s') :
    s'.KeepsRoot := by
  induction hc with
  | refl => exact h
  | tail hfirst hlast ih => exact ih.change (hk.changes hfirst) hlast

end Store

end RubyDoc

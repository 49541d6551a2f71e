import RubyDoc.Proofs.Walk.Namespaces
import RubyDoc.Proofs.Walk.Rules

/-!
# What opening a namespace changes

Opening a class or module registers the placeholders that are missing on the way to
it, then the class or module itself, unless there is one already. Nothing is assumed
of its path; one that begins with the separator is registered without it.
-/

namespace RubyDoc

open RubyDoc.Action ObjectPath

variable {D : Declaration → Prop} {s : Store}

/-- The namespaces on the way to a path may be made as placeholders. -/
def AllowsPlaceholders (D : Declaration → Prop) (path : String) : Prop :=
  ∀ x ∈ lineage path, ∃ d, D d ∧ d.path = x ∧ d.kind = .placeholder

/-- A placeholder is registered at no longer path than it is made for. -/
theorem length_path_placeholder (path : String) :
    (Entity.placeholder (split path).1 (split path).2).path.length ≤ path.length :=
  length_join_split_le path

/-- Making sure of a namespace leaves what stands at longer paths. -/
theorem shapeAt_ensureNamespace {path p : String} (hp : path.length < p.length) {r : Records}
    (hk : r.store.IsKeyed) :
    (runOn (ensureNamespace path) r).2.store.shapeAt p = r.store.shapeAt p := by
  have hdeclares : Declares ((lineage path).map fun x =>
      ⟨"", (Entity.placeholder (split x).1 (split x).2).path, .placeholder⟩) (ensureNamespace path) :=
    declares_ensureNamespace_of_placeholders fun x hx =>
      ⟨_, List.mem_map_of_mem hx, rfl, DeclaredKind.noConfusion⟩
  refine (hdeclares r hk).store.shape p fun d hd he => ?_
  obtain ⟨x, hx, rfl⟩ := List.mem_map.mp hd
  have hlong := length_path_placeholder x
  have hway := length_of_mem_lineage hx
  rw [← he] at hp
  dsimp only at hp
  omega

/-- Making sure of a namespace registers placeholders on the way to it. -/
theorem changesFrom_ensureNamespace {path : String} (hd : AllowsPlaceholders D path)
    (hk : s.IsKeyed) : ChangesFrom D s (ensureNamespace path) := by
  induction hn : path.length using Nat.strongRecOn generalizing path with
  | ind n ih =>
    rw [ensureNamespace]
    refine changesFrom_inStore_bind ?_
    cases hfound : s.namespaceAt path with
    | ok found => exact (isQuiet_pure _).changesFrom
    | error fault =>
      dsimp only
      split
      · exact (isQuiet_throw _).changesFrom
      · next hne =>
        have hshorter := length_split_fst path hne
        rw [AllowsPlaceholders, lineage_of_ne hne, List.forall_mem_cons] at hd
        obtain ⟨⟨d, hmem, hpath, hkind⟩, hway⟩ := hd
        refine (ih _ (hn ▸ hshorter) hway rfl).bind_run fun _ r r' hr hrun => ?_
        refine (isQuiet_note _ _ _).changesFrom_bind fun _ _ => ?_
        refine ChangesFrom.bind (changesFrom_register ?_ _) fun _ _ _ =>
          (isQuiet_pure _).changesFrom
        -- What stands at the path is no namespace still: only shorter paths were taken.
        have hshape := shapeAt_ensureNamespace hshorter (hr ▸ hk : r.store.IsKeyed)
        rw [hrun, hr] at hshape
        rw [← hpath]
        refine .placeholder hmem hkind fun known hknown => ?_
        rw [hpath] at hknown
        cases hm : known.members? with
        | none => rfl
        | some m =>
          have hat := (Store.namespaceAt_ok_iff r'.store path).mp
            ⟨(known, m), (Store.namespaceAt_eq_ok_iff _ _ _ _).mpr ⟨hknown, hm⟩⟩
          rw [hshape] at hat
          obtain ⟨found, hok⟩ := (Store.namespaceAt_ok_iff s path).mpr hat
          rw [hfound] at hok
          cases hok

section Open

variable (c : Context) (n : Node) {path : String} (hway : AllowsPlaceholders D (split path).1)
  (hk : s.IsKeyed)

include hway hk

/-- Opening a class registers it if there is none, or else edits the one there is. -/
theorem changesFrom_openClass (hd : ∃ d, D d ∧ d.path = path ∧ d.kind = .classSpace) :
    ChangesFrom D s (openClass c n path) := by
  unfold openClass
  dsimp only
  refine (changesFrom_ensureNamespace hway hk).bind fun _ s' _ => ?_
  refine changesFrom_ofExcept_bind fun superclass _ => ?_
  refine (isQuiet_docstringOf c n).changesFrom_bind fun docstring _ => ?_
  refine changesFrom_inStore_bind ?_
  obtain ⟨d, hmem, rfl, hkind⟩ := hd
  split
  · refine ChangesFrom.bind
      (changesFrom_reopen hmem (.inl hkind) (.reopenClass superclass docstring))
      fun _ _ _ => IsQuiet.changesFrom ?_
    exact (isQuiet_pure _).bind fun _ => (isQuiet_note _ _ _).bind fun _ => isQuiet_pure _
  · next hnew =>
    refine ChangesFrom.bind (changesFrom_register ?_ _) fun _ _ _ => IsQuiet.changesFrom ?_
    · exact .classSpace hmem hkind rfl rfl rfl (Bool.not_eq_true _ ▸ hnew)
    · exact (isQuiet_pure _).bind fun _ => (isQuiet_note _ _ _).bind fun _ => isQuiet_pure _

/-- Opening a module registers it if there is none, or else edits the one there is. -/
theorem changesFrom_openModule (hd : ∃ d, D d ∧ d.path = path ∧ d.kind = .moduleSpace) :
    ChangesFrom D s (openModule c n path) := by
  unfold openModule
  dsimp only
  refine (changesFrom_ensureNamespace hway hk).bind fun _ s' _ => ?_
  refine changesFrom_inStore_bind ?_
  obtain ⟨d, hmem, rfl, hkind⟩ := hd
  split
  · split
    · refine (isQuiet_docstringOf c n).changesFrom_bind fun docstring _ => ?_
      refine ChangesFrom.bind
        (changesFrom_reopen hmem (.inr hkind) fun e => .docstring e docstring)
        fun _ _ _ => (isQuiet_pure _).changesFrom
    · exact (isQuiet_pure _).changesFrom
  · next hnew =>
    refine (isQuiet_docstringOf c n).changesFrom_bind fun docstring _ => ?_
    refine ChangesFrom.bind (changesFrom_register ?_ _) fun _ _ _ => (isQuiet_pure _).changesFrom
    exact .moduleSpace hmem hkind rfl rfl rfl (Bool.not_eq_true _ ▸ hnew)

end Open

end RubyDoc

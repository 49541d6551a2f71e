import RubyDoc.Proofs.Walk.Constructor
import RubyDoc.Proofs.Walk.Handled
import RubyDoc.Proofs.Walk.Placeholders

/-!
# Namespaces at the paths that their names resolve to

The path of a class or module is taken apart to make sure of the namespace around it, and put
together again when it is registered. A path that a name resolves to is the same afterwards, so
a class or module stands where its members and the next declaration of it look it up. This is
so in every namespace, also one whose own path has colons at its ends.
-/

namespace RubyDoc

open RubyDoc.Action ObjectPath Text

/-- What a class or module statement declares. -/
def Statement.space? : Statement → Option DeclaredKind
  | .classBody _ _ => some .classSpace
  | .moduleBody _ _ => some .moduleSpace
  | _ => none

namespace Entity

theorem isClass_iff_name (e : Entity) : e.isClass = true ↔ e.kind.name = "class" := by
  unfold isClass EntityKind.name
  cases e.kind <;> simp

theorem isModule_iff_name (e : Entity) : e.isModule = true ↔ e.kind.name = "module" := by
  unfold isModule EntityKind.name
  cases e.kind <;> simp

end Entity

namespace Store

variable {s s' : Store} {path kind : String}

/-- Whether an entity of a kind stands at a path. -/
def HasKindAt (s : Store) (path kind : String) : Prop :=
  ∃ e, s.find? path = some e ∧ e.kind.name = kind

/-- What is registered stands at its path. -/
theorem hasKindAt_attach {e : Entity} (ha : s.attach e = .ok s') :
    s'.HasKindAt e.path e.kind.name := by
  obtain ⟨f, hfind⟩ := exists_find?_attach ha
  exact ⟨_, hfind, Entity.name_mapMembers f e⟩

/-- What is edited in place stays what it is. -/
theorem HasKindAt.modify (h : s.HasKindAt path kind) {f : Entity → Entity}
    (hf : ∀ e, Entity.IsEdited e (f e)) : (s.modify path f).HasKindAt path kind := by
  obtain ⟨e, hfind, hkind⟩ := h
  refine ⟨f e, ?_, (hf e).kind.trans hkind⟩
  rw [find?_modify, if_pos rfl, hfind, Option.map_some]

end Store

namespace Action

variable {α : Type} {path q kind : String} {r r' : Records}

/-- What is registered stands at its path if what follows only reads. -/
theorem hasKindAt_of_runOn_register_bind {e : Entity} {f : Unit → Action α} {x : α}
    (h : runOn (register e >>= f) r = (.ok x, r')) (hf : IsQuiet (f ())) :
    r'.store.HasKindAt e.path e.kind.name := by
  obtain ⟨_, r₁, hregister, hrest⟩ := exists_of_runOn_bind_ok h
  have hstore : r'.store = r₁.store := by
    rw [← hf.store r₁, hrest]
  rw [runOn_register] at hregister
  cases ha : r.store.attach e with
  | error fault =>
    rw [ha] at hregister
    cases hregister
  | ok s =>
    rw [ha] at hregister
    rw [hstore, ← (Prod.mk.inj hregister).2]
    exact Store.hasKindAt_attach ha

section Opening

variable {c : Context} {n : Node} (hp : join (split path).1 (split path).2 = path)

include hp

/-- A class is opened at its path, if that is what its two parts make up. -/
theorem hasKindAt_of_runOn_openClass (h : runOn (openClass c n path) r = (.ok q, r')) :
    q = path ∧ r'.store.HasKindAt path "class" := by
  unfold openClass at h
  dsimp only at h
  obtain ⟨-, r₁, -, h⟩ := exists_of_runOn_bind_ok h
  obtain ⟨superclass, r₂, -, h⟩ := exists_of_runOn_bind_ok h
  obtain ⟨docstring, r₃, -, h⟩ := exists_of_runOn_bind_ok h
  rw [runOn_bind_ok (runOn_inStore _ r₃)] at h
  split at h
  · next hany =>
    obtain ⟨known, hfind, hclass⟩ := (Option.any_eq_true _ _).mp hany
    obtain ⟨hq, hr⟩ := Prod.mk.inj h
    rw [← hr]
    refine ⟨(Except.ok.inj hq).symm, ?_⟩
    exact Store.HasKindAt.modify ⟨known, hfind, (Entity.isClass_iff_name known).mp hclass⟩
      (.reopenClass superclass docstring)
  · have hat := hasKindAt_of_runOn_register_bind h ((isQuiet_pure _).bind fun _ =>
      (isQuiet_note _ _ _).bind fun _ => isQuiet_pure _)
    obtain ⟨-, r₄, -, h⟩ := exists_of_runOn_bind_ok h
    refine ⟨(Except.ok.inj (Prod.mk.inj h).1).symm.trans hp, ?_⟩
    rw [← hp]
    exact hat

/-- A module is opened at its path, if that is what its two parts make up. -/
theorem hasKindAt_of_runOn_openModule (h : runOn (openModule c n path) r = (.ok q, r')) :
    q = path ∧ r'.store.HasKindAt path "module" := by
  unfold openModule at h
  dsimp only at h
  obtain ⟨-, r₁, -, h⟩ := exists_of_runOn_bind_ok h
  rw [runOn_bind_ok (runOn_inStore _ r₁)] at h
  split at h
  · next hany =>
    obtain ⟨known, hfind, hmodule⟩ := (Option.any_eq_true _ _).mp hany
    have hat : r₁.store.HasKindAt path "module" :=
      ⟨known, hfind, (Entity.isModule_iff_name known).mp hmodule⟩
    split at h
    · obtain ⟨docstring, r₂, hread, hrest⟩ := exists_of_runOn_bind_ok h
      obtain ⟨-, rfl⟩ := of_runOn_docstringOf hread
      obtain ⟨hq, hr⟩ := Prod.mk.inj hrest
      rw [← hr]
      exact ⟨(Except.ok.inj hq).symm, hat.modify fun e => .docstring e docstring⟩
    · obtain ⟨hq, hr⟩ := Prod.mk.inj h
      exact ⟨(Except.ok.inj hq).symm, hr ▸ hat⟩
  · obtain ⟨docstring, r₂, -, h⟩ := exists_of_runOn_bind_ok h
    have hat := hasKindAt_of_runOn_register_bind h (isQuiet_pure _)
    obtain ⟨-, r₃, -, h⟩ := exists_of_runOn_bind_ok h
    refine ⟨(Except.ok.inj (Prod.mk.inj h).1).symm.trans hp, ?_⟩
    rw [← hp]
    exact hat

end Opening

end Action

namespace Statement

variable {c : Context} {statement : Statement} {opening : Action String} {path q : String}
  {r r' : Records} (hopening : statement.opening? c = some opening)
  (hpath : declaredPath c statement.node = .ok path)

include hopening hpath

/-- What goes before the body of a class or module is its opening at its path. -/
theorem runOn_opening (r : Records) :
    runOn opening r = runOn (openClass c statement.node path) r ∧
        statement.space? = some .classSpace ∨
      runOn opening r = runOn (openModule c statement.node path) r ∧
        statement.space? = some .moduleSpace := by
  cases statement with
  | classBody s body =>
    have hnode : declaredPath c s.node = .ok path := hpath
    rw [opening?, hnode] at hopening
    rw [← Option.some.inj hopening]
    exact .inl ⟨runOn_bind_ok (runOn_ofExcept _ r) _, rfl⟩
  | moduleBody s body =>
    have hnode : declaredPath c s.node = .ok path := hpath
    rw [opening?, hnode] at hopening
    rw [← Option.some.inj hopening]
    exact .inr ⟨runOn_bind_ok (runOn_ofExcept _ r) _, rfl⟩
  | _ => cases hopening

/-- It leaves every entity under its path. -/
theorem isKeyed_opening (hk : r.store.IsKeyed) : (runOn opening r).2.store.IsKeyed := by
  rcases runOn_opening hopening hpath r with ⟨hrun, -⟩ | ⟨hrun, -⟩
  · rw [hrun]
    exact hk.changes ((Handled.openClass c statement.node path r).changes hk)
  · rw [hrun]
    exact hk.changes ((Handled.openModule c statement.node path r).changes hk)

/-- If it comes to its end, there is a class or module at the path. -/
theorem hasKindAt_opening (hp : join (split path).1 (split path).2 = path)
    (h : runOn opening r = (.ok q, r')) :
    q = path ∧ ∃ kind ∈ statement.space?, r'.store.HasKindAt path kind.made := by
  rcases runOn_opening hopening hpath r with ⟨hrun, hspace⟩ | ⟨hrun, hspace⟩
  · obtain ⟨hq, hat⟩ := hasKindAt_of_runOn_openClass hp (hrun.symm.trans h)
    exact ⟨hq, .classSpace, hspace, hat⟩
  · obtain ⟨hq, hat⟩ := hasKindAt_of_runOn_openModule hp (hrun.symm.trans h)
    exact ⟨hq, .moduleSpace, hspace, hat⟩

end Statement

/-- A path that is read off a declaration is that of a member of the namespace around it, or of
the root. Its two parts make it up, unless the written name begins with two separators. -/
theorem join_split_of_declaredPath {c : Context} {n : Node} {path : String}
    (h : declaredPath c n = .ok path)
    (hname : ∀ name ∈ n.child? "name", beginsWith "::::" (withoutBlanks name.written) = false) :
    join (split path).1 (split path).2 = path := by
  rw [declaredPath] at h
  cases hchild : n.child? "name" with
  | none =>
    rw [hchild] at h
    cases h
  | some name =>
    rw [hchild] at h
    dsimp only at h
    cases hl : name.legible with
    | error fault =>
      rw [hl] at h
      cases h
    | ok written =>
      rw [hl] at h
      have hplain := hname name hchild
      rw [Node.written_of_legible hl] at hplain
      rw [← Except.ok.inj h]
      exact join_split_qualify c.home.path hplain

/-- **A namespace stands where it is looked up.** Whatever the path of the namespace around it
is, the two parts of the path that a written name resolves to make up that path, if the name
does not begin with two separators; and a member whose name has no colon is taken apart from its
namespace as it was put together with it. So where entities stand under their paths, as they do
whenever a run comes to a statement, a class or module statement that gets to its body has a
class or module at the very path that its name resolves to, and that is the path of the class or
module itself. -/
theorem registered_where_resolved :
    (∀ home written : String, beginsWith "::::" (withoutBlanks written) = false →
      join (split (qualify home written)).1 (split (qualify home written)).2 =
        qualify home written) ∧
    (∀ home name : String, ':' ∉ name.toList → split (join home name) = (home, name)) ∧
    ∀ (c : Context) (statement : Statement) (opening : Action String) (path : String),
      statement.opening? c = some opening → declaredPath c statement.node = .ok path →
      (∀ name ∈ statement.node.child? "name",
        beginsWith "::::" (withoutBlanks name.written) = false) →
      ∀ (r r' : Records) (q : String), r.store.IsKeyed → runOn opening r = (.ok q, r') →
        q = path ∧ ∃ e, r'.store.find? path = some e ∧ e.path = path ∧
          ∃ kind ∈ statement.space?, e.kind.name = kind.made := by
  refine ⟨fun home written h => join_split_qualify home h, fun home name h => split_join home h, ?_⟩
  intro c statement opening path hopening hpath hname r r' q hk hrun
  have hp := join_split_of_declaredPath hpath hname
  have hkeyed := Statement.isKeyed_opening hopening hpath hk
  obtain ⟨hq, kind, hspace, e, hfind, hkind⟩ := Statement.hasKindAt_opening hopening hpath hp hrun
  rw [hrun] at hkeyed
  exact ⟨hq, e, hfind, hkeyed.path path e hfind, kind, hspace, hkind⟩

/-- A class with blanks in its name. -/
def leafNode : Node :=
  ⟨"class", true, none, 0, 23, ⟨0, 0⟩, ⟨1, 3⟩, some "class Inner :: Leaf\nend", [
    ⟨"class", false, none, 0, 5, ⟨0, 0⟩, ⟨0, 5⟩, some "class", []⟩,
    ⟨"scope_resolution", true, some "name", 6, 19, ⟨0, 6⟩, ⟨0, 19⟩, some "Inner :: Leaf", [
      ⟨"constant", true, some "scope", 6, 11, ⟨0, 6⟩, ⟨0, 11⟩, some "Inner", []⟩,
      ⟨"::", false, none, 12, 14, ⟨0, 12⟩, ⟨0, 14⟩, some "::", []⟩,
      ⟨"constant", true, some "name", 15, 19, ⟨0, 15⟩, ⟨0, 19⟩, some "Leaf", []⟩]⟩,
    ⟨"end", false, none, 20, 23, ⟨1, 0⟩, ⟨1, 3⟩, some "end", []⟩]⟩

/-- The statement that opens that class. -/
def leafClass : Statement := .classBody { node := leafNode, parent := none, index := 0 } []

/-- The body of a module that is read again, and is not registered. -/
def outerContext : Context :=
  { emptyContext with home := { path := "Outer", serial := 1, scopes := [] } }

/-- A name that is written with blanks stands where it is looked up, two placeholders further in.
Three colons in a row are cut before the last two. -/
theorem registered_leafClass :
    beginsWith "::::" (withoutBlanks ":: :Leaf") = false ∧
    join (split (qualify "Outer" ":: :Leaf")).1 (split (qualify "Outer" ":: :Leaf")).2 = ":Leaf" ∧
    ':' ∉ "Leaf".toList ∧ split (join "Outer:" "Leaf") = ("Outer:", "Leaf") ∧
    declaredPath outerContext leafClass.node = .ok "Outer::Inner::Leaf" ∧
    ∃ opening, leafClass.opening? outerContext = some opening ∧
      ∃ r', runOn opening {} = (.ok "Outer::Inner::Leaf", r') ∧
        ∃ e, r'.store.find? "Outer::Inner::Leaf" = some e ∧ e.path = "Outer::Inner::Leaf" ∧
          e.kind.name = "class" := by
  obtain ⟨hparts, hmember, hopened⟩ := registered_where_resolved
  have hplain : beginsWith "::::" (withoutBlanks ":: :Leaf") = false := by decide
  have hcolon : ':' ∉ "Leaf".toList := by decide
  have hpath : declaredPath outerContext leafClass.node = .ok "Outer::Inner::Leaf" := by
    decide +kernel
  have hname : ∀ name ∈ leafClass.node.child? "name",
      beginsWith "::::" (withoutBlanks name.written) = false := by decide +kernel
  have hkeyed : ({} : Records).store.IsKeyed :=
    Store.isKeyed_of_forall (by decide) (by decide)
  have hopening : leafClass.opening? outerContext =
      some (Action.ofExcept (declaredPath outerContext leafNode) >>=
        openClass outerContext leafNode) := rfl
  have hrun : (runOn (Action.ofExcept (declaredPath outerContext leafNode) >>=
      openClass outerContext leafNode) {}).1 = .ok "Outer::Inner::Leaf" := by decide +kernel
  obtain ⟨-, e, hfind, hself, kind, hspace, hkind⟩ :=
    hopened _ _ _ _ hopening hpath hname {} _ _ hkeyed (Prod.ext hrun rfl)
  obtain rfl : DeclaredKind.classSpace = kind := Option.some.inj hspace
  refine ⟨hplain, ?_, hcolon, hmember "Outer:" "Leaf" hcolon, hpath, _, hopening, _,
    Prod.ext hrun rfl, e, hfind, hself, hkind⟩
  rw [hparts "Outer" ":: :Leaf" hplain]
  decide +kernel

end RubyDoc

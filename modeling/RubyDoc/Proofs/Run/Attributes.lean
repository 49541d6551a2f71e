import RubyDoc.Proofs.Run.Sound
import RubyDoc.Proofs.Walk.Entries

/-!
# Attributes in a run

In a store that a run comes by, a namespace has a table for either scope. The body of a
namespace leaves an entry there for each attribute that it names, and this entry has the
accessors of the last macro that names the attribute, however many there are. So a reader is
forgotten where a macro for the writer alone comes behind it.
-/

namespace RubyDoc

open RubyDoc.Action

/-- The statements of a body, with all that is inside them, where a context reads them. -/
def Context.statementsIn (c : Context) (sites : List Site) : List Placed :=
  (c.placed sites).flatMap Placed.statements

/-- The store after a body. -/
def Context.storeAfter (c : Context) (sites : List Site) (r : Records) : Store :=
  (runOn (walkAll c (sites.map Site.statement)) r).2.store

namespace Run

variable {config : Config} {r : Records}

/-- The one namespace of the fresh store is numbered. -/
theorem isNumbered_start (config : Config) : (start config none).records.store.IsNumbered := by
  intro path e m hfind hm
  rw [find?_start] at hfind
  split at hfind
  · rw [← Option.some.inj hfind] at hm
    rw [← Option.some.inj hm]
    exact ⟨Nat.zero_lt_one, rfl⟩
  · cases hfind

/-- All namespaces are numbered in every state that a run comes by. -/
theorem isNumbered_of_reaches (h : Reaches config r) : r.store.IsNumbered := by
  induction h with
  | refl => exact isNumbered_start config
  | tail hfirst hstep ih => exact ih.changes (hstep.changes (isSound_of_reaches hfirst).isKeyed)

/-- A namespace that a run comes by stands, as long as the root is there. -/
theorem stands_of_reaches (hr : Reaches config r) (hroot : r.store.shapeAt "" = some .namespace)
    {path : String} {e : Entity} {m : Members} (hfind : r.store.find? path = some e)
    (hm : e.members? = some m) : r.store.Stands (m.handle path) e.kind.name := by
  have hspace : e.shape = .namespace := e.isNamespace_iff.mp ⟨m, hm⟩
  refine ⟨⟨(isSound_of_reaches hr).isKeyed, hroot, fun known hknown => ?_, fun q _ _ => ?_⟩,
    ⟨e, m, hfind, hm, rfl, rfl⟩, (isNumbered_of_reaches hr path e m hfind hm).serial⟩
  · rw [Option.some.inj (hfind.symm.trans hknown)] at hspace
    exact hspace
  · rw [Store.shapeAt, show (m.handle path).path = path from rfl, hfind, Option.map_some, hspace]

/-- **The last macro decides.** Take any records that a run of a fresh processor comes by, with
the root still there, and the body of a namespace in them, whose trees may be what they are.
Let nothing in the body take the place of the namespace, or declare something else than a method
where an accessor of the attribute would be, or a field of its name. Then the namespace is still
there after the body, and its entry for the attribute has the accessors of the last macro that
was come by and names it, or is the one before if there is none; whatever accessors the macros
declared are registered. If all texts in the body are legible, all macros are come by. The entry
of an attribute that a macro names has then a reader exactly if some macro declares one, and
likewise a writer, if the last of its macros declares all accessors that any of them does, and
otherwise not. -/
theorem entryIn_storeAfter (hr : Reaches config r)
    (hroot : r.store.shapeAt "" = some .namespace) {a : Attribute} {e : Entity} {m : Members}
    (hfind : r.store.find? a.home.path = some e) (hm : e.members? = some m)
    (hhandle : m.handle a.home.path = a.home) {c : Context} (hc : c.home = a.home)
    {sites : List Site} (hspares : ∀ p ∈ c.placed sites, p.Spares a e.kind.name) :
    ((c.storeAfter sites r).membersOf a.home).isSome = true ∧
    (∃ reached : List Placed, reached.Sublist (c.statementsIn sites) ∧
      a.entryIn (c.storeAfter sites r) = a.entryAfter reached (a.entryIn r.store) ∧
      ∀ x ∈ a.declared reached, a.HasAccessors x (c.storeAfter sites r)) ∧
    ((∀ site ∈ sites, site.node.IsLegible) → c.source.HasLegibleComments →
      (∃ r', runOn (walkAll c (sites.map Site.statement)) r = (.ok (), r')) ∧
      a.entryIn (c.storeAfter sites r) =
        a.entryAfter (c.statementsIn sites) (a.entryIn r.store) ∧
      (∀ x ∈ a.declared (c.statementsIn sites), a.HasAccessors x (c.storeAfter sites r)) ∧
      (a.declared (c.statementsIn sites) ≠ [] →
        (Attribute.Remembers (a.entryIn (c.storeAfter sites r))
            (a.declared (c.statementsIn sites)) ↔
          Attribute.LastDeclaresAll (a.declared (c.statementsIn sites))))) := by
  have hstands : r.store.Stands a.home e.kind.name :=
    hhandle ▸ stands_of_reaches hr hroot hfind hm
  have htable : a.home.scopes.contains a.scope = true := by
    have hscopes : a.home.scopes = [.onInstances, .onClass] :=
      hhandle ▸ (isNumbered_of_reaches hr _ e m hfind hm).scopes
    rw [hscopes]
    cases a.scope <;> rfl
  obtain ⟨hchanges, ⟨reached, hsub, hentry, hthere, hall⟩, hok⟩ :=
    files_walkAll htable (fun _ => hc) hspares r hstands
  obtain ⟨after, hafter, -⟩ := (Attribute.stands_changes hstands hchanges).exists_membersOf
  refine ⟨Option.isSome_iff_exists.mpr ⟨after, hafter⟩, ⟨reached, hsub, hentry, hthere⟩,
    fun hlegible hcomments => ?_⟩
  obtain rfl := hall ⟨hlegible, hcomments⟩
  obtain ⟨x, hx⟩ := hok ⟨hlegible, hcomments⟩
  refine ⟨⟨_, Prod.ext hx rfl⟩, hentry, hthere, fun hnamed => ?_⟩
  have hsame : a.entryIn (c.storeAfter sites r) =
      a.entryAfter (c.statementsIn sites) (a.entryIn r.store) := hentry
  rw [hsame]
  exact Attribute.remembers_entryAfter_iff hnamed _

end Run

/-- A class with a reader and a writer for one attribute, each by a macro of its own. -/
def personNode : Node :=
  ⟨"class", true, none, 0, 54, ⟨0, 0⟩, ⟨3, 3⟩, some "class Person\n  attr_reader :age\n  attr_writer :age\nend", [
    ⟨"class", false, none, 0, 5, ⟨0, 0⟩, ⟨0, 5⟩, some "class", []⟩,
    ⟨"constant", true, some "name", 6, 12, ⟨0, 6⟩, ⟨0, 12⟩, some "Person", []⟩,
    ⟨"body_statement", true, some "body", 15, 50, ⟨1, 2⟩, ⟨2, 18⟩, some "attr_reader :age\n  attr_writer :age", [
      ⟨"call", true, none, 15, 31, ⟨1, 2⟩, ⟨1, 18⟩, some "attr_reader :age", [
        ⟨"identifier", true, some "method", 15, 26, ⟨1, 2⟩, ⟨1, 13⟩, some "attr_reader", []⟩,
        ⟨"argument_list", true, some "arguments", 27, 31, ⟨1, 14⟩, ⟨1, 18⟩, some ":age", [
          ⟨"simple_symbol", true, none, 27, 31, ⟨1, 14⟩, ⟨1, 18⟩, some ":age", []⟩]⟩]⟩,
      ⟨"call", true, none, 34, 50, ⟨2, 2⟩, ⟨2, 18⟩, some "attr_writer :age", [
        ⟨"identifier", true, some "method", 34, 45, ⟨2, 2⟩, ⟨2, 13⟩, some "attr_writer", []⟩,
        ⟨"argument_list", true, some "arguments", 46, 50, ⟨2, 14⟩, ⟨2, 18⟩, some ":age", [
          ⟨"simple_symbol", true, none, 46, 50, ⟨2, 14⟩, ⟨2, 18⟩, some ":age", []⟩]⟩]⟩]⟩,
    ⟨"end", false, none, 51, 54, ⟨3, 0⟩, ⟨3, 3⟩, some "end", []⟩]⟩

/-- The text of that class. -/
def personText : SourceText :=
  let root : Node := ⟨"program", true, none, 0, 55, ⟨0, 0⟩, ⟨4, 0⟩,
    some "class Person\n  attr_reader :age\n  attr_writer :age\nend\n", [personNode]⟩
  { text := root.written, path := "(string)", outcome := .tree root false }

/-- The handle of that class in a fresh store. -/
def personHome : Handle := { path := "Person", serial := 1, scopes := [.onInstances, .onClass] }

/-- The attribute of that class. -/
def ageAttribute : Attribute := { home := personHome, scope := .onInstances, name := "age" }

/-- The context of its body. -/
def personContext : Context := { emptyContext with home := personHome }

namespace Run

/-- The records of a run in which that class was just opened. -/
def personRecords : Records :=
  (runOn (openClass emptyContext personNode "Person") (start {} none).records).2

/-- After the body of the class the entry has the writer alone, though both accessors are there
and a reader was declared as well. So it is after the whole text. -/
theorem not_remembers_personNode :
    Reaches {} personRecords ∧
    ageAttribute.declared (personContext.statementsIn personNode.bodySites) =
      [(true, false), (false, true)] ∧
    ageAttribute.entryIn (personContext.storeAfter personNode.bodySites personRecords) =
      some { read := none, write := some "Person#age=" } ∧
    (∀ x ∈ [(true, false), (false, true)], ageAttribute.HasAccessors x
      (personContext.storeAfter personNode.bodySites personRecords)) ∧
    ¬ Attribute.Remembers
      (ageAttribute.entryIn (personContext.storeAfter personNode.bodySites personRecords))
      [(true, false), (false, true)] ∧
    ageAttribute.entryIn ((start {} none).document personText).records.store =
      some { read := none, write := some "Person#age=" } := by
  have hreaches : Reaches {} personRecords :=
    .single (.openClass emptyContext personNode "Person" _)
  have hroot : personRecords.store.shapeAt "" = some .namespace := by decide +kernel
  have hspace : (personRecords.store.find? "Person").any (fun e => e.kind.name == "class" &&
      e.members?.any fun m => m.handle "Person" == personHome) = true := by decide +kernel
  have hspares : ∀ p ∈ personContext.placed personNode.bodySites,
      p.Spares ageAttribute "class" := by decide +kernel
  have hdeclared : ageAttribute.declared (personContext.statementsIn personNode.bodySites) =
      [(true, false), (false, true)] := by decide +kernel
  have hlegible : ∀ site ∈ personNode.bodySites, site.node.IsLegible := by decide +kernel
  have hcomments : personContext.source.HasLegibleComments := fun _ h => absurd h List.not_mem_nil
  obtain ⟨e, m, hfind, hm, hkind, hhandle⟩ : ∃ e m, personRecords.store.find? "Person" = some e ∧
      e.members? = some m ∧ e.kind.name = "class" ∧ m.handle "Person" = personHome := by
    cases hfind : personRecords.store.find? "Person" with
    | none =>
      rw [hfind] at hspace
      cases hspace
    | some e =>
      rw [hfind, Option.any_some, Bool.and_eq_true, beq_iff_eq] at hspace
      cases hm : e.members? with
      | none =>
        rw [hm] at hspace
        cases hspace.2
      | some m =>
        rw [hm, Option.any_some, beq_iff_eq] at hspace
        exact ⟨e, m, rfl, hm, hspace⟩
  obtain ⟨-, -, hall⟩ := entryIn_storeAfter (a := ageAttribute) (c := personContext) hreaches hroot
    hfind hm hhandle rfl (hkind ▸ hspares)
  obtain ⟨-, hentry, hthere, hremembers⟩ := hall hlegible hcomments
  rw [hdeclared] at hthere hremembers
  refine ⟨hreaches, hdeclared, ?_, hthere, fun h => ?_, by decide +kernel⟩
  · rw [hentry, Attribute.entryAfter, hdeclared]
    decide +kernel
  · have hlast := (hremembers (List.cons_ne_nil _ _)).mp h
    exact Bool.false_ne_true ((hlast (false, true) rfl (true, false) List.mem_cons_self).1 rfl)

end Run

end RubyDoc

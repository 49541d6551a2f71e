import RubyDoc.Proofs.Run.Reopening
import RubyDoc.Proofs.Run.Sound
import RubyDoc.Proofs.Walk.Placeholders
import RubyDoc.Proofs.Walk.Root

/-!
# Placeholders in a run

A class or module with a longer name makes placeholders of the namespaces that are missing on
the way to it. They replace a constant or a method that stands in their way, and all other
objects stay as they were. As long as no class, module or constant is declared at the empty
path, the root is there to begin with, so that every namespace can be made sure of. What
stands outside a namespace that is there already is left as it is, even if it is no namespace.
-/

namespace RubyDoc

open RubyDoc.Action ObjectPath Text

/-- **Only what is missing on the way is replaced.** Whatever the records are, and whether or
not the class or module is registered in the end, all objects at other paths than its own are
just before its body what they were, but for those at missing paths: those on the way to it
that lie further in than any namespace on the way. None of these is a namespace, and if the
body is gone through, each has been replaced by a placeholder. -/
theorem bareAt_opening {c : Context} {statement : Statement} {opening : Action String}
    (hopening : statement.opening? c = some opening) {q : String}
    (hpath : declaredPath c statement.node = .ok q) (hq : beginsWith "::" q = false) (r : Records) :
    (∀ p, p ≠ q → p ∉ r.store.missing (split q).1 →
      (runOn opening r).2.store.bareAt p = r.store.bareAt p) ∧
    ∀ p ∈ r.store.missing (split q).1, r.store.shapeAt p ≠ some .namespace ∧ p ≠ q ∧
      ∀ x r', runOn opening r = (.ok x, r') →
        r'.store.bareAt p = some (.placeholder (split p).1 (split p).2) := by
  have hleft : ∀ p, p ≠ q → _ := fun p hp =>
    Statement.exists_opening?_eq_bind hopening hpath hq hp
  refine ⟨fun p hp hmissing => ?_, fun p hmissing => ?_⟩
  · obtain ⟨f, rfl, hf⟩ := hleft p hp
    exact (bareAt_ensureNamespace_bind (beginsWith_split hq) hf r).1 hmissing
  · have hway := (Store.mem_missing_iff.mp hmissing).1
    have hp : p ≠ q := by
      rintro rfl
      have hshorter := length_split_fst p (ne_empty_of_mem_lineage hway)
      have hlonger := length_of_mem_lineage hway
      omega
    obtain ⟨f, rfl, hf⟩ := hleft p hp
    exact ⟨Store.shapeAt_of_mem_missing hmissing, hp,
      (bareAt_ensureNamespace_bind (beginsWith_split hq) hf r).2 hmissing⟩

/-- Two constants, one of them a class that is made of a call. -/
def pointTree : Node :=
  ⟨"program", true, none, 0, 33, ⟨0, 0⟩, ⟨2, 0⟩, some "Point = Struct.new(:x)\nLimit = 9\n", [
    ⟨"assignment", true, none, 0, 22, ⟨0, 0⟩, ⟨0, 22⟩, some "Point = Struct.new(:x)", [
      ⟨"constant", true, some "left", 0, 5, ⟨0, 0⟩, ⟨0, 5⟩, some "Point", []⟩,
      ⟨"=", false, none, 6, 7, ⟨0, 6⟩, ⟨0, 7⟩, some "=", []⟩,
      ⟨"call", true, some "right", 8, 22, ⟨0, 8⟩, ⟨0, 22⟩, some "Struct.new(:x)", [
        ⟨"constant", true, some "receiver", 8, 14, ⟨0, 8⟩, ⟨0, 14⟩, some "Struct", []⟩,
        ⟨".", false, some "operator", 14, 15, ⟨0, 14⟩, ⟨0, 15⟩, some ".", []⟩,
        ⟨"identifier", true, some "method", 15, 18, ⟨0, 15⟩, ⟨0, 18⟩, some "new", []⟩,
        ⟨"argument_list", true, some "arguments", 18, 22, ⟨0, 18⟩, ⟨0, 22⟩, some "(:x)", [
          ⟨"(", false, none, 18, 19, ⟨0, 18⟩, ⟨0, 19⟩, some "(", []⟩,
          ⟨"simple_symbol", true, none, 19, 21, ⟨0, 19⟩, ⟨0, 21⟩, some ":x", []⟩,
          ⟨")", false, none, 21, 22, ⟨0, 21⟩, ⟨0, 22⟩, some ")", []⟩]⟩]⟩]⟩,
    ⟨"assignment", true, none, 23, 32, ⟨1, 0⟩, ⟨1, 9⟩, some "Limit = 9", [
      ⟨"constant", true, some "left", 23, 28, ⟨1, 0⟩, ⟨1, 5⟩, some "Limit", []⟩,
      ⟨"=", false, none, 29, 30, ⟨1, 6⟩, ⟨1, 7⟩, some "=", []⟩,
      ⟨"integer", true, some "right", 31, 32, ⟨1, 8⟩, ⟨1, 9⟩, some "9", []⟩]⟩]⟩

/-- The text of that tree. -/
def pointText : SourceText :=
  { text := pointTree.written, path := "(string)", outcome := .tree pointTree false }

/-- A class inside what the first constant is. -/
def errorNode : Node :=
  ⟨"class", true, none, 0, 22, ⟨0, 0⟩, ⟨1, 3⟩, some "class Point::Error\nend", [
    ⟨"class", false, none, 0, 5, ⟨0, 0⟩, ⟨0, 5⟩, some "class", []⟩,
    ⟨"scope_resolution", true, some "name", 6, 18, ⟨0, 6⟩, ⟨0, 18⟩, some "Point::Error", [
      ⟨"constant", true, some "scope", 6, 11, ⟨0, 6⟩, ⟨0, 11⟩, some "Point", []⟩,
      ⟨"::", false, none, 11, 13, ⟨0, 11⟩, ⟨0, 13⟩, some "::", []⟩,
      ⟨"constant", true, some "name", 13, 18, ⟨0, 13⟩, ⟨0, 18⟩, some "Error", []⟩]⟩,
    ⟨"end", false, none, 19, 22, ⟨1, 0⟩, ⟨1, 3⟩, some "end", []⟩]⟩

/-- A class whose name begins with two separators. -/
def doubledNode : Node :=
  ⟨"class", true, none, 0, 19, ⟨0, 0⟩, ⟨1, 3⟩, some "class ::::Point\nend", [
    ⟨"class", false, none, 0, 5, ⟨0, 0⟩, ⟨0, 5⟩, some "class", []⟩,
    ⟨"constant", true, some "name", 6, 15, ⟨0, 6⟩, ⟨0, 15⟩, some "::::Point", []⟩,
    ⟨"end", false, none, 16, 19, ⟨1, 0⟩, ⟨1, 3⟩, some "end", []⟩]⟩

/-- The statement that opens that class. -/
def errorClass : Statement := .classBody { node := errorNode, parent := none, index := 0 } []

namespace Run

/-- The records of a run after the constants. -/
def pointRecords : Records := ((start {} none).document pointText).records

/-- Just before the body of the class the first constant is replaced, and the second stays. -/
theorem bareAt_opening_errorClass :
    ∃ opening, errorClass.opening? emptyContext = some opening ∧
      declaredPath emptyContext errorClass.node = .ok "Point::Error" ∧
      beginsWith "::" "Point::Error" = false ∧
      (runOn opening pointRecords).2.store.bareAt "Limit" = pointRecords.store.bareAt "Limit" ∧
      (∃ x r', runOn opening pointRecords = (.ok x, r') ∧
        r'.store.bareAt "Point" = some (.placeholder "" "Point")) := by
  have hpath : declaredPath emptyContext errorClass.node = .ok "Point::Error" := by decide +kernel
  have hq : beginsWith "::" "Point::Error" = false := by decide
  have hopening : errorClass.opening? emptyContext =
      some (Action.ofExcept (declaredPath emptyContext errorNode) >>=
        openClass emptyContext errorNode) := rfl
  obtain ⟨hkept, hreplaced⟩ := bareAt_opening hopening hpath hq pointRecords
  refine ⟨_, hopening, hpath, hq, hkept "Limit" (by decide) (by decide +kernel), ?_⟩
  have hok : (runOn (Action.ofExcept (declaredPath emptyContext errorNode) >>=
      openClass emptyContext errorNode) pointRecords).1 = .ok "Point::Error" := by decide +kernel
  refine ⟨"Point::Error", _, Prod.ext hok rfl, ?_⟩
  exact (hreplaced "Point" (by decide +kernel)).2.2 _ _ (Prod.ext hok rfl)

/-- A run comes by records with a constant that the opening of a class at another path
replaces, be it by a placeholder on the way or by the class itself, whose path is not the one
that it is registered at if it begins with the separator. -/
theorem not_bareAt_opening_pointRecords :
    Reaches {} pointRecords ∧ pointRecords.store.contains "Point" = true ∧
    (declaredPath emptyContext errorNode = .ok "Point::Error" ∧ "Point" ≠ "Point::Error" ∧
      (runOn (openClass emptyContext errorNode "Point::Error") pointRecords).2.store.bareAt "Point"
        ≠ pointRecords.store.bareAt "Point") ∧
    (declaredPath emptyContext doubledNode = .ok "::Point" ∧ "Point" ≠ "::Point" ∧
      (runOn (openClass emptyContext doubledNode "::Point") pointRecords).2.store.bareAt "Point"
        ≠ pointRecords.store.bareAt "Point") := by
  refine ⟨(IsGiven.source .start pointText.text pointText.path pointText.outcome).reaches, ?_⟩
  decide +kernel

/-! ### Namespaces that are made sure of -/

/-- A store that changes lead to from the fresh one, none of which declares anything at the
empty path or a namespace at a path that begins with the separator. -/
def ComesBy (config : Config) (s : Store) : Prop :=
  (start config none).records.store.Changes Declaration.IsNamed s

/-- The root of a fresh run is there. -/
theorem hasRoot_start (config : Config) : (start config none).records.store.HasRoot :=
  ⟨isKeyed_start config, rfl, {}, rfl, rfl⟩

theorem ComesBy.hasRoot {config : Config} {s : Store} (h : ComesBy config s) : s.HasRoot :=
  (hasRoot_start config).changes (fun _ hd => hd) h

/-- A run comes by such stores only if its classes, modules and constants have paths that are
not empty and do not begin with the separator. -/
theorem comesBy_documentAll {config : Config} {sources : List SourceText}
    (h : ∀ d ∈ SourceText.declared sources, d.IsWellNamed) {run : Run}
    (hrun : ComesBy config run.records.store) :
    ComesBy config (run.documentAll sources).records.store := by
  induction sources generalizing run with
  | nil => exact hrun
  | cons s sources ih =>
    rw [documentAll, List.foldl_cons]
    cases hsource : s.source? with
    | none =>
      rw [SourceText.declared, SourceText.events_cons_of_rejected hsource] at h
      rw [document_of_rejected hsource]
      exact ih h hrun
    | some source =>
      rw [SourceText.declared, SourceText.events_cons hsource, List.flatMap_append,
        List.forall_mem_append] at h
      obtain ⟨log, processed, hdocument⟩ := run.exists_document_eq hsource
      have hwalk := changes_walkSource run.config h.1
        (r := { run.records with overridden := [], log }) hrun.hasRoot.isKeyed
      refine ih h.2 ?_
      rw [hdocument]
      exact hrun.trans hwalk

/-- **Every namespace can be made sure of.** As long as the classes, modules and constants of
the sources have paths that are not empty and do not begin with the separator, a run of a
fresh processor comes by stores only that have the root of the fresh store at the empty path.
In each of them making sure of a namespace comes to an end for every path that does not begin
with the separator. The namespace that it gives has that path and is registered there, under
some serial number, and making sure of it again gives what is registered and changes nothing.
The paths on the way are namespaces afterwards if they were before or if they were missing.
So one that is none before, and has a namespace further in, stays what it is. -/
theorem hasRoot_and_ensureNamespace (config : Config) :
    (∀ sources, (∀ d ∈ SourceText.declared sources, d.IsWellNamed) →
      ComesBy config (storeAfter config sources)) ∧
    ∀ r : Records, ComesBy config r.store → r.store.HasRoot ∧
      ∀ path, beginsWith "::" path = false →
        ∃ e r', runOn (ensureNamespace path) r = (.ok e, r') ∧ ComesBy config r'.store ∧
          e.isNamespace = true ∧ e.path = path ∧
          (∃ serial, r'.store.find? path = some (e.withSerial serial) ∧
            runOn (ensureNamespace path) r' = (.ok (e.withSerial serial), r')) ∧
          ∀ x ∈ lineage path, r'.store.shapeAt x = some .namespace ↔
            r.store.shapeAt x = some .namespace ∨ x ∈ r.store.missing path := by
  refine ⟨fun sources h => comesBy_documentAll h .refl, fun r hr => ⟨hr.hasRoot, fun path hp => ?_⟩⟩
  have hallows : AllowsPlaceholders Declaration.IsNamed path := fun x hx =>
    ⟨⟨"", x, .placeholder⟩, ⟨ne_empty_of_mem_lineage hx, fun _ _ => beginsWith_of_mem_lineage hp hx⟩,
      rfl, rfl⟩
  have hchanges := changesFrom_ensureNamespace hallows hr.hasRoot.isKeyed r rfl
  obtain ⟨e, r', hrun, hensured⟩ : ∃ e r', runOn (ensureNamespace path) r = (.ok e, r') ∧
      Ensured path r.store e r'.store := by
    refine (ensured_or_unchanged hp r).resolve_right fun ⟨fault, hfault⟩ => ?_
    obtain ⟨e, r', hok, -⟩ := ensureNamespace_ok hp hr.hasRoot.shapeAt
    rw [hok] at hfault
    cases hfault
  rw [hrun] at hchanges
  have hcomes : ComesBy config r'.store := hr.trans hchanges
  obtain ⟨serial, hfind⟩ := hensured.registered
  obtain ⟨m, hm⟩ := e.isNamespace_iff.mpr hensured.isNamespace
  refine ⟨e, r', hrun, hcomes, ?_, ?_, ⟨serial, hfind, ?_⟩, fun x hx => ?_⟩
  · rw [Entity.isNamespace, hm, Option.isSome_some]
  · have hself := hcomes.hasRoot.isKeyed.path path _ hfind
    rwa [Entity.withSerial, Entity.path_mapMembers] at hself
  · refine runOn_ensureNamespace_of_namespaceAt (m := { m with serial }) ?_
    rw [Store.namespaceAt_eq_ok_iff]
    exact ⟨hfind, by rw [Entity.withSerial, Entity.members?_mapMembers, hm, Option.map_some]⟩
  · rw [Store.shapeAt_eq_map_bareAt, hensured.bareAt]
    by_cases hmissing : x ∈ r.store.missing path
    · rw [if_pos hmissing, Option.map_some]
      exact iff_of_true rfl (.inr hmissing)
    · rw [if_neg hmissing, ← Store.shapeAt_eq_map_bareAt]
      simp only [hmissing, or_false]

end Run

/-- A constant of the same name as the outer class. -/
def valueTree : Node :=
  ⟨"program", true, none, 0, 8, ⟨0, 0⟩, ⟨1, 0⟩, some "Foo = 1\n", [
    ⟨"assignment", true, none, 0, 7, ⟨0, 0⟩, ⟨0, 7⟩, some "Foo = 1", [
      ⟨"constant", true, some "left", 0, 3, ⟨0, 0⟩, ⟨0, 3⟩, some "Foo", []⟩,
      ⟨"=", false, none, 4, 5, ⟨0, 4⟩, ⟨0, 5⟩, some "=", []⟩,
      ⟨"integer", true, some "right", 6, 7, ⟨0, 6⟩, ⟨0, 7⟩, some "1", []⟩]⟩]⟩

/-- The text of that tree. -/
def valueText : SourceText :=
  { text := valueTree.written, path := "(string)", outcome := .tree valueTree false }

namespace Run

/-- The records of a run after the two classes. -/
def innerRecords : Records := ((start {} none).document innerText).records

/-- After the two classes two namespaces are missing on the way to a third inside the outer
one, and all that is on the way is there once they are made. -/
theorem ensureNamespace_innerRecords :
    (∀ d ∈ SourceText.declared [innerText], d.IsWellNamed) ∧ ComesBy {} innerRecords.store ∧
    innerRecords.store.HasRoot ∧ beginsWith "::" "Foo::Baz::Qux" = false ∧
    innerRecords.store.missing "Foo::Baz::Qux" = ["Foo::Baz::Qux", "Foo::Baz"] ∧
    ∃ e r', runOn (ensureNamespace "Foo::Baz::Qux") innerRecords = (.ok e, r') ∧
      e.path = "Foo::Baz::Qux" ∧
      (∃ serial, runOn (ensureNamespace "Foo::Baz::Qux") r' = (.ok (e.withSerial serial), r')) ∧
      ∀ x ∈ ["Foo::Baz::Qux", "Foo::Baz", "Foo"], r'.store.shapeAt x = some .namespace := by
  have hnamed : ∀ d ∈ SourceText.declared [innerText], d.IsWellNamed := by decide +kernel
  have hp : beginsWith "::" "Foo::Baz::Qux" = false := by decide
  have hmissing : innerRecords.store.missing "Foo::Baz::Qux" = ["Foo::Baz::Qux", "Foo::Baz"] := by
    decide +kernel
  obtain ⟨hcomes, hall⟩ := hasRoot_and_ensureNamespace {}
  have hinner : ComesBy {} innerRecords.store := hcomes _ hnamed
  obtain ⟨hroot, hensure⟩ := hall innerRecords hinner
  obtain ⟨e, r', hrun, -, -, hpath, ⟨serial, -, hagain⟩, hway⟩ := hensure _ hp
  refine ⟨hnamed, hinner, hroot, hp, hmissing, e, r', hrun, hpath, ⟨serial, hagain⟩, fun x hx => ?_⟩
  have hlineage : lineage "Foo::Baz::Qux" = ["Foo::Baz::Qux", "Foo::Baz", "Foo"] := by
    decide +kernel
  refine (hway x (hlineage ▸ hx)).mpr ?_
  have hthere : ∀ x ∈ ["Foo::Baz::Qux", "Foo::Baz", "Foo"],
      innerRecords.store.shapeAt x = some .namespace ∨ x ∈ ["Foo::Baz::Qux", "Foo::Baz"] := by
    decide +kernel
  exact hmissing ▸ hthere x hx

/-- After the two classes and a constant in the place of the outer one, the inner class is
made sure of, and the constant on the way to it stays. -/
theorem not_shapeAt_ensureNamespace_valueText :
    (∀ d ∈ SourceText.declared [innerText, valueText], d.IsWellNamed) ∧
    "Foo" ∈ lineage "Foo::Bar" ∧ beginsWith "::" "Foo::Bar" = false ∧
    (runOn (ensureNamespace "Foo::Bar")
      ((start {} none).documentAll [innerText, valueText]).records).2.store.shapeAt "Foo" ≠
        some .namespace := by
  decide +kernel

end Run

end RubyDoc

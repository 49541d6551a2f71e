import RubyDoc.Proofs.Run.Tree
import RubyDoc.Proofs.Walk.Reopening

/-!
# Classes and modules after a run

A class or module that some sources open, be it once or many times and in one source or in
several, is settled by the mentions of it. If it is declared as one kind of object only, it
has the first docstring that is not empty, the first superclass that is written, and the
file and the line where it was opened first. A module is the exception where something
inside it was opened under a longer name before: the placeholder that was made of it stays,
and has neither file nor line. A class replaces such a placeholder.

The trees of the sources may be any. Those that are legible are walked to their end.
-/

namespace RubyDoc

open RubyDoc.Action ObjectPath Text

/-- The namespaces that some sources mention, one source after the other. -/
def SourceText.mentions (sources : List SourceText) : List Mention :=
  (sources.filterMap source?).flatMap Source.mentions

/-- All that some sources declare. -/
def SourceText.declared (sources : List SourceText) : List Declaration :=
  (events sources).flatMap Event.declared

/-- Declarations where no path is empty, no class and no module has a path that begins with
the separator, and one path is declared as one kind of object only. A placeholder does not
count. -/
structure AreOfOneKindAt (path : String) (ds : List Declaration) : Prop where
  /-- No path is empty. -/
  ne_empty : ∀ d ∈ ds, d.path ≠ ""
  /-- No class and no module has a path that begins with the separator. -/
  anchored : ∀ d ∈ ds, d.kind ≠ .constant → d.kind ≠ .method → beginsWith "::" d.path = false
  /-- What is declared at the path is of one kind. -/
  kind_eq : ∀ d ∈ ds, ∀ d' ∈ ds, d.path = path → d'.path = path →
    d.kind ≠ .placeholder → d'.kind ≠ .placeholder → d.kind = d'.kind

instance (path : String) (ds : List Declaration) : Decidable (AreOfOneKindAt path ds) :=
  decidable_of_iff
    ((∀ d ∈ ds, d.path ≠ "") ∧
      (∀ d ∈ ds, d.kind ≠ .constant → d.kind ≠ .method → beginsWith "::" d.path = false) ∧
      ∀ d ∈ ds, ∀ d' ∈ ds, d.path = path → d'.path = path →
        d.kind ≠ .placeholder → d'.kind ≠ .placeholder → d.kind = d'.kind)
    ⟨fun h => ⟨h.1, h.2.1, h.2.2⟩, fun h => ⟨h.ne_empty, h.anchored, h.kind_eq⟩⟩

/-- The kind of object that an opening declares. -/
def Opening.kind (o : Opening) : DeclaredKind := if o.isClass then .classSpace else .moduleSpace

theorem Opening.isClass_eq_of_kind {o o' : Opening} (h : o.kind = o'.kind) :
    o.isClass = o'.isClass := by
  rw [kind, kind] at h
  cases ho : o.isClass <;> cases ho' : o'.isClass <;> simp [ho, ho'] at h <;> rfl

theorem Opening.kind_eq_or (o : Opening) : o.kind = .classSpace ∨ o.kind = .moduleSpace := by
  rw [kind]
  cases o.isClass <;> simp

theorem Opening.kind_ne_placeholder (o : Opening) : o.kind ≠ .placeholder := by
  rcases o.kind_eq_or with h | h <;> rw [h] <;> exact DeclaredKind.noConfusion

/-- An entity is a class or a module if it is one without what it holds. -/
theorem Entity.exists_kind_of_bare {e : Entity} {isClass : Bool} {superclass : Option String}
    (h : e.bare.kind = if isClass then .classSpace {} superclass else .moduleSpace {}) :
    ∃ m, e.kind = if isClass then .classSpace m superclass else .moduleSpace m := by
  rw [bare, mapMembers] at h
  cases isClass <;> cases hk : e.kind <;> simp [hk, EntityKind.mapMembers] at h <;> simp [h]

/-- What a statement opens it declares. -/
theorem Placed.exists_declared_of_opens {source : Source} {p : Placed} {o : Opening}
    (h : .opens o ∈ p.mentioned source) : ∃ d ∈ p.declared, d.path = o.path ∧ d.kind = o.kind := by
  rw [mentioned] at h
  split at h
  · next path hopens =>
    have ho : o = source.opening p.node path := by simpa using h
    rw [ho, declared]
    rcases form_of_opens? hopens with hf | hf
    · have hclass : (p.node.kind == "class") = true := beq_iff_eq.mpr (Form.kind_of_classBody hf)
      rw [hf]
      refine ⟨_, mem_namespaces hopens .classSpace, rfl, ?_⟩
      rw [Opening.kind, Source.opening, hclass, if_pos rfl]
    · have hmodule : (p.node.kind == "class") = false := by
        rw [Form.kind_of_moduleBody hf]
        rfl
      rw [hf]
      refine ⟨_, mem_namespaces hopens .moduleSpace, rfl, ?_⟩
      rw [Opening.kind, Source.opening, hmodule, if_neg Bool.false_ne_true]
  · cases h

/-- What some sources open they declare. -/
theorem SourceText.exists_declared_of_opens {sources : List SourceText} {o : Opening}
    (h : .opens o ∈ mentions sources) : ∃ d ∈ declared sources, d.path = o.path ∧ d.kind = o.kind := by
  obtain ⟨source, hsource, h⟩ := List.mem_flatMap.mp h
  obtain ⟨p, hp, h⟩ := List.mem_flatMap.mp h
  obtain ⟨d, hd, hsame⟩ := Placed.exists_declared_of_opens h
  rw [← Node.filterMap_events] at hp
  obtain ⟨e, he, hstatement⟩ := List.mem_filterMap.mp hp
  obtain rfl : e = .statement p := by
    cases e with
    | statement q => rw [Option.some.inj hstatement]
    | closing path => cases hstatement
  refine ⟨d, List.mem_flatMap.mpr ⟨.statement p, ?_, hd⟩, hsame⟩
  exact List.mem_flatMap.mpr ⟨source, hsource, he⟩

namespace Run

/-- In a fresh run there is room for a namespace at every path. -/
theorem hasRoomAt_start (config : Config) (path : String) :
    (start config none).records.HasRoomAt path := by
  refine ⟨⟨isKeyed_start config, shapeAt_start config, fun e he => ?_, fun q hq hway => ?_⟩,
    fun entry hentry => absurd hentry List.not_mem_nil⟩
  · rw [find?_start] at he
    split at he
    · rw [← Option.some.inj he]
      rfl
    · cases he
  · rw [Store.shapeAt, find?_start] at hq
    split at hq
    · next hempty =>
      rw [hempty, lineage_empty] at hway
      cases hway
    · cases hq

/-- Documenting sources settles a path by the mentions of it, if all that they declare
leaves room there. -/
theorem settled_documentAll {path : String} {sources : List SourceText}
    (hroom : ∀ d ∈ SourceText.declared sources, d.LeavesRoom path) {run : Run}
    (hrun : run.records.HasRoomAt path) :
    ∃ reached : List Mention, reached.Sublist (SourceText.mentions sources) ∧
      (run.documentAll sources).records.store.bareAt path =
        settle path reached (run.records.store.bareAt path) ∧
      ((∀ source ∈ sources.filterMap SourceText.source?, source.root.IsLegible) →
        reached = SourceText.mentions sources) := by
  induction sources generalizing run with
  | nil => exact ⟨[], List.nil_sublist _, rfl, fun _ => rfl⟩
  | cons s sources ih =>
    rw [documentAll, List.foldl_cons]
    cases hsource : s.source? with
    | none =>
      rw [SourceText.declared, SourceText.events_cons_of_rejected hsource] at hroom
      rw [SourceText.mentions, List.filterMap_cons_none hsource, document_of_rejected hsource]
      exact ih hroom hrun
    | some source =>
      have hmentions : SourceText.mentions (s :: sources) =
          source.mentions ++ SourceText.mentions sources := by
        rw [SourceText.mentions, List.filterMap_cons_some hsource, List.flatMap_cons,
          SourceText.mentions]
      rw [SourceText.declared, SourceText.events_cons hsource, List.flatMap_append,
        List.forall_mem_append] at hroom
      obtain ⟨log, processed, hdocument⟩ := run.exists_document_eq hsource
      have hstart : ({ run.records with overridden := [], log } : Records).HasRoomAt path :=
        ⟨hrun.store, fun entry hentry => absurd hentry List.not_mem_nil⟩
      obtain ⟨hroom', ⟨reached, hsub, hat, hall⟩, -⟩ :=
        settles_walkSource run.config hroom.1 _ hstart
      have hnext : (run.document s).records.HasRoomAt path := by
        rw [hdocument]
        exact hroom'
      obtain ⟨reached', hsub', hat', hall'⟩ := ih hroom.2 hnext
      refine ⟨reached ++ reached', ?_, ?_, fun hlegible => ?_⟩
      · rw [hmentions]
        exact hsub.append hsub'
      · rw [documentAll] at hat'
        rw [hat', settle_append, ← hat, hdocument]
      · rw [List.filterMap_cons_some hsource, List.forall_mem_cons] at hlegible
        have hcomments := SourceText.hasLegibleComments_of_source? hsource hlegible.1
        rw [hmentions, hall ⟨hlegible.1, hcomments⟩, hall' hlegible.2]

/-- All openings of a path in some sources are of one kind. -/
theorem isClass_eq_of_mem_openingsAt {path : String} {sources : List SourceText}
    (h : AreOfOneKindAt path (SourceText.declared sources)) {o o' : Opening}
    (ho : o ∈ openingsAt path (SourceText.mentions sources))
    (ho' : o' ∈ openingsAt path (SourceText.mentions sources)) : o.isClass = o'.isClass := by
  obtain ⟨hmention, hpath⟩ := mem_openingsAt.mp ho
  obtain ⟨hmention', hpath'⟩ := mem_openingsAt.mp ho'
  obtain ⟨d, hd, hat, hkind⟩ := SourceText.exists_declared_of_opens hmention
  obtain ⟨d', hd', hat', hkind'⟩ := SourceText.exists_declared_of_opens hmention'
  have hsame := h.kind_eq d hd d' hd' (hat.trans hpath) (hat'.trans hpath')
    (hkind ▸ o.kind_ne_placeholder) (hkind' ▸ o'.kind_ne_placeholder)
  rw [hkind, hkind'] at hsame
  exact Opening.isClass_eq_of_kind hsame

/-- Declarations of one kind at a path that is opened leave room for a namespace there. -/
theorem leavesRoom_of_mem_openingsAt {path : String} {sources : List SourceText}
    (h : AreOfOneKindAt path (SourceText.declared sources)) {o : Opening}
    (ho : o ∈ openingsAt path (SourceText.mentions sources)) :
    path ≠ "" ∧ ∀ d ∈ SourceText.declared sources, d.LeavesRoom path := by
  obtain ⟨hmention, hpath⟩ := mem_openingsAt.mp ho
  obtain ⟨d, hd, hat, hkind⟩ := SourceText.exists_declared_of_opens hmention
  rw [hpath] at hat
  refine ⟨hat ▸ h.ne_empty d hd, fun d' hd' => ⟨h.ne_empty d' hd', h.anchored d' hd', ?_⟩⟩
  intro hat'
  by_cases hk : d'.kind = .placeholder
  · rw [hk]
    exact ⟨DeclaredKind.noConfusion, DeclaredKind.noConfusion⟩
  · have hsame := h.kind_eq d hd d' hd' hat hat' (hkind ▸ o.kind_ne_placeholder) hk
    rw [← hsame, hkind]
    rcases o.kind_eq_or with hopens | hopens <;> rw [hopens] <;>
      exact ⟨DeclaredKind.noConfusion, DeclaredKind.noConfusion⟩

/-- **What is opened again merges into what was opened first.** After any sources that
declare a path as one kind of object only, a class or module that is opened there has the
first docstring that is not empty, the first superclass that is written, and the file and
the line of its first opening. Only a module that was made a placeholder before, because
something inside it was opened, has neither file nor line. The openings that count are
those that were reached, which are all if the trees are legible. -/
theorem find?_storeAfter_of_opened (config : Config) {sources : List SourceText} {path : String}
    (hkind : AreOfOneKindAt path (SourceText.declared sources))
    (hopened : openingsAt path (SourceText.mentions sources) ≠ []) :
    ∃ reached : List Mention, reached.Sublist (SourceText.mentions sources) ∧
      ((∀ source ∈ sources.filterMap SourceText.source?, source.root.IsLegible) →
        reached = SourceText.mentions sources) ∧
      (openingsAt path reached = [] → ∀ e, (storeAfter config sources).find? path = some e →
        e.bare = .placeholder (split path).1 (split path).2) ∧
      ∀ first rest, openingsAt path reached = first :: rest →
        ∃ e, (storeAfter config sources).find? path = some e ∧
          e.docstring = firstFilled ((first :: rest).map Opening.docstring) ∧
          (e.file, e.line) = (if !first.isClass && isPassed path reached then (none, none)
            else (some first.file, some (first.line : Int))) ∧
          ∃ m, e.kind = if first.isClass then
              .classSpace m (firstWritten first.superclass (rest.map Opening.superclass))
            else .moduleSpace m := by
  obtain ⟨o, ho⟩ := List.exists_mem_of_ne_nil _ hopened
  obtain ⟨hne, hroom⟩ := leavesRoom_of_mem_openingsAt hkind ho
  have hempty : (start config none).records.store.bareAt path = none := by
    rw [Store.bareAt, find?_start, if_neg hne, Option.map_none]
  obtain ⟨reached, hsub, hsettled, hall⟩ := settled_documentAll hroom (hasRoomAt_start config path)
  rw [hempty, ← storeAfter] at hsettled
  refine ⟨reached, hsub, hall, fun hnone e he => ?_, fun first rest hfirst => ?_⟩
  · rw [settle_none, hnone, Store.bareAt, he, Option.map_some] at hsettled
    by_cases hpassed : isPassed path reached
    · rw [if_pos hpassed] at hsettled
      exact Option.some.inj hsettled
    · rw [if_neg hpassed] at hsettled
      cases hsettled
  · have hmem : ∀ x ∈ first :: rest, x ∈ openingsAt path (SourceText.mentions sources) := by
      intro x hx
      obtain ⟨hx, hpath⟩ := mem_openingsAt.mp (hfirst ▸ hx)
      exact mem_openingsAt.mpr ⟨hsub.subset hx, hpath⟩
    have hclass : ∀ x ∈ rest, x.isClass = first.isClass := fun x hx =>
      isClass_eq_of_mem_openingsAt hkind (hmem x (List.mem_cons_of_mem _ hx))
        (hmem first List.mem_cons_self)
    rw [settle_reopened hfirst hclass] at hsettled
    obtain ⟨e, he, hbare⟩ := Option.map_eq_some_iff.mp hsettled
    have hfile := congrArg Entity.file hbare
    have hline := congrArg Entity.line hbare
    refine ⟨e, he, congrArg Entity.docstring hbare, ?_,
      Entity.exists_kind_of_bare (congrArg Entity.kind hbare)⟩
    have hkept : e.bare.file = e.file ∧ e.bare.line = e.line := ⟨rfl, rfl⟩
    rw [← hkept.1, ← hkept.2, hfile, hline]
    split <;> rfl

end Run

/-- A class with a longer name. -/
def compactTree : Node :=
  ⟨"program", true, none, 0, 15, ⟨0, 0⟩, ⟨2, 0⟩, some "class A::B\nend\n", [
    ⟨"class", true, none, 0, 14, ⟨0, 0⟩, ⟨1, 3⟩, some "class A::B\nend", [
      ⟨"class", false, none, 0, 5, ⟨0, 0⟩, ⟨0, 5⟩, some "class", []⟩,
      ⟨"scope_resolution", true, some "name", 6, 10, ⟨0, 6⟩, ⟨0, 10⟩, some "A::B", [
        ⟨"constant", true, some "scope", 6, 7, ⟨0, 6⟩, ⟨0, 7⟩, some "A", []⟩,
        ⟨"::", false, none, 7, 9, ⟨0, 7⟩, ⟨0, 9⟩, some "::", []⟩,
        ⟨"constant", true, some "name", 9, 10, ⟨0, 9⟩, ⟨0, 10⟩, some "B", []⟩]⟩,
      ⟨"end", false, none, 11, 14, ⟨1, 0⟩, ⟨1, 3⟩, some "end", []⟩]⟩]⟩

/-- The text of that tree. -/
def compactText : SourceText :=
  { text := compactTree.written, path := "b.rb", outcome := .tree compactTree false }

/-- The outer class, opened twice. -/
def twiceTree : Node :=
  ⟨"program", true, none, 0, 43, ⟨0, 0⟩, ⟨6, 0⟩,
    some "# one\nclass A\nend\n# two\nclass A < Base\nend\n", [
    ⟨"comment", true, none, 0, 5, ⟨0, 0⟩, ⟨0, 5⟩, some "# one", []⟩,
    ⟨"class", true, none, 6, 17, ⟨1, 0⟩, ⟨2, 3⟩, some "class A\nend", [
      ⟨"class", false, none, 6, 11, ⟨1, 0⟩, ⟨1, 5⟩, some "class", []⟩,
      ⟨"constant", true, some "name", 12, 13, ⟨1, 6⟩, ⟨1, 7⟩, some "A", []⟩,
      ⟨"end", false, none, 14, 17, ⟨2, 0⟩, ⟨2, 3⟩, some "end", []⟩]⟩,
    ⟨"comment", true, none, 18, 23, ⟨3, 0⟩, ⟨3, 5⟩, some "# two", []⟩,
    ⟨"class", true, none, 24, 42, ⟨4, 0⟩, ⟨5, 3⟩, some "class A < Base\nend", [
      ⟨"class", false, none, 24, 29, ⟨4, 0⟩, ⟨4, 5⟩, some "class", []⟩,
      ⟨"constant", true, some "name", 30, 31, ⟨4, 6⟩, ⟨4, 7⟩, some "A", []⟩,
      ⟨"superclass", true, some "superclass", 32, 38, ⟨4, 8⟩, ⟨4, 14⟩, some "< Base", [
        ⟨"<", false, none, 32, 33, ⟨4, 8⟩, ⟨4, 9⟩, some "<", []⟩,
        ⟨"constant", true, none, 34, 38, ⟨4, 10⟩, ⟨4, 14⟩, some "Base", []⟩]⟩,
      ⟨"end", false, none, 39, 42, ⟨5, 0⟩, ⟨5, 3⟩, some "end", []⟩]⟩]⟩

/-- The text of that tree. -/
def twiceText : SourceText :=
  { text := twiceTree.written, path := "a.rb", outcome := .tree twiceTree false }

/-- A module around that class in place of the outer class. -/
def outerTree : Node :=
  ⟨"program", true, none, 0, 19, ⟨0, 0⟩, ⟨3, 0⟩, some "# one\nmodule A\nend\n", [
    ⟨"comment", true, none, 0, 5, ⟨0, 0⟩, ⟨0, 5⟩, some "# one", []⟩,
    ⟨"module", true, none, 6, 18, ⟨1, 0⟩, ⟨2, 3⟩, some "module A\nend", [
      ⟨"module", false, none, 6, 12, ⟨1, 0⟩, ⟨1, 6⟩, some "module", []⟩,
      ⟨"constant", true, some "name", 13, 14, ⟨1, 7⟩, ⟨1, 8⟩, some "A", []⟩,
      ⟨"end", false, none, 15, 18, ⟨2, 0⟩, ⟨2, 3⟩, some "end", []⟩]⟩]⟩

/-- The text of that tree. -/
def outerText : SourceText :=
  { text := outerTree.written, path := "a.rb", outcome := .tree outerTree false }

namespace Run

/-- A placeholder that is opened as a class is replaced, and keeps the first docstring and
the first superclass. One that is opened as a module gets the docstring, but no file and no
line. -/
theorem find?_storeAfter_compactText :
    (∃ e, (storeAfter {} [compactText, twiceText]).find? "A" = some e ∧ e.docstring = "one" ∧
      (e.file, e.line) = (some "a.rb", some 2) ∧ ∃ m, e.kind = .classSpace m (some "Base")) ∧
    ∃ e, (storeAfter {} [compactText, outerText]).find? "A" = some e ∧ e.docstring = "one" ∧
      (e.file, e.line) = (none, none) ∧ ∃ m, e.kind = .moduleSpace m := by
  constructor
  · have hkind : AreOfOneKindAt "A" (SourceText.declared [compactText, twiceText]) := by
      decide +kernel
    obtain ⟨reached, -, hall, -, hmerged⟩ :=
      find?_storeAfter_of_opened {} hkind (by decide +kernel)
    rw [hall (by decide +kernel)] at hmerged
    exact hmerged ⟨"A", true, "one", none, "a.rb", 2⟩ [⟨"A", true, "two", some "Base", "a.rb", 5⟩]
      (by decide +kernel)
  · have hkind : AreOfOneKindAt "A" (SourceText.declared [compactText, outerText]) := by
      decide +kernel
    obtain ⟨reached, -, hall, -, hmerged⟩ :=
      find?_storeAfter_of_opened {} hkind (by decide +kernel)
    rw [hall (by decide +kernel)] at hmerged
    have hpassed : isPassed "A" (SourceText.mentions [compactText, outerText]) = true := by
      decide +kernel
    rw [hpassed] at hmerged
    exact hmerged ⟨"A", false, "one", none, "a.rb", 2⟩ [] (by decide +kernel)

end Run

end RubyDoc

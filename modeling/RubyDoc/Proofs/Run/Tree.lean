import RubyDoc.Proofs.Report.Markup
import RubyDoc.Proofs.Run.Basic
import RubyDoc.Proofs.Walk.Coherent

/-!
# The store of a run is a tree

If the declarations of all sources fit in with those before them, in the order in which
they are documented, then the store is a tree in the end: following the lists of children
from the root comes by every object exactly once, and the report has one label for each.
The trees of the sources may be any, and statements that end in a fault leave a tree
too. What must not happen is that a namespace with members is replaced by something that
does not take them over. Labels have the paths of objects as they are, so that a console
may find markup in them that it cannot read; then it prints nothing of the report.
-/

namespace RubyDoc

open RubyDoc.Action

namespace SourceText

/-- The events of some sources, one source after the other. -/
def events (sources : List SourceText) : List Event :=
  (sources.filterMap source?).flatMap fun source => source.root.events

variable {s : SourceText}

theorem events_cons_of_rejected (h : s.source? = none) (sources : List SourceText) :
    events (s :: sources) = events sources := by
  rw [events, List.filterMap_cons_none h, events]

theorem events_cons {source : Source} (h : s.source? = some source) (sources : List SourceText) :
    events (s :: sources) = source.root.events ++ events sources := by
  rw [events, List.filterMap_cons_some h, List.flatMap_cons, events]

end SourceText

namespace Run

/-- The root of a fresh store is a tree by itself. -/
theorem isTreeOf_start (config : Config) : (start config none).records.store.IsTreeOf [] := by
  have hfind := find?_start config
  have hlists : ∀ p, (start config none).records.store.childrenAt p = [] := by
    intro p
    rw [Store.childrenAt, hfind]
    split <;> rfl
  refine ⟨⟨isKeyed_start config, ⟨_, _, hfind "", rfl⟩, rfl, fun p home hne hhome => ?_,
    fun p => ?_, fun p c hc => ?_⟩, fun p e hne he => ?_⟩
  · rw [Store.homeAt, hfind, if_neg hne] at hhome
    cases hhome
  · rw [hlists]
    exact List.nodup_nil
  · rw [hlists] at hc
    cases hc
  · rw [hfind, if_neg hne] at he
    cases he

/-- Documenting sources whose declarations fit in keeps a tree. -/
theorem isTreeOf_documentAll {sources : List SourceText} {declared : List Declaration} {run : Run}
    (h : run.records.store.IsTreeOf declared)
    (hfits : AreCoherent declared (SourceText.events sources)) :
    (run.documentAll sources).records.store.IsTreeOf
      (declared ++ (SourceText.events sources).flatMap Event.declared) := by
  induction sources generalizing declared run with
  | nil =>
    rw [SourceText.events, List.filterMap_nil, List.flatMap_nil, List.flatMap_nil, List.append_nil]
    exact h
  | cons s sources ih =>
    rw [documentAll, List.foldl_cons]
    cases hsource : s.source? with
    | none =>
      have hevents := SourceText.events_cons_of_rejected hsource sources
      rw [document_of_rejected hsource, hevents]
      rw [hevents] at hfits
      exact ih h hfits
    | some source =>
      rw [SourceText.events_cons hsource] at hfits ⊢
      rw [AreCoherent.append_iff] at hfits
      obtain ⟨log, processed, hdocument⟩ := run.exists_document_eq hsource
      rw [List.flatMap_append, ← List.append_assoc]
      refine ih ?_ hfits.2
      rw [hdocument]
      exact keepsTree_walkSource run.config source declared hfits.1 _ h

/-- The store of a fresh run after some sources. -/
def storeAfter (config : Config) (sources : List SourceText) : Store :=
  ((start config none).documentAll sources).records.store

/-- **The lists of children make up a tree.** After any sources whose declarations fit in with
those before them, following the lists of children from the root comes to an end, and comes
by every object exactly once. So the report is made, with one label for every object, as
many as it says. It is printed as a whole, unless the console refuses the tree, which it does
not where the paths of all objects have no brackets. -/
theorem below_and_printStore_storeAfter (config : Config) (verbose : Bool)
    {console : Report.Console} (hconsole : console.ReadsMarkup) {sources : List SourceText}
    (hfits : AreCoherent [] (SourceText.events sources)) :
    (∀ depth, (storeAfter config sources).entries.length < depth →
      ∃ es, (storeAfter config sources).below depth "" = .ok es ∧
        es.Perm (storeAfter config sources).entities ∧ (es.map Entity.path).Nodup) ∧
    ∃ top, Report.ofStore (storeAfter config sources) verbose =
        .ok [Report.treeItem top, Report.countItem (storeAfter config sources).size] ∧
      (Report.labelsOf top).Perm
        ((storeAfter config sources).entities.map (Report.label verbose)) ∧
      (Report.labelsOf top).length = (storeAfter config sources).size ∧
      console.printStore (storeAfter config sources) verbose =
        .ok (if console.refuses (Report.treeItem top) then
            { refused := some (Report.treeItem top) }
          else { items := [Report.treeItem top,
            Report.countItem (storeAfter config sources).size] }) ∧
      ((∀ e ∈ (storeAfter config sources).entities, Report.IsPlain e.path) →
        console.refuses (Report.treeItem top) = false) := by
  have htree : (storeAfter config sources).IsTree :=
    (isTreeOf_documentAll (isTreeOf_start config) hfits).toIsTree
  refine ⟨fun depth hdepth => ?_, hconsole.exists_printStore htree verbose⟩
  obtain ⟨es, hes, hperm⟩ := htree.below_root hdepth
  refine ⟨es, hes, hperm, ?_⟩
  rw [(hperm.map Entity.path).nodup_iff, htree.isKeyed.map_path_entities]
  exact htree.isKeyed.nodup_paths

end Run

/-- A class with a class inside it. -/
def innerTree : Node :=
  ⟨"program", true, none, 0, 32, ⟨0, 0⟩, ⟨4, 0⟩, some "class Foo\n  class Bar\n  end\nend\n", [
    ⟨"class", true, none, 0, 31, ⟨0, 0⟩, ⟨3, 3⟩, some "class Foo\n  class Bar\n  end\nend", [
      ⟨"class", false, none, 0, 5, ⟨0, 0⟩, ⟨0, 5⟩, some "class", []⟩,
      ⟨"constant", true, some "name", 6, 9, ⟨0, 6⟩, ⟨0, 9⟩, some "Foo", []⟩,
      ⟨"body_statement", true, some "body", 12, 27, ⟨1, 2⟩, ⟨2, 5⟩, some "class Bar\n  end", [
        ⟨"class", true, none, 12, 27, ⟨1, 2⟩, ⟨2, 5⟩, some "class Bar\n  end", [
          ⟨"class", false, none, 12, 17, ⟨1, 2⟩, ⟨1, 7⟩, some "class", []⟩,
          ⟨"constant", true, some "name", 18, 21, ⟨1, 8⟩, ⟨1, 11⟩, some "Bar", []⟩,
          ⟨"end", false, none, 24, 27, ⟨2, 2⟩, ⟨2, 5⟩, some "end", []⟩]⟩]⟩,
      ⟨"end", false, none, 28, 31, ⟨3, 0⟩, ⟨3, 3⟩, some "end", []⟩]⟩]⟩

/-- The text of that tree. -/
def innerText : SourceText :=
  { text := innerTree.written, path := "(string)", outcome := .tree innerTree false }

/-- A module of the same name as the outer class. -/
def moduleTree : Node :=
  ⟨"program", true, none, 0, 15, ⟨0, 0⟩, ⟨2, 0⟩, some "module Foo\nend\n", [
    ⟨"module", true, none, 0, 14, ⟨0, 0⟩, ⟨1, 3⟩, some "module Foo\nend", [
      ⟨"module", false, none, 0, 6, ⟨0, 0⟩, ⟨0, 6⟩, some "module", []⟩,
      ⟨"constant", true, some "name", 7, 10, ⟨0, 7⟩, ⟨0, 10⟩, some "Foo", []⟩,
      ⟨"end", false, none, 11, 14, ⟨1, 0⟩, ⟨1, 3⟩, some "end", []⟩]⟩]⟩

/-- The text of that tree. -/
def moduleText : SourceText :=
  { text := moduleTree.written, path := "(string)", outcome := .tree moduleTree false }

namespace Run

/-- A module that a class of the same name takes over later, and that is opened as a class
again, leaves a tree: both classes are come by, and both are printed where tags are read. -/
theorem below_and_printStore_innerText :
    AreCoherent [] (SourceText.events [moduleText, innerText, innerText]) ∧
    (∃ es, (storeAfter {} [moduleText, innerText, innerText]).below 4 "" = .ok es ∧
      (es.map Entity.path).Perm ["Foo", "Foo::Bar"]) ∧
    ∃ top, Report.tagConsole.printStore (storeAfter {} [moduleText, innerText, innerText]) false =
        .ok { items := [Report.treeItem top, Report.countItem 2] } ∧
      (Report.labelsOf top).Perm ["[cyan]class[/cyan] Foo", "[cyan]class[/cyan] Foo::Bar"] := by
  have hfits : AreCoherent [] (SourceText.events [moduleText, innerText, innerText]) := by
    decide +kernel
  obtain ⟨hbelow, top, -, hlabels, -, hprint, htaken⟩ :=
    below_and_printStore_storeAfter {} false Report.readsMarkup_tagConsole hfits
  obtain ⟨es, hes, hperm, -⟩ := hbelow 4 (by decide +kernel)
  have hpaths : (storeAfter {} [moduleText, innerText, innerText]).entities.map Entity.path =
      ["Foo", "Foo::Bar"] := by decide +kernel
  have hplain : ∀ e ∈ (storeAfter {} [moduleText, innerText, innerText]).entities,
      Report.IsPlain e.path := by decide +kernel
  have hshown : (storeAfter {} [moduleText, innerText, innerText]).entities.map
      (Report.label false) = ["[cyan]class[/cyan] Foo", "[cyan]class[/cyan] Foo::Bar"] := by
    decide +kernel
  have hsize : (storeAfter {} [moduleText, innerText, innerText]).size = 2 := by decide +kernel
  rw [htaken hplain, hsize] at hprint
  rw [hshown] at hlabels
  refine ⟨hfits, ⟨es, hes, ?_⟩, top, hprint, hlabels⟩
  rw [← hpaths]
  exact hperm.map _

/-- Behind the classes the module is no declaration that fits in: it replaces the outer class
without its members, and the inner class is come by no more. -/
example : ¬ AreCoherent [] (SourceText.events [innerText, moduleText]) ∧
    ((storeAfter {} [innerText, moduleText]).below 4 "").toOption.map (List.map Entity.path) =
      some ["Foo"] ∧
    (storeAfter {} [innerText, moduleText]).paths = ["Foo", "Foo::Bar"] := by decide +kernel

end Run

end RubyDoc

import RubyDoc.Proofs.Run.Sound
import RubyDoc.Proofs.Walk.Visible

/-!
# Visibility in a run

The visibility that a definition gives follows from the text of its body: it is that of the
last keyword by itself before the definition in the same body, or the one that the body begins
with. A visibility call with names changes the methods that stand at the paths of these names
in the namespace and scope of the call. Such a path is that of another method only if the path
of a namespace has the mark of a scope in it.
-/

namespace RubyDoc

open RubyDoc.Action ObjectPath

namespace Run

/-- **Visibility follows from the text.** A source is gone through by steps in contexts that
have the visibility in force at each statement, and so is every body, however deep it is
nested. In a body that is the one of the last keyword by itself before the statement, or the
one that the body begins with, and no statement before it changes it otherwise. What a
statement with nothing inside it registers has that visibility if it is a definition, and the
methods of a definition that comes to its end stand at their paths with it. A name of a
visibility call changes the method at its path in the namespace and scope of the call and
nothing else, and that is the method of this name wherever the paths of the namespaces have no
mark of a scope in them. -/
theorem visibility_of_text (config : Config) :
    (∀ (source : Source) (r : Records), Relation.ReflTransGen
      (WalkStep { source, config, home := Store.rootHandle } source.root.outline) r
        (runOn (walkSource config source) r).2) ∧
    (∀ (c : Context) (body : List Statement) (r : Records),
      Relation.ReflTransGen (WalkStep c body) r (runOn (walkAll c body) r).2) ∧
    (∀ (c : Context) (earlier later : List Statement), walkAll c (earlier ++ later) =
      walkAll c earlier >>= fun _ =>
        walkAll { c with visibility := Statement.inForce c.visibility earlier } later) ∧
    (∀ (c : Context) (s : Statement), s.hasInner = false →
      Action.Edits (· = s.given? c) (fun _ _ _ => True) (walk c s)) ∧
    (∀ (c : Context) (s : Statement) (rule : Rule) (action : Action Unit),
      s.definition? c = some (rule, action) → walk c s = c.guarding s.node rule action ∧
        ∀ r r', Reaches config r → runOn action r = (.ok (), r') → ∀ m ∈ s.defined c r.fields,
          r'.store.HasVisible (Entity.newMethod c.home.path m.1 m.2).path c.visibility) ∧
    ∀ r, Reaches config r → ∀ (c : Context) (name : String) (visibility : Visibility),
      (∃ log, (runOn (setVisibility c name visibility) r).2 =
        { r with
          store := r.store.editMethod (Entity.newMethod c.home.path name c.scope).path
            (Entity.mapFacts fun f => { f with visibility })
          log }) ∧
      ∀ e, r.store.find? (Entity.newMethod c.home.path name c.scope).path = some e →
        e.isMethod = true → IsUnmarked e.home → IsUnmarked c.home.path →
          e.IsMethodOf c.home.path name c.scope := by
  refine ⟨fun source r => ?_, fun c body r => ?_, walkAll_append,
    fun c s hs => edits_leaf c hs fun _ _ => trivial,
    fun c s rule action h => ⟨Statement.walk_of_definition? h, fun r r' hr hrun m hm => ?_⟩,
    fun r hr c name visibility => ⟨exists_runOn_setVisibility c name visibility r, ?_⟩⟩
  · exact follows_walkAll _ source.root.outline r
  · exact follows_walkAll c body r
  · exact Statement.hasVisible_of_mem_defined h (isSound_of_reaches hr).isKeyed hrun hm
  · intro e hfind hmethod hunmarked hhome
    have hpath := (isSound_of_reaches hr).isKeyed.path _ e hfind
    exact Entity.isMethodOf_of_path hmethod hpath hunmarked hhome

end Run

/-- A keyword by itself. -/
def keywordNode : Node :=
  ⟨"identifier", true, none, 10, 17, ⟨1, 2⟩, ⟨1, 9⟩, some "private", []⟩

/-- The definition of a method. -/
def definitionNode : Node :=
  ⟨"method", true, none, 20, 30, ⟨2, 2⟩, ⟨2, 12⟩, some "def m; end", [
    ⟨"def", false, none, 20, 23, ⟨2, 2⟩, ⟨2, 5⟩, some "def", []⟩,
    ⟨"identifier", true, some "name", 24, 25, ⟨2, 6⟩, ⟨2, 7⟩, some "m", []⟩,
    ⟨";", false, none, 25, 26, ⟨2, 7⟩, ⟨2, 8⟩, some ";", []⟩,
    ⟨"end", false, none, 27, 30, ⟨2, 9⟩, ⟨2, 12⟩, some "end", []⟩]⟩

/-- A class with that definition behind that keyword. -/
def privateTree : Node :=
  ⟨"program", true, none, 0, 35, ⟨0, 0⟩, ⟨4, 0⟩, some "class A\n  private\n  def m; end\nend\n", [
    ⟨"class", true, none, 0, 34, ⟨0, 0⟩, ⟨3, 3⟩, some "class A\n  private\n  def m; end\nend", [
      ⟨"class", false, none, 0, 5, ⟨0, 0⟩, ⟨0, 5⟩, some "class", []⟩,
      ⟨"constant", true, some "name", 6, 7, ⟨0, 6⟩, ⟨0, 7⟩, some "A", []⟩,
      ⟨"body_statement", true, some "body", 10, 30, ⟨1, 2⟩, ⟨2, 12⟩, some "private\n  def m; end", [
        keywordNode,
        definitionNode]⟩,
      ⟨"end", false, none, 31, 34, ⟨3, 0⟩, ⟨3, 3⟩, some "end", []⟩]⟩]⟩

/-- The text of that tree. -/
def privateText : SourceText :=
  { text := privateTree.written, path := "(string)", outcome := .tree privateTree false }

/-- The statements in the body of that class. -/
def privateBody : List Statement :=
  [.keyword { node := keywordNode, parent := none, index := 0 } .itself,
    .method { node := definitionNode, parent := none, index := 1 }]

/-- A context of that body. -/
def classContext : Context :=
  { emptyContext with home := { path := "A", serial := 1, scopes := [.onInstances, .onClass] } }

/-- A class in a namespace whose path has a mark in it, with a method. -/
def scopeMarkTree : Node :=
  ⟨"program", true, none, 0, 30, ⟨0, 0⟩, ⟨3, 0⟩, some "class A.b::C\n  def m; end\nend\n", [
    ⟨"class", true, none, 0, 29, ⟨0, 0⟩, ⟨2, 3⟩, some "class A.b::C\n  def m; end\nend", [
      ⟨"class", false, none, 0, 5, ⟨0, 0⟩, ⟨0, 5⟩, some "class", []⟩,
      ⟨"scope_resolution", true, some "name", 6, 12, ⟨0, 6⟩, ⟨0, 12⟩, some "A.b::C", [
        ⟨"call", true, some "scope", 6, 9, ⟨0, 6⟩, ⟨0, 9⟩, some "A.b", [
          ⟨"constant", true, some "receiver", 6, 7, ⟨0, 6⟩, ⟨0, 7⟩, some "A", []⟩,
          ⟨".", false, some "operator", 7, 8, ⟨0, 7⟩, ⟨0, 8⟩, some ".", []⟩,
          ⟨"identifier", true, some "method", 8, 9, ⟨0, 8⟩, ⟨0, 9⟩, some "b", []⟩]⟩,
        ⟨"::", false, none, 9, 11, ⟨0, 9⟩, ⟨0, 11⟩, some "::", []⟩,
        ⟨"constant", true, some "name", 11, 12, ⟨0, 11⟩, ⟨0, 12⟩, some "C", []⟩]⟩,
      ⟨"body_statement", true, some "body", 15, 25, ⟨1, 2⟩, ⟨1, 12⟩, some "def m; end", [
        ⟨"method", true, none, 15, 25, ⟨1, 2⟩, ⟨1, 12⟩, some "def m; end", [
          ⟨"def", false, none, 15, 18, ⟨1, 2⟩, ⟨1, 5⟩, some "def", []⟩,
          ⟨"identifier", true, some "name", 19, 20, ⟨1, 6⟩, ⟨1, 7⟩, some "m", []⟩,
          ⟨";", false, none, 20, 21, ⟨1, 7⟩, ⟨1, 8⟩, some ";", []⟩,
          ⟨"end", false, none, 22, 25, ⟨1, 9⟩, ⟨1, 12⟩, some "end", []⟩]⟩]⟩,
      ⟨"end", false, none, 26, 29, ⟨2, 0⟩, ⟨2, 3⟩, some "end", []⟩]⟩]⟩

/-- The text of that tree. -/
def scopeMarkText : SourceText :=
  { text := scopeMarkTree.written, path := "(string)", outcome := .tree scopeMarkTree false }

/-- A class with a visibility call for a class method, whose path is that of the method in the
other class. -/
def callTree : Node :=
  ⟨"program", true, none, 0, 56, ⟨0, 0⟩, ⟨5, 0⟩, some "class A\n  class << self\n    private :\"b::C#m\"\n  end\nend\n", [
    ⟨"class", true, none, 0, 55, ⟨0, 0⟩, ⟨4, 3⟩, some "class A\n  class << self\n    private :\"b::C#m\"\n  end\nend", [
      ⟨"class", false, none, 0, 5, ⟨0, 0⟩, ⟨0, 5⟩, some "class", []⟩,
      ⟨"constant", true, some "name", 6, 7, ⟨0, 6⟩, ⟨0, 7⟩, some "A", []⟩,
      ⟨"body_statement", true, some "body", 10, 51, ⟨1, 2⟩, ⟨3, 5⟩, some "class << self\n    private :\"b::C#m\"\n  end", [
        ⟨"singleton_class", true, none, 10, 51, ⟨1, 2⟩, ⟨3, 5⟩, some "class << self\n    private :\"b::C#m\"\n  end", [
          ⟨"class", false, none, 10, 15, ⟨1, 2⟩, ⟨1, 7⟩, some "class", []⟩,
          ⟨"<<", false, none, 16, 18, ⟨1, 8⟩, ⟨1, 10⟩, some "<<", []⟩,
          ⟨"self", true, some "value", 19, 23, ⟨1, 11⟩, ⟨1, 15⟩, some "self", []⟩,
          ⟨"body_statement", true, some "body", 28, 45, ⟨2, 4⟩, ⟨2, 21⟩, some "private :\"b::C#m\"", [
            ⟨"call", true, none, 28, 45, ⟨2, 4⟩, ⟨2, 21⟩, some "private :\"b::C#m\"", [
              ⟨"identifier", true, some "method", 28, 35, ⟨2, 4⟩, ⟨2, 11⟩, some "private", []⟩,
              ⟨"argument_list", true, some "arguments", 36, 45, ⟨2, 12⟩, ⟨2, 21⟩, some ":\"b::C#m\"", [
                ⟨"delimited_symbol", true, none, 36, 45, ⟨2, 12⟩, ⟨2, 21⟩, some ":\"b::C#m\"", [
                  ⟨":\"", false, none, 36, 38, ⟨2, 12⟩, ⟨2, 14⟩, some ":\"", []⟩,
                  ⟨"string_content", true, none, 38, 44, ⟨2, 14⟩, ⟨2, 20⟩, some "b::C#m", []⟩,
                  ⟨"\"", false, none, 44, 45, ⟨2, 20⟩, ⟨2, 21⟩, some "\"", []⟩]⟩]⟩]⟩]⟩,
          ⟨"end", false, none, 48, 51, ⟨3, 2⟩, ⟨3, 5⟩, some "end", []⟩]⟩]⟩,
      ⟨"end", false, none, 52, 55, ⟨4, 0⟩, ⟨4, 3⟩, some "end", []⟩]⟩]⟩

/-- The text of that tree. -/
def callText : SourceText :=
  { text := callTree.written, path := "(string)", outcome := .tree callTree false }

namespace Run

/-- The records of a run after the class with a keyword. -/
def privateRecords : Records := ((start {} none).document privateText).records

/-- Behind the keyword the definition is read with its visibility, so that the method gets it;
a visibility call for the name of the method changes that method. -/
theorem visibility_of_privateBody :
    Reaches {} privateRecords ∧
    walkAll classContext privateBody = (walkAll classContext (privateBody.take 1) >>= fun _ =>
      walkAll { classContext with visibility := .itself } (privateBody.drop 1)) ∧
    (runOn (processMethod { classContext with visibility := .itself } definitionNode)
      privateRecords).2.store.HasVisible "A#m" .itself ∧
    ∃ e, privateRecords.store.find? "A#m" = some e ∧ e.IsMethodOf "A" "m" .onInstances := by
  obtain ⟨-, -, hbody, -, hdefined, hnames⟩ := visibility_of_text {}
  have hreaches : Reaches {} privateRecords :=
    (IsGiven.source .start privateText.text privateText.path privateText.outcome).reaches
  refine ⟨hreaches, hbody classContext (privateBody.take 1) (privateBody.drop 1), ?_, ?_⟩
  · have hok : (runOn (processMethod { classContext with visibility := .itself } definitionNode)
        privateRecords).1 = .ok () := by decide +kernel
    exact (hdefined { classContext with visibility := .itself }
      (.method { node := definitionNode, parent := none, index := 1 }) _ _ rfl).2 privateRecords _
        hreaches (Prod.ext hok rfl) ("m", .onInstances) (by decide +kernel)
  · have hfound : (privateRecords.store.find? "A#m").any
        (fun e => e.isMethod && e.home == "A") = true := by decide +kernel
    cases hfind : privateRecords.store.find? "A#m" with
    | none =>
      rw [hfind] at hfound
      cases hfound
    | some e =>
      rw [hfind, Option.any_some, Bool.and_eq_true, beq_iff_eq] at hfound
      have hmeant := (hnames privateRecords hreaches classContext "m" .itself).2 e hfind hfound.1
      refine ⟨e, rfl, hmeant ?_ ?_⟩
      · rw [hfound.2]
        decide
      · decide

/-- A visibility call for a class method of one class changes the method of another name, in
another namespace and another scope, whose path is the same. -/
theorem not_isMethodOf_of_setVisibility :
    Reaches {} ((start {} none).document scopeMarkText).records ∧
    ((((start {} none).document scopeMarkText).records.store.find? "A.b::C#m").map fun e =>
      (e.home, e.name, e.facts?.map MethodFacts.scope, e.visibility?)) =
        some ("A.b::C", "m", some .onInstances, some .everyone) ∧
    (Entity.newMethod "A" "b::C#m" .onClass).path = "A.b::C#m" ∧
    ((((start {} none).documentAll [scopeMarkText, callText]).records.store.find? "A.b::C#m").map
      fun e => (e.home, e.name, e.facts?.map MethodFacts.scope, e.visibility?)) =
        some ("A.b::C", "m", some .onInstances, some .itself) := by
  have hgiven : IsGiven {} ((start {} none).document scopeMarkText) :=
    .source .start scopeMarkText.text scopeMarkText.path scopeMarkText.outcome
  refine ⟨hgiven.reaches, ?_⟩
  decide +kernel

end Run

end RubyDoc

import RubyDoc.Walk.Context
import RubyDoc.Docstring.Directives

/-!
# Constructors

When a class body closes, its fields become the keyword parameters of the
constructor. A constructor that is written by hand keeps its prose, its source
and its directives; its tags for the fields get the field types, and its
return tag is replaced. A field without a comment keeps the text that a
hand-written tag gave it.
-/

namespace RubyDoc

/-- The name of the constructor. -/
def constructorName : String := "initialize"

/-- The text of the last parameter tag of a name. -/
def writtenText (tags : List Tag) (name : String) : String :=
  match (tags.filter fun tag => tag.name == some name).getLast? with
  | some tag => tag.text
  | none => ""

/-- The tag of a field. -/
def fieldTag (written : List Tag) (f : FieldRecord) : Tag :=
  { tagName := "param"
    text := if f.doc == "" then writtenText written f.name else f.doc
    types := some f.types
    name := some f.name }

/-- The docstring of a constructor made of fields, from its earlier one. -/
def constructorDocstring (path : String) (fields : List FieldRecord) (earlier : String) :
    String :=
  let (docstring, directives) := extractDirectives earlier
  let written := docstring.tagsNamed "param"
  let cleared := docstring.removeTags "param" (some (fields.map FieldRecord.name))
  let withFields := fields.foldl (fun d f => d.addTag (fieldTag written f)) cleared
  let withReturn := (withFields.removeTags "return").addTag
    { tagName := "return", types := some [path] }
  addDirectives withReturn.print directives

/-- Make the constructor of a class of its fields. -/
def synthesiseConstructor (c : Context) (n : Node) (path classPath : String) : Action Unit := do
  let fields := (← get).fields.fieldsFor path
  if !fields.isEmpty then
    let known ← Action.inStore fun s => (s.method? path constructorName .onInstances).isSome
    let method ← Action.inStore fun s => s.findOrNewMethod path constructorName .onInstances
    let docstring := constructorDocstring path fields method.docstring
    let method ← Action.revise method fun e =>
      let e := e.mapFacts fun f =>
        { f with parameters := constructorParameters fields
                 explicit := some (f.explicit.getD false) }
      let source := e.source.getD (Text.joinLines (fields.map FieldRecord.source))
      let e := { e with source := some source }
      if e.file.isNone then c.declaredAt n e else e
    Action.register method known
    let _ ← Action.revise method fun e => { e with docstring }
    modify fun r => { r with fields := r.fields.markSynthesised path }
    Action.note .debug .constructors
      ("Synthesised " ++ method.path ++ " with " ++ toString fields.length ++
        " field parameter(s) for " ++ classPath)

end RubyDoc

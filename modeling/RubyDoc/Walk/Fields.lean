import RubyDoc.Walk.Methods
import RubyDoc.Docstring.Directives
import RubyDoc.TypeExpr.Printer
import RubyDoc.Text.Word

/-!
# Struct fields

A `const` or `prop` declaration names a field, then gives its type and its
options. The type is the second argument, or the value of the option `type`
where there is no second argument. Pairs are options wherever they stand; a
hash is one only behind the place of the type. Each declaration records a
field, registers a reader and fills the attribute table.
-/

namespace RubyDoc

open RubyDoc.Text

/-- Where a field declaration keeps its type. -/
inductive FieldForm where
  /-- In the second argument. -/
  | positional
  /-- In the option `type`. -/
  | keyword
deriving DecidableEq

namespace FieldForm

/-- The name of a form. -/
def name : FieldForm → String
  | positional => "positional"
  | keyword => "keyword"

/-- The index of the first argument that may be a hash of options. -/
def firstOption : FieldForm → Nat
  | positional => 2
  | keyword => 1

/-- The pairs that are options, from the arguments and their indices. -/
def optionPairs (form : FieldForm) (arguments : List (Node × Nat)) : List Node :=
  arguments.flatMap fun a =>
    if a.1.isPair then [a.1]
    else if a.1.isHash && form.firstOption ≤ a.2 then a.1.hashPairs
    else []

/-- The options of a declaration. -/
def options (form : FieldForm) (n : Node) : Except Fault Keywords :=
  Node.pairsByName (form.optionPairs n.arguments.zipIdx)

/-- The type expression of a declaration. -/
def typeNode (form : FieldForm) (n : Node) : Except Fault (Option Node) :=
  match form with
  | positional => .ok (n.arguments[1]?.filter fun a => !a.isPair)
  | keyword => (form.options n).map fun options => options.lookup "type"

/-- The form a declaration is written in; the positional one wins. -/
def detect (n : Node) : Except Fault FieldForm := do
  match ← positional.typeNode n with
  | some _ => return positional
  | none => return if (← keyword.typeNode n).isSome then keyword else positional

end FieldForm

/-- The kinds of nodes that can name a field. -/
def fieldNameKinds : List String :=
  ["simple_symbol", "delimited_symbol", "string", "hash_key_symbol"]

/-- Whether a text is a field name: a letter or underscore, word characters,
and at most one question or exclamation mark. One newline may follow. -/
def isFieldName (cs : List Char) : Bool :=
  match cs with
  | [] => false
  | c :: rest =>
    isNameStart c &&
      let after := rest.dropWhile isWord
      let after := match after with
        | '?' :: more | '!' :: more => more
        | _ => after
      after == [] || after == ['\n']

namespace Node

/-- The name of the field that a declaration declares. -/
def fieldName (n : Node) : Except Fault (Option String) :=
  match n.positionalArguments.head? with
  | some first =>
    if fieldNameKinds.contains first.kind then
      first.symbolName.map fun name => if isFieldName name.toList then some name else none
    else .ok none
  | none => .ok none

end Node

/-- Read a field declaration with a name. -/
def readField (c : Context) (n : Node) (form : FieldForm) (isProp : Bool) (name : String) :
    Action FieldRecord := do
  let typeNode ← Action.ofExcept (form.typeNode n)
  let types ← Action.ofReading (convertOptional typeNode)
  let options ← Action.ofExcept (form.options n)
  let immutable ← if isProp then
      match options.lookup "immutable" with
      | some value => (· == "true") <$> value.read
      | none => pure false
    else pure false
  let doc ← c.docstringOf n
  let source ← n.read
  let default ← match options.lookup "default" with
    | some value => some <$> value.read
    | none => pure none
  return { home := c.home.path, name, types, doc, source, default,
           mutable := isProp && !immutable }

/-- The docstring of a reader: the comment of the field and its type. -/
def readerDocstring (config : Config) (f : FieldRecord) : String :=
  let raw := if f.doc == "" then readerText (config.codeSpan f.name) else f.doc
  let (docstring, directives) := extractDirectives raw
  addDirectives (docstring.upsertTag "return" (some f.types)).print directives

/-- What the top level is called where a path is expected. -/
def shownHome (home : String) : String := if home == "" then "(top level)" else home

/-- Record a field and register its reader. -/
def defineField (c : Context) (n : Node) (form : FieldForm) (f : FieldRecord) : Action Unit := do
  modify fun r => { r with fields := r.fields.append f }
  let reader := c.declaredAt n
    { name := f.name, home := f.home, docstring := readerDocstring c.config f
      source := some f.source
      kind := .method { scope := c.scope, visibility := c.visibility } }
  Action.register reader
  c.putAttribute f.name
    { read := some reader.path, write := if f.mutable then some reader.path else none }
  Action.note .debug .fields
    ("Registered " ++ form.name ++ " field " ++ reader.path ++ " (" ++
      TypeExpr.listed f.types ++ ")")

/-- The place of a declaration as messages show it. -/
def Context.placeOf (c : Context) (n : Node) : String :=
  c.source.path ++ ":" ++ toString n.line

/-- Read a field declaration. -/
def processField (c : Context) (n : Node) (isProp : Bool) : Action Unit := do
  let form ← Action.ofExcept (FieldForm.detect n)
  match ← Action.ofExcept n.fieldName with
  | none =>
    Action.note .debug .fields
      ("Skipping " ++ (if isProp then "prop" else "const") ++ " without a field name at " ++
        c.placeOf n)
  | some name =>
    let f ← readField c n form isProp name
    if (← get).fields.hasField f.home f.name then
      if c.config.allowDuplicateFields then
        Action.note .warning .fields
          ("Duplicate field '" ++ f.name ++ "' in " ++ shownHome f.home ++
            "; both declarations are documented")
        defineField c n form f
      else
        Action.note .warning .fields
          ("Skipping duplicate field '" ++ f.name ++ "' in " ++ shownHome f.home ++ " at " ++
            c.placeOf n)
    else defineField c n form f

end RubyDoc

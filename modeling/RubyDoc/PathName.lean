import RubyDoc.Text.LetterCase
import RubyDoc.Text.Blank

/-!
# Path names of files

A path name is a list of components under an optional root. Empty components
and single dots say nothing and are left out; two dots are kept. Path names
are ordered component by component, each by code points.
-/

namespace RubyDoc

/-- A file's path name. -/
structure PathName where
  /-- Empty for a relative path, otherwise one slash, or two if exactly two
  slashes begin the text. -/
  root : String := ""
  /-- The components that say something. -/
  parts : List String
deriving DecidableEq

namespace PathName

/-- Cut a list at every slash. -/
def cutAtSlashes : List Char → List (List Char)
  | [] => [[]]
  | c :: cs =>
    if c == '/' then [] :: cutAtSlashes cs
    else match cutAtSlashes cs with
      | [] => [[c]]
      | first :: others => (c :: first) :: others

/-- The components of a text between slashes, as written. -/
def components (text : String) : List String := (cutAtSlashes text.toList).map String.ofList

/-- The root that a text begins with. -/
def rootOf (text : String) : String :=
  match (text.toList.takeWhile (· == '/')).length with
  | 0 => ""
  | 2 => "//"
  | _ => "/"

/-- Read a path name. -/
def ofText (text : String) : PathName :=
  { root := rootOf text, parts := (components text).filter fun p => p != "" && p != "." }

/-- A path name as text; the empty one is a single dot. -/
def toText (p : PathName) : String :=
  let text := p.root ++ String.intercalate "/" p.parts
  if text == "" then "." else text

/-- The path name of something inside a directory. -/
def append (p : PathName) (inner : List String) : PathName := { p with parts := p.parts ++ inner }

/-- The components for ordering, the root being one if there is one. -/
def key (p : PathName) : List String := if p.root == "" then p.parts else p.root :: p.parts

/-- Order by components, each by code points. -/
def le (a b : PathName) : Bool := !decide (b.key < a.key)

/-- The final component, empty if there is none. -/
def fileName (p : PathName) : String := p.parts.getLastD ""

/-- The part of a name from its last dot on, empty if that dot comes first or
last, or if there is none. -/
def extensionOf (name : String) : String :=
  let reversed := name.toList.reverse
  let ending := (reversed.takeWhile (· != '.')).reverse
  let before := (reversed.dropWhile (· != '.')).drop 1
  if ending.isEmpty || before.isEmpty then "" else String.ofList ('.' :: ending)

/-- The extension of the final component. -/
def fileExtension (p : PathName) : String := extensionOf p.fileName

/-- The extensions of Ruby sources and of Ruby interface files. -/
def defaultExtensions : List String := [".rb", ".rbi"]

/-- Whether the lower-cased extension is an accepted one; an empty list stands
for the default extensions. -/
def isSupported (p : PathName) (extensions : List String := []) : Bool :=
  (if extensions.isEmpty then defaultExtensions else extensions).contains
    (Text.lower p.fileExtension)

end PathName

end RubyDoc

import RubyDoc.PathName
import RubyDoc.Node.Basic
import RubyDoc.Text.Lines

/-!
# Workspaces

A workspace is the tree of files that a run reads. It holds directories and
files under their components from the top; every directory on the way to a
file is there too. A file knows its bytes and what the parser makes of its
text. Paths are resolved one component at a time, and only through directories.
All files and directories may be read and stay as they are: permissions, links,
devices, and what fails while a file is read are left out.
-/

namespace RubyDoc

/-- What the parser makes of a text. -/
inductive ParseOutcome where
  /-- A tree, and whether errors had to be skipped over. -/
  | tree (root : Node) (hasErrors : Bool)
  /-- The parser refuses the text. -/
  | rejected

/-- A file or a directory. -/
inductive FileItem where
  | directory
  /-- A file with its bytes and the parser for its text. -/
  | file (content : ByteArray) (parse : String → ParseOutcome)

/-- Why a file could not be used. -/
inductive Cause where
  | notFound | isDirectory | notDirectory | notText | badValue
  /-- A component of the path, or all of it, is too long. -/
  | nameTooLong
  /-- The path holds a character that no path has. -/
  | nulInPath
deriving DecidableEq

/-- The label that messages refer to a cause by. -/
def Cause.label : Cause → String
  | notFound => "<FileNotFoundError>"
  | isDirectory => "<IsADirectoryError>"
  | notDirectory => "<NotADirectoryError>"
  | notText => "<UnicodeDecodeError>"
  | badValue | nulInPath => "<ValueError>"
  | nameTooLong => "<OSError>"

/-- Files and directories under their components from the top. -/
structure Workspace where
  /-- The entries, the top itself not among them. -/
  entries : List (List String × FileItem) := []

namespace Workspace

/-- What is at some components from the top. -/
def at? (w : Workspace) (parts : List String) : Option FileItem :=
  if parts.isEmpty then some .directory else w.entries.lookup parts

/-- Put a directory in if nothing is there. -/
def putDirectory (w : Workspace) (parts : List String) : Workspace :=
  if (w.at? parts).isSome then w else { entries := w.entries ++ [(parts, .directory)] }

/-- Put an item in, with the directories on the way to it. -/
def put (w : Workspace) (parts : List String) (item : FileItem) : Workspace :=
  let withParents := ((List.range parts.length).map parts.take).foldl putDirectory w
  if (withParents.at? parts).isSome then
    { entries := withParents.entries.map fun e => if e.1 == parts then (parts, item) else e }
  else { entries := withParents.entries ++ [(parts, item)] }

/-- A workspace from path names and items. -/
def ofList (items : List (String × FileItem)) : Workspace :=
  items.foldl (fun w i => w.put (PathName.ofText i.1).parts i.2) {}

/-- Go on from some components by others. Single dots and empty components
stay, two dots go up. A component has at most 255 bytes, a path 4095. -/
def follow (w : Workspace) (here : List String) : List String → Except Cause (List String)
  | [] =>
    match w.at? here with
    | some _ => .ok here
    | none => .error .notFound
  | part :: rest =>
    match w.at? here with
    | none => .error .notFound
    | some (.file _ _) => .error .notDirectory
    | some .directory =>
      if part == "" || part == "." then w.follow here rest
      else if part == ".." then w.follow here.dropLast rest
      else if 255 < part.utf8ByteSize then .error .nameTooLong
      else w.follow (here ++ [part]) rest

/-- Where a path leads, as components from the top, and what is there. The
workspace holds no absolute paths. -/
def resolve (w : Workspace) (path : String) : Except Cause (List String × FileItem) :=
  if path.toList.contains '\x00' then .error .nulInPath
  else if 4095 < path.utf8ByteSize then .error .nameTooLong
  else if path == "" || Text.beginsWith "/" path then .error .notFound
  else
    match w.follow [] (PathName.components path) with
    | .error cause => .error cause
    | .ok parts =>
      match w.at? parts with
      | some item => .ok (parts, item)
      | none => .error .notFound

/-- Whether a path leads to a directory. -/
def isDirectory (w : Workspace) (path : String) : Bool :=
  match w.resolve path with
  | .ok (_, .directory) => true
  | _ => false

/-- The components of a path from the top, two dots going up, if it stays below
the top. -/
def partsBelow? (path : String) : Option (List String) :=
  (PathName.components path).foldlM (fun here part =>
    if part == "" || part == "." then some here
    else if part == ".." then (if here.isEmpty then none else some here.dropLast)
    else some (here ++ [part])) []

/-- Whether a file can be written at a path: its directory is there, and it is no
directory itself. What is written to the null device is dropped. -/
def canWrite (w : Workspace) (path : String) : Bool :=
  path == "/dev/null" ||
    (!path.toList.contains '\x00' && !Text.beginsWith "/" path &&
      match partsBelow? path with
      | none => false
      | some parts =>
        !parts.isEmpty && parts.all (fun part => part.utf8ByteSize ≤ 255) &&
          match w.at? parts.dropLast, w.at? parts with
          | some .directory, some .directory => false
          | some .directory, _ => true
          | _, _ => false)

/-- The text of some bytes. -/
def decode (content : ByteArray) : Except Cause String :=
  match String.fromUTF8? content with
  | some text => .ok text
  | none => .error .notText

/-- The text of some bytes with newlines for all line ends of text files. -/
def decodeLines (content : ByteArray) : Except Cause String :=
  (decode content).map fun text => String.ofList (Text.unifyNewlines text.toList)

/-- The bytes of the file that a path leads to. -/
def bytesAt (w : Workspace) (path : String) : Except Cause ByteArray :=
  match w.resolve path with
  | .error cause => .error cause
  | .ok (_, .directory) => .error .isDirectory
  | .ok (_, .file content _) => .ok content

/-- The components, behind a directory, of the files and directories inside it. -/
def allIn (w : Workspace) (directory : List String) : List (List String) :=
  w.entries.filterMap fun e =>
    if directory.isPrefixOf e.1 && directory != e.1 then some (e.1.drop directory.length) else none

/-- The components, behind a directory, of the files inside it. -/
def filesIn (w : Workspace) (directory : List String) : List (List String) :=
  w.entries.filterMap fun e =>
    match e.2 with
    | .directory => none
    | .file _ _ => if directory.isPrefixOf e.1 then some (e.1.drop directory.length) else none

end Workspace

end RubyDoc

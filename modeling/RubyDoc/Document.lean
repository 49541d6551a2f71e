import RubyDoc.Workspace
import RubyDoc.Yaml.Node.Value

/-!
# Documents in files

Settings are kept in YAML documents. A file can fail to give one in several
ways: it cannot be opened, it is no text, the text is no YAML, a scalar in it has
no value, or the document is no map. Whether the last is a failure is for the
reader of the settings to say. How a text is read as YAML may be left open.
-/

namespace RubyDoc

/-- Why a file gives no settings. -/
inductive DocumentFault where
  /-- The file cannot be opened. -/
  | unreadable (path : String) (cause : Cause)
  /-- The file is no text. -/
  | notText
  /-- The path cannot even be looked for. -/
  | badPath
  /-- The text is no YAML. -/
  | malformed (path : String)
  /-- A scalar has no value under its tag. -/
  | noValue (fault : Yaml.Fault)
  /-- The document is no map. -/
  | notMap (path : String)
deriving DecidableEq

/-- The label that messages refer to a cause by. -/
def Yaml.Fault.label : Yaml.Fault → String
  | malformed => "<YAMLError>"
  | badValue => "<ValueError>"
  | unknownWord => "<KeyError>"
  | emptyNumber => "<IndexError>"
  | noDate => "<AttributeError>"
  | codeTooLarge => "<OverflowError>"
  | tooDeep => "<RecursionError>"

/-- The wording of a fault. -/
def DocumentFault.message : DocumentFault → String
  | unreadable path cause => "Failed to read config file " ++ path ++ ": " ++ cause.label
  | notText => Cause.notText.label
  | badPath => Cause.nulInPath.label
  | malformed path => "Failed to parse YAML config " ++ path ++ ": " ++ Yaml.Fault.malformed.label
  | noValue fault => fault.label
  | notMap path => "Invalid configuration format in " ++ path

/-- Read the YAML document in a file. -/
def readDocument (w : Workspace) (path : String) (load : Yaml.Load := Yaml.load) :
    Except DocumentFault Yaml.Document :=
  match w.bytesAt path with
  | .error .nulInPath => .error .badPath
  | .error cause => .error (.unreadable path cause)
  | .ok bytes =>
    match Workspace.decodeLines bytes with
    | .error _ => .error .notText
    | .ok text =>
      match load text with
      | .ok d => .ok d
      | .error .malformed => .error (.malformed path)
      | .error fault => .error (.noValue fault)

/-- Read a YAML document that has to be a map. -/
def readMap (w : Workspace) (path : String) (load : Yaml.Load := Yaml.load) :
    Except DocumentFault Yaml.Document :=
  match readDocument w path load with
  | .error fault => .error fault
  | .ok d => if (d.entriesOf? d.root).isSome then .ok d else .error (.notMap path)

end RubyDoc

import RubyDoc.Config.Schema
import RubyDoc.Document

/-!
# Reading the configuration

A configuration comes from properties or from a YAML file. An empty document
gives the defaults, and a document that is no map is refused.
-/

namespace RubyDoc

/-- Why there is no configuration. -/
inductive ConfigFault where
  /-- Settings do not fit. -/
  | invalid (complaints : List Complaint)
  /-- The file gives no settings. -/
  | document (fault : DocumentFault)
deriving DecidableEq

namespace ConfigFault

/-- The wording of a fault. -/
def message : ConfigFault → String
  | invalid _ => "Invalid sorbet-docs configuration: <ValidationError>"
  | document fault => fault.message

/-- Whether a fault is told as one of the configuration. A file that is no
text is not, nor is a scalar without a value. -/
def isConfigError : ConfigFault → Bool
  | document .notText | document .badPath | document (.noValue _) => false
  | _ => true

end ConfigFault

namespace Config

/-- Read a configuration from properties. -/
def ofProperties (entries : List (Value × Value)) : Except ConfigFault Config :=
  (ofEntries entries).mapError .invalid

/-- Read a configuration from a YAML file. -/
def ofFile (w : Workspace) (path : String) (load : Yaml.Load := Yaml.load) :
    Except ConfigFault Config :=
  match readDocument w path load with
  | .error fault => .error (.document fault)
  | .ok d =>
    match d.value with
    | .map entries => ofProperties entries
    | v => if v.isEmptyLike then ofProperties [] else .error (.document (.notMap path))

end Config

end RubyDoc

/-!
# YAML nodes

A document is made of nodes, each of which has a tag that says what it stands
for. A node may be part of several others, and of itself, so all nodes stand in
one row and name their parts by their places in it.
-/

namespace RubyDoc.Yaml

/-- The tags that have a meaning here. -/
inductive Tag where
  | null | bool | int | real | binary | timestamp | text
  | sequence | mapping | orderedMap | pairs | set
  /-- The tag of the key that merges other maps into its own. -/
  | merge
  /-- The tag of the key for the value of a map that is used as a scalar. -/
  | content
  /-- Any other tag; no value goes with it. -/
  | unknown
deriving DecidableEq

/-- The tag of an address. -/
def Tag.ofAddress (address : String) : Tag :=
  match address with
  | "tag:yaml.org,2002:null" => null
  | "tag:yaml.org,2002:bool" => bool
  | "tag:yaml.org,2002:int" => int
  | "tag:yaml.org,2002:float" => real
  | "tag:yaml.org,2002:binary" => binary
  | "tag:yaml.org,2002:timestamp" => timestamp
  | "tag:yaml.org,2002:str" => text
  | "tag:yaml.org,2002:seq" => sequence
  | "tag:yaml.org,2002:map" => mapping
  | "tag:yaml.org,2002:omap" => orderedMap
  | "tag:yaml.org,2002:pairs" => pairs
  | "tag:yaml.org,2002:set" => set
  | "tag:yaml.org,2002:merge" => merge
  | "tag:yaml.org,2002:value" => content
  | _ => unknown

/-- A node of a document. -/
inductive Node where
  | scalar (tag : Tag) (text : String)
  | sequence (tag : Tag) (items : List Nat)
  | mapping (tag : Tag) (entries : List (Nat × Nat))
deriving DecidableEq

namespace Node

/-- The tag of a node. -/
def tag : Node → Tag
  | scalar tag _ | sequence tag _ | mapping tag _ => tag

/-- Give a node another tag. -/
def withTag (tag : Tag) : Node → Node
  | scalar _ text => scalar tag text
  | sequence _ items => sequence tag items
  | mapping _ entries => mapping tag entries

end Node

/-- All nodes of a document. -/
structure Graph where
  /-- The nodes by their places. -/
  nodes : Array Node
  /-- The place of the node that is the whole document. -/
  root : Nat

end RubyDoc.Yaml

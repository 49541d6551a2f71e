import RubyDoc.Node.Basic
import RubyDoc.Text.Blank

/-!
# Calls, arguments and names

What a call is named, which arguments it has, and which of them are pairs.
The names of keyword arguments are symbols or strings without their marks;
a repeated key keeps its first place and takes its last value.
-/

namespace RubyDoc

open RubyDoc.Text

/-- A mapping in the order in which its keys were first put in. -/
abbrev Keywords := List (String × Node)

namespace Keywords

/-- Put a key in, or give a key that is there another value. -/
def put (key : String) (value : Node) : Keywords → Keywords
  | [] => [(key, value)]
  | (k, v) :: rest => if k == key then (k, value) :: rest else (k, v) :: put key value rest

end Keywords

namespace Node

/-- Whether a node is a call. -/
def isCall (n : Node) : Bool := n.kind == "call"

/-- The method name of a call; other nodes have none. -/
def callName (n : Node) : Except Fault (Option String) :=
  if n.isCall then
    match n.child? "method" with
    | some name => name.legible.map some
    | none => .ok none
  else .ok none

/-- Whether a node is a call without receiver to one of the names. -/
def isBareCall (n : Node) (names : List String) : Except Fault Bool :=
  if n.isCall && (n.child? "receiver").isNone then
    n.callName.map fun name => name.any names.contains
  else .ok false

/-- The arguments of a call with their sites, without punctuation and comments. -/
def argumentSites (n : Node) : List Site :=
  match n.child? "arguments" with
  | some list => list.sites.filter fun s => s.node.named && !s.node.isComment
  | none => []

/-- The arguments of a call, without punctuation and comments. -/
def arguments (n : Node) : List Node := n.argumentSites.map Site.node

/-- Whether a node is a pair of key and value. -/
def isPair (n : Node) : Bool := n.kind == "pair"

/-- Whether a node is a hash literal. -/
def isHash (n : Node) : Bool := n.kind == "hash"

/-- The arguments that are neither pairs nor hashes. -/
def positionalArguments (n : Node) : List Node :=
  n.arguments.filter fun a => !a.isPair && !a.isHash

/-- The pairs of a hash literal. -/
def hashPairs (n : Node) : List Node := n.namedChildren.filter isPair

/-- Take one mark off the front and one off the back of a name. -/
def withoutColons (s : String) : String := withoutEnd ":" (withoutStart ":" s)

/-- Take a pair of equal quotation marks off a name. -/
def withoutQuotes (cs : List Char) : List Char :=
  match cs with
  | mark :: rest =>
    if !rest.isEmpty && rest.getLast? == some mark && (mark == '"' || mark == '\'') then
      rest.dropLast
    else cs
  | [] => []

/-- The name that a symbol, a string or a key stands for. -/
def symbolName (n : Node) : Except Fault String :=
  n.legible.map fun text =>
    String.ofList (withoutQuotes (withoutColons (strip text)).toList)

/-- Put one pair into a mapping; a node without key or value changes nothing. -/
def putPair (keywords : Keywords) (pair : Node) : Except Fault Keywords :=
  match pair.child? "key", pair.child? "value" with
  | some key, some value => key.symbolName.map fun name => keywords.put name value
  | _, _ => .ok keywords

/-- The mapping that a list of pairs makes. -/
def pairsByName (pairs : List Node) : Except Fault Keywords := pairs.foldlM putPair []

/-- The pairs among the arguments of a call and in hash literals among them. -/
def keywordPairs (n : Node) : List Node :=
  n.arguments.flatMap fun a => if a.isPair then [a] else if a.isHash then a.hashPairs else []

/-- The keyword arguments of a call. -/
def keywordArguments (n : Node) : Except Fault Keywords := pairsByName n.keywordPairs

/-- The fields that belong to the header of a definition. -/
def headerFields : List String := ["name", "superclass", "parameters", "object", "value"]

/-- The statements of a definition or block, comments included, with their
sites. Without a body node they stand among the children, beside the header. -/
def bodySites (n : Node) : List Site :=
  match n.child? "body" with
  | some body => body.sites.filter fun s => s.node.named
  | none => n.sites.filter fun s =>
      s.node.named && !headerFields.any fun field => n.isFieldIndex field s.index

/-- The statements of a definition or block. -/
def bodyStatements (n : Node) : List Node := n.bodySites.map Site.node

/-- The kinds of nodes that write a name: symbols and strings. -/
def nameKinds : List String := ["simple_symbol", "delimited_symbol", "string"]

/-- Selected sites of a node weigh less than the node. -/
theorem totalWeight_filter_sites (n : Node) (p : Site → Bool) :
    Site.totalWeight (n.sites.filter p) < n.weight := by
  have sub : ((n.sites.filter p).map Site.node).Sublist n.children := by
    have := List.Sublist.map Site.node (List.filter_sublist (p := p) (l := n.sites))
    rwa [map_node_sites] at this
  have := totalWeight_le_of_sublist sub
  rw [weight_eq n, Site.totalWeight]; omega

/-- The arguments of a call weigh less than the call. -/
theorem totalWeight_argumentSites (n : Node) : Site.totalWeight n.argumentSites < n.weight := by
  unfold argumentSites
  split
  · next list found =>
    exact Nat.lt_trans (totalWeight_filter_sites list _)
      (weight_lt_of_mem_children (mem_of_child? found))
  · simpa [Site.totalWeight] using weight_pos n

/-- The statements of a body weigh less than the definition. -/
theorem totalWeight_bodySites (n : Node) : Site.totalWeight n.bodySites < n.weight := by
  unfold bodySites
  split
  · next body found =>
    exact Nat.lt_trans (totalWeight_filter_sites body _)
      (weight_lt_of_mem_children (mem_of_child? found))
  · exact totalWeight_filter_sites n _

/-- An argument is lighter than its call. -/
theorem weight_lt_of_mem_arguments {a n : Node} (h : a ∈ n.arguments) : a.weight < n.weight :=
  Nat.lt_of_le_of_lt (weight_le_of_mem h) (totalWeight_argumentSites n)

end Node

/-- Whether a node is the method name of the call around it. -/
def Site.isMethodName (s : Site) : Bool := s.standsIn "method" && s.parent.any Node.isCall

end RubyDoc

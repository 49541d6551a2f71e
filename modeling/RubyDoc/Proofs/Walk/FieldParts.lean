import RubyDoc.Proofs.Walk.Fields
import RubyDoc.Proofs.Walk.Visible

/-!
# The parts of a field declaration

A field declaration gives the name first, then the type and the options. Each part is
told here with its address in the list of arguments, so that parts can be said to stand
apart from each other: no option stands inside the type, and the type stands inside an
option only as the value of the option `type`. An option is a pair with a key and a
value; of several with one key the last counts.
-/

namespace RubyDoc

open RubyDoc.Action

/-! ### Mappings -/

theorem Keywords.lookup_put (key : String) (value : Node) (keywords : Keywords) (other : String) :
    (keywords.put key value).lookup other =
      if other = key then some value else keywords.lookup other := by
  induction keywords with
  | nil =>
    rw [put, List.lookup_cons]
    by_cases h : other = key
    · rw [beq_iff_eq.mpr h, if_pos h]
    · rw [beq_eq_false_iff_ne.mpr h, if_neg h]
  | cons entry rest ih =>
    obtain ⟨k, v⟩ := entry
    rw [put]
    by_cases hk : k = key
    · subst hk
      rw [if_pos (beq_self_eq_true k), List.lookup_cons, List.lookup_cons]
      by_cases h : other = k
      · rw [beq_iff_eq.mpr h, if_pos h]
      · rw [beq_eq_false_iff_ne.mpr h, if_neg h]
    · rw [if_neg (by simpa using hk), List.lookup_cons, List.lookup_cons, ih]
      by_cases h : other = k
      · have hne : other ≠ key := fun he => hk (h.symm.trans he)
        rw [if_neg hne, if_neg hne, beq_iff_eq.mpr h]
      · rw [beq_eq_false_iff_ne.mpr h]

namespace Node

/-- The value of a pair that has a value and this name for its key. -/
def valueAt? (name : String) (pair : Node) : Option Node :=
  match pair.child? "key", pair.child? "value" with
  | some key, some value => if key.symbolName.toOption = some name then some value else none
  | _, _ => none

/-- Putting a pair into a mapping changes what is found under its own name. -/
theorem lookup_putPair {keywords more : Keywords} {pair : Node}
    (h : putPair keywords pair = .ok more) (name : String) :
    more.lookup name = (pair.valueAt? name).or (keywords.lookup name) := by
  rw [putPair] at h
  rw [valueAt?]
  cases hkey : pair.child? "key" with
  | none =>
    rw [hkey] at h
    rw [Except.ok.inj h, Option.none_or]
  | some key =>
    cases hvalue : pair.child? "value" with
    | none =>
      rw [hkey, hvalue] at h
      rw [Except.ok.inj h, Option.none_or]
    | some value =>
      rw [hkey, hvalue] at h
      dsimp only at h ⊢
      cases hname : key.symbolName with
      | error fault =>
        rw [hname] at h
        cases h
      | ok called =>
        rw [hname] at h
        have htold : (Except.ok (ε := Fault) called).toOption = some called := rfl
        rw [← Except.ok.inj h, Keywords.lookup_put, htold]
        by_cases hc : name = called
        · rw [if_pos hc, hc, if_pos rfl, Option.some_or]
        · have hne : some called ≠ some name := fun he => hc (Option.some.inj he).symm
          rw [if_neg hc, if_neg hne, Option.none_or]

/-- In the mapping that pairs make, the last pair of a name counts. -/
theorem lookup_pairsByName {pairs : List Node} {keywords : Keywords}
    (h : pairsByName pairs = .ok keywords) (name : String) :
    keywords.lookup name = (pairs.filterMap (valueAt? name)).getLast? := by
  have hfold : ∀ (ps : List Node) (known : Keywords), ps.foldlM putPair known = .ok keywords →
      keywords.lookup name =
        ((ps.filterMap (valueAt? name)).getLast?).or (known.lookup name) := by
    intro ps
    induction ps with
    | nil =>
      intro known hk
      rw [Except.ok.inj hk]
      rfl
    | cons p ps ih =>
      intro known hk
      rw [List.foldlM_cons] at hk
      cases hp : putPair known p with
      | error fault =>
        rw [hp] at hk
        cases hk
      | ok more =>
        rw [hp] at hk
        rw [ih more hk, lookup_putPair hp]
        cases hv : p.valueAt? name with
        | none => rw [List.filterMap_cons_none hv, Option.none_or]
        | some value =>
          rw [List.filterMap_cons_some hv, List.getLast?_cons, Option.some_or]
          cases (ps.filterMap (valueAt? name)).getLast? <;> rfl
  rw [hfold pairs [] h, List.lookup_nil, Option.or_none]

/-! ### Places -/

/-- The node at an address: from child to child by their indices. -/
def descend : Node → List Nat → Option Node
  | n, [] => some n
  | n, i :: rest => n.children[i]?.bind fun c => descend c rest

theorem descend_append (n : Node) (before after : List Nat) :
    n.descend (before ++ after) = (n.descend before).bind fun c => c.descend after := by
  induction before generalizing n with
  | nil => rfl
  | cons i rest ih =>
    rw [List.cons_append, descend, descend]
    cases n.children[i]? with
    | none => rfl
    | some c => exact ih c

theorem descend_of_mem_sites {n : Node} {s : Site} (h : s ∈ n.sites) :
    n.descend [s.index] = some s.node := by
  obtain ⟨p, hp, rfl⟩ := List.mem_map.mp h
  have hget := List.mk_mem_zipIdx_iff_getElem?.mp hp
  rw [descend, hget]
  rfl

/-- The pairs of a hash with their sites. -/
def hashPairSites (n : Node) : List Site := n.sites.filter fun s => s.node.named && s.node.isPair

theorem map_node_hashPairSites (n : Node) : n.hashPairSites.map Site.node = n.hashPairs := by
  have hfilter : n.hashPairs = n.children.filter fun c => c.named && c.isPair := by
    rw [hashPairs, namedChildren, List.filter_filter]
    simp only [Bool.and_comm]
  rw [hfilter, ← map_node_sites, List.filter_map]
  rfl

end Node

/-- A node with its address in a list of arguments. -/
structure Place where
  /-- The indices of the children on the way to it. -/
  address : List Nat
  /-- The node itself. -/
  node : Node

namespace Place

/-- Neither of two places is inside the other, or is the other. -/
def Apart (p q : Place) : Prop := ¬ p.address <+: q.address ∧ ¬ q.address <+: p.address

/-- The place of the value of a pair with a name. -/
def valueAt? (name : String) (pair : Place) : Option Place :=
  (pair.node.valueAt? name).bind fun _ =>
    (pair.node.childSite? "value").map fun s => ⟨pair.address ++ [s.index], s.node⟩

end Place

namespace Node

/-- The place of an argument. -/
def argumentPlace? (n : Node) (k : Nat) : Option Place :=
  n.argumentSites[k]?.map fun s => ⟨[s.index], s.node⟩

/-- The places of the options of a field declaration: of the pairs among its arguments, and
of the pairs of a hash that stands behind the second argument. -/
def optionPlaces (n : Node) : List Place :=
  n.argumentSites.zipIdx.flatMap fun a =>
    if a.1.node.isPair then [⟨[a.1.index], a.1.node⟩]
    else if a.1.node.isHash && 2 ≤ a.2 then
      a.1.node.hashPairSites.map fun s => ⟨[a.1.index, s.index], s.node⟩
    else []

/-- The place of the value of the last option of a name. -/
def optionPlace? (n : Node) (name : String) : Option Place :=
  (n.optionPlaces.filterMap (Place.valueAt? name)).getLast?

/-- The place of the type of a field declaration: the second argument, if it is no pair, or
else the value of the last option `type`. -/
def typePlace? (n : Node) : Option Place :=
  ((n.argumentPlace? 1).filter fun p => !p.node.isPair).or (n.optionPlace? "type")

/-- The child in a field is the node of its site. -/
theorem map_node_childSite? (n : Node) (field : String) :
    (n.childSite? field).map Site.node = n.child? field := by
  rw [childSite?, child?, ← map_node_sites, List.find?_map]
  rfl

end Node

theorem Place.map_node_valueAt? (name : String) (pair : Place) :
    (pair.valueAt? name).map Place.node = pair.node.valueAt? name := by
  rw [valueAt?, Node.valueAt?, ← Node.map_node_childSite? pair.node "value"]
  cases pair.node.child? "key" with
  | none => rfl
  | some key =>
    cases pair.node.childSite? "value" with
    | none => rfl
    | some s =>
      dsimp only [Option.map_some]
      split <;> rfl

namespace Node

variable {n : Node}

/-- What a mapping of all options says under a name. -/
theorem lookup_options {keywords : Keywords}
    (h : pairsByName (n.optionPlaces.map Place.node) = .ok keywords) (name : String) :
    keywords.lookup name = (n.optionPlace? name).map Place.node := by
  rw [lookup_pairsByName h, optionPlace?, ← List.getLast?_map, List.map_filterMap,
    List.filterMap_map]
  congr 2
  funext place
  exact (Place.map_node_valueAt? name place).symm

/-- Every form reads the same options, unless the second argument is a hash, which one of
them takes for the type. -/
theorem options_eq {form : FieldForm} {first : Site} (hfirst : n.argumentSites[0]? = some first)
    (hhash : first.node.isHash = false)
    (hsecond : form = .positional ∨ ∀ s ∈ n.argumentSites[1]?, s.node.isHash = false) :
    form.options n = pairsByName (n.optionPlaces.map Place.node) := by
  have hpairs : form.optionPairs n.arguments.zipIdx = n.optionPlaces.map Place.node := by
    rw [FieldForm.optionPairs, arguments, List.zipIdx_map, List.flatMap_map, optionPlaces,
      List.map_flatMap]
    refine List.flatMap_congr fun a ha => ?_
    obtain ⟨s, k⟩ := a
    have hget : n.argumentSites[k]? = some s := List.mk_mem_zipIdx_iff_getElem?.mp ha
    have hlate : (s.node.isHash && decide (form.firstOption ≤ k)) =
        (s.node.isHash && decide (2 ≤ k)) := by
      cases hk : s.node.isHash with
      | false => rfl
      | true =>
        have hzero : k ≠ 0 := by
          rintro rfl
          rw [hfirst, Option.some.injEq] at hget
          rw [hget, hk] at hhash
          cases hhash
        have hone : form = .positional ∨ k ≠ 1 := hsecond.imp_right fun hno he => by
          rw [hno s (he ▸ hget)] at hk
          cases hk
        rw [Bool.true_and, Bool.true_and, decide_eq_decide]
        rcases hone with rfl | hone
        · exact Iff.rfl
        · cases form with
          | positional => exact Iff.rfl
          | keyword =>
            rw [FieldForm.firstOption]
            omega
    change (if s.node.isPair then [s.node]
      else if s.node.isHash && decide (form.firstOption ≤ k) then s.node.hashPairs else []) = _
    rw [hlate]
    dsimp only
    split
    · rfl
    · split
      · rw [List.map_map, ← map_node_hashPairSites]
        rfl
      · rfl
  rw [FieldForm.options, hpairs]

/-- A pair is no hash. -/
theorem isHash_of_isPair {m : Node} (h : m.isPair = true) : m.isHash = false := by
  rw [isPair, beq_iff_eq] at h
  rw [isHash, h]
  rfl

/-- The second argument is the type, if it is no pair. -/
theorem typeNode_eq_of_second {form : FieldForm} {s : Site} (hs : n.argumentSites[1]? = some s)
    (hpair : s.node.isPair = false) (hform : FieldForm.detect n = .ok form) :
    form = .positional ∧ form.typeNode n = .ok (n.typePlace?.map Place.node) := by
  have hpositional : FieldForm.positional.typeNode n = .ok (some s.node) := by
    rw [FieldForm.typeNode, arguments, List.getElem?_map, hs, Option.map_some, Option.filter_some,
      hpair]
    rfl
  have hplace : n.argumentPlace? 1 = some ⟨[s.index], s.node⟩ := by
    rw [argumentPlace?, hs]
    rfl
  rw [FieldForm.detect, hpositional] at hform
  cases hform
  refine ⟨rfl, ?_⟩
  rw [hpositional, typePlace?, hplace, Option.filter_some, hpair]
  rfl

/-- The last option `type` is the type, if the second argument is a pair or there is none. -/
theorem typeNode_eq_of_pair {form : FieldForm}
    (hpair : ∀ s ∈ n.argumentSites[1]?, s.node.isPair = true)
    (hoptions : ∀ form : FieldForm, form.options n = pairsByName (n.optionPlaces.map Place.node))
    (hform : FieldForm.detect n = .ok form) :
    form.typeNode n = .ok (n.typePlace?.map Place.node) := by
  have hnone : FieldForm.positional.typeNode n = .ok none := by
    rw [FieldForm.typeNode, arguments, List.getElem?_map]
    cases hs : n.argumentSites[1]? with
    | none => rfl
    | some s => rw [Option.map_some, Option.filter_some, hpair s hs]; rfl
  have hfallback : n.typePlace? = n.optionPlace? "type" := by
    rw [typePlace?, argumentPlace?]
    cases hs : n.argumentSites[1]? with
    | none => rfl
    | some s => rw [Option.map_some, Option.filter_some, hpair s hs]; rfl
  rw [FieldForm.detect, hnone, FieldForm.typeNode, hoptions .keyword] at hform
  rw [hfallback]
  cases hk : pairsByName (n.optionPlaces.map Place.node) with
  | error fault =>
    rw [hk] at hform
    cases hform
  | ok keywords =>
    rw [hk] at hform
    change Except.ok (if (keywords.lookup "type").isSome then FieldForm.keyword
      else .positional) = Except.ok form at hform
    rw [← lookup_options hk "type", ← Except.ok.inj hform]
    cases hl : keywords.lookup "type" with
    | none => exact hnone
    | some type =>
      rw [Option.isSome_some, if_pos rfl, FieldForm.typeNode, hoptions .keyword, hk, ← hl]
      rfl

/-- The form of a declaration says where its type is. -/
theorem typeNode_eq {form : FieldForm} {first : Site} (hfirst : n.argumentSites[0]? = some first)
    (hhash : first.node.isHash = false) (hform : FieldForm.detect n = .ok form) :
    form.typeNode n = .ok (n.typePlace?.map Place.node) ∧
      form.options n = pairsByName (n.optionPlaces.map Place.node) := by
  by_cases htype : ∃ s, n.argumentSites[1]? = some s ∧ s.node.isPair = false
  · obtain ⟨s, hs, hpair⟩ := htype
    obtain ⟨rfl, hnode⟩ := typeNode_eq_of_second hs hpair hform
    exact ⟨hnode, options_eq hfirst hhash (.inl rfl)⟩
  · have hpair : ∀ s ∈ n.argumentSites[1]?, s.node.isPair = true := fun s hs => by
      cases hp : s.node.isPair with
      | true => rfl
      | false => exact absurd ⟨s, hs, hp⟩ htype
    have hoptions : ∀ form : FieldForm,
        form.options n = pairsByName (n.optionPlaces.map Place.node) := fun form =>
      options_eq hfirst hhash (.inr fun s hs => isHash_of_isPair (hpair s hs))
    exact ⟨typeNode_eq_of_pair hpair hoptions hform, hoptions form⟩

/-- What an option is: a pair among the arguments, or a pair of a later hash. -/
theorem of_mem_optionPlaces {o : Place} (h : o ∈ n.optionPlaces) :
    ∃ (k : Nat) (s : Site), n.argumentSites[k]? = some s ∧
      (s.node.isPair = true ∧ o = ⟨[s.index], s.node⟩ ∨
        2 ≤ k ∧ s.node.isHash = true ∧ ∃ t ∈ s.node.sites, t.node.isPair = true ∧
          o = ⟨[s.index, t.index], t.node⟩) := by
  obtain ⟨a, ha, hmem⟩ := List.mem_flatMap.mp h
  refine ⟨a.2, a.1, List.mk_mem_zipIdx_iff_getElem?.mp ha, ?_⟩
  split at hmem
  · next hpair => exact .inl ⟨hpair, List.mem_singleton.mp hmem⟩
  · split at hmem
    · next hhash =>
      rw [Bool.and_eq_true, decide_eq_true_eq] at hhash
      obtain ⟨t, ht, rfl⟩ := List.mem_map.mp hmem
      obtain ⟨hsite, hnamed⟩ := List.mem_filter.mp ht
      exact .inr ⟨hhash.2, hhash.1, t, hsite, (Bool.and_eq_true_iff.mp hnamed).2, rfl⟩
    · cases hmem

/-- Each argument has an index of its own. -/
theorem argumentSites_inj {k k' : Nat} {s s' : Site} (h : n.argumentSites[k]? = some s)
    (h' : n.argumentSites[k']? = some s') (hindex : s.index = s'.index) : k = k' := by
  have hnodup : (n.argumentSites.map Site.index).Nodup := by
    rw [argumentSites]
    split
    · next list _ =>
      have hrange : list.sites.map Site.index = List.range' 0 list.children.length := by
        rw [sites, List.map_map, ← List.zipIdx_map_snd]
        rfl
      have hall : (List.range' 0 list.children.length).Nodup := List.nodup_range'
      exact hall.sublist (hrange ▸ List.filter_sublist.map Site.index)
    · exact List.nodup_nil
  have hk : (n.argumentSites.map Site.index)[k]? = some s.index := by
    rw [List.getElem?_map, h, Option.map_some]
  have hk' : (n.argumentSites.map Site.index)[k']? = some s.index := by
    rw [List.getElem?_map, h', Option.map_some, hindex]
  obtain ⟨hlt, -⟩ := List.getElem?_eq_some_iff.mp hk
  exact (List.getElem?_inj hlt hnodup).mp (hk.trans hk'.symm)

/-- A pair of a later hash or among the arguments stands at no other option. -/
theorem eq_of_prefix {o o' : Place} (h : o ∈ n.optionPlaces) (h' : o' ∈ n.optionPlaces)
    (hwithin : o.address <+: o'.address) : o = o' := by
  obtain ⟨k, s, hs, hoption⟩ := of_mem_optionPlaces h
  obtain ⟨k', s', hs', hoption'⟩ := of_mem_optionPlaces h'
  have hsame : s.index = s'.index → s = s' := fun hindex => by
    rw [argumentSites_inj hs hs' hindex, hs'] at hs
    exact (Option.some.inj hs).symm
  rcases hoption with ⟨hpair, rfl⟩ | ⟨-, hhash, t, ht, -, rfl⟩ <;>
    rcases hoption' with ⟨hpair', rfl⟩ | ⟨-, hhash', t', ht', -, rfl⟩ <;>
    have hsite := hsame (List.cons_prefix_cons.mp hwithin).1 <;>
    subst hsite
  · rfl
  · rw [isHash_of_isPair hpair] at hhash'
    cases hhash'
  · rw [isHash_of_isPair hpair'] at hhash
    cases hhash
  · have hindex := (List.cons_prefix_cons.mp (List.cons_prefix_cons.mp hwithin).2).1
    have hnode := (descend_of_mem_sites ht).symm.trans (hindex ▸ descend_of_mem_sites ht')
    rw [hindex, Option.some.inj hnode]

/-- An argument is found in the list of arguments. -/
theorem descend_of_argumentSites {list : Node} (hlist : n.child? "arguments" = some list) {k : Nat}
    {s : Site} (hs : n.argumentSites[k]? = some s) : list.descend [s.index] = some s.node := by
  have hmem := List.mem_of_getElem? hs
  rw [argumentSites, hlist] at hmem
  exact descend_of_mem_sites (List.mem_filter.mp hmem).1

/-- An option is found at its address. -/
theorem descend_of_mem_optionPlaces {list : Node} (hlist : n.child? "arguments" = some list)
    {o : Place} (h : o ∈ n.optionPlaces) : list.descend o.address = some o.node := by
  obtain ⟨k, s, hs, ⟨-, rfl⟩ | ⟨-, -, t, ht, -, rfl⟩⟩ := of_mem_optionPlaces h
  · exact descend_of_argumentSites hlist hs
  · have happend := descend_append list [s.index] [t.index]
    rw [descend_of_argumentSites hlist hs] at happend
    exact happend.trans (descend_of_mem_sites ht)

/-- The place of a type: the second argument, which is no pair, or the value of an option. -/
theorem of_typePlace? {t : Place} (h : n.typePlace? = some t) :
    (∃ s, n.argumentSites[1]? = some s ∧ s.node.isPair = false ∧ t = ⟨[s.index], s.node⟩) ∨
      ∃ o ∈ n.optionPlaces, o.valueAt? "type" = some t := by
  rw [typePlace?] at h
  rcases Option.or_eq_some_iff.mp h with hsecond | ⟨-, hoption⟩
  · obtain ⟨hplace, hpair⟩ := Option.filter_eq_some_iff.mp hsecond
    obtain ⟨s, hs, rfl⟩ := Option.map_eq_some_iff.mp hplace
    exact .inl ⟨s, hs, by simpa using hpair, rfl⟩
  · obtain ⟨o, ho, hvalue⟩ := List.mem_filterMap.mp (List.mem_of_getLast? hoption)
    exact .inr ⟨o, ho, hvalue⟩

/-- A call with an argument has a list of arguments. -/
theorem exists_argumentList {k : Nat} {s : Site} (hs : n.argumentSites[k]? = some s) :
    ∃ list, n.child? "arguments" = some list := by
  cases hl : n.child? "arguments" with
  | some list => exact ⟨list, rfl⟩
  | none =>
    rw [argumentSites, hl] at hs
    cases hs

end Node

namespace Place

variable {p q : Place}

/-- The value of a pair stands in it. -/
theorem of_valueAt? {name : String} (h : p.valueAt? name = some q) :
    ∃ s ∈ p.node.sites, q = ⟨p.address ++ [s.index], s.node⟩ := by
  obtain ⟨value, -, hsite⟩ := Option.bind_eq_some_iff.mp h
  obtain ⟨s, hs, rfl⟩ := Option.map_eq_some_iff.mp hsite
  exact ⟨s, List.mem_of_find?_eq_some hs, rfl⟩

/-- Places in different arguments stand apart. -/
theorem apart_of_ne {i j : Nat} {before after : List Nat} (hp : p.address = i :: before)
    (hq : q.address = j :: after) (hne : i ≠ j) : p.Apart q := by
  rw [Apart, hp, hq, List.cons_prefix_cons, List.cons_prefix_cons]
  exact ⟨fun h => hne h.1, fun h => hne h.1.symm⟩

end Place

/-- The type is found at its address. -/
theorem Node.descend_of_typePlace? {n list : Node} (hlist : n.child? "arguments" = some list)
    {t : Place} (h : n.typePlace? = some t) : list.descend t.address = some t.node := by
  rcases of_typePlace? h with ⟨s, hs, -, rfl⟩ | ⟨o, ho, hvalue⟩
  · exact descend_of_argumentSites hlist hs
  · obtain ⟨s, hs, rfl⟩ := Place.of_valueAt? hvalue
    rw [descend_append, descend_of_mem_optionPlaces hlist ho]
    exact descend_of_mem_sites hs

/-- The parts of a declaration with a first argument stand apart from each other. -/
structure Node.PartsStandApart (n : Node) (first : Place) : Prop where
  /-- Every part is found at its address in the list of arguments. -/
  found : ∃ list, n.child? "arguments" = some list ∧ ∀ p : Place,
    p = first ∨ n.typePlace? = some p ∨ p ∈ n.optionPlaces → list.descend p.address = some p.node
  /-- The name stands apart from the type. -/
  name_type : ∀ t ∈ n.typePlace?, first.Apart t
  /-- The name stands apart from the options. -/
  name_option : ∀ o ∈ n.optionPlaces, first.Apart o
  /-- No option stands inside the type. -/
  type_option : ∀ t ∈ n.typePlace?, ∀ o ∈ n.optionPlaces, ¬ t.address <+: o.address
  /-- The type stands inside an option only as the value of the option `type`. -/
  option_type : ∀ t ∈ n.typePlace?, ∀ o ∈ n.optionPlaces,
    o.address <+: t.address → o.valueAt? "type" = some t
  /-- The options stand apart from each other. -/
  option_option : ∀ o ∈ n.optionPlaces, ∀ o' ∈ n.optionPlaces, o.address <+: o'.address → o = o'

section Parts

variable {n : Node} {first : Site} (hfirst : n.argumentSites[0]? = some first)
  (hpair : first.node.isPair = false) (hhash : first.node.isHash = false)

include hfirst hpair hhash

/-- No option stands in the first argument. -/
theorem exists_head_of_mem_optionPlaces {o : Place} (h : o ∈ n.optionPlaces) :
    ∃ (k : Nat) (s : Site) (rest : List Nat), n.argumentSites[k]? = some s ∧
      o.address = s.index :: rest ∧ s.index ≠ first.index ∧ (s.node.isPair = true ∨ 2 ≤ k) := by
  obtain ⟨k, s, hs, hoption⟩ := Node.of_mem_optionPlaces h
  have hne : s.index ≠ first.index := by
    intro hindex
    rw [Node.argumentSites_inj hs hfirst hindex, hfirst] at hs
    cases hs
    rcases hoption with ⟨hpair', -⟩ | ⟨-, hhash', -⟩
    · rw [hpair] at hpair'
      cases hpair'
    · rw [hhash] at hhash'
      cases hhash'
  rcases hoption with ⟨hpair', rfl⟩ | ⟨hk, -, t, -, -, rfl⟩
  · exact ⟨k, s, [], hs, rfl, hne, .inl hpair'⟩
  · exact ⟨k, s, [t.index], hs, rfl, hne, .inr hk⟩

/-- The name stands apart from the options. -/
theorem first_apart_option {o : Place} (ho : o ∈ n.optionPlaces) :
    Place.Apart ⟨[first.index], first.node⟩ o := by
  obtain ⟨k, s, rest, -, haddress, hne, -⟩ :=
    exists_head_of_mem_optionPlaces hfirst hpair hhash ho
  exact Place.apart_of_ne rfl haddress hne.symm

/-- The name stands apart from the type, be it the second argument or the value of an option. -/
theorem first_apart_type {t : Place} (ht : n.typePlace? = some t) :
    Place.Apart ⟨[first.index], first.node⟩ t := by
  rcases Node.of_typePlace? ht with ⟨s, hs, -, rfl⟩ | ⟨o, ho, hvalue⟩
  · refine Place.apart_of_ne rfl rfl fun hindex => ?_
    exact absurd (Node.argumentSites_inj hfirst hs hindex) (by decide)
  · obtain ⟨s, -, rfl⟩ := Place.of_valueAt? hvalue
    obtain ⟨k, s', rest, -, haddress, hne, -⟩ :=
      exists_head_of_mem_optionPlaces hfirst hpair hhash ho
    have hother : o.address ++ [s.index] = s'.index :: (rest ++ [s.index]) := by
      rw [haddress, List.cons_append]
    exact Place.apart_of_ne rfl hother hne.symm

/-- A second argument that is no pair stands apart from the options: they are in later
arguments. -/
theorem second_apart_option {s : Site} (hs : n.argumentSites[1]? = some s)
    (hno : s.node.isPair = false) {o : Place} (ho : o ∈ n.optionPlaces) :
    Place.Apart ⟨[s.index], s.node⟩ o := by
  obtain ⟨k, s', rest, hs', haddress, -, hlate⟩ :=
    exists_head_of_mem_optionPlaces hfirst hpair hhash ho
  refine Place.apart_of_ne rfl haddress fun hindex => ?_
  have hk : 1 = k := Node.argumentSites_inj hs hs' hindex
  rcases hlate with hpair' | hlate
  · rw [← hk, hs, Option.some.injEq] at hs'
    rw [← hs', hno] at hpair'
    cases hpair'
  · omega

/-- No option stands inside the type. -/
theorem not_option_inside_type {t o : Place} (ht : n.typePlace? = some t)
    (ho : o ∈ n.optionPlaces) : ¬ t.address <+: o.address := by
  intro hinside
  rcases Node.of_typePlace? ht with ⟨s, hs, hno, rfl⟩ | ⟨o', ho', hvalue⟩
  · exact (second_apart_option hfirst hpair hhash hs hno ho).1 hinside
  · obtain ⟨s, -, rfl⟩ := Place.of_valueAt? hvalue
    have hsame := Node.eq_of_prefix ho' ho ((List.prefix_append _ _).trans hinside)
    have hlength := hinside.length_le
    rw [hsame, List.length_append, List.length_singleton] at hlength
    omega

/-- An option with the type inside is the one that gives the type. -/
theorem valueAt?_of_type_inside_option {t o : Place} (ht : n.typePlace? = some t)
    (ho : o ∈ n.optionPlaces) (hinside : o.address <+: t.address) :
    o.valueAt? "type" = some t := by
  rcases Node.of_typePlace? ht with ⟨s, hs, hno, rfl⟩ | ⟨o', ho', hvalue⟩
  · exact absurd hinside (second_apart_option hfirst hpair hhash hs hno ho).2
  · obtain ⟨s, -, rfl⟩ := Place.of_valueAt? hvalue
    rcases List.prefix_concat_iff.mp hinside with heq | hwithin
    · have hsame := Node.eq_of_prefix ho' ho (heq ▸ List.prefix_append _ _)
      have hlength := congrArg List.length heq
      rw [hsame, List.length_append, List.length_singleton] at hlength
      omega
    · exact Node.eq_of_prefix ho ho' hwithin ▸ hvalue

/-- The parts of a declaration that begins with a name stand apart. -/
theorem partsStandApart : n.PartsStandApart ⟨[first.index], first.node⟩ where
  found := by
    obtain ⟨list, hlist⟩ := Node.exists_argumentList hfirst
    refine ⟨list, hlist, ?_⟩
    rintro p (rfl | htype | hoption)
    · exact Node.descend_of_argumentSites hlist hfirst
    · exact Node.descend_of_typePlace? hlist htype
    · exact Node.descend_of_mem_optionPlaces hlist hoption
  name_type _ := first_apart_type hfirst hpair hhash
  name_option _ := first_apart_option hfirst hpair hhash
  type_option _ ht _ := not_option_inside_type hfirst hpair hhash ht
  option_type _ ht _ := valueAt?_of_type_inside_option hfirst hpair hhash ht
  option_option _ ho _ := Node.eq_of_prefix ho

/-- The name of a field that is read is that of the first argument. -/
theorem symbolName_of_fieldName {name : String} (hname : n.fieldName = .ok (some name)) :
    first.node.symbolName = .ok name := by
  have hhead : n.positionalArguments.head? = some first.node := by
    rw [Node.positionalArguments, Node.arguments, List.head?_filter, List.find?_map]
    cases hsites : n.argumentSites with
    | nil =>
      rw [hsites] at hfirst
      cases hfirst
    | cons s rest =>
      rw [hsites, List.getElem?_cons_zero, Option.some.injEq] at hfirst
      rw [hfirst, List.find?_cons_of_pos (by simp [hpair, hhash])]
      rfl
  rw [Node.fieldName, hhead] at hname
  dsimp only at hname
  split at hname
  · cases hsymbol : first.node.symbolName with
    | error fault =>
      rw [hsymbol] at hname
      cases hname
    | ok called =>
      rw [hsymbol] at hname
      have hcalled := Except.ok.inj hname
      dsimp only at hcalled
      split at hcalled
      · rw [Option.some.inj hcalled]
      · cases hcalled
  · cases hname

end Parts

/-! ### The record -/

/-- A field that is made of the parts of a declaration: its name of the first argument, its
types of the type, its default and whether it can be written to of the options. -/
structure FieldRecord.IsMadeOf (f : FieldRecord) (n : Node) (isProp : Bool) (first : Node) : Prop
    where
  /-- The name is that of the first argument. -/
  name : first.symbolName = .ok f.name
  /-- The types are those of the type. -/
  types : ∃ log, ((convertOptional (n.typePlace?.map Place.node)).runWith log).1 = .ok f.types
  /-- The default is the last one that is written. -/
  default : f.default = (n.optionPlace? "default").map fun p => p.node.written
  /-- A field can be written to if it is a property, unless its last option says no. -/
  mutable : f.mutable =
    (isProp && !(n.optionPlace? "immutable").any fun p => p.node.written == "true")

/-- What is made of a text that is read is made of that of the node. -/
theorem eq_of_runOn_map_read {α : Type} {g : String → α} {n : Node} {r r' : Records} {x : α}
    (h : runOn (g <$> n.read) r = (.ok x, r')) : x = g n.written := by
  rw [map_eq_pure_bind] at h
  obtain ⟨text, _, hread, hpure⟩ := exists_of_runOn_bind_ok h
  rw [runOn_pure, Prod.mk.injEq] at hpure
  rw [← (of_runOn_read hread).1]
  exact (Except.ok.inj hpure.1).symm

section Record

variable {c : Context} {n : Node} {name : String} {r r' : Records} {f : FieldRecord}

/-- What is read behind the types and options of a field is the default. -/
theorem of_runOn_readRecord {types : List String} {options : Keywords} {isMutable : Bool}
    (h : runOn (c.readRecord n name types options isMutable) r = (.ok f, r')) :
    f.types = types ∧ f.name = name ∧
      f.default = (options.lookup "default").map Node.written ∧ f.mutable = isMutable := by
  unfold Context.readRecord at h
  obtain ⟨doc, _, -, h⟩ := exists_of_runOn_bind_ok h
  obtain ⟨source, _, -, h⟩ := exists_of_runOn_bind_ok h
  cases hd : options.lookup "default" with
  | none =>
    rw [hd] at h
    rw [← Except.ok.inj (Prod.mk.inj h).1]
    exact ⟨rfl, rfl, rfl, rfl⟩
  | some value =>
    rw [hd] at h
    obtain ⟨default, _, hdefault, h⟩ := exists_of_runOn_bind_ok h
    rw [← Except.ok.inj (Prod.mk.inj h).1, eq_of_runOn_map_read hdefault]
    exact ⟨rfl, rfl, rfl, rfl⟩

/-- A field that is read is made of the type and the options that are read. -/
theorem of_runOn_readField {form : FieldForm} {isProp : Bool}
    (h : runOn (readField c n form isProp name) r = (.ok f, r')) :
    ∃ type options log, form.typeNode n = .ok type ∧ form.options n = .ok options ∧
      ((convertOptional type).runWith log).1 = .ok f.types ∧ f.name = name ∧
      f.default = (options.lookup "default").map Node.written ∧
      f.mutable = (isProp && !(options.lookup "immutable").any fun v => v.written == "true") := by
  unfold readField at h
  obtain ⟨type, r₁, htype, h⟩ := exists_of_runOn_bind_ok h
  obtain ⟨types, r₂, htypes, h⟩ := exists_of_runOn_bind_ok h
  obtain ⟨options, r₃, hoptions, h⟩ := exists_of_runOn_bind_ok h
  rw [runOn_ofExcept, Prod.mk.injEq] at htype hoptions
  rw [runOn_ofReading, Prod.mk.injEq] at htypes
  have hrecord : ∀ isMutable r₄,
      runOn (c.readRecord n name types options isMutable) r₄ = (.ok f, r') →
      isMutable = (isProp && !(options.lookup "immutable").any fun v => v.written == "true") →
      ∃ type options log, form.typeNode n = .ok type ∧ form.options n = .ok options ∧
        ((convertOptional type).runWith log).1 = .ok f.types ∧ f.name = name ∧
        f.default = (options.lookup "default").map Node.written ∧
        f.mutable = (isProp && !(options.lookup "immutable").any fun v => v.written == "true") := by
    rintro isMutable r₄ h rfl
    obtain ⟨hf, hname, hdefault, hmutable⟩ := of_runOn_readRecord h
    exact ⟨type, options, r₁.log, htype.1, hoptions.1, hf ▸ htypes.1, hname, hdefault, hmutable⟩
  cases isProp with
  | false => exact hrecord false _ h rfl
  | true =>
    rw [if_pos rfl] at h
    cases hi : options.lookup "immutable" with
    | none =>
      rw [hi] at h
      exact hrecord true _ h (by rw [hi]; rfl)
    | some value =>
      rw [hi] at h
      obtain ⟨immutable, r₄, himmutable, h⟩ := exists_of_runOn_bind_ok h
      refine hrecord (!immutable) r₄ h ?_
      rw [hi, eq_of_runOn_map_read himmutable]
      rfl

end Record

/-- **The name, the type and the options come from parts of their own.** A field that is read
from a declaration whose first argument is neither a pair nor a hash takes its name from that
argument. Its type is the second argument, if that is no pair, and else the value of the
last option `type`, in whatever form the declaration is found to be. The options are the
pairs with a key and a value among the arguments and in a hash behind the second argument,
and the last one of a key counts. All these parts stand apart from each other: no option is
inside the type. -/
theorem isMadeOf_and_partsStandApart {c : Context} {n : Node} {form : FieldForm} {isProp : Bool}
    {name : String} {r r' : Records} {f : FieldRecord} {first : Site}
    (hfirst : n.argumentSites[0]? = some first) (hpair : first.node.isPair = false)
    (hhash : first.node.isHash = false) (hform : FieldForm.detect n = .ok form)
    (hname : n.fieldName = .ok (some name))
    (hread : runOn (readField c n form isProp name) r = (.ok f, r')) :
    f.IsMadeOf n isProp first.node ∧
      form.typeNode n = .ok (n.typePlace?.map Place.node) ∧
      (∃ options, form.options n = .ok options ∧
        ∀ key, options.lookup key = (n.optionPlace? key).map Place.node) ∧
      n.PartsStandApart ⟨[first.index], first.node⟩ := by
  obtain ⟨htype, hoptions⟩ := Node.typeNode_eq hfirst hhash hform
  obtain ⟨type, options, log, htype', hoptions', htypes, hf, hdefault, hmutable⟩ :=
    of_runOn_readField hread
  have hlookup := fun key => Node.lookup_options (hoptions ▸ hoptions') key
  rw [htype, Except.ok.injEq] at htype'
  refine ⟨⟨?_, ⟨log, htype' ▸ htypes⟩, ?_, ?_⟩, htype, ⟨options, hoptions', hlookup⟩,
    partsStandApart hfirst hpair hhash⟩
  · rw [hf]
    exact symbolName_of_fieldName hfirst hpair hhash hname
  · rw [hdefault, hlookup, Option.map_map]
    rfl
  · rw [hmutable, hlookup, Option.any_map]

/-- A property whose type is a shape with a key that is called like an option. -/
def shapeProperty : Node :=
  ⟨"call", true, none, 0, 58, ⟨0, 0⟩, ⟨0, 58⟩,
    some "prop :x, \x7bdefault: Integer\x7d, \x7bimmutable: true\x7d, default: 2", [
    ⟨"identifier", true, some "method", 0, 4, ⟨0, 0⟩, ⟨0, 4⟩, some "prop", []⟩,
    ⟨"argument_list", true, some "arguments", 5, 58, ⟨0, 5⟩, ⟨0, 58⟩,
      some ":x, \x7bdefault: Integer\x7d, \x7bimmutable: true\x7d, default: 2", [
      ⟨"simple_symbol", true, none, 5, 7, ⟨0, 5⟩, ⟨0, 7⟩, some ":x", []⟩,
      ⟨"hash", true, none, 9, 27, ⟨0, 9⟩, ⟨0, 27⟩, some "\x7bdefault: Integer\x7d", [
        ⟨"pair", true, none, 10, 26, ⟨0, 10⟩, ⟨0, 26⟩, some "default: Integer", [
          ⟨"hash_key_symbol", true, some "key", 10, 17, ⟨0, 10⟩, ⟨0, 17⟩, some "default", []⟩,
          ⟨"constant", true, some "value", 19, 26, ⟨0, 19⟩, ⟨0, 26⟩, some "Integer", []⟩]⟩]⟩,
      ⟨"hash", true, none, 29, 46, ⟨0, 29⟩, ⟨0, 46⟩, some "\x7bimmutable: true\x7d", [
        ⟨"pair", true, none, 30, 45, ⟨0, 30⟩, ⟨0, 45⟩, some "immutable: true", [
          ⟨"hash_key_symbol", true, some "key", 30, 39, ⟨0, 30⟩, ⟨0, 39⟩, some "immutable", []⟩,
          ⟨"true", true, some "value", 41, 45, ⟨0, 41⟩, ⟨0, 45⟩, some "true", []⟩]⟩]⟩,
      ⟨"pair", true, none, 48, 58, ⟨0, 48⟩, ⟨0, 58⟩, some "default: 2", [
        ⟨"hash_key_symbol", true, some "key", 48, 55, ⟨0, 48⟩, ⟨0, 55⟩, some "default", []⟩,
        ⟨"integer", true, some "value", 57, 58, ⟨0, 57⟩, ⟨0, 58⟩, some "2", []⟩]⟩]⟩]⟩

/-- The key of the shape is no option; the pair in the hash and the last pair are. -/
theorem isMadeOf_shapeProperty :
    ∃ (f : FieldRecord) (log : Log),
      FieldForm.detect shapeProperty = .ok .positional ∧
      shapeProperty.fieldName = .ok (some "x") ∧
      runOn (readField emptyContext shapeProperty .positional true "x") {} = (.ok f, { log }) ∧
      f.name = "x" ∧ f.default = some "2" ∧ f.mutable = false ∧
      ∃ first, shapeProperty.argumentSites[0]? = some first ∧
        shapeProperty.PartsStandApart ⟨[first.index], first.node⟩ := by
  have hlegible : shapeProperty.IsLegible := by decide +kernel
  have hcomments : emptyContext.source.HasLegibleComments := fun _ h => absurd h List.not_mem_nil
  have hform : FieldForm.detect shapeProperty = .ok .positional := by decide +kernel
  have hname : shapeProperty.fieldName = .ok (some "x") := by decide +kernel
  obtain ⟨log, hread⟩ := readField_ok hlegible hcomments true "x" {}
  have hfirst : shapeProperty.argumentSites[0]? =
      some (shapeProperty.argumentSites.headD (.ofRoot default)) := rfl
  obtain ⟨hmade, -, -, hparts⟩ := isMadeOf_and_partsStandApart hfirst (by decide)
    (by decide) hform hname hread
  exact ⟨_, log, hform, hname, hread, rfl, hmade.default.trans (by decide +kernel),
    hmade.mutable.trans (by decide +kernel), _, hfirst, hparts⟩

/-- A key without a value. -/
def shorthandPair : Node :=
  ⟨"pair", true, none, 17, 25, ⟨0, 17⟩, ⟨0, 25⟩, some "default:", [
    ⟨"hash_key_symbol", true, some "key", 17, 24, ⟨0, 17⟩, ⟨0, 24⟩, some "default", []⟩]⟩

/-- A property with that pair. -/
def shorthandProperty : Node :=
  ⟨"call", true, none, 0, 25, ⟨0, 0⟩, ⟨0, 25⟩, some "prop :x, String, default:", [
    ⟨"identifier", true, some "method", 0, 4, ⟨0, 0⟩, ⟨0, 4⟩, some "prop", []⟩,
    ⟨"argument_list", true, some "arguments", 5, 25, ⟨0, 5⟩, ⟨0, 25⟩, some ":x, String, default:", [
      ⟨"simple_symbol", true, none, 5, 7, ⟨0, 5⟩, ⟨0, 7⟩, some ":x", []⟩,
      ⟨"constant", true, none, 9, 15, ⟨0, 9⟩, ⟨0, 15⟩, some "String", []⟩,
      shorthandPair]⟩]⟩

/-- Not every pair among the arguments is an option: one without a value is left out. -/
theorem not_forall_pair_isOption :
    ¬ ∀ (n pair : Node) (form : FieldForm) (options : Keywords) (f : FieldRecord) (log : Log),
      (∀ first ∈ n.arguments.head?, first.isPair = false ∧ first.isHash = false) →
      FieldForm.detect n = .ok form → n.fieldName = .ok (some f.name) →
      runOn (readField emptyContext n form true f.name) {} = (.ok f, { log }) →
      form.options n = .ok options → pair ∈ n.arguments → pair.isPair = true →
      ∀ key ∈ pair.child? "key", ∀ name, key.symbolName = .ok name →
        (options.lookup name).isSome = true := by
  intro hall
  have hlegible : shorthandProperty.IsLegible := by decide +kernel
  have hcomments : emptyContext.source.HasLegibleComments := fun _ h => absurd h List.not_mem_nil
  have hfirst : ∀ first ∈ shorthandProperty.arguments.head?,
      first.isPair = false ∧ first.isHash = false := by
    rintro first ⟨⟩
    decide
  have hform : FieldForm.detect shorthandProperty = .ok .positional := by decide +kernel
  have hname : shorthandProperty.fieldName = .ok (some "x") := by decide +kernel
  have hfieldForm : shorthandProperty.fieldForm = .positional := by
    rw [Node.fieldForm, hform]
    rfl
  have hkeys : (FieldForm.positional.options shorthandProperty).toOption.map (List.map Prod.fst) =
      some [] := by decide +kernel
  obtain ⟨options, hoptions, -⟩ := FieldForm.options_ok hlegible .positional
  rw [hoptions] at hkeys
  have hempty := List.map_eq_nil_iff.mp (Option.some.inj hkeys)
  have hmem : shorthandPair ∈ shorthandProperty.arguments := .tail _ (.tail _ (.head _))
  have hkey : shorthandPair.child? "key" = shorthandPair.children.head? := rfl
  obtain ⟨log, hread⟩ := readField_ok hlegible hcomments true "x" {}
  rw [hfieldForm] at hread
  obtain ⟨f, hcalled⟩ : ∃ f : FieldRecord,
      f = emptyContext.source.declaredField [] "" shorthandProperty true "x" := ⟨_, rfl⟩
  have hfname : f.name = "x" := hcalled ▸ rfl
  have hsome := hall shorthandProperty shorthandPair .positional options f log hfirst hform
    (hfname.symm ▸ hname) (by rw [hfname, hcalled]; exact hread) hoptions hmem (by decide) _ hkey
    "default" (by decide +kernel)
  rw [hempty] at hsome
  cases hsome

end RubyDoc

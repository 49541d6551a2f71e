import Mathlib.Data.List.Forall2
import RubyDoc.Proofs.Walk.Signature

/-!
# Types nested in a signature

Procedure types have `params` and `returns` of their own inside the arguments of
the outer calls. Two blocks that differ in such arguments alone, and whose outer
calls give the same types to the same names, are visited in the same order with
the same words met, so that they write the same into a docstring. Where the nodes
stand, and the texts that take in the arguments, may differ; so may what is logged.
-/

namespace RubyDoc

open RubyDoc.Reading

/-- What a type that may be left out is converted to. -/
def typesOf (type : Option Node) : Except Fault (List String) :=
  ((convertOptional type).runWith []).1

namespace Node

/-- The names of the keyword arguments of a call with the types they have. -/
def keywordTypes (n : Node) : Except Fault (List (String × Except Fault (List String))) :=
  n.keywordArguments.map fun keywords => keywords.map fun k => (k.1, typesOf (some k.2))

/-- The types of the argument that a `returns` call reads. -/
def returnTypes (n : Node) : Except Fault (List String) :=
  typesOf (n.positionalArguments ++ n.arguments).head?

/-- Whether the child at an index holds the arguments of a closed call. -/
def IsClosedAt (n : Node) (index : Nat) : Prop :=
  (∃ name ∈ closedCalls, n.callName = .ok (some name)) ∧ n.isFieldIndex "arguments" index = true

/-- Two trees are the same but for arguments of `params` and `returns` calls, and
these calls give the same types. -/
inductive SameButArguments : Node → Node → Prop where
  | intro {n m : Node} (kind : n.kind = m.kind)
      (word : n.kind = "identifier" → n.text = m.text)
      (name : n.isCall = true → (n.child? "method").map text = (m.child? "method").map text)
      (fields : n.children.map field = m.children.map field)
      (params : n.callName = .ok (some "params") → n.keywordTypes = m.keywordTypes)
      (returns : n.callName = .ok (some "returns") → n.returnTypes = m.returnTypes)
      (inner : ∀ (i : Nat) (c d : Node), n.children[i]? = some c → m.children[i]? = some d →
        ¬ n.IsClosedAt i → SameButArguments c d) : SameButArguments n m

/-- A tree is the same as itself. -/
theorem SameButArguments.refl (n : Node) : SameButArguments n n := by
  refine .intro rfl (fun _ => rfl) (fun _ => rfl) rfl (fun _ => rfl) (fun _ => rfl) ?_
  intro i c d hc hd _
  have hmem : c ∈ n.children := List.mem_of_getElem? hc
  obtain rfl : c = d := Option.some.inj (hc.symm.trans hd)
  exact .refl c
termination_by n.weight
decreasing_by exact weight_lt_of_mem_children hmem

/-- Trees that say the same word are the same if their children are. -/
theorem SameButArguments.of_children {n m : Node} (kind : n.kind = m.kind)
    (word : n.kind = "identifier" → n.text = m.text)
    (name : n.isCall = true → (n.child? "method").map text = (m.child? "method").map text)
    (fields : n.children.map field = m.children.map field)
    (other : n.callName ≠ .ok (some "params") ∧ n.callName ≠ .ok (some "returns"))
    (inner : List.Forall₂ SameButArguments n.children m.children) : SameButArguments n m := by
  refine .intro kind word name fields (fun h => absurd h other.1) (fun h => absurd h other.2) ?_
  intro i c d hc hd _
  obtain ⟨hi, rfl⟩ := List.getElem?_eq_some_iff.mp hc
  obtain ⟨hi', rfl⟩ := List.getElem?_eq_some_iff.mp hd
  exact (List.forall₂_iff_get.mp inner).2 i hi hi'

section Same

variable {n m : Node} (h : SameButArguments n m)

include h

theorem SameButArguments.isCall_eq : n.isCall = m.isCall := by
  cases h with
  | intro kind => rw [isCall, isCall, kind]

theorem SameButArguments.isFieldIndex_eq (name : String) (index : Nat) :
    n.isFieldIndex name index = m.isFieldIndex name index := by
  have hfind (k : Node) : k.children.findIdx? (fun c => c.field == some name) =
      (k.children.map field).findIdx? (· == some name) := by
    rw [List.findIdx?_map]
    rfl
  cases h with
  | intro _ _ _ fields => rw [isFieldIndex, isFieldIndex, hfind, hfind, fields]

/-- The names of the calls are the same. -/
theorem SameButArguments.callName_eq : n.callName = m.callName := by
  have hname (k : Node) (hk : k.isCall = true) : k.callName =
      match (k.child? "method").map text with
      | some (some word) => .ok (some word)
      | some none => .error .illegible
      | none => .ok none := by
    rw [callName, if_pos hk]
    cases k.child? "method" with
    | none => rfl
    | some word =>
      rw [Option.map_some]
      dsimp only
      rw [legible]
      cases word.text <;> rfl
  have hcall := h.isCall_eq
  cases h with
  | intro _ _ name =>
    by_cases hc : n.isCall = true
    · rw [hname n hc, hname m (hcall ▸ hc), name hc]
    · rw [callName, callName, if_neg hc, if_neg (hcall ▸ hc)]

end Same

end Node

/-- Two sites with the same tree but for such arguments, each or neither the name
of a call. -/
structure Site.SameButArguments (s t : Site) : Prop where
  /-- The trees are the same. -/
  node : s.node.SameButArguments t.node
  /-- Both or neither are the name of a call. -/
  isMethodName : s.isMethodName = t.isMethodName

namespace Node

/-- The children of two such trees stand in pairs at the same places. Those that
hold no arguments of a closed call are the same but for such arguments. -/
theorem SameButArguments.sites {n m : Node} (h : SameButArguments n m) :
    List.Forall₂ (fun s t => s.index = t.index ∧ s.isMethodName = t.isMethodName ∧
      (¬ n.IsClosedAt s.index → s.node.SameButArguments t.node)) n.sites m.sites := by
  have hcall := h.isCall_eq
  have hindex := h.isFieldIndex_eq
  cases h with
  | intro _ _ _ fields _ _ inner =>
    have hlength : n.children.length = m.children.length := by
      simpa using congrArg List.length fields
    refine List.forall₂_iff_get.mpr ⟨by simpa [Node.sites] using hlength, fun i hi hi' => ?_⟩
    have hn : i < n.children.length := by simpa [Node.sites] using hi
    have hm : i < m.children.length := hlength ▸ hn
    have hs : n.sites.get ⟨i, hi⟩ = ⟨n.children[i], some n, i⟩ := by simp [Node.sites]
    have ht : m.sites.get ⟨i, hi'⟩ = ⟨m.children[i], some m, i⟩ := by simp [Node.sites]
    rw [hs, ht]
    refine ⟨rfl, ?_, fun hopen => inner i _ _ (List.getElem?_eq_getElem hn)
      (List.getElem?_eq_getElem hm) hopen⟩
    rw [Site.isMethodName, Site.isMethodName, Site.standsIn, Site.standsIn]
    dsimp only
    rw [hindex, Option.any_some, Option.any_some, hcall]

theorem isClosedAt_iff {n : Node} {name : Option String} (hname : n.callName = .ok name)
    (index : Nat) :
    n.IsClosedAt index ↔ (name.any closedCalls.contains && n.isFieldIndex "arguments" index) = true := by
  rw [IsClosedAt, hname, Bool.and_eq_true]
  refine and_congr_left fun _ => ⟨?_, fun h => ?_⟩
  · rintro ⟨word, hword, hsome⟩
    rw [Except.ok.inj hsome, Option.any_some]
    exact List.contains_iff_mem.mpr hword
  · cases name with
    | none => cases h
    | some word => exact ⟨word, List.contains_iff_mem.mp h, rfl⟩

/-- Of the children all are visited but for the arguments of a closed call. -/
theorem openSites_of_callName {n : Node} {name : Option String} (hname : n.callName = .ok name) :
    n.openSites = .ok (n.sites.filter fun s =>
      !(name.any closedCalls.contains && n.isFieldIndex "arguments" s.index)) := by
  rw [openSites, hname, Except.map]
  by_cases hclosed : name.any closedCalls.contains = true
  · simp only [hclosed, if_true, Bool.true_and]
  · simp only [hclosed, Bool.false_and, Bool.not_false, List.filter_true, Bool.false_eq_true,
      if_false]

/-- The sites that are visited below two such trees are such sites, or the visit
ends in the same fault. -/
theorem SameButArguments.openSites {n m : Node} (h : SameButArguments n m) :
    (∃ fault, n.openSites = .error fault ∧ m.openSites = .error fault) ∨
      ∃ inner inner', n.openSites = .ok inner ∧ m.openSites = .ok inner' ∧
        List.Forall₂ Site.SameButArguments inner inner' := by
  have hsame := h.callName_eq
  cases hname : n.callName with
  | error fault =>
    refine .inl ⟨fault, ?_, ?_⟩
    · rw [Node.openSites, hname, Except.map]
    · rw [Node.openSites, ← hsame, hname, Except.map]
  | ok name =>
    refine .inr ⟨_, _, openSites_of_callName hname, openSites_of_callName (hsame ▸ hname), ?_⟩
    have hpairs := List.rel_filter
      (p := fun s => !(name.any closedCalls.contains && n.isFieldIndex "arguments" s.index))
      (q := fun t => !(name.any closedCalls.contains && m.isFieldIndex "arguments" t.index))
      (fun s t hst => by dsimp only; rw [hst.1, h.isFieldIndex_eq]) h.sites
    have hkept := (List.forall₂_and_left _ _).mpr ⟨fun s hs => (List.mem_filter.mp hs).2, hpairs⟩
    refine hkept.imp fun s t hst => ⟨hst.2.2.2 ?_, hst.2.2.1⟩
    rw [isClosedAt_iff hname, Bool.not_eq_true, ← Bool.not_eq_true']
    exact hst.1

end Node

/-- Visiting such sites in level order meets such sites and ends in the same fault. -/
theorem levelOrderFrom_sameButArguments (queue queue' : List Site)
    (h : List.Forall₂ Site.SameButArguments queue queue') :
    List.Forall₂ Site.SameButArguments (levelOrderFrom queue).1 (levelOrderFrom queue').1 ∧
      (levelOrderFrom queue).2 = (levelOrderFrom queue').2 := by
  induction queue using levelOrderFrom.induct generalizing queue' with
  | case1 =>
    cases h
    rw [levelOrderFrom]
    exact ⟨.nil, rfl⟩
  | case2 s queue fault hfault =>
    obtain _ | ⟨hs, -⟩ := h
    obtain ⟨fault', hn, hm⟩ | ⟨inner, inner', hn, -, -⟩ := hs.node.openSites
    · obtain rfl : fault' = fault := Except.error.inj (hn.symm.trans hfault)
      rw [levelOrderFrom_cons_error hn, levelOrderFrom_cons_error hm]
      exact ⟨.cons hs .nil, rfl⟩
    · cases hn.symm.trans hfault
  | case3 s queue inner hinner ih =>
    obtain _ | ⟨hs, hrest⟩ := h
    obtain ⟨fault, hn, -⟩ | ⟨inner₁, inner', hn, hm, hall⟩ := hs.node.openSites
    · cases hn.symm.trans hinner
    · obtain rfl : inner₁ = inner := Except.ok.inj (hn.symm.trans hinner)
      obtain ⟨hvisited, hfault⟩ := ih _ (List.rel_append hrest hall)
      rw [levelOrderFrom_cons_ok hn, levelOrderFrom_cons_ok hm]
      exact ⟨.cons hs hvisited, hfault⟩

namespace SignatureFacts

/-- Keyword arguments with the same names and types are read alike. -/
theorem agree_readParams (keywords keywords' : Keywords)
    (h : keywords.map (fun k => (k.1, typesOf (some k.2))) =
      keywords'.map fun k => (k.1, typesOf (some k.2))) :
    Agree (readParams keywords) (readParams keywords') := by
  induction keywords generalizing keywords' with
  | nil =>
    obtain rfl : keywords' = [] := List.map_eq_nil_iff.mp h.symm
    exact isSteady_pure _
  | cons k rest ih =>
    cases keywords' with
    | nil => cases h
    | cons k' rest' =>
      obtain ⟨hhead, hrest⟩ := List.cons.inj h
      obtain ⟨hname, htypes⟩ := Prod.mk.inj hhead
      have hvalue : Agree (convert k.2) (convert k'.2) :=
        (TypeExpr.isSteady_convert _).agree (TypeExpr.isSteady_convert _) htypes
      rw [readParams, readParams, hname]
      exact hvalue.bind fun types => (ih rest' hrest).bind fun more => isSteady_pure _

/-- The keyword arguments of two calls are read alike if they have the same names and types. -/
theorem agree_readKeywords {n m : Node} (h : n.keywordTypes = m.keywordTypes) :
    Agree (Reading.ofExcept n.keywordArguments >>= readParams)
      (Reading.ofExcept m.keywordArguments >>= readParams) := by
  rw [Node.keywordTypes, Node.keywordTypes] at h
  cases hn : n.keywordArguments with
  | error fault =>
    cases hm : m.keywordArguments with
    | error fault' =>
      rw [hn, hm] at h
      rw [Except.error.inj h]
      exact isSteady_throw fault'
    | ok keywords' =>
      rw [hn, hm] at h
      cases h
  | ok keywords =>
    cases hm : m.keywordArguments with
    | error fault' =>
      rw [hn, hm] at h
      cases h
    | ok keywords' =>
      rw [hn, hm] at h
      exact agree_readParams keywords keywords' (Except.ok.inj h)

/-- The word that a call says is its name. -/
theorem callName_of_wordAt {s : Site} {word : Option String} (hcall : s.node.isCall = true)
    (hw : wordAt s = .ok word) : s.node.callName = .ok word := by
  have hkind : s.node.kind = "call" := eq_of_beq hcall
  have hother : (s.node.kind == "identifier") = false := by
    rw [hkind]
    decide
  rwa [wordAt, hother, Bool.false_and, if_neg Bool.false_ne_true, if_pos hcall] at hw

section Site

variable {s t : Site} (h : s.SameButArguments t)

include h

/-- The same word is met. -/
theorem wordAt_eq : wordAt s = wordAt t := by
  have hcall := h.node.isCall_eq
  have hname := h.node.callName_eq
  obtain ⟨kind, word⟩ := h.node
  rw [wordAt, wordAt, ← kind, ← h.isMethodName, ← hcall, ← hname]
  by_cases hid : s.node.kind = "identifier"
  · rw [Node.legible, Node.legible, word hid]
  · rw [beq_eq_false_iff_ne.mpr hid, Bool.false_and]
    rfl

/-- A site of the one block says what its counterpart says. -/
theorem agree_meet (facts : SignatureFacts) : Agree (facts.meet s) (facts.meet t) := by
  have hword := wordAt_eq h
  have hcall := h.node.isCall_eq
  have hpure (more : SignatureFacts) : Agree (pure more) (pure more) := isSteady_pure more
  rw [meet, meet, ← hword]
  cases hw : wordAt s with
  | error fault => exact isSteady_throw fault
  | ok word =>
    rw [ofExcept_ok_bind, ofExcept_ok_bind]
    by_cases hc : s.node.isCall = true
    · have hname := callName_of_wordAt hc hw
      obtain ⟨-, -, -, -, params, returns⟩ := h.node
      rw [← hcall, if_pos hc, if_pos hc, if_pos hc, if_pos hc]
      split
      · have hkeywords := agree_readKeywords (params hname)
        have hread := hkeywords.bind fun more =>
          hpure { facts with params := facts.params ++ more }
        rwa [bind_assoc, bind_assoc] at hread
      · have htypes := (TypeExpr.isSteady_convertOptional _).agree
          (TypeExpr.isSteady_convertOptional _) (returns hname)
        exact htypes.bind fun types => hpure { facts with returns := some types }
      · exact isSteady_pure _
      · exact isSteady_pure _
      · exact isSteady_pure _
    · rw [← hcall, if_neg hc, if_neg hc, if_neg hc, if_neg hc]
      split <;> exact isSteady_pure _

end Site

/-- What the sites say together is the same. -/
theorem agree_meetAll {sites sites' : List Site}
    (h : List.Forall₂ Site.SameButArguments sites sites') (facts : SignatureFacts) :
    Agree (facts.meetAll sites) (facts.meetAll sites') := by
  induction h generalizing facts with
  | nil => exact isSteady_pure _
  | cons hst _ ih => exact (agree_meet hst facts).bind fun more => ih more

/-- Two blocks that are the same but for arguments say the same. -/
theorem agree_ofBlock {a b : Site} (h : a.SameButArguments b) : Agree (ofBlock a) (ofBlock b) := by
  obtain ⟨hvisited, hfault⟩ := levelOrderFrom_sameButArguments [a] [b] (.cons h .nil)
  rw [ofBlock, ofBlock, Site.levelOrder, Site.levelOrder]
  dsimp only
  rw [hfault]
  refine (agree_meetAll hvisited {}).bind fun facts => ?_
  cases (levelOrderFrom [b]).2 with
  | none => exact isSteady_pure _
  | some fault => exact isSteady_throw _

end SignatureFacts

/-- Two signature blocks that are the same but for arguments of `params` and `returns`
calls, and whose calls of these names give the same types, turn every docstring into
the same docstring, whatever was logged. If one of them is legible the docstring is written. -/
theorem applySignature_sameButArguments {a b : Site} (h : a.SameButArguments b) (d : Docstring)
    (log log' : Log) :
    ((applySignature a d).runWith log).1 = ((applySignature b d).runWith log').1 ∧
      (a.node.IsLegible ∨ b.node.IsLegible →
        ∃ signed, ((applySignature a d).runWith log).1 = .ok signed) := by
  have hfacts := SignatureFacts.agree_ofBlock h
  have hsame : Agree (applySignature a d) (applySignature b d) :=
    hfacts.bind fun facts => isSteady_pure _
  refine ⟨hsame log log', fun hlegible => ?_⟩
  rcases hlegible with ha | hb
  · exact succeeds_applySignature ha d log
  · rw [hsame log log']
    exact succeeds_applySignature hb d log'

/-- The type `T.proc.params(x: Integer).void`, as the value of a pair. -/
def procedureType : Node :=
  ⟨"call", true, some "value", 12, 42, ⟨0, 12⟩, ⟨0, 42⟩, some "T.proc.params(x: Integer).void", [
    ⟨"call", true, some "receiver", 12, 37, ⟨0, 12⟩, ⟨0, 37⟩, some "T.proc.params(x: Integer)", [
      ⟨"call", true, some "receiver", 12, 18, ⟨0, 12⟩, ⟨0, 18⟩, some "T.proc", [
        ⟨"constant", true, some "receiver", 12, 13, ⟨0, 12⟩, ⟨0, 13⟩, some "T", []⟩,
        ⟨"identifier", true, some "method", 14, 18, ⟨0, 14⟩, ⟨0, 18⟩, some "proc", []⟩]⟩,
      ⟨"identifier", true, some "method", 19, 25, ⟨0, 19⟩, ⟨0, 25⟩, some "params", []⟩,
      ⟨"argument_list", true, some "arguments", 25, 37, ⟨0, 25⟩, ⟨0, 37⟩, some "(x: Integer)", [
        ⟨"pair", true, none, 26, 36, ⟨0, 26⟩, ⟨0, 36⟩, some "x: Integer", [
          ⟨"hash_key_symbol", true, some "key", 26, 27, ⟨0, 26⟩, ⟨0, 27⟩, some "x", []⟩,
          ⟨"constant", true, some "value", 29, 36, ⟨0, 29⟩, ⟨0, 36⟩, some "Integer", []⟩]⟩]⟩]⟩,
    ⟨"identifier", true, some "method", 38, 42, ⟨0, 38⟩, ⟨0, 42⟩, some "void", []⟩]⟩

/-- The type `T.proc`, as the value of a pair. -/
def bareProcedureType : Node :=
  ⟨"call", true, some "value", 12, 18, ⟨0, 12⟩, ⟨0, 18⟩, some "T.proc", [
    ⟨"constant", true, some "receiver", 12, 13, ⟨0, 12⟩, ⟨0, 13⟩, some "T", []⟩,
    ⟨"identifier", true, some "method", 14, 18, ⟨0, 14⟩, ⟨0, 18⟩, some "proc", []⟩]⟩

/-- The call `params(f: type)`, up to a column. -/
def paramsCall (type : Node) (finish : Nat) : Node :=
  ⟨"call", true, some "receiver", 2, finish, ⟨0, 2⟩, ⟨0, finish⟩,
    some ("params(f: " ++ type.written ++ ")"), [
    ⟨"identifier", true, some "method", 2, 8, ⟨0, 2⟩, ⟨0, 8⟩, some "params", []⟩,
    ⟨"argument_list", true, some "arguments", 8, finish, ⟨0, 8⟩, ⟨0, finish⟩,
      some ("(f: " ++ type.written ++ ")"), [
      ⟨"pair", true, none, 9, finish - 1, ⟨0, 9⟩, ⟨0, finish - 1⟩, some ("f: " ++ type.written), [
        ⟨"hash_key_symbol", true, some "key", 9, 10, ⟨0, 9⟩, ⟨0, 10⟩, some "f", []⟩,
        type]⟩]⟩]⟩

/-- The word `void` behind a column and a dot. -/
def voidWord (before : Nat) : Node :=
  ⟨"identifier", true, some "method", before + 1, before + 5, ⟨0, before + 1⟩, ⟨0, before + 5⟩,
    some "void", []⟩

/-- The call `params(f: type).void`. -/
def voidCall (type : Node) (finish : Nat) : Node :=
  ⟨"call", true, none, 2, finish + 5, ⟨0, 2⟩, ⟨0, finish + 5⟩,
    some ("params(f: " ++ type.written ++ ").void"), [paramsCall type finish, voidWord finish]⟩

/-- The body of the block `{ params(f: type).void }`. -/
def parameterBody (type : Node) (finish : Nat) : Node :=
  ⟨"block_body", true, some "body", 2, finish + 5, ⟨0, 2⟩, ⟨0, finish + 5⟩,
    some ("params(f: " ++ type.written ++ ").void"), [voidCall type finish]⟩

/-- The block `{ params(f: type).void }`. -/
def parameterBlock (type : Node) (finish : Nat) : Node :=
  ⟨"block", true, some "block", 0, finish + 7, ⟨0, 0⟩, ⟨0, finish + 7⟩,
    some ("\x7b params(f: " ++ type.written ++ ").void \x7d"), [parameterBody type finish]⟩

/-- A chain of calls that begins with the procedure method is a procedure type. -/
theorem typesOf_procedure {n : Node} (hcall : n.kind = "call")
    (hreceiver : TypeExpr.receiverOf n = .procedure) : typesOf (some n) = .ok ["Proc"] := by
  have htype : TypeExpr.ofNode n = .procedure := by
    rw [TypeExpr.ofNode, hcall, if_neg (by decide), if_pos (by decide), hreceiver]
  rw [typesOf, convertOptional, convert, htype]
  decide +kernel

theorem paramsCall_sameButArguments :
    (paramsCall procedureType 43).SameButArguments (paramsCall bareProcedureType 19) := by
  have hprocedure : typesOf (some procedureType) = .ok ["Proc"] :=
    typesOf_procedure rfl (by cbv)
  have hbare : typesOf (some bareProcedureType) = .ok ["Proc"] :=
    typesOf_procedure rfl (by cbv)
  have htypes : (paramsCall procedureType 43).keywordTypes =
      (paramsCall bareProcedureType 19).keywordTypes := by
    have hfirst : (paramsCall procedureType 43).keywordArguments = .ok [("f", procedureType)] := rfl
    have hsecond : (paramsCall bareProcedureType 19).keywordArguments =
        .ok [("f", bareProcedureType)] := rfl
    rw [Node.keywordTypes, Node.keywordTypes, hfirst, hsecond, Except.map, Except.map,
      List.map_singleton, List.map_singleton, hprocedure, hbare]
  refine .intro rfl (fun h => absurd h (by decide)) (fun _ => rfl) rfl
    (fun _ => htypes) (fun h => absurd h (by decide +kernel)) ?_
  intro i c d hc hd hopen
  rcases i with _ | _ | i
  · obtain rfl := Option.some.inj hc
    obtain rfl := Option.some.inj hd
    exact .refl _
  · exact absurd ⟨⟨"params", by decide, by decide +kernel⟩, by decide +kernel⟩ hopen
  · cases hc

theorem parameterBlock_sameButArguments :
    (parameterBlock procedureType 43).SameButArguments (parameterBlock bareProcedureType 19) := by
  have hword : (voidWord 43).SameButArguments (voidWord 19) :=
    .of_children rfl (fun _ => rfl) (fun _ => rfl) rfl (by decide +kernel) .nil
  have hvoid : (voidCall procedureType 43).SameButArguments (voidCall bareProcedureType 19) :=
    .of_children rfl (fun h => absurd h (by decide)) (fun _ => rfl) rfl (by decide +kernel)
      (.cons paramsCall_sameButArguments (.cons hword .nil))
  have hbody : (parameterBody procedureType 43).SameButArguments
      (parameterBody bareProcedureType 19) :=
    .of_children rfl (fun h => absurd h (by decide)) (fun _ => rfl) rfl (by decide +kernel)
      (.cons hvoid .nil)
  exact .of_children rfl (fun h => absurd h (by decide)) (fun _ => rfl) rfl (by decide +kernel)
    (.cons hbody .nil)

/-- A procedure type with parameters of its own and one without leave the same
docstring of the method that takes them. -/
theorem applySignature_procedureTypes :
    (Site.ofRoot (parameterBlock procedureType 43)).SameButArguments
        (Site.ofRoot (parameterBlock bareProcedureType 19)) ∧
      (parameterBlock bareProcedureType 19).IsLegible ∧
      ((applySignature (Site.ofRoot (parameterBlock procedureType 43)) {}).runWith []).1 =
        ((applySignature (Site.ofRoot (parameterBlock bareProcedureType 19)) {}).runWith []).1 ∧
      ∃ signed,
        ((applySignature (Site.ofRoot (parameterBlock procedureType 43)) {}).runWith []).1 =
          .ok signed := by
  have hblock : (Site.ofRoot (parameterBlock procedureType 43)).SameButArguments
      (Site.ofRoot (parameterBlock bareProcedureType 19)) :=
    ⟨parameterBlock_sameButArguments, rfl⟩
  have hlegible : (parameterBlock bareProcedureType 19).IsLegible := by decide +kernel
  obtain ⟨hsame, hsigned⟩ := applySignature_sameButArguments hblock {} [] []
  exact ⟨hblock, hlegible, hsame, hsigned (.inr hlegible)⟩

end RubyDoc

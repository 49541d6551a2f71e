import Mathlib.Data.List.Dedup
import RubyDoc.Proofs.Docstring.Upsert
import RubyDoc.Proofs.Walk.NestedTypes

/-!
# The tags that a signature writes

What the visited sites of a signature block give is told from the block alone: the types of
parameters by name, the types of what is returned, and whether the definition is abstract.
A signature changes nothing else in a docstring than the tags. Of the tags that were there
it keeps the order, the names and the texts, and gives types to the first parameter tag of a
name, the first return tag and the first abstract tag. New tags come behind, parameters
first. Making the same changes again changes nothing. What the types say is not claimed.
-/

namespace RubyDoc

open RubyDoc.Reading

/-! ### What a block gives -/

/-- The keyword arguments of a call with their types, those left out that cannot be read. -/
def Node.typedKeywords (n : Node) : List (String × List String) :=
  (n.keywordTypes.toOption.getD []).filterMap fun k => k.2.toOption.map fun types => (k.1, types)

namespace Site

/-- The word that a site of a signature block says. -/
def word? (s : Site) : Option String := (SignatureFacts.wordAt s).toOption.join

/-- Whether a site is a call of a name. -/
def isCallOf (name : String) (s : Site) : Bool := s.node.isCall && s.word? == some name

/-- The types that a site gives to parameters. -/
def paramTypes (s : Site) : List (String × List String) :=
  if s.isCallOf "params" then s.node.typedKeywords else []

/-- The types that a site gives to what is returned. -/
def returnTypes? (s : Site) : Option (List String) :=
  if s.isCallOf "returns" then s.node.returnTypes.toOption
  else if s.word? == some "void" then some [TypeExpr.voidType]
  else none

/-- Whether a site says that the definition is abstract. -/
def isAbstract (s : Site) : Bool := s.word? == some "abstract"

/-- What the visited sites of a block give: the types of parameters in the order of the
visit, and the types for what is returned that are met last. -/
def given (block : Site) : SignatureFacts where
  params := block.levelOrder.1.flatMap paramTypes
  returns := (block.levelOrder.1.filterMap returnTypes?).getLast?
  abstract := block.levelOrder.1.any isAbstract

end Site

namespace SignatureFacts

/-- Facts with what one more site gives. -/
def plus (facts : SignatureFacts) (s : Site) : SignatureFacts where
  params := facts.params ++ s.paramTypes
  returns := s.returnTypes?.or facts.returns
  abstract := facts.abstract || s.isAbstract

/-- The types that keyword arguments are read with are those that their values have. -/
theorem typesOf_of_readParams {keywords : Keywords} {log : Log} {read : List (String × List String)}
    (h : ((readParams keywords).runWith log).1 = .ok read) :
    (keywords.map fun k => (k.1, typesOf (some k.2))).filterMap
      (fun k => k.2.toOption.map fun types => (k.1, types)) = read := by
  induction keywords generalizing log read with
  | nil => exact Except.ok.inj h
  | cons k rest ih =>
    rw [readParams] at h
    obtain ⟨types, log', htypes, h⟩ := exists_of_bind_ok h
    obtain ⟨more, log'', hmore, h⟩ := exists_of_bind_ok h
    have hvalue : typesOf (some k.2) = .ok types :=
      (TypeExpr.isSteady_convert k.2 [] log).trans htypes
    have hread : (k.1, types) :: more = read := Except.ok.inj h
    rw [List.map_cons, List.filterMap_cons, ih hmore, hvalue]
    exact hread

/-- The keyword arguments of a call are read with the types that they have. -/
theorem typedKeywords_of_read {n : Node} {keywords : Keywords} (hn : n.keywordArguments = .ok keywords)
    {log : Log} {read : List (String × List String)}
    (h : ((readParams keywords).runWith log).1 = .ok read) : n.typedKeywords = read := by
  have htypes : n.keywordTypes = .ok (keywords.map fun k => (k.1, typesOf (some k.2))) := by
    rw [Node.keywordTypes, hn]
    rfl
  rw [Node.typedKeywords, htypes]
  exact typesOf_of_readParams h

/-- A site that is met adds what it gives. -/
theorem eq_plus_of_meet {facts facts' : SignatureFacts} {s : Site} {log : Log}
    (h : ((facts.meet s).runWith log).1 = .ok facts') : facts' = facts.plus s := by
  rw [meet] at h
  cases hw : wordAt s with
  | error fault =>
    rw [hw] at h
    cases h
  | ok word =>
    have hword : s.word? = word := by
      rw [Site.word?, hw]
      rfl
    rw [hw, ofExcept_ok_bind] at h
    rw [plus, Site.paramTypes, Site.returnTypes?, Site.isAbstract, Site.isCallOf, Site.isCallOf,
      hword]
    split at h
    · by_cases hcall : s.node.isCall = true
      · rw [if_pos hcall] at h
        obtain ⟨keywords, log₁, hkeywords, hrest⟩ := exists_of_bind_ok h
        obtain ⟨read, log₂, hread, hlast⟩ := exists_of_bind_ok hrest
        have hn : s.node.keywordArguments = .ok keywords := by
          cases hfound : s.node.keywordArguments with
          | error fault =>
            rw [hfound] at hkeywords
            cases hkeywords
          | ok found =>
            rw [hfound] at hkeywords
            exact hkeywords
        have hfacts : { facts with params := facts.params ++ read } = facts' :=
          Except.ok.inj hlast
        simp [← hfacts, hcall, typedKeywords_of_read hn hread]
      · rw [if_neg hcall] at h
        have hfacts : facts = facts' := Except.ok.inj h
        simp [← hfacts, hcall]
    · by_cases hcall : s.node.isCall = true
      · rw [if_pos hcall] at h
        obtain ⟨types, log', htypes, h⟩ := exists_of_bind_ok h
        have hreturn : s.node.returnTypes = .ok types :=
          (TypeExpr.isSteady_convertOptional _ [] log).trans htypes
        have hfacts : { facts with returns := some types } = facts' := Except.ok.inj h
        simp [← hfacts, hcall, hreturn, Except.toOption]
      · rw [if_neg hcall] at h
        have hfacts : facts = facts' := Except.ok.inj h
        simp [← hfacts, hcall]
    · have hfacts : { facts with returns := some [TypeExpr.voidType] } = facts' := Except.ok.inj h
      simp [← hfacts]
    · have hfacts : { facts with abstract := true } = facts' := Except.ok.inj h
      simp [← hfacts]
    · next hparams hreturns hvoid habstract =>
      have hfacts : facts = facts' := Except.ok.inj h
      rw [beq_eq_false_iff_ne.mpr hparams, beq_eq_false_iff_ne.mpr hreturns,
        beq_eq_false_iff_ne.mpr hvoid, beq_eq_false_iff_ne.mpr habstract]
      simp [← hfacts]

/-- Sites that are met one after the other add what they give. -/
theorem eq_of_meetAll {sites : List Site} {facts facts' : SignatureFacts} {log : Log}
    (h : ((facts.meetAll sites).runWith log).1 = .ok facts') :
    facts' = { params := facts.params ++ sites.flatMap Site.paramTypes
               returns := (sites.filterMap Site.returnTypes?).getLast?.or facts.returns
               abstract := facts.abstract || sites.any Site.isAbstract } := by
  induction sites generalizing facts log with
  | nil =>
    have hfacts : facts = facts' := Except.ok.inj h
    simp [← hfacts]
  | cons s sites ih =>
    rw [meetAll] at h
    obtain ⟨first, log', hfirst, h⟩ := exists_of_bind_ok h
    rw [ih h, eq_plus_of_meet hfirst, plus]
    cases hreturn : s.returnTypes? with
    | none => simp [hreturn, Bool.or_assoc]
    | some types =>
      cases hlast : (sites.filterMap Site.returnTypes?).getLast? <;>
        simp [hreturn, hlast, List.getLast?_cons, Bool.or_assoc]

/-- A block that is read gives what its visited sites give. -/
theorem eq_given_of_ofBlock {block : Site} {facts : SignatureFacts} {log : Log}
    (h : ((ofBlock block).runWith log).1 = .ok facts) : facts = block.given := by
  rw [ofBlock, Site.levelOrder] at h
  obtain ⟨met, log', hmet, h⟩ := exists_of_bind_ok h
  have hfacts : met = facts := by
    cases hend : (levelOrderFrom [block]).2 with
    | some fault =>
      rw [hend] at h
      cases h
    | none =>
      rw [hend] at h
      exact Except.ok.inj h
  rw [← hfacts, eq_of_meetAll hmet, Site.given, Site.levelOrder]
  simp

/-! ### What the facts make of tags -/

/-- The types that stand last for a name. -/
def lastTypes (ps : List (String × List String)) (name : String) : Option (List String) :=
  (ps.filter fun p => p.1 == name).getLast?.map Prod.snd

/-- Names in the order in which they stand first, each once. -/
def firstNames (ps : List (String × List String)) : List String :=
  (ps.map Prod.fst).reverse.dedup.reverse

/-- The types that a tag has afterwards: only the first tag of a kind takes what is given. -/
def typesAt (facts : SignatureFacts) (tags : List Tag) (i : Nat) (tag : Tag) :
    Option (List String) :=
  if tags.findIdx? (Tag.isFor "return" none) = some i then facts.returns.or tag.types
  else if tags.findIdx? (Tag.isFor "abstract" none) = some i then
    if facts.abstract then none else tag.types
  else match tag.name with
    | some name =>
      if tags.findIdx? (Tag.isFor "param" (some name)) = some i then
        (lastTypes facts.params name).or tag.types
      else tag.types
    | none => tag.types

/-- The names of parameters that have no tag. -/
def newNames (facts : SignatureFacts) (tags : List Tag) : List String :=
  firstNames (facts.params.filter fun p => !tags.any (Tag.isFor "param" (some p.1)))

/-- The tag of a parameter that had none. -/
def newParam (ps : List (String × List String)) (name : String) : Tag :=
  { tagName := "param", types := lastTypes ps name, name := some name }

/-- The tags that are added: parameters, then what is returned, then the abstract mark. -/
def newTags (facts : SignatureFacts) (tags : List Tag) : List Tag :=
  (facts.newNames tags).map (newParam facts.params) ++
    (if tags.any (Tag.isFor "return" none) then []
      else facts.returns.toList.map fun types => { tagName := "return", types := some types }) ++
    if facts.abstract && !tags.any (Tag.isFor "abstract" none) then [{ tagName := "abstract" }]
    else []

/-- The upsert of a parameter. -/
def paramUpsert (p : String × List String) : Upsert :=
  { tagName := "param", types := some p.2, name := some p.1 }

/-- The upsert of what is returned. -/
def returnUpsert (types : List String) : Upsert :=
  { tagName := "return", types := some types, name := none }

/-- The upsert of the abstract mark. -/
def abstractUpsert : Upsert := { tagName := "abstract", types := none, name := none }

/-- What is upserted, one after the other. -/
def upserts (facts : SignatureFacts) : List Upsert :=
  facts.params.map paramUpsert ++ facts.returns.toList.map returnUpsert ++
    if facts.abstract then [abstractUpsert] else []

/-- What a signature says is written by upserts. -/
theorem apply_eq_intoAll (facts : SignatureFacts) (d : Docstring) :
    facts.apply d = { d with tags := Upsert.intoAll facts.upserts d.tags } := by
  have hparams (ps : List (String × List String)) (d : Docstring) :
      ps.foldl (fun d p => d.upsertTag "param" (some p.2) (some p.1)) d =
        { d with tags := Upsert.intoAll (ps.map paramUpsert) d.tags } := by
    induction ps generalizing d with
    | nil => rfl
    | cons p ps ih => exact ih _
  rw [apply, upserts, hparams, Upsert.intoAll_append, Upsert.intoAll_append]
  cases facts.returns <;> cases facts.abstract <;> rfl

/-- What stands at the place of a parameter has its name. -/
theorem name_of_place? {p : String × List String} {tags : List Tag} {i : Nat} {tag : Tag}
    (hplace : (paramUpsert p).place? tags = some i) (ht : tags[i]? = some tag) :
    tag.name = some p.1 := by
  have hfinds := Upsert.finds_of_place? hplace ht
  rw [Upsert.Finds, paramUpsert, Tag.isFor, Bool.and_eq_true] at hfinds
  exact eq_of_beq hfinds.2

/-- The first tag of a name is the one that is retyped for it. -/
theorem lastAt?_paramUpserts (ps : List (String × List String)) {tags : List Tag} {i : Nat}
    {tag : Tag} (ht : tags[i]? = some tag) :
    Upsert.lastAt? (ps.map paramUpsert) tags i = match tag.name with
      | some name =>
        if tags.findIdx? (Tag.isFor "param" (some name)) = some i then
          (ps.filter fun p => p.1 == name).getLast?.map paramUpsert
        else none
      | none => none := by
  have hmap : Upsert.lastAt? (ps.map paramUpsert) tags i =
      (ps.filter fun p => (paramUpsert p).place? tags == some i).getLast?.map paramUpsert := by
    rw [Upsert.lastAt?, List.filter_map, List.getLast?_map]
    rfl
  have hnone (h : ∀ p ∈ ps, (paramUpsert p).place? tags ≠ some i) :
      ps.filter (fun p => (paramUpsert p).place? tags == some i) = [] :=
    List.filter_eq_nil_iff.mpr fun p hp => by simpa using h p hp
  rw [hmap]
  cases hname : tag.name with
  | none =>
    rw [hnone]
    · rfl
    · intro p hp hplace
      rw [name_of_place? hplace ht] at hname
      cases hname
  | some name =>
    by_cases hfirst : tags.findIdx? (Tag.isFor "param" (some name)) = some i
    · have hsame : ps.filter (fun p => (paramUpsert p).place? tags == some i) =
          ps.filter fun p => p.1 == name := by
        refine List.filter_congr fun p hp => ?_
        by_cases hp : p.1 = name
        · have hplace : (paramUpsert p).place? tags = some i := by
            rw [← hfirst, ← hp]
            rfl
          simp [hplace, hp]
        · have hplace : (paramUpsert p).place? tags ≠ some i := by
            intro hplace
            rw [name_of_place? hplace ht] at hname
            exact hp (Option.some.inj hname)
          simp [hplace, hp]
      simp only [hsame, if_pos hfirst]
    · rw [hnone]
      · simp only [if_neg hfirst]
        rfl
      · intro p hp hplace
        rw [name_of_place? hplace ht] at hname
        rw [← Option.some.inj hname] at hfirst
        exact hfirst hplace

/-- The first return tag is the one that is retyped. -/
theorem lastAt?_returnUpserts (returns : Option (List String)) (tags : List Tag) (i : Nat) :
    Upsert.lastAt? (returns.toList.map returnUpsert) tags i =
      if tags.findIdx? (Tag.isFor "return" none) = some i then returns.map returnUpsert
      else none := by
  cases returns with
  | none => simp [Upsert.lastAt?]
  | some types => exact Upsert.lastAt?_singleton (returnUpsert types) tags i

/-- The first abstract tag is the one that is retyped. -/
theorem lastAt?_abstractUpserts (abstract : Bool) (tags : List Tag) (i : Nat) :
    Upsert.lastAt? (if abstract then [abstractUpsert] else []) tags i =
      if tags.findIdx? (Tag.isFor "abstract" none) = some i then
        if abstract then some abstractUpsert else none
      else none := by
  cases abstract with
  | false => simp [Upsert.lastAt?]
  | true => exact Upsert.lastAt?_singleton abstractUpsert tags i

/-- The tags that were there have the types that are said. -/
theorem retyped_upserts (facts : SignatureFacts) (tags : List Tag) :
    Upsert.retyped facts.upserts tags =
      tags.mapIdx fun i tag => { tag with types := facts.typesAt tags i tag } := by
  refine List.ext_getElem? fun i => ?_
  rw [Upsert.getElem?_retyped, List.getElem?_mapIdx]
  cases ht : tags[i]? with
  | none => rfl
  | some tag =>
    have hreturn (h : tags.findIdx? (Tag.isFor "return" none) = some i) : tag.tagName = "return" :=
      Upsert.tagName_of_place? (u := returnUpsert []) h ht
    have habstract (h : tags.findIdx? (Tag.isFor "abstract" none) = some i) :
        tag.tagName = "abstract" := Upsert.tagName_of_place? (u := abstractUpsert) h ht
    have hparam (name : String) (h : tags.findIdx? (Tag.isFor "param" (some name)) = some i) :
        tag.tagName = "param" := Upsert.tagName_of_place? (u := paramUpsert (name, [])) h ht
    have htypes : (Upsert.lastAt? facts.upserts tags i).elim tag.types Upsert.types =
        facts.typesAt tags i tag := by
      rw [upserts, Upsert.lastAt?_append, Upsert.lastAt?_append, lastAt?_returnUpserts,
        lastAt?_abstractUpserts, lastAt?_paramUpserts facts.params ht]
      -- A tag has one tag name, so at most one of the three kinds of upserts is for it.
      by_cases hr : tags.findIdx? (Tag.isFor "return" none) = some i
      · have ha : tags.findIdx? (Tag.isFor "abstract" none) ≠ some i := fun h =>
          absurd ((hreturn hr).symm.trans (habstract h)) (by decide)
        have hp (name : String) : tags.findIdx? (Tag.isFor "param" (some name)) ≠ some i := fun h =>
          absurd ((hreturn hr).symm.trans (hparam name h)) (by decide)
        cases hreturns : facts.returns <;> cases tag.name <;>
          simp [typesAt, hr, ha, hp, hreturns, returnUpsert]
      · by_cases ha : tags.findIdx? (Tag.isFor "abstract" none) = some i
        · have hp (name : String) : tags.findIdx? (Tag.isFor "param" (some name)) ≠ some i :=
            fun h => absurd ((habstract ha).symm.trans (hparam name h)) (by decide)
          cases habs : facts.abstract <;> cases tag.name <;>
            simp [typesAt, hr, ha, hp, habs, abstractUpsert]
        · cases hname : tag.name with
          | none => simp [typesAt, hr, ha, hname]
          | some name =>
            by_cases hp : tags.findIdx? (Tag.isFor "param" (some name)) = some i
            · cases hlast : (facts.params.filter fun p => p.1 == name).getLast? <;>
                simp [typesAt, hr, ha, hname, hp, lastTypes, hlast, paramUpsert]
            · simp [typesAt, hr, ha, hname, hp]
    rw [Option.map_some, Option.map_some, htypes]

/-! ### The tags that are added -/

/-- The upserts that find no tag. -/
theorem filter_upserts (facts : SignatureFacts) (tags : List Tag) :
    facts.upserts.filter (fun u => (u.place? tags).isNone) =
      (facts.params.filter fun p => !tags.any (Tag.isFor "param" (some p.1))).map paramUpsert ++
        (if tags.any (Tag.isFor "return" none) then [] else facts.returns.toList.map returnUpsert) ++
        if facts.abstract && !tags.any (Tag.isFor "abstract" none) then [abstractUpsert] else [] := by
  have hnone (u : Upsert) :
      (u.place? tags).isNone = !tags.any (Tag.isFor u.tagName u.name) := by
    rw [← Option.not_isSome, Upsert.place?, List.findIdx?_isSome]
    rfl
  rw [upserts, List.filter_append, List.filter_append, List.filter_map]
  simp only [hnone]
  congr 1
  · congr 1
    cases facts.returns with
    | none => simp
    | some types =>
      cases h : tags.any (Tag.isFor "return" none) <;> simp [returnUpsert, h]
  · cases facts.abstract with
    | false => rfl
    | true => cases h : tags.any (Tag.isFor "abstract" none) <;> simp [abstractUpsert, h]

theorem nodup_firstNames (ps : List (String × List String)) : (firstNames ps).Nodup :=
  List.nodup_reverse.mpr (List.nodup_dedup _)

theorem mem_firstNames {ps : List (String × List String)} {name : String} :
    name ∈ firstNames ps ↔ ∃ p ∈ ps, p.1 = name := by
  rw [firstNames, List.mem_reverse, List.mem_dedup, List.mem_reverse, List.mem_map]

theorem firstNames_append_singleton (ps : List (String × List String)) (p : String × List String) :
    firstNames (ps ++ [p]) =
      if p.1 ∈ firstNames ps then firstNames ps else firstNames ps ++ [p.1] := by
  have hmem : p.1 ∈ firstNames ps ↔ p.1 ∈ (ps.map Prod.fst).reverse := by
    rw [firstNames, List.mem_reverse, List.mem_dedup]
  rw [firstNames, List.map_append, List.map_singleton, List.reverse_concat]
  split
  · next h => rw [List.dedup_cons_of_mem (hmem.mp h), firstNames]
  · next h => rw [List.dedup_cons_of_notMem (mt hmem.mpr h), List.reverse_cons, firstNames]

theorem newParam_append_self (ps : List (String × List String)) (p : String × List String) :
    newParam (ps ++ [p]) p.1 = (paramUpsert p).newTag := by
  simp [newParam, lastTypes, Upsert.newTag, paramUpsert]

theorem newParam_append_of_ne (ps : List (String × List String)) {p : String × List String}
    {name : String} (h : name ≠ p.1) : newParam (ps ++ [p]) name = newParam ps name := by
  simp [newParam, lastTypes, h.symm]

/-- An upsert of a parameter among the tags of names that stand once each. -/
theorem into_paramUpsert (ps : List (String × List String)) (p : String × List String)
    {names : List String} (h : names.Nodup) :
    (paramUpsert p).into (names.map (newParam ps)) =
      (if p.1 ∈ names then names else names ++ [p.1]).map (newParam (ps ++ [p])) := by
  induction names with
  | nil => simp [newParam_append_self, Upsert.into, upsertIn, Upsert.newTag]
  | cons name names ih =>
    obtain ⟨hname, hrest⟩ := List.nodup_cons.mp h
    have hfinds : (paramUpsert p).Finds (newParam ps name) = (name == p.1) := by
      simp [Upsert.Finds, paramUpsert, Tag.isFor, newParam]
    rw [List.map_cons, Upsert.into_cons, hfinds]
    by_cases heq : name = p.1
    · subst heq
      have hsame : names.map (newParam (ps ++ [p])) = names.map (newParam ps) :=
        List.map_congr_left fun n hn => newParam_append_of_ne ps fun hn' => hname (hn' ▸ hn)
      have hself : { newParam ps p.1 with types := (paramUpsert p).types } =
          newParam (ps ++ [p]) p.1 := (newParam_append_self ps p).symm
      simp [hself, hsame]
    · have hmem : p.1 ∈ name :: names ↔ p.1 ∈ names := by simp [Ne.symm heq]
      rw [beq_eq_false_iff_ne.mpr heq, if_neg Bool.false_ne_true, ih hrest]
      by_cases hp : p.1 ∈ names <;> simp [hp, Ne.symm heq, newParam_append_of_ne ps heq]

/-- Upserts of parameters into no tags make one tag for each name. -/
theorem intoAll_paramUpserts (ps : List (String × List String)) :
    Upsert.intoAll (ps.map paramUpsert) [] = (firstNames ps).map (newParam ps) := by
  induction ps using List.reverseRecOn with
  | nil => rfl
  | append_singleton ps p ih =>
    have hlast (ts : List Tag) : Upsert.intoAll [paramUpsert p] ts = (paramUpsert p).into ts := rfl
    rw [List.map_append, Upsert.intoAll_append, ih, List.map_singleton, hlast,
      into_paramUpsert ps p (nodup_firstNames ps), ← firstNames_append_singleton]

/-- What the upserts add that find no tag. -/
theorem intoAll_filter_upserts (facts : SignatureFacts) (tags : List Tag) :
    Upsert.intoAll (facts.upserts.filter fun u => (u.place? tags).isNone) [] =
      facts.newTags tags := by
  have hparams : (facts.newNames tags).map (newParam
      (facts.params.filter fun p => !tags.any (Tag.isFor "param" (some p.1)))) =
        (facts.newNames tags).map (newParam facts.params) := by
    refine List.map_congr_left fun name hname => ?_
    obtain ⟨p, hp, rfl⟩ := mem_firstNames.mp hname
    have hnew := (List.mem_filter.mp hp).2
    have hsame : (facts.params.filter fun p => !tags.any (Tag.isFor "param" (some p.1))).filter
        (fun q => q.1 == p.1) = facts.params.filter fun q => q.1 == p.1 := by
      rw [List.filter_filter]
      refine List.filter_congr fun q _ => ?_
      by_cases hq : q.1 = p.1
      · rw [hq, hnew, Bool.and_true]
      · rw [beq_eq_false_iff_ne.mpr hq, Bool.false_and]
    rw [newParam, lastTypes, hsame, newParam, lastTypes]
  -- No parameter tag is found for what is returned or for the abstract mark.
  rw [filter_upserts, List.append_assoc, Upsert.intoAll_append, intoAll_paramUpserts, ← newNames,
    hparams, Upsert.intoAll_of_nodup, newTags, List.append_assoc]
  · congr 1
    cases facts.returns <;> cases facts.abstract <;>
      cases tags.any (Tag.isFor "return" none) <;> cases tags.any (Tag.isFor "abstract" none) <;> rfl
  · cases facts.returns <;> cases facts.abstract <;>
      cases tags.any (Tag.isFor "return" none) <;> cases tags.any (Tag.isFor "abstract" none) <;>
      simp [returnUpsert, abstractUpsert]
  · intro u hu tag htag
    obtain ⟨name, -, rfl⟩ := List.mem_map.mp htag
    have hkind : u.tagName = "return" ∨ u.tagName = "abstract" := by
      rcases List.mem_append.mp hu with hu | hu
      · split at hu
        · cases hu
        · obtain ⟨types, -, rfl⟩ := List.mem_map.mp hu
          exact .inl rfl
      · split at hu
        · exact .inr (congrArg Upsert.tagName (List.mem_singleton.mp hu))
        · cases hu
    have htag : (newParam facts.params name).tagName = "param" := rfl
    rw [htag]
    rcases hkind with hkind | hkind
    · rw [hkind]
      decide
    · rw [hkind]
      decide

/-- A signature retypes tags and adds others behind them. -/
theorem tags_apply (facts : SignatureFacts) (d : Docstring) :
    (facts.apply d).tags =
      d.tags.mapIdx (fun i tag => { tag with types := facts.typesAt d.tags i tag }) ++
        facts.newTags d.tags := by
  rw [apply_eq_intoAll, ← retyped_upserts, ← intoAll_filter_upserts, ← Upsert.intoAll_eq]

example :
    (({ params := [("a", ["Integer"]), ("b", ["String"]), ("a", ["Float"])]
        returns := some ["void"] } : SignatureFacts).apply
      { tags := [{ tagName := "return" }, { tagName := "param", text := "One.", name := some "a" },
        { tagName := "param", text := "Two.", name := some "a" }] }).tags =
      [{ tagName := "return", types := some ["void"] },
        { tagName := "param", text := "One.", types := some ["Float"], name := some "a" },
        { tagName := "param", text := "Two.", name := some "a" },
        { tagName := "param", types := some ["String"], name := some "b" }] := by decide

/-- What a signature says is written once and for all. -/
theorem apply_apply (facts : SignatureFacts) (d : Docstring) :
    facts.apply (facts.apply d) = facts.apply d := by
  rw [apply_eq_intoAll facts d, apply_eq_intoAll, Upsert.intoAll_intoAll]

end SignatureFacts

/-- **A signature only adds and retypes tags, and only once.** The tags that were there keep
their order, names and texts; the first parameter tag of a name takes the types given last
for it, and the first return tag and the first abstract tag take theirs. The tags that are
added come behind, parameters first and at most one of a name. Writing the same signature
again changes nothing. A block ends in a fault only if it is not legible. -/
theorem applySignature_upserts (block : Site) (d : Docstring) (log : Log) :
    match ((applySignature block d).runWith log).1 with
    | .error _ => ¬ block.node.IsLegible
    | .ok signed =>
      signed.text = d.text ∧ signed.directives = d.directives ∧
        signed.tags =
          d.tags.mapIdx (fun i tag => { tag with types := block.given.typesAt d.tags i tag }) ++
            block.given.newTags d.tags ∧
        (block.given.newNames d.tags).Nodup ∧
        ∀ log', ((applySignature block signed).runWith log').1 = .ok signed := by
  cases h : ((applySignature block d).runWith log).1 with
  | error fault =>
    intro hlegible
    obtain ⟨signed, hsigned⟩ := succeeds_applySignature hlegible d log
    rw [h] at hsigned
    cases hsigned
  | ok signed =>
    obtain ⟨facts, log₁, hfacts, hsigned⟩ := exists_of_bind_ok h
    obtain rfl : facts = block.given := SignatureFacts.eq_given_of_ofBlock hfacts
    obtain rfl : block.given.apply d = signed := Except.ok.inj hsigned
    have htags := block.given.tags_apply d
    have hrest : (block.given.apply d).text = d.text ∧
        (block.given.apply d).directives = d.directives := by
      rw [SignatureFacts.apply_eq_intoAll]
      exact ⟨rfl, rfl⟩
    refine ⟨hrest.1, hrest.2, htags, SignatureFacts.nodup_firstNames _, fun log' => ?_⟩
    have hagain : ((applySignature block (block.given.apply d)).runWith log').1 =
        .ok (block.given.apply (block.given.apply d)) := by
      rw [isSteady_applySignature block _ log' log, applySignature, runWith_bind_of_ok hfacts]
      rfl
    rw [hagain, SignatureFacts.apply_apply]

end RubyDoc

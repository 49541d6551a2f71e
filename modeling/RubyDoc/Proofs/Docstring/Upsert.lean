import Mathlib.Data.List.Induction
import RubyDoc.Docstring.Basic

/-!
# Setting the types of tags

An upsert gives types to the first tag that it finds, or adds a tag with them. A row of
upserts leaves the tags that were there at their places: each takes the types of the last
upsert that finds it first, and keeps its name and its text. The upserts that find nothing
make tags of their own behind the others. Once a row of upserts was made, making it again
changes nothing, whatever the upserts ask for. What the types are is not said here.
-/

namespace RubyDoc

/-- Types for the first tag with a tag name and, if one is asked for, a parameter name. -/
structure Upsert where
  /-- The tag name. -/
  tagName : String
  /-- The types. -/
  types : Option (List String)
  /-- The parameter name, if one is asked for. -/
  name : Option String

namespace Upsert

/-- Whether a tag is one that the upsert is for. -/
def Finds (u : Upsert) (tag : Tag) : Bool := tag.isFor u.tagName u.name

/-- The tag that is added if none is found. -/
def newTag (u : Upsert) : Tag := { tagName := u.tagName, types := u.types, name := u.name }

/-- The place of the first tag that is found. -/
def place? (u : Upsert) (tags : List Tag) : Option Nat := tags.findIdx? u.Finds

/-- Tags after an upsert. -/
def into (u : Upsert) (tags : List Tag) : List Tag := upsertIn u.tagName u.types u.name tags

theorem finds_newTag (u : Upsert) : u.Finds u.newTag = true := by
  simp [Finds, newTag, Tag.isFor]

theorem place?_cons (u : Upsert) (tag : Tag) (tags : List Tag) :
    u.place? (tag :: tags) = if u.Finds tag then some 0 else (u.place? tags).map (· + 1) :=
  List.findIdx?_cons

theorem into_cons (u : Upsert) (tag : Tag) (tags : List Tag) :
    u.into (tag :: tags) =
      if u.Finds tag then { tag with types := u.types } :: tags else tag :: u.into tags := rfl

/-- The first tag that is found takes the types, or a new tag comes behind the others. -/
theorem into_eq (u : Upsert) (tags : List Tag) :
    u.into tags = match u.place? tags with
      | some i => tags.modify i fun tag => { tag with types := u.types }
      | none => tags ++ [u.newTag] := by
  induction tags with
  | nil => rfl
  | cons tag tags ih =>
    rw [place?_cons, into_cons]
    by_cases hfinds : u.Finds tag = true
    · simp [hfinds]
    · rw [if_neg hfinds, if_neg hfinds, ih]
      cases u.place? tags <;> simp

/-- Tags in the same order that differ in their types alone. -/
def SameHeads (tags tags' : List Tag) : Prop :=
  tags.map (fun tag => { tag with types := none }) =
    tags'.map fun tag => { tag with types := none }

/-- Where a tag is found does not depend on the types. -/
theorem place?_eq_of_sameHeads {tags tags' : List Tag} (h : SameHeads tags tags') (u : Upsert) :
    u.place? tags = u.place? tags' := by
  have hheads (ts : List Tag) :
      u.place? ts = u.place? (ts.map fun tag => { tag with types := none }) := by
    rw [place?, place?, List.findIdx?_map]
    rfl
  rw [hheads tags, h, ← hheads tags']

/-- Giving one tag other types keeps the rest of it. -/
theorem sameHeads_modify (tags : List Tag) (i : Nat) (types : Option (List String)) :
    SameHeads (tags.modify i fun tag => { tag with types }) tags := by
  rw [SameHeads]
  refine List.ext_getElem? fun j => ?_
  rw [List.getElem?_map, List.getElem?_map, List.getElem?_modify]
  by_cases hij : i = j
  · cases tags[j]? <;> simp [hij]
  · cases tags[j]? <;> simp [hij]

/-- The place of a tag among more tags behind. -/
theorem place?_append (u : Upsert) (tags more : List Tag) :
    u.place? (tags ++ more) = (u.place? tags).or ((u.place? more).map (· + tags.length)) :=
  List.findIdx?_append

/-- What stands at the place is a tag that the upsert is for. -/
theorem finds_of_place? {u : Upsert} {tags : List Tag} {i : Nat} (h : u.place? tags = some i)
    {tag : Tag} (ht : tags[i]? = some tag) : u.Finds tag = true := by
  obtain ⟨hi, hfinds, -⟩ := List.findIdx?_eq_some_iff_getElem.mp h
  rw [List.getElem?_eq_getElem hi] at ht
  rwa [← Option.some.inj ht]

/-- What stands at the place has the tag name. -/
theorem tagName_of_place? {u : Upsert} {tags : List Tag} {i : Nat} (h : u.place? tags = some i)
    {tag : Tag} (ht : tags[i]? = some tag) : tag.tagName = u.tagName := by
  have hfinds := finds_of_place? h ht
  rw [Finds, Tag.isFor, Bool.and_eq_true] at hfinds
  exact eq_of_beq hfinds.1

/-- The upsert goes into the front part if it finds a tag there. -/
theorem into_append (u : Upsert) (tags more : List Tag) :
    u.into (tags ++ more) =
      if (u.place? tags).isSome then u.into tags ++ more else tags ++ u.into more := by
  induction tags with
  | nil => rfl
  | cons tag tags ih =>
    rw [List.cons_append, into_cons, into_cons, place?_cons]
    by_cases hfinds : u.Finds tag = true
    · simp [hfinds]
    · rw [if_neg hfinds, if_neg hfinds, if_neg hfinds, ih, Option.isSome_map]
      split <;> rfl

/-- After an upsert its tag is found, and what another one finds it finds where it was. -/
theorem place?_into (u v : Upsert) (tags : List Tag) :
    v.place? (u.into tags) =
      (v.place? tags).or
        (if (u.place? tags).isNone && v.Finds u.newTag then some tags.length else none) := by
  rw [into_eq]
  cases hplace : u.place? tags with
  | some i =>
    rw [place?_eq_of_sameHeads (sameHeads_modify tags i u.types) v]
    simp
  | none =>
    have hlast : v.place? [u.newTag] = if v.Finds u.newTag then some 0 else none := by
      simp [place?, List.findIdx?_cons]
    simp only [place?_append, hlast, Option.isNone_none, Bool.true_and]
    by_cases hfinds : v.Finds u.newTag = true
    · simp [hfinds]
    · simp [hfinds]

/-- Tags after a row of upserts, one after the other. -/
def intoAll (us : List Upsert) (tags : List Tag) : List Tag := us.foldl (fun ts u => u.into ts) tags

@[simp] theorem intoAll_nil (tags : List Tag) : intoAll [] tags = tags := rfl

theorem intoAll_append (us vs : List Upsert) (tags : List Tag) :
    intoAll (us ++ vs) tags = intoAll vs (intoAll us tags) := List.foldl_append

/-- Upserts with tag names of their own that no tag has add one tag each. -/
theorem intoAll_of_nodup {us : List Upsert} {tags : List Tag} (h : (us.map tagName).Nodup)
    (hnew : ∀ u ∈ us, ∀ tag ∈ tags, tag.tagName ≠ u.tagName) :
    intoAll us tags = tags ++ us.map newTag := by
  induction us generalizing tags with
  | nil => rw [intoAll_nil, List.map_nil, List.append_nil]
  | cons u us ih =>
    obtain ⟨hname, hrest⟩ := List.nodup_cons.mp h
    obtain ⟨hhead, htail⟩ := List.forall_mem_cons.mp hnew
    have hplace : u.place? tags = none := by
      refine List.findIdx?_eq_none_iff.mpr fun tag htag => ?_
      rw [Finds, Tag.isFor, beq_eq_false_iff_ne.mpr (hhead tag htag), Bool.false_and]
    have hinto : u.into tags = tags ++ [u.newTag] := by rw [into_eq, hplace]
    have hall : intoAll (u :: us) tags = intoAll us (u.into tags) := rfl
    rw [hall, hinto, ih hrest, List.map_cons, List.append_assoc, List.singleton_append]
    intro v hv tag htag
    rcases List.mem_append.mp htag with htag | htag
    · exact htail v hv tag htag
    · rw [List.mem_singleton.mp htag]
      exact fun hsame => hname (List.mem_map.mpr ⟨v, hv, hsame.symm⟩)

/-- The last upsert that finds the tag at a place first. -/
def lastAt? (us : List Upsert) (tags : List Tag) (i : Nat) : Option Upsert :=
  (us.filter fun u => u.place? tags == some i).getLast?

theorem lastAt?_append (us vs : List Upsert) (tags : List Tag) (i : Nat) :
    lastAt? (us ++ vs) tags i = (lastAt? vs tags i).or (lastAt? us tags i) := by
  rw [lastAt?, List.filter_append, List.getLast?_append, ← lastAt?, ← lastAt?]

theorem lastAt?_singleton (u : Upsert) (tags : List Tag) (i : Nat) :
    lastAt? [u] tags i = if u.place? tags = some i then some u else none := by
  by_cases hplace : u.place? tags = some i <;> simp [lastAt?, hplace]

theorem lastAt?_append_singleton (us : List Upsert) (u : Upsert) (tags : List Tag) (i : Nat) :
    lastAt? (us ++ [u]) tags i =
      if u.place? tags = some i then some u else lastAt? us tags i := by
  rw [lastAt?_append, lastAt?_singleton]
  split <;> rfl

/-- The tags that were there, each with the types of the last upsert that finds it first. -/
def retyped (us : List Upsert) (tags : List Tag) : List Tag :=
  tags.mapIdx fun i tag => { tag with types := (lastAt? us tags i).elim tag.types Upsert.types }

theorem getElem?_retyped (us : List Upsert) (tags : List Tag) (i : Nat) :
    (retyped us tags)[i]? = tags[i]?.map fun tag =>
      { tag with types := (lastAt? us tags i).elim tag.types Upsert.types } := List.getElem?_mapIdx

theorem sameHeads_retyped (us : List Upsert) (tags : List Tag) :
    SameHeads (retyped us tags) tags := by
  rw [SameHeads]
  refine List.ext_getElem? fun i => ?_
  rw [List.getElem?_map, List.getElem?_map, getElem?_retyped]
  cases tags[i]? with
  | none => rfl
  | some tag => cases lastAt? us tags i <;> rfl

/-- **What a row of upserts makes.** The tags that were there stay at their places with the
last types that are for them; the upserts that find none of them go behind. -/
theorem intoAll_eq (us : List Upsert) (tags : List Tag) :
    intoAll us tags =
      retyped us tags ++ intoAll (us.filter fun u => (u.place? tags).isNone) [] := by
  induction us using List.reverseRecOn with
  | nil =>
    refine List.ext_getElem? fun i => ?_
    rw [intoAll_nil, List.filter_nil, intoAll_nil, List.append_nil, getElem?_retyped]
    simp [lastAt?]
  | append_singleton us u ih =>
    have hheads : u.place? (retyped us tags) = u.place? tags :=
      place?_eq_of_sameHeads (sameHeads_retyped us tags) u
    have hlast : intoAll [u] (intoAll us tags) = u.into (intoAll us tags) := rfl
    rw [intoAll_append, hlast, ih, into_append, hheads, List.filter_append, intoAll_append]
    cases hplace : u.place? tags with
    | some k =>
      have hfront : u.into (retyped us tags) = retyped (us ++ [u]) tags := by
        rw [into_eq, hheads, hplace]
        refine List.ext_getElem? fun i => ?_
        rw [List.getElem?_modify, getElem?_retyped, getElem?_retyped, lastAt?_append_singleton,
          hplace]
        by_cases hki : k = i
        · cases tags[i]? with
          | none => rfl
          | some tag => cases lastAt? us tags i <;> simp [hki]
        · simp [hki]
      simp [hfront, hplace]
    | none =>
      have hfront : retyped us tags = retyped (us ++ [u]) tags := by
        refine List.ext_getElem? fun i => ?_
        rw [getElem?_retyped, getElem?_retyped, lastAt?_append_singleton, hplace]
        simp
      have hback (ts : List Tag) : intoAll [u] ts = u.into ts := rfl
      simp [hfront, hplace, hback]

/-- Tags in which every upsert of a row finds one, and each tag has the types of the last
upsert that finds it first. -/
structure AreSettled (us : List Upsert) (tags : List Tag) : Prop where
  /-- Every upsert finds a tag. -/
  found : ∀ u ∈ us, (u.place? tags).isSome = true
  /-- The tags have their types. -/
  retyped : retyped us tags = tags

/-- Upserts into tags that are settled change nothing. -/
theorem AreSettled.intoAll_eq {us : List Upsert} {tags : List Tag} (h : AreSettled us tags) :
    intoAll us tags = tags := by
  have hnone : us.filter (fun u => (u.place? tags).isNone) = [] := by
    refine List.filter_eq_nil_iff.mpr fun u hu => ?_
    rw [Option.isNone_iff_eq_none]
    intro hplace
    have hfound := h.found u hu
    rw [hplace] at hfound
    cases hfound
  rw [Upsert.intoAll_eq, hnone, intoAll_nil, List.append_nil, h.retyped]

/-- One more upsert leaves tags settled. -/
theorem AreSettled.into {us : List Upsert} {tags : List Tag} (h : AreSettled us tags) (u : Upsert) :
    AreSettled (us ++ [u]) (u.into tags) := by
  -- Nothing that was found before is found elsewhere now.
  have hplaces : ∀ v ∈ us, v.place? (u.into tags) = v.place? tags := by
    intro v hv
    obtain ⟨i, hi⟩ := Option.isSome_iff_exists.mp (h.found v hv)
    rw [place?_into, hi, Option.some_or]
  have hself : u.place? (u.into tags) = some ((u.place? tags).getD tags.length) := by
    rw [place?_into]
    cases u.place? tags with
    | some i => rfl
    | none => simp [finds_newTag]
  have hlast (i : Nat) : lastAt? us (u.into tags) i = lastAt? us tags i := by
    have hfilter : us.filter (fun v => v.place? (u.into tags) == some i) =
        us.filter fun v => v.place? tags == some i :=
      List.filter_congr fun v hv => by rw [hplaces v hv]
    rw [lastAt?, hfilter, lastAt?]
  have hold (i : Nat) : (tags[i]?.map fun tag =>
      { tag with types := (lastAt? us tags i).elim tag.types Upsert.types }) = tags[i]? := by
    rw [← getElem?_retyped, h.retyped]
  refine ⟨fun v hv => ?_, List.ext_getElem? fun i => ?_⟩
  · rcases List.mem_append.mp hv with hv | hv
    · rw [hplaces v hv]
      exact h.found v hv
    · rw [List.mem_singleton.mp hv, hself]
      rfl
  · rw [getElem?_retyped, lastAt?_append_singleton, hself, hlast, into_eq]
    cases hplace : u.place? tags with
    | some k =>
      by_cases hki : k = i
      · cases ht : tags[i]? <;> simp [hki, ht]
      · have hsame := hold i
        simp only [List.getElem?_modify, hki, Option.getD_some, Option.some.injEq, if_false]
        simpa using hsame
    | none =>
      rcases Nat.lt_trichotomy i tags.length with hlt | heq | hgt
      · have hne : tags.length ≠ i := by omega
        simpa [List.getElem?_append_left hlt, hne] using hold i
      · simp [heq, newTag]
      · have hout : (tags ++ [u.newTag])[i]? = none := by
          rw [List.getElem?_eq_none_iff, List.length_append, List.length_singleton]
          omega
        simp [hout]

/-- A row of upserts leaves tags settled. -/
theorem areSettled_intoAll (us : List Upsert) (tags : List Tag) :
    AreSettled us (intoAll us tags) := by
  induction us using List.reverseRecOn with
  | nil =>
    refine ⟨fun u hu => absurd hu List.not_mem_nil, List.ext_getElem? fun i => ?_⟩
    rw [getElem?_retyped]
    simp [lastAt?]
  | append_singleton us u ih =>
    have hlast : intoAll [u] (intoAll us tags) = u.into (intoAll us tags) := rfl
    rw [intoAll_append, hlast]
    exact ih.into u

/-- **A row of upserts is made once and for all.** -/
theorem intoAll_intoAll (us : List Upsert) (tags : List Tag) :
    intoAll us (intoAll us tags) = intoAll us tags :=
  (areSettled_intoAll us tags).intoAll_eq

end Upsert

end RubyDoc

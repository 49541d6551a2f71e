import RubyDoc.Proofs.Walk.Placed
import RubyDoc.Proofs.Walk.Room

/-!
# Mentions of namespaces

What a class or module is in the end, but for what it holds, is told from the statements
that mention it: those that open it, and those that open something further in, which make
a placeholder of it if it is missing. Such mentions are listed here for a source, in the
order in which it is read, and what they leave at a path one after the other is put
together from the first opening and from what the others fill in.
-/

namespace RubyDoc

open ObjectPath

/-! ### Mentions -/

/-- What a statement that opens a class or module says of it. -/
structure Opening where
  /-- The path that it is opened under. -/
  path : String
  /-- Whether it is opened as a class. -/
  isClass : Bool
  /-- The docstring of the statement. -/
  docstring : String
  /-- The superclass that is written. -/
  superclass : Option String
  /-- The path of the source. -/
  file : String
  /-- The line of the statement. -/
  line : Nat
deriving DecidableEq

namespace Opening

variable (o : Opening)

/-- The class or module as it is registered anew. -/
def anew : Entity where
  name := (split o.path).2
  home := (split o.path).1
  docstring := o.docstring
  file := some o.file
  line := some o.line
  kind := if o.isClass then .classSpace {} o.superclass else .moduleSpace {}

/-- Whether an entity is what is opened already. -/
def fits (e : Entity) : Bool := if o.isClass then e.isClass else e.isModule

/-- What opening it again makes of a class or module: what was not known is filled in. -/
def again (e : Entity) : Entity :=
  if o.isClass then reopenClass o.superclass o.docstring e
  else if e.docstring == "" then { e with docstring := o.docstring } else e

/-- What opening makes of what is known at the path. -/
def onto : Option Entity → Entity
  | some e => if o.fits e then o.again e else o.anew
  | none => o.anew

end Opening

/-- How a statement mentions namespaces. -/
inductive Mention where
  /-- Those on the way to a path. -/
  | onWay (path : String)
  /-- The one that is opened. -/
  | opens (o : Opening)
deriving DecidableEq

/-- What a mention leaves at a path. -/
def Mention.leave (path : String) (known : Option Entity) : Mention → Option Entity
  | .onWay q =>
    if path ∈ lineage q then known.or (some (.placeholder (split path).1 (split path).2))
    else known
  | .opens o => if o.path = path then some (o.onto known) else known

/-- What mentions one after the other leave at a path. -/
def settle (path : String) (ms : List Mention) (known : Option Entity) : Option Entity :=
  ms.foldl (Mention.leave path) known

theorem settle_append (path : String) (ms ms' : List Mention) (known : Option Entity) :
    settle path (ms ++ ms') known = settle path ms' (settle path ms known) :=
  List.foldl_append

/-- The opening that a mention is. -/
def Mention.opening? : Mention → Option Opening
  | .onWay _ => none
  | .opens o => some o

/-- The openings of a path among some mentions. -/
def openingsAt (path : String) (ms : List Mention) : List Opening :=
  (ms.filterMap Mention.opening?).filter fun o => o.path == path

/-- Whether something further in is opened before a path itself is. -/
def isPassed (path : String) : List Mention → Bool
  | [] => false
  | .onWay q :: ms => (lineage q).contains path || isPassed path ms
  | .opens o :: ms => o.path != path && isPassed path ms

/-- The first text that is not empty. -/
def firstFilled (texts : List String) : String := (texts.find? (· != "")).getD ""

/-- The first superclass that is written, if one is. -/
def firstWritten (first : Option String) (rest : List (Option String)) : Option String :=
  ((first :: rest).find? (·.any (· != ""))).getD first

/-- What a statement of a source says of the path that it opens. -/
def Source.opening (source : Source) (n : Node) (path : String) : Opening where
  path := path
  isClass := n.kind == "class"
  docstring := (source.docstringOf [] n).toOption.getD ""
  superclass := (superclassOf n).toOption.join
  file := source.path
  line := n.line

namespace Placed

variable (source : Source) (p : Placed)

/-- The namespaces that a statement mentions by itself. -/
def mentioned : List Mention :=
  match p.opens? with
  | some path => [.onWay (split path).1, .opens (source.opening p.node path)]
  | none => []

/-- The namespaces that a statement and the statements inside it mention. -/
def mentions : List Mention := p.statements.flatMap (mentioned source)

theorem mentions_eq :
    p.mentions source = p.mentioned source ++ p.nested.flatMap (mentions source) := by
  rw [mentions, statements_eq, List.flatMap_cons, List.flatMap_assoc]
  rfl

end Placed

/-- The namespaces that a source mentions, in the order in which it is read. -/
def Source.mentions (source : Source) : List Mention :=
  source.root.placed.flatMap (Placed.mentioned source)

/-! ### What openings leave -/

namespace Entity

variable (e : Entity)

theorem isClass_bare : e.bare.isClass = e.isClass := by
  unfold bare mapMembers isClass
  cases e.kind <;> rfl

theorem isModule_bare : e.bare.isModule = e.isModule := by
  unfold bare mapMembers isModule
  cases e.kind <;> rfl

theorem bare_reopenClass (superclass : Option String) (docstring : String) :
    (reopenClass superclass docstring e).bare = reopenClass superclass docstring e.bare := by
  have hfill : (if e.bare.docstring == "" then { e.bare with docstring } else e.bare : Entity) =
      (if e.docstring == "" then { e with docstring } else e : Entity).bare := by
    have hsame : e.bare.docstring = e.docstring := rfl
    rw [hsame]
    split <;> rfl
  rw [reopenClass, reopenClass, hfill]
  generalize (if e.docstring == "" then { e with docstring } else e : Entity) = filled
  obtain ⟨name, home, known, source, file, line, kind⟩ := filled
  cases kind with
  | classSpace m s =>
    unfold bare mapMembers EntityKind.mapMembers
    dsimp only
    split <;> rfl
  | root m => rfl
  | moduleSpace m => rfl
  | constant value => rfl
  | method facts => rfl

end Entity

namespace Opening

variable {o : Opening}

theorem shape_anew (o : Opening) : o.anew.shape = .namespace := by
  unfold anew Entity.shape
  cases o.isClass <;> rfl

theorem name_anew (o : Opening) : o.anew.kind.name ≠ "root" := by
  unfold anew
  cases o.isClass <;> simp [EntityKind.name]

theorem fits_bare (o : Opening) (e : Entity) : o.fits e.bare = o.fits e := by
  rw [fits, fits, e.isClass_bare, e.isModule_bare]

/-- Opening again does not look at what a namespace holds. -/
theorem bare_again (o : Opening) (e : Entity) : (o.again e).bare = o.again e.bare := by
  have hsame : e.bare.docstring = e.docstring := rfl
  rw [again, again, hsame]
  split
  · exact e.bare_reopenClass o.superclass o.docstring
  · split <;> rfl

/-- What does not fit is replaced. -/
theorem onto_of_any_eq_false {known : Option Entity} (h : known.any o.fits = false) :
    o.onto (known.map Entity.bare) = o.anew := by
  cases known with
  | none => rfl
  | some e =>
    rw [Option.any_some] at h
    rw [Option.map_some, onto, fits_bare, h, if_neg Bool.false_ne_true]

/-- What fits is opened again. -/
theorem onto_of_fits {e : Entity} (h : o.fits e = true) : o.onto (some e.bare) = (o.again e).bare := by
  rw [onto, fits_bare, if_pos h, bare_again]

end Opening

/-! ### Putting openings together -/

theorem firstFilled_cons_cons (known text : String) (texts : List String) :
    firstFilled ((if known == "" then text else known) :: texts) =
      firstFilled (known :: text :: texts) := by
  rw [firstFilled, firstFilled]
  by_cases h : known = ""
  · rw [if_pos (beq_iff_eq.mpr h), List.find?_cons_of_neg (a := known) (by simp [h])]
  · rw [if_neg (by simp [h]), List.find?_cons_of_pos (by simp [h]),
      List.find?_cons_of_pos (by simp [h])]

theorem firstFilled_singleton (text : String) : firstFilled [text] = text := by
  rw [firstFilled, List.find?_cons]
  by_cases h : text = ""
  · rw [h]
    rfl
  · rw [bne_iff_ne.mpr h]
    rfl

theorem firstWritten_nil (known : Option String) : firstWritten known [] = known := by
  rw [firstWritten, List.find?_cons]
  split <;> rfl

/-- A superclass is filled in where none is known. -/
theorem firstWritten_cons (known superclass : Option String) (rest : List (Option String)) :
    firstWritten (if superclass.any (· != "") && known.all (· == "") then superclass else known)
      rest = firstWritten known (superclass :: rest) := by
  have hknown : known.all (· == "") = !known.any (· != "") := by
    cases known with
    | none => rfl
    | some name => rw [Option.all_some, Option.any_some, bne, Bool.not_not]
  rw [firstWritten, firstWritten, hknown]
  cases hk : known.any (· != "") <;> cases hs : superclass.any (· != "") <;> simp [hk, hs]

namespace Opening

/-- What openings one after the other make of what is known. -/
def ontoAll (known : Option Entity) (os : List Opening) : Option Entity :=
  os.foldl (fun known o => some (o.onto known)) known

/-- Opening a class again fills in what is not known. -/
theorem onto_classSpace {o : Opening} (ho : o.isClass = true) {e : Entity} {m : Members}
    {known : Option String} (he : e.kind = .classSpace m known) :
    o.onto (some e) =
      { e with docstring := if e.docstring == "" then o.docstring else e.docstring
               kind := .classSpace m (if o.superclass.any (· != "") && known.all (· == "")
                 then o.superclass else known) } := by
  have hfits : o.fits e = true := by rw [fits, if_pos ho, Entity.isClass, he]
  obtain ⟨name, home, docstring, source, file, line, kind⟩ := e
  dsimp only at he
  subst he
  rw [onto, if_pos hfits, again, if_pos ho, reopenClass]
  cases hd : docstring == "" with
  | true =>
    rw [if_pos rfl, if_pos rfl]
    dsimp only
    split <;> rfl
  | false =>
    rw [if_neg Bool.false_ne_true, if_neg Bool.false_ne_true]
    dsimp only
    split <;> rfl

/-- A class takes the place of a placeholder. -/
theorem onto_placeholder {o : Opening} (ho : o.isClass = true) (home name : String) :
    o.onto (some (.placeholder home name)) = o.anew := by
  have hfits : o.fits (.placeholder home name) = false := by
    rw [fits, if_pos ho]
    rfl
  rw [onto, hfits, if_neg Bool.false_ne_true]

/-- Opening a module again fills in its docstring. -/
theorem onto_moduleSpace {o : Opening} (ho : o.isClass = false) {e : Entity} {m : Members}
    (he : e.kind = .moduleSpace m) :
    o.onto (some e) =
      { e with docstring := if e.docstring == "" then o.docstring else e.docstring } := by
  have hfits : o.fits e = true := by
    rw [fits, if_neg (Bool.eq_false_iff.mp ho), Entity.isModule, he]
  rw [onto, if_pos hfits, again, if_neg (Bool.eq_false_iff.mp ho)]
  split <;> rfl

/-- Openings of a class leave it, with what was not known filled in by the first that
says it. -/
theorem ontoAll_classSpace {os : List Opening} (hos : ∀ o ∈ os, o.isClass = true) {e : Entity}
    {m : Members} {known : Option String} (he : e.kind = .classSpace m known) :
    ontoAll (some e) os = some
      { e with docstring := firstFilled (e.docstring :: os.map docstring)
               kind := .classSpace m (firstWritten known (os.map superclass)) } := by
  induction os generalizing e known with
  | nil =>
    rw [List.map_nil, List.map_nil, firstFilled_singleton, firstWritten_nil, ← he]
    rfl
  | cons o os ih =>
    obtain ⟨ho, hos⟩ := List.forall_mem_cons.mp hos
    have hfirst := onto_classSpace ho he
    rw [ontoAll, List.foldl_cons, hfirst, ← ontoAll, ih hos rfl]
    dsimp only
    rw [List.map_cons, List.map_cons, firstFilled_cons_cons, firstWritten_cons]

/-- Openings of a module leave it, with the first docstring that is not empty. -/
theorem ontoAll_moduleSpace {os : List Opening} (hos : ∀ o ∈ os, o.isClass = false) {e : Entity}
    {m : Members} (he : e.kind = .moduleSpace m) :
    ontoAll (some e) os = some
      { e with docstring := firstFilled (e.docstring :: os.map docstring) } := by
  induction os generalizing e with
  | nil =>
    rw [List.map_nil, firstFilled_singleton]
    rfl
  | cons o os ih =>
    obtain ⟨ho, hos⟩ := List.forall_mem_cons.mp hos
    have hfirst := onto_moduleSpace ho he
    have hkind : (o.onto (some e)).kind = .moduleSpace m := by
      rw [hfirst]
      exact he
    rw [ontoAll, List.foldl_cons, ← ontoAll, ih hos hkind, hfirst]
    dsimp only
    rw [List.map_cons, firstFilled_cons_cons]

end Opening

section OpeningsAt

variable {path : String} {ms : List Mention}

theorem mem_openingsAt {o : Opening} : o ∈ openingsAt path ms ↔ .opens o ∈ ms ∧ o.path = path := by
  have hopening : ∀ m : Mention, m.opening? = some o ↔ m = .opens o := by
    intro m
    cases m <;> simp [Mention.opening?]
  simp [openingsAt, hopening]

theorem openingsAt_onWay (q : String) : openingsAt path (.onWay q :: ms) = openingsAt path ms := rfl

theorem openingsAt_opens (o : Opening) : openingsAt path (.opens o :: ms) =
    if o.path = path then o :: openingsAt path ms else openingsAt path ms := by
  have hopening : (Mention.opens o).opening? = some o := rfl
  rw [openingsAt, List.filterMap_cons_some hopening, List.filter_cons]
  simp only [beq_iff_eq, openingsAt]

end OpeningsAt

/-- What is at a path is changed by the openings of the path only. -/
theorem settle_some (path : String) (ms : List Mention) (e : Entity) :
    settle path ms (some e) = Opening.ontoAll (some e) (openingsAt path ms) := by
  induction ms generalizing e with
  | nil => rfl
  | cons m ms ih =>
    rw [settle, List.foldl_cons]
    cases m with
    | onWay q =>
      have hleave : Mention.leave path (some e) (.onWay q) = some e := by
        rw [Mention.leave, Option.some_or, ite_self]
      rw [hleave, openingsAt_onWay]
      exact ih e
    | opens o =>
      rw [Mention.leave, openingsAt_opens]
      split
      · rw [Opening.ontoAll, List.foldl_cons]
        exact ih _
      · exact ih e

/-- Where nothing is known the openings of a path come upon a placeholder, if something
further in was opened before. -/
theorem settle_none (path : String) (ms : List Mention) :
    settle path ms none = Opening.ontoAll
      (if isPassed path ms then some (.placeholder (split path).1 (split path).2) else none)
      (openingsAt path ms) := by
  induction ms with
  | nil => rfl
  | cons m ms ih =>
    rw [settle, List.foldl_cons]
    cases m with
    | onWay q =>
      rw [Mention.leave, openingsAt_onWay, isPassed]
      by_cases hway : path ∈ lineage q
      · rw [if_pos hway, Option.none_or, List.contains_iff_mem.mpr hway, Bool.true_or, if_pos rfl]
        exact settle_some path ms _
      · rw [if_neg hway, Bool.eq_false_iff.mpr (mt List.contains_iff_mem.mp hway), Bool.false_or]
        exact ih
    | opens o =>
      rw [Mention.leave, openingsAt_opens, isPassed]
      by_cases hp : o.path = path
      · rw [if_pos hp, if_pos hp, bne_eq_false_iff_eq.mpr hp, Bool.false_and,
          if_neg Bool.false_ne_true]
        exact settle_some path ms _
      · rw [if_neg hp, if_neg hp, bne_iff_ne.mpr hp, Bool.true_and]
        exact ih

/-- Openings of a path that are all of one kind leave the first of them, with the first
docstring that is not empty and the first superclass that is written. A module that was
made a placeholder before stays without a file and a line. -/
theorem settle_reopened {path : String} {ms : List Mention} {first : Opening} {rest : List Opening}
    (hopens : openingsAt path ms = first :: rest)
    (hkind : ∀ o ∈ rest, o.isClass = first.isClass) :
    settle path ms none = some
      { name := (split path).2
        home := (split path).1
        docstring := firstFilled ((first :: rest).map Opening.docstring)
        file := if !first.isClass && isPassed path ms then none else some first.file
        line := if !first.isClass && isPassed path ms then none else some first.line
        kind := if first.isClass then
            .classSpace {} (firstWritten first.superclass (rest.map Opening.superclass))
          else .moduleSpace {} } := by
  have hpath : first.path = path := by
    have hmem : first ∈ openingsAt path ms := hopens ▸ List.mem_cons_self
    exact (mem_openingsAt.mp hmem).2
  rw [settle_none, hopens, ← hpath]
  cases hclass : first.isClass with
  | true =>
    rw [hclass] at hkind
    have hanew : first.anew.kind = .classSpace {} first.superclass := by
      rw [Opening.anew, hclass, if_pos rfl]
    have honto : ∀ passed : Bool, first.onto (if passed then
        some (.placeholder (split first.path).1 (split first.path).2) else none) = first.anew := by
      intro passed
      cases passed with
      | true => exact Opening.onto_placeholder hclass _ _
      | false => rfl
    rw [Opening.ontoAll, List.foldl_cons, honto, ← Opening.ontoAll,
      Opening.ontoAll_classSpace hkind hanew]
    rfl
  | false =>
    rw [hclass] at hkind
    cases isPassed first.path ms with
    | true =>
      rw [if_pos rfl, Opening.ontoAll_moduleSpace (List.forall_mem_cons.mpr ⟨hclass, hkind⟩) rfl]
      rfl
    | false =>
      have hanew : first.anew.kind = .moduleSpace {} := by
        rw [Opening.anew, hclass, if_neg Bool.false_ne_true]
      rw [if_neg Bool.false_ne_true, Opening.ontoAll, List.foldl_cons, ← Opening.ontoAll,
        Opening.onto, Opening.ontoAll_moduleSpace hkind hanew, Opening.anew, hclass]
      rfl

end RubyDoc

import RubyDoc.Proofs.Walk.Edit

/-!
# Visibility by the text

The visibility that a statement is read with follows from the text around it alone: it is
that of the last keyword by itself before it in the same body, or the one that the body begins
with. Bodies begin with that of everyone, but for the arguments of a visibility call, which
begin with that of the call. A walk reads every statement in such a context, whatever the
statements inside it, before it or in other sources do.
-/

namespace RubyDoc

open RubyDoc.Action

namespace Statement

/-- The visibility that a keyword by itself gives. -/
def keyword? : Statement → Option Visibility
  | keyword _ visibility => some visibility
  | _ => none

/-- The visibility in force behind some statements of a body: that of the last keyword by
itself among them, or else the one that the body begins with. -/
def inForce (initial : Visibility) (earlier : List Statement) : Visibility :=
  (earlier.filterMap keyword?).getLast?.getD initial

/-- A statement at the front of a body is one of those before the others. -/
theorem inForce_cons (initial : Visibility) (s : Statement) (earlier : List Statement) :
    inForce initial (s :: earlier) = inForce (s.visibilityAfter initial) earlier := by
  cases s with
  | keyword site visibility =>
    have hfirst : keyword? (keyword site visibility) = some visibility := rfl
    rw [inForce, List.filterMap_cons_some hfirst, List.getLast?_cons, Option.getD_some]
    rfl
  | _ => rfl

/-- Whether a statement has statements inside it. -/
def hasInner : Statement → Bool
  | restriction _ _ _ | classBody _ _ | moduleBody _ _ | singletonBody _ _ => true
  | _ => false

end Statement

/-- A context that a walk over a body reads a statement in, which may be inside others. -/
inductive Reads : Context → List Statement → Context → Statement → Prop
  /-- A statement right in the body has the visibility in force before it. -/
  | here (c : Context) (earlier : List Statement) (s : Statement) (later : List Statement) :
    Reads c (earlier ++ s :: later)
      { c with visibility := Statement.inForce c.visibility earlier } s
  /-- The body of a class is another, in a namespace of its own. -/
  | inClass {c c' : Context} {s : Statement} {body inner : List Statement} {site : Site}
    (h : .classBody site inner ∈ body) (handle : Handle)
    (hinner : Reads (c.inside handle) inner c' s) : Reads c body c' s
  /-- So is the body of a module. -/
  | inModule {c c' : Context} {s : Statement} {body inner : List Statement} {site : Site}
    (h : .moduleBody site inner ∈ body) (handle : Handle)
    (hinner : Reads (c.inside handle) inner c' s) : Reads c body c' s
  /-- The body of the class itself is in the same namespace. -/
  | inSingleton {c c' : Context} {s : Statement} {body inner : List Statement} {site : Site}
    (h : .singletonBody site inner ∈ body)
    (hinner : Reads (c.inside c.home .onClass) inner c' s) : Reads c body c' s
  /-- The arguments of a visibility call begin with its visibility. -/
  | inArguments {c c' : Context} {s : Statement} {body arguments : List Statement} {site : Site}
    {visibility : Visibility} (h : .restriction site visibility arguments ∈ body)
    (hinner : Reads { c with visibility } arguments c' s) : Reads c body c' s

/-- Bodies that are read other than at their front do not depend on the visibility there. -/
theorem Reads.of_mem {c c' : Context} {s : Statement} {body : List Statement}
    (h : Reads c body c' s) {whole : List Statement} (hbody : ∀ x ∈ body, x ∈ whole)
    (before : Visibility)
    (hhere : ∀ earlier later, body = earlier ++ s :: later →
      c' = { c with visibility := Statement.inForce c.visibility earlier } →
      Reads { c with visibility := before } whole c' s) :
    Reads { c with visibility := before } whole c' s := by
  cases h with
  | here _ earlier _ later => exact hhere earlier later rfl rfl
  | inClass h handle hinner => exact .inClass (hbody _ h) handle hinner
  | inModule h handle hinner => exact .inModule (hbody _ h) handle hinner
  | inSingleton h hinner => exact .inSingleton (hbody _ h) hinner
  | inArguments h hinner => exact .inArguments (hbody _ h) hinner

/-- What is read in a body is read there with other statements behind it. -/
theorem Reads.first {c c' : Context} {s first : Statement} (rest : List Statement)
    (h : Reads c [first] c' s) : Reads c (first :: rest) c' s := by
  refine h.of_mem (fun x hx => ?_) c.visibility fun earlier later hbody hc' => ?_
  · rw [List.mem_singleton.mp hx]
    exact List.mem_cons_self
  · obtain ⟨rfl, rfl, rfl⟩ : earlier = [] ∧ s = first ∧ later = [] := by
      cases earlier with
      | nil => simpa using hbody.symm
      | cons x earlier => simp at hbody
    rw [hc']
    exact .here c [] s rest

/-- What is read behind the first statement of a body is read in the body. -/
theorem Reads.behind {c c' : Context} {s first : Statement} {rest : List Statement}
    (h : Reads { c with visibility := first.visibilityAfter c.visibility } rest c' s) :
    Reads c (first :: rest) c' s := by
  refine h.of_mem (fun x hx => List.mem_cons_of_mem _ hx) c.visibility
    fun earlier later hbody hc' => ?_
  rw [hc', hbody, ← Statement.inForce_cons]
  exact .here c (first :: earlier) s later

/-! ### Walks in the contexts of the text -/

/-- One step of a walk over a body: what one rule does, read in a context that the body has a
statement read in. -/
inductive WalkStep (c : Context) (body : List Statement) : Records → Records → Prop
  /-- A statement with nothing inside it. -/
  | leaf {c' : Context} {s : Statement} (h : Reads c body c' s) (hs : s.hasInner = false)
    (r : Records) : WalkStep c body r (runOn (walk c' s) r).2
  /-- A name among the arguments of a visibility call. -/
  | name {c' : Context} {site : Site} {visibility : Visibility} {arguments : List Statement}
    (h : Reads c body c' (.restriction site visibility arguments)) (name : String) (r : Records) :
    WalkStep c body r (runOn (setVisibility c' name visibility) r).2
  /-- The opening of a class. -/
  | openClass {c' : Context} {s : Statement} (h : Reads c body c' s) (path : String) (r : Records) :
    WalkStep c body r (runOn (openClass c' s.node path) r).2
  /-- The opening of a module. -/
  | openModule {c' : Context} {s : Statement} (h : Reads c body c' s) (path : String)
    (r : Records) : WalkStep c body r (runOn (openModule c' s.node path) r).2
  /-- The closing of a class. -/
  | closeClass {c' : Context} {s : Statement} (h : Reads c body c' s) (path classPath : String)
    (r : Records) : WalkStep c body r (runOn (c'.closeClass s.node path classPath) r).2
  /-- A log entry. -/
  | logged (r : Records) (log : Log) : WalkStep c body r { r with log }

theorem WalkStep.imp {c₁ c₂ : Context} {body₁ body₂ : List Statement}
    (h : ∀ c s, Reads c₁ body₁ c s → Reads c₂ body₂ c s) {r r' : Records}
    (hstep : WalkStep c₁ body₁ r r') : WalkStep c₂ body₂ r r' := by
  cases hstep with
  | leaf hreads hs => exact .leaf (h _ _ hreads) hs r
  | name hreads name => exact .name (h _ _ hreads) name r
  | openClass hreads path => exact .openClass (h _ _ hreads) path r
  | openModule hreads path => exact .openModule (h _ _ hreads) path r
  | closeClass hreads path classPath => exact .closeClass (h _ _ hreads) path classPath r
  | logged _ log => exact .logged _ log

/-- An action that goes by steps of a walk over a body. -/
abbrev Action.Follows {α : Type} (c : Context) (body : List Statement) (a : Action α) : Prop :=
  Action.GoesBy id (WalkStep c body) a

/-- A statement by itself is read in the context of its body. -/
theorem Reads.self (c : Context) (s : Statement) : Reads c [s] c s := .here c [] s []

section Walk

variable {c : Context}

theorem Action.Follows.guarding {body : List Statement} {a : Action Unit}
    (ha : Action.Follows c body a) (n : Node) (rule : Rule) :
    Action.Follows c body (c.guarding n rule a) :=
  ha.guarded (fun r log => .single (.logged r log)) _ _

theorem follows_ofExcept {α : Type} {body : List Statement} (result : Except Fault α) :
    Action.Follows c body (Action.ofExcept result) :=
  goesBy_of_eq fun r => by rw [runOn_ofExcept]

theorem follows_leaf {s : Statement} (hs : s.hasInner = false) :
    Action.Follows c [s] (walk c s) := fun r => .single (.leaf (.self c s) hs r)

end Walk

mutual

/-- A statement is gone through by steps in the contexts that the text gives. -/
theorem follows_walk (c : Context) : (s : Statement) → Action.Follows c [s] (walk c s)
  | .plain _ | .illegible _ | .keyword _ _ | .signature _ _ | .method _ | .accessors _ _ _
  | .constant _ | .enumValues _ _ | .field _ _ => follows_leaf rfl
  | .restriction s visibility arguments => by
    refine Action.Follows.guarding ?_ s.node .visibility
    have hself := Reads.self c (.restriction s visibility arguments)
    refine (follows_walkArguments c visibility { c with visibility } arguments).mono ?_
    rintro r r' (hstep | ⟨name, rfl⟩)
    · exact hstep.imp fun c' s' h => .inArguments List.mem_cons_self h
    · exact .name hself name r
  | .classBody s body => by
    have hself := Reads.self c (.classBody s body)
    refine Action.Follows.guarding ?_ s.node .classBody
    refine (follows_ofExcept _).bind fun path _ => ?_
    refine GoesBy.bind (goesBy_single fun r => .openClass hself path r) fun classPath _ => ?_
    refine GoesBy.bind (goesBy_of_eq fun _ => rfl) fun handle _ => ?_
    refine GoesBy.bind ?_ fun _ _ => goesBy_single fun r => .closeClass hself path classPath r
    exact (follows_walkAll (c.inside handle) body).mono fun r r' hstep =>
      hstep.imp fun c' s' h => .inClass List.mem_cons_self handle h
  | .moduleBody s body => by
    have hself := Reads.self c (.moduleBody s body)
    refine Action.Follows.guarding ?_ s.node .moduleBody
    refine (follows_ofExcept _).bind fun path _ => ?_
    refine GoesBy.bind (goesBy_single fun r => .openModule hself path r) fun modulePath _ => ?_
    refine GoesBy.bind (goesBy_of_eq fun _ => rfl) fun handle _ => ?_
    exact (follows_walkAll (c.inside handle) body).mono fun r r' hstep =>
      hstep.imp fun c' s' h => .inModule List.mem_cons_self handle h
  | .singletonBody s body => by
    refine Action.Follows.guarding ?_ s.node .singletonBody
    exact (follows_walkAll (c.inside c.home .onClass) body).mono fun r r' hstep =>
      hstep.imp fun c' s' h => .inSingleton List.mem_cons_self h

/-- A body is gone through by steps in the contexts that the text gives. -/
theorem follows_walkAll (c : Context) : (body : List Statement) →
    Action.Follows c body (walkAll c body)
  | [] => goesBy_of_eq fun _ => rfl
  | statement :: rest => by
    refine GoesBy.bind ((follows_walk c statement).mono fun r r' hstep => ?_) fun _ _ => ?_
    · exact hstep.imp fun c' s' h => h.first rest
    · exact (follows_walkAll _ rest).mono fun r r' hstep => hstep.imp fun c' s' h => h.behind

/-- The arguments of a visibility call are gone through by steps of a body that they make up
and by those of their names. -/
theorem follows_walkArguments (c : Context) (visibility : Visibility) (inner : Context) :
    (arguments : List Statement) → Action.GoesBy id
      (fun r r' => WalkStep inner arguments r r' ∨
        ∃ name, r' = (runOn (setVisibility c name visibility) r).2)
      (walkArguments c visibility inner arguments)
  | [] => goesBy_of_eq fun _ => rfl
  | argument :: rest => by
    have hrest : GoesBy id (fun r r' => WalkStep inner (argument :: rest) r r' ∨
        ∃ name, r' = (runOn (setVisibility c name visibility) r).2)
        (walkArguments c visibility
          { inner with visibility := argument.visibilityAfter inner.visibility } rest) :=
      (follows_walkArguments c visibility _ rest).mono fun r r' hstep =>
        hstep.imp_left fun hstep => hstep.imp fun c' s' h => h.behind
    rw [walkArguments]
    dsimp only
    split
    · refine GoesBy.bind (goesBy_of_eq fun r => by rw [runOn_ofExcept]) fun name _ => ?_
      exact GoesBy.bind (goesBy_single fun r => .inr ⟨name, rfl⟩) fun _ _ => hrest
    · refine GoesBy.bind ((follows_walk inner argument).mono fun r r' hstep => ?_) fun _ _ => hrest
      exact .inl (hstep.imp fun c' s' h => h.first rest)

end

/-- A body is gone through from any of its statements on with the visibility in force there. -/
theorem walkAll_append (c : Context) (earlier later : List Statement) :
    walkAll c (earlier ++ later) =
      walkAll c earlier >>= fun _ =>
        walkAll { c with visibility := Statement.inForce c.visibility earlier } later := by
  induction earlier generalizing c with
  | nil => rfl
  | cons s earlier ih =>
    rw [List.cons_append, walkAll, walkAll, bind_assoc, Statement.inForce_cons]
    exact bind_congr fun _ => ih { c with visibility := s.visibilityAfter c.visibility }

/-! ### What statements give a visibility to -/

/-- Whether a statement is a method definition, an accessor macro or a field. -/
def Statement.isDefinition : Statement → Bool
  | .method _ | .accessors _ _ _ | .field _ _ => true
  | _ => false

/-- The visibility that a statement with nothing inside it gives: that of its context if it is
a definition, or else none. -/
def Statement.given? (c : Context) (s : Statement) : Option Visibility :=
  if s.isDefinition then some c.visibility else none

/-- The attributes that a statement with nothing inside it may put into the table of its
scope. -/
def Statement.attributes : Statement → List String
  | .accessors s _ _ => Node.accessed s.node.positionalArguments
  | .field s _ => s.node.usableName?.toList
  | _ => []

/-- All that a statement with nothing inside it registers has the visibility that it gives, and
it gives methods that are there no other. Its attributes only are put into a table. -/
theorem edits_leaf {T : Handle → Scope → String → Prop} (c : Context) {s : Statement}
    (hs : s.hasInner = false) (hT : ∀ name ∈ s.attributes, T c.home c.scope name) :
    Action.Edits (· = s.given? c) T (walk c s) := by
  have hguarding : ∀ {V : Option Visibility → Prop} {a : Action Unit} (n : Node) (rule : Rule),
      Action.Edits V T a → Action.Edits V T (c.guarding n rule a) :=
    fun _ _ ha => ha.guarded (fun _ _ => .refl) _ _
  cases s with
  | restriction | classBody | moduleBody | singletonBody => cases hs
  | plain => exact (isQuiet_pure ()).goesBy
  | illegible => exact (isQuiet_throw _).goesBy
  | keyword => exact (isQuiet_pure ()).goesBy
  | signature s block => exact hguarding _ _ (edits_processSignature c s block)
  | method s => exact hguarding _ _ (edits_processMethod c s.node rfl)
  | accessors s read write =>
    exact hguarding _ _ (edits_processAccessors c s.node read write rfl hT)
  | constant s => exact hguarding _ _ (edits_processConstant c s.node rfl)
  | enumValues s block => exact hguarding _ _ (edits_processEnum c (V := (· = none)) rfl block)
  | field s isProp =>
    refine hguarding _ _ (edits_processField c s.node isProp rfl fun name hname => hT name ?_)
    exact Option.mem_toList.mpr hname

/-- Changing what stands at a path where nothing stands changes nothing. -/
theorem Store.modify_of_find?_eq_none {s : Store} {path : String} (h : s.find? path = none)
    (f : Entity → Entity) : s.modify path f = s := by
  have hentries : (s.entries.map fun entry =>
      if entry.1 == path then (entry.1, f entry.2) else entry) = s.entries := by
    refine (List.map_congr_left fun entry hentry => ?_).trans (List.map_id _)
    rw [if_neg fun hp => ?_, id]
    have hne := List.lookup_eq_none_iff.mp h entry hentry
    rw [beq_iff_eq.mp hp, bne_self_eq_false] at hne
    cases hne
  rw [modify, hentries]

/-- A name of a visibility call changes the method that stands at its path, if there is one,
and nothing else but the log. -/
theorem exists_runOn_setVisibility (c : Context) (name : String) (visibility : Visibility)
    (r : Records) : ∃ log, (runOn (setVisibility c name visibility) r).2 =
      { r with
        store := r.store.editMethod (Entity.newMethod c.home.path name c.scope).path
          (Entity.mapFacts fun f => { f with visibility })
        log } := by
  unfold setVisibility
  dsimp only
  rw [runOn_bind_ok (runOn_inStore _ r)]
  cases hfind : r.store.contains (Entity.newMethod c.home.path name c.scope).path with
  | true => exact ⟨r.log, rfl⟩
  | false =>
    rw [Store.contains, Option.isSome_eq_false_iff, Option.isNone_iff_eq_none] at hfind
    rw [if_neg Bool.false_ne_true, runOn_note, Store.editMethod,
      Store.modify_of_find?_eq_none hfind]
    exact ⟨_, rfl⟩

/-- A method is one of a name in a namespace and scope. -/
def Entity.IsMethodOf (e : Entity) (home name : String) (scope : Scope) : Prop :=
  e.home = home ∧ e.name = name ∧ ∃ facts, e.kind = .method facts ∧ facts.scope = scope

/-- What stands at the path of a name is the method of that name, where the paths of the
namespaces are unmarked. -/
theorem Entity.isMethodOf_of_path {e : Entity} (hmethod : e.isMethod = true) {home name : String}
    {scope : Scope} (hpath : e.path = (newMethod home name scope).path)
    (hunmarked : ObjectPath.IsUnmarked e.home) (hhome : ObjectPath.IsUnmarked home) :
    e.IsMethodOf home name scope := by
  obtain ⟨ename, ehome, docstring, source, file, line, kind⟩ := e
  cases kind with
  | method facts =>
    have hsamePath : (newMethod ehome ename facts.scope).path =
        (newMethod home name scope).path := hpath
    obtain ⟨hsame, hname, hscope⟩ := eq_of_path_newMethod_eq hunmarked hhome hsamePath
    exact ⟨hsame, hname, facts, rfl, hscope⟩
  | root m => cases hmethod
  | moduleSpace m => cases hmethod
  | classSpace m superclass => cases hmethod
  | constant value => cases hmethod

end RubyDoc

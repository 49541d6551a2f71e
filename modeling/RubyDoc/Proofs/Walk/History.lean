import RubyDoc.Proofs.Walk.Handled
import RubyDoc.Proofs.Walk.Inside

/-!
# Histories

A history names the steps of a walk one after the other, each with what it reads. What can be
told of the records that a history leads to is told of all records that walks come by, and of
what the steps on the way there were. Documenting any statements of any tree goes by a history
that reads sites of this tree only, however deep the statements are nested, and whether or not a
fault ends it half-way.
-/

namespace RubyDoc

open RubyDoc.Action

/-! ### Steps by name -/

/-- One step of a walk, by name. -/
inductive Deed where
  /-- A method definition. -/
  | method (c : Context) (n : Node)
  /-- An accessor macro. -/
  | accessors (c : Context) (n : Node) (read write : Bool)
  /-- An assignment to a constant. -/
  | constant (c : Context) (n : Node)
  /-- An enumeration. -/
  | enumValues (c : Context) (block : Site)
  /-- A field declaration. -/
  | field (c : Context) (n : Node) (isProp : Bool)
  /-- A signature. -/
  | signature (c : Context) (site block : Site)
  /-- One name of a visibility call. -/
  | visibility (c : Context) (name : String) (given : Visibility)
  /-- The opening of a class. -/
  | openClass (c : Context) (n : Node) (path : String)
  /-- The opening of a module. -/
  | openModule (c : Context) (n : Node) (path : String)
  /-- The closing of a class. -/
  | closeClass (c : Context) (n : Node) (path classPath : String)
  /-- A log entry. -/
  | logged (log : Log)
  /-- The start of a source. -/
  | source

/-- What a step does to the records. -/
def Deed.run : Deed → Records → Records
  | .method c n, r => (runOn (processMethod c n) r).2
  | .accessors c n read write, r => (runOn (processAccessors c n read write) r).2
  | .constant c n, r => (runOn (processConstant c n) r).2
  | .enumValues c block, r => (runOn (processEnum c block) r).2
  | .field c n isProp, r => (runOn (processField c n isProp) r).2
  | .signature c site block, r => (runOn (processSignature c site block) r).2
  | .visibility c name given, r => (runOn (setVisibility c name given) r).2
  | .openClass c n path, r => (runOn (RubyDoc.openClass c n path) r).2
  | .openModule c n path, r => (runOn (RubyDoc.openModule c n path) r).2
  | .closeClass c n path classPath, r => (runOn (c.closeClass n path classPath) r).2
  | .logged log, r => { r with log }
  | .source, r => { r with overridden := [] }

/-- The steps of walks are those that have a name. -/
theorem handled_iff {r r' : Records} : Handled r r' ↔ ∃ d : Deed, d.run r = r' := by
  constructor
  · intro h
    cases h with
    | method c n => exact ⟨.method c n, rfl⟩
    | accessors c n read write => exact ⟨.accessors c n read write, rfl⟩
    | constant c n => exact ⟨.constant c n, rfl⟩
    | enumValues c block => exact ⟨.enumValues c block, rfl⟩
    | field c n isProp => exact ⟨.field c n isProp, rfl⟩
    | signature c site block => exact ⟨.signature c site block, rfl⟩
    | visibility c name given => exact ⟨.visibility c name given, rfl⟩
    | openClass c n path => exact ⟨.openClass c n path, rfl⟩
    | openModule c n path => exact ⟨.openModule c n path, rfl⟩
    | closeClass c n path classPath => exact ⟨.closeClass c n path classPath, rfl⟩
    | logged _ log => exact ⟨.logged log, rfl⟩
    | source => exact ⟨.source, rfl⟩
  · rintro ⟨d, rfl⟩
    cases d with
    | method c n => exact .method c n r
    | accessors c n read write => exact .accessors c n read write r
    | constant c n => exact .constant c n r
    | enumValues c block => exact .enumValues c block r
    | field c n isProp => exact .field c n isProp r
    | signature c site block => exact .signature c site block r
    | visibility c name given => exact .visibility c name given r
    | openClass c n path => exact .openClass c n path r
    | openModule c n path => exact .openModule c n path r
    | closeClass c n path classPath => exact .closeClass c n path classPath r
    | logged log => exact .logged r log
    | source => exact .source r

/-- The records that a history leads to. -/
def Records.after (r : Records) (history : List Deed) : Records :=
  history.foldl (fun r d => d.run r) r

theorem Records.after_append (r : Records) (earlier later : List Deed) :
    r.after (earlier ++ later) = (r.after earlier).after later := List.foldl_append

theorem Records.after_concat (r : Records) (history : List Deed) (d : Deed) :
    r.after (history ++ [d]) = d.run (r.after history) := r.after_append history [d]

/-- Whatever steps lead to, a history leads to. -/
theorem reflTransGen_handled_iff {r r' : Records} :
    Relation.ReflTransGen Handled r r' ↔ ∃ history, r.after history = r' := by
  constructor
  · intro h
    induction h with
    | refl => exact ⟨[], rfl⟩
    | tail _ hstep ih =>
      obtain ⟨history, rfl⟩ := ih
      obtain ⟨d, rfl⟩ := handled_iff.mp hstep
      exact ⟨history ++ [d], r.after_concat history d⟩
  · rintro ⟨history, rfl⟩
    induction history generalizing r with
    | nil => exact .refl
    | cons d history ih => exact .head (handled_iff.mpr ⟨d, rfl⟩) ih

/-! ### What a history reads -/

namespace Context

/-- A step in a context reads a site: it is one of the tree of the source, and the source is one
of those that are given. -/
def ReadsSite (c : Context) (given : Source → Prop) (s : Site) : Prop :=
  given c.source ∧ c.source.root.HasSite s

/-- A step in a context reads a node that stands at such a site. -/
def Reads (c : Context) (given : Source → Prop) (n : Node) : Prop :=
  ∃ s : Site, s.node = n ∧ c.ReadsSite given s

theorem ReadsSite.reads {c : Context} {given : Source → Prop} {s : Site}
    (h : c.ReadsSite given s) : c.Reads given s.node := ⟨s, rfl, h⟩

end Context

/-- A step reads only sources that are given, and in them only what is in their trees. -/
def Deed.IsOf (given : Source → Prop) : Deed → Prop
  | .method c n | .accessors c n _ _ | .constant c n | .field c n _ | .openClass c n _
  | .openModule c n _ | .closeClass c n _ _ => c.Reads given n
  | .enumValues c block => c.ReadsSite given block
  | .signature c site block => c.ReadsSite given site ∧ c.ReadsSite given block
  | .visibility c _ _ => given c.source
  | .logged _ | .source => True

/-- Records come to others by a history that reads only sources that are given. -/
def Records.ReadsTo (given : Source → Prop) (r r' : Records) : Prop :=
  ∃ history, r.after history = r' ∧ ∀ d ∈ history, Deed.IsOf given d

namespace Records.ReadsTo

variable {given : Source → Prop} {r r' r'' : Records}

theorem refl (r : Records) : r.ReadsTo given r := ⟨[], rfl, List.forall_mem_nil _⟩

theorem step (r : Records) {d : Deed} (hd : d.IsOf given) : r.ReadsTo given (d.run r) :=
  ⟨[d], rfl, List.forall_mem_singleton.mpr hd⟩

theorem trans (h : r.ReadsTo given r') (h' : r'.ReadsTo given r'') : r.ReadsTo given r'' := by
  obtain ⟨history, rfl, hgiven⟩ := h
  obtain ⟨later, rfl, hgiven'⟩ := h'
  exact ⟨history ++ later, r.after_append history later,
    List.forall_mem_append.mpr ⟨hgiven, hgiven'⟩⟩

end Records.ReadsTo

namespace Action

variable {α β : Type} {given : Source → Prop}

/-- An action goes by a history that reads only sources that are given. -/
def ReadsOnly (given : Source → Prop) (a : Action α) : Prop :=
  ∀ r : Records, r.ReadsTo given (runOn a r).2

theorem readsOnly_pure (a : α) : ReadsOnly given (pure a) := fun r => .refl r

theorem readsOnly_throw (fault : Fault) : ReadsOnly given (throw fault : Action α) :=
  fun r => .refl r

theorem readsOnly_ofExcept (result : Except Fault α) : ReadsOnly given (ofExcept result) := by
  intro r
  rw [runOn_ofExcept]
  exact .refl r

theorem readsOnly_inStore (f : Store → α) : ReadsOnly given (inStore f) := fun r => .refl r

/-- What is one step goes by it. -/
theorem readsOnly_of_run {a : Action α} (d : Deed) (hd : d.IsOf given)
    (h : ∀ r, d.run r = (runOn a r).2) : ReadsOnly given a := by
  intro r
  rw [← h r]
  exact .step r hd

theorem ReadsOnly.bind {a : Action α} {f : α → Action β} (ha : ReadsOnly given a)
    (hf : ∀ x, ReadsOnly given (f x)) : ReadsOnly given (a >>= f) := by
  intro r
  have hfirst := ha r
  rw [runOn_bind]
  cases h : runOn a r with
  | mk result r' =>
    rw [h] at hfirst
    cases result with
    | error fault => exact hfirst
    | ok x => exact hfirst.trans (hf x r')

/-- A fault that is caught is one log entry more. -/
theorem ReadsOnly.guarding {a : Action Unit} (ha : ReadsOnly given a) (c : Context) (n : Node)
    (rule : Rule) : ReadsOnly given (c.guarding n rule a) := by
  intro r
  have hfirst := ha r
  rw [Context.guarding, runOn_guarded]
  cases h : runOn a r with
  | mk result r' =>
    rw [h] at hfirst
    cases result with
    | ok _ => exact hfirst
    | error fault =>
      have hlogged : ∀ log, r'.ReadsTo given { r' with log } := fun log =>
        .step r' (d := .logged log) True.intro
      exact hfirst.trans (hlogged _)

end Action

/-! ### Walks -/

mutual

/-- Going through one statement of a source goes by steps that read the source. -/
theorem readsOnly_walk {given : Source → Prop} (c : Context) (hc : given c.source) :
    (s : Statement) → (∀ t ∈ s.sites, c.source.root.HasSite t) → ReadsOnly given (walk c s)
  | .plain _, _ => readsOnly_pure ()
  | .illegible _, _ => readsOnly_throw _
  | .keyword _ _, _ => readsOnly_pure ()
  | .signature s block, hs => by
    have hsite := hs s List.mem_cons_self
    have hblock := hs block (List.mem_cons_of_mem _ List.mem_cons_self)
    refine .guarding ?_ c s.node .signature
    exact readsOnly_of_run (.signature c s block) ⟨⟨hc, hsite⟩, hc, hblock⟩ fun _ => rfl
  | .restriction s visibility arguments, hs => by
    obtain ⟨-, harguments⟩ := List.forall_mem_cons.mp hs
    refine .guarding ?_ c s.node .visibility
    exact readsOnly_walkArguments c visibility { c with visibility } hc hc rfl arguments harguments
  | .classBody s body, hs => by
    obtain ⟨hsite, hbody⟩ := List.forall_mem_cons.mp hs
    have hread : c.Reads given s.node := Context.ReadsSite.reads ⟨hc, hsite⟩
    refine .guarding ?_ c s.node .classBody
    refine (readsOnly_ofExcept _).bind fun path => ?_
    refine ReadsOnly.bind (readsOnly_of_run (.openClass c s.node path) hread fun _ => rfl)
      fun classPath => ?_
    refine (readsOnly_inStore _).bind fun handle => ?_
    refine (readsOnly_walkAll (c.inside handle) hc body hbody).bind fun _ => ?_
    exact readsOnly_of_run (.closeClass c s.node path classPath) hread fun _ => rfl
  | .moduleBody s body, hs => by
    obtain ⟨hsite, hbody⟩ := List.forall_mem_cons.mp hs
    have hread : c.Reads given s.node := Context.ReadsSite.reads ⟨hc, hsite⟩
    refine .guarding ?_ c s.node .moduleBody
    refine (readsOnly_ofExcept _).bind fun path => ?_
    refine ReadsOnly.bind (readsOnly_of_run (.openModule c s.node path) hread fun _ => rfl)
      fun modulePath => ?_
    refine (readsOnly_inStore _).bind fun handle => ?_
    exact readsOnly_walkAll (c.inside handle) hc body hbody
  | .singletonBody s body, hs => by
    obtain ⟨-, hbody⟩ := List.forall_mem_cons.mp hs
    exact .guarding (readsOnly_walkAll (c.inside c.home .onClass) hc body hbody)
      c s.node .singletonBody
  | .method s, hs => by
    have hread := Context.ReadsSite.reads ⟨hc, List.forall_mem_singleton.mp hs⟩
    exact .guarding (readsOnly_of_run (.method c s.node) hread fun _ => rfl) c s.node .method
  | .accessors s read write, hs => by
    have hread := Context.ReadsSite.reads ⟨hc, List.forall_mem_singleton.mp hs⟩
    exact .guarding (readsOnly_of_run (.accessors c s.node read write) hread fun _ => rfl)
      c s.node .accessors
  | .constant s, hs => by
    have hread := Context.ReadsSite.reads ⟨hc, List.forall_mem_singleton.mp hs⟩
    exact .guarding (readsOnly_of_run (.constant c s.node) hread fun _ => rfl) c s.node .constant
  | .enumValues s block, hs => by
    have hblock := hs block (List.mem_cons_of_mem _ List.mem_cons_self)
    refine .guarding ?_ c s.node .enumValues
    exact readsOnly_of_run (.enumValues c block) ⟨hc, hblock⟩ fun _ => rfl
  | .field s isProp, hs => by
    have hread := Context.ReadsSite.reads ⟨hc, List.forall_mem_singleton.mp hs⟩
    exact .guarding (readsOnly_of_run (.field c s.node isProp) hread fun _ => rfl) c s.node .field

/-- Going through the statements of a body goes by such steps. -/
theorem readsOnly_walkAll {given : Source → Prop} (c : Context) (hc : given c.source) :
    (body : List Statement) → (∀ t ∈ Statement.sitesOf body, c.source.root.HasSite t) →
      ReadsOnly given (walkAll c body)
  | [], _ => readsOnly_pure ()
  | statement :: rest, hs => by
    obtain ⟨hfirst, hrest⟩ := List.forall_mem_append.mp hs
    have hrest := readsOnly_walkAll
      { c with visibility := statement.visibilityAfter c.visibility } hc rest hrest
    exact (readsOnly_walk c hc statement hfirst).bind fun _ => hrest

/-- Going through the arguments of a visibility call goes by such steps. -/
theorem readsOnly_walkArguments {given : Source → Prop} (c : Context) (visibility : Visibility)
    (inner : Context) (hc : given c.source) (hinner : given inner.source)
    (hsame : inner.source = c.source) :
    (arguments : List Statement) →
      (∀ t ∈ Statement.sitesOf arguments, c.source.root.HasSite t) →
      ReadsOnly given (walkArguments c visibility inner arguments)
  | [], _ => readsOnly_pure ()
  | argument :: rest, hs => by
    obtain ⟨hfirst, hrest⟩ := List.forall_mem_append.mp hs
    have hrest := readsOnly_walkArguments c visibility
      { inner with visibility := argument.visibilityAfter inner.visibility } hc hinner hsame rest
      hrest
    rw [walkArguments]
    dsimp only
    split
    · refine (readsOnly_ofExcept _).bind fun name => ?_
      exact ReadsOnly.bind (readsOnly_of_run (.visibility c name visibility) hc fun _ => rfl)
        fun _ => hrest
    · exact (readsOnly_walk inner hinner argument (hsame ▸ hfirst)).bind fun _ => hrest

end

/-- Going through a source goes by steps that read this source. -/
theorem readsOnly_walkSource {given : Source → Prop} (config : Config) {source : Source}
    (h : given source) : ReadsOnly given (walkSource config source) :=
  readsOnly_walkAll _ h _ fun _ => Node.hasSite_of_mem_sitesOf_outline

end RubyDoc

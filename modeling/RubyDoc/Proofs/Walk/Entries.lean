import RubyDoc.Proofs.Walk.Accessors

/-!
# Entries that a body leaves

The entry of an attribute after a body is told by the accessor macros in it that name the
attribute, in its namespace and for its scope: it has the accessors of the last of them, and no
others. Macros that stand deeper in the body count too, as arguments of a visibility call or in
the same namespace opened again, and so do those before a fault. All is read if the body is
legible.
-/

namespace RubyDoc

open RubyDoc.Action ObjectPath Text

namespace Attribute

variable (a : Attribute)

/-- Which accessors of an attribute a statement declares, if it is an accessor macro that names
it: reader, writer. -/
def accessors? (p : Placed) : Option (Bool × Bool) :=
  match Form.ofNode p.node with
  | .accessors read write =>
    if p.home = a.home.path ∧ p.scope = a.scope ∧
        a.name ∈ Node.accessed p.node.positionalArguments then some (read, write)
    else none
  | _ => none

/-- Which accessors of an attribute the macros among some statements declare, in order. -/
def declared (ps : List Placed) : List (Bool × Bool) := ps.filterMap a.accessors?

/-- The entry that some statements leave, where there was one before: that of the last macro. -/
def entryAfter (ps : List Placed) (before : Option Slots) : Option Slots :=
  ((a.declared ps).getLast?.map fun m => a.slots m.1 m.2).or before

/-- Whether a statement declares a field of the name of an attribute, in its namespace and for its
scope. -/
def IsField (p : Placed) : Prop :=
  (Form.ofNode p.node).isField = true ∧ p.home = a.home.path ∧ p.scope = a.scope ∧
    p.node.usableName? = some a.name

instance (p : Placed) : Decidable (a.IsField p) := inferInstanceAs (Decidable (_ ∧ _ ∧ _ ∧ _))

/-- Whether an entry has a reader exactly if one of some macros declares one, and a writer
likewise. -/
def Remembers (entry : Option Slots) (declared : List (Bool × Bool)) : Prop :=
  ((entry.bind Slots.read).isSome = true ↔ ∃ m ∈ declared, m.1 = true) ∧
    ((entry.bind Slots.write).isSome = true ↔ ∃ m ∈ declared, m.2 = true)

/-- Whether the last of some macros declares all accessors that any of them does. -/
def LastDeclaresAll (declared : List (Bool × Bool)) : Prop :=
  ∀ last ∈ declared.getLast?, ∀ m ∈ declared,
    (m.1 = true → last.1 = true) ∧ (m.2 = true → last.2 = true)

variable {a}

theorem declared_append (ps qs : List Placed) :
    a.declared (ps ++ qs) = a.declared ps ++ a.declared qs := List.filterMap_append

/-- Statements behind others begin with the entry that these leave. -/
theorem entryAfter_append (ps qs : List Placed) (before : Option Slots) :
    a.entryAfter (ps ++ qs) before = a.entryAfter qs (a.entryAfter ps before) := by
  rw [entryAfter, declared_append, List.getLast?_append, entryAfter, entryAfter]
  cases (a.declared qs).getLast? with
  | none => rw [Option.none_or, Option.map_none, Option.none_or]
  | some m => rw [Option.some_or, Option.map_some, Option.some_or, Option.some_or]

/-- The last macro leaves an entry that remembers all of them exactly if it declares all that
any of them does. -/
theorem remembers_entryAfter_iff {ps : List Placed} (hps : a.declared ps ≠ [])
    (before : Option Slots) :
    Remembers (a.entryAfter ps before) (a.declared ps) ↔ LastDeclaresAll (a.declared ps) := by
  obtain ⟨last, hlast⟩ := Option.ne_none_iff_exists'.mp (mt List.getLast?_eq_none_iff.mp hps)
  have hmem := List.mem_of_getLast? hlast
  have hentry : a.entryAfter ps before = some (a.slots last.1 last.2) := by
    rw [entryAfter, hlast, Option.map_some, Option.some_or]
  have hread : ((a.entryAfter ps before).bind Slots.read).isSome = last.1 := by
    rw [hentry, Option.bind_some, slots]
    cases last.1 <;> rfl
  have hwrite : ((a.entryAfter ps before).bind Slots.write).isSome = last.2 := by
    rw [hentry, Option.bind_some, slots]
    cases last.2 <;> rfl
  rw [Remembers, hread, hwrite, LastDeclaresAll, hlast]
  constructor
  · rintro ⟨hreader, hwriter⟩ x hx m hm
    obtain rfl := Option.some.inj hx
    exact ⟨fun h => hreader.mpr ⟨m, hm, h⟩, fun h => hwriter.mpr ⟨m, hm, h⟩⟩
  · intro h
    refine ⟨⟨fun hr => ⟨last, hmem, hr⟩, ?_⟩, ⟨fun hw => ⟨last, hmem, hw⟩, ?_⟩⟩
    · rintro ⟨m, hm, hr⟩
      exact (h last rfl m hm).1 hr
    · rintro ⟨m, hm, hw⟩
      exact (h last rfl m hm).2 hw

/-- Only a statement that is an accessor macro declares accessors. -/
theorem accessors?_eq_none {p : Placed}
    (h : ∀ read write, Form.ofNode p.node ≠ .accessors read write) : a.accessors? p = none := by
  rw [accessors?]
  split
  · next read write hf => exact absurd hf (h read write)
  · rfl

theorem exists_of_accessors? {p : Placed} {m : Bool × Bool} (h : a.accessors? p = some m) :
    Form.ofNode p.node = .accessors m.1 m.2 ∧ p.home = a.home.path ∧ p.scope = a.scope ∧
      a.name ∈ Node.accessed p.node.positionalArguments := by
  rw [accessors?] at h
  split at h
  · next read write hf =>
    split at h
    · next hsame =>
      rw [← Option.some.inj h]
      exact ⟨hf, hsame⟩
    · cases h
  · cases h

end Attribute

/-- What an action came to that reads some statements, in a namespace that an attribute has an
entry in. If it was sound it has come by all of them, and to a result. -/
structure Filed {α : Type} (a : Attribute) (kind : String) (ps : List Placed) (sound : Prop)
    (s : Store) (outcome : Except Fault α × Records) : Prop where
  /-- The store has changed by declarations that spare the attribute. -/
  changes : s.Changes (·.Spares a kind) outcome.2.store
  /-- The entry is the one that some of the statements leave, in order, and the accessors that
  these declare are there. They are all of the statements if it was sound. -/
  reached : ∃ reached : List Placed, reached.Sublist ps ∧
    a.entryIn outcome.2.store = a.entryAfter reached (a.entryIn s) ∧
    (∀ m ∈ a.declared reached, a.HasAccessors m outcome.2.store) ∧ (sound → reached = ps)
  /-- There is a result. -/
  ok : sound → ∃ x, outcome.1 = .ok x

namespace Action

variable {α β : Type} {a : Attribute} {kind : String} {sound : Prop} {ps qs : List Placed}

/-- An action that reads some statements and leaves the entry of the last of them that declares
accessors, in a namespace that stands. -/
def Files (a : Attribute) (kind : String) (sound : Prop) (ps : List Placed) (action : Action α) :
    Prop :=
  ∀ r : Records, r.store.Stands a.home kind → Filed a kind ps sound r.store (runOn action r)

/-- What puts no attribute in leaves the entry, and so do statements that declare no accessors. -/
theorem files_of_edits {V : Option Visibility → Prop} {T : Handle → Scope → String → Prop}
    {action : Action α} (hchanges : ∀ s : Store, s.IsKeyed → ChangesFrom (·.Spares a kind) s action)
    (hedits : Edits V T action)
    (hT : ∀ handle : Handle, handle.path = a.home.path → handle.serial = a.home.serial →
      ¬ T handle a.scope a.name)
    (hps : sound → a.declared ps = [])
    (hok : sound → ∀ r : Records, r.store.Stands a.home kind → ∃ x, (runOn action r).1 = .ok x) :
    Files a kind sound ps action := by
  intro r hr
  have hchanged := hchanges r.store hr.room.isKeyed r rfl
  have hsame := Attribute.entryIn_changes hr hchanged (hedits r) hT
  refine ⟨hchanged, ?_, fun hs => hok hs r hr⟩
  by_cases hs : sound
  · refine ⟨ps, .refl ps, ?_, fun m hm => ?_, fun _ => rfl⟩
    · rw [hsame, Attribute.entryAfter, hps hs]
      rfl
    · rw [hps hs] at hm
      cases hm
  · exact ⟨[], List.nil_sublist ps, hsame, fun m hm => absurd hm List.not_mem_nil,
      fun h => absurd h hs⟩

theorem IsQuiet.files {action : Action α} (h : IsQuiet action) (hps : sound → a.declared ps = [])
    (hok : sound → ∀ r : Records, ∃ x, (runOn action r).1 = .ok x) :
    Files a kind sound ps action :=
  files_of_edits (V := fun _ => False) (T := fun _ _ _ => False) (fun _ _ => h.changesFrom) h.goesBy
    (fun _ _ _ => id) hps fun hs r _ => hok hs r

/-- One action after another reads the statements of both. -/
theorem Files.bind {action : Action α} {f : α → Action β} (ha : Files a kind sound ps action)
    (hf : ∀ x, MayGive action x → Files a kind sound qs (f x)) :
    Files a kind sound (ps ++ qs) (action >>= f) := by
  intro r hr
  obtain ⟨hchanges, ⟨reached, hsub, hentry, hthere, hall⟩, hok⟩ := ha r hr
  rw [runOn_bind]
  cases h : runOn action r with
  | mk result r' =>
    rw [h] at hchanges hentry hthere hok
    cases result with
    | error fault =>
      have hunsound : ¬ sound := fun hs => by
        obtain ⟨x, hx⟩ := hok hs
        cases hx
      exact ⟨hchanges, ⟨reached, hsub.trans (List.sublist_append_left ps qs), hentry, hthere,
        fun hs => absurd hs hunsound⟩, fun hs => absurd hs hunsound⟩
    | ok x =>
      have hr' : r'.store.Stands a.home kind := Attribute.stands_changes hr hchanges
      obtain ⟨hchanges', ⟨reached', hsub', hentry', hthere', hall'⟩, hok'⟩ :=
        hf x ⟨r, by rw [h]⟩ r' hr'
      refine ⟨hchanges.trans hchanges', ⟨reached ++ reached', hsub.append hsub', ?_,
        fun m hm => ?_, fun hs => ?_⟩, hok'⟩
      · rw [hentry', Attribute.entryAfter_append, hentry]
      · rw [Attribute.declared_append, List.mem_append] at hm
        exact hm.elim (fun h => (hthere m h).changes hr'.room.isKeyed hchanges') (hthere' m)
      · rw [hall hs, hall' hs]

/-- A fault that is caught leaves what was put in before it. -/
theorem Files.guarded {action : Action Unit} (ha : Files a kind sound ps action)
    (channel : Channel) (message : String) :
    Files a kind sound ps (guarded channel message action) := by
  intro r hr
  obtain ⟨hchanges, hreached, -⟩ := ha r hr
  rw [runOn_guarded]
  cases h : runOn action r with
  | mk result r' =>
    rw [h] at hchanges hreached
    cases result <;> exact ⟨hchanges, hreached, fun _ => ⟨(), rfl⟩⟩

end Action

/-! ### Walks -/

/-- A statement that spares an attribute, and all that is inside it does. -/
structure Placed.Spares (p : Placed) (a : Attribute) (kind : String) : Prop where
  /-- All that is declared spares the attribute. -/
  declared : ∀ d ∈ p.events.flatMap Event.declared, d.Spares a kind
  /-- No field of its name takes its entry. -/
  fields : ∀ q ∈ p.statements, ¬ a.IsField q

instance (p : Placed) (a : Attribute) (kind : String) : Decidable (p.Spares a kind) :=
  decidable_of_iff
    ((∀ d ∈ p.events.flatMap Event.declared, d.Spares a kind) ∧
      ∀ q ∈ p.statements, ¬ a.IsField q)
    ⟨fun h => ⟨h.1, h.2⟩, fun h => ⟨h.declared, h.fields⟩⟩

section Walks

variable {a : Attribute} {kind : String} {sound : Prop} {source : Source} {config : Config}
  {p : Placed}

/-- A statement with nothing inside it that can be told is all that there is to read. -/
theorem Placed.statements_of_hasBody (hf : Form.ofNode p.node ≠ .illegible)
    (hbody : (Form.ofNode p.node).hasBody = false) : p.statements = [p] := by
  rw [statements_eq, p.nested_eq hf, p.inside_of_hasBody hbody, List.flatMap_nil]

/-- A fault that is caught leaves the store. -/
theorem Action.store_guarded (channel : Channel) (message : String) (action : Action Unit)
    (r : Records) :
    (runOn (guarded channel message action) r).2.store = (runOn action r).2.store := by
  rw [runOn_guarded]
  cases runOn action r with
  | mk result r' => cases result <;> rfl

theorem declared_of_hasBody (hbody : (Form.ofNode p.node).hasBody = true) :
    a.declared [p] = [] := by
  have hnone : a.accessors? p = none := Attribute.accessors?_eq_none fun read write hf => by
    rw [hf] at hbody
    cases hbody
  rw [Attribute.declared, List.filterMap_cons, hnone, List.filterMap_nil]

theorem declared_of_accessors? {m : Option (Bool × Bool)} (h : a.accessors? p = m) :
    a.declared [p] = m.toList := by
  rw [Attribute.declared, List.filterMap_cons, h]
  cases m <;> rfl

section Leaf

variable (hspares : p.Spares a kind) {c : Context} (hat : c.IsAt source config p)
  (hbody : (Form.ofNode p.node).hasBody = false)

include hspares hat hbody

theorem changesFrom_leaf_spares (s : Store) (hk : s.IsKeyed) :
    ChangesFrom (·.Spares a kind) s (walk c p.site.statement) := fun r hr =>
  (changesFrom_leaf hbody hat hk r hr).imp fun d hd =>
    hspares.declared d (Placed.mem_flatMap_declared.mpr (.inl hd))

omit hbody in
/-- A statement that declares none of the accessors puts in other attributes at most. -/
theorem not_mem_attributes (haccessors : a.accessors? p = none) (hhome : c.home.path = a.home.path)
    (hscope : c.scope = a.scope) : a.name ∉ p.site.statement.attributes := by
  rw [hat.home] at hhome
  rw [hat.scope] at hscope
  rw [Site.statement_eq, Placed.node_site]
  cases hf : Form.ofNode p.node with
  | accessors read write =>
    intro hname
    rw [Attribute.accessors?, hf] at haccessors
    dsimp only at haccessors
    rw [if_pos ⟨hhome, hscope, hname⟩] at haccessors
    cases haccessors
  | field isProp =>
    intro hname
    refine hspares.fields p ?_ ⟨by rw [hf]; rfl, hhome, hscope, Option.mem_toList.mp hname⟩
    rw [Placed.statements_eq]
    exact List.mem_cons_self
  | _ => exact List.not_mem_nil

/-- A statement with nothing inside it leaves the entry, unless it declares accessors. -/
theorem files_of_accessors?_eq_none (hlegible : sound → p.node.IsLegible)
    (haccessors : a.accessors? p = none) :
    Files a kind sound p.statements (walk c p.site.statement) := by
  have hinner : p.site.statement.hasInner = false := by
    rw [Site.statement_eq, Placed.node_site]
    revert hbody
    cases Form.ofNode p.node <;> simp [Form.hasBody, Statement.hasInner]
  have hedits := edits_leaf (T := fun handle scope name => handle = c.home ∧ scope = c.scope ∧
    name ∈ p.site.statement.attributes) c hinner fun _ hname => ⟨rfl, rfl, hname⟩
  refine files_of_edits (changesFrom_leaf_spares hspares hat hbody) hedits ?_ (fun hs => ?_)
    fun hs r _ => ?_
  · rintro handle hpath - ⟨rfl, hscope, hname⟩
    exact not_mem_attributes hspares hat haccessors hpath hscope.symm hname
  · rw [Placed.statements_of_hasBody (Form.ofNode_ne_illegible (hlegible hs)) hbody,
      declared_of_accessors? haccessors]
    rfl
  · obtain ⟨r', hrun⟩ := exists_runOn_walk c
      (Site.statement_ne_illegible (s := p.site) (hlegible hs)) r
    exact ⟨(), congrArg Prod.fst hrun⟩

omit hbody in
/-- An accessor macro leaves the entry of its accessors, if it comes to the attribute. -/
theorem files_of_accessors? (hlegible : sound → p.node.IsLegible)
    (hfits : c.home.path = a.home.path → c.home = a.home)
    (htable : a.home.scopes.contains a.scope = true)
    (hcomments : sound → source.HasLegibleComments) {m : Bool × Bool}
    (haccessors : a.accessors? p = some m) :
    Files a kind sound p.statements (walk c p.site.statement) := by
  obtain ⟨hf, hhome, hscope, hname⟩ := Attribute.exists_of_accessors? haccessors
  have hbody : (Form.ofNode p.node).hasBody = false := by rw [hf]; rfl
  have hstatements : p.statements = [p] :=
    Placed.statements_of_hasBody (by rw [hf]; exact Form.noConfusion) hbody
  have hplace : c.home = a.home := hfits (hat.home.trans hhome)
  have hsame : c.attribute a.name = a := by
    rw [Context.attribute, hplace, hat.scope.trans hscope]
  have hd : ∀ name ∈ Node.definedAccessors m.1 m.2 p.node.positionalArguments,
      (Declaration.ofMethod c.home.path name c.scope).Spares (c.attribute a.name) kind := by
    intro name hmem
    rw [hsame]
    refine hspares.declared _ (Placed.mem_flatMap_declared.mpr (.inl ?_))
    rw [Placed.declared, hf, hat.home, hat.scope]
    exact List.mem_map_of_mem hmem
  have hwalk : walk c p.site.statement =
      c.guarding p.node .accessors (processAccessors c p.node m.1 m.2) := by
    rw [Site.statement_eq, Placed.node_site, hf]
    rfl
  rw [hstatements]
  intro r hr
  have haccessed := accessed_processAccessors (hplace.symm ▸ hr)
    (by rw [hplace, hat.scope, hscope]; exact htable) p.node m.1 m.2 hd
  rw [hsame, hat.source] at haccessed
  have hreached : (a.entryIn (runOn (walk c p.site.statement) r).2.store = some (a.slots m.1 m.2) ∧
      a.HasAccessors m (runOn (walk c p.site.statement) r).2.store) ∨
      ¬ sound ∧ a.entryIn (runOn (walk c p.site.statement) r).2.store = a.entryIn r.store := by
    rw [hwalk, Context.guarding, Action.store_guarded]
    by_cases hs : sound
    · exact .inl ((haccessed.reached ⟨hlegible hs, hcomments hs⟩).2 hname)
    · exact haccessed.entry.symm.imp_right fun h => ⟨hs, h⟩
  refine ⟨changesFrom_leaf_spares hspares hat hbody r.store hr.room.isKeyed r rfl, ?_, fun _ => ?_⟩
  · rcases hreached with ⟨hentry, hthere⟩ | ⟨hs, hentry⟩
    · refine ⟨[p], .refl _, ?_, fun x hx => ?_, fun _ => rfl⟩
      · rw [hentry, Attribute.entryAfter, declared_of_accessors? haccessors]
        rfl
      · rw [declared_of_accessors? haccessors, Option.toList_some, List.mem_singleton] at hx
        exact hx ▸ hthere
    · exact ⟨[], List.nil_sublist _, hentry, fun x hx => absurd hx List.not_mem_nil,
        fun h => absurd h hs⟩
  · obtain ⟨r', hrun⟩ := exists_runOn_guarded .statements _ _ r
    rw [hwalk]
    exact ⟨(), congrArg Prod.fst hrun⟩

end Leaf

/-- What a class or module opens, or closes, is changed by declarations that spare an attribute. -/
theorem Declaration.Spares.anchored {d : Declaration} (hd : d.Spares a kind)
    (hconstant : d.kind ≠ .constant) (hmethod : d.kind ≠ .method) :
    beginsWith "::" d.path = false := hd.room.anchored hconstant hmethod

/-- What is inside a statement spares an attribute if the statement does. -/
theorem Placed.Spares.nested {q : Placed} (h : p.Spares a kind) (hq : q ∈ p.nested) :
    q.Spares a kind := by
  refine ⟨fun d hd => h.declared d (mem_flatMap_declared.mpr (.inr (.inl ⟨q, hq, hd⟩))),
    fun x hx => h.fields x ?_⟩
  rw [statements_eq]
  exact List.mem_cons_of_mem _ (List.mem_flatMap.mpr ⟨q, hq, hx⟩)

/-- The body of a namespace is read under the handle of the namespace that stands. -/
theorem runOn_handleAt_of_stands (path : String) {r : Records} (hr : r.store.Stands a.home kind) :
    ∃ handle : Handle, runOn (handleAt path) r = (.ok handle, r) ∧ handle.path = path ∧
      (handle.path = a.home.path → handle = a.home) := by
  refine ⟨_, rfl, rfl, ?_⟩
  rintro rfl
  obtain ⟨e, m, hfind, hm, hhandle, -⟩ := hr.space
  dsimp only
  rw [hfind, Option.bind_some, hm, Option.getD_some, hhandle]

section Account

variable (source : Source) (config : Config) (a : Attribute) (kind : String)

/-- The changes of a walk by declarations that spare an attribute. -/
abbrev sparingChanges : Account source config :=
  changesAccount (D := (·.Spares a kind)) source config fun _ hd => hd.anchored

/-- The walk of any statement that spares an attribute leaves the entry of the last macro in it,
in a namespace that stands and has a table for the scope. -/
def attributeAccount (sound : Prop) (htable : a.home.scopes.contains a.scope = true)
    (hcomments : sound → source.HasLegibleComments) : Account source config where
  Covers p := p.Spares a kind ∧ (sound → p.node.IsLegible)
  Fits handle := handle.path = a.home.path → handle = a.home
  Holds ps action := Files a kind sound ps action
  covers_nested hp hq := ⟨hp.1.nested hq, fun hs => Placed.everywhere_of_mem_nested (hp.2 hs) hq⟩
  anchored hp hopens := (sparingChanges source config a kind).anchored hp.1.declared hopens
  pure x := (isQuiet_pure x).files (fun _ => rfl) fun _ r => ⟨x, rfl⟩
  bind := Files.bind
  guarded channel message ha := ha.guarded channel message
  leaf {p c} hp hat hfits hbody := by
    cases haccessors : a.accessors? p with
    | none => exact files_of_accessors?_eq_none hp.1 hat hbody hp.2 haccessors
    | some m => exact files_of_accessors? hp.1 hat hp.2 hfits htable hcomments haccessors
  nameless {p c fault} channel message hp hf hpath := by
    have hquiet : IsQuiet (guarded channel message (throw fault)) := fun r =>
      ⟨_, by rw [runOn_guarded, runOn_throw]⟩
    refine hquiet.files (fun hs => ?_) fun _ r => ?_
    · obtain ⟨-, hnested⟩ := Placed.nested_of_declaredPath hf (hp.2 hs) hpath
      rw [Placed.statements_eq, hnested, List.flatMap_nil]
      refine declared_of_hasBody ?_
      revert hf
      cases Form.ofNode p.node <;> simp [Form.opensSpace, Form.hasBody]
    · rw [runOn_guarded, runOn_throw]
      exact ⟨(), rfl⟩
  openingClass {p c path} hp hat hf hopens := by
    have hchanges := (sparingChanges source config a kind).openingClass hp.1.declared hat hf hopens
    refine files_of_edits (T := fun _ _ _ => False) hchanges
      (edits_openClass (V := fun _ => True) c p.node trivial path) (fun _ _ _ => id)
      (fun _ => declared_of_hasBody (by rw [hf]; rfl)) fun hs r hr => ?_
    obtain ⟨r', hrun⟩ := openClass_ok
      ((sparingChanges source config a kind).anchored hp.1.declared hopens)
      (hp.2 hs) (hat.source ▸ hcomments hs) hr.room.root
    exact ⟨path, congrArg Prod.fst hrun⟩
  openingModule {p c path} hp hat hf hopens := by
    have hchanges := (sparingChanges source config a kind).openingModule hp.1.declared hat hf hopens
    refine files_of_edits (T := fun _ _ _ => False) hchanges
      (edits_openModule (V := fun _ => True) c p.node trivial path) (fun _ _ _ => id)
      (fun _ => declared_of_hasBody (by rw [hf]; rfl)) fun hs r hr => ?_
    obtain ⟨r', hrun⟩ := openModule_ok (c := c) (n := p.node)
      ((sparingChanges source config a kind).anchored hp.1.declared hopens)
      (hat.source ▸ hcomments hs) hr.room.root
    exact ⟨path, congrArg Prod.fst hrun⟩
  entering {α ps path f} hf r hr := by
    obtain ⟨handle, hrun, hpath, hfits⟩ := runOn_handleAt_of_stands path hr
    rw [runOn_bind_ok hrun]
    exact hf handle hpath hfits r hr
  closing {p c path} hp hf hopens :=
    files_of_edits (V := fun _ => True) (T := fun _ _ _ => False)
      ((sparingChanges source config a kind).closing hp.1.declared hf hopens)
      (edits_closeClass c p.node path path fun _ => trivial) (fun _ _ _ => id) (fun _ => rfl)
      fun _ r _ => by
        obtain ⟨r', hrun⟩ := exists_runOn_guarded .statements _ _ r
        exact ⟨(), congrArg Prod.fst hrun⟩
  inside {p ps action} hp hbody _ ha := by
    have hself : Files a kind sound [p] (pure () : Action Unit) :=
      (isQuiet_pure ()).files (fun _ => declared_of_hasBody hbody) fun _ r => ⟨(), rfl⟩
    exact hself.bind fun _ _ => ha
  name {p c site} visibility hp hsite := by
    have hread : Files a kind sound [] (Action.ofExcept site.node.symbolName) := by
      refine (isQuiet_ofExcept _).files (fun _ => rfl) fun hs r => ?_
      obtain ⟨name, hname⟩ := ((hp.2 hs).of_mem_argumentSites hsite).symbolName_ok
      exact ⟨name, by rw [runOn_ofExcept, hname]⟩
    refine hread.bind fun name _ => ?_
    refine files_of_edits (V := fun _ => True) (T := fun _ _ _ => False)
      (fun _ _ => changesFrom_setVisibility c name visibility)
      (edits_setVisibility c name trivial) (fun _ _ _ => id) (fun _ => rfl) fun _ r hr => ?_
    obtain ⟨r', hrun, -⟩ := setVisibility_ok c name visibility hr.room.isKeyed
    exact ⟨(), congrArg Prod.fst hrun⟩

end Account

/-- Statements of a body, placed where a context reads them. -/
def Context.placed (c : Context) (sites : List Site) : List Placed :=
  sites.map fun site => { home := c.home.path, scope := c.scope, site }

/-- A body that spares an attribute leaves the entry of the last macro in it. -/
theorem files_walkAll (htable : a.home.scopes.contains a.scope = true) {c : Context}
    (hfits : c.home.path = a.home.path → c.home = a.home) {sites : List Site}
    (hspares : ∀ p ∈ c.placed sites, p.Spares a kind) :
    Files a kind ((∀ site ∈ sites, site.node.IsLegible) ∧ c.source.HasLegibleComments)
      ((c.placed sites).flatMap Placed.statements) (walkAll c (sites.map Site.statement)) := by
  have hsites : sites.map Site.statement = (c.placed sites).map fun q => q.site.statement := by
    rw [Context.placed, List.map_map]
    rfl
  rw [hsites]
  let account := attributeAccount c.source c.config a kind
    ((∀ site ∈ sites, site.node.IsLegible) ∧ c.source.HasLegibleComments) htable And.right
  refine Account.holds_walkAll (fun q _ => account.holdsOf q)
    (fun q hq => ⟨hspares q hq, fun hs => ?_⟩) (fun q hq => ?_) hfits
  · obtain ⟨site, hsite, rfl⟩ := List.mem_map.mp hq
    exact hs.1 site hsite
  · obtain ⟨site, -, rfl⟩ := List.mem_map.mp hq
    exact ⟨rfl, rfl, rfl, rfl⟩

end Walks

end RubyDoc

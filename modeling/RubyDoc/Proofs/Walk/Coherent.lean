import RubyDoc.Proofs.Walk.Basic
import RubyDoc.Proofs.Walk.Opening
import RubyDoc.Proofs.Walk.Tree

/-!
# Walks that keep a tree

The events of a walk are coherent if what each of them declares fits in with what was
declared before. A walk whose events are coherent keeps the store a tree. Nothing else
is assumed of the source: texts that cut a character and statements that end in a fault
cut the walk short, but leave a tree. What coherent events forbid is that anything with
members is replaced without them.
-/

namespace RubyDoc

open RubyDoc.Action ObjectPath Text

namespace Event

/-- What an event declares. -/
def declared : Event → List Declaration
  | .statement p => p.declared
  | .closing path => [.ofConstructor path]

end Event

/-- Whether everything that events declare fits in with what was declared before and by the
same event. -/
def AreCoherent (declared : List Declaration) : List Event → Prop
  | [] => True
  | e :: es => (∀ d ∈ e.declared, d.FitsIn (declared ++ e.declared)) ∧
    AreCoherent (declared ++ e.declared) es

namespace AreCoherent

instance decidable : (declared : List Declaration) → (es : List Event) →
    Decidable (AreCoherent declared es)
  | _, [] => isTrue trivial
  | declared, e :: es =>
    have := decidable (declared ++ e.declared) es
    inferInstanceAs (Decidable (_ ∧ _))

/-- Events one after the other are coherent if the later ones are behind the earlier. -/
theorem append_iff {declared : List Declaration} {es es' : List Event} :
    AreCoherent declared (es ++ es') ↔
      AreCoherent declared es ∧ AreCoherent (declared ++ es.flatMap Event.declared) es' := by
  induction es generalizing declared with
  | nil => rw [List.nil_append, AreCoherent, true_and, List.flatMap_nil, List.append_nil]
  | cons e es ih =>
    rw [List.cons_append, AreCoherent, AreCoherent, ih, and_assoc, List.flatMap_cons,
      List.append_assoc]

end AreCoherent

namespace Action

variable {α β : Type} {declared : List Declaration} {es es' : List Event}

/-- An action that keeps a tree, and registers in it no more than some events declare, if
these are coherent. -/
def KeepsTree (declared : List Declaration) (es : List Event) (a : Action α) : Prop :=
  AreCoherent declared es → ∀ r : Records, r.store.IsTreeOf declared →
    (runOn a r).2.store.IsTreeOf (declared ++ es.flatMap Event.declared)

theorem IsQuiet.keepsTree {a : Action α} (h : IsQuiet a) : KeepsTree declared es a := by
  intro _ r hr
  rw [h.store r]
  exact hr.mono fun d hd => List.mem_append_left _ hd

/-- An action that registers what the first event declares. -/
theorem keepsTree_of_changesFrom {e : Event} {a : Action α}
    (h : ∀ s : Store, s.IsKeyed → ChangesFrom (fun d => d ∈ e.declared) s a) :
    KeepsTree declared (e :: es) a := by
  intro hfits r hr
  have hmore : r.store.IsTreeOf (declared ++ e.declared) :=
    hr.mono fun d hd => List.mem_append_left _ hd
  have hafter := hmore.changes (fun d hd => ⟨List.mem_append_right _ hd, hfits.1 d hd⟩)
    (h r.store hr.isKeyed r rfl)
  rw [List.flatMap_cons, ← List.append_assoc]
  exact hafter.mono fun d hd => List.mem_append_left _ hd

/-- An action that changes the store, but registers nothing. -/
theorem keepsTree_of_edits {a : Action α} (h : ∀ s : Store, ChangesFrom (fun _ => False) s a) :
    KeepsTree declared [] a := by
  intro _ r hr
  rw [List.flatMap_nil, List.append_nil]
  exact hr.changes (fun _ hd => hd.elim) (h r.store r rfl)

/-- One action after another keeps a tree if both do. -/
theorem KeepsTree.bind {a : Action α} {f : α → Action β} (ha : KeepsTree declared es a)
    (hf : ∀ x, MayGive a x → KeepsTree (declared ++ es.flatMap Event.declared) es' (f x)) :
    KeepsTree declared (es ++ es') (a >>= f) := by
  intro hfits r hr
  obtain ⟨hearlier, hlater⟩ := AreCoherent.append_iff.mp hfits
  have hfirst := ha hearlier r hr
  rw [runOn_bind, List.flatMap_append, ← List.append_assoc]
  cases h : runOn a r with
  | mk result r' =>
    rw [h] at hfirst
    cases result with
    | error fault => exact hfirst.mono fun d hd => List.mem_append_left _ hd
    | ok x => exact hf x ⟨r, by rw [h]⟩ hlater r' hfirst

/-- Behind an action that registers nothing. -/
theorem KeepsTree.bind_nil {a : Action α} {f : α → Action β} (ha : KeepsTree declared [] a)
    (hf : ∀ x, MayGive a x → KeepsTree declared es (f x)) : KeepsTree declared es (a >>= f) := by
  have hboth : KeepsTree declared ([] ++ es) (a >>= f) := ha.bind fun x hx => by
    rw [List.flatMap_nil, List.append_nil]
    exact hf x hx
  exact hboth

theorem IsQuiet.keepsTree_bind {a : Action α} {f : α → Action β} (ha : IsQuiet a)
    (hf : ∀ x, MayGive a x → KeepsTree declared es (f x)) : KeepsTree declared es (a >>= f) :=
  ha.keepsTree.bind_nil hf

theorem keepsTree_ofExcept_bind {result : Except Fault α} {f : α → Action β}
    (hf : ∀ x, result = .ok x → KeepsTree declared es (f x)) :
    KeepsTree declared es (ofExcept result >>= f) := by
  refine (isQuiet_ofExcept result).keepsTree_bind fun x ⟨r, hx⟩ => hf x ?_
  rwa [runOn_ofExcept] at hx

theorem KeepsTree.guarding {a : Action Unit} (ha : KeepsTree declared es a) (c : Context)
    (n : Node) (rule : Rule) : KeepsTree declared es (c.guarding n rule a) := by
  intro hfits r hr
  have hfirst := ha hfits r hr
  rw [Context.guarding, runOn_guarded]
  cases h : runOn a r with
  | mk result r' =>
    rw [h] at hfirst
    cases result <;> exact hfirst

/-- A class is opened under the path that it has, unless that begins with the separator. -/
theorem eq_of_mayGive_openClass {c : Context} {n : Node} {path x : String}
    (hp : beginsWith "::" path = false) (h : MayGive (openClass c n path) x) : x = path := by
  unfold openClass at h
  dsimp only at h
  obtain ⟨_, -, h⟩ := h.of_bind
  obtain ⟨superclass, -, h⟩ := h.of_bind
  obtain ⟨docstring, -, h⟩ := h.of_bind
  obtain ⟨existing, -, h⟩ := h.of_bind
  split at h
  · obtain ⟨_, -, h⟩ := h.of_bind
    obtain ⟨opened, hopened, h⟩ := h.of_bind
    obtain ⟨_, -, h⟩ := h.of_bind
    rw [h.eq_of_pure, hopened.eq_of_pure]
  · obtain ⟨_, -, h⟩ := h.of_bind
    obtain ⟨opened, hopened, h⟩ := h.of_bind
    obtain ⟨_, -, h⟩ := h.of_bind
    rw [h.eq_of_pure, hopened.eq_of_pure]
    exact join_split hp

/-- A module is opened under the path that it has, unless that begins with the separator. -/
theorem eq_of_mayGive_openModule {c : Context} {n : Node} {path x : String}
    (hp : beginsWith "::" path = false) (h : MayGive (openModule c n path) x) : x = path := by
  unfold openModule at h
  dsimp only at h
  obtain ⟨_, -, h⟩ := h.of_bind
  obtain ⟨existing, -, h⟩ := h.of_bind
  split at h
  · split at h
    · obtain ⟨docstring, -, h⟩ := h.of_bind
      obtain ⟨_, -, h⟩ := h.of_bind
      exact h.eq_of_pure
    · exact h.eq_of_pure
  · obtain ⟨docstring, -, h⟩ := h.of_bind
    obtain ⟨_, -, h⟩ := h.of_bind
    rw [h.eq_of_pure]
    exact join_split hp

theorem path_of_mayGive_handleAt {path : String} {handle : Handle}
    (h : MayGive (handleAt path) handle) : handle.path = path := by
  obtain ⟨r, hr⟩ := h
  obtain ⟨known, hpath, hrun⟩ := runOn_handleAt path r
  rw [hrun] at hr
  rw [← Except.ok.inj hr, hpath]

end Action

/-! ### Statements -/

/-- Whether documenting a statement keeps a tree, if its events are coherent. -/
def Placed.KeepsTree (source : Source) (config : Config) (p : Placed) : Prop :=
  ∀ c : Context, c.IsAt source config p → ∀ declared : List Declaration,
    Action.KeepsTree declared p.events (walk c p.site.statement)

section Statements

variable {source : Source} {config : Config} {p : Placed}

/-- A statement with nothing inside it registers what it declares. -/
theorem changesFrom_leaf (hbody : (Form.ofNode p.node).hasBody = false) {c : Context}
    (hat : c.IsAt source config p) {s : Store} (hk : s.IsKeyed) :
    ChangesFrom (fun d => d ∈ p.declared) s (walk c p.site.statement) := by
  have hhome := hat.home
  have hscope := hat.scope
  rw [Site.statement_eq, Placed.node_site]
  cases hf : Form.ofNode p.node with
  | classBody | moduleBody | singletonBody | restriction =>
    rw [hf] at hbody
    cases hbody
  | plain => exact (isQuiet_pure ()).changesFrom
  | illegible => exact (isQuiet_throw _).changesFrom
  | keyword visibility => exact (isQuiet_pure ()).changesFrom
  | signature block => exact (changesFrom_processSignature c p.site block).guarded _ _
  | method =>
    refine (changesFrom_processMethod c p.node (fun m hm => ?_) hk).guarded _ _
    rw [Placed.declared, hf, hhome]
    rw [hscope] at hm
    exact List.mem_map.mpr ⟨m, Option.mem_toList.mpr hm, rfl⟩
  | accessors read write =>
    refine (changesFrom_processAccessors c p.node read write fun m hm => ?_).guarded _ _
    rw [Placed.declared, hf, hhome, hscope]
    exact List.mem_map.mpr ⟨m, hm, rfl⟩
  | constant =>
    refine (changesFrom_processConstant c p.node fun d hd => ?_).guarded _ _
    rw [Placed.declared, hf]
    rwa [hhome] at hd
  | enumValues block =>
    refine (changesFrom_processEnum c block fun d hd => ?_).guarded _ _
    rw [Placed.declared, hf]
    rwa [hhome] at hd
  | field isProp =>
    refine (changesFrom_processField c p.node isProp fun name hname => ?_).guarded _ _
    rw [Placed.declared, hf, hhome, hscope]
    exact List.mem_map.mpr ⟨name, Option.mem_toList.mpr hname, rfl⟩

/-- A statement with nothing inside it keeps a tree. -/
theorem keepsTree_leaf (hbody : (Form.ofNode p.node).hasBody = false) :
    p.KeepsTree source config := by
  intro c hat declared
  rw [Placed.events_eq]
  exact keepsTree_of_changesFrom fun s hk => changesFrom_leaf hbody hat hk

/-- The statements of a body keep a tree one after the other. -/
theorem keepsTree_walkAll {qs : List Placed} (hq : ∀ q ∈ qs, q.KeepsTree source config)
    {c : Context} (hc : ∀ q ∈ qs, c.IsAt source config q) (declared : List Declaration) :
    Action.KeepsTree declared (qs.flatMap Placed.events)
      (walkAll c (qs.map fun q => q.site.statement)) := by
  induction qs generalizing c declared with
  | nil => exact (isQuiet_pure ()).keepsTree
  | cons q qs ih =>
    rw [List.map_cons, walkAll, List.flatMap_cons]
    refine (hq q List.mem_cons_self c (hc q List.mem_cons_self) declared).bind fun _ _ => ?_
    exact ih (fun p hp => hq p (List.mem_cons_of_mem _ hp))
      (fun p hp => (hc p (List.mem_cons_of_mem _ hp)).with_visibility
        (q.site.statement.visibilityAfter c.visibility)) _

/-- The arguments of a visibility call keep a tree, the names among them being no
statements. -/
theorem keepsTree_walkArguments (p : Placed) {args : List Site}
    (hq : ∀ s ∈ args, Node.nameKinds.contains s.node.kind = false →
      ({ p with site := s } : Placed).KeepsTree source config)
    (c : Context) (visibility : Visibility) {inner : Context} (hinner : inner.IsAt source config p)
    (declared : List Declaration) :
    Action.KeepsTree declared
      (((args.filter fun s => !Node.nameKinds.contains s.node.kind).map fun s =>
        ({ p with site := s } : Placed)).flatMap Placed.events)
      (walkArguments c visibility inner (args.map Site.statement)) := by
  induction args generalizing inner declared with
  | nil => exact (isQuiet_pure ()).keepsTree
  | cons s args ih =>
    have hrest := fun declared => ih (fun t ht => hq t (List.mem_cons_of_mem _ ht))
      (hinner.with_visibility (s.statement.visibilityAfter inner.visibility)) declared
    rw [List.map_cons, walkArguments, Site.node_statement, List.filter_cons]
    dsimp only
    cases hname : Node.nameKinds.contains s.node.kind with
    | true =>
      rw [if_pos rfl, Bool.not_true, if_neg Bool.false_ne_true]
      refine keepsTree_ofExcept_bind fun name _ => ?_
      refine (keepsTree_of_edits fun s => ?_).bind_nil fun _ _ => hrest declared
      exact changesFrom_setVisibility c name visibility
    | false =>
      rw [if_neg Bool.false_ne_true, Bool.not_false, if_pos rfl, List.map_cons, List.flatMap_cons]
      refine KeepsTree.bind ?_ fun _ _ => hrest _
      exact hq s List.mem_cons_self hname inner
        ⟨hinner.source, hinner.config, hinner.home, hinner.scope⟩ declared

/-- The path of a class or module is read as it is written. -/
theorem opens?_of_declaredPath {c : Context} (hat : c.IsAt source config p)
    (hf : (Form.ofNode p.node).opensSpace = true) {path : String}
    (h : declaredPath c p.node = .ok path) : p.opens? = some path := by
  have hopens : p.opensNamespace = true := Form.kind_of_opensSpace hf
  rw [declaredPath] at h
  rw [Placed.opens?, if_pos hopens]
  cases hname : p.node.child? "name" with
  | none =>
    rw [hname] at h
    cases h
  | some name =>
    rw [hname] at h
    dsimp only at h
    cases hl : name.legible with
    | error fault =>
      rw [hl] at h
      cases h
    | ok text =>
      rw [hl] at h
      rw [Option.map_some, Node.written_of_legible hl, ← hat.home]
      exact congrArg some (Except.ok.inj h)

/-- The body of a class or module keeps a tree, read under its path. -/
theorem keepsTree_body {path : String} (hopens : p.opens? = some path)
    (hnested : ∀ q ∈ p.nested, q.KeepsTree source config)
    {c : Context} (hat : c.IsAt source config p) {handle : Handle} (hhandle : handle.path = path)
    (declared : List Declaration) :
    Action.KeepsTree declared (p.nested.flatMap Placed.events)
      (walkAll (c.inside handle) (p.node.bodySites.map Site.statement)) := by
  obtain ⟨hstatements, hinside⟩ := nested_of_opens hopens hat hhandle
  rw [← hstatements]
  exact keepsTree_walkAll hnested hinside declared

/-- The namespaces that a statement declares may be made as placeholders. -/
theorem allowsPlaceholders_namespaces {path : String} (hopens : p.opens? = some path)
    (kind : DeclaredKind) :
    AllowsPlaceholders (fun d => d ∈ p.namespaces kind) (split path).1 := by
  intro x hx
  refine ⟨{ home := p.home, path := x, kind := .placeholder }, ?_, rfl, rfl⟩
  rw [Placed.namespaces, hopens]
  exact List.mem_cons_of_mem _ (List.mem_map_of_mem hx)

/-- Opening a class or module keeps a tree, and its body is read under its own path. -/
theorem keepsTree_opening {kind : DeclaredKind} (hkind : kind ≠ .constant ∧ kind ≠ .method)
    (hdeclared : p.declared = p.namespaces kind) {path : String} (hopens : p.opens? = some path)
    {opening : Action String}
    (hchanges : ∀ s : Store, s.IsKeyed → ChangesFrom (fun d => d ∈ p.namespaces kind) s opening)
    (hgives : beginsWith "::" path = false → ∀ x, MayGive opening x → x = path)
    {f : String → Handle → Action Unit} {declared : List Declaration} {es : List Event}
    (hf : ∀ handle : Handle, handle.path = path →
      Action.KeepsTree (declared ++ p.declared) es (f path handle)) :
    Action.KeepsTree declared (.statement p :: es)
      (opening >>= fun x => handleAt x >>= fun handle => f x handle) := by
  intro hfits
  have hp : beginsWith "::" path = false := by
    have hown := hfits.1
    rw [Event.declared, hdeclared] at hown
    exact (hown _ (Placed.mem_namespaces hopens kind)).anchored hkind.1 hkind.2
  rw [← hdeclared] at hchanges
  have hopening : Action.KeepsTree declared [.statement p] opening :=
    keepsTree_of_changesFrom hchanges
  have hall : Action.KeepsTree declared ([.statement p] ++ es)
      (opening >>= fun x => handleAt x >>= fun handle => f x handle) := by
    refine hopening.bind fun x hx => ?_
    rw [hgives hp x hx, List.flatMap_singleton]
    exact (isQuiet_inStore _).keepsTree_bind fun handle hhandle =>
      hf handle (path_of_mayGive_handleAt hhandle)
  exact hall hfits

/-- A class keeps a tree if the statements in its body do. -/
theorem keepsTree_classBody (hnested : ∀ q ∈ p.nested, q.KeepsTree source config)
    (hf : Form.ofNode p.node = .classBody) : p.KeepsTree source config := by
  intro c hat declared
  have hdeclared : p.declared = p.namespaces .classSpace := by
    rw [Placed.declared, hf]
  rw [walk_classBody c hf, Placed.events_eq]
  refine KeepsTree.guarding (keepsTree_ofExcept_bind fun path hpath => ?_) c p.node .classBody
  have hopens := opens?_of_declaredPath hat (by rw [hf]; rfl) hpath
  refine keepsTree_opening (by decide) hdeclared hopens (fun s hk => ?_)
    (fun hp _ => eq_of_mayGive_openClass hp) fun handle hhandle => ?_
  · exact changesFrom_openClass c p.node (allowsPlaceholders_namespaces hopens _) hk
      ⟨_, Placed.mem_namespaces hopens _, rfl, rfl⟩
  · refine (keepsTree_body hopens hnested hat hhandle _).bind fun _ _ => ?_
    rw [Placed.closings, hf, hopens]
    refine keepsTree_of_changesFrom fun s hk => ?_
    exact changesFrom_closeClass c p.node path path (List.mem_singleton_self _) hk

/-- A module keeps a tree if the statements in its body do. -/
theorem keepsTree_moduleBody (hnested : ∀ q ∈ p.nested, q.KeepsTree source config)
    (hf : Form.ofNode p.node = .moduleBody) : p.KeepsTree source config := by
  intro c hat declared
  have hdeclared : p.declared = p.namespaces .moduleSpace := by
    rw [Placed.declared, hf]
  rw [walk_moduleBody c hf, Placed.events_eq, Placed.closings, hf, List.append_nil]
  refine KeepsTree.guarding (keepsTree_ofExcept_bind fun path hpath => ?_) c p.node .moduleBody
  have hopens := opens?_of_declaredPath hat (by rw [hf]; rfl) hpath
  refine keepsTree_opening (by decide) hdeclared hopens (fun s hk => ?_)
    (fun hp _ => eq_of_mayGive_openModule hp) fun handle hhandle => ?_
  · exact changesFrom_openModule c p.node (allowsPlaceholders_namespaces hopens _) hk
      ⟨_, Placed.mem_namespaces hopens _, rfl, rfl⟩
  · exact keepsTree_body hopens hnested hat hhandle _

/-- What stands inside a statement without a declaration of its own is behind it. -/
theorem keepsTree_inside {declared : List Declaration} (hdeclared : p.declared = [])
    (hclosings : p.closings = []) {a : Action Unit}
    (ha : Action.KeepsTree declared (p.nested.flatMap Placed.events) a) :
    Action.KeepsTree declared p.events a := by
  intro hfits r hr
  rw [Placed.events_eq, hclosings, List.append_nil] at hfits ⊢
  have hnone : (Event.statement p).declared = [] := hdeclared
  rw [AreCoherent, hnone, List.append_nil] at hfits
  rw [List.flatMap_cons, hnone, List.nil_append]
  exact ha hfits.2 r hr

/-- The body of the class itself keeps a tree if the statements in it do. -/
theorem keepsTree_singletonBody (hnested : ∀ q ∈ p.nested, q.KeepsTree source config)
    (hf : Form.ofNode p.node = .singletonBody) : p.KeepsTree source config := by
  intro c hat declared
  obtain ⟨hstatements, hinside⟩ := nested_of_singletonBody hf hat
  have hwalk := keepsTree_walkAll hnested hinside declared
  rw [hstatements] at hwalk
  rw [Site.statement_eq, Placed.node_site, hf]
  refine KeepsTree.guarding ?_ c p.node .singletonBody
  exact keepsTree_inside (by rw [Placed.declared, hf]) (by rw [Placed.closings, hf]) hwalk

/-- A visibility call keeps a tree if its arguments that are no names do. -/
theorem keepsTree_restriction (hnested : ∀ q ∈ p.nested, q.KeepsTree source config)
    {visibility : Visibility} (hf : Form.ofNode p.node = .restriction visibility) :
    p.KeepsTree source config := by
  intro c hat declared
  have hbody := nested_of_restriction hf
  have harguments : ∀ s ∈ p.node.argumentSites, Node.nameKinds.contains s.node.kind = false →
      ({ p with site := s } : Placed).KeepsTree source config := by
    intro s hs hname
    refine hnested _ ?_
    rw [hbody]
    exact List.mem_map_of_mem (List.mem_filter.mpr ⟨hs, by rw [hname]; rfl⟩)
  have hwalk := keepsTree_walkArguments p harguments c visibility (hat.with_visibility visibility)
    declared
  rw [← hbody] at hwalk
  rw [Site.statement_eq, Placed.node_site, hf]
  refine KeepsTree.guarding ?_ c p.node .visibility
  exact keepsTree_inside (by rw [Placed.declared, hf]) (by rw [Placed.closings, hf]) hwalk

/-- Documenting any statement keeps a tree, if its events are coherent. -/
theorem keepsTree (source : Source) (config : Config) (p : Placed) : p.KeepsTree source config := by
  induction p using Placed.induction_nested with
  | nested p hnested =>
    cases hf : Form.ofNode p.node with
    | classBody => exact keepsTree_classBody hnested hf
    | moduleBody => exact keepsTree_moduleBody hnested hf
    | singletonBody => exact keepsTree_singletonBody hnested hf
    | restriction visibility => exact keepsTree_restriction hnested hf
    | _ =>
      refine keepsTree_leaf ?_
      rw [hf]
      rfl

/-- Documenting a source keeps a tree, if the events of its tree are coherent. -/
theorem keepsTree_walkSource (config : Config) (source : Source) (declared : List Declaration) :
    Action.KeepsTree declared source.root.events (walkSource config source) := by
  have hat := isAt_topLevel source config
  have hwalk := keepsTree_walkAll (fun q _ => keepsTree source config q) hat declared
  rw [Node.topLevel, List.map_map] at hwalk
  exact hwalk

end Statements

end RubyDoc

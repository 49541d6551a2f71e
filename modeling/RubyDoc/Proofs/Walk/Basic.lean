import RubyDoc.Proofs.Walk.Step
import RubyDoc.Walk.Basic

/-!
# Walks are runs

Documenting a statement that is legible and well named succeeds, and what it does to
the records is a run of the events that are told from the tree. Faults of single
statements do not show here, because they are caught where the statement stands.
Without a namespace at the root nothing is claimed.
-/

namespace RubyDoc

open RubyDoc.Action ObjectPath Text

/-- What a statement is, the statements inside it in order. -/
theorem Site.statement_eq (s : Site) :
    s.statement =
      match Form.ofNode s.node with
      | .plain => .plain s
      | .illegible => .illegible s
      | .signature block => .signature s block
      | .keyword visibility => .keyword s visibility
      | .restriction visibility =>
        .restriction s visibility (s.node.argumentSites.map Site.statement)
      | .classBody => .classBody s (s.node.bodySites.map Site.statement)
      | .moduleBody => .moduleBody s (s.node.bodySites.map Site.statement)
      | .singletonBody => .singletonBody s (s.node.bodySites.map Site.statement)
      | .method => .method s
      | .accessors read write => .accessors s read write
      | .constant => .constant s
      | .enumValues block => .enumValues s block
      | .field isProp => .field s isProp := by
  rw [statement]
  cases Form.ofNode s.node <;> simp only [List.attach_map_val]

/-- A class is opened, its body is gone through, and it is closed. -/
theorem walk_classBody (c : Context) {p : Placed} (hf : Form.ofNode p.node = .classBody) :
    walk c p.site.statement = c.guarding p.node .classBody (do
      let path ← Action.ofExcept (declaredPath c p.node)
      let classPath ← openClass c p.node path
      let handle ← handleAt classPath
      walkAll (c.inside handle) (p.node.bodySites.map Site.statement)
      c.closeClass p.node path classPath) := by
  rw [Site.statement_eq, Placed.node_site, hf]
  dsimp only
  rw [walk, Placed.node_site]

/-- A module is opened and its body is gone through. -/
theorem walk_moduleBody (c : Context) {p : Placed} (hf : Form.ofNode p.node = .moduleBody) :
    walk c p.site.statement = c.guarding p.node .moduleBody (do
      let path ← Action.ofExcept (declaredPath c p.node)
      let modulePath ← openModule c p.node path
      let handle ← handleAt modulePath
      walkAll (c.inside handle) (p.node.bodySites.map Site.statement)) := by
  rw [Site.statement_eq, Placed.node_site, hf]
  dsimp only
  rw [walk, Placed.node_site]

/-- A statement that is legible, and whose name, if it opens or assigns something,
resolves to a path. -/
structure Placed.IsSound (p : Placed) : Prop where
  /-- No text in it cuts a character. -/
  legible : p.node.IsLegible
  /-- A class or module has a path, not empty, without the separator at the front. -/
  named : p.opensNamespace = true →
    ∃ path, p.opens? = some path ∧ path ≠ "" ∧ beginsWith "::" path = false
  /-- Nothing is declared at the empty path. -/
  declared : ∀ d ∈ p.declared, d.path ≠ ""

/-- A context in which a statement is read. -/
structure Context.IsAt (c : Context) (source : Source) (config : Config) (p : Placed) : Prop where
  /-- It is one of the source. -/
  source : c.source = source
  /-- It has the settings of the run. -/
  config : c.config = config
  /-- It is in the namespace of the statement. -/
  home : c.home.path = p.home
  /-- It has the scope of the statement. -/
  scope : c.scope = p.scope

/-- Whether documenting a statement succeeds as a run of its events. -/
def Placed.IsFollowed (source : Source) (config : Config) (p : Placed) : Prop :=
  ∀ c : Context, c.IsAt source config p → ∀ r : Records, r.store.IsKeyed →
    r.store.shapeAt "" = some .namespace →
      ∃ r', runOn (walk c p.site.statement) r = (.ok (), r') ∧
        Runs source config p.events r r' ∧ r'.store.IsKeyed ∧
          r'.store.shapeAt "" = some .namespace

/-- A guarded action comes to an end without a fault. -/
theorem Action.exists_runOn_guarded (channel : Channel) (message : String) (action : Action Unit)
    (r : Records) : ∃ r', runOn (guarded channel message action) r = (.ok (), r') := by
  rw [runOn_guarded]
  cases runOn action r with
  | mk result r' =>
    cases result with
    | ok _ => exact ⟨r', rfl⟩
    | error fault => exact ⟨_, rfl⟩

/-- Only a statement that cannot be told ends in a fault. -/
theorem exists_runOn_walk (c : Context) {s : Statement} (h : ∀ site, s ≠ .illegible site)
    (r : Records) : ∃ r', runOn (walk c s) r = (.ok (), r') := by
  cases s with
  | plain site =>
    rw [walk]
    exact ⟨r, rfl⟩
  | keyword site visibility =>
    rw [walk]
    exact ⟨r, rfl⟩
  | illegible site => exact absurd rfl (h site)
  | signature | restriction | classBody | moduleBody | singletonBody | method | accessors |
    constant | enumValues | field =>
    rw [walk]
    exact exists_runOn_guarded _ _ _ r

/-- The statement at a legible node can be told. -/
theorem Site.statement_ne_illegible {s : Site} (h : s.node.IsLegible) (site : Site) :
    s.statement ≠ .illegible site := by
  have hform := Form.ofNode_ne_illegible h
  rw [statement_eq]
  cases hf : Form.ofNode s.node with
  | illegible => exact absurd hf hform
  | _ => exact Statement.noConfusion

section Leaf

variable {source : Source} {config : Config} {p : Placed}

/-- A guarded action always succeeds; its fault is logged. -/
theorem runOn_guarding (c : Context) (n : Node) (rule : Rule) (a : Action Unit) (r : Records) :
    ∃ r', runOn (c.guarding n rule a) r = (.ok (), r') ∧
      ∀ (declared : List Declaration) (r₀ : Records),
        r₀.ChangedBy declared (runOn a r).2 → r₀.ChangedBy declared r' := by
  rw [Context.guarding, runOn_guarded]
  cases h : runOn a r with
  | mk result r' =>
    cases result with
    | ok _ => exact ⟨r', rfl, fun _ _ hc => hc⟩
    | error fault => exact ⟨_, rfl, fun _ _ hc => ⟨hc.store, hc.fields, hc.overridden⟩⟩

/-- A guarded action that succeeds is that action. -/
theorem runOn_guarding_ok {c : Context} {a : Action Unit} {r r' : Records}
    (h : runOn a r = (.ok (), r')) (n : Node) (rule : Rule) :
    runOn (c.guarding n rule a) r = (.ok (), r') := by
  rw [Context.guarding, runOn_guarded, h]

/-- A statement without statements inside it is followed if its rule takes its step. -/
theorem isFollowed_of_leaf (hp : p.IsSound) (hnested : p.nested = []) (hclosings : p.closings = [])
    (hwalk : ∀ c : Context, c.IsAt source config p → ∀ r : Records, r.store.IsKeyed →
      ∃ r', runOn (walk c p.site.statement) r = (.ok (), r') ∧
        Step source config (.statement p) r r') : p.IsFollowed source config := by
  intro c hc r hk hroot
  obtain ⟨r', hrun, hstep⟩ := hwalk c hc r hk
  have hchanged := hstep
  rw [Step] at hchanged
  refine ⟨r', hrun, ?_, hchanged.store.isKeyed, ?_⟩
  · rw [Placed.events_eq, hnested, hclosings]
    exact .single hk hstep hchanged.store.isKeyed
  · rw [hchanged.store.shape "" hp.declared]
    exact hroot

/-- A statement that declares no field leaves the fields as they are. -/
theorem fieldsAfter_eq (hp : p.node.IsLegible) (h : (Form.ofNode p.node).isField = false)
    (r : Records) : p.fieldsAfter source config r = r.fields := by
  rw [Placed.fieldsAfter, Node.fieldCall?_eq hp, Node.fieldOf_of_isField _ h]

/-- A statement that is no signature gives no docstring to a node. -/
theorem overridesAfter_eq (h : (Form.ofNode p.node).isSignature = false)
    (overridden : List (NodeKey × String)) : p.overridesAfter source overridden = overridden := by
  rw [Placed.overridesAfter]
  split
  · next block hf =>
    rw [hf] at h
    cases h
  · rfl

/-- A statement that is no field and no signature takes its step by what it declares. -/
theorem step_of_changedBy (hp : p.node.IsLegible) (hfield : (Form.ofNode p.node).isField = false)
    (hsignature : (Form.ofNode p.node).isSignature = false) {r r' : Records}
    (h : r.ChangedBy p.declared r') : Step source config (.statement p) r r' := by
  rw [Step, fieldsAfter_eq hp hfield, overridesAfter_eq hsignature]
  exact h

/-- A rule that declares no more than its statement takes the step of the statement. -/
theorem exists_step_of_declares (hp : p.node.IsLegible)
    (hfield : (Form.ofNode p.node).isField = false)
    (hsignature : (Form.ofNode p.node).isSignature = false) {c : Context} {rule : Rule}
    {a : Action Unit} (ha : Declares p.declared a) {r : Records} (hk : r.store.IsKeyed) :
    ∃ r', runOn (c.guarding p.node rule a) r = (.ok (), r') ∧
      Step source config (.statement p) r r' := by
  obtain ⟨r', hrun, hkeep⟩ := runOn_guarding c p.node rule a r
  exact ⟨r', hrun, step_of_changedBy hp hfield hsignature (hkeep _ _ (ha r hk))⟩

/-- A statement with nothing inside it is followed. -/
theorem isFollowed_of_empty (hp : p.IsSound) (hc : source.HasLegibleComments)
    (hnested : p.nested = []) (hclosings : p.closings = [])
    (hbody : (Form.ofNode p.node).hasBody = false) : p.IsFollowed source config := by
  refine isFollowed_of_leaf hp hnested hclosings fun c hat r hk => ?_
  have hlegible := hp.legible
  have hhome := hat.home
  have hscope := hat.scope
  rw [Site.statement_eq, Placed.node_site]
  cases hf : Form.ofNode p.node with
  | classBody | moduleBody | singletonBody | restriction =>
    rw [hf] at hbody
    cases hbody
  | illegible => exact absurd hf (Form.ofNode_ne_illegible hlegible)
  | plain =>
    exact ⟨r, rfl, step_of_changedBy hlegible (by rw [hf]; rfl) (by rw [hf]; rfl) (.refl hk)⟩
  | keyword visibility =>
    exact ⟨r, rfl, step_of_changedBy hlegible (by rw [hf]; rfl) (by rw [hf]; rfl) (.refl hk)⟩
  | signature block =>
    obtain ⟨r', hrun, hkeep⟩ :=
      runOn_guarding c p.node .signature (processSignature c p.site block) r
    refine ⟨r', hrun, ?_⟩
    rw [Step, fieldsAfter_eq hlegible (by rw [hf]; rfl), Placed.overridesAfter, hf, ← hat.source]
    exact hkeep _ _ (processSignature_spec (hat.source ▸ hc) p.site block hk)
  | method =>
    have hdeclares : Declares p.declared (processMethod c p.node) := by
      refine declares_processMethod c p.node fun m hm => ?_
      rw [Placed.declared, hf, hhome]
      rw [hscope] at hm
      exact List.mem_map.mpr ⟨m, Option.mem_toList.mpr hm, rfl⟩
    exact exists_step_of_declares hlegible (by rw [hf]; rfl) (by rw [hf]; rfl) hdeclares hk
  | accessors read write =>
    have hdeclares : Declares p.declared (processAccessors c p.node read write) := by
      refine declares_processAccessors c p.node read write fun m hm => ?_
      rw [Placed.declared, hf, hhome, hscope]
      exact List.mem_map.mpr ⟨m, hm, rfl⟩
    exact exists_step_of_declares hlegible (by rw [hf]; rfl) (by rw [hf]; rfl) hdeclares hk
  | constant =>
    have hdeclares : Declares p.declared (processConstant c p.node) := by
      refine declares_processConstant c p.node fun d hd => ?_
      rw [Placed.declared, hf]
      rwa [hhome] at hd
    exact exists_step_of_declares hlegible (by rw [hf]; rfl) (by rw [hf]; rfl) hdeclares hk
  | enumValues block =>
    have hdeclares : Declares p.declared (processEnum c block) := by
      refine declares_processEnum c block fun d hd => ?_
      rw [Placed.declared, hf]
      rwa [hhome] at hd
    exact exists_step_of_declares hlegible (by rw [hf]; rfl) (by rw [hf]; rfl) hdeclares hk
  | field isProp =>
    obtain ⟨r', hrun, hkeep⟩ := runOn_guarding c p.node .field (processField c p.node isProp) r
    refine ⟨r', hrun, ?_⟩
    have hfields : p.fieldsAfter source config r = c.fieldsAfter p.node isProp r := by
      rw [Placed.fieldsAfter, Node.fieldCall?_eq hlegible, hf, Node.fieldOf, Context.fieldsAfter, hhome,
        hat.source, hat.config]
      cases p.node.usableName? <;> rfl
    rw [Step, Placed.overridesAfter, hf, hfields]
    refine hkeep _ _ (processField_spec hlegible (hat.source ▸ hc) isProp (fun name hname => ?_) hk)
    rw [Placed.declared, hf, hhome, hscope]
    exact List.mem_map.mpr ⟨name, Option.mem_toList.mpr hname, rfl⟩

end Leaf

/-! ### Bodies -/

theorem Site.node_statement (s : Site) : s.statement.node = s.node := by
  rw [statement_eq]
  cases Form.ofNode s.node <;> rfl

namespace Context.IsAt

variable {source : Source} {config : Config} {c : Context} {p : Placed}

/-- The visibility in force does not matter for where a statement is read. -/
theorem with_visibility (h : c.IsAt source config p) (visibility : Visibility) :
    ({ c with visibility } : Context).IsAt source config p :=
  ⟨h.source, h.config, h.home, h.scope⟩

end Context.IsAt

/-- Giving a method another visibility always succeeds, and declares nothing. -/
theorem setVisibility_ok (c : Context) (name : String) (visibility : Visibility) {r : Records}
    (hk : r.store.IsKeyed) :
    ∃ r', runOn (setVisibility c name visibility) r = (.ok (), r') ∧ r.ChangedBy [] r' := by
  have hquiet : r.ChangedBy [] (runOn (setVisibility c name visibility) r).2 :=
    declares_setVisibility c name visibility r hk
  have hrun : (runOn (setVisibility c name visibility) r).1 = .ok () := by
    unfold setVisibility
    rw [runOn_bind_ok (runOn_inStore _ r)]
    split <;> rfl
  exact ⟨_, Prod.ext hrun rfl, hquiet⟩

section Bodies

variable {source : Source} {config : Config}

/-- The statements at the top level of a source are read in the context that it begins with. -/
theorem isAt_topLevel (source : Source) (config : Config) : ∀ q ∈ source.root.topLevel,
    ({ source, config, home := Store.rootHandle } : Context).IsAt source config q := by
  intro q hq
  obtain ⟨s, -, rfl⟩ := List.mem_map.mp hq
  exact ⟨rfl, rfl, rfl, rfl⟩

/-- The statements in the body of a class or module, and where they are read. -/
theorem nested_of_opens {p : Placed} {path : String} (hopens : p.opens? = some path) {c : Context}
    (hat : c.IsAt source config p) {handle : Handle} (hhandle : handle.path = path) :
    (p.nested.map fun q => q.site.statement) = p.node.bodySites.map Site.statement ∧
      ∀ q ∈ p.nested, (c.inside handle).IsAt source config q := by
  have hbody : p.nested = p.node.bodySites.map fun s => { home := path, site := s } := by
    rw [Placed.nested, hopens]
  rw [hbody, List.map_map]
  refine ⟨rfl, fun q hq => ?_⟩
  obtain ⟨s, -, rfl⟩ := List.mem_map.mp hq
  exact ⟨hat.source, hat.config, hhandle, rfl⟩

/-- The statements in the body of the class itself, and where they are read. -/
theorem nested_of_singletonBody {p : Placed} (hf : Form.ofNode p.node = .singletonBody) {c : Context}
    (hat : c.IsAt source config p) :
    (p.nested.map fun q => q.site.statement) = p.node.bodySites.map Site.statement ∧
      ∀ q ∈ p.nested, (c.inside c.home .onClass).IsAt source config q := by
  have hbody : p.nested = p.node.bodySites.map fun s => { p with scope := .onClass, site := s } := by
    rw [p.nested_eq (by rw [hf]; exact Form.noConfusion), hf, Placed.inside]
  rw [hbody, List.map_map]
  refine ⟨rfl, fun q hq => ?_⟩
  obtain ⟨s, -, rfl⟩ := List.mem_map.mp hq
  exact ⟨hat.source, hat.config, hat.home, rfl⟩

/-- Inside a visibility call stand its arguments that are no names. -/
theorem nested_of_restriction {p : Placed} {visibility : Visibility}
    (hf : Form.ofNode p.node = .restriction visibility) :
    p.nested = (p.node.argumentSites.filter fun s => !Node.nameKinds.contains s.node.kind).map
      fun s => { p with site := s } := by
  rw [p.nested_eq (by rw [hf]; exact Form.noConfusion), hf, Placed.inside]

/-- The statements of a body are followed one after the other. -/
theorem walkAll_followed {qs : List Placed} (hq : ∀ q ∈ qs, q.IsFollowed source config)
    {c : Context} (hc : ∀ q ∈ qs, c.IsAt source config q) {r : Records} (hk : r.store.IsKeyed)
    (hroot : r.store.shapeAt "" = some .namespace) :
    ∃ r', runOn (walkAll c (qs.map fun q => q.site.statement)) r = (.ok (), r') ∧
      Runs source config (qs.flatMap Placed.events) r r' ∧ r'.store.IsKeyed ∧
        r'.store.shapeAt "" = some .namespace := by
  induction qs generalizing c r with
  | nil => exact ⟨r, rfl, .done (.refl hk), hk, hroot⟩
  | cons q qs ih =>
    obtain ⟨r₁, hrun, hruns, hk₁, hroot₁⟩ :=
      hq q List.mem_cons_self c (hc q List.mem_cons_self) r hk hroot
    obtain ⟨r₂, hrest, hruns', hk₂, hroot₂⟩ :=
      ih (fun p hp => hq p (List.mem_cons_of_mem _ hp))
        (fun p hp => (hc p (List.mem_cons_of_mem _ hp)).with_visibility
          (q.site.statement.visibilityAfter c.visibility)) hk₁ hroot₁
    refine ⟨r₂, ?_, ?_, hk₂, hroot₂⟩
    · rw [List.map_cons, walkAll, runOn_bind_ok hrun, hrest]
    · rw [List.flatMap_cons]
      exact hruns.append hruns'

/-- The arguments of a visibility call are followed, the names among them being no
statements. -/
theorem walkArguments_followed (p : Placed) {args : List Site}
    (hlegible : ∀ s ∈ args, s.node.IsLegible)
    (hq : ∀ s ∈ args, Node.nameKinds.contains s.node.kind = false →
      ({ p with site := s } : Placed).IsFollowed source config)
    (c : Context) (visibility : Visibility) {inner : Context} (hinner : inner.IsAt source config p)
    {r : Records} (hk : r.store.IsKeyed) (hroot : r.store.shapeAt "" = some .namespace) :
    ∃ r', runOn (walkArguments c visibility inner (args.map Site.statement)) r = (.ok (), r') ∧
      Runs source config
        (((args.filter fun s => !Node.nameKinds.contains s.node.kind).map fun s =>
          ({ p with site := s } : Placed)).flatMap Placed.events) r r' ∧
      r'.store.IsKeyed ∧ r'.store.shapeAt "" = some .namespace := by
  induction args generalizing inner r with
  | nil => exact ⟨r, rfl, .done (.refl hk), hk, hroot⟩
  | cons s args ih =>
    have htail := fun (r : Records) (hk : r.store.IsKeyed) hroot =>
      ih (fun t ht => hlegible t (List.mem_cons_of_mem _ ht))
        (fun t ht => hq t (List.mem_cons_of_mem _ ht))
        (hinner.with_visibility (s.statement.visibilityAfter inner.visibility)) hk hroot
    rw [List.map_cons, walkArguments, Site.node_statement, List.filter_cons]
    dsimp only
    cases hname : Node.nameKinds.contains s.node.kind with
    | true =>
      obtain ⟨name, hsymbol⟩ := (hlegible s List.mem_cons_self).symbolName_ok
      obtain ⟨r₁, hrun, hquiet⟩ := setVisibility_ok c name visibility hk
      have hroot₁ : r₁.store.shapeAt "" = some .namespace := by
        rw [hquiet.store.shape "" (by simp)]
        exact hroot
      obtain ⟨r₂, hrest, hruns, hk₂, hroot₂⟩ := htail r₁ hquiet.store.isKeyed hroot₁
      refine ⟨r₂, ?_, ?_, hk₂, hroot₂⟩
      · rw [if_pos rfl, hsymbol, runOn_bind_ok (runOn_ofExcept _ r), runOn_bind_ok hrun]
        exact hrest
      · exact hruns.after hquiet
    | false =>
      obtain ⟨r₁, hrun, hruns, hk₁, hroot₁⟩ :=
        hq s List.mem_cons_self hname inner ⟨hinner.source, hinner.config, hinner.home, hinner.scope⟩
          r hk hroot
      obtain ⟨r₂, hrest, hruns', hk₂, hroot₂⟩ := htail r₁ hk₁ hroot₁
      refine ⟨r₂, ?_, ?_, hk₂, hroot₂⟩
      · rw [if_neg Bool.false_ne_true, runOn_bind_ok hrun]
        exact hrest
      · rw [Bool.not_false, if_pos rfl, List.map_cons, List.flatMap_cons]
        exact hruns.append hruns'

variable {p : Placed}

/-- The path of a legible class or module is read. -/
theorem declaredPath_eq (hp : p.node.IsLegible) {path : String} (hopens : p.opens? = some path)
    {c : Context} (hat : c.IsAt source config p) : declaredPath c p.node = .ok path := by
  obtain ⟨name, hname, hpath⟩ := Placed.exists_of_opens? hopens
  rw [declaredPath, hname]
  dsimp only
  rw [(hp.of_child? hname).legible_eq, ← hpath, hat.home]
  rfl

/-- Opening a class or module takes the step of its statement, and keeps the root. -/
theorem step_of_opening (source : Source) (config : Config) (hp : p.IsSound)
    {kind : DeclaredKind} (hkind : kind ≠ .method)
    (hf : Form.ofNode p.node = .classBody ∨ Form.ofNode p.node = .moduleBody)
    (hdeclared : p.declared = p.namespaces kind) {path : String} (hopens : p.opens? = some path)
    {opening : Action String}
    (hdeclares : ∀ declared : List Declaration, (∃ d ∈ declared, d.path = path ∧ d.kind ≠ .method) →
      DeclaresLineage declared (split path).1 → Declares declared opening)
    {r r₁ : Records} (hopening : runOn opening r = (.ok path, r₁)) (hk : r.store.IsKeyed)
    (hroot : r.store.shapeAt "" = some .namespace) :
    Step source config (.statement p) r r₁ ∧ r₁.store.IsKeyed ∧
      r₁.store.shapeAt "" = some .namespace := by
  have hchanged : r.ChangedBy p.declared r₁ := by
    rw [hdeclared]
    have hafter := hdeclares (p.namespaces kind)
      ⟨_, Placed.mem_namespaces hopens kind, rfl, hkind⟩
      (Placed.declaresLineage_namespaces hopens kind) r hk
    rwa [hopening] at hafter
  have hfield : (Form.ofNode p.node).isField = false := by
    rcases hf with hf | hf <;> rw [hf] <;> rfl
  have hsignature : (Form.ofNode p.node).isSignature = false := by
    rcases hf with hf | hf <;> rw [hf] <;> rfl
  refine ⟨step_of_changedBy hp.legible hfield hsignature hchanged, hchanged.store.isKeyed, ?_⟩
  rw [hchanged.store.shape "" hp.declared]
  exact hroot

/-- The body of a class or module is followed under its path. -/
theorem body_followed {path : String} (hopens : p.opens? = some path)
    (hnested : ∀ q ∈ p.nested, q.IsFollowed source config)
    {c : Context} (hat : c.IsAt source config p) {handle : Handle} (hhandle : handle.path = path)
    {r : Records} (hk : r.store.IsKeyed) (hroot : r.store.shapeAt "" = some .namespace) :
    ∃ r', runOn (walkAll (c.inside handle) (p.node.bodySites.map Site.statement)) r = (.ok (), r') ∧
      Runs source config (p.nested.flatMap Placed.events) r r' ∧ r'.store.IsKeyed ∧
        r'.store.shapeAt "" = some .namespace := by
  obtain ⟨hstatements, hinside⟩ := nested_of_opens hopens hat hhandle
  rw [← hstatements]
  exact walkAll_followed hnested hinside hk hroot

section Inside

variable (hp : p.IsSound) (hc : source.HasLegibleComments)
  (hnested : ∀ q ∈ p.nested, q.IsFollowed source config)

include hp hc hnested

/-- A class is followed if the statements in its body are. -/
theorem isFollowed_classBody (hf : Form.ofNode p.node = .classBody) :
    p.IsFollowed source config := by
  obtain ⟨path, hopens, hne, hsep⟩ := hp.named (Form.kind_of_opensSpace (by rw [hf]; rfl))
  intro c hat r hk hroot
  obtain ⟨r₁, hopen⟩ := openClass_ok (c := c) hsep hp.legible (hat.source ▸ hc) hroot
  have hdeclared : p.declared = p.namespaces .classSpace := by
    rw [Placed.declared, hf]
  obtain ⟨hstep, hk₁, hroot₁⟩ := step_of_opening source config hp DeclaredKind.noConfusion (.inl hf)
    hdeclared hopens (fun _ hd hl => declares_openClass c p.node hsep hd hl) hopen hk hroot
  obtain ⟨handle, hhandle, hat₁⟩ := runOn_handleAt path r₁
  obtain ⟨r₂, hwalk, hruns, hk₂, hroot₂⟩ :=
    body_followed hopens hnested hat hhandle hk₁ hroot₁
  obtain ⟨r₃, hclose, hclosed⟩ := closeClass_ok c p.node path path hk₂
  refine ⟨r₃, ?_, ?_, hclosed.store.isKeyed, ?_⟩
  · rw [walk_classBody c hf]
    refine runOn_guarding_ok ?_ _ _
    rw [declaredPath_eq hp.legible hopens hat, runOn_bind_ok (runOn_ofExcept _ r),
      runOn_bind_ok hopen, runOn_bind_ok hat₁, runOn_bind_ok hwalk]
    exact hclose
  · rw [Placed.events_eq, Placed.closings, hf, hopens]
    exact .next (.refl hk) hstep (hruns.append (.single hk₂ hclosed hclosed.store.isKeyed))
  · rw [hclosed.store.shape "" ?_]
    · exact hroot₂
    · intro d hd
      rw [List.mem_singleton.mp hd]
      exact Entity.path_newMethod_ne path constructorName .onInstances

/-- A module is followed if the statements in its body are. -/
theorem isFollowed_moduleBody (hf : Form.ofNode p.node = .moduleBody) :
    p.IsFollowed source config := by
  obtain ⟨path, hopens, hne, hsep⟩ := hp.named (Form.kind_of_opensSpace (by rw [hf]; rfl))
  intro c hat r hk hroot
  obtain ⟨r₁, hopen⟩ := openModule_ok (c := c) (n := p.node) hsep (hat.source ▸ hc) hroot
  have hdeclared : p.declared = p.namespaces .moduleSpace := by
    rw [Placed.declared, hf]
  obtain ⟨hstep, hk₁, hroot₁⟩ := step_of_opening source config hp DeclaredKind.noConfusion (.inr hf)
    hdeclared hopens (fun _ hd hl => declares_openModule c p.node hsep hd hl) hopen hk hroot
  obtain ⟨handle, hhandle, hat₁⟩ := runOn_handleAt path r₁
  obtain ⟨r₂, hwalk, hruns, hk₂, hroot₂⟩ :=
    body_followed hopens hnested hat hhandle hk₁ hroot₁
  refine ⟨r₂, ?_, ?_, hk₂, hroot₂⟩
  · rw [walk_moduleBody c hf]
    refine runOn_guarding_ok ?_ _ _
    rw [declaredPath_eq hp.legible hopens hat, runOn_bind_ok (runOn_ofExcept _ r),
      runOn_bind_ok hopen, runOn_bind_ok hat₁]
    exact hwalk
  · rw [Placed.events_eq, Placed.closings, hf, List.append_nil]
    exact .next (.refl hk) hstep hruns

omit hc in
/-- The body of the class itself is followed if the statements in it are. -/
theorem isFollowed_singletonBody (hf : Form.ofNode p.node = .singletonBody) :
    p.IsFollowed source config := by
  intro c hat r hk hroot
  obtain ⟨hstatements, hinside⟩ := nested_of_singletonBody hf hat
  obtain ⟨r', hwalk, hruns, hk', hroot'⟩ := walkAll_followed hnested hinside hk hroot
  have hstep : Step source config (.statement p) r r :=
    step_of_changedBy hp.legible (by rw [hf]; rfl) (by rw [hf]; rfl) (.refl hk)
  refine ⟨r', ?_, ?_, hk', hroot'⟩
  · rw [Site.statement_eq, Placed.node_site, hf]
    rw [hstatements] at hwalk
    exact runOn_guarding_ok hwalk p.node _
  · rw [Placed.events_eq, Placed.closings, hf, List.append_nil]
    exact .next (.refl hk) hstep hruns

omit hc in
/-- A visibility call is followed if its arguments that are no names are. -/
theorem isFollowed_restriction {visibility : Visibility}
    (hf : Form.ofNode p.node = .restriction visibility) : p.IsFollowed source config := by
  intro c hat r hk hroot
  have hbody := nested_of_restriction hf
  obtain ⟨r', hwalk, hruns, hk', hroot'⟩ := walkArguments_followed p
    (fun s hs => hp.legible.of_mem_argumentSites hs)
    (fun s hs hname => hnested _ (by
      rw [hbody]
      exact List.mem_map_of_mem (List.mem_filter.mpr ⟨hs, by rw [hname]; rfl⟩)))
    c visibility (hat.with_visibility visibility) hk hroot
  have hstep : Step source config (.statement p) r r :=
    step_of_changedBy hp.legible (by rw [hf]; rfl) (by rw [hf]; rfl) (.refl hk)
  refine ⟨r', ?_, ?_, hk', hroot'⟩
  · rw [Site.statement_eq, Placed.node_site, hf]
    exact runOn_guarding_ok hwalk p.node _
  · rw [Placed.events_eq, Placed.closings, hf, List.append_nil, hbody]
    exact .next (.refl hk) hstep hruns

end Inside

/-- Documenting a statement succeeds as a run of its events, if it and all statements
inside it are sound. -/
theorem isFollowed (hc : source.HasLegibleComments) (h : ∀ q ∈ p.statements, q.IsSound) :
    p.IsFollowed source config := by
  induction p using Placed.induction_nested with
  | nested p ih =>
    rw [Placed.statements_eq, List.forall_mem_cons] at h
    obtain ⟨hp, hinside⟩ := h
    have hnested : ∀ q ∈ p.nested, q.IsFollowed source config := fun q hq =>
      ih q hq fun x hx => hinside x (List.mem_flatMap.mpr ⟨q, hq, hx⟩)
    cases hf : Form.ofNode p.node with
    | classBody => exact isFollowed_classBody hp hc hnested hf
    | moduleBody => exact isFollowed_moduleBody hp hc hnested hf
    | singletonBody => exact isFollowed_singletonBody hp hnested hf
    | restriction visibility => exact isFollowed_restriction hp hnested hf
    | _ =>
      refine isFollowed_of_empty hp hc ?_ ?_ ?_
      · rw [p.nested_eq (Form.ofNode_ne_illegible hp.legible), hf]
        rfl
      · rw [Placed.closings, hf]
      · rw [hf]
        rfl

end Bodies

end RubyDoc

import RubyDoc.Proofs.Walk.Coherent
import RubyDoc.Proofs.Walk.Documentable

/-!
# Accounts of walks

An account says something of actions and of the statements that they read, such as which
changes of the store they come to. It is settled by what it says of each rule, of opening
and closing a class or module, and of one action after another. Then it says the same of the
walk of any statement and of all that is inside it, however deep.

Which statements an account covers is left to it, and so is which handles their bodies may
be read under. Nothing else is assumed of a source.
-/

namespace RubyDoc

open RubyDoc.Action Text

/-- What is said of the actions of a walk. -/
structure Account (source : Source) (config : Config) where
  /-- The statements that it is about. -/
  Covers : Placed → Prop
  /-- The handles that statements may be read under. -/
  Fits : Handle → Prop
  /-- What is said of an action that reads some statements. -/
  Holds : {α : Type} → List Placed → Action α → Prop
  /-- What is inside a statement is covered. -/
  covers_nested {p q : Placed} : Covers p → q ∈ p.nested → Covers q
  /-- A class or module is opened under a path without the separator at the front. -/
  anchored {p : Placed} {path : String} : Covers p → p.opens? = some path →
    beginsWith "::" path = false
  /-- Nothing may be done. -/
  pure {α : Type} (x : α) : Holds [] (pure x)
  /-- One action may follow another. -/
  bind {α β : Type} {ps qs : List Placed} {a : Action α} {f : α → Action β} :
    Holds ps a → (∀ x, MayGive a x → Holds qs (f x)) → Holds (ps ++ qs) (a >>= f)
  /-- A fault may be caught. -/
  guarded {ps : List Placed} {a : Action Unit} (channel : Channel) (message : String) :
    Holds ps a → Holds ps (guarded channel message a)
  /-- A statement with nothing inside it. -/
  leaf {p : Placed} {c : Context} : Covers p → c.IsAt source config p → Fits c.home →
    (Form.ofNode p.node).hasBody = false → Holds p.statements (walk c p.site.statement)
  /-- A class or module that has no path. -/
  nameless {p : Placed} {c : Context} {fault : Fault} (channel : Channel) (message : String) :
    Covers p → (Form.ofNode p.node).opensSpace = true → declaredPath c p.node = .error fault →
    Holds p.statements (Action.guarded channel message (throw fault))
  /-- A class is opened. -/
  openingClass {p : Placed} {c : Context} {path : String} : Covers p → c.IsAt source config p →
    Form.ofNode p.node = .classBody → p.opens? = some path → Holds [p] (openClass c p.node path)
  /-- A module is opened. -/
  openingModule {p : Placed} {c : Context} {path : String} : Covers p → c.IsAt source config p →
    Form.ofNode p.node = .moduleBody → p.opens? = some path → Holds [p] (openModule c p.node path)
  /-- A body is read under the handle of what was opened. -/
  entering {α : Type} {ps : List Placed} {path : String} {f : Handle → Action α} :
    (∀ handle : Handle, handle.path = path → Fits handle → Holds ps (f handle)) →
      Holds ps (handleAt path >>= f)
  /-- A class is closed. -/
  closing {p : Placed} {c : Context} {path : String} : Covers p →
    Form.ofNode p.node = .classBody → p.opens? = some path →
    Holds [] (c.closeClass p.node path path)
  /-- A body in the namespace around it, or a visibility call. -/
  inside {p : Placed} {ps : List Placed} {a : Action Unit} : Covers p →
    (Form.ofNode p.node).hasBody = true → (Form.ofNode p.node).opensSpace = false →
    Holds ps a → Holds (p :: ps) a
  /-- A name among the arguments of a visibility call. -/
  name {p : Placed} {c : Context} {site : Site} (visibility : Visibility) : Covers p →
    site ∈ p.node.argumentSites →
    Holds [] (Action.ofExcept site.node.symbolName >>= fun name => setVisibility c name visibility)

namespace Account

variable {source : Source} {config : Config} (account : Account source config) {p : Placed}

/-- Whether an account holds of the walk of a statement, wherever it may be read. -/
def HoldsOf (p : Placed) : Prop :=
  account.Covers p → ∀ c : Context, c.IsAt source config p → account.Fits c.home →
    account.Holds p.statements (walk c p.site.statement)

variable {account}

/-- The statements of a body are gone through one after the other. -/
theorem holds_walkAll {qs : List Placed} (hq : ∀ q ∈ qs, account.HoldsOf q)
    (hcovers : ∀ q ∈ qs, account.Covers q) {c : Context} (hc : ∀ q ∈ qs, c.IsAt source config q)
    (hfits : account.Fits c.home) :
    account.Holds (qs.flatMap Placed.statements)
      (walkAll c (qs.map fun q => q.site.statement)) := by
  induction qs generalizing c with
  | nil => exact account.pure ()
  | cons q qs ih =>
    rw [List.forall_mem_cons] at hq hcovers hc
    rw [List.map_cons, walkAll, List.flatMap_cons]
    refine account.bind (hq.1 hcovers.1 c hc.1 hfits) fun _ _ => ?_
    exact ih hq.2 hcovers.2 (fun x hx => (hc.2 x hx).with_visibility _) hfits

/-- The arguments of a visibility call are gone through, the names among them being no
statements. -/
theorem holds_walkArguments (hp : account.Covers p) {args : List Site}
    (hargs : ∀ s ∈ args, s ∈ p.node.argumentSites)
    (hq : ∀ s ∈ args, Node.nameKinds.contains s.node.kind = false →
      account.HoldsOf { p with site := s } ∧ account.Covers { p with site := s })
    (c : Context) (visibility : Visibility) {inner : Context} (hinner : inner.IsAt source config p)
    (hfits : account.Fits inner.home) :
    account.Holds
      (((args.filter fun s => !Node.nameKinds.contains s.node.kind).map fun s =>
        ({ p with site := s } : Placed)).flatMap Placed.statements)
      (walkArguments c visibility inner (args.map Site.statement)) := by
  induction args generalizing inner with
  | nil => exact account.pure ()
  | cons s args ih =>
    rw [List.forall_mem_cons] at hargs hq
    have hrest := ih hargs.2 hq.2
      (hinner.with_visibility (s.statement.visibilityAfter inner.visibility)) hfits
    rw [List.map_cons, walkArguments, Site.node_statement, List.filter_cons]
    dsimp only
    cases hname : Node.nameKinds.contains s.node.kind with
    | true =>
      rw [if_pos rfl, Bool.not_true, if_neg Bool.false_ne_true]
      have hboth := account.bind (account.name (c := c) visibility hp hargs.1) fun _ _ => hrest
      rwa [bind_assoc] at hboth
    | false =>
      rw [if_neg Bool.false_ne_true, Bool.not_false, if_pos rfl, List.map_cons, List.flatMap_cons]
      obtain ⟨hholds, hcovers⟩ := hq.1 hname
      refine account.bind ?_ fun _ _ => hrest
      exact hholds hcovers inner ⟨hinner.source, hinner.config, hinner.home, hinner.scope⟩ hfits

section Nested

variable (hnested : ∀ q ∈ p.nested, account.HoldsOf q)

include hnested

/-- The body of a class or module is gone through under its handle. -/
theorem holds_body (hp : account.Covers p) {path : String} (hopens : p.opens? = some path)
    {c : Context} (hat : c.IsAt source config p) {g : Action Unit} (hg : account.Holds [] g) :
    account.Holds (p.nested.flatMap Placed.statements)
      (handleAt path >>= fun handle =>
        walkAll (c.inside handle) (p.node.bodySites.map Site.statement) >>= fun _ => g) := by
  refine account.entering fun handle hhandle hfits => ?_
  obtain ⟨hstatements, hinside⟩ := nested_of_opens hopens hat hhandle
  rw [← hstatements, ← List.append_nil (p.nested.flatMap Placed.statements)]
  refine account.bind ?_ fun _ _ => hg
  exact holds_walkAll hnested (fun q hq => account.covers_nested hp hq) hinside hfits

/-- A class is opened, gone through and closed. -/
theorem holdsOf_classBody (hf : Form.ofNode p.node = .classBody) : account.HoldsOf p := by
  intro hp c hat hfits
  rw [walk_classBody c hf]
  cases hpath : declaredPath c p.node with
  | error fault => exact account.nameless _ _ hp (by rw [hf]; rfl) hpath
  | ok path =>
    have hopens := opens?_of_declaredPath hat (by rw [hf]; rfl) hpath
    rw [Placed.statements_eq]
    refine account.guarded _ _ (account.bind (account.openingClass hp hat hf hopens) fun x hx => ?_)
    rw [eq_of_mayGive_openClass (account.anchored hp hopens) hx]
    exact holds_body hnested hp hopens hat (account.closing hp hf hopens)

/-- A module is opened and gone through. -/
theorem holdsOf_moduleBody (hf : Form.ofNode p.node = .moduleBody) : account.HoldsOf p := by
  intro hp c hat hfits
  rw [walk_moduleBody c hf]
  cases hpath : declaredPath c p.node with
  | error fault => exact account.nameless _ _ hp (by rw [hf]; rfl) hpath
  | ok path =>
    have hopens := opens?_of_declaredPath hat (by rw [hf]; rfl) hpath
    rw [Placed.statements_eq]
    refine account.guarded _ _ (account.bind (account.openingModule hp hat hf hopens) fun x hx => ?_)
    rw [eq_of_mayGive_openModule (account.anchored hp hopens) hx]
    have hbody := holds_body hnested hp hopens hat (account.pure ())
    simp only [bind_pure_unit] at hbody
    exact hbody

/-- The body of the class itself is gone through in the namespace around it. -/
theorem holdsOf_singletonBody (hf : Form.ofNode p.node = .singletonBody) : account.HoldsOf p := by
  intro hp c hat hfits
  obtain ⟨hstatements, hinside⟩ := nested_of_singletonBody hf hat
  rw [Site.statement_eq, Placed.node_site, hf, Placed.statements_eq]
  have hwalk := holds_walkAll hnested (fun q hq => account.covers_nested hp hq) hinside hfits
  rw [hstatements] at hwalk
  exact account.guarded _ _ (account.inside hp (by rw [hf]; rfl) (by rw [hf]; rfl) hwalk)

/-- The arguments of a visibility call are gone through in the same namespace. -/
theorem holdsOf_restriction {visibility : Visibility}
    (hf : Form.ofNode p.node = .restriction visibility) : account.HoldsOf p := by
  intro hp c hat hfits
  have hbody := nested_of_restriction hf
  rw [Site.statement_eq, Placed.node_site, hf, Placed.statements_eq, hbody]
  refine account.guarded _ _ (account.inside hp (by rw [hf]; rfl) (by rw [hf]; rfl) ?_)
  refine holds_walkArguments hp (fun _ hs => hs) (fun s hs hname => ?_) c visibility
    (hat.with_visibility visibility) hfits
  have hmem : ({ p with site := s } : Placed) ∈ p.nested := by
    rw [hbody]
    exact List.mem_map_of_mem (List.mem_filter.mpr ⟨hs, by rw [hname]; rfl⟩)
  exact ⟨hnested _ hmem, account.covers_nested hp hmem⟩

end Nested

/-- What an account says of each rule it says of the walk of any statement that it covers. -/
theorem holdsOf (account : Account source config) (p : Placed) : account.HoldsOf p := by
  induction p using Placed.induction_nested with
  | nested p hnested =>
    cases hf : Form.ofNode p.node with
    | classBody => exact holdsOf_classBody hnested hf
    | moduleBody => exact holdsOf_moduleBody hnested hf
    | singletonBody => exact holdsOf_singletonBody hnested hf
    | restriction visibility => exact holdsOf_restriction hnested hf
    | _ =>
      refine fun hp c hat hfits => account.leaf hp hat hfits ?_
      rw [hf]
      rfl

/-- What an account says of each rule it says of the walk of a source. -/
theorem holds_walkSource (account : Account source config)
    (hcovers : ∀ q ∈ source.root.topLevel, account.Covers q)
    (hfits : account.Fits Store.rootHandle) :
    account.Holds source.root.placed (walkSource config source) := by
  have hat := isAt_topLevel source config
  rw [walkSource, Node.outline_eq]
  exact holds_walkAll (fun q _ => account.holdsOf q) hcovers hat hfits

end Account

end RubyDoc

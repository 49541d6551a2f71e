import RubyDoc.Proofs.ObjectPath
import RubyDoc.Proofs.Walk.Context
import RubyDoc.Proofs.Walk.Placed
import RubyDoc.Walk.Constants
import RubyDoc.Walk.Methods

/-!
# What methods, accessors and constants declare

For each kind of statement without a body: the paths that it declares, told from
its node, and that documenting it declares no more. A statement that ends in a
fault may have declared less. Signatures and visibility calls declare nothing.
-/

namespace RubyDoc

open RubyDoc.Action

variable {declared : List Declaration}

namespace Node

/-- The name that a symbol, a string or a key stands for; empty if it cannot be read. -/
def symbol (n : Node) : String := n.symbolName.toOption.getD ""

/-- The method that a definition defines, and for which scope. One on another object
than the class itself is left out. -/
def definedMethod? (scope : Scope) (n : Node) : Option (String × Scope) :=
  (n.child? "name").bind fun name =>
    if n.kind == "singleton_method" then
      if (n.child? "object").any fun object => object.written == "self" then
        some (name.written, .onClass)
      else none
    else some (name.written, scope)

/-- A definition on the class itself defines a method of the class. -/
theorem definedMethod?_onClass {n nameNode : Node} {name : String} (scope : Scope)
    (hname : n.child? "name" = some nameNode) (hkind : (n.kind == "singleton_method") = true)
    (hself : (match n.child? "object" with
      | some object => object.legible.map some
      | none => .ok none) = .ok (some "self"))
    (hwritten : nameNode.written = name) : n.definedMethod? scope = some (name, .onClass) := by
  have hobject : ((n.child? "object").any fun object => object.written == "self") = true := by
    cases ho : n.child? "object" with
    | none =>
      rw [ho] at hself
      cases hself
    | some object =>
      rw [ho] at hself
      dsimp only at hself
      cases hl : object.legible with
      | error fault =>
        rw [hl] at hself
        cases hself
      | ok text =>
        rw [hl] at hself
        have htext : text = "self" := Option.some.inj (Except.ok.inj hself)
        rw [Option.any_some, written_of_legible hl, htext]
        rfl
  rw [definedMethod?, hname, Option.bind_some, if_pos hkind, if_pos hobject, hwritten]

/-- The accessors of one attribute. -/
def accessorsNamed (read write : Bool) (name : String) : List String :=
  (if read then [name] else []) ++ if write then [name ++ "="] else []

/-- The accessors that a macro defines for its arguments. -/
def definedAccessors (read write : Bool) (arguments : List Node) : List String :=
  (arguments.filter fun a => nameKinds.contains a.kind).flatMap fun a =>
    accessorsNamed read write a.symbol

section Accessors

variable {read write : Bool} {a : Node} {m : String}

/-- The accessors for the arguments behind the first are among all. -/
theorem mem_definedAccessors_cons (a : Node) {rest : List Node}
    (h : m ∈ definedAccessors read write rest) : m ∈ definedAccessors read write (a :: rest) := by
  rw [definedAccessors, List.filter_cons]
  split
  · exact List.mem_flatMap.mpr ((List.mem_flatMap.mp h).imp fun b hb =>
      ⟨List.mem_cons_of_mem _ hb.1, hb.2⟩)
  · exact h

/-- The accessors for the first argument are among all. -/
theorem mem_definedAccessors_of_name (rest : List Node) (hkind : nameKinds.contains a.kind = true)
    {name : String} (hname : a.symbolName = .ok name) (h : m ∈ accessorsNamed read write name) :
    m ∈ definedAccessors read write (a :: rest) := by
  have hkept : (a :: rest).filter (fun a => nameKinds.contains a.kind) =
      a :: rest.filter fun a => nameKinds.contains a.kind := List.filter_cons_of_pos hkind
  have hsymbol : a.symbol = name := by
    rw [symbol, hname]
    rfl
  rw [definedAccessors, hkept, List.flatMap_cons, hsymbol]
  exact List.mem_append_left _ h

end Accessors

end Node

namespace Declaration

/-- A method that is declared. -/
def ofMethod (home name : String) (scope : Scope) : Declaration :=
  { home, path := (Entity.newMethod home name scope).path, kind := .method }

/-- The constants that an assignment declares. -/
def ofAssignment (home : String) (n : Node) : List Declaration :=
  match n.constantAssignment with
  | some (left, _) => [{ home, path := ObjectPath.join home left.written, kind := .constant }]
  | none => []

end Declaration

/-- Another visibility leaves a method at its path, with its parameters. -/
theorem mapFacts_visibility (visibility : Visibility) (e : Entity) :
    (e.mapFacts fun f => { f with visibility }).path = e.path ∧
      (e.mapFacts fun f => { f with visibility }).shape = e.shape := by
  obtain ⟨name, home, docstring, source, file, line, kind⟩ := e
  cases kind <;> exact ⟨rfl, rfl⟩

/-- A visibility call declares nothing. -/
theorem declares_setVisibility (c : Context) (name : String) (visibility : Visibility) :
    Declares declared (setVisibility c name visibility) := by
  unfold setVisibility
  refine (declares_inStore _).bind fun known _ => ?_
  split
  · exact declares_changeStore fun s hs => Store.changedBy_editMethod hs fun e _ =>
      mapFacts_visibility visibility e
  · exact declares_note _ _ _

/-- The parameters and the visibility of a definition leave a method at its path. -/
theorem mapFacts_definition (c : Context) (n : Node) (parameters : List (String × Option String))
    (e : Entity) (h : e.isMethod = true) :
    (c.declaredAt n (e.mapFacts fun f =>
        { f with parameters, visibility := c.visibility, explicit := some true })).path = e.path ∧
      (c.declaredAt n (e.mapFacts fun f =>
        { f with parameters, visibility := c.visibility, explicit := some true })).isMethod = true := by
  obtain ⟨name, home, docstring, source, file, line, kind⟩ := e
  cases kind with
  | method facts => exact ⟨rfl, rfl⟩
  | root m => cases h
  | moduleSpace m => cases h
  | classSpace m superclass => cases h
  | constant value => cases h

/-- A method definition declares its method. -/
theorem declares_defineMethod (c : Context) (n : Node) (name : String) (scope : Scope)
    (hd : .ofMethod c.home.path name scope ∈ declared) :
    Declares declared (defineMethod c n name scope) := by
  unfold defineMethod
  refine (declares_inStore _).bind fun known _ => ?_
  refine (declares_inStore _).bind fun first hfirst => ?_
  obtain ⟨s, hs, rfl⟩ := exists_of_gives_inStore hfirst
  obtain ⟨hmethod, hpath⟩ := Store.findOrNewMethod_spec hs c.home.path name scope
  generalize s.findOrNewMethod c.home.path name scope = m at hmethod hpath
  refine (declares_docstringOf c n).bind fun docstring _ => ?_
  refine declares_revise_bind hd hmethod hpath.symm ?_ fun m hmethod hpath => ?_
  · exact fun e he => ⟨rfl, he⟩
  refine (declares_ofExcept _).bind fun source _ => ?_
  refine declares_revise_bind hd hmethod hpath ?_ fun m hmethod hpath => ?_
  · exact fun e he => ⟨rfl, he⟩
  refine (declares_ofExcept _).bind fun parameters _ => ?_
  refine declares_revise_bind hd hmethod hpath ?_ fun m hmethod hpath => ?_
  · exact mapFacts_definition c n parameters
  exact declares_register hd hpath (.inl hmethod) known

/-- A definition declares the method that it defines. -/
theorem declares_processMethod (c : Context) (n : Node)
    (hd : ∀ m ∈ n.definedMethod? c.scope, .ofMethod c.home.path m.1 m.2 ∈ declared) :
    Declares declared (processMethod c n) := by
  unfold processMethod
  split
  · next nameNode hname =>
    split
    · next hkind =>
      refine (declares_ofExcept _).bind fun receiver hreceiver => ?_
      have hread := eq_of_gives_ofExcept hreceiver
      split
      · next hself =>
        refine (declares_ofExcept _).bind fun name hn => ?_
        have hwritten := Node.written_of_legible (eq_of_gives_ofExcept hn)
        refine declares_defineMethod c n name .onClass (hd (name, .onClass) ?_)
        rw [eq_of_beq hself] at hread
        exact Node.definedMethod?_onClass c.scope hname hkind hread hwritten
      · exact declares_note _ _ _
    · next hkind =>
      refine (declares_ofExcept _).bind fun name hn => ?_
      have hwritten := Node.written_of_legible (eq_of_gives_ofExcept hn)
      refine declares_defineMethod c n name c.scope (hd (name, c.scope) ?_)
      rw [Node.definedMethod?, hname, Option.bind_some, if_neg hkind, hwritten]
      rfl
  · exact declares_pure _

/-- The accessors of one attribute are declared. -/
theorem declares_defineAccessors (c : Context) (n : Node) (docstring source : String)
    (read write : Bool) (name : String)
    (hd : ∀ m ∈ Node.accessorsNamed read write name, .ofMethod c.home.path m c.scope ∈ declared) :
    Declares declared (defineAccessors c n docstring source read write name) := by
  have hput : ∀ slots, Declares declared (c.putAttribute name slots) :=
    fun slots => declares_putAttribute c name slots
  have hread : read = true → .ofMethod c.home.path name c.scope ∈ declared := by
    rintro rfl
    exact hd name (by simp [Node.accessorsNamed])
  have hwrite : write = true → .ofMethod c.home.path (name ++ "=") c.scope ∈ declared := by
    rintro rfl
    exact hd (name ++ "=") (by simp [Node.accessorsNamed])
  unfold defineAccessors
  dsimp only
  -- the writer is registered, or not, after the reader or without one
  by_cases hw : write = true
  · rw [if_pos hw]
    split
    · next hr =>
      refine (declares_register (hread hr) rfl (.inl rfl) false).bind fun _ _ => ?_
      exact (declares_register (hwrite hw) rfl (.inl rfl) false).bind fun _ _ => hput _
    · exact (declares_register (hwrite hw) rfl (.inl rfl) false).bind fun _ _ => hput _
  · rw [if_neg hw]
    split
    · next hr => exact (declares_register (hread hr) rfl (.inl rfl) false).bind fun _ _ => hput _
    · exact hput _

/-- The accessors of all attributes of a macro are declared. -/
theorem declares_defineAccessorsOfAll (c : Context) (n : Node) (docstring source : String)
    (read write : Bool) (arguments : List Node)
    (hd : ∀ m ∈ Node.definedAccessors read write arguments,
      .ofMethod c.home.path m c.scope ∈ declared) :
    Declares declared (defineAccessorsOfAll c n docstring source read write arguments) := by
  induction arguments with
  | nil => exact declares_pure _
  | cons a rest ih =>
    have hrest : Declares declared (defineAccessorsOfAll c n docstring source read write rest) :=
      ih fun m hm => hd m (Node.mem_definedAccessors_cons a hm)
    rw [defineAccessorsOfAll]
    dsimp only
    split
    · next hkind =>
      refine (declares_ofExcept _).bind fun name hname => ?_
      refine Declares.bind ?_ fun _ _ => hrest
      refine declares_defineAccessors c n docstring source read write name fun m hm => hd m ?_
      exact Node.mem_definedAccessors_of_name rest hkind (eq_of_gives_ofExcept hname) hm
    · exact hrest

/-- An accessor macro declares its accessors. -/
theorem declares_processAccessors (c : Context) (n : Node) (read write : Bool)
    (hd : ∀ m ∈ Node.definedAccessors read write n.positionalArguments,
      .ofMethod c.home.path m c.scope ∈ declared) :
    Declares declared (processAccessors c n read write) := by
  unfold processAccessors
  refine (declares_docstringOf c n).bind fun docstring _ => ?_
  refine (declares_ofExcept _).bind fun source _ => ?_
  exact declares_defineAccessorsOfAll c n docstring source read write _ hd

/-- The constant of an assignment is declared. -/
theorem declares_registerConstant (c : Context) (n left right : Node)
    (hd : { home := c.home.path, path := ObjectPath.join c.home.path left.written
            kind := .constant } ∈ declared) :
    Declares declared (registerConstant c n left right) := by
  unfold registerConstant
  refine (declares_ofExcept _).bind fun name hname => ?_
  rw [Node.written_of_legible (eq_of_gives_ofExcept hname)] at hd
  refine (declares_docstringOf c n).bind fun docstring _ => ?_
  refine (declares_ofExcept _).bind fun source _ => ?_
  refine (declares_ofExcept _).bind fun value _ => ?_
  refine Declares.bind ?_ fun _ _ => declares_pure _
  exact declares_register hd rfl (.inr DeclaredKind.noConfusion) false

/-- An assignment declares its constant. -/
theorem declares_processConstant (c : Context) (n : Node)
    (hd : ∀ d ∈ Declaration.ofAssignment c.home.path n, d ∈ declared) :
    Declares declared (processConstant c n) := by
  unfold processConstant
  split
  · next left right ha =>
    refine Declares.bind ?_ fun _ _ => declares_pure _
    refine declares_registerConstant c n left right (hd _ ?_)
    rw [Declaration.ofAssignment, ha]
    exact List.mem_cons_self
  · exact declares_pure _

/-- The values of an enumeration are declared. -/
theorem declares_registerValues (c : Context) (ns : List Node)
    (hd : ∀ d ∈ ns.flatMap (Declaration.ofAssignment c.home.path), d ∈ declared) :
    Declares declared (registerValues c ns) := by
  induction ns with
  | nil => exact declares_pure _
  | cons n rest ih =>
    rw [List.flatMap_cons] at hd
    have hrest := ih fun d hm => hd d (List.mem_append_right _ hm)
    rw [registerValues]
    split
    · next left right ha =>
      refine Declares.bind ?_ fun constant _ => (declares_note _ _ _).bind fun _ _ => hrest
      refine declares_registerConstant c n left right (hd _ (List.mem_append_left _ ?_))
      rw [Declaration.ofAssignment, ha]
      exact List.mem_cons_self
    · exact hrest

/-- The constants that the block of an enumeration assigns; none if the block cannot
be read. -/
def enumValues (block : Site) : List Node := (enumAssignments block).toOption.getD []

/-- An enumeration declares its values. -/
theorem declares_processEnum (c : Context) (block : Site)
    (hd : ∀ d ∈ (enumValues block).flatMap (Declaration.ofAssignment c.home.path), d ∈ declared) :
    Declares declared (processEnum c block) := by
  unfold processEnum
  refine (declares_ofExcept _).bind fun ns hns => declares_registerValues c ns ?_
  have hvalues : enumValues block = ns := by
    rw [enumValues, eq_of_gives_ofExcept hns]
    rfl
  rwa [hvalues] at hd

end RubyDoc

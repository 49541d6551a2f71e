import RubyDoc.Proofs.TypeExpr.Listed

/-!
# Types that admit nil

The documentation types of a node are strings, and nil is one of them or none. Here it
is told from the tree alone: nil stands there for the literal, for its class, for a
nilable type, for a union with such a member, and for parentheses around such a type.
What is put into brackets is a longer string. A name that is written like nil could be
taken for it, so trees with such a name are left out.
-/

namespace RubyDoc

open RubyDoc.Text

namespace Node

/-- Whether a node names a class or constant. -/
def isReference (n : Node) : Bool := n.kind == "constant" || n.kind == "scope_resolution"

/-- Whether a node is an expression in parentheses. -/
def isParenthesized (n : Node) : Bool :=
  n.kind == "parenthesized_statements" || n.kind == "parenthesized_expression"

/-- Whether a node is a call of a method of the type module. -/
def isTypeCall (n : Node) (method : String) : Bool :=
  n.isCall && (n.child? "receiver").any (fun r => TypeExpr.moduleNames.contains r.written) &&
    (n.child? "method").map written == some method

/-- Whether a node is shown by its text, and blanks aside the text is `nil`: a constant, a
container, or a call that is shown as it is written. -/
def isNamedNil (n : Node) : Bool :=
  (n.isReference || TypeExpr.verbatimMethods.any n.isTypeCall) &&
      withoutBlanks n.written == "nil" ||
    n.kind == "element_reference" &&
      (n.child? "object").any fun o => withoutBlanks o.written == "nil"

/-- No node of the tree is named like nil. -/
def NamesNoNil (n : Node) : Prop := n.everywhere (fun m => !m.isNamedNil) = true

instance (n : Node) : Decidable n.NamesNoNil := inferInstanceAs (Decidable (_ = true))

/-- A call that stands on a chain of calls which begins with a procedure type. -/
inductive InProcedureChain : Node → Prop
  | begins {n : Node} (hcall : n.isTypeCall "proc" = true) : InProcedureChain n
  | follows {n receiver : Node} (hcall : n.isCall = true)
      (hreceiver : n.child? "receiver" = some receiver) (h : receiver.InProcedureChain) :
      InProcedureChain n

/-- A type that admits nil on the outside. -/
inductive AdmitsNil : Node → Prop
  | literal {n : Node} (hkind : n.kind = "nil") : AdmitsNil n
  | nilClass {n : Node} (href : n.isReference = true)
      (hname : withoutBlanks n.written = "NilClass") :
      AdmitsNil n
  | nilable {n : Node} (hcall : n.isTypeCall "nilable" = true) (hchain : ¬ n.InProcedureChain)
      (harguments : n.arguments ≠ []) : AdmitsNil n
  | union {n member : Node} (hcall : n.isTypeCall "any" = true) (hchain : ¬ n.InProcedureChain)
      (hmember : member ∈ n.arguments) (h : member.AdmitsNil) : AdmitsNil n
  | group {n inner : Node} (hkind : n.isParenthesized = true)
      (hinner : TypeExpr.membersOf n = [inner]) (h : inner.AdmitsNil) : AdmitsNil n

theorem NamesNoNil.isNamedNil_eq {n : Node} (h : n.NamesNoNil) : n.isNamedNil = false :=
  Bool.not_eq_true' _ |>.mp ((everywhere_iff _ n).mp h).1

theorem NamesNoNil.of_mem_children {n c : Node} (h : n.NamesNoNil) (hc : c ∈ n.children) :
    c.NamesNoNil :=
  everywhere_of_mem_children h hc

theorem NamesNoNil.of_mem_arguments {n a : Node} (h : n.NamesNoNil) (ha : a ∈ n.arguments) :
    a.NamesNoNil := by
  obtain ⟨s, hs, rfl⟩ := List.mem_map.mp ha
  exact everywhere_of_mem_argumentSites h hs

/-- The name of a call that is read is the text of its method. -/
theorem written_of_callName {n : Node} (hcall : n.isCall = true) {name : Option String}
    (h : n.callName = .ok name) : (n.child? "method").map written = name := by
  rw [callName, if_pos hcall] at h
  cases hm : n.child? "method" with
  | none =>
    rw [hm] at h
    exact Except.ok.inj h
  | some m =>
    rw [hm] at h
    dsimp only at h
    cases hl : m.legible with
    | error fault =>
      rw [hl] at h
      cases h
    | ok text =>
      rw [hl] at h
      rw [Option.map_some, written_of_legible hl]
      exact Except.ok.inj h

end Node

/-! ### Strings -/

/-- Blanks that are squeezed are blanks still. -/
theorem Text.withoutBlanks_squeeze (s : String) : withoutBlanks (squeeze s) = withoutBlanks s := by
  have hfrom : ∀ (inRun : Bool) (cs : List Char),
      (squeezeFrom inRun cs).filter (fun c => !isBlank c) = cs.filter fun c => !isBlank c := by
    intro inRun cs
    fun_induction squeezeFrom inRun cs with
    | case1 => rfl
    | case2 c cs hb ih => rw [ih, List.filter_cons_of_neg (by simpa using hb)]
    | case3 inRun c cs hb hr ih =>
      rw [List.filter_cons_of_neg (by decide), ih, List.filter_cons_of_neg (by simpa using hb)]
    | case4 inRun c cs hb ih =>
      rw [List.filter_cons_of_pos (by simpa using hb), ih,
        List.filter_cons_of_pos (by simpa using hb)]
  rw [← String.toList_inj, toList_withoutBlanks, toList_withoutBlanks, squeeze,
    String.toList_ofList, hfrom]

namespace TypeExpr

/-- A text with a bracket in it is not nil. -/
theorem nilType_ne_of_mem {s : String} {c : Char} (hc : c ∈ s.toList)
    (hnil : c ∉ nilType.toList) : nilType ≠ s := by
  rintro rfl
  exact hnil hc

theorem displayName_eq_nilType (name : String) :
    nilType = displayName name ↔ name = "nil" ∨ name = "NilClass" := by
  rw [displayName, aliases, nilType, List.lookup_cons, List.lookup_cons, List.lookup_cons,
    List.lookup_cons, List.lookup_nil]
  by_cases h1 : name = "T::Boolean"
  · subst h1
    decide
  by_cases h2 : name = "FalseClass"
  · subst h2
    decide
  by_cases h3 : name = "NilClass"
  · subst h3
    decide
  by_cases h4 : name = "TrueClass"
  · subst h4
    decide
  rw [beq_eq_false_iff_ne.mpr h1, beq_eq_false_iff_ne.mpr h2, beq_eq_false_iff_ne.mpr h3,
    beq_eq_false_iff_ne.mpr h4]
  simp [h3, eq_comm]

/-- A union prints the types of its members. -/
theorem nil_mem_print_union (members : List TypeExpr) :
    nilType ∈ (union members).print ↔ ∃ t ∈ members, nilType ∈ t.print := by
  rw [print, printAll_eq_map, List.mem_flatten]
  constructor
  · rintro ⟨types, hmem, hnil⟩
    obtain ⟨t, ht, rfl⟩ := List.mem_map.mp hmem
    exact ⟨t, ht, hnil⟩
  · rintro ⟨t, ht, hnil⟩
    exact ⟨_, List.mem_map_of_mem ht, hnil⟩

/-- A container prints one string, which is not nil unless the container is called so. -/
theorem not_nil_mem_print_ofContainer {container : String} (hc : container ≠ nilType)
    (members : List TypeExpr) : nilType ∉ (ofContainer container members).print := by
  have hangle : ∀ name inside : String, nilType ∉ [name ++ "<" ++ inside ++ ">"] := fun _ _ =>
    mt List.mem_singleton.mp (nilType_ne_of_mem (c := '>') (by simp) (by decide))
  rw [ofContainer.eq_def]
  split
  · rw [print]
    exact mt List.mem_singleton.mp hc.symm
  · rw [print]
    exact hangle _ _
  · split
    · rw [print, hashType]
      exact mt List.mem_singleton.mp (nilType_ne_of_mem (c := '}') (by simp) (by decide))
    · rw [print]
      exact hangle _ _
  · rw [print]
    exact hangle _ _

theorem not_nil_mem_print_tuple (members : List TypeExpr) :
    nilType ∉ (tuple members).print := by
  rw [print]
  exact mt List.mem_singleton.mp (nilType_ne_of_mem (c := '(') (by simp) (by decide))

theorem not_nil_mem_print_shape (entries : ShapeEntries) : nilType ∉ (shape entries).print := by
  rw [print, shapeType, List.mem_singleton]
  split
  · decide
  · exact nilType_ne_of_mem (c := '}') (by simp [hashType]) (by decide)

/-! ### What a node is read as -/

section Node

variable {n : Node}

/-- What is made of the text of a node does not print nil, if it does not for this text. -/
theorem not_nil_mem_print_withText {make : String → TypeExpr}
    (h : nilType ∉ (make n.written).print) : nilType ∉ (withText n make).print := by
  rw [withText]
  cases hl : n.legible with
  | error fault =>
    rw [print]
    decide
  | ok text => rwa [← Node.written_of_legible hl]

theorem not_nil_mem_print_ofOther : nilType ∉ (ofOther n).print := by
  refine not_nil_mem_print_withText ?_
  rw [print]
  decide

theorem isModule_of_ok {b : Bool} (h : isModule n = .ok b) :
    b = moduleNames.contains n.written := by
  rw [isModule] at h
  cases hl : n.legible with
  | error fault =>
    rw [hl] at h
    cases h
  | ok text =>
    rw [hl] at h
    rw [Node.written_of_legible hl]
    exact (Except.ok.inj h).symm

/-- A call on a receiver that is not the type module is none of its methods. -/
theorem isTypeCall_eq_false {receiver : Node} (hr : n.child? "receiver" = some receiver)
    (hmodule : isModule receiver = .ok false) (method : String) : n.isTypeCall method = false := by
  rw [Node.isTypeCall, hr, Option.any_some, ← isModule_of_ok hmodule, Bool.and_false,
    Bool.false_and]

/-- A call of the type module is told by its receiver and its name. -/
theorem isTypeCall_iff {receiver : Node} {name : Option String} {method : String}
    (hcall : n.isCall = true) (hr : n.child? "receiver" = some receiver)
    (hname : n.callName = .ok name) :
    n.isTypeCall method = true ↔ receiver.written ∈ moduleNames ∧ name = some method := by
  rw [Node.isTypeCall, hcall, hr, Node.written_of_callName hcall hname, Bool.true_and,
    Option.any_some, Bool.and_eq_true, List.contains_iff_mem, beq_iff_eq]

/-- A call that is no procedure type itself stands on one exactly if its receiver does. -/
theorem inProcedureChain_iff_receiver {receiver : Node} (hcall : n.isCall = true)
    (hr : n.child? "receiver" = some receiver) (hproc : n.isTypeCall "proc" = false) :
    n.InProcedureChain ↔ receiver.InProcedureChain := by
  constructor
  · intro hchain
    cases hchain with
    | begins hproc' => simp [hproc] at hproc'
    | follows _ hr' hchain' => exact Option.some.inj (hr.symm.trans hr') ▸ hchain'
  · exact .follows hcall hr

theorem not_inProcedureChain_of_not_isCall (hcall : ¬ n.isCall = true) :
    ¬ n.InProcedureChain := by
  intro hchain
  cases hchain with
  | begins hproc => simp [Node.isTypeCall, hcall] at hproc
  | follows hcall' _ _ => exact hcall hcall'

theorem not_inProcedureChain_of_no_receiver (hr : n.child? "receiver" = none) :
    ¬ n.InProcedureChain := by
  intro hchain
  cases hchain with
  | begins hproc => simp [Node.isTypeCall, hr] at hproc
  | follows _ hr' _ => simp [hr] at hr'

/-- A chain that is read is found to begin with a procedure type exactly if it does. -/
theorem isProcedureChain_iff {b : Bool} (h : isProcedureChain n = .ok b) :
    b = true ↔ n.InProcedureChain := by
  induction hw : n.weight using Nat.strongRecOn generalizing n with
  | ind w ih =>
    rw [isProcedureChain] at h
    split at h
    · next hcall =>
      split at h
      · next hnone =>
        rw [← Except.ok.inj h]
        exact iff_of_false Bool.false_ne_true (not_inProcedureChain_of_no_receiver hnone)
      · next receiver hr =>
        have hrest : isProcedureChain receiver = .ok b → n.isTypeCall "proc" = false →
            (b = true ↔ n.InProcedureChain) := by
          intro hb hproc
          have hlighter := hw ▸ Node.weight_lt_of_mem_children (Node.mem_of_child? hr)
          rw [ih _ hlighter hb rfl, inProcedureChain_iff_receiver hcall hr hproc]
        cases hm : isModule receiver with
        | error fault => simp [hm] at h
        | ok known =>
          cases known with
          | false =>
            simp only [hm] at h
            exact hrest h (isTypeCall_eq_false hr hm _)
          | true =>
            simp only [hm] at h
            cases hname : n.callName with
            | error fault => simp [hname] at h
            | ok name =>
              simp only [hname] at h
              have hproc : n.isTypeCall "proc" = true ↔
                  receiver.written ∈ moduleNames ∧ name = some "proc" :=
                isTypeCall_iff hcall hr hname
              rw [← List.contains_iff_mem, ← isModule_of_ok hm] at hproc
              split at h
              · next hp =>
                rw [← Except.ok.inj h]
                exact iff_of_true rfl (.begins (hproc.mpr ⟨rfl, beq_iff_eq.mp hp⟩))
              · next hp =>
                exact hrest h (Bool.eq_false_iff.mpr fun hn => hp (beq_iff_eq.mpr (hproc.mp hn).2))
    · next hcall =>
      rw [← Except.ok.inj h]
      exact iff_of_false Bool.false_ne_true (not_inProcedureChain_of_not_isCall hcall)

/-- A call that is read as one of the type module is one, outside of procedure types. -/
theorem of_receiverOf_typeModule {name : Option String} (hcall : n.isCall = true)
    (h : receiverOf n = .typeModule name) :
    ¬ n.InProcedureChain ∧ ∀ method, name = some method → n.isTypeCall method = true := by
  rw [receiverOf] at h
  cases hchain : isProcedureChain n with
  | error fault => simp [hchain] at h
  | ok b =>
    cases b with
    | true => simp [hchain] at h
    | false =>
      have hnot : ¬ n.InProcedureChain := fun hp =>
        Bool.false_ne_true ((isProcedureChain_iff hchain).mpr hp)
      cases hr : n.child? "receiver" with
      | none => simp [hchain, hr] at h
      | some receiver =>
        cases hm : isModule receiver with
        | error fault => simp [hchain, hr, hm] at h
        | ok known =>
          cases known with
          | false => simp [hchain, hr, hm] at h
          | true =>
            cases hname : n.callName with
            | error fault => simp [hchain, hr, hm, hname] at h
            | ok called =>
              simp only [hchain, hr, hm, hname, Receiver.typeModule.injEq] at h
              subst h
              refine ⟨hnot, fun method hmethod => ?_⟩
              rw [isTypeCall_iff hcall hr hname, ← List.contains_iff_mem, ← isModule_of_ok hm]
              exact ⟨rfl, hmethod⟩

/-- A call of the type module outside of procedure types is read as one, if it is read. -/
theorem receiverOf_of_isTypeCall {method : String} (h : n.isTypeCall method = true)
    (hchain : ¬ n.InProcedureChain) :
    receiverOf n = .illegible ∨ receiverOf n = .typeModule (some method) := by
  have hcall : n.isCall = true := by
    rw [Node.isTypeCall, Bool.and_assoc, Bool.and_eq_true] at h
    exact h.1
  rw [receiverOf]
  cases hb : isProcedureChain n with
  | error fault => exact .inl rfl
  | ok b =>
    have hfalse : b = false := Bool.eq_false_iff.mpr fun hb' =>
      hchain ((isProcedureChain_iff hb).mp hb')
    subst hfalse
    cases hr : n.child? "receiver" with
    | none => simp [Node.isTypeCall, hr] at h
    | some receiver =>
      dsimp only
      cases hm : isModule receiver with
      | error fault => exact .inl rfl
      | ok known =>
        cases known with
        | false => simp [isTypeCall_eq_false hr hm] at h
        | true =>
          cases hname : n.callName with
          | error fault => exact .inl rfl
          | ok name =>
            rw [isTypeCall_iff hcall hr hname] at h
            rw [h.2]
            exact .inr rfl

/-- A call of the type module prints nil for a nilable type and for a union with such a
member only. -/
theorem of_nil_mem_print_ofMethod {name : Option String} {arguments : List TypeExpr}
    {first : Option Node} (hcall : ∀ method, name = some method → n.isTypeCall method = true)
    (hn : n.isNamedNil = false) (h : nilType ∈ (ofMethod n name arguments first).print) :
    name = some "nilable" ∧ arguments ≠ [] ∨
      name = some "any" ∧ ∃ t ∈ arguments, nilType ∈ t.print := by
  have hunsupported : nilType ∉ (withText n fun text => unsupported (.method text)).print := by
    refine not_nil_mem_print_withText ?_
    rw [print]
    decide
  unfold ofMethod at h
  split at h
  · exact .inl ⟨rfl, List.cons_ne_nil _ _⟩
  · exact .inr ⟨rfl, (nil_mem_print_union _).mp h⟩
  · rw [print] at h
    exact absurd h (by decide)
  · rw [print] at h
    exact absurd h (by decide)
  · refine absurd h (not_nil_mem_print_withText ?_)
    rw [print]
    exact mt List.mem_singleton.mp (nilType_ne_of_mem (c := ')') (by simp) (by decide))
  · next method _ _ _ _ _ =>
    split at h
    · next hverbatim =>
      refine absurd h (not_nil_mem_print_withText ?_)
      rw [print, List.mem_singleton]
      intro hnil
      have hshown : TypeExpr.verbatimMethods.any n.isTypeCall = true :=
        List.any_eq_true.mpr ⟨method, List.contains_iff_mem.mp hverbatim, hcall method rfl⟩
      have hblank : withoutBlanks n.written = "nil" := by
        rw [← withoutBlanks_squeeze, ← hnil]
        decide
      simp [Node.isNamedNil, hshown, hblank] at hn
    · exact absurd h hunsupported
  · exact absurd h hunsupported

/-- The name of a class prints nil only for the class of nil. -/
theorem admitsNil_of_reference (href : n.isReference = true) (hn : n.isNamedNil = false)
    (h : nilType ∈ (ofReference n).print) : n.AdmitsNil := by
  refine .nilClass href (Classical.byContradiction fun hclass => ?_)
  refine absurd h (not_nil_mem_print_withText ?_)
  rw [print, List.mem_singleton, displayName_eq_nilType, not_or]
  refine ⟨fun hnil => ?_, hclass⟩
  simp [Node.isNamedNil, href, hnil] at hn

/-- A node that writes a type with nil among its strings admits nil, unless a name was taken
for it. -/
theorem admitsNil_of_writes {t : TypeExpr} (hw : Writes n t) (hn : n.NamesNoNil)
    (h : nilType ∈ t.print) : n.AdmitsNil := by
  have hnamed := hn.isNamedNil_eq
  induction hw with
  | reference hk => exact admitsNil_of_reference hk hnamed h
  | otherCall hk hr =>
    refine absurd h (not_nil_mem_print_withText ?_)
    rw [print]
    decide
  | typeCall hk hr hs ih =>
    obtain ⟨hchain, htype⟩ := of_receiverOf_typeModule (beq_iff_eq.mpr hk) hr
    rcases of_nil_mem_print_ofMethod htype hnamed h with ⟨hname, hne⟩ | ⟨hname, t, ht, hnil⟩
    · exact .nilable (htype _ hname) hchain fun hempty => hne (hempty ▸ List.map_nil)
    · obtain ⟨a, ha, rfl⟩ := List.mem_map.mp ht
      have hna := hn.of_mem_arguments ha
      exact .union (htype _ hname) hchain ha (ih a ha hna hnil hna.isNamedNil_eq)
  | container hk ho hl hs ih =>
    refine absurd h (not_nil_mem_print_ofContainer (fun hnil => ?_) _)
    rw [← Node.written_of_legible hl] at hnil
    simp [Node.isNamedNil, hk, ho, hnil, nilType] at hnamed
  | tuple => exact absurd h (not_nil_mem_print_tuple _)
  | shape => exact absurd h (not_nil_mem_print_shape _)
  | group hk hi hs ih =>
    rw [print] at h
    have hmem := hi ▸ List.mem_singleton_self _
    have hinner := hn.of_mem_children (List.mem_filter.mp (List.mem_filter.mp hmem).1).1
    exact .group hk hi (ih hinner h hinner.isNamedNil_eq)
  | nilLiteral hk => exact .literal hk
  | other => exact absurd h not_nil_mem_print_ofOther
  | @boolLiteral n value hk =>
    rw [print] at h
    cases value <;> exact absurd h (by decide)
  | illegibleCall | procedure | missing | illegibleObject =>
    rw [print] at h
    exact absurd h (by decide)

/-- A node that prints nil admits it, unless a name was taken for nil. -/
theorem admitsNil_of_nil_mem_print (hn : n.NamesNoNil) (h : nilType ∈ (ofNode n).print) :
    n.AdmitsNil :=
  admitsNil_of_writes (writes_ofNode n) hn h

theorem ofNode_reference (h : n.isReference = true) : ofNode n = ofReference n := by
  rw [ofNode]
  exact if_pos h

theorem ofNode_group (h : n.isParenthesized = true) {inner : Node}
    (hinner : membersOf n = [inner]) :
    ofNode n = group (ofNode inner) := by
  have hkind : n.kind = "parenthesized_statements" ∨ n.kind = "parenthesized_expression" := by
    simpa [Node.isParenthesized] using h
  have hother : ∀ kind, kind ≠ "parenthesized_statements" → kind ≠ "parenthesized_expression" →
      (n.kind == kind) = false := by
    rintro kind hne hne'
    rw [beq_eq_false_iff_ne]
    rintro rfl
    exact hkind.elim hne hne'
  rw [ofNode, hother "constant" (by decide) (by decide),
    hother "scope_resolution" (by decide) (by decide),
    hother "call" (by decide) (by decide), hother "element_reference" (by decide) (by decide),
    hother "array" (by decide) (by decide), hother "hash" (by decide) (by decide)]
  refine (if_pos h).trans ?_
  split
  · next found hfound => rw [(List.cons.inj (hfound.symm.trans hinner)).1]
  · next hnone => exact absurd hinner (hnone inner)

/-- A call of the type module outside of procedure types is told by its method, if it is
read. -/
theorem ofNode_typeCall {method : String} (h : n.isTypeCall method = true)
    (hchain : ¬ n.InProcedureChain) (hread : (ofNode n).IsRead) :
    ofNode n = ofMethod n (some method) (n.arguments.map ofNode) n.arguments.head? := by
  have hcall : n.kind = "call" := by
    rw [Node.isTypeCall, Bool.and_assoc, Bool.and_eq_true] at h
    exact beq_iff_eq.mp h.1
  rcases receiverOf_of_isTypeCall h hchain with hr | hr
  · have hillegible : ofNode n = illegible := by
      rw [ofNode, hcall, hr]
      rfl
    rw [hillegible, IsRead, issues] at hread
    exact absurd List.mem_cons_self hread
  · have hmethod : ofNode n = ofMethod n (some method)
        (n.arguments.attach.map fun a => ofNode a.1) n.arguments.head? := by
      rw [ofNode, hcall, hr]
      rfl
    rw [hmethod, List.attach_map_val]

/-- A union is read only if its members are. -/
theorem isRead_of_isRead_union {members : List TypeExpr} (h : (union members).IsRead)
    {t : TypeExpr} (ht : t ∈ members) : t.IsRead := by
  rw [IsRead, issues] at h
  induction members with
  | nil => cases ht
  | cons u us ih =>
    rw [issuesOfAll, List.mem_append, not_or] at h
    rcases List.mem_cons.mp ht with rfl | ht
    · exact h.1
    · exact ih h.2 ht

/-- A node that admits nil prints it, if it is read. -/
theorem nil_mem_print_of_admitsNil (h : n.AdmitsNil) (hread : (ofNode n).IsRead) :
    nilType ∈ (ofNode n).print := by
  induction h with
  | @literal n hkind =>
    rw [ofNode, hkind]
    exact List.mem_singleton_self _
  | @nilClass n href hname =>
    rw [ofNode_reference href, ofReference, withText] at hread ⊢
    cases hl : n.legible with
    | error fault => simp [hl, IsRead, issues] at hread
    | ok text =>
      dsimp only
      rw [← Node.written_of_legible hl, hname]
      decide
  | @nilable n hcall hchain harguments =>
    obtain ⟨first, rest, hcons⟩ := List.exists_cons_of_ne_nil harguments
    rw [ofNode_typeCall hcall hchain hread, hcons, List.map_cons]
    exact List.mem_append_right _ (List.mem_singleton_self _)
  | @union n member hcall hchain hmember h ih =>
    have hunion : ofNode n = union (n.arguments.map ofNode) := by
      rw [ofNode_typeCall hcall hchain hread]
      obtain ⟨first, rest, hcons⟩ := List.exists_cons_of_ne_nil (List.ne_nil_of_mem hmember)
      rw [hcons]
      rfl
    rw [hunion] at hread ⊢
    have hmem : ofNode member ∈ n.arguments.map ofNode := List.mem_map_of_mem hmember
    exact (nil_mem_print_union _).mpr ⟨_, hmem, ih (isRead_of_isRead_union hread hmem)⟩
  | @group n inner hkind hinner h ih =>
    rw [ofNode_group hkind hinner] at hread ⊢
    rw [IsRead, issues] at hread
    rw [print]
    exact ih hread

end Node

/-- A node that is converted is read. -/
theorem isRead_of_convert_ok {n : Node} {log : Log} {types : List String}
    (h : ((convert n).runWith log).1 = .ok types) : (ofNode n).IsRead := by
  obtain ⟨_, log', hreport, -⟩ := Reading.exists_of_bind_ok h
  intro hillegible
  rw [report_eq, if_pos hillegible] at hreport
  cases hreport

/-- Nil is one of the types that a node converts to exactly if the node admits nil. -/
theorem nil_mem_iff_admitsNil {n : Node} (hn : n.NamesNoNil) {log : Log} {types : List String}
    (h : ((convert n).runWith log).1 = .ok types) : nilType ∈ types ↔ n.AdmitsNil := by
  rw [eq_of_convert_ok h]
  exact ⟨admitsNil_of_nil_mem_print hn, fun hadmits =>
    nil_mem_print_of_admitsNil hadmits (isRead_of_convert_ok h)⟩

/-- A type that may be left out admits nil only if it is there. -/
theorem nil_mem_iff_of_convertOptional {type : Option Node} (hn : ∀ t ∈ type, t.NamesNoNil)
    {log : Log} {types : List String} (h : ((convertOptional type).runWith log).1 = .ok types) :
    nilType ∈ types ↔ ∃ t ∈ type, t.AdmitsNil := by
  cases type with
  | none =>
    rw [← Except.ok.inj h]
    simp [anyType, nilType]
  | some t =>
    rw [nil_mem_iff_admitsNil (hn t rfl) h]
    simp

end TypeExpr

end RubyDoc

import RubyDoc.Proofs.Result
import RubyDoc.Proofs.Walk.Basic
import RubyDoc.Proofs.Walk.Rules

/-!
# Which nodes are given docstrings

A signature gives a docstring to the definition that it is about, which is a method or a
call of an accessor macro, and no other rule gives one to a node. So a class or module
always has the docstring of the comments above it, whatever was documented before.
-/

namespace RubyDoc

open RubyDoc.Action

namespace Node

/-- The kinds of nodes that open a namespace. -/
def spaceKinds : List String := ["class", "module"]

theorem kind_of_methodKinds {n : Node} (h : methodKinds.contains n.kind = true) :
    n.kind ∉ spaceKinds := by
  rw [List.contains_iff_mem] at h
  simp only [methodKinds, List.mem_cons, List.not_mem_nil, or_false] at h
  rcases h with hk | hk <;> rw [hk] <;> decide

/-- A node that a signature can be about opens no namespace. -/
theorem kind_of_isSignable {n : Node} (h : n.isSignable = .ok true) : n.kind ∉ spaceKinds := by
  rw [isSignable] at h
  split at h
  · next hmethod => exact kind_of_methodKinds hmethod
  · have hcall : n.isCall = true := by
      rw [callName] at h
      split at h
      · assumption
      · cases h
    rw [beq_iff_eq.mp hcall]
    decide

end Node

/-- What is found to be signed opens no namespace. -/
theorem Site.kind_of_signatureTarget {s t : Site} (h : s.signatureTarget = .ok t) :
    t.node.kind ∉ Node.spaceKinds := by
  rw [signatureTarget] at h
  obtain ⟨signable, hs, h⟩ := exists_of_bind_eq_ok h
  cases signable with
  | true =>
    rw [← Except.ok.inj h]
    exact Node.kind_of_isSignable hs
  | false =>
    rw [if_neg Bool.false_ne_true] at h
    split at h
    · cases h
    · split at h
      · next found hfound =>
        have hmethod := List.find?_some hfound
        rw [← Except.ok.inj h]
        exact Node.kind_of_methodKinds hmethod
      · cases h

/-- A signature is about nothing that opens a namespace. -/
theorem kind_of_signatureTargets {s following target : Site}
    (h : signatureTargets s = .ok (following, target)) : target.node.kind ∉ Node.spaceKinds := by
  rw [signatureTargets] at h
  obtain ⟨next, -, h⟩ := exists_of_bind_eq_ok h
  obtain ⟨found, hfound, h⟩ := exists_of_bind_eq_ok h
  obtain rfl : found = target := congrArg Prod.snd (Except.ok.inj h)
  exact Site.kind_of_signatureTarget hfound

/-- Records in which no class and no module was given a docstring. -/
def Records.SparesSpaces (r : Records) : Prop :=
  ∀ entry ∈ r.overridden, entry.1.2.2 ∉ Node.spaceKinds

namespace Records.SparesSpaces

variable {r r' : Records}

theorem of_eq (h : r.SparesSpaces) (heq : r'.overridden = r.overridden) : r'.SparesSpaces := by
  rw [SparesSpaces, heq]
  exact h

/-- A class or module has the docstring of the comments above it. -/
theorem docstringOf_eq (h : r.SparesSpaces) (source : Source) {n : Node}
    (hn : n.kind ∈ Node.spaceKinds) :
    source.docstringOf r.overridden n = source.docstringOf [] n := by
  have hnone : r.overridden.lookup n.key = none := by
    rw [List.lookup_eq_none_iff]
    intro entry he
    rw [bne_iff_ne]
    intro hkey
    have hkind := h entry he
    rw [← hkey] at hkind
    exact hkind hn
  rw [Source.docstringOf, hnone, Source.docstringOf, List.lookup_nil]

end Records.SparesSpaces

namespace Action

variable {α β : Type}

/-- An action that gives no class and no module a docstring. -/
def SparesSpaces (a : Action α) : Prop :=
  ∀ r : Records, r.store.IsKeyed → r.SparesSpaces → (runOn a r).2.SparesSpaces

theorem Declares.sparesSpaces {declared : List Declaration} {a : Action α} (h : Declares declared a) :
    SparesSpaces a := fun r hk hr => hr.of_eq (h r hk).overridden

theorem IsQuiet.sparesSpaces {a : Action α} (h : IsQuiet a) : SparesSpaces a := by
  intro r _ hr
  obtain ⟨log, hlog⟩ := h r
  rw [hlog]
  exact hr

theorem IsQuiet.sparesSpaces_bind {a : Action α} {f : α → Action β} (ha : IsQuiet a)
    (hf : ∀ x, SparesSpaces (f x)) : SparesSpaces (a >>= f) := by
  intro r hk hr
  obtain ⟨log, hlog⟩ := ha r
  rw [runOn_bind]
  cases h : runOn a r with
  | mk result r' =>
    rw [h] at hlog
    dsimp only at hlog
    subst hlog
    cases result with
    | error fault => exact hr
    | ok x => exact hf x _ hk hr

theorem SparesSpaces.guarded {a : Action Unit} (ha : SparesSpaces a) (channel : Channel)
    (message : String) : SparesSpaces (guarded channel message a) := by
  intro r hk hr
  have hfirst := ha r hk hr
  rw [runOn_guarded]
  cases h : runOn a r with
  | mk result r' =>
    rw [h] at hfirst
    cases result <;> exact hfirst

end Action

/-- A signature gives a docstring to nothing that opens a namespace. -/
theorem sparesSpaces_processSignature (c : Context) (site block : Site) :
    SparesSpaces (processSignature c site block) := by
  unfold processSignature
  cases ht : signatureTargets site with
  | error fault =>
    dsimp only
    split
    · exact (isQuiet_note _ _ _).sparesSpaces
    · exact (isQuiet_throw _).sparesSpaces
  | ok targets =>
    obtain ⟨following, target⟩ := targets
    have hraw := isQuiet_firstDocstring c [site.node, following.node, target.node]
    refine hraw.sparesSpaces_bind fun raw => ?_
    dsimp only
    refine (isQuiet_ofReading _).sparesSpaces_bind fun signed r hk hr => ?_
    rw [runOn_bind_ok (runOn_modify _ r)]
    have hupdate : Declares [] (updateDocstring c target.node
        (addDirectives signed.print (extractDirectives raw).2)) :=
      declares_updateDocstring c target.node _
    refine hupdate.sparesSpaces _ hk fun entry he => ?_
    rcases List.mem_cons.mp he with rfl | he
    · exact kind_of_signatureTargets ht
    · exact hr entry he

/-- A field declaration gives no node a docstring. -/
theorem sparesSpaces_processField (c : Context) (n : Node) (isProp : Bool) :
    SparesSpaces (processField c n isProp) := by
  have hdefine : ∀ form f, SparesSpaces (defineField c n form f) := by
    intro form f r hk hr
    have hspec := defineField_spec c n form f (List.mem_singleton_self _) hk
    exact hr.of_eq hspec.overridden
  unfold processField
  refine (isQuiet_ofExcept _).sparesSpaces_bind fun form => ?_
  refine (isQuiet_ofExcept _).sparesSpaces_bind fun name? => ?_
  cases name? with
  | none => exact (isQuiet_note _ _ _).sparesSpaces
  | some name =>
    refine (isQuiet_readField c n form isProp name).sparesSpaces_bind fun f => ?_
    refine isQuiet_get.sparesSpaces_bind fun r => ?_
    split
    · split
      · exact (isQuiet_note _ _ _).sparesSpaces_bind fun _ => hdefine form f
      · exact (isQuiet_note _ _ _).sparesSpaces
    · exact hdefine form f

/-- A statement with nothing inside it gives no class and no module a docstring. -/
theorem sparesSpaces_leaf {s : Site} (hbody : (Form.ofNode s.node).hasBody = false) (c : Context) :
    SparesSpaces (walk c s.statement) := by
  rw [Site.statement_eq]
  cases hf : Form.ofNode s.node with
  | classBody | moduleBody | singletonBody | restriction =>
    rw [hf] at hbody
    cases hbody
  | plain => exact (isQuiet_pure ()).sparesSpaces
  | illegible => exact (isQuiet_throw _).sparesSpaces
  | keyword visibility => exact (isQuiet_pure ()).sparesSpaces
  | signature block => exact (sparesSpaces_processSignature c s block).guarded _ _
  | method =>
    have hdeclares : Declares ((s.node.definedMethod? c.scope).toList.map fun m =>
        .ofMethod c.home.path m.1 m.2) (processMethod c s.node) :=
      declares_processMethod c s.node fun m hm => List.mem_map.mpr ⟨m, Option.mem_toList.mpr hm, rfl⟩
    exact hdeclares.sparesSpaces.guarded _ _
  | accessors read write =>
    have hdeclares : Declares ((Node.definedAccessors read write s.node.positionalArguments).map
        fun m => .ofMethod c.home.path m c.scope) (processAccessors c s.node read write) :=
      declares_processAccessors c s.node read write fun m hm => List.mem_map_of_mem hm
    exact hdeclares.sparesSpaces.guarded _ _
  | constant =>
    exact (declares_processConstant c s.node fun d hd => hd).sparesSpaces.guarded _ _
  | enumValues block =>
    exact (declares_processEnum c block fun d hd => hd).sparesSpaces.guarded _ _
  | field isProp => exact (sparesSpaces_processField c s.node isProp).guarded _ _

end RubyDoc

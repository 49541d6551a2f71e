import RubyDoc.Proofs.Node.Legible
import RubyDoc.Proofs.Reading
import RubyDoc.Proofs.TypeExpr.Kinds
import RubyDoc.TypeExpr.Printer

/-!
# Types of legible nodes

The type expression of a legible node has no part that could not be read, so its
documentation types are found whatever was logged before. Which types these are
is what printing says; unsupported expressions are logged and no fault.
-/

namespace RubyDoc.TypeExpr

/-- Whether every part of an expression was read. -/
def IsRead (t : TypeExpr) : Prop := Issue.illegible ∉ t.issues

/-- Whether every key and value of a shape was read. -/
def AllRead (entries : ShapeEntries) : Prop := Issue.illegible ∉ issuesOfEntries entries

theorem not_mem_issuesOfAll {ts : List TypeExpr} (h : ∀ t ∈ ts, t.IsRead) :
    Issue.illegible ∉ issuesOfAll ts := by
  induction ts with
  | nil => exact List.not_mem_nil
  | cons t ts ih =>
    rw [issuesOfAll, List.mem_append, not_or]
    exact ⟨h t List.mem_cons_self, ih fun u hu => h u (List.mem_cons_of_mem _ hu)⟩

/-- A container is read if its members are. -/
theorem isRead_ofContainer (container : String) {members : List TypeExpr}
    (h : ∀ t ∈ members, t.IsRead) : (ofContainer container members).IsRead := by
  rw [ofContainer.eq_def]
  split
  · simp [IsRead, issues]
  · next first _ name _ =>
    have hfirst := h first List.mem_cons_self
    rw [IsRead] at hfirst ⊢
    rwa [issues]
  · next key value _ =>
    split
    · have hkey := h key List.mem_cons_self
      have hvalue := h value (List.mem_cons_of_mem _ List.mem_cons_self)
      rw [IsRead] at hkey hvalue ⊢
      rw [issues, List.mem_append, not_or]
      exact ⟨hkey, hvalue⟩
    · rw [IsRead, issues]
      exact not_mem_issuesOfAll h
  · rw [IsRead, issues]
    exact not_mem_issuesOfAll h

theorem isRead_ofPlainKey? {key : Node} {t : TypeExpr} (h : ofPlainKey? key = some t) :
    t.IsRead := by
  rw [ofPlainKey?] at h
  split at h
  · cases h
    simp [IsRead, issues]
  · split at h
    · cases h
      simp [IsRead, issues]
    · cases h

section Legible

variable {n : Node} (h : n.IsLegible)

include h

theorem isRead_withText {make : String → TypeExpr} (hm : ∀ text, (make text).IsRead) :
    (withText n make).IsRead := by
  rw [withText, h.legible_eq]
  exact hm _

theorem isRead_ofReference : (ofReference n).IsRead :=
  isRead_withText h fun text => by simp [IsRead, issues]

theorem isRead_ofOther : (ofOther n).IsRead :=
  isRead_withText h fun text => by simp [IsRead, issues]

/-- A call on the type module is read, if its arguments are. -/
theorem isRead_ofMethod (name : Option String) {arguments : List TypeExpr}
    (ha : ∀ t ∈ arguments, t.IsRead) {first : Option Node} (hf : ∀ m ∈ first, m.IsLegible) :
    (ofMethod n name arguments first).IsRead := by
  unfold ofMethod
  split
  · next inner _ =>
    have hinner := ha inner List.mem_cons_self
    rw [IsRead] at hinner ⊢
    rwa [issues]
  · rw [IsRead, issues]
    exact not_mem_issuesOfAll ha
  · simp [IsRead, issues]
  · simp [IsRead, issues]
  · next argument => exact isRead_withText (hf argument rfl) fun text => by simp [IsRead, issues]
  · split
    · exact isRead_withText h fun text => by simp [IsRead, issues]
    · exact isRead_withText h fun text => by simp [IsRead, issues]
  · exact isRead_withText h fun text => by simp [IsRead, issues]

/-- Whether a legible receiver is the type module is found out. -/
theorem isModule_eq : isModule n = .ok (moduleNames.contains n.written) := by
  rw [isModule, h.legible_eq]
  rfl

/-- The receivers of a chain of calls are read. -/
theorem isProcedureChain_ok : ∃ b, isProcedureChain n = .ok b := by
  induction hw : n.weight using Nat.strongRecOn generalizing n with
  | ind w ih =>
    rw [isProcedureChain]
    split
    · next hcall =>
      split
      · exact ⟨_, rfl⟩
      · next receiver hr =>
        have hlegible := h.of_child? hr
        have hlighter := hw ▸ Node.weight_lt_of_mem_children (Node.mem_of_child? hr)
        have hrest := ih _ hlighter hlegible rfl
        rw [isModule_eq hlegible, h.callName_eq, if_pos hcall]
        cases moduleNames.contains receiver.written with
        | false => exact hrest
        | true =>
          dsimp only
          split
          · exact ⟨_, rfl⟩
          · exact hrest
    · exact ⟨_, rfl⟩

/-- The receiver of a legible call is found. -/
theorem receiverOf_ne_illegible : receiverOf n ≠ .illegible := by
  obtain ⟨b, hb⟩ := isProcedureChain_ok h
  rw [receiverOf, hb]
  cases b with
  | true => exact Receiver.noConfusion
  | false =>
    cases hr : n.child? "receiver" with
    | none => exact Receiver.noConfusion
    | some receiver =>
      dsimp only
      rw [isModule_eq (h.of_child? hr), h.callName_eq]
      cases moduleNames.contains receiver.written <;> exact Receiver.noConfusion

omit h in
/-- The keys and values of a shape are read if those of its pairs are. -/
theorem allRead_entriesOf {pairs : List Node}
    (hs : ∀ p ∈ pairs, ∀ c ∈ p.children, (ofNode c).IsRead) : AllRead (entriesOf pairs) := by
  induction pairs with
  | nil => simp [AllRead, entriesOf, issuesOfEntries]
  | cons pair pairs ih =>
    have hchild := hs pair List.mem_cons_self
    have hrest := ih fun p hp => hs p (List.mem_cons_of_mem _ hp)
    rw [entriesOf]
    split
    · next key value hkey hvalue =>
      rw [AllRead, issuesOfEntries, List.mem_append, List.mem_append, not_or, not_or]
      refine ⟨⟨?_, hchild value (Node.mem_of_child? hvalue)⟩, hrest⟩
      cases hplain : ofPlainKey? key with
      | none => exact hchild key (Node.mem_of_child? hkey)
      | some t => exact isRead_ofPlainKey? hplain
    · exact hrest

theorem isLegible_of_mem_membersOf {c : Node} (hc : c ∈ membersOf n) : c.IsLegible :=
  h.of_mem_namedChildren (List.mem_filter.mp hc).1

/-- What a legible node writes is read. -/
theorem Writes.isRead {t : TypeExpr} (hw : Writes n t) : t.IsRead := by
  induction hw with
  | reference hk => exact isRead_ofReference h
  | illegibleCall hk hr => exact absurd hr (receiverOf_ne_illegible h)
  | otherCall hk hr => exact isRead_withText h fun text => by simp [IsRead, issues]
  | typeCall hk hr hs ih =>
    refine isRead_ofMethod h _ (List.forall_mem_map.mpr fun a ha => ?_) fun m hm => ?_
    · exact ih a ha (h.of_mem_arguments ha)
    · exact h.of_mem_arguments (List.mem_of_head? hm)
  | illegibleObject hk ho hl =>
    rw [(h.of_child? ho).legible_eq] at hl
    cases hl
  | container hk ho hl hs ih =>
    refine isRead_ofContainer _ (List.forall_mem_map.mpr fun m hm => ih m hm ?_)
    obtain ⟨s, hs, heq⟩ := List.mem_map.mp hm
    exact heq ▸ h.of_mem_sites (List.mem_filter.mp hs).1
  | tuple hk hs ih =>
    rw [IsRead, issues]
    exact not_mem_issuesOfAll (List.forall_mem_map.mpr fun m hm => ih m hm (isLegible_of_mem_membersOf h hm))
  | shape hk hs ih =>
    rw [IsRead, issues]
    refine allRead_entriesOf fun p hp c hc => ih p hp c hc ?_
    exact Node.everywhere_of_mem_children (isLegible_of_mem_membersOf h (List.mem_filter.mp hp).1) hc
  | group hk hi hs ih =>
    rw [IsRead, issues]
    exact ih (isLegible_of_mem_membersOf h (hi ▸ List.mem_singleton_self _))
  | other => exact isRead_ofOther h
  | procedure | missing | nilLiteral | boolLiteral => simp [IsRead, issues]

/-- The type expression of a legible node is read. -/
theorem isRead_ofNode : (ofNode n).IsRead := (writes_ofNode n).isRead h

end Legible

/-- Issues are reported without a fault, unless one comes from an illegible part. -/
theorem report_eq (found : List Issue) (log : Log) : ((report found).runWith log).1 =
    if Issue.illegible ∈ found then .error .illegible else .ok () := by
  induction found generalizing log with
  | nil => rfl
  | cons issue rest ih =>
    cases issue with
    | illegible => rfl
    | unsupported what =>
      have hmem : Issue.illegible ∈ Issue.unsupported what :: rest ↔ Issue.illegible ∈ rest := by
        simp
      simp only [hmem]
      exact ih _

/-- The documentation types of a type that may be left out. -/
def documented (type : Option Node) : List String :=
  match type with
  | some n => (ofNode n).print.map Text.unbreak
  | none => [anyType]

/-- Converting a legible type gives its documentation types, whatever was logged. -/
theorem convertOptional_ok {type : Option Node} (h : ∀ n ∈ type, n.IsLegible) (log : Log) :
    ((convertOptional type).runWith log).1 = .ok (documented type) := by
  cases type with
  | none => rfl
  | some n =>
    have hreport := report_eq (ofNode n).issues log
    rw [if_neg (isRead_ofNode (h n rfl))] at hreport
    rw [convertOptional, convert, Reading.runWith_bind]
    cases hr : (report (ofNode n).issues).runWith log with
    | mk result log' =>
      rw [hr] at hreport
      dsimp only at hreport
      rw [hreport]
      rfl

/-- A legible type is converted. -/
theorem succeeds_convertOptional {type : Option Node} (h : ∀ n ∈ type, n.IsLegible) :
    Reading.Succeeds (convertOptional type) :=
  fun log => ⟨_, convertOptional_ok h log⟩

theorem isSteady_report (found : List Issue) : Reading.IsSteady (report found) := by
  induction found with
  | nil => exact Reading.isSteady_pure ()
  | cons issue rest ih =>
    cases issue with
    | unsupported what => exact (Reading.isSteady_note _ _ _).bind fun _ => ih
    | illegible => exact Reading.isSteady_throw _

theorem isSteady_convert (n : Node) : Reading.IsSteady (convert n) :=
  (isSteady_report _).bind fun _ => Reading.isSteady_pure _

theorem isSteady_convertOptional (type : Option Node) :
    Reading.IsSteady (convertOptional type) := by
  cases type with
  | none => exact Reading.isSteady_pure _
  | some n => exact isSteady_convert n

end RubyDoc.TypeExpr

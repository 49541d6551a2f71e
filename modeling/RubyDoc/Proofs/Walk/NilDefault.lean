import RubyDoc.Proofs.Run.Constructors
import RubyDoc.Proofs.TypeExpr.Nil
import RubyDoc.Proofs.Walk.FieldParts

/-!
# Parameters that default to nil

A constructor gives a field without a default of its own the default nil if nil is one of
the strings that its type converts to. By what these strings are, that is so exactly if
the type expression of the field admits nil on the outside.
-/

namespace RubyDoc

open RubyDoc.Action TypeExpr

/-- The default of a parameter is the one that is written, or nil for a field with nil among
its types. -/
theorem FieldRecord.parameter_cases (f : FieldRecord) :
    ∃ default, f.parameter = (f.name ++ ":", default) ∧
      (f.default.getD "" ≠ "" → default = f.default) ∧
      (f.default.getD "" = "" →
        default = some nilType ∧ nilType ∈ f.types ∨ default = none ∧ nilType ∉ f.types) := by
  refine ⟨_, rfl, fun hwritten => ?_, fun hnone => ?_⟩
  · cases hd : f.default with
    | none =>
      rw [hd] at hwritten
      exact absurd rfl hwritten
    | some text =>
      rw [hd, Option.getD_some] at hwritten
      rw [Option.filter_some, if_pos (bne_iff_ne.mpr hwritten), Option.some_or]
  · have hempty : (f.default.filter fun text => text != "") = none := by
      cases hd : f.default with
      | none => rfl
      | some text =>
        rw [hd] at hnone
        rw [Option.getD_some] at hnone
        rw [hnone]
        rfl
    rw [hempty, Option.none_or]
    by_cases hnil : nilType ∈ f.types
    · exact .inl ⟨if_pos hnil, hnil⟩
    · exact .inr ⟨if_neg hnil, hnil⟩

/-- **A parameter defaults to nil exactly if its type admits nil on the outside.** Nil is one
of the types that a type expression converts to if and only if the expression admits nil:
as the literal, its class, a nilable type, a union with such a member, or parentheses around
such a type; provided that no name in it is taken for nil, and whatever is nested in
containers. Converting fails for an illegible expression only. So in every constructor the
parameter of a field that is read with this type, and without a default that is not empty,
has the default nil if the type admits nil, and no default otherwise. -/
theorem nil_mem_convert_and_parameter (type : Option Node) (hn : ∀ t ∈ type, t.NamesNoNil) :
    (∀ log, match ((convertOptional type).runWith log).1 with
      | .ok types => nilType ∈ types ↔ ∃ t ∈ type, t.AdmitsNil
      | .error _ => ¬ ∀ t ∈ type, t.IsLegible) ∧
    ∀ (c : Context) (n : Node) (form : FieldForm) (isProp : Bool) (name : String)
      (r r' : Records) (f : FieldRecord), form.typeNode n = .ok type →
      runOn (readField c n form isProp name) r = (.ok f, r') →
      ∀ (fields : List FieldRecord) (i : Nat), fields[i]? = some f →
        ∃ default, (constructorParameters fields)[i]? = some (name ++ ":", default) ∧
          (f.default.getD "" ≠ "" → default = f.default) ∧
          (f.default.getD "" = "" →
            default = some nilType ∧ (∃ t ∈ type, t.AdmitsNil) ∨
              default = none ∧ ¬ ∃ t ∈ type, t.AdmitsNil) := by
  constructor
  · intro log
    cases hc : ((convertOptional type).runWith log).1 with
    | ok types => exact nil_mem_iff_of_convertOptional hn hc
    | error fault =>
      intro hlegible
      rw [convertOptional_ok hlegible] at hc
      cases hc
  · intro c n form isProp name r r' f htype hread fields i hf
    obtain ⟨type', options, log, htype', -, htypes, hname, -⟩ := of_runOn_readField hread
    rw [htype, Except.ok.injEq] at htype'
    rw [← htype'] at htypes
    obtain ⟨default, hparameter, hwritten, hnone⟩ := f.parameter_cases
    rw [nil_mem_iff_of_convertOptional hn htypes] at hnone
    refine ⟨default, ?_, hwritten, hnone⟩
    rw [constructorParameters_eq, List.getElem?_map, hf, Option.map_some, hparameter, hname]

/-- A type that may be nil. -/
def nilableArray : Node :=
  ⟨"call", true, none, 10, 39, ⟨0, 10⟩, ⟨0, 39⟩, some "T.nilable(T::Array[NilClass])", [
    ⟨"constant", true, some "receiver", 10, 11, ⟨0, 10⟩, ⟨0, 11⟩, some "T", []⟩,
    ⟨"identifier", true, some "method", 12, 19, ⟨0, 12⟩, ⟨0, 19⟩, some "nilable", []⟩,
    ⟨"argument_list", true, some "arguments", 19, 39, ⟨0, 19⟩, ⟨0, 39⟩,
      some "(T::Array[NilClass])", [
      ⟨"element_reference", true, none, 20, 38, ⟨0, 20⟩, ⟨0, 38⟩, some "T::Array[NilClass]", [
        ⟨"scope_resolution", true, some "object", 20, 28, ⟨0, 20⟩, ⟨0, 28⟩, some "T::Array", []⟩,
        ⟨"constant", true, none, 29, 37, ⟨0, 29⟩, ⟨0, 37⟩, some "NilClass", []⟩]⟩]⟩]⟩

/-- A field of that type. -/
def nilableField : Node :=
  ⟨"call", true, none, 0, 39, ⟨0, 0⟩, ⟨0, 39⟩, some "const :x, T.nilable(T::Array[NilClass])", [
    ⟨"identifier", true, some "method", 0, 5, ⟨0, 0⟩, ⟨0, 5⟩, some "const", []⟩,
    ⟨"argument_list", true, some "arguments", 6, 39, ⟨0, 6⟩, ⟨0, 39⟩,
      some ":x, T.nilable(T::Array[NilClass])", [
      ⟨"simple_symbol", true, none, 6, 8, ⟨0, 6⟩, ⟨0, 8⟩, some ":x", []⟩, nilableArray]⟩]⟩

/-- The field defaults to nil, by its own type and not by that of the members. -/
theorem parameter_nilableField :
    (∀ t ∈ some nilableArray, t.NamesNoNil) ∧ nilableArray.AdmitsNil ∧
    ∃ (f : FieldRecord) (log : Log), FieldForm.positional.typeNode nilableField =
        .ok (some nilableArray) ∧
      runOn (readField emptyContext nilableField .positional false "x") {} = (.ok f, { log }) ∧
      constructorParameters [f] = [("x:", some "nil")] := by
  have hnames : ∀ t ∈ some nilableArray, t.NamesNoNil := by
    rintro t ⟨⟩
    decide +kernel
  have hchain : isProcedureChain nilableArray = .ok false := by cbv
  have hadmits : nilableArray.AdmitsNil := by
    refine .nilable (by decide +kernel) (fun h => ?_) (List.cons_ne_nil _ _)
    exact Bool.false_ne_true ((isProcedureChain_iff hchain).mpr h)
  have hlegible : nilableField.IsLegible := by decide +kernel
  have hcomments : emptyContext.source.HasLegibleComments := fun _ h => absurd h List.not_mem_nil
  have hform : nilableField.fieldForm = .positional := by decide +kernel
  have htype : FieldForm.positional.typeNode nilableField = .ok (some nilableArray) := rfl
  obtain ⟨log, hread⟩ := readField_ok hlegible hcomments false "x" {}
  rw [hform] at hread
  obtain ⟨f, hf⟩ : ∃ f, f = emptyContext.source.declaredField [] "" nilableField false "x" :=
    ⟨_, rfl⟩
  have hdefault : f.default.getD "" = "" := by
    rw [hf]
    decide +kernel
  have hread' : runOn (readField emptyContext nilableField .positional false "x") {} =
      (.ok f, { log }) := by
    rw [hf]
    exact hread
  obtain ⟨default, hparameter, -, hnil⟩ := (nil_mem_convert_and_parameter _ hnames).2 emptyContext
    nilableField .positional false "x" {} { log } f htype hread' [f] 0 rfl
  refine ⟨hnames, hadmits, f, log, htype, hread', ?_⟩
  rcases hnil hdefault with ⟨rfl, -⟩ | ⟨-, hno⟩
  · exact congrArg (fun p => [p]) (Option.some.inj hparameter)
  · exact absurd ⟨nilableArray, rfl, hadmits⟩ hno

end RubyDoc

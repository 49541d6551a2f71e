import Mathlib.Data.List.Permutation
import RubyDoc.Proofs.Run.Sound
import RubyDoc.Proofs.Walk.Origin

/-!
# What signatures touch

A signature gives its docstring to the method that stands at the path of the definition after
it, if that method bears the line of the definition. Any such method was registered earlier in
the run, from a definition on a line of that number; the file of it is not looked at. Where no
other definition of the path stands on a line of that number, in whichever source, the method
comes from the definition that the signature is about.
-/

namespace RubyDoc

open RubyDoc.Action

/-! ### Changes in place -/

/-- Two changes that do the same to what stands at a path do the same to a keyed store. -/
theorem Store.IsKeyed.modify_congr {s : Store} (hk : s.IsKeyed) {path : String}
    {f g : Entity → Entity} (h : ∀ e, s.find? path = some e → f e = g e) :
    s.modify path f = s.modify path g := by
  have hentries : (s.entries.map fun entry =>
      if entry.1 == path then (entry.1, f entry.2) else entry) =
        s.entries.map fun entry => if entry.1 == path then (entry.1, g entry.2) else entry := by
    refine List.map_congr_left fun entry hentry => ?_
    split
    · next hp =>
      rw [h entry.2 (hk.find?_eq_some_iff.mpr (beq_iff_eq.mp hp ▸ hentry))]
    · rfl
  rw [Store.modify, Store.modify, hentries]

/-- Changing nothing about what stands at a path changes nothing. -/
theorem Store.modify_id (s : Store) (path : String) : s.modify path id = s := by
  have hentries : (s.entries.map fun entry : String × Entity =>
      if entry.1 == path then (entry.1, id entry.2) else entry) = s.entries := by
    refine (List.map_congr_left fun entry _ => ?_).trans (List.map_id _)
    exact ite_self entry
  rw [modify, hentries]

/-- A signature that looks up a method changes nothing, or it finds a method on the line of the
definition and gives it a docstring. -/
theorem Store.IsKeyed.editMethod_signed {s : Store} (hk : s.IsKeyed) (path docstring : String)
    (n : Node) :
    s.editMethod path (n.signed docstring) = s ∨
      ∃ e, s.find? path = some e ∧ e.isMethod = true ∧ e.line = some (n.line : Int) ∧
        s.editMethod path (n.signed docstring) = s.modify path fun e => { e with docstring } := by
  rw [Store.editMethod]
  by_cases h : ∃ e, s.find? path = some e ∧ e.isMethod = true ∧ e.line = some (n.line : Int)
  · obtain ⟨e, hfind, hmethod, hline⟩ := h
    refine .inr ⟨e, hfind, hmethod, hline, hk.modify_congr fun found hfound => ?_⟩
    obtain rfl : e = found := Option.some.inj (hfind.symm.trans hfound)
    rw [if_pos hmethod, Node.signed, if_pos (beq_iff_eq.mpr hline)]
  · refine .inl ((hk.modify_congr fun found hfound => ?_).trans (s.modify_id path))
    split
    · next hmethod =>
      rw [Node.signed, if_neg fun hline => h ⟨found, hfound, hmethod, beq_iff_eq.mp hline⟩]
      rfl
    · rfl

namespace Definition

/-- A method stands at the path of a definition, with the file and the line of it. -/
def Stands (x : Definition) (s : Store) : Prop := ∃ e, s.find? x.path = some e ∧ x.Marks e

/-- A method comes from a definition: a step of a history read the definition and put the
method with its file and its line where none of them stood, and one stands there ever since. -/
def Originates (x : Definition) (r : Records) (history : List Deed) : Prop :=
  ∃ before d after, history = before ++ d :: after ∧ x ∈ d.definitions ∧
    ¬ x.Stands (r.after before).store ∧
    ∀ later, later <+: after → x.Stands (r.after (before ++ d :: later)).store

variable {x : Definition} {r : Records} {history : List Deed} {d : Deed}

/-- The definition was read in the history. -/
theorem Originates.mem (h : x.Originates r history) : x ∈ history.flatMap Deed.definitions := by
  obtain ⟨before, d, after, rfl, hx, -⟩ := h
  exact List.mem_flatMap.mpr ⟨d, List.mem_append_right _ List.mem_cons_self, hx⟩

/-- A method that comes from a definition does so after a step that it outlasts. -/
theorem Originates.concat (h : x.Originates r history)
    (hstands : x.Stands (r.after (history ++ [d])).store) : x.Originates r (history ++ [d]) := by
  obtain ⟨before, first, after, rfl, hx, hnew, hsince⟩ := h
  refine ⟨before, first, after ++ [d], by simp, hx, hnew, fun later hlater => ?_⟩
  rcases List.prefix_concat_iff.mp hlater with rfl | hlater
  · rw [← List.cons_append, ← List.append_assoc]
    exact hstands
  · exact hsince later hlater

/-- A method that a step puts where none with its file and line stood comes from the definition
that the step read. -/
theorem Originates.last (hx : x ∈ d.definitions) (hnew : ¬ x.Stands (r.after history).store)
    (hstands : x.Stands (r.after (history ++ [d])).store) : x.Originates r (history ++ [d]) := by
  refine ⟨history, d, [], rfl, hx, hnew, fun later hlater => ?_⟩
  rw [List.prefix_nil.mp hlater]
  exact hstands

end Definition

namespace Run

/-- The fresh store has no methods. -/
theorem isMethod_start {config : Config} {path : String} {e : Entity}
    (h : (start config none).records.store.find? path = some e) : e.isMethod = false := by
  have hroot : e = Entity.newRoot :=
    congrArg Prod.snd (List.mem_singleton.mp (Store.mem_entries_of_find? h))
  rw [hroot]
  rfl

/-- Every method in the store of a run comes from a definition. -/
theorem exists_origin {config : Config} {history : List Deed} {path : String} {e : Entity}
    (hfind : ((start config none).records.after history).store.find? path = some e)
    (hmethod : e.isMethod = true) :
    ∃ x : Definition, x.path = path ∧ x.Marks e ∧
      x.Originates (start config none).records history := by
  -- by the last step: it left the method its file and line, or it read a definition
  induction history using List.reverseRecOn generalizing e with
  | nil => exact absurd (isMethod_start hfind) (hmethod ▸ Bool.noConfusion)
  | append_singleton history d ih =>
    have hk := (isSound_of_reaches (reaches_iff.mpr ⟨history, rfl⟩) :
      ((start config none).records.after history).store.IsSound).isKeyed
    have hkept : ∀ e₀, ((start config none).records.after history).store.find? path = some e₀ →
        e₀.KeepsMark e → ∃ x : Definition, x.path = path ∧ x.Marks e ∧
          x.Originates (start config none).records (history ++ [d]) := by
      intro e₀ hbefore hkeeps
      obtain ⟨x, rfl, hmarks, horigin⟩ := ih hbefore (hkeeps.isMethod.symm.trans hmethod)
      exact ⟨x, rfl, hmarks.keeps hkeeps, horigin.concat ⟨e, hfind, hmarks.keeps hkeeps⟩⟩
    have hstep := hfind
    rw [Records.after_concat] at hstep
    rcases (d.credits hk).method path e hstep hmethod with ⟨e₀, hbefore, hkeeps⟩ | hdefined
    · exact hkept e₀ hbefore hkeeps
    · obtain ⟨x, hx, rfl, hmarks⟩ := hdefined
      by_cases hstood : x.Stands ((start config none).records.after history).store
      · obtain ⟨e₀, hbefore, hmarks₀⟩ := hstood
        refine hkept e₀ hbefore ⟨hmethod.trans hmarks₀.isMethod.symm, ?_, ?_⟩
        · rw [hmarks.file, hmarks₀.file]
        · rw [hmarks.line, hmarks₀.line]
      · exact ⟨x, rfl, hmarks, .last hx hstood ⟨e, hfind, hmarks⟩⟩

/-- **A signature touches no more than a method on the line of its definition.** Every run of a
fresh processor comes to its records by a history of steps, which read sites in the trees of the
sources that the run is given and nothing else. A signature that is read after any history leaves
the store, or it changes the docstring of one method and nothing else. That method stands at the
path of the definition that the signature resolves to, and it comes from a definition that was
read earlier, on a line of the same number. If the definition that the signature resolves to is
the only one of that path on such a line that was read, in any source, then the method comes from
this very node of this very source. -/
theorem signature_touchesDefinition (config : Config) :
    (∀ given run, IsGivenOnly config given run →
      ∃ history, (start config none).records.after history = run.records ∧
        ∀ d ∈ history, Deed.IsOf given d) ∧
    ∀ (history : List Deed) (c : Context) (site block : Site) (r r' : Records),
      (start config none).records.after history = r →
      (runOn (processSignature c site block) r).2 = r' →
      r'.store = r.store ∨
      ∃ (following target : Site) (docstring : String) (x : Definition),
        signatureTargets site = .ok (following, target) ∧
        c.signedPath? target.node = some x.path ∧
        r'.store = r.store.modify x.path (fun e => { e with docstring }) ∧
        x.Stands r.store ∧ x.Originates (start config none).records history ∧
        x.node.line = target.node.line ∧
        ((∀ y ∈ history.flatMap Deed.definitions, y.path = x.path →
            y.node.line = target.node.line → y.node = target.node ∧ y.source = c.source) →
          x.node = target.node ∧ x.source = c.source) := by
  refine ⟨fun given run h => h.readsTo, ?_⟩
  rintro history c site block r r' rfl rfl
  have hk := (isSound_of_reaches (reaches_iff.mpr ⟨history, rfl⟩) :
    ((start config none).records.after history).store.IsSound).isKeyed
  generalize hr : (start config none).records.after history = r at hk ⊢
  have hsigns := signs_processSignature c site block r
  generalize (runOn (processSignature c site block) r).2.store = s' at hsigns ⊢
  cases hsigns with
  | nothing => exact .inl rfl
  | @method following target docstring path htargets hpath =>
    refine (hk.editMethod_signed path docstring target.node).imp_right ?_
    rintro ⟨e, hfind, hmethod, hline, hedited⟩
    obtain ⟨x, rfl, hmarks, horigin⟩ := exists_origin (hr ▸ hfind) hmethod
    have hsame : x.node.line = target.node.line := by
      have hlines := hmarks.line.symm.trans hline
      exact Int.ofNat_inj.mp (Option.some.inj hlines)
    exact ⟨following, target, docstring, x, htargets, hpath, hedited, ⟨e, hfind, hmarks⟩, horigin,
      hsame, fun honly => honly x horigin.mem rfl hsame⟩

/-- The block of a signature. -/
def voidBlock : Node :=
  ⟨"block", true, some "block", 4, 12, ⟨0, 4⟩, ⟨0, 12⟩, some "\x7b void \x7d", [
    ⟨"\x7b", false, none, 4, 5, ⟨0, 4⟩, ⟨0, 5⟩, some "\x7b", []⟩,
    ⟨"block_body", true, some "body", 6, 10, ⟨0, 6⟩, ⟨0, 10⟩, some "void", [
      ⟨"identifier", true, none, 6, 10, ⟨0, 6⟩, ⟨0, 10⟩, some "void", []⟩]⟩,
    ⟨"\x7d", false, none, 11, 12, ⟨0, 11⟩, ⟨0, 12⟩, some "\x7d", []⟩]⟩

/-- A signature with that block. -/
def voidSignature : Node :=
  ⟨"call", true, none, 0, 12, ⟨0, 0⟩, ⟨0, 12⟩, some "sig \x7b void \x7d", [
    ⟨"identifier", true, some "method", 0, 3, ⟨0, 0⟩, ⟨0, 3⟩, some "sig", []⟩, voidBlock]⟩

/-- The definition that the signature is about. -/
def signedMethod : Node :=
  ⟨"method", true, none, 13, 23, ⟨1, 0⟩, ⟨1, 10⟩, some "def m; end", [
    ⟨"def", false, none, 13, 16, ⟨1, 0⟩, ⟨1, 3⟩, some "def", []⟩,
    ⟨"identifier", true, some "name", 17, 18, ⟨1, 4⟩, ⟨1, 5⟩, some "m", []⟩,
    ⟨";", false, none, 18, 19, ⟨1, 5⟩, ⟨1, 6⟩, some ";", []⟩,
    ⟨"end", false, none, 20, 23, ⟨1, 7⟩, ⟨1, 10⟩, some "end", []⟩]⟩

/-- A source with both. -/
def signedTree : Node :=
  ⟨"program", true, none, 0, 23, ⟨0, 0⟩, ⟨1, 10⟩, some "sig \x7b void \x7d\ndef m; end", [
    voidSignature, signedMethod]⟩

/-- The text of that tree. -/
def signedText : SourceText :=
  { text := signedTree.written, path := "(string)", outcome := .tree signedTree false }

/-- The context at the top level of that tree. -/
def signedContext : Context :=
  { source := Source.ofTree signedTree signedTree.written "(string)" false
    config := {}
    home := Store.rootHandle }

/-- The records after the definition alone was read. -/
def definedRecords : Records := (start {} none).records.after [.method signedContext signedMethod]

/-- The block says that nothing is returned, and no more. -/
theorem ofBlock_voidBlock : SignatureFacts.ofBlock ⟨voidBlock, some voidSignature, 1⟩ =
    return { returns := some [TypeExpr.voidType] } := by
  obtain ⟨visited, hvisited, hwords⟩ : ∃ visited,
      Site.levelOrder ⟨voidBlock, some voidSignature, 1⟩ = (visited, none) ∧
        SignatureFacts.meetAll {} visited =
          return { returns := some [TypeExpr.voidType] } := ⟨_, by cbv, rfl⟩
  rw [SignatureFacts.ofBlock, hvisited]
  dsimp only
  rw [hwords]
  rfl

/-- The signature read behind its definition gives a docstring to the method of that definition. -/
theorem originates_signedMethod :
    (∃ history, (start {} none).records.after history =
        ((start {} none).document signedText).records ∧
      ∀ d ∈ history, Deed.IsOf (· = signedContext.source) d) ∧
    ∃ (r' : Records) (docstring : String) (x : Definition),
      (runOn (processSignature signedContext ⟨voidSignature, some signedTree, 0⟩
        ⟨voidBlock, some voidSignature, 1⟩) definedRecords).2 = r' ∧
      r'.store ≠ definedRecords.store ∧
      r'.store = definedRecords.store.modify x.path (fun e => { e with docstring }) ∧
      x.Originates (start {} none).records [.method signedContext signedMethod] ∧
      x.node = signedMethod ∧ x.source = signedContext.source := by
  obtain ⟨hruns, hsignatures⟩ := signature_touchesDefinition {}
  have hgiven : ∀ root hasErrors, signedText.outcome = .tree root hasErrors →
      Source.ofTree root signedText.text signedText.path hasErrors = signedContext.source := by
    rintro root hasErrors ⟨⟩
    rfl
  refine ⟨hruns (· = signedContext.source) _ (.source .start hgiven), ?_⟩
  obtain ⟨r', hr'⟩ : ∃ r', (runOn (processSignature signedContext
      ⟨voidSignature, some signedTree, 0⟩
      ⟨voidBlock, some voidSignature, 1⟩) definedRecords).2 = r' := ⟨_, rfl⟩
  have hbefore : (definedRecords.store.find? "#m").map Entity.docstring = some "" := by
    decide +kernel
  have hafter : (r'.store.find? "#m").map Entity.docstring = some "@return [void]" := by
    rw [← hr']
    unfold processSignature applySignature
    rw [ofBlock_voidBlock]
    decide +kernel
  have hchanged : r'.store ≠ definedRecords.store := by
    intro hsame
    rw [hsame, hbefore] at hafter
    exact absurd hafter (by decide)
  refine ⟨r', ?_⟩
  rcases hsignatures _ signedContext ⟨voidSignature, some signedTree, 0⟩
    ⟨voidBlock, some voidSignature, 1⟩ definedRecords r' rfl hr' with hsame | hedited
  · exact absurd hsame hchanged
  · obtain ⟨following, target, docstring, x, htargets, -, hstore, -, horigin, -, honly⟩ := hedited
    have htarget : target.node = signedMethod := by
      have hresolved : (signatureTargets ⟨voidSignature, some signedTree, 0⟩).map
          (fun t => t.2.node) = .ok signedMethod := rfl
      rw [htargets] at hresolved
      exact Except.ok.inj hresolved
    obtain ⟨hnode, hsource⟩ := honly fun y hy _ _ => by
      have hread : [Deed.method signedContext signedMethod].flatMap Deed.definitions =
          [signedContext.definition signedMethod "m" .onInstances] := rfl
      rw [hread, List.mem_singleton] at hy
      rw [hy, htarget]
      exact ⟨rfl, rfl⟩
    exact ⟨docstring, x, hr', hchanged, hstore, horigin, hnode.trans htarget, hsource⟩

end Run

end RubyDoc

import RubyDoc.Proofs.Action
import RubyDoc.Proofs.ObjectPath
import RubyDoc.Proofs.Store
import RubyDoc.Proofs.Walk.ConstructorDocstring

/-!
# Making a constructor twice

Making the constructor of a class again right after the first time changes
nothing but the docstring of the constructor, and not even that where the
docstring is settled. The log, the serial numbers of namespaces and the number
of times that a constructor was made are no part of what is compared.
-/

namespace RubyDoc

open RubyDoc.Action

/-! ### What one time does -/

/-- The path of the constructor of a class. -/
def constructorPath (path : String) : String := path ++ "#" ++ constructorName

/-- The constructor of a class, registered or new. -/
def constructorAt (s : Store) (path : String) : Entity :=
  s.findOrNewMethod path constructorName .onInstances

/-- The change that gives a constructor the parameters and the source of fields. -/
def Context.revised (c : Context) (n : Node) (fields : List FieldRecord) (e : Entity) : Entity :=
  let e := e.mapFacts fun f =>
    { f with parameters := constructorParameters fields
             explicit := some (f.explicit.getD false) }
  let source := e.source.getD (Text.joinLines (fields.map FieldRecord.source))
  let e := { e with source := some source }
  if e.file.isNone then c.declaredAt n e else e

section Revised

variable (c : Context) (n : Node) (fields : List FieldRecord) (e : Entity)

/-- A constructor stays the same object: its path, home and docstring stay. -/
theorem revised_same :
    (c.revised n fields e).path = e.path ∧ (c.revised n fields e).home = e.home ∧
      (c.revised n fields e).docstring = e.docstring ∧
      (c.revised n fields e).isMethod = e.isMethod := by
  obtain ⟨name, home, docstring, source, file, line, kind⟩ := e
  unfold Context.revised
  cases kind <;> cases file <;> exact ⟨rfl, rfl, rfl, rfl⟩

/-- Revising again changes nothing, whatever docstring was put in meanwhile. -/
theorem revised_revised (docstring : String) :
    c.revised n fields { c.revised n fields e with docstring } =
      { c.revised n fields e with docstring } := by
  obtain ⟨name, home, earlier, source, file, line, kind⟩ := e
  unfold Context.revised
  cases kind <;> cases file <;> rfl

/-- Revising twice in a row is revising once. -/
theorem revised_idem : c.revised n fields (c.revised n fields e) = c.revised n fields e :=
  revised_revised c n fields e (c.revised n fields e).docstring

end Revised

/-- The docstring that the constructor of a class is given. -/
def Records.newDocstring (r : Records) (path : String) : String :=
  constructorDocstring path (r.fields.fieldsFor path) (constructorAt r.store path).docstring

/-- The store once the constructor of a class has its parameters. -/
def Records.revisedStore (r : Records) (c : Context) (n : Node) (path : String) : Store :=
  r.store.editMethod (constructorAt r.store path).path (c.revised n (r.fields.fieldsFor path))

/-- The constructor of a class once it has its parameters. -/
def Records.revisedMethod (r : Records) (c : Context) (n : Node) (path : String) : Entity :=
  c.revised n (r.fields.fieldsFor path) (constructorAt r.store path)

section Runs

variable (c : Context) (n : Node) (path classPath : String) {r : Records}

/-- Making the constructor of a class ends in a fault if it cannot be registered; it
has its parameters all the same. -/
theorem runOn_synthesise_error (hf : r.fields.fieldsFor path ≠ []) {fault : Fault}
    (ha : (r.revisedStore c n path).attach (r.revisedMethod c n path) = .error fault) :
    runOn (synthesiseConstructor c n path classPath) r =
      (.error fault, { r with store := r.revisedStore c n path }) := by
  have hne : (!(r.fields.fieldsFor path).isEmpty) = true := by simpa using hf
  have hreg := runOn_register (r.revisedMethod c n path)
    ((r.store.method? path constructorName .onInstances).isSome)
    { r with store := r.revisedStore c n path }
  dsimp only at hreg
  rw [ha] at hreg
  unfold synthesiseConstructor
  rw [runOn_bind_ok (runOn_get r), if_pos hne, runOn_bind_ok (runOn_inStore _ r),
    runOn_bind_ok (runOn_inStore _ r), runOn_bind_ok (runOn_revise _ _ r)]
  exact runOn_bind_error hreg _

/-- Making the constructor of a class registers it with its parameters and gives it
its docstring. -/
theorem runOn_synthesise_ok (hf : r.fields.fieldsFor path ≠ []) {s : Store}
    (ha : (r.revisedStore c n path).attach (r.revisedMethod c n path) = .ok s) :
    ∃ log, runOn (synthesiseConstructor c n path classPath) r =
      (.ok (), { r with
        store := s.editMethod (r.revisedMethod c n path).path fun e =>
          { e with docstring := r.newDocstring path }
        fields := r.fields.markSynthesised path
        log }) := by
  have hne : (!(r.fields.fieldsFor path).isEmpty) = true := by simpa using hf
  have hreg := runOn_register (r.revisedMethod c n path)
    ((r.store.method? path constructorName .onInstances).isSome)
    { r with store := r.revisedStore c n path }
  dsimp only at hreg
  rw [ha] at hreg
  dsimp only at hreg
  unfold synthesiseConstructor
  rw [runOn_bind_ok (runOn_get r), if_pos hne, runOn_bind_ok (runOn_inStore _ r),
    runOn_bind_ok (runOn_inStore _ r), runOn_bind_ok (runOn_revise _ _ r)]
  exact ⟨_, runOn_bind_ok hreg _⟩

end Runs

/-! ### The constructor in a keyed store -/

section Keyed

variable {s : Store} (h : s.IsKeyed) (path : String)

include h

/-- The constructor of a class is a method at the path of the constructor. -/
theorem constructorAt_spec :
    (constructorAt s path).isMethod = true ∧ (constructorAt s path).path = constructorPath path :=
  Store.findOrNewMethod_spec h path constructorName .onInstances

end Keyed

/-- A method that stands at the path of the constructor is the constructor. -/
theorem constructorAt_eq {s : Store} {path : String} {e : Entity}
    (hf : s.find? (constructorPath path) = some e) (hm : e.isMethod = true) :
    constructorAt s path = e := by
  have hpath : (Entity.newMethod path constructorName .onInstances).path = constructorPath path := rfl
  rw [constructorAt, Store.findOrNewMethod, Store.method?, hpath, hf]
  dsimp only
  rw [if_pos hm]
  rfl

/-- Whether there is a namespace around the constructor of a class. -/
def HasConstructorHome (s : Store) (path : String) : Prop :=
  ∃ home m, s.find? (constructorAt s path).home = some home ∧ home.members? = some m

/-- The records after the constructor of a class was made. -/
structure IsSynthesised (c : Context) (n : Node) (path : String) (r r' : Records) : Prop where
  /-- The constructor is there, its home lists it, and all else is as before. -/
  find? : ∀ p, r'.store.find? p =
    if p = constructorPath path then
      some { r.revisedMethod c n path with docstring := r.newDocstring path }
    else if p = (constructorAt r.store path).home then
      (r.store.find? p).map (Entity.mapMembers fun m => m.adopt (constructorPath path))
    else r.store.find? p
  /-- Only the path of the constructor is taken anew. -/
  keys : r'.store.keys = if r.store.contains (constructorPath path) then r.store.keys
    else r.store.keys ++ [constructorPath path]
  /-- The first root stays where it is. -/
  formerRoot : r'.store.formerRoot = r.store.formerRoot
  /-- The fields of the class count as used. -/
  fields : r'.fields = r.fields.markSynthesised path
  /-- No node is given a docstring. -/
  overridden : r'.overridden = r.overridden

section Once

variable (c : Context) (n : Node) (path classPath : String) {r : Records} (hk : r.store.IsKeyed)
  (hf : r.fields.fieldsFor path ≠ [])

include hk

/-- The revised constructor is a method at the path of the constructor. -/
theorem revisedMethod_spec :
    (r.revisedMethod c n path).isMethod = true ∧
      (r.revisedMethod c n path).path = constructorPath path ∧
      (r.revisedMethod c n path).home = (constructorAt r.store path).home ∧
      (constructorAt r.store path).home ≠ constructorPath path := by
  obtain ⟨hm, hp⟩ := constructorAt_spec hk path
  obtain ⟨hpath, hhome, -, hmethod⟩ :=
    revised_same c n (r.fields.fieldsFor path) (constructorAt r.store path)
  refine ⟨hmethod.trans hm, hpath.trans hp, hhome, fun he => ?_⟩
  exact (Entity.path_ne_of_isMethod hm).1 (hp.trans he.symm)

/-- The home of the constructor is there after revising if it was there before. -/
theorem attach_revised_ok_iff :
    (∃ s, (r.revisedStore c n path).attach (r.revisedMethod c n path) = .ok s) ↔
      HasConstructorHome r.store path := by
  obtain ⟨hm, hp⟩ := constructorAt_spec hk path
  obtain ⟨-, -, hhome, hne⟩ := revisedMethod_spec c n path hk
  have hsame : (r.revisedStore c n path).find? (constructorAt r.store path).home =
      r.store.find? (constructorAt r.store path).home := by
    rw [Records.revisedStore, Store.find?_editMethod, hp, if_neg hne]
  constructor
  · rintro ⟨s, ha⟩
    obtain ⟨home, m, hfind, hmem, -⟩ := (Store.attach_eq_ok_iff _ _ _).mp ha
    rw [hhome, hsame] at hfind
    exact ⟨home, m, hfind, hmem⟩
  · rintro ⟨home, m, hfind, hmem⟩
    rw [← hsame, ← hhome] at hfind
    exact ⟨_, (Store.attach_eq_ok_iff _ _ _).mpr ⟨home, m, hfind, hmem, rfl⟩⟩

include hf

/-- With its home there, the constructor of a class is made. -/
theorem synthesise_ok (hhome : HasConstructorHome r.store path) :
    ∃ r', runOn (synthesiseConstructor c n path classPath) r = (.ok (), r') ∧
      IsSynthesised c n path r r' := by
  obtain ⟨s, ha⟩ := (attach_revised_ok_iff c n path hk).mpr hhome
  obtain ⟨log, hrun⟩ := runOn_synthesise_ok c n path classPath hf ha
  obtain ⟨hm, hp⟩ := constructorAt_spec hk path
  obtain ⟨hmethod, hpath, hhome', hne⟩ := revisedMethod_spec c n path hk
  have hpathne : (r.revisedMethod c n path).path ≠ (r.revisedMethod c n path).home := by
    rw [hpath, hhome']
    exact hne.symm
  have hnumbered : (r.revisedStore c n path).numbered (r.revisedMethod c n path) =
      r.revisedMethod c n path := Entity.mapMembers_of_isMethod _ hmethod
  have hfind := Store.find?_attach ha hpathne
  refine ⟨_, hrun, ?_, ?_, ?_, rfl, rfl⟩
  · intro p
    dsimp only
    rw [Store.find?_editMethod, hfind p, hpath, hnumbered]
    by_cases hq : p = constructorPath path
    · rw [if_pos hq, if_pos hq, if_pos hq, Option.map_some, if_pos hmethod]
    · rw [if_neg hq, if_neg hq, if_neg hq, hhome', Records.revisedStore, Store.find?_editMethod,
        hp, if_neg hq]
  · dsimp only
    rw [Store.keys_editMethod, Store.keys_attach ha, hpath, Records.revisedStore,
      Store.keys_editMethod, Store.contains, Store.find?_editMethod, hp, if_pos rfl,
      Option.isSome_map, Store.contains]
  · have hroot : (r.revisedMethod c n path).path ≠ "" := (Entity.path_ne_of_isMethod hmethod).2
    have hsame : s.formerRoot = (r.revisedStore c n path).formerRoot :=
      Store.formerRoot_attach ha hpathne hroot
    exact hsame

/-- Without its home, the constructor of a class has its parameters if it is there,
and nothing else happens. -/
theorem synthesise_error (hhome : ¬ HasConstructorHome r.store path) :
    ∃ fault, runOn (synthesiseConstructor c n path classPath) r =
      (.error fault, { r with store := r.revisedStore c n path }) := by
  rw [← attach_revised_ok_iff c n path hk] at hhome
  cases ha : (r.revisedStore c n path).attach (r.revisedMethod c n path) with
  | ok s => exact absurd ⟨s, ha⟩ hhome
  | error fault => exact ⟨fault, runOn_synthesise_error c n path classPath hf ha⟩

end Once

/-! ### A second time -/

/-- The records after an attempt to make the constructor of a class. -/
def afterSynthesis (c : Context) (n : Node) (path classPath : String) (r : Records) : Records :=
  (runOn (synthesiseConstructor c n path classPath) r).2

/-- What is compared of two records: all objects, the first root, the fields, and
which namespaces have fields without a constructor. -/
structure Records.SameObjects (r r' : Records) : Prop where
  /-- The same objects stand at the same paths, in the same order. -/
  entries : r'.store.entries = r.store.entries
  /-- The first root is where it was. -/
  formerRoot : r'.store.formerRoot = r.store.formerRoot
  /-- The fields are the same. -/
  fields : r'.fields.entries = r.fields.entries
  /-- The same namespaces lack a constructor. -/
  unsynthesised : r'.fields.unsynthesised = r.fields.unsynthesised

/-- Noting twice in a row that a constructor was made is noting it once. -/
theorem Ledger.unsynthesised_markSynthesised_twice (l : Ledger) (home : String) :
    ((l.markSynthesised home).markSynthesised home).unsynthesised =
      (l.markSynthesised home).unsynthesised := by
  have hlookup : ∀ p, ((l.markSynthesised home).markSynthesised home).synthesised.lookup p =
      (l.markSynthesised home).synthesised.lookup p := by
    intro p
    rw [markSynthesised, markSynthesised]
    dsimp only
    rw [List.lookup_cons, List.lookup_cons]
    cases p == home <;> rfl
  rw [unsynthesised, unsynthesised]
  congr 1
  refine List.filter_congr fun entry _ => ?_
  rw [hlookup]

namespace IsSynthesised

variable {c : Context} {n : Node} {path : String} {r r' : Records} (hk : r.store.IsKeyed)
  (h : IsSynthesised c n path r r')

include hk h

/-- Making a constructor keeps entities under their paths. -/
theorem isKeyed : r'.store.IsKeyed := by
  obtain ⟨-, hpath, -, -⟩ := revisedMethod_spec c n path hk
  constructor
  · rw [h.keys]
    split
    · exact hk.nodup
    · next hc =>
      rw [List.nodup_append]
      refine ⟨hk.nodup, by simp, fun p hp q hq he => hc ?_⟩
      rw [he, List.mem_singleton.mp hq] at hp
      exact Store.contains_of_mem_keys hp
  · intro p e hf
    rw [h.find?] at hf
    split at hf
    · next hp =>
      rw [← Option.some.inj hf, Entity.path_docstring, hp, hpath]
    · split at hf
      · obtain ⟨home, hhome, rfl⟩ := Option.map_eq_some_iff.mp hf
        rw [Entity.path_mapMembers]
        exact hk.path p home hhome
      · exact hk.path p e hf

/-- The constructor that was made is found. -/
theorem constructorAt_eq : constructorAt r'.store path =
    { r.revisedMethod c n path with docstring := r.newDocstring path } := by
  obtain ⟨hmethod, -, -, -⟩ := revisedMethod_spec c n path hk
  refine RubyDoc.constructorAt_eq ?_ (by rw [Entity.isMethod_docstring, hmethod])
  rw [h.find?, if_pos rfl]

omit hk in
/-- The same fields are there. -/
theorem fieldsFor_eq : r'.fields.fieldsFor path = r.fields.fieldsFor path := by
  rw [h.fields]
  rfl

/-- The constructor that was made is not revised further. -/
theorem revisedMethod_eq : r'.revisedMethod c n path =
    { r.revisedMethod c n path with docstring := r.newDocstring path } := by
  rw [Records.revisedMethod, h.constructorAt_eq hk, h.fieldsFor_eq]
  exact revised_revised c n _ _ _

/-- The home of the constructor is there once it was made. -/
theorem hasConstructorHome (hhome : HasConstructorHome r.store path) :
    HasConstructorHome r'.store path := by
  obtain ⟨home, m, hfind, hmem⟩ := hhome
  obtain ⟨-, -, hsame, hne⟩ := revisedMethod_spec c n path hk
  have hhome' : (constructorAt r'.store path).home = (constructorAt r.store path).home := by
    rw [h.constructorAt_eq hk]
    exact hsame
  refine ⟨home.mapMembers fun m => m.adopt (constructorPath path),
    m.adopt (constructorPath path), ?_, ?_⟩
  · rw [hhome', h.find?, if_neg hne, if_pos rfl, hfind, Option.map_some]
  · rw [Entity.members?_mapMembers, hmem, Option.map_some]

/-- A constructor that is made again differs in its docstring at most. -/
theorem sameObjects_iff {r'' : Records} (h' : IsSynthesised c n path r' r'') :
    Records.SameObjects r' r'' ↔ r'.newDocstring path = r.newDocstring path := by
  have hkeyed := h.isKeyed hk
  obtain ⟨-, -, hsame, hne⟩ := revisedMethod_spec c n path hk
  have hhome' : (constructorAt r'.store path).home = (constructorAt r.store path).home := by
    rw [h.constructorAt_eq hk]
    exact hsame
  have hthere := h.find? (constructorPath path)
  rw [if_pos rfl] at hthere
  constructor
  · intro hs
    have hfind := h'.find? (constructorPath path)
    rw [if_pos rfl, Store.find?, hs.entries, ← Store.find?, hthere, Option.some.injEq] at hfind
    have hd := congrArg Entity.docstring hfind
    dsimp only at hd
    exact hd.symm
  · intro hd
    have hkeys : r''.store.keys = r'.store.keys := by
      rw [h'.keys, Store.contains, hthere]
      rfl
    refine ⟨Store.entries_eq_of_find? hkeys hkeyed.nodup fun p _ => ?_, h'.formerRoot, ?_, ?_⟩
    · rw [h'.find?, hhome']
      split
      · next hp =>
        rw [hp, hthere, h.revisedMethod_eq hk, hd]
      · next hp =>
        split
        · next hph =>
          rw [h.find?, if_neg hp, if_pos hph, Option.map_map]
          refine congrArg (fun f => Option.map f (r.store.find? p)) (funext fun e => ?_)
          rw [Function.comp_apply, Entity.mapMembers_adopt_adopt]
        · rfl
    · rw [h'.fields]
      rfl
    · rw [h'.fields, h.fields, Ledger.unsynthesised_markSynthesised_twice]

end IsSynthesised

/-! ### Without the home of the constructor -/

section NoHome

variable (c : Context) (n : Node) (path : String) {r : Records} (hk : r.store.IsKeyed)

include hk

/-- Revising changes the methods at the path of the constructor and nothing else. -/
theorem find?_revisedStore (p : String) : (r.revisedStore c n path).find? p =
    if p = constructorPath path then (r.store.find? p).map fun e =>
      if e.isMethod then c.revised n (r.fields.fieldsFor path) e else e
    else r.store.find? p := by
  rw [Records.revisedStore, Store.find?_editMethod, (constructorAt_spec hk path).2]

/-- Revising keeps entities under their paths. -/
theorem isKeyed_revisedStore : (r.revisedStore c n path).IsKeyed := by
  constructor
  · rw [Records.revisedStore, Store.keys_editMethod]
    exact hk.nodup
  · intro p e he
    rw [find?_revisedStore c n path hk] at he
    split at he
    · obtain ⟨old, hold, rfl⟩ := Option.map_eq_some_iff.mp he
      split
      · rw [(revised_same c n _ old).1]
        exact hk.path p old hold
      · exact hk.path p old hold
    · exact hk.path p e he

/-- Where there is no constructor yet, revising makes none. -/
theorem constructorAt_revisedStore :
    constructorAt (r.revisedStore c n path) path = constructorAt r.store path ∨
      constructorAt (r.revisedStore c n path) path = r.revisedMethod c n path := by
  obtain ⟨hmethod, -, -, -⟩ := revisedMethod_spec c n path hk
  have hpath : (Entity.newMethod path constructorName .onInstances).path = constructorPath path := rfl
  have hfind := find?_revisedStore c n path hk (constructorPath path)
  rw [if_pos rfl] at hfind
  cases hf : r.store.find? (constructorPath path) with
  | none =>
    left
    rw [hf, Option.map_none] at hfind
    rw [constructorAt, Store.findOrNewMethod, Store.method?, hpath, hfind, constructorAt,
      Store.findOrNewMethod, Store.method?, hpath, hf]
  | some e =>
    rw [hf, Option.map_some] at hfind
    by_cases hm : e.isMethod = true
    · right
      have he := constructorAt_eq hf hm
      rw [if_pos hm, ← he] at hfind
      exact constructorAt_eq hfind hmethod
    · left
      rw [if_neg hm] at hfind
      rw [constructorAt, Store.findOrNewMethod, Store.method?, hpath, hfind, constructorAt,
        Store.findOrNewMethod, Store.method?, hpath, hf]

/-- Without its home, a constructor that cannot be registered cannot be the second
time, and revising it again changes nothing. -/
theorem sameObjects_of_no_home (classPath : String) (hf : r.fields.fieldsFor path ≠ [])
    (hhome : ¬ HasConstructorHome r.store path) :
    Records.SameObjects (afterSynthesis c n path classPath r)
      (afterSynthesis c n path classPath (afterSynthesis c n path classPath r)) := by
  obtain ⟨-, -, hsame, hne⟩ := revisedMethod_spec c n path hk
  have hkeyed := isKeyed_revisedStore c n path hk
  obtain ⟨fault, hrun⟩ := synthesise_error c n path classPath hk hf hhome
  have hfirst : afterSynthesis c n path classPath r =
      { r with store := r.revisedStore c n path } := by
    rw [afterSynthesis, hrun]
  have hhomeAgain : (constructorAt (r.revisedStore c n path) path).home =
      (constructorAt r.store path).home := by
    rcases constructorAt_revisedStore c n path hk with he | he
    · rw [he]
    · rw [he, hsame]
  have hnone : ¬ HasConstructorHome (r.revisedStore c n path) path := by
    rintro ⟨home, m, hfind, hmem⟩
    rw [hhomeAgain, find?_revisedStore c n path hk, if_neg hne] at hfind
    exact hhome ⟨home, m, hfind, hmem⟩
  obtain ⟨fault', hrun'⟩ := synthesise_error c n path classPath
    (r := { r with store := r.revisedStore c n path }) hkeyed hf hnone
  have hsecond : afterSynthesis c n path classPath { r with store := r.revisedStore c n path } =
      { r with store := Records.revisedStore { r with store := r.revisedStore c n path } c n path } := by
    rw [afterSynthesis, hrun']
  have hfind := find?_revisedStore c n path (r := { r with store := r.revisedStore c n path }) hkeyed
  rw [hfirst, hsecond]
  refine ⟨Store.entries_eq_of_find? ?_ hkeyed.nodup fun p _ => ?_, rfl, rfl, rfl⟩
  · rw [Records.revisedStore, Store.keys_editMethod]
  · rw [hfind p]
    split
    · next hp =>
      rw [find?_revisedStore c n path hk, if_pos hp, Option.map_map]
      congr 1
      funext e
      rw [Function.comp_apply]
      by_cases hm : e.isMethod = true
      · rw [if_pos hm, (revised_same c n _ e).2.2.2, if_pos hm]
        exact revised_idem c n _ e
      · rw [if_neg hm, if_neg hm]
    · rfl

end NoHome

/-- Making the constructor of a class a second time changes no object exactly if it
could not be made the first time or its docstring is settled. -/
theorem sameObjects_afterSynthesis_iff (c : Context) (n : Node) (path classPath : String)
    (r : Records) (hk : r.store.IsKeyed) (hf : r.fields.fieldsFor path ≠ [])
    (hr : IsRegularInput path (r.fields.fieldsFor path) (constructorAt r.store path).docstring) :
    Records.SameObjects (afterSynthesis c n path classPath r)
        (afterSynthesis c n path classPath (afterSynthesis c n path classPath r)) ↔
      ¬ HasConstructorHome r.store path ∨
        IsSettled (r.fields.fieldsFor path) (constructorAt r.store path).docstring := by
  by_cases hhome : HasConstructorHome r.store path
  · obtain ⟨r', hrun, hs⟩ := synthesise_ok c n path classPath hk hf hhome
    have hf' : r'.fields.fieldsFor path ≠ [] := by rwa [hs.fieldsFor_eq]
    obtain ⟨r'', hrun', hs'⟩ := synthesise_ok c n path classPath (hs.isKeyed hk) hf'
      (hs.hasConstructorHome hk hhome)
    have hfirst : afterSynthesis c n path classPath r = r' := by rw [afterSynthesis, hrun]
    have hsecond : afterSynthesis c n path classPath r' = r'' := by rw [afterSynthesis, hrun']
    have hdoc : r'.newDocstring path = constructorDocstring path (r.fields.fieldsFor path)
        (r.newDocstring path) := by
      rw [Records.newDocstring, hs.constructorAt_eq hk, hs.fieldsFor_eq]
    rw [hfirst, hsecond, hs.sameObjects_iff hk hs', hdoc, Records.newDocstring,
      constructorDocstring_twice_eq_iff hr]
    simp only [hhome, not_true_eq_false, false_or]
  · simp only [hhome, not_false_eq_true, true_or, iff_true]
    exact sameObjects_of_no_home c n path hk classPath hf hhome

/-- A class with one field, whose comment has two paragraphs. -/
def paragraphRecords : Records :=
  { store := { entries := [
      ("", { name := "", kind := .root { children := ["Job"] } }),
      ("Job", { name := "Job", kind := .classSpace { serial := 1 } none })] }
    fields := { entries := [("Job", [
      { home := "Job", name := "size", types := ["Integer"], source := "const :size, Integer"
        doc := "Counts the lines.\n\nBlank lines count." }])] } }

/-- The top level of an empty source. -/
def emptyContext : Context :=
  { source := { root := default, text := "", path := "job.rb", hasErrors := false, comments := [] }
    config := {}
    home := Store.rootHandle }

/-- A comment with two paragraphs is not settled: its second paragraph falls to the
prose the second time. -/
theorem not_sameObjects_paragraphRecords :
    ¬ Records.SameObjects (afterSynthesis emptyContext default "Job" "Job" paragraphRecords)
      (afterSynthesis emptyContext default "Job" "Job"
        (afterSynthesis emptyContext default "Job" "Job" paragraphRecords)) := by
  have hkeyed : paragraphRecords.store.IsKeyed := Store.isKeyed_of_forall (by decide) (by decide)
  have hregular : IsRegularInput "Job" (paragraphRecords.fields.fieldsFor "Job")
      (constructorAt paragraphRecords.store "Job").docstring := by
    refine ⟨by decide, fun f hf => ?_, by decide +kernel, by decide +kernel⟩
    have hone : f = (paragraphRecords.fields.fieldsFor "Job").head (by decide) :=
      List.mem_singleton.mp hf
    subst hone
    exact ⟨by decide, by decide⟩
  rw [sameObjects_afterSynthesis_iff emptyContext default "Job" "Job" paragraphRecords hkeyed
    (by decide) hregular]
  rintro (hhome | hsettled)
  · exact hhome ⟨_, _, rfl, rfl⟩
  · exact absurd (hsettled.comments _ List.mem_cons_self) (by decide)

end RubyDoc

import Mathlib.Data.List.Permutation
import RubyDoc.Proofs.Walk.Constructor
import RubyDoc.Proofs.Walk.LevelOrder
import RubyDoc.Proofs.Walk.Visible

/-!
# The values of an enumeration

An enumeration registers one constant for each name that is assigned in its block. The
assignments are taken in the order of the source, so of several with one name the last
one counts, and the children of the namespace are listed in the order of the first ones.
Nothing else in the store changes. A visit of the block meets exactly the assignments
outside the arguments of `params` and `returns` calls, at any depth.
-/

namespace RubyDoc

open RubyDoc.Action ObjectPath

/-! ### Children in order of first mention -/

/-- Children that are adopted one after the other are listed once each, behind those that
were there, in the order in which they are first mentioned. -/
theorem Members.exists_added (m : Members) (paths : List String) :
    ∃ added, paths.foldl Members.adopt m = { m with children := m.children ++ added } ∧
      added.Nodup ∧ (∀ p, p ∈ added ↔ p ∉ m.children ∧ p ∈ paths) ∧
      added.Pairwise fun p q => ∃ before after, paths = before ++ p :: after ∧ q ∉ before := by
  induction paths generalizing m with
  | nil => exact ⟨[], by simp, List.nodup_nil, by simp, .nil⟩
  | cons x xs ih =>
    by_cases hx : x ∈ m.children
    · obtain ⟨added, hfold, hnodup, hmem, hpairs⟩ := ih m
      have hadopt : m.adopt x = m := if_pos (List.contains_iff_mem.mpr hx)
      refine ⟨added, by rw [List.foldl_cons, hadopt, hfold], hnodup, fun p => ?_, ?_⟩
      · rw [hmem, List.mem_cons]
        refine and_congr_right fun hp => (or_iff_right ?_).symm
        rintro rfl
        exact hp hx
      · refine hpairs.imp_of_mem fun {p q} _ hq => ?_
        rintro ⟨before, after, rfl, hbefore⟩
        refine ⟨x :: before, after, rfl, List.not_mem_cons_of_ne_of_not_mem ?_ hbefore⟩
        rintro rfl
        exact ((hmem q).mp hq).1 hx
    · obtain ⟨added, hfold, hnodup, hmem, hpairs⟩ := ih (m.adopt x)
      have hadopt : m.adopt x = { m with children := m.children ++ [x] } :=
        if_neg fun h => hx (List.contains_iff_mem.mp h)
      rw [hadopt] at hfold hmem
      have hne : ∀ p ∈ added, p ≠ x := by
        rintro p hp rfl
        exact ((hmem p).mp hp).1 (List.mem_append_right _ (List.mem_singleton_self p))
      refine ⟨x :: added, ?_, ?_, fun p => ?_, ?_⟩
      · rw [List.foldl_cons, hadopt, hfold, List.append_assoc]
        rfl
      · exact List.nodup_cons.mpr ⟨fun hmem' => hne x hmem' rfl, hnodup⟩
      · rw [List.mem_cons, List.mem_cons, hmem, List.mem_append, List.mem_singleton]
        by_cases hp : p = x
        · simp [hp, hx]
        · simp [hp]
      · refine List.pairwise_cons.mpr ⟨fun q hq => ⟨[], xs, rfl, List.not_mem_nil⟩, ?_⟩
        refine hpairs.imp_of_mem fun {p q} _ hq => ?_
        rintro ⟨before, after, rfl, hbefore⟩
        exact ⟨x :: before, after, rfl, List.not_mem_cons_of_ne_of_not_mem (hne q hq) hbefore⟩

/-- Two changes that do the same to the members of a namespace do the same to it. -/
theorem Entity.mapMembers_congr {e : Entity} {m : Members} {f g : Members → Members}
    (hm : e.members? = some m) (h : f m = g m) : e.mapMembers f = e.mapMembers g := by
  obtain ⟨name, home, docstring, source, file, line, kind⟩ := e
  cases kind <;> cases hm <;> simp only [mapMembers, EntityKind.mapMembers, h]

/-- Changing no members changes nothing. -/
theorem Entity.mapMembers_id (e : Entity) : (e.mapMembers fun m => m) = e := by
  have hkind : (e.kind.mapMembers fun m => m) = e.kind := by cases e.kind <;> rfl
  rw [mapMembers, hkind]

/-! ### One assignment -/

namespace Node

/-- The name of the constant that a node assigns, if it is an assignment to a constant. -/
def assignedName? (n : Node) : Option String := n.constantAssignment.map fun a => a.1.written

/-- The text of the value that a node assigns. -/
def assignedValue (n : Node) : String := (n.constantAssignment.map fun a => a.2.written).getD ""

end Node

/-- The constant that an assignment declares in a namespace, with a docstring. -/
def Context.constantOf (c : Context) (n : Node) (name docstring : String) : Entity :=
  { name, home := c.home.path, docstring, source := some n.written
    file := some c.source.path, line := some n.line, kind := .constant n.assignedValue }

section Assignment

variable {c : Context} {n : Node} {r r' : Records}

/-- Registering an assignment that comes to its end attaches its constant. -/
theorem of_runOn_registerConstant {left right : Node}
    (ha : n.constantAssignment = some (left, right))
    {e : Entity} (h : runOn (registerConstant c n left right) r = (.ok e, r')) :
    ∃ docstring, c.source.docstringOf r.overridden n = .ok docstring ∧
      r.store.attach (c.constantOf n left.written docstring) = .ok r'.store ∧
      r'.fields = r.fields ∧ r'.overridden = r.overridden := by
  unfold registerConstant at h
  obtain ⟨name, r₁, hname, h⟩ := exists_of_runOn_bind_ok h
  obtain ⟨docstring, r₂, hdocstring, h⟩ := exists_of_runOn_bind_ok h
  obtain ⟨source, r₃, hsource, h⟩ := exists_of_runOn_bind_ok h
  obtain ⟨value, r₄, hvalue, h⟩ := exists_of_runOn_bind_ok h
  obtain ⟨_, r₅, hregister, h⟩ := exists_of_runOn_bind_ok h
  have hend : r₅ = r' := (Prod.mk.inj h).2
  obtain ⟨hname', rfl⟩ := of_runOn_read hname
  obtain ⟨hfound, rfl⟩ := of_runOn_docstringOf hdocstring
  obtain ⟨hsource', rfl⟩ := of_runOn_read hsource
  obtain ⟨hvalue', rfl⟩ := of_runOn_read hvalue
  have hconstant : c.constantOf n left.written docstring =
      c.declaredAt n { name, home := c.home.path, docstring, source, kind := .constant value } := by
    rw [Context.constantOf, Node.assignedValue, ha, hname', hsource', hvalue']
    rfl
  rw [← hconstant, runOn_register] at hregister
  refine ⟨docstring, hfound, ?_⟩
  cases hattach : r₄.store.attach (c.constantOf n left.written docstring) with
  | error fault =>
    rw [hattach] at hregister
    cases hregister
  | ok s =>
    rw [hattach] at hregister
    rw [← hend, ← (Prod.mk.inj hregister).2]
    exact ⟨rfl, rfl, rfl⟩

/-- What is found after a constant with a name is attached. -/
theorem find?_attach_constantOf {name docstring : String} (hne : name ≠ "") {s s' : Store}
    (h : s.attach (c.constantOf n name docstring) = .ok s') (path : String) :
    s'.find? path =
      if path = join c.home.path name then some (c.constantOf n name docstring)
      else if path = c.home.path then
        (s.find? path).map (Entity.mapMembers fun m => m.adopt (join c.home.path name))
      else s.find? path :=
  Store.find?_attach h (join_ne hne) path

/-- Attaching a constant with a name leaves a namespace where it is attached. -/
theorem shapeAt_attach_constantOf {name docstring : String} (hne : name ≠ "") {s s' : Store}
    (h : s.attach (c.constantOf n name docstring) = .ok s') :
    s'.shapeAt c.home.path = s.shapeAt c.home.path := by
  rw [Store.shapeAt, find?_attach_constantOf hne h, if_neg (join_ne hne).symm, if_pos rfl,
    Option.map_map, Store.shapeAt]
  congr 1
  funext e
  exact Entity.shape_mapMembers e _

/-- An assignment to a constant has the two sides for children. -/
theorem Node.of_constantAssignment {left right : Node}
    (h : n.constantAssignment = some (left, right)) :
    n.child? "left" = some left ∧ n.child? "right" = some right := by
  rw [constantAssignment] at h
  split at h
  · split at h
    · next l r hl hr =>
      split at h
      · rw [Option.some.injEq, Prod.mk.injEq] at h
        exact ⟨h.1 ▸ hl, h.2 ▸ hr⟩
      · cases h
    · cases h
  · cases h

/-- Registering a legible assignment in a namespace comes to its end. -/
theorem exists_runOn_registerConstant {left right : Node} (hn : n.IsLegible)
    (hc : c.source.HasLegibleComments) (ha : n.constantAssignment = some (left, right))
    (hhome : r.store.shapeAt c.home.path = some .namespace) :
    ∃ e r', runOn (registerConstant c n left right) r = (.ok e, r') := by
  obtain ⟨hleft, hright⟩ := Node.of_constantAssignment ha
  unfold registerConstant
  rw [runOn_bind_ok (runOn_read (hn.of_child? hleft) r),
    runOn_bind_ok (runOn_docstringOf hc n r), runOn_bind_ok (runOn_read hn r),
    runOn_bind_ok (runOn_read (hn.of_child? hright) r)]
  dsimp only
  rw [runOn_bind, runOn_register]
  obtain ⟨s, hs⟩ := Store.exists_attach (s := r.store) (e := c.declaredAt n
    { name := left.written, home := c.home.path, docstring := c.source.docText r.overridden n
      source := some n.written, kind := .constant right.written }) hhome
  rw [hs]
  exact ⟨_, _, rfl⟩

end Assignment

/-! ### All assignments -/

/-- The names that some nodes assign, in their order. -/
def assignedNames (ns : List Node) : List String := ns.filterMap Node.assignedName?

/-- What registering the constants of some assignments leaves: for each name the constant of
the last assignment, listed by the namespace, and everything else as it was. -/
structure Records.HasAssigned (c : Context) (ns : List Node) (home : Entity) (r r' : Records) :
    Prop where
  /-- For every name there is the constant of its last assignment. -/
  value : ∀ name ∈ assignedNames ns, ∃ before n after docstring, ns = before ++ n :: after ∧
    n.assignedName? = some name ∧ name ∉ assignedNames after ∧
    c.source.docstringOf r.overridden n = .ok docstring ∧
    r'.store.find? (join c.home.path name) = some (c.constantOf n name docstring)
  /-- The namespace adopts the constants. -/
  home : r'.store.find? c.home.path = some (home.mapMembers fun m =>
    ((assignedNames ns).map (join c.home.path)).foldl Members.adopt m)
  /-- What stands at other paths stays. -/
  other : ∀ path, path ≠ c.home.path → path ∉ (assignedNames ns).map (join c.home.path) →
    r'.store.find? path = r.store.find? path
  /-- A root that was replaced stays. -/
  formerRoot : r'.store.formerRoot = r.store.formerRoot
  /-- No field is recorded. -/
  fields : r'.fields = r.fields
  /-- No node is given a docstring. -/
  overridden : r'.overridden = r.overridden

/-- Registering one assignment, and then others. -/
theorem Records.HasAssigned.cons {c : Context} {n : Node} {ns : List Node} {home : Entity}
    {name docstring : String} {r r₁ r' : Records} (hname : n.assignedName? = some name)
    (hne : name ≠ "") (hdocstring : c.source.docstringOf r.overridden n = .ok docstring)
    (hattach : r.store.attach (c.constantOf n name docstring) = .ok r₁.store)
    (hfields : r₁.fields = r.fields) (hoverridden : r₁.overridden = r.overridden)
    (hhome : r.store.find? c.home.path = some home)
    (hrest : ∀ home₁, r₁.store.find? c.home.path = some home₁ →
      r₁.HasAssigned c ns home₁ r') :
    r.HasAssigned c (n :: ns) home r' := by
  have hnames : assignedNames (n :: ns) = name :: assignedNames ns :=
    List.filterMap_cons_some hname
  have hne' : join c.home.path name ≠ c.home.path := join_ne hne
  have hfind := find?_attach_constantOf hne hattach
  have hhome₁ : r₁.store.find? c.home.path =
      some (home.mapMembers fun m => m.adopt (join c.home.path name)) := by
    rw [hfind, if_neg hne'.symm, if_pos rfl, hhome, Option.map_some]
  have hafter := hrest _ hhome₁
  refine ⟨?_, ?_, ?_, ?_, hafter.fields.trans hfields, hafter.overridden.trans hoverridden⟩
  · intro called hcalled
    by_cases hlater : called ∈ assignedNames ns
    · obtain ⟨before, n', after, docstring', rfl, hname', hlast, hdoc, hat⟩ :=
        hafter.value called hlater
      rw [hoverridden] at hdoc
      exact ⟨n :: before, n', after, docstring', rfl, hname', hlast, hdoc, hat⟩
    · rw [hnames, List.mem_cons, or_iff_left hlater] at hcalled
      subst hcalled
      refine ⟨[], n, ns, docstring, rfl, hname, hlater, hdocstring, ?_⟩
      have hnot : join c.home.path called ∉ (assignedNames ns).map (join c.home.path) := by
        rw [List.mem_map]
        rintro ⟨x, hx, heq⟩
        exact hlater (join_inj heq ▸ hx)
      rw [hafter.other _ hne' hnot, hfind, if_pos rfl]
  · rw [hafter.home, Entity.mapMembers_mapMembers, hnames]
    rfl
  · intro path hpne hnot
    rw [hnames, List.map_cons, List.mem_cons, not_or] at hnot
    rw [hafter.other path hpne hnot.2, hfind, if_neg hnot.1, if_neg hpne]
  · rw [hafter.formerRoot]
    exact Store.formerRoot_attach hattach hne' (join_ne_empty hne)

/-- Registering the values of an enumeration, if it comes to its end. -/
theorem hasAssigned_registerValues {c : Context} {ns : List Node}
    (hns : ∀ n ∈ ns, ∃ name, n.assignedName? = some name ∧ name ≠ "") {home : Entity}
    {r r' : Records} (hhome : r.store.find? c.home.path = some home)
    (h : runOn (registerValues c ns) r = (.ok (), r')) : r.HasAssigned c ns home r' := by
  induction ns generalizing r home with
  | nil =>
    rw [registerValues, runOn_pure, Prod.mk.injEq] at h
    rw [← h.2]
    refine ⟨fun name hname => absurd hname List.not_mem_nil, ?_, fun _ _ _ => rfl, rfl, rfl, rfl⟩
    rw [hhome]
    exact congrArg some (Entity.mapMembers_id home).symm
  | cons n ns ih =>
    obtain ⟨name, hname, hne⟩ := hns n List.mem_cons_self
    obtain ⟨⟨left, right⟩, ha, rfl⟩ := Option.map_eq_some_iff.mp hname
    rw [registerValues, ha] at h
    obtain ⟨e, r₁, hfirst, h⟩ := exists_of_runOn_bind_ok h
    obtain ⟨u, r₂, hnote, h⟩ := exists_of_runOn_bind_ok h
    obtain ⟨docstring, hdocstring, hattach, hfields, hoverridden⟩ :=
      of_runOn_registerConstant ha hfirst
    -- the log entry is no part of what is compared
    have hlogged := (Prod.mk.inj hnote).2
    have hstore : r₂.store = r₁.store := hlogged ▸ rfl
    have hrecorded : r₂.fields = r₁.fields ∧ r₂.overridden = r₁.overridden := hlogged ▸ ⟨rfl, rfl⟩
    rw [← hstore] at hattach
    exact .cons hname hne hdocstring hattach (hrecorded.1.trans hfields)
      (hrecorded.2.trans hoverridden) hhome fun home₁ hhome₁ =>
        ih (fun m hm => hns m (List.mem_cons_of_mem _ hm)) hhome₁ h

/-- Registering the values of a legible enumeration in a namespace comes to its end. -/
theorem exists_runOn_registerValues {c : Context} (hc : c.source.HasLegibleComments)
    {ns : List Node} (hlegible : ∀ n ∈ ns, n.IsLegible)
    (hns : ∀ n ∈ ns, ∃ name, n.assignedName? = some name ∧ name ≠ "") {r : Records}
    (hhome : r.store.shapeAt c.home.path = some .namespace) :
    ∃ r', runOn (registerValues c ns) r = (.ok (), r') := by
  induction ns generalizing r with
  | nil => exact ⟨r, rfl⟩
  | cons n ns ih =>
    obtain ⟨name, hname, hne⟩ := hns n List.mem_cons_self
    obtain ⟨⟨left, right⟩, ha, rfl⟩ := Option.map_eq_some_iff.mp hname
    obtain ⟨e, r₁, hfirst⟩ :=
      exists_runOn_registerConstant (hlegible n List.mem_cons_self) hc ha hhome
    obtain ⟨docstring, -, hattach, -⟩ := of_runOn_registerConstant ha hfirst
    rw [registerValues, ha]
    dsimp only
    rw [runOn_bind_ok hfirst, runOn_bind_ok (runOn_note _ _ _ _)]
    refine ih (fun m hm => hlegible m (List.mem_cons_of_mem _ hm))
      (fun m hm => hns m (List.mem_cons_of_mem _ hm)) ?_
    dsimp only
    rw [shapeAt_attach_constantOf hne hattach, hhome]

/-! ### The assignments of a block -/

/-- A node in a block that assigns a constant of a name. The arguments of `params` and
`returns` calls are no part of the block. -/
def Site.Assigns (block : Site) (name : String) (n : Node) : Prop :=
  (∃ s, block.Reaches s ∧ s.node = n) ∧ n.assignedName? = some name

/-- The last of the nodes that assign a constant of a name, as the source goes. -/
def Site.AssignsLast (block : Site) (name : String) (n : Node) : Prop :=
  block.Assigns name n ∧ ∀ m, block.Assigns name m → m.startByte ≤ n.startByte

/-- The assignments that are read off a block are those in it, in the order of the source. -/
theorem of_enumAssignments {block : Site} {ns : List Node} (h : enumAssignments block = .ok ns) :
    (∀ n, n ∈ ns ↔ ∃ name, block.Assigns name n) ∧
      ns.Pairwise fun n n' => n.startByte ≤ n'.startByte := by
  rw [enumAssignments] at h
  cases hvisit : block.levelOrder with
  | mk visited fault =>
    cases fault with
    | some fault =>
      rw [hvisit] at h
      cases h
    | none =>
      rw [hvisit] at h
      have hend : block.levelOrder.2 = none := by rw [hvisit]
      have hmet : ∀ s, s ∈ visited ↔ block.Reaches s := fun s => by
        rw [← Site.mem_levelOrder_iff hend, hvisit]
      rw [← Except.ok.inj h]
      constructor
      · intro n
        have hassigns : n.constantAssignment.isSome = true ↔
            ∃ name, n.assignedName? = some name := by
          rw [← Option.isSome_iff_exists, Node.assignedName?, Option.isSome_map]
        rw [List.mem_mergeSort, List.mem_filter, List.mem_map, hassigns]
        simp only [hmet, Site.Assigns, exists_and_left]
      · have htrans : ∀ a b c : Node, decide (a.startByte ≤ b.startByte) = true →
            decide (b.startByte ≤ c.startByte) = true → decide (a.startByte ≤ c.startByte) = true :=
          fun a b c hab hbc =>
            decide_eq_true (Int.le_trans (of_decide_eq_true hab) (of_decide_eq_true hbc))
        have htotal : ∀ a b : Node, (decide (a.startByte ≤ b.startByte) ||
            decide (b.startByte ≤ a.startByte)) = true := fun a b => by
          simp only [Bool.or_eq_true, decide_eq_true_eq]
          exact Int.le_total _ _
        exact (List.pairwise_mergeSort htrans htotal _).imp fun hle => of_decide_eq_true hle

/-- What an enumeration leaves in a namespace with some members: one constant for each name
that is assigned in its block, listed by the namespace, and everything else as it was. -/
structure Records.HasValues (c : Context) (block : Site) (home : Entity) (m : Members)
    (r r' : Records) : Prop where
  /-- For every name there is the constant of its last assignment. -/
  value : ∀ name n, block.Assigns name n → ∃ last docstring, block.AssignsLast name last ∧
    c.source.docstringOf r.overridden last = .ok docstring ∧
    r'.store.find? (join c.home.path name) = some (c.constantOf last name docstring)
  /-- The namespace lists the constants that it did not list before, once each, in the order
  of their first assignments; beside its children it stays. -/
  home : ∃ added,
    r'.store.find? c.home.path =
      some (home.mapMembers fun m => { m with children := m.children ++ added }) ∧
    added.Nodup ∧
    (∀ path, path ∈ added ↔ path ∉ m.children ∧
      ∃ name n, block.Assigns name n ∧ path = join c.home.path name) ∧
    added.Pairwise fun path path' => ∃ name n, block.Assigns name n ∧
      path = join c.home.path name ∧ ∀ name' n', block.Assigns name' n' →
        path' = join c.home.path name' → n.startByte < n'.startByte
  /-- What stands at other paths stays. -/
  other : ∀ path, path ≠ c.home.path →
    (∀ name n, block.Assigns name n → path ≠ join c.home.path name) →
    r'.store.find? path = r.store.find? path
  /-- A root that was replaced stays. -/
  formerRoot : r'.store.formerRoot = r.store.formerRoot
  /-- No field is recorded. -/
  fields : r'.fields = r.fields
  /-- No node is given a docstring. -/
  overridden : r'.overridden = r.overridden

section Enumeration

variable {c : Context} {block : Site} {ns : List Node}
  (hmem : ∀ n, n ∈ ns ↔ ∃ name, block.Assigns name n)
  (hsorted : ns.Pairwise fun n n' => n.startByte ≤ n'.startByte)

include hmem

/-- The names that are assigned in a block. -/
theorem mem_assignedNames_iff (name : String) :
    name ∈ assignedNames ns ↔ ∃ n, block.Assigns name n := by
  rw [assignedNames, List.mem_filterMap]
  constructor
  · rintro ⟨n, hn, hname⟩
    obtain ⟨name', hassigns⟩ := (hmem n).mp hn
    exact ⟨n, hassigns.1, hname⟩
  · rintro ⟨n, hassigns⟩
    exact ⟨n, (hmem n).mpr ⟨name, hassigns⟩, hassigns.2⟩

include hsorted

/-- The last assignment in a list is the last one of the source. -/
theorem assignsLast_of_split {name : String} {before after : List Node} {n : Node}
    (hsplit : ns = before ++ n :: after) (hname : n.assignedName? = some name)
    (hlast : name ∉ assignedNames after) : block.AssignsLast name n := by
  have hn : n ∈ ns := hsplit ▸ List.mem_append_right _ List.mem_cons_self
  obtain ⟨name', hassigns⟩ := (hmem n).mp hn
  refine ⟨⟨hassigns.1, hname⟩, fun n' hn' => ?_⟩
  rw [hsplit, List.pairwise_append] at hsorted
  have hmem' := (hmem n').mpr ⟨name, hn'⟩
  rw [hsplit, List.mem_append, List.mem_cons] at hmem'
  rcases hmem' with hbefore | rfl | hafter
  · exact hsorted.2.2 n' hbefore n List.mem_cons_self
  · exact Int.le_refl _
  · exact absurd (List.mem_filterMap.mpr ⟨n', hafter, hn'.2⟩) hlast

/-- What is mentioned first in a list is assigned first in the source. -/
theorem exists_first_of_split {home path path' : String} {before after : List String}
    (hsplit : (assignedNames ns).map (join home) = before ++ path :: after) (hne : path ≠ path')
    (hnot : path' ∉ before) :
    ∃ name n, block.Assigns name n ∧ path = join home name ∧ ∀ name' n', block.Assigns name' n' →
      path' = join home name' → n ≠ n' ∧ n.startByte ≤ n'.startByte := by
  obtain ⟨names, rest, hnames, rfl, hrest⟩ := List.map_eq_append_iff.mp hsplit
  obtain ⟨name, later, rfl, rfl, -⟩ := List.map_eq_cons_iff.mp hrest
  obtain ⟨ns₁, ns₂, rfl, rfl, hsecond⟩ := List.filterMap_eq_append_iff.mp hnames
  obtain ⟨skipped, n, ns₃, rfl, hskipped, hname, -⟩ := List.filterMap_eq_cons_iff.mp hsecond
  obtain ⟨name', hassigns⟩ := (hmem n).mp (by simp)
  refine ⟨name, n, ⟨hassigns.1, hname⟩, rfl, fun called n' hn' hpath => ?_⟩
  have hother : n ≠ n' := by
    rintro rfl
    rw [hn'.2, Option.some.injEq] at hname
    exact hne (by rw [hpath, hname])
  refine ⟨hother, ?_⟩
  have hmem' := (hmem n').mpr ⟨called, hn'⟩
  rw [List.pairwise_append] at hsorted
  rcases List.mem_append.mp hmem' with hfirst | hlater
  · refine absurd (List.mem_map.mpr ⟨called, ?_, hpath.symm⟩) hnot
    exact List.mem_filterMap.mpr ⟨n', hfirst, hn'.2⟩
  · rcases List.mem_append.mp hlater with hskip | hlater
    · have hnone := hn'.2
      rw [hskipped n' hskip] at hnone
      cases hnone
    · rcases List.mem_cons.mp hlater with rfl | hlater
      · exact absurd rfl hother
      · have hpairs := (List.pairwise_append.mp hsorted.2.1).2.1
        exact List.rel_of_pairwise_cons hpairs hlater

end Enumeration

/-- The assignments of a legible block can be read off it. -/
theorem not_enumAssignments_error {fault : Fault} (h : block.node.IsLegible) :
    enumAssignments block ≠ .error fault := by
  intro herror
  have hend := (Site.levelOrder_legible h).2
  rw [enumAssignments] at herror
  split at herror
  · next visited fault' hvisit =>
    rw [hvisit] at hend
    cases hend
  · cases herror

/-- What is registered for the assignments in a block, told by the block. -/
theorem Records.HasAssigned.hasValues {c : Context} {block : Site} {ns : List Node} {home : Entity}
    {m : Members} {r r' : Records} (h : r.HasAssigned c ns home r')
    (hmem : ∀ n, n ∈ ns ↔ ∃ name, block.Assigns name n)
    (hsorted : ns.Pairwise fun n n' => n.startByte ≤ n'.startByte)
    (hm : home.members? = some m)
    (hstarts : ∀ name name' n n', block.Assigns name n → block.Assigns name' n' →
      n.startByte = n'.startByte → n = n') :
    r.HasValues c block home m r' := by
  have hpath : ∀ path, path ∈ (assignedNames ns).map (join c.home.path) ↔
      ∃ name n, block.Assigns name n ∧ path = join c.home.path name := fun path => by
    simp only [List.mem_map, mem_assignedNames_iff hmem]
    exact ⟨fun ⟨name, ⟨n, hn⟩, heq⟩ => ⟨name, n, hn, heq.symm⟩,
      fun ⟨name, n, hn, heq⟩ => ⟨name, ⟨n, hn⟩, heq.symm⟩⟩
  refine ⟨fun name n hn => ?_, ?_, fun path hne hnone => ?_, h.formerRoot, h.fields, h.overridden⟩
  · obtain ⟨before, last, after, docstring, hsplit, hname, hlast, hdocstring, hfound⟩ :=
      h.value name ((mem_assignedNames_iff hmem name).mpr ⟨n, hn⟩)
    exact ⟨last, docstring, assignsLast_of_split hmem hsorted hsplit hname hlast, hdocstring,
      hfound⟩
  · obtain ⟨added, hfold, hnodup, hadded, hpairs⟩ :=
      m.exists_added ((assignedNames ns).map (join c.home.path))
    refine ⟨added, ?_, hnodup, fun path => ?_, ?_⟩
    · rw [h.home]
      exact congrArg some (Entity.mapMembers_congr hm hfold)
    · rw [hadded, hpath]
    · refine (hnodup.and hpairs).imp fun {path path'} => ?_
      rintro ⟨hne, before, after, hsplit, hnot⟩
      obtain ⟨name, n, hn, heq, hfirst⟩ := exists_first_of_split hmem hsorted hsplit hne hnot
      refine ⟨name, n, hn, heq, fun name' n' hn' heq' => ?_⟩
      obtain ⟨hother, hle⟩ := hfirst name' n' hn' heq'
      have hbytes : n.startByte ≠ n'.startByte := fun hbyte =>
        hother (hstarts name name' n n' hn hn' hbyte)
      exact Int.lt_iff_le_and_ne.mpr ⟨hle, hbytes⟩
  · refine h.other path hne fun hin => ?_
    obtain ⟨name, n, hn, heq⟩ := (hpath path).mp hin
    exact hnone name n hn heq

/-- **An enumeration registers its values and nothing else.** Reading an enumeration in a
registered namespace leaves, for each name that is assigned in the block outside the arguments
of `params` and `returns` calls, the constant of the last assignment of that name, with the
docstring, the source, the value and the line of that assignment. The namespace lists the new
constants in the order of their first assignments. No other object, no field and no attribute
changes. Reading fails for an illegible block or comment only. Different assignments are
supposed to start at different bytes, and their names not to be empty. -/
theorem processEnum_hasValues {c : Context} {block : Site} {r : Records} {home : Entity}
    {m : Members} (hhome : r.store.find? c.home.path = some home) (hm : home.members? = some m)
    (hstarts : ∀ name name' n n', block.Assigns name n → block.Assigns name' n' →
      n.startByte = n'.startByte → n = n')
    (hnames : ∀ name n, block.Assigns name n → name ≠ "") :
    match runOn (processEnum c block) r with
    | (.ok _, r') => r.HasValues c block home m r'
    | (.error _, _) => ¬ (block.node.IsLegible ∧ c.source.HasLegibleComments) := by
  unfold processEnum
  rw [runOn_bind, runOn_ofExcept]
  cases hread : enumAssignments block with
  | error fault => exact fun h => not_enumAssignments_error h.1 hread
  | ok ns =>
    obtain ⟨hmem, hsorted⟩ := of_enumAssignments hread
    have hnamed : ∀ n ∈ ns, ∃ name, n.assignedName? = some name ∧ name ≠ "" := fun n hn => by
      obtain ⟨name, hassigns⟩ := (hmem n).mp hn
      exact ⟨name, hassigns.2, hnames name n hassigns⟩
    dsimp only
    split
    · next u r' hrun =>
      exact (hasAssigned_registerValues hnamed hhome hrun).hasValues hmem hsorted hm hstarts
    · next fault r' hrun =>
      rintro ⟨hblock, hcomments⟩
      have hshape : r.store.shapeAt c.home.path = some .namespace := by
        rw [Store.shapeAt, hhome, Option.map_some, home.isNamespace_iff.mp ⟨m, hm⟩]
      have hlegible : ∀ n ∈ ns, n.IsLegible := fun n hn => by
        obtain ⟨name, ⟨s, hreach, rfl⟩, -⟩ := (hmem n).mp hn
        obtain ⟨hvisited, hend⟩ := Site.levelOrder_legible hblock
        exact hvisited s ((Site.mem_levelOrder_iff hend s).mpr hreach)
      obtain ⟨r'', hends⟩ := exists_runOn_registerValues hcomments hlegible hnamed hshape
      rw [hends] at hrun
      cases hrun

/-- A chained assignment. -/
def chainedValues : Node :=
  ⟨"assignment", true, none, 5, 16, ⟨1, 2⟩, ⟨1, 13⟩, some "A = B = new", [
    ⟨"constant", true, some "left", 5, 6, ⟨1, 2⟩, ⟨1, 3⟩, some "A", []⟩,
    ⟨"assignment", true, some "right", 9, 16, ⟨1, 6⟩, ⟨1, 13⟩, some "B = new", [
      ⟨"constant", true, some "left", 9, 10, ⟨1, 6⟩, ⟨1, 7⟩, some "B", []⟩,
      ⟨"identifier", true, some "right", 13, 16, ⟨1, 10⟩, ⟨1, 13⟩, some "new", []⟩]⟩]⟩

/-- An assignment to a constant that the other one assigns too. -/
def secondValue : Node :=
  ⟨"assignment", true, none, 19, 29, ⟨2, 2⟩, ⟨2, 12⟩, some "A = new(1)", [
    ⟨"constant", true, some "left", 19, 20, ⟨2, 2⟩, ⟨2, 3⟩, some "A", []⟩,
    ⟨"call", true, some "right", 23, 29, ⟨2, 6⟩, ⟨2, 12⟩, some "new(1)", [
      ⟨"identifier", true, some "method", 23, 26, ⟨2, 6⟩, ⟨2, 9⟩, some "new", []⟩,
      ⟨"argument_list", true, some "arguments", 26, 29, ⟨2, 9⟩, ⟨2, 12⟩, some "(1)", [
        ⟨"integer", true, none, 27, 28, ⟨2, 10⟩, ⟨2, 11⟩, some "1", []⟩]⟩]⟩]⟩

/-- The block of an enumeration with both. -/
def enumBlock : Site where
  node := ⟨"do_block", true, some "block", 0, 33, ⟨0, 0⟩, ⟨3, 3⟩,
    some "do\n  A = B = new\n  A = new(1)\nend", [
    ⟨"body_statement", true, some "body", 5, 29, ⟨1, 2⟩, ⟨2, 12⟩,
      some "A = B = new\n  A = new(1)", [chainedValues, secondValue]⟩]⟩
  parent := none
  index := 0

/-- The block assigns both constants of the chain, and the first of them again. -/
theorem assigns_enumBlock : ∃ inner : Node, inner.startByte = 9 ∧
    ∀ name n, enumBlock.Assigns name n ↔
      n = chainedValues ∧ name = "A" ∨ n = inner ∧ name = "B" ∨ n = secondValue ∧ name = "A" := by
  obtain ⟨visited, inner, hvisited, hmet, hstart, hname⟩ : ∃ visited inner,
      enumBlock.levelOrder = (visited, none) ∧
        (visited.map Site.node).filter (fun n => n.constantAssignment.isSome) =
          [chainedValues, secondValue, inner] ∧
        inner.startByte = 9 ∧ inner.assignedName? = some "B" := ⟨_, _, by cbv, rfl, rfl, rfl⟩
  have hread : enumAssignments enumBlock = .ok (([chainedValues, secondValue, inner]).mergeSort
      fun a b => decide (a.startByte ≤ b.startByte)) := by
    rw [enumAssignments, hvisited]
    dsimp only
    rw [hmet]
  have hmem := (of_enumAssignments hread).1
  simp only [List.mem_mergeSort, List.mem_cons, List.not_mem_nil, or_false] at hmem
  have hassigns : ∀ n name, n.assignedName? = some name →
      n = chainedValues ∨ n = secondValue ∨ n = inner → enumBlock.Assigns name n := by
    intro n name hn hin
    obtain ⟨_, hmet, -⟩ := (hmem n).mp hin
    exact ⟨hmet, hn⟩
  refine ⟨inner, hstart, fun name n => ⟨fun hn => ?_, ?_⟩⟩
  · rcases (hmem n).mpr ⟨name, hn⟩ with rfl | rfl | rfl
    · exact .inl ⟨rfl, (Option.some.inj hn.2).symm⟩
    · exact .inr (.inr ⟨rfl, (Option.some.inj hn.2).symm⟩)
    · exact .inr (.inl ⟨rfl, Option.some.inj (hn.2.symm.trans hname)⟩)
  · rintro (⟨rfl, rfl⟩ | ⟨rfl, rfl⟩ | ⟨rfl, rfl⟩)
    · exact hassigns _ _ rfl (.inl rfl)
    · exact hassigns _ _ hname (.inr (.inr rfl))
    · exact hassigns _ _ rfl (.inr (.inl rfl))

/-- Of two assignments the second counts. -/
theorem hasValues_enumBlock : ∃ r' docstring,
    runOn (processEnum emptyContext enumBlock) {} = (.ok (), r') ∧
    ({} : Records).HasValues emptyContext enumBlock Entity.newRoot {} r' ∧
    r'.store.find? "A" = some (emptyContext.constantOf secondValue "A" docstring) := by
  obtain ⟨inner, hstart, hassigns⟩ := assigns_enumBlock
  have hcases := fun name n => (hassigns name n).mp
  have hstarts : ∀ name name' n n', enumBlock.Assigns name n → enumBlock.Assigns name' n' →
      n.startByte = n'.startByte → n = n' := by
    intro name name' n n' hn hn' heq
    rcases hcases name n hn with ⟨rfl, -⟩ | ⟨rfl, -⟩ | ⟨rfl, -⟩ <;>
      rcases hcases name' n' hn' with ⟨rfl, -⟩ | ⟨rfl, -⟩ | ⟨rfl, -⟩ <;>
        first | rfl | (rw [hstart] at heq; cases heq) | cases heq
  have hnames : ∀ name n, enumBlock.Assigns name n → name ≠ "" := by
    intro name n hn
    rcases hcases name n hn with ⟨-, rfl⟩ | ⟨-, rfl⟩ | ⟨-, rfl⟩ <;> decide
  have hblock : enumBlock.node.IsLegible ∧ emptyContext.source.HasLegibleComments :=
    ⟨by decide +kernel, fun _ h => absurd h List.not_mem_nil⟩
  have hroot : ({} : Records).store.find? emptyContext.home.path = some Entity.newRoot := rfl
  have h := processEnum_hasValues hroot rfl hstarts hnames
  split at h
  · next u r' hrun =>
    have hsecond := (hassigns "A" secondValue).mpr (.inr (.inr ⟨rfl, rfl⟩))
    obtain ⟨last, docstring, hlast, -, hfound⟩ := h.value "A" secondValue hsecond
    refine ⟨r', docstring, hrun, h, ?_⟩
    have hle := hlast.2 secondValue hsecond
    rcases hcases "A" last hlast.1 with ⟨rfl, -⟩ | ⟨-, hb⟩ | ⟨rfl, -⟩
    · exact absurd hle (by decide)
    · exact absurd hb (by decide)
    · exact hfound
  · exact absurd hblock h

end RubyDoc

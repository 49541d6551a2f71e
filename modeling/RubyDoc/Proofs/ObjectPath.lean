import RubyDoc.ObjectPath
import RubyDoc.Entity

/-!
# Paths that are taken apart and put together

The last segment of a path and the path around it make up the path again, unless
it begins with the separator and has no other behind. A name as it is written is
never resolved to such a path, unless it begins with two separators. The namespaces
around a path are found by taking segments off one after the other. Nothing is said
about what stands at a path.
-/

namespace RubyDoc.ObjectPath

open RubyDoc.Text

/-- What is cut off a reversed path, the separator, and the rest make up the path. -/
theorem eq_of_cutReversed {cs name home : List Char} (h : cutReversed cs = some (name, home)) :
    cs = name ++ ':' :: ':' :: home := by
  fun_induction cutReversed cs generalizing name home with
  | case1 => cases h
  | case2 cs =>
    rw [Option.some.injEq, Prod.mk.injEq] at h
    rw [← h.1, ← h.2, List.nil_append]
  | case3 c cs _ ih =>
    obtain ⟨r, hr, heq⟩ := Option.map_eq_some_iff.mp h
    rw [Prod.mk.injEq] at heq
    have hcs : cs = r.1 ++ ':' :: ':' :: r.2 := ih hr
    rw [← heq.1, ← heq.2, List.cons_append, ← hcs]

/-- A path with a separator, as characters. -/
theorem toList_split {path : String} {name home : List Char}
    (h : cutReversed path.toList.reverse = some (name, home)) :
    path.toList = home.reverse ++ ':' :: ':' :: name.reverse := by
  have hr := congrArg List.reverse (eq_of_cutReversed h)
  rw [List.reverse_reverse] at hr
  simpa using hr

/-- A member of the root has its name for a path. -/
theorem join_empty (name : String) : join "" name = name := by
  rw [join, if_pos (beq_self_eq_true _)]

/-- The two parts of a path with a separator make up the path, unless the first is empty. -/
theorem join_split_of_cut {path : String} {name home : List Char}
    (h : cutReversed path.toList.reverse = some (name, home)) (hhome : home ≠ []) :
    join (split path).1 (split path).2 = path := by
  have hne : String.ofList home.reverse ≠ "" := by
    intro he
    have hnil : home.reverse = [] := by simpa using congrArg String.toList he
    exact hhome (List.reverse_eq_nil_iff.mp hnil)
  rw [split, h, join, if_neg (by simpa using hne)]
  refine String.toList_inj.mp ?_
  rw [toList_split h]
  simp

/-- The two parts of a path make up the path, unless it begins with the separator. -/
theorem join_split {path : String} (h : beginsWith "::" path = false) :
    join (split path).1 (split path).2 = path := by
  cases hcut : cutReversed path.toList.reverse with
  | some parts =>
    refine join_split_of_cut hcut fun hnil => ?_
    rw [beginsWith, toList_split hcut, hnil] at h
    simp at h
  | none => rw [split, hcut, join_empty]

/-- The two parts of a path make up one that is no longer. -/
theorem length_join_split_le (path : String) :
    (join (split path).1 (split path).2).length ≤ path.length := by
  unfold split
  split
  · next name home hcut =>
    have hpath := congrArg List.length (toList_split hcut)
    rw [String.length_toList, List.length_append, List.length_cons, List.length_cons,
      List.length_reverse, List.length_reverse] at hpath
    have hhome : (String.ofList home.reverse).length = home.length := by
      rw [String.length_ofList, List.length_reverse]
    have hname : (String.ofList name.reverse).length = name.length := by
      rw [String.length_ofList, List.length_reverse]
    have hmark : "::".length = 2 := rfl
    dsimp only
    rw [join]
    split
    · omega
    · rw [String.length_append, String.length_append]
      omega
  · exact Nat.le_of_eq (congrArg String.length (join_empty path))

/-! ### Paths and the paths around them -/

theorem join_inj {home name name' : String} (h : join home name = join home name') :
    name = name' := by
  rw [join, join] at h
  split at h
  · exact h
  · exact String.append_right_inj _ |>.mp h

/-- A path is longer than the one around it, unless it is empty. -/
theorem length_lt_length_join {home name : String} (h : join home name ≠ "") :
    home.length < (join home name).length := by
  rw [join] at h ⊢
  split
  · next hempty =>
    rw [if_pos hempty] at h
    have hpos : name.length ≠ 0 := fun hz => h (String.length_eq_zero_iff.mp hz)
    rw [beq_iff_eq.mp hempty, String.length_empty]
    omega
  · simp only [String.length_append]
    have hmark : "::".length = 2 := rfl
    omega

/-- The empty path is the one of no member, but of what has no name. -/
theorem eq_empty_of_join {home name : String} (h : join home name = "") :
    home = "" ∧ name = "" := by
  rw [join] at h
  split at h
  · next hempty => exact ⟨beq_iff_eq.mp hempty, h⟩
  · have hlength := congrArg String.length h
    have hmark : "::".length = 2 := rfl
    rw [String.length_append, String.length_append, String.length_empty] at hlength
    omega

theorem join_ne_empty {home name : String} (h : name ≠ "") : join home name ≠ "" := fun he =>
  h (eq_empty_of_join he).2

/-- A member with a name is not its namespace. -/
theorem join_ne {home name : String} (h : name ≠ "") : join home name ≠ home := fun he =>
  Nat.ne_of_gt (length_lt_length_join (join_ne_empty h)) (congrArg String.length he)

/-! ### Where a path is cut -/

theorem cutReversed_cons_of_ne {c : Char} (h : c ≠ ':') (cs : List Char) :
    cutReversed (c :: cs) = (cutReversed cs).map fun r => (c :: r.1, r.2) := by
  rw [cutReversed]
  exact fun _ hc _ => h hc

theorem cutReversed_of_notMem {cs : List Char} (h : ':' ∉ cs) : cutReversed cs = none := by
  induction cs with
  | nil => rfl
  | cons c cs ih =>
    rw [List.mem_cons, not_or] at h
    rw [cutReversed_cons_of_ne (Ne.symm h.1), ih h.2, Option.map_none]

/-- A separator with no colon behind it is the last one. -/
theorem cutReversed_append {name : List Char} (h : ':' ∉ name) (home : List Char) :
    cutReversed (name ++ ':' :: ':' :: home) = some (name, home) := by
  induction name with
  | nil => rfl
  | cons c name ih =>
    rw [List.mem_cons, not_or] at h
    rw [List.cons_append, cutReversed_cons_of_ne (Ne.symm h.1), ih h.2, Option.map_some]

/-- No separator stands behind the one that a path is cut at. In a run of colons that is the
last two of them, so that what is before any other separator is kept. -/
theorem exists_cutReversed (name home : List Char) :
    ∃ last rest, cutReversed (name ++ ':' :: ':' :: home) = some (last, rest) ∧ home <:+ rest := by
  induction name with
  | nil => exact ⟨[], home, rfl, List.suffix_refl home⟩
  | cons c name ih =>
    obtain ⟨last, rest, hcut, hsuffix⟩ := ih
    rw [List.cons_append, cutReversed.eq_def]
    split
    · next hnil => cases hnil
    · next cs hcolons =>
      refine ⟨[], cs, rfl, ?_⟩
      obtain ⟨-, htail⟩ := List.cons.inj hcolons
      cases name with
      | nil => exact (List.cons.inj htail).2 ▸ List.suffix_cons ':' home
      | cons d name =>
        rw [← (List.cons.inj htail).2]
        exact List.suffix_append_of_suffix ((List.suffix_cons _ _).trans (List.suffix_cons _ _))
    · next d cs _ hcons =>
      obtain ⟨rfl, rfl⟩ := List.cons.inj hcons
      exact ⟨c :: last, rest, by rw [hcut, Option.map_some], hsuffix⟩

theorem toList_join_reverse {home : String} (h : home ≠ "") (name : String) :
    (join home name).toList.reverse =
      name.toList.reverse ++ ':' :: ':' :: home.toList.reverse := by
  rw [join, if_neg (by simpa using h)]
  simp

/-- A member whose name has no colon is taken apart from its namespace. -/
theorem split_join (home : String) {name : String} (h : ':' ∉ name.toList) :
    split (join home name) = (home, name) := by
  have hreverse : ':' ∉ name.toList.reverse := by rwa [List.mem_reverse]
  by_cases hhome : home = ""
  · rw [hhome, join_empty, split, cutReversed_of_notMem hreverse]
  · rw [split, toList_join_reverse hhome, cutReversed_append hreverse]
    simp

/-- Whatever the name of a member of a namespace is, the two parts of its path make up the path. -/
theorem join_split_join {home : String} (h : home ≠ "") (name : String) :
    join (split (join home name)).1 (split (join home name)).2 = join home name := by
  obtain ⟨last, rest, hcut, hsuffix⟩ :=
    exists_cutReversed name.toList.reverse home.toList.reverse
  rw [← toList_join_reverse h] at hcut
  refine join_split_of_cut hcut fun hnil => h ?_
  rw [hnil, List.suffix_nil, List.reverse_eq_nil_iff] at hsuffix
  exact String.toList_eq_nil_iff.mp hsuffix

/-- The two parts of a path that a written name is resolved to make up the path, unless the
name begins with two separators: the first anchors it, and the second is left in front. -/
theorem join_split_qualify (home : String) {written : String}
    (h : beginsWith "::::" (withoutBlanks written) = false) :
    join (split (qualify home written)).1 (split (qualify home written)).2 =
      qualify home written := by
  rw [qualify]
  split
  · next hanchored =>
    obtain ⟨name, hname⟩ := List.isPrefixOf_iff_prefix.mp hanchored
    have hrest : (withoutStart "::" (withoutBlanks written)).toList = name := by
      rw [withoutStart, if_pos hanchored, String.toList_ofList, ← hname, List.drop_left]
    refine join_split (Bool.eq_false_iff.mpr fun hagain => Bool.eq_false_iff.mp h ?_)
    rw [beginsWith, List.isPrefixOf_iff_prefix, hrest] at hagain
    rw [beginsWith, List.isPrefixOf_iff_prefix, ← hname]
    exact (List.prefix_append_right_inj "::".toList).mpr hagain
  · next hrelative =>
    by_cases hhome : home = ""
    · rw [hhome, join_empty]
      exact join_split (Bool.eq_false_iff.mpr hrelative)
    · exact join_split_join hhome _

/-! ### The namespaces around a path -/

/-- A path that does not begin with the separator has none around it that does. -/
theorem beginsWith_split {path : String} (h : beginsWith "::" path = false) :
    beginsWith "::" (split path).1 = false := by
  unfold split
  split
  · next name home hcut =>
    have hpath := toList_split hcut
    rw [Bool.eq_false_iff] at h ⊢
    intro hp
    refine h ?_
    rw [beginsWith, List.isPrefixOf_iff_prefix] at hp ⊢
    have hhome : (String.ofList home.reverse).toList = home.reverse := String.toList_ofList
    dsimp only at hp
    rw [hhome] at hp
    rw [hpath]
    exact hp.trans (List.prefix_append _ _)
  · rfl

/-- A path and the paths around it that are not empty, the innermost first. -/
def lineage (path : String) : List String :=
  if _ : path = "" then [] else path :: lineage (split path).1
termination_by path.length
decreasing_by exact length_split_fst path ‹_›

theorem lineage_empty : lineage "" = [] := by
  rw [lineage, dif_pos rfl]

theorem lineage_of_ne {path : String} (h : path ≠ "") :
    lineage path = path :: lineage (split path).1 := by
  rw [lineage, dif_neg h]

/-- No path in a lineage is empty. -/
theorem ne_empty_of_mem_lineage {path x : String} (h : x ∈ lineage path) : x ≠ "" := by
  induction hn : path.length using Nat.strongRecOn generalizing path with
  | ind n ih =>
    by_cases hp : path = ""
    · rw [hp, lineage_empty] at h
      cases h
    · rw [lineage_of_ne hp] at h
      rcases List.mem_cons.mp h with rfl | h
      · exact hp
      · exact ih _ (hn ▸ length_split_fst path hp) h rfl

/-- A path around another is no longer. -/
theorem length_of_mem_lineage {path x : String} (h : x ∈ lineage path) :
    x.length ≤ path.length := by
  induction hn : path.length using Nat.strongRecOn generalizing path with
  | ind n ih =>
    by_cases hp : path = ""
    · rw [hp, lineage_empty] at h
      cases h
    · have hshorter := length_split_fst path hp
      rw [lineage_of_ne hp] at h
      rcases List.mem_cons.mp h with rfl | h
      · omega
      · have hx := ih _ (hn ▸ hshorter) h rfl
        omega

/-- A path of a namespace without the marks that stand in the paths of methods. -/
def IsUnmarked (path : String) : Prop := ∀ c ∈ path.toList, c ≠ '#' ∧ c ≠ '.'

instance (path : String) : Decidable (IsUnmarked path) :=
  List.decidableBAll (fun c => c ≠ '#' ∧ c ≠ '.') path.toList

end RubyDoc.ObjectPath

namespace RubyDoc

/-- The mark of a scope in the paths of methods. -/
def Scope.mark : Scope → Char
  | .onInstances => '#'
  | .onClass => '.'

namespace Entity

/-- The path of a method: the namespace, a mark for the scope, and the name. -/
theorem path_newMethod (home name : String) (scope : Scope) :
    (newMethod home name scope).path =
      match scope with
      | .onInstances => home ++ "#" ++ name
      | .onClass => home ++ "." ++ name := rfl

/-- No method stands at the empty path. -/
theorem path_newMethod_ne (home name : String) (scope : Scope) :
    (newMethod home name scope).path ≠ "" := by
  rw [path_newMethod]
  intro h
  have hl := congrArg String.length h
  cases scope <;> simp [String.length_append] at hl

/-- The namespace of an entity has a shorter path, unless the entity has the empty one. -/
theorem length_home_lt {e : Entity} (h : e.path ≠ "") : e.home.length < e.path.length := by
  obtain ⟨name, home, docstring, source, file, line, kind⟩ := e
  cases kind with
  | root m => exact absurd rfl h
  | moduleSpace m => exact ObjectPath.length_lt_length_join h
  | classSpace m superclass => exact ObjectPath.length_lt_length_join h
  | constant value => exact ObjectPath.length_lt_length_join h
  | method facts =>
    unfold path
    dsimp only
    have hinstances : "#".length = 1 := rfl
    have hclass : ".".length = 1 := rfl
    cases facts.scope <;> simp only [String.length_append] <;> omega

theorem path_ne_home {e : Entity} (h : e.path ≠ "") : e.path ≠ e.home := by
  intro he
  have hlt := e.length_home_lt h
  rw [he] at hlt
  omega

/-- A method stands neither at the empty path nor at that of its namespace. -/
theorem path_ne_of_isMethod {e : Entity} (h : e.isMethod = true) :
    e.path ≠ e.home ∧ e.path ≠ "" := by
  obtain ⟨name, home, docstring, source, file, line, kind⟩ := e
  cases kind with
  | method facts =>
    have hne := path_newMethod_ne home name facts.scope
    exact ⟨path_ne_home hne, hne⟩
  | root m => cases h
  | moduleSpace m => cases h
  | classSpace m superclass => cases h
  | constant value => cases h

/-- What stands at the empty path belongs to the namespace there. -/
theorem home_eq_empty {e : Entity} (hroot : e.kind.name ≠ "root") (h : e.path = "") :
    e.home = "" := by
  obtain ⟨name, home, docstring, source, file, line, kind⟩ := e
  cases kind with
  | root m => exact absurd rfl hroot
  | moduleSpace m => exact (ObjectPath.eq_empty_of_join h).1
  | classSpace m superclass => exact (ObjectPath.eq_empty_of_join h).1
  | constant value => exact (ObjectPath.eq_empty_of_join h).1
  | method facts => exact absurd h (path_newMethod_ne home name facts.scope)

theorem toList_path_newMethod (home name : String) (scope : Scope) :
    (newMethod home name scope).path.toList = home.toList ++ scope.mark :: name.toList := by
  rw [path_newMethod]
  cases scope <;> simp [Scope.mark]

/-- Texts with a first mark in them are the same if they are up to that mark and behind it. -/
theorem eq_of_append_cons_eq (isMark : Char → Prop) {a a' : Char} (ha : isMark a)
    (ha' : isMark a') {xs xs' ys ys' : List Char} (hxs : ∀ c ∈ xs, ¬ isMark c)
    (hxs' : ∀ c ∈ xs', ¬ isMark c) (h : xs ++ a :: ys = xs' ++ a' :: ys') :
    xs = xs' ∧ a = a' ∧ ys = ys' := by
  induction xs generalizing xs' with
  | nil =>
    cases xs' with
    | nil => exact ⟨rfl, List.cons.inj h⟩
    | cons x' xs' =>
      rw [List.forall_mem_cons, ← (List.cons.inj h).1] at hxs'
      exact absurd ha hxs'.1
  | cons x xs ih =>
    rw [List.forall_mem_cons] at hxs
    cases xs' with
    | nil => exact absurd ((List.cons.inj h).1 ▸ ha') hxs.1
    | cons x' xs' =>
      rw [List.forall_mem_cons] at hxs'
      obtain ⟨hfirst, hrest⟩ := List.cons.inj h
      obtain ⟨rfl, hsame⟩ := ih hxs.2 hxs'.2 hrest
      exact ⟨by rw [hfirst], hsame⟩

/-- Where the paths of the namespaces are unmarked, the path of a method tells the namespace,
the name and the scope. -/
theorem eq_of_path_newMethod_eq {home home' name name' : String} {scope scope' : Scope}
    (hhome : ObjectPath.IsUnmarked home) (hhome' : ObjectPath.IsUnmarked home')
    (h : (newMethod home name scope).path = (newMethod home' name' scope').path) :
    home = home' ∧ name = name' ∧ scope = scope' := by
  have hmark : ∀ scope : Scope, scope.mark = '#' ∨ scope.mark = '.' := by
    intro scope
    cases scope <;> simp [Scope.mark]
  have hlists := congrArg String.toList h
  rw [toList_path_newMethod, toList_path_newMethod] at hlists
  obtain ⟨hsame, hscope, hname⟩ := eq_of_append_cons_eq (fun c => c = '#' ∨ c = '.')
    (hmark scope) (hmark scope') (fun c hc => not_or.mpr (hhome c hc))
    (fun c hc => not_or.mpr (hhome' c hc)) hlists
  refine ⟨String.toList_inj.mp hsame, String.toList_inj.mp hname, ?_⟩
  cases scope <;> cases scope' <;> first | rfl | exact absurd hscope (by decide)

end Entity

end RubyDoc

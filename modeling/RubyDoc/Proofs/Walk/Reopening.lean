import RubyDoc.Proofs.Walk.Coherent
import RubyDoc.Proofs.Walk.Documentable
import RubyDoc.Proofs.Walk.Events
import RubyDoc.Proofs.Walk.Given
import RubyDoc.Proofs.Walk.Mention

/-!
# Namespaces that are opened again

A walk settles a path by the mentions of it, in the order in which the statements are read,
if all that the statements declare leaves room for a namespace there. A legible tree is
walked to its end; in any other some of the mentions may be left out.
-/

namespace RubyDoc

open RubyDoc.Action ObjectPath Text

/-! ### Settling a path -/

/-- Records where a namespace may stand at a path, and no class or module was given a
docstring. -/
structure Records.HasRoomAt (r : Records) (path : String) : Prop where
  /-- A namespace may stand there. -/
  store : r.store.HasRoomAt path
  /-- Classes and modules have the docstrings of their comments. -/
  spares : r.SparesSpaces

/-- What an action came to that settles a path, where something was known, by some
mentions. If it was sound, it has come by all of them, and to a result. -/
structure Settled {α : Type} (path : String) (ms : List Mention) (sound : Prop)
    (known : Option Entity) (outcome : Except Fault α × Records) : Prop where
  /-- There is room at the path still. -/
  room : outcome.2.HasRoomAt path
  /-- Mentions in order leave what stands at the path; they are all if it was sound. -/
  reached : ∃ reached : List Mention, reached.Sublist ms ∧
    outcome.2.store.bareAt path = settle path reached known ∧ (sound → reached = ms)
  /-- There is a result. -/
  ok : sound → ∃ x, outcome.1 = .ok x

namespace Action

variable {α β : Type} {path : String} {ms ms' : List Mention} {sound : Prop}

/-- An action that settles a path by some mentions. -/
def Settles (path : String) (ms : List Mention) (sound : Prop) (a : Action α) : Prop :=
  ∀ r : Records, r.HasRoomAt path → Settled path ms sound (r.store.bareAt path) (runOn a r)

/-- What leaves a path as it is settles it by no mention, and by more if it was unsound. -/
theorem settled_of_same {r : Records} {outcome : Except Fault α × Records}
    (hroom : outcome.2.HasRoomAt path) (hat : outcome.2.store.bareAt path = r.store.bareAt path)
    (hms : sound → ms = []) (hok : sound → ∃ x, outcome.1 = .ok x) :
    Settled path ms sound (r.store.bareAt path) outcome :=
  ⟨hroom, ⟨[], List.nil_sublist ms, hat, fun h => (hms h).symm⟩, hok⟩

theorem settles_pure (x : α) : Settles path [] sound (pure x) := fun _ hr =>
  settled_of_same hr rfl (fun _ => rfl) fun _ => ⟨x, rfl⟩

theorem Settles.imp {sound' : Prop} {a : Action α} (ha : Settles path ms sound a)
    (h : sound' → sound) : Settles path ms sound' a := by
  intro r hr
  obtain ⟨hroom, ⟨reached, hsub, hat, hall⟩, hok⟩ := ha r hr
  exact ⟨hroom, ⟨reached, hsub, hat, fun hs => hall (h hs)⟩, fun hs => hok (h hs)⟩

/-- One action after another settles a path by the mentions of both, the second from the
records that the first comes to. -/
theorem Settles.bind_run {a : Action α} {f : α → Action β} (ha : Settles path ms sound a)
    {r : Records} (hr : r.HasRoomAt path)
    (hf : ∀ x r', runOn a r = (.ok x, r') → r'.HasRoomAt path →
      Settled path ms' sound (r'.store.bareAt path) (runOn (f x) r')) :
    Settled path (ms ++ ms') sound (r.store.bareAt path) (runOn (a >>= f) r) := by
  obtain ⟨hroom, ⟨reached, hsub, hat, hall⟩, hok⟩ := ha r hr
  rw [runOn_bind]
  cases h : runOn a r with
  | mk result r' =>
    rw [h] at hroom hat hok
    cases result with
    | error fault =>
      have hunsound : ¬ sound := fun hs => by
        obtain ⟨x, hx⟩ := hok hs
        cases hx
      exact ⟨hroom, ⟨reached, hsub.trans (List.sublist_append_left ms ms'), hat,
        fun hs => absurd hs hunsound⟩, fun hs => absurd hs hunsound⟩
    | ok x =>
      obtain ⟨hroom', ⟨reached', hsub', hat', hall'⟩, hok'⟩ := hf x r' h hroom
      dsimp only at hat
      refine ⟨hroom', ⟨reached ++ reached', hsub.append hsub', ?_, fun hs => ?_⟩, hok'⟩
      · rw [hat', settle_append, hat]
      · rw [hall hs, hall' hs]

theorem Settles.bind {a : Action α} {f : α → Action β} (ha : Settles path ms sound a)
    (hf : ∀ x, MayGive a x → Settles path ms' sound (f x)) :
    Settles path (ms ++ ms') sound (a >>= f) := fun r hr =>
  ha.bind_run hr fun x r' hrun hr' => hf x ⟨r, by rw [hrun]⟩ r' hr'

/-- Behind an action that mentions nothing. -/
theorem Settles.bind_nil {a : Action α} {f : α → Action β} (ha : Settles path [] sound a)
    (hf : ∀ x, MayGive a x → Settles path ms sound (f x)) : Settles path ms sound (a >>= f) :=
  ha.bind hf

/-- A fault that is caught leaves what was reached before it. -/
theorem Settles.guarded {a : Action Unit} (ha : Settles path ms sound a) (channel : Channel)
    (message : String) : Settles path ms sound (guarded channel message a) := by
  intro r hr
  obtain ⟨hroom, hreached, -⟩ := ha r hr
  rw [runOn_guarded]
  cases h : runOn a r with
  | mk result r' =>
    rw [h] at hroom hreached
    cases result with
    | ok _ => exact ⟨hroom, hreached, fun _ => ⟨(), rfl⟩⟩
    | error fault => exact ⟨⟨hroom.store, hroom.spares⟩, hreached, fun _ => ⟨(), rfl⟩⟩

/-- An action that declares nothing at a path leaves it. -/
theorem settles_of_changesFrom {D : Declaration → Prop} {a : Action α}
    (hchanges : ∀ s : Store, s.IsKeyed → ChangesFrom D s a) (hspares : SparesSpaces a)
    (hD : ∀ d, D d → d.LeavesRoom path ∧ d.path ≠ path) (hms : sound → ms = [])
    (hok : sound → ∀ r : Records, r.store.IsKeyed → ∃ x, (runOn a r).1 = .ok x) :
    Settles path ms sound a := by
  intro r hr
  have hk := hr.store.isKeyed
  have hc := hchanges r.store hk r rfl
  refine settled_of_same ⟨hr.store.changes (fun d hd => (hD d hd).1) hc, hspares r hk hr.spares⟩ ?_
    hms fun hs => hok hs r hk
  exact Store.bareAt_changes_of_ne hr.store hD hc

/-- An action that only reads leaves every path. -/
theorem IsQuiet.settles {a : Action α} (h : IsQuiet a)
    (hok : sound → ∀ r : Records, r.store.IsKeyed → ∃ x, (runOn a r).1 = .ok x) :
    Settles path [] sound a :=
  settles_of_changesFrom (D := fun _ => False) (fun _ _ => h.changesFrom) h.sparesSpaces
    (fun _ hd => hd.elim) (fun _ => rfl) hok

/-! ### Opening -/

/-- Making sure of a namespace settles every path by the mention of those on the way. -/
theorem settles_ensureNamespace {home : String} (hhome : beginsWith "::" home = false) :
    Settles path [.onWay home] True (ensureNamespace home) := by
  intro r hr
  obtain ⟨e, r', hrun, hshape⟩ := ensureNamespace_ok hhome hr.store.root
  have hD : ∀ d : Declaration, d.kind = .placeholder ∧ d.path ∈ lineage home →
      d.LeavesRoom path := by
    rintro d ⟨hkind, hway⟩
    refine ⟨ne_empty_of_mem_lineage hway, fun _ _ => beginsWith_of_mem_lineage hhome hway, fun _ => ?_⟩
    rw [hkind]
    exact ⟨DeclaredKind.noConfusion, DeclaredKind.noConfusion⟩
  have hallows : AllowsPlaceholders (fun d => d.kind = .placeholder ∧ d.path ∈ lineage home) home :=
    fun x hx => ⟨⟨"", x, .placeholder⟩, ⟨rfl, hx⟩, rfl, rfl⟩
  have hchanges := changesFrom_ensureNamespace hallows hr.store.isKeyed r rfl
  have hroom := hr.store.changes hD hchanges
  have hpassed := Store.bareAt_changes hr.store (fun d hd => ⟨hD d hd, fun _ => hd.1⟩) hchanges
  have hdeclares : Declares ((lineage home).map fun x =>
      ⟨"", (Entity.placeholder (split x).1 (split x).2).path, .placeholder⟩) (ensureNamespace home) :=
    declares_ensureNamespace_of_placeholders fun x hx =>
      ⟨_, List.mem_map_of_mem hx, rfl, DeclaredKind.noConfusion⟩
  have hspares := hdeclares.sparesSpaces r hr.store.isKeyed hr.spares
  rw [hrun] at hroom hpassed hspares ⊢
  refine ⟨⟨hroom, hspares⟩, ⟨[.onWay home], List.Sublist.refl _, ?_, fun _ => rfl⟩, fun _ => ⟨e, rfl⟩⟩
  rw [settle, List.foldl_cons, List.foldl_nil, Mention.leave]
  rcases hpassed with hsame | ⟨⟨d, hd, hpath⟩, hnone, hmade⟩
  · rw [hsame]
    split
    · next hway =>
      -- What stands on the way to a namespace is one, so there was one already.
      obtain ⟨known, hknown, -⟩ := Option.map_eq_some_iff.mp (hroom.inner home hshape hway)
      have hat : r'.store.bareAt path = some known.bare := by
        rw [Store.bareAt, hknown, Option.map_some]
      rw [← hsame, hat, Option.or_some, Option.getD_some]
    · rfl
  · rw [hmade, hnone, if_pos (hpath ▸ hd.2), Option.none_or]

end Action

namespace Action

variable {α : Type} {path : String} {sound : Prop} {r r' : Records}

/-- A fault of what is unsound leaves a path. -/
theorem settled_of_fault {ms : List Mention} (hr : r.HasRoomAt path) (hsound : ¬ sound)
    (fault : Fault) : Settled (α := α) path ms sound (r.store.bareAt path) (.error fault, r) :=
  settled_of_same hr rfl (fun h => absurd h hsound) fun h => absurd h hsound

/-- What an opening leaves at its path settles any path by the mention of it. -/
theorem settled_of_opening {o : Opening} {x : α} (hroom : r'.HasRoomAt path)
    (hat : r'.store.bareAt path =
      if path = o.path then some (o.onto (r.store.bareAt path)) else r.store.bareAt path) :
    Settled path [.opens o] sound (r.store.bareAt path) (.ok x, r') := by
  refine ⟨hroom, ⟨[.opens o], List.Sublist.refl _, ?_, fun _ => rfl⟩, fun _ => ⟨x, rfl⟩⟩
  rw [hat, settle, List.foldl_cons, List.foldl_nil, Mention.leave]
  simp only [eq_comm]

/-- Editing what fits is opening it again. -/
theorem settled_of_modify {o : Opening} {x : α} {known : Entity} {f : Entity → Entity}
    (hr : r.HasRoomAt path) (hf : ∀ e, Entity.IsEdited e (f e))
    (hknown : r.store.find? o.path = some known) (hfits : o.fits known = true)
    (hagain : f known = o.again known) (log : Log) :
    Settled path [.opens o] sound (r.store.bareAt path)
      (.ok x, { r with store := r.store.modify o.path f, log }) := by
  refine settled_of_opening ⟨hr.store.modify o.path hf, hr.spares⟩ ?_
  dsimp only
  split
  · next hp =>
    rw [Store.bareAt, Store.find?_modify, if_pos hp, hp, hknown, Option.map_some, Option.map_some,
      hagain, Store.bareAt, hknown, Option.map_some, Opening.onto_of_fits hfits]
  · next hp => exact Store.bareAt_modify_of_ne hp f

/-- Registering what takes the place of what does not fit is opening it anew. -/
theorem settled_register_bind {o : Opening} {e : Entity} {f : Unit → Action α}
    (hr : r.HasRoomAt path) (hpath : beginsWith "::" o.path = false) (hne : o.path ≠ "")
    (hshape : r.store.shapeAt (split o.path).1 = some .namespace)
    (hnew : (r.store.find? o.path).any o.fits = false) (hanew : e.bare = o.anew)
    (hf : IsQuiet (f ())) (hok : ∀ r, ∃ x, (runOn (f ()) r).1 = .ok x) :
    Settled path [.opens o] sound (r.store.bareAt path) (runOn (register e >>= f) r) := by
  have hhome : e.home = (split o.path).1 := congrArg Entity.home hanew
  have hname : e.name = (split o.path).2 := congrArg Entity.name hanew
  obtain ⟨m, hm⟩ : ∃ m, e.members? = some m := by
    rw [e.isNamespace_iff, ← e.shape_bare, hanew, o.shape_anew]
  have hroot : e.kind.name ≠ "root" := by
    rw [← Entity.name_mapMembers (fun _ => {}) e, ← Entity.bare, hanew]
    exact o.name_anew
  have hmakes : r.store.Makes ⟨"", o.path, .classSpace⟩ e :=
    Store.makes_of_split (.inl rfl) hpath hm hroot hhome hname
  have hleaves : (⟨"", o.path, .classSpace⟩ : Declaration).LeavesRoom path :=
    ⟨hne, fun _ _ => hpath, fun _ => ⟨DeclaredKind.noConfusion, DeclaredKind.noConfusion⟩⟩
  have hself : e.path = o.path := hmakes.path.symm
  obtain ⟨s, ha⟩ := Store.exists_attach (hhome ▸ hshape)
  have hreg := runOn_register e false r
  rw [ha] at hreg
  rw [runOn_bind_ok hreg]
  generalize hr' : ({ r with store := s, log := _ } : Records) = r'
  obtain ⟨x, hx⟩ := hok r'
  obtain ⟨log, hlog⟩ := hf r'
  have hrun : runOn (f ()) r' = (.ok x, { r' with log }) := Prod.ext hx hlog
  rw [hrun, ← hr']
  refine settled_of_opening ⟨hr.store.attach hleaves hmakes ha, hr.spares⟩ ?_
  dsimp only
  rw [Store.bareAt_attach ha (hself ▸ hne), hself, hanew]
  split
  · next hp => rw [Store.bareAt, hp, Opening.onto_of_any_eq_false hnew]
  · rfl

/-- Reading the docstring of a class or module leaves what it is read for. It is that of the
comments above it, and a fault of what is unsound. -/
theorem settled_docstringOf_bind {ms : List Mention} (c : Context) {n : Node}
    (hn : n.kind ∈ Node.spaceKinds) (hr : r.HasRoomAt path)
    (hsound : sound → c.source.HasLegibleComments) {f : String → Action α}
    (hf : ∀ docstring, c.source.docstringOf [] n = .ok docstring →
      Settled path ms sound (r.store.bareAt path) (runOn (f docstring) r)) :
    Settled path ms sound (r.store.bareAt path) (runOn (c.docstringOf n >>= f) r) := by
  have hread : runOn (c.docstringOf n) r = (c.source.docstringOf [] n, r) := by
    unfold Context.docstringOf
    rw [runOn_bind_ok (runOn_get r), runOn_ofExcept, hr.spares.docstringOf_eq c.source hn]
  cases hd : c.source.docstringOf [] n with
  | error fault =>
    rw [hd] at hread
    rw [runOn_bind_error hread]
    refine settled_of_fault hr (fun hs => ?_) fault
    rw [Source.docstringOf_eq (hsound hs)] at hd
    cases hd
  | ok docstring =>
    rw [hd] at hread
    rw [runOn_bind_ok hread]
    exact hf docstring hd

/-- What settles a path by an opening once there is a namespace around it, settles it behind
making sure of that namespace too. -/
theorem settles_ensureNamespace_bind {o : Opening} (ho : beginsWith "::" o.path = false)
    {f : Entity → Action α}
    (hf : ∀ e (r : Records), r.HasRoomAt path →
      r.store.shapeAt (split o.path).1 = some .namespace →
      Settled path [.opens o] sound (r.store.bareAt path) (runOn (f e) r)) :
    Settles path [.onWay (split o.path).1, .opens o] sound
      (ensureNamespace (split o.path).1 >>= f) := by
  intro r hr
  have hhome := beginsWith_split ho
  obtain ⟨e, r', hrun, hshape⟩ := ensureNamespace_ok hhome hr.store.root
  have hfirst : Settles path [.onWay (split o.path).1] sound (ensureNamespace (split o.path).1) :=
    (settles_ensureNamespace hhome).imp fun _ => trivial
  refine hfirst.bind_run hr fun x r₁ hrun₁ hr₁ => ?_
  rw [hrun] at hrun₁
  obtain rfl : r' = r₁ := congrArg Prod.snd hrun₁
  exact hf x r' hr₁ hshape

section Open

variable (c : Context) (n : Node) {q : String} (hq : beginsWith "::" q = false) (hne : q ≠ "")

include hq hne

/-- Opening a class settles every path by the mentions of its statement. -/
theorem settles_openClass (hn : n.kind = "class") :
    Settles path [.onWay (split q).1, .opens (c.source.opening n q)]
      (n.IsLegible ∧ c.source.HasLegibleComments) (openClass c n q) := by
  have hspace : n.kind ∈ Node.spaceKinds := by
    rw [hn]
    decide
  unfold openClass
  dsimp only
  refine settles_ensureNamespace_bind (o := c.source.opening n q) hq fun _ r hr hshape => ?_
  cases hs : superclassOf n with
  | error fault =>
    rw [runOn_bind_error (runOn_ofExcept _ r)]
    refine settled_of_fault hr (fun hsound => ?_) fault
    obtain ⟨superclass, hok⟩ := superclassOf_ok hsound.1
    rw [hs] at hok
    cases hok
  | ok superclass =>
    rw [runOn_bind_ok (runOn_ofExcept _ r)]
    refine settled_docstringOf_bind c hspace hr And.right fun docstring hd => ?_
    have ho : c.source.opening n q = ⟨q, true, docstring, superclass, c.source.path, n.line⟩ := by
      rw [Source.opening, hn, hd, hs]
      rfl
    rw [runOn_bind_ok (runOn_inStore _ r), ho]
    split
    · next hany =>
      obtain ⟨known, hknown, hfits⟩ := (Option.any_eq_true _ _).mp hany
      exact settled_of_modify (o := ⟨q, true, docstring, superclass, _, _⟩) hr
        (.reopenClass superclass docstring) hknown hfits rfl _
    · next hnew =>
      refine settled_register_bind hr hq hne hshape (Bool.not_eq_true _ ▸ hnew) rfl ?_
        fun r => ⟨_, rfl⟩
      exact (isQuiet_pure _).bind fun _ => (isQuiet_note _ _ _).bind fun _ => isQuiet_pure _

/-- Opening a module settles every path by the mentions of its statement. -/
theorem settles_openModule (hn : n.kind = "module") :
    Settles path [.onWay (split q).1, .opens (c.source.opening n q)]
      (n.IsLegible ∧ c.source.HasLegibleComments) (openModule c n q) := by
  have hspace : n.kind ∈ Node.spaceKinds := by
    rw [hn]
    decide
  have hmodule : (c.source.opening n q).isClass = false := by
    rw [Source.opening, hn]
    rfl
  have hfits : (c.source.opening n q).fits = Entity.isModule := by
    funext e
    rw [Opening.fits, hmodule, if_neg Bool.false_ne_true]
  have hagain : ∀ e : Entity, (c.source.opening n q).again e =
      if e.docstring == "" then { e with docstring := (c.source.opening n q).docstring } else e := by
    intro e
    rw [Opening.again, hmodule, if_neg Bool.false_ne_true]
  unfold openModule
  dsimp only
  refine settles_ensureNamespace_bind (o := c.source.opening n q) hq fun _ r hr hshape => ?_
  rw [runOn_bind_ok (runOn_inStore _ r)]
  split
  · next hany =>
    obtain ⟨known, hknown, hfound⟩ := (Option.any_eq_true _ _).mp hany
    rw [← hfits] at hfound
    rw [hknown, Option.any_some]
    split
    · next hempty =>
      refine settled_docstringOf_bind c hspace hr And.right fun docstring hd => ?_
      refine settled_of_modify (o := c.source.opening n q) (f := fun e => { e with docstring }) hr
        (fun e => .docstring e docstring) hknown hfound ?_ _
      rw [hagain, if_pos hempty, Source.opening, hd]
      rfl
    · next hfull =>
      refine settled_of_opening hr ?_
      split
      · next hp =>
        have hpath : path = q := hp
        rw [Store.bareAt, hpath, hknown, Option.map_some, Opening.onto_of_fits hfound, hagain,
          if_neg hfull]
      · rfl
  · next hnew =>
    refine settled_docstringOf_bind c hspace hr And.right fun docstring hd => ?_
    refine settled_register_bind hr hq hne hshape ?_ ?_ (isQuiet_pure _) fun r => ⟨_, rfl⟩
    · rw [hfits]
      exact Bool.not_eq_true _ ▸ hnew
    · rw [Opening.anew, hmodule, Source.opening, hd]
      rfl

end Open

end Action

/-! ### Statements -/

/-- A statement has the form of a class or module for its kind. -/
theorem Form.kind_of_classBody {n : Node} (hf : ofNode n = .classBody) : n.kind = "class" := by
  have hkind := kind_of_opensSpace (n := n) (by rw [hf]; rfl)
  rw [Bool.or_eq_true, beq_iff_eq, beq_iff_eq] at hkind
  refine hkind.resolve_right fun hmodule => ?_
  rw [ofNode, hmodule] at hf
  cases hf

theorem Form.kind_of_moduleBody {n : Node} (hf : ofNode n = .moduleBody) : n.kind = "module" := by
  have hkind := kind_of_opensSpace (n := n) (by rw [hf]; rfl)
  rw [Bool.or_eq_true, beq_iff_eq, beq_iff_eq] at hkind
  refine hkind.resolve_left fun hclass => ?_
  rw [ofNode, hclass] at hf
  cases hf

namespace Placed

variable {p : Placed}

/-- Whether all that a statement and the statements inside it declare leaves room for a
namespace at a path. -/
def LeavesRoom (p : Placed) (path : String) : Prop :=
  ∀ d ∈ p.events.flatMap Event.declared, d.LeavesRoom path

/-- What is declared is declared by the statement itself, inside it or behind. -/
theorem mem_flatMap_declared {d : Declaration} :
    d ∈ p.events.flatMap Event.declared ↔
      d ∈ p.declared ∨ (∃ q ∈ p.nested, d ∈ q.events.flatMap Event.declared) ∨
        d ∈ p.closings.flatMap Event.declared := by
  rw [events_eq, List.flatMap_cons, List.flatMap_append, List.flatMap_assoc, List.mem_append,
    List.mem_append, List.mem_flatMap]
  rfl

/-- The path that a class or module is opened under is not empty, and does not begin with the
separator, if the statement leaves room. -/
theorem LeavesRoom.anchored_and_ne_empty {path q : String} (h : p.LeavesRoom path)
    (hopens : p.opens? = some q) : beginsWith "::" q = false ∧ q ≠ "" := by
  have hown : ∀ d ∈ p.declared, d.LeavesRoom path := fun d hd =>
    h d (mem_flatMap_declared.mpr (.inl hd))
  rw [declared] at hown
  rcases form_of_opens? hopens with hf | hf <;> rw [hf] at hown
  · have hroom := hown _ (mem_namespaces hopens .classSpace)
    exact ⟨hroom.anchored DeclaredKind.noConfusion DeclaredKind.noConfusion, hroom.ne_empty⟩
  · have hroom := hown _ (mem_namespaces hopens .moduleSpace)
    exact ⟨hroom.anchored DeclaredKind.noConfusion DeclaredKind.noConfusion, hroom.ne_empty⟩

/-- Only a class or module opens a path. -/
theorem opens?_eq_none (h : (Form.ofNode p.node).opensSpace = false) : p.opens? = none := by
  cases hopens : p.opens? with
  | none => rfl
  | some path => rcases form_of_opens? hopens with hf | hf <;> rw [hf] at h <;> cases h

/-- A statement that opens nothing mentions nothing by itself. -/
theorem mentions_of_opens? (source : Source) (h : p.opens? = none) :
    p.mentions source = p.nested.flatMap (mentions source) := by
  rw [mentions_eq, mentioned, h, List.nil_append]

/-- A class or module mentions itself and what its body mentions. -/
theorem mentions_of_opens?_eq_some (source : Source) {path : String} (h : p.opens? = some path) :
    p.mentions source = [.onWay (split path).1, .opens (source.opening p.node path)] ++
      p.nested.flatMap (mentions source) := by
  rw [mentions_eq, mentioned, h]

/-- A legible class or module that has no path has no name, and nothing inside it. -/
theorem nested_of_declaredPath (hf : (Form.ofNode p.node).opensSpace = true)
    (hp : p.node.IsLegible) {c : Context} {fault : Fault}
    (h : declaredPath c p.node = .error fault) : p.opens? = none ∧ p.nested = [] := by
  have hnone : p.node.child? "name" = none := by
    rw [declaredPath] at h
    cases hname : p.node.child? "name" with
    | none => rfl
    | some name =>
      rw [hname] at h
      dsimp only at h
      rw [(hp.of_child? hname).legible_eq] at h
      cases h
  refine ⟨by rw [opens?, hnone, Option.map_none, ite_self], ?_⟩
  rw [p.nested_eq (Form.ofNode_ne_illegible hp)]
  cases hform : Form.ofNode p.node with
  | classBody | moduleBody => rw [inside, hnone]
  | _ =>
    rw [hform] at hf
    cases hf

/-- A class or module whose name is missing mentions nothing. -/
theorem mentions_of_declaredPath (source : Source) (hf : (Form.ofNode p.node).opensSpace = true)
    (hp : p.node.IsLegible) {c : Context} {fault : Fault}
    (h : declaredPath c p.node = .error fault) : p.mentions source = [] := by
  obtain ⟨hopens, hnested⟩ := nested_of_declaredPath hf hp h
  rw [mentions_of_opens? source hopens, hnested, List.flatMap_nil]

end Placed

namespace Action

variable {path : String} {ms : List Mention} {sound : Prop}

theorem settles_ofExcept_bind {α β : Type} {result : Except Fault α} {f : α → Action β}
    (hok : sound → ∃ x, result = .ok x) (hf : ∀ x, result = .ok x → Settles path ms sound (f x)) :
    Settles path ms sound (ofExcept result >>= f) := by
  refine ((isQuiet_ofExcept result).settles fun hs r _ => ?_).bind_nil fun x ⟨r, hx⟩ => hf x ?_
  · rw [runOn_ofExcept]
    exact hok hs
  · rwa [runOn_ofExcept] at hx

/-- A fault at the front that is caught leaves every path. -/
theorem settles_guarded_error {α : Type} (hms : sound → ms = []) (fault : Fault)
    (f : α → Action Unit) (channel : Channel) (message : String) :
    Settles path ms sound (guarded channel message (ofExcept (.error fault) >>= f)) := by
  intro r hr
  rw [runOn_guarded, runOn_bind_error (runOn_ofExcept _ r)]
  exact settled_of_same ⟨hr.store, hr.spares⟩ rfl hms fun _ => ⟨(), rfl⟩

end Action

/-- Whether documenting a statement settles a path by its mentions, if what it declares
leaves room there. -/
def Placed.Settles (path : String) (source : Source) (config : Config) (p : Placed) : Prop :=
  ∀ c : Context, c.IsAt source config p → p.LeavesRoom path →
    Action.Settles path (p.mentions source) (p.node.IsLegible ∧ source.HasLegibleComments)
      (walk c p.site.statement)

section Statements

variable {path : String} {source : Source} {config : Config} {p : Placed}

/-- A statement with nothing inside it declares constants and methods only. -/
theorem Placed.kind_of_mem_declared (hbody : (Form.ofNode p.node).hasBody = false)
    {d : Declaration} (hd : d ∈ p.declared) : d.kind = .constant ∨ d.kind = .method := by
  rw [declared] at hd
  split at hd
  · next hf =>
    rw [hf] at hbody
    cases hbody
  · next hf =>
    rw [hf] at hbody
    cases hbody
  · obtain ⟨m, -, rfl⟩ := List.mem_map.mp hd
    exact .inr rfl
  · obtain ⟨m, -, rfl⟩ := List.mem_map.mp hd
    exact .inr rfl
  · exact .inl (Declaration.kind_of_mem_ofAssignment hd)
  · obtain ⟨n, -, hmem⟩ := List.mem_flatMap.mp hd
    exact .inl (Declaration.kind_of_mem_ofAssignment hmem)
  · obtain ⟨m, -, rfl⟩ := List.mem_map.mp hd
    exact .inr rfl
  · cases hd

/-- A statement with nothing inside it leaves every path that there is room at. -/
theorem settles_leaf (hbody : (Form.ofNode p.node).hasBody = false) :
    p.Settles path source config := by
  intro c hat hroom
  refine settles_of_changesFrom (fun s hk => changesFrom_leaf hbody hat hk)
    (sparesSpaces_leaf (s := p.site) hbody c) (fun d hd => ?_) (fun hs => ?_) fun hs r hk => ?_
  · have hleaves := hroom d (Placed.mem_flatMap_declared.mpr (.inl hd))
    refine ⟨hleaves, fun hp => ?_⟩
    obtain ⟨hconstant, hmethod⟩ := hleaves.free hp
    exact (Placed.kind_of_mem_declared hbody hd).elim hconstant hmethod
  · have hopens : p.opens? = none := Placed.opens?_eq_none (by
      revert hbody
      cases Form.ofNode p.node <;> intro hbody <;> first | rfl | cases hbody)
    rw [Placed.mentions_of_opens? source hopens, p.nested_eq (Form.ofNode_ne_illegible hs.1),
      p.inside_of_hasBody hbody, List.flatMap_nil]
  · obtain ⟨r', hrun⟩ := exists_runOn_walk c (Site.statement_ne_illegible (s := p.site) hs.1) r
    exact ⟨(), congrArg Prod.fst hrun⟩

/-- The statements of a body settle a path one after the other. -/
theorem settles_walkAll {qs : List Placed} (hq : ∀ q ∈ qs, q.Settles path source config)
    (hroom : ∀ q ∈ qs, q.LeavesRoom path) {c : Context} (hc : ∀ q ∈ qs, c.IsAt source config q) :
    Action.Settles path (qs.flatMap (Placed.mentions source))
      ((∀ q ∈ qs, q.node.IsLegible) ∧ source.HasLegibleComments)
      (walkAll c (qs.map fun q => q.site.statement)) := by
  induction qs generalizing c with
  | nil => exact settles_pure ()
  | cons q qs ih =>
    rw [List.forall_mem_cons] at hq hroom hc
    rw [List.map_cons, walkAll, List.flatMap_cons]
    refine Settles.bind ((hq.1 c hc.1 hroom.1).imp fun hs => ⟨hs.1 q List.mem_cons_self, hs.2⟩)
      fun _ _ => ?_
    refine (ih hq.2 hroom.2 fun x hx => (hc.2 x hx).with_visibility _).imp fun hs => ?_
    exact ⟨fun x hx => hs.1 x (List.mem_cons_of_mem _ hx), hs.2⟩

/-- The arguments of a visibility call settle a path, the names among them being no
statements. -/
theorem settles_walkArguments (p : Placed) {args : List Site}
    (hq : ∀ s ∈ args, Node.nameKinds.contains s.node.kind = false →
      ({ p with site := s } : Placed).Settles path source config ∧
        ({ p with site := s } : Placed).LeavesRoom path)
    (c : Context) (visibility : Visibility) {inner : Context} (hinner : inner.IsAt source config p) :
    Action.Settles path
      (((args.filter fun s => !Node.nameKinds.contains s.node.kind).map fun s =>
        ({ p with site := s } : Placed)).flatMap (Placed.mentions source))
      ((∀ s ∈ args, s.node.IsLegible) ∧ source.HasLegibleComments)
      (walkArguments c visibility inner (args.map Site.statement)) := by
  induction args generalizing inner with
  | nil => exact settles_pure ()
  | cons s args ih =>
    have hrest := (ih (fun t ht => hq t (List.mem_cons_of_mem _ ht))
      (hinner.with_visibility (s.statement.visibilityAfter inner.visibility))).imp
        fun (hs : (∀ t ∈ s :: args, t.node.IsLegible) ∧ source.HasLegibleComments) =>
          ⟨fun t ht => hs.1 t (List.mem_cons_of_mem _ ht), hs.2⟩
    rw [List.map_cons, walkArguments, Site.node_statement, List.filter_cons]
    dsimp only
    cases hname : Node.nameKinds.contains s.node.kind with
    | true =>
      rw [if_pos rfl, Bool.not_true, if_neg Bool.false_ne_true]
      refine settles_ofExcept_bind (fun hs => (hs.1 s List.mem_cons_self).symbolName_ok)
        fun name _ => Settles.bind_nil ?_ fun _ _ => hrest
      have hset : Declares [] (setVisibility c name visibility) :=
        declares_setVisibility c name visibility
      refine settles_of_changesFrom (D := fun _ => False)
        (fun s _ => changesFrom_setVisibility c name visibility) hset.sparesSpaces
        (fun _ hd => hd.elim) (fun _ => rfl) fun _ r hk => ?_
      obtain ⟨r', hrun, -⟩ := setVisibility_ok c name visibility hk
      exact ⟨(), congrArg Prod.fst hrun⟩
    | false =>
      rw [if_neg Bool.false_ne_true, Bool.not_false, if_pos rfl, List.map_cons, List.flatMap_cons]
      obtain ⟨hsettles, hroom⟩ := hq s List.mem_cons_self hname
      have hfirst := hsettles inner ⟨hinner.source, hinner.config, hinner.home, hinner.scope⟩ hroom
      refine Settles.bind (hfirst.imp fun hs => ⟨?_, hs.2⟩) fun _ _ => hrest
      exact hs.1 s List.mem_cons_self

section Nested

variable (hnested : ∀ q ∈ p.nested, q.Settles path source config)

include hnested

/-- The statements inside a statement settle a path, if the statement is legible. -/
theorem settles_nested (hroom : p.LeavesRoom path) {c : Context}
    (hinside : ∀ q ∈ p.nested, c.IsAt source config q) :
    Action.Settles path (p.nested.flatMap (Placed.mentions source))
      (p.node.IsLegible ∧ source.HasLegibleComments)
      (walkAll c (p.nested.map fun q => q.site.statement)) := by
  refine (settles_walkAll hnested (fun q hq d hd => ?_) hinside).imp fun hs =>
    ⟨fun q hq => Placed.everywhere_of_mem_nested hs.1 hq, hs.2⟩
  exact hroom d (Placed.mem_flatMap_declared.mpr (.inr (.inl ⟨q, hq, hd⟩)))

/-- A class or module settles a path by its own mentions and by those in its body. -/
theorem settles_opening (hroom : p.LeavesRoom path) {c : Context} (hat : c.IsAt source config p)
    {q : String} (hopens : p.opens? = some q) {opening : Action String}
    (hopening : Action.Settles path [.onWay (split q).1, .opens (source.opening p.node q)]
      (p.node.IsLegible ∧ source.HasLegibleComments) opening)
    (hgives : ∀ x, MayGive opening x → x = q) {f : String → Action Unit}
    (hf : Action.Settles path [] (p.node.IsLegible ∧ source.HasLegibleComments) (f q)) :
    Action.Settles path (p.mentions source) (p.node.IsLegible ∧ source.HasLegibleComments)
      (opening >>= fun x => handleAt x >>= fun handle =>
        walkAll (c.inside handle) (p.node.bodySites.map Site.statement) >>= fun _ => f x) := by
  rw [Placed.mentions_of_opens?_eq_some source hopens]
  refine hopening.bind fun x hx => ?_
  rw [hgives x hx]
  refine Settles.bind_nil ((isQuiet_inStore _).settles fun _ r _ => ⟨_, rfl⟩) fun handle hhandle => ?_
  obtain ⟨hstatements, hinside⟩ := nested_of_opens hopens hat (path_of_mayGive_handleAt hhandle)
  rw [← hstatements, ← List.append_nil (p.nested.flatMap (Placed.mentions source))]
  exact (settles_nested hnested hroom hinside).bind fun _ _ => hf

/-- A class settles a path if the statements in its body do. -/
theorem settles_classBody (hf : Form.ofNode p.node = .classBody) : p.Settles path source config := by
  intro c hat hroom
  rw [walk_classBody c hf]
  cases hpath : declaredPath c p.node with
  | error fault =>
    exact settles_guarded_error (fun hs =>
      Placed.mentions_of_declaredPath source (by rw [hf]; rfl) hs.1 hpath) fault _ _ _
  | ok q =>
    have hopens := opens?_of_declaredPath hat (by rw [hf]; rfl) hpath
    obtain ⟨hq, hne⟩ := hroom.anchored_and_ne_empty hopens
    refine Settles.guarded (settles_ofExcept_bind (fun _ => ⟨q, rfl⟩) fun x hx => ?_) _ _
    rw [← Except.ok.inj hx]
    have hopening : Action.Settles path _ _ (openClass c p.node q) :=
      settles_openClass c p.node hq hne (Form.kind_of_classBody hf)
    rw [hat.source] at hopening
    refine settles_opening hnested hroom hat hopens hopening (fun x => eq_of_mayGive_openClass hq) ?_
    have hclosing : Declaration.ofConstructor q ∈ p.closings.flatMap Event.declared := by
      rw [Placed.closings, hf, hopens]
      exact List.mem_singleton_self _
    have hcloses := hroom _ (Placed.mem_flatMap_declared.mpr (.inr (.inr hclosing)))
    refine settles_of_changesFrom (D := fun d => d = .ofConstructor q)
      (fun s hk => changesFrom_closeClass c p.node q q rfl hk) (fun r hk hr => ?_) (fun d hd => ?_)
      (fun _ => rfl) fun _ r hk => ?_
    · obtain ⟨r', hrun, hclosed⟩ := closeClass_ok c p.node q q hk
      rw [hrun]
      exact hr.of_eq hclosed.overridden
    · rw [hd]
      exact ⟨hcloses, fun hp => (hcloses.free hp).2 rfl⟩
    · obtain ⟨r', hrun, -⟩ := closeClass_ok c p.node q q hk
      exact ⟨(), congrArg Prod.fst hrun⟩

/-- A module settles a path if the statements in its body do. -/
theorem settles_moduleBody (hf : Form.ofNode p.node = .moduleBody) : p.Settles path source config := by
  intro c hat hroom
  rw [walk_moduleBody c hf]
  cases hpath : declaredPath c p.node with
  | error fault =>
    exact settles_guarded_error (fun hs =>
      Placed.mentions_of_declaredPath source (by rw [hf]; rfl) hs.1 hpath) fault _ _ _
  | ok q =>
    have hopens := opens?_of_declaredPath hat (by rw [hf]; rfl) hpath
    obtain ⟨hq, hne⟩ := hroom.anchored_and_ne_empty hopens
    refine Settles.guarded (settles_ofExcept_bind (fun _ => ⟨q, rfl⟩) fun x hx => ?_) _ _
    rw [← Except.ok.inj hx]
    have hopening : Action.Settles path _ _ (openModule c p.node q) :=
      settles_openModule c p.node hq hne (Form.kind_of_moduleBody hf)
    rw [hat.source] at hopening
    have hall := settles_opening hnested hroom hat hopens hopening
      (fun x => eq_of_mayGive_openModule hq) (f := fun _ => pure ()) (settles_pure ())
    simp only [bind_pure_unit] at hall
    exact hall

/-- The body of the class itself settles a path if the statements in it do. -/
theorem settles_singletonBody (hf : Form.ofNode p.node = .singletonBody) :
    p.Settles path source config := by
  intro c hat hroom
  obtain ⟨hstatements, hinside⟩ := nested_of_singletonBody hf hat
  rw [Placed.mentions_of_opens? source (Placed.opens?_eq_none (by rw [hf]; rfl)), Site.statement_eq,
    Placed.node_site, hf]
  have hwalk := settles_nested hnested hroom hinside
  rw [hstatements] at hwalk
  exact hwalk.guarded _ _

/-- A visibility call settles a path if its arguments that are no names do. -/
theorem settles_restriction {visibility : Visibility}
    (hf : Form.ofNode p.node = .restriction visibility) : p.Settles path source config := by
  intro c hat hroom
  have hbody := nested_of_restriction hf
  rw [Placed.mentions_of_opens? source (Placed.opens?_eq_none (by rw [hf]; rfl)), hbody,
    Site.statement_eq, Placed.node_site, hf]
  refine ((settles_walkArguments p (fun s hs hname => ?_) c visibility
    (hat.with_visibility visibility)).imp fun hsound => ⟨fun s hs => ?_, hsound.2⟩).guarded _ _
  · have hmem : ({ p with site := s } : Placed) ∈ p.nested := by
      rw [hbody]
      exact List.mem_map_of_mem (List.mem_filter.mpr ⟨hs, by rw [hname]; rfl⟩)
    exact ⟨hnested _ hmem, fun d hd =>
      hroom d (Placed.mem_flatMap_declared.mpr (.inr (.inl ⟨_, hmem, hd⟩)))⟩
  · exact hsound.1.of_mem_argumentSites hs

end Nested

/-- Documenting any statement settles a path by its mentions, if what it declares leaves
room there. -/
theorem settles (path : String) (source : Source) (config : Config) (p : Placed) :
    p.Settles path source config := by
  induction p using Placed.induction_nested with
  | nested p hnested =>
    cases hf : Form.ofNode p.node with
    | classBody => exact settles_classBody hnested hf
    | moduleBody => exact settles_moduleBody hnested hf
    | singletonBody => exact settles_singletonBody hnested hf
    | restriction visibility => exact settles_restriction hnested hf
    | _ =>
      refine settles_leaf ?_
      rw [hf]
      rfl

/-- Documenting a source settles a path by the mentions of its tree, if what it declares
leaves room there. -/
theorem settles_walkSource (config : Config) {source : Source}
    (hroom : ∀ d ∈ source.root.events.flatMap Event.declared, d.LeavesRoom path) :
    Action.Settles path source.mentions (source.root.IsLegible ∧ source.HasLegibleComments)
      (walkSource config source) := by
  have hat := isAt_topLevel source config
  have hmentions : source.mentions = source.root.topLevel.flatMap (Placed.mentions source) := by
    rw [Source.mentions, Node.placed, List.flatMap_assoc]
    rfl
  rw [walkSource, Node.outline_eq, hmentions]
  refine (settles_walkAll (fun q _ => settles path source config q) (fun q hq d hd => hroom d ?_)
    hat).imp fun hs => ⟨fun q hq => ?_, hs.2⟩
  · rw [Node.events, List.flatMap_assoc]
    exact List.mem_flatMap.mpr ⟨q, hq, hd⟩
  · obtain ⟨s, hs', rfl⟩ := List.mem_map.mp hq
    exact Node.everywhere_of_mem_bodySites hs.1 hs'

end Statements

end RubyDoc

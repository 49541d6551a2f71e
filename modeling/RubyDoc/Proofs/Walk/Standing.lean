import RubyDoc.Proofs.Walk.Attributes

/-!
# Namespaces that stand

A namespace stands as long as nothing that is declared takes its place: a constant, a method,
or a namespace of another kind. A class that is declared where a class stands opens it again, so
does a module, and no placeholder is made of a namespace that is there. In a store that a run
comes by every namespace has a serial number below the next one and tables for both scopes.
-/

namespace RubyDoc

open ObjectPath

namespace Store

variable {D : Declaration → Prop} {s s' : Store} {h : Handle} {kind : String}

/-! ### What takes the place of a namespace -/

/-- What is registered for a declaration is a method if one is declared. A namespace is not
registered where one of its kind is. -/
theorem Registers.exists_declared {e : Entity}
    (hD : ∀ d, D d → d.kind ≠ .constant → d.kind ≠ .method → Text.beginsWith "::" d.path = false)
    (he : s.Registers D e) : ∃ d, D d ∧ d.path = e.path ∧
      (d.kind = .method → e.isMethod = true) ∧
      ∀ known m, s.find? e.path = some known → known.members? = some m →
        d.kind ≠ .placeholder ∧ d.kind.made ≠ known.kind.name := by
  have hspace : ∀ {known : Entity} {m : Members}, known.members? = some m →
      known.kind.name ≠ "constant" ∧ known.kind.name ≠ "method" := by
    intro known m hm
    rw [Entity.members?] at hm
    revert hm
    cases known.kind <;> simp [EntityKind.members?, EntityKind.name]
  have hpath : ∀ {d : Declaration} {m : Members}, D d → d.kind ≠ .constant → d.kind ≠ .method →
      e.members? = some m → e.kind.name ≠ "root" → e.home = (split d.path).1 →
      e.name = (split d.path).2 → d.path = e.path := by
    intro d m hd hconstant hmethod hm hroot hhome hname
    rw [Entity.path_of_members? hm hroot, hhome, hname, join_split (hD d hd hconstant hmethod)]
  cases he with
  | @method _ d hd hkind he =>
    refine ⟨d, hd, he.path.symm, fun _ => he.isMethod, fun known m _ hm => ⟨by simp [hkind], ?_⟩⟩
    rw [hkind]
    exact (hspace hm).2.symm
  | @constant _ d value hd hkind he hsame hhome =>
    refine ⟨d, hd, hsame.symm, by simp [hkind], fun known m _ hm => ⟨by simp [hkind], ?_⟩⟩
    rw [hkind]
    exact (hspace hm).1.symm
  | @placeholder d hd hkind hmissing =>
    have hsame := hpath hd (by simp [hkind]) (by simp [hkind]) rfl (by simp [Entity.placeholder,
      EntityKind.name]) rfl rfl
    refine ⟨d, hd, hsame, by simp [hkind], fun known m hfind hm => ?_⟩
    rw [← hsame] at hfind
    rw [hmissing known hfind] at hm
    cases hm
  | @moduleSpace _ d hd hkind hhome hname he hnew =>
    have hm : e.members? = some {} := by rw [Entity.members?, he, EntityKind.members?]
    have hsame := hpath hd (by simp [hkind]) (by simp [hkind]) hm (by simp [he, EntityKind.name])
      hhome hname
    refine ⟨d, hd, hsame, by simp [hkind], fun known m hfind _ => ⟨by simp [hkind], ?_⟩⟩
    rw [hsame, hfind, Option.any_some, Entity.isModule] at hnew
    rw [hkind]
    revert hnew
    cases known.kind <;> simp [EntityKind.name, DeclaredKind.made]
  | @classSpace _ d superclass hd hkind hhome hname he hnew =>
    have hm : e.members? = some (inheritedMembers (s.find? d.path)) := by
      rw [Entity.members?, he, EntityKind.members?]
    have hsame := hpath hd (by simp [hkind]) (by simp [hkind]) hm (by simp [he, EntityKind.name])
      hhome hname
    refine ⟨d, hd, hsame, by simp [hkind], fun known m hfind _ => ⟨by simp [hkind], ?_⟩⟩
    rw [hsame, hfind, Option.any_some, Entity.isClass] at hnew
    rw [hkind]
    revert hnew
    cases known.kind <;> simp [EntityKind.name, DeclaredKind.made]

/-! ### Namespaces that stand -/

/-- A store where the namespace that a handle means is at its path, as an entity of a kind. -/
structure Stands (s : Store) (h : Handle) (kind : String) : Prop where
  /-- There is room for a namespace. -/
  room : s.HasRoomAt h.path
  /-- It is there. -/
  space : ∃ e m, s.find? h.path = some e ∧ e.members? = some m ∧ m.handle h.path = h ∧
    e.kind.name = kind
  /-- No other namespace will get its serial number. -/
  serial : h.serial < s.nextSerial

/-- A change is an edit, whatever is registered and put in. -/
theorem Change.isEdit (hc : Change D s s') : Edit (fun _ => True) (fun _ _ _ => True) s s' := by
  cases hc with
  | register _ ha => exact .register trivial ha
  | edit path hf => exact .modify s path (Entity.isEdited_of_method hf) fun _ => .inr trivial
  | reopen _ _ hf => exact .modify s _ hf fun _ => .inr trivial
  | slots => exact .put s trivial _

/-- What is changed at the path of a namespace that stands, but for its kind and its handle,
leaves it standing. -/
theorem Stands.of_find? (hs : s.Stands h kind) (hroom : s'.HasRoomAt h.path)
    (hserial : s.nextSerial ≤ s'.nextSerial) {f : Entity → Entity}
    (hfind : s'.find? h.path = (s.find? h.path).map f)
    (hf : ∀ e m, e.members? = some m → (f e).kind.name = e.kind.name ∧
      ∃ m', (f e).members? = some m' ∧ m'.handle h.path = m.handle h.path) :
    s'.Stands h kind := by
  obtain ⟨e, m, he, hm, hhandle, hkind⟩ := hs.space
  obtain ⟨hname, m', hm', hsame⟩ := hf e m hm
  refine ⟨hroom, ⟨f e, m', ?_, hm', hsame.trans hhandle, hname.trans hkind⟩,
    hs.serial.trans_le hserial⟩
  rw [hfind, he, Option.map_some]

/-- Entities that are edited in place leave it standing. -/
theorem Stands.modify (hs : s.Stands h kind) {path : String} {f : Entity → Entity}
    (hroom : (s.modify path f).HasRoomAt h.path) (hf : ∀ e : Entity, e.IsEdited (f e)) :
    (s.modify path f).Stands h kind := by
  refine hs.of_find? hroom (Nat.le_refl _) (find?_modify_eq s path f h.path) fun e m hm => ?_
  split
  · exact ⟨(hf e).kind, m, (hf e).members.trans hm, rfl⟩
  · exact ⟨rfl, m, hm, rfl⟩

/-- So do members that may be changed there, but for their handle. -/
theorem Stands.mapMembers (hs : s.Stands h kind) (hroom : s'.HasRoomAt h.path)
    (hserial : s.nextSerial ≤ s'.nextSerial) {P : Entity → Prop} [DecidablePred P]
    {f : Members → Members} (hf : ∀ m, (f m).handle h.path = m.handle h.path)
    (hfind : s'.find? h.path =
      (s.find? h.path).map fun e => if P e then e.mapMembers f else e) : s'.Stands h kind := by
  refine hs.of_find? hroom hserial hfind fun e m hm => ?_
  split
  · exact ⟨Entity.name_mapMembers f e, f m,
      by rw [Entity.members?_mapMembers, hm, Option.map_some], hf m⟩
  · exact ⟨rfl, m, hm, rfl⟩

/-- A namespace stands after a change that declares nothing in its place. -/
theorem Stands.change (hs : s.Stands h kind)
    (hD : ∀ d, D d → d.LeavesRoom h.path ∧
      (d.path = h.path → d.kind = .placeholder ∨ d.kind.made = kind))
    (hc : Change D s s') : s'.Stands h kind := by
  have hroom := hs.room.change (fun d hd => (hD d hd).1) hc
  have hserial := hc.isEdit.nextSerial_le
  cases hc with
  | @register _ e he ha =>
    obtain ⟨d, hd, hpath, -, hnew⟩ := he.exists_declared fun d hd => (hD d hd).1.anchored
    have hother : h.path ≠ e.path := by
      intro hp
      obtain ⟨known, m, hfind, hm, -, hkind⟩ := hs.space
      obtain ⟨hplaceholder, hmade⟩ := hnew known m (hp ▸ hfind) hm
      exact ((hD d hd).2 (hpath.trans hp.symm)).elim hplaceholder
        fun h => hmade (h.trans hkind.symm)
    have hfind := find?_attach ha (Entity.path_ne_home (hpath ▸ (hD d hd).1.ne_empty)) h.path
    rw [if_neg hother] at hfind
    refine hs.mapMembers hroom hserial (fun m => m.handle_adopt e.path h.path)
      (P := fun _ => h.path = e.home) ?_
    rw [hfind]
    split
    · rfl
    · rw [Option.map_id_fun', id]
  | edit target hf => exact hs.modify hroom (Entity.isEdited_of_method hf)
  | reopen _ _ hf => exact hs.modify hroom hf
  | slots handle scope name _ =>
    exact hs.mapMembers hroom hserial (fun m => m.handle_putAttribute scope name _ h.path)
      (find?_editMembers_eq s handle _ h.path)

theorem Stands.changes (hs : s.Stands h kind)
    (hD : ∀ d, D d → d.LeavesRoom h.path ∧
      (d.path = h.path → d.kind = .placeholder ∨ d.kind.made = kind))
    (hc : Changes D s s') : s'.Stands h kind := by
  induction hc with
  | refl => exact hs
  | tail _ hlast ih => exact ih.change hD hlast

/-- The members of a namespace that stands are those that its handle means. -/
theorem Stands.exists_membersOf (hs : s.Stands h kind) :
    ∃ m, s.membersOf h = some m ∧ m.handle h.path = h := by
  obtain ⟨e, m, hfind, hm, hhandle, -⟩ := hs.space
  refine ⟨m, membersOf_eq_some_iff.mpr ⟨⟨e, hfind, hm⟩, ?_⟩, hhandle⟩
  exact congrArg Handle.serial hhandle

/-- A method at a path stays one while only methods are declared there. -/
theorem HasMethod.change {path : String} (hm : s.HasMethod path) (hk : s.IsKeyed)
    (hD : ∀ d, D d →
      (d.kind ≠ .constant → d.kind ≠ .method → Text.beginsWith "::" d.path = false) ∧
      (d.path = path → d.kind = .method))
    (hc : Change D s s') : s'.HasMethod path := by
  cases hc with
  | register he ha =>
    obtain ⟨d, hd, hpath, hmethod, -⟩ := he.exists_declared fun d hd => (hD d hd).1
    have hchanged := changedBy_attach hk ha (List.mem_singleton_self d) hpath
      ((em (d.kind = .method)).imp_left hmethod)
    refine hchanged.method path (fun x hx => ?_) hm
    rw [List.mem_singleton.mp hx]
    exact (hD d hd).2
  | edit target hf =>
    have hchanged := changedBy_editMethod_of_mem hk
      (List.mem_singleton_self (⟨"", target, .method⟩ : Declaration)) (f := _) fun e he =>
        ⟨(hf e).path, (hf e).isMethod he⟩
    refine hchanged.method path (fun x hx _ => ?_) hm
    rw [List.mem_singleton.mp hx]
  | @reopen d hd hkind f hf =>
    have hne : path ≠ d.path := by
      intro hp
      rw [(hD d hd).2 hp.symm] at hkind
      rcases hkind with hkind | hkind <;> cases hkind
    rwa [HasMethod, shapeAt, find?_modify, if_neg hne]
  | slots handle scope name _ => rwa [HasMethod, shapeAt_editMembers]

theorem HasMethod.changes {path : String} (hm : s.HasMethod path) (hk : s.IsKeyed)
    (hD : ∀ d, D d →
      (d.kind ≠ .constant → d.kind ≠ .method → Text.beginsWith "::" d.path = false) ∧
      (d.path = path → d.kind = .method))
    (hc : Changes D s s') : s'.HasMethod path := by
  induction hc with
  | refl => exact hm
  | tail hfirst hlast ih => exact ih.change (hk.changes hfirst) hD hlast

/-! ### Serial numbers and tables -/

end Store

/-- Members with a serial number that was given, and tables for both scopes. -/
structure Members.IsNumbered (m : Members) (next : Nat) : Prop where
  /-- The serial number is one before the next. -/
  serial : m.serial < next
  /-- There is a table for either scope. -/
  scopes : m.scopes = [.onInstances, .onClass]

theorem Members.IsNumbered.of_handle {m m' : Members} {next next' : Nat} (h : m.IsNumbered next)
    (hnext : next ≤ next') {path : String} (hsame : m'.handle path = m.handle path) :
    m'.IsNumbered next' := by
  have hserial : m'.serial = m.serial := congrArg Handle.serial hsame
  have hscopes : m'.scopes = m.scopes := congrArg Handle.scopes hsame
  exact ⟨hserial ▸ h.serial.trans_le hnext, hscopes.trans h.scopes⟩

namespace Store

/-- A store whose namespaces have serial numbers that were given, and tables for both scopes. -/
def IsNumbered (s : Store) : Prop :=
  ∀ path e m, s.find? path = some e → e.members? = some m → m.IsNumbered s.nextSerial

variable {D : Declaration → Prop} {s s' : Store}

/-- Entities that are changed in place, but for the handles of namespaces, stay numbered. -/
theorem IsNumbered.of_find? (hs : s.IsNumbered) (hnext : s.nextSerial ≤ s'.nextSerial)
    {f : String → Entity → Entity} (hfind : ∀ q, s'.find? q = (s.find? q).map (f q))
    (hf : ∀ q e m', (f q e).members? = some m' →
      ∃ m, e.members? = some m ∧ m'.handle q = m.handle q) : s'.IsNumbered := by
  intro path e' m' he' hm'
  rw [hfind] at he'
  obtain ⟨e, he, rfl⟩ := Option.map_eq_some_iff.mp he'
  obtain ⟨m, hm, hsame⟩ := hf path e m' hm'
  exact (hs path e m he hm).of_handle hnext hsame

/-- Members that may be changed, but for their handle. -/
theorem exists_of_members?_ite {f : Members → Members} {path : String}
    (hf : ∀ m, (f m).handle path = m.handle path) {P : Prop} [Decidable P] {e : Entity}
    {m' : Members} (h : (if P then e.mapMembers f else e).members? = some m') :
    ∃ m, e.members? = some m ∧ m'.handle path = m.handle path := by
  split at h
  · rw [Entity.members?_mapMembers] at h
    obtain ⟨m, hm, rfl⟩ := Option.map_eq_some_iff.mp h
    exact ⟨m, hm, hf m⟩
  · exact ⟨m', h, rfl⟩

/-- What is registered gets the next serial number. -/
theorem IsNumbered.attach (hs : s.IsNumbered) {e : Entity}
    (he : ∀ m, e.members? = some m → m.scopes = [.onInstances, .onClass])
    (ha : s.attach e = .ok s') : s'.IsNumbered := by
  obtain ⟨home, known, -, -, rfl⟩ := (attach_eq_ok_iff s s' e).mp ha
  have hplaced : (s.placed e).IsNumbered := by
    intro path found m hfound hm
    obtain ⟨rfl, own, hown, rfl⟩ | ⟨-, hfound⟩ := members?_of_find?_placed hfound hm
    · exact ⟨Nat.lt_succ_self _, he own hown⟩
    · exact (hs path found m hfound hm).of_handle (Nat.le_succ _)
        (rfl : m.handle path = m.handle path)
  exact hplaced.of_find? (nextSerial_editMembers _ _ _).ge (find?_editMembers_eq _ _ _)
    fun q _ _ h => exists_of_members?_ite (fun m => m.handle_adopt e.path q) h

/-- Entities that are edited in place stay numbered. -/
theorem IsNumbered.modify (hs : s.IsNumbered) (path : String) {f : Entity → Entity}
    (hf : ∀ e : Entity, e.IsEdited (f e)) : (s.modify path f).IsNumbered := by
  refine hs.of_find? (Nat.le_refl _) (find?_modify_eq s path f) fun q e m' hm' => ?_
  split at hm'
  · exact ⟨m', (hf e).members ▸ hm', rfl⟩
  · exact ⟨m', hm', rfl⟩

/-- A change keeps all namespaces numbered. -/
theorem IsNumbered.change (hs : s.IsNumbered) (hc : Change D s s') : s'.IsNumbered := by
  cases hc with
  | register he ha =>
    refine hs.attach (fun m hm => ?_) ha
    rcases he.members hm with rfl | ⟨path, known, hfind, hknown, -⟩
    · rfl
    · exact (hs path known m hfind hknown).scopes
  | edit target hf => exact hs.modify target (Entity.isEdited_of_method hf)
  | reopen _ _ hf => exact hs.modify _ hf
  | slots handle scope name _ =>
    exact hs.of_find? (nextSerial_editMembers s handle _).ge (find?_editMembers_eq s handle _)
      fun q _ _ h => exists_of_members?_ite (fun m => m.handle_putAttribute scope name _ q) h

theorem IsNumbered.changes (hs : s.IsNumbered) (hc : Changes D s s') : s'.IsNumbered := by
  induction hc with
  | refl => exact hs
  | tail _ hlast ih => exact ih.change hlast

end Store

end RubyDoc

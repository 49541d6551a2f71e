import Mathlib.Logic.Relation
import RubyDoc.Proofs.Walk.Basic

/-!
# Sites that statements are read from

A statement is read from its site, and some are read from the site of a block in it as well. The
statements inside it are read from sites below. So all statements of a source are read from sites
of its tree, however deep they are nested.
-/

namespace RubyDoc

namespace Node

/-- A node is the root of a tree or inside it. -/
def Has : Node → Node → Prop := Relation.ReflTransGen fun n c => c ∈ n.children

/-- A site is one of a tree: its node is a child, and it stands where the site says. -/
def HasSite (root : Node) (s : Site) : Prop := ∃ n, root.Has n ∧ s ∈ n.sites

variable {root n : Node} {s : Site}

theorem HasSite.has (h : root.HasSite s) : root.Has s.node := by
  obtain ⟨n, hn, hs⟩ := h
  refine hn.tail ?_
  rw [← map_node_sites]
  exact List.mem_map_of_mem hs

/-- A site below a node of a tree is one of the tree. -/
theorem Has.hasSite (h : root.Has n) (hs : n.HasSite s) : root.HasSite s := by
  obtain ⟨m, hm, hs⟩ := hs
  exact ⟨m, h.trans hm, hs⟩

theorem hasSite_of_mem_sites (h : s ∈ n.sites) : n.HasSite s := ⟨n, .refl, h⟩

theorem hasSite_of_mem_argumentSites (h : s ∈ n.argumentSites) : n.HasSite s := by
  rw [argumentSites] at h
  split at h
  · next list hl => exact ⟨list, .single (mem_of_child? hl), (List.mem_filter.mp h).1⟩
  · cases h

theorem hasSite_of_mem_bodySites (h : s ∈ n.bodySites) : n.HasSite s := by
  rw [bodySites] at h
  split at h
  · next body hb => exact ⟨body, .single (mem_of_child? hb), (List.mem_filter.mp h).1⟩
  · exact hasSite_of_mem_sites (List.mem_filter.mp h).1

end Node

namespace Form

/-- The block of a form. -/
def block? : Form → Option Site
  | signature block | enumValues block => some block
  | _ => none

/-- The form of a call has the block of the call if it has one. -/
theorem block?_ofCall (n : Node) (name : String) {block : Site}
    (h : (ofCall n name).block? = some block) : n.childSite? "block" = some block := by
  have hown : ∀ {make : Site → Form} {found : Option Site}, (∀ b, (make b).block? = some b) →
      (found.elim plain make).block? = some block → found = some block := by
    intro make found hmake hfound
    cases found with
    | none => cases hfound
    | some b => exact (hmake b).symm.trans hfound
  rw [ofCall] at h
  split at h
  · split at h <;> cases h
  · cases h
  · split at h
    · exact hown (fun _ => rfl) h
    · split at h
      · exact hown (fun _ => rfl) h
      · split at h <;> cases h

/-- The block of a form is a site below the node. -/
theorem hasSite_block {n : Node} {block : Site} (h : (ofNode n).block? = some block) :
    n.HasSite block := by
  have htold : ofNode n ≠ illegible := fun hillegible => by
    rw [hillegible] at h
    cases h
  have hform := isOf_ofNode htold
  generalize ofNode n = f at h hform
  cases hform with
  | identifier hk => cases hv : Visibility.ofName? n.written <;> (rw [hv] at h; cases h)
  | classBody hk => cases h
  | moduleBody hk => cases h
  | singleton hk => split at h <;> cases h
  | other hk hb hf => rcases hf with rfl | rfl | rfl <;> cases h
  | call hk hb =>
    exact Node.hasSite_of_mem_sites (List.mem_of_find?_eq_some (block?_ofCall n _ h))

end Form

namespace Statement

mutual

/-- The sites that a statement is read from, with those of the statements inside it. -/
def sites : Statement → List Site
  | plain s | illegible s | keyword s _ | method s | accessors s _ _ | constant s | field s _ => [s]
  | signature s block | enumValues s block => [s, block]
  | restriction s _ body | classBody s body | moduleBody s body | singletonBody s body =>
    s :: sitesOf body

/-- The sites that some statements are read from. -/
def sitesOf : List Statement → List Site
  | [] => []
  | s :: rest => s.sites ++ sitesOf rest

end

theorem mem_sitesOf_iff {s : Site} {body : List Statement} :
    s ∈ sitesOf body ↔ ∃ statement ∈ body, s ∈ statement.sites := by
  induction body with
  | nil => simp [sitesOf]
  | cons statement rest ih => rw [sitesOf, List.mem_append, ih, List.exists_mem_cons_iff]

end Statement

/-- A statement is read from its own site and from sites below. -/
theorem Site.hasSite_of_mem_sites_statement {s t : Site} (h : t ∈ s.statement.sites) :
    t = s ∨ s.node.HasSite t := by
  induction hw : s.node.weight using Nat.strongRecOn generalizing s with
  | ind w ih =>
    subst hw
    -- the site itself, or one of a statement whose site is lighter
    have hbody : ∀ {sites : List Site}, (∀ inner ∈ sites, s.node.HasSite inner) →
        Site.totalWeight sites < s.node.weight →
        t ∈ s :: Statement.sitesOf (sites.map Site.statement) → t = s ∨ s.node.HasSite t := by
      intro sites hsites htotal ht
      refine (List.mem_cons.mp ht).imp_right fun ht => ?_
      obtain ⟨statement, hstatement, ht⟩ := Statement.mem_sitesOf_iff.mp ht
      obtain ⟨inner, hinner, rfl⟩ := List.mem_map.mp hstatement
      rcases ih _ (weight_lt_of_mem hinner htotal) ht rfl with rfl | hbelow
      · exact hsites t hinner
      · exact (hsites inner hinner).has.hasSite hbelow
    have hbodySites := hbody (fun _ => Node.hasSite_of_mem_bodySites) (Node.totalWeight_bodySites _)
    have hblock : ∀ {block : Site}, (Form.ofNode s.node).block? = some block →
        t ∈ [s, block] → t = s ∨ s.node.HasSite t := by
      intro block hform ht
      rcases List.mem_pair.mp ht with hsame | rfl
      · exact .inl hsame
      · exact .inr (Form.hasSite_block hform)
    have hown : t ∈ [s] → t = s ∨ s.node.HasSite t := fun ht => .inl (List.mem_singleton.mp ht)
    rw [Site.statement_eq] at h
    cases hform : Form.ofNode s.node <;> rw [hform] at h hblock
    case signature => exact hblock rfl h
    case enumValues => exact hblock rfl h
    case restriction =>
      exact hbody (fun _ => Node.hasSite_of_mem_argumentSites) (Node.totalWeight_argumentSites _) h
    case classBody => exact hbodySites h
    case moduleBody => exact hbodySites h
    case singletonBody => exact hbodySites h
    all_goals exact hown h

/-- The statements at the top level of a tree are read from sites of it. -/
theorem Node.hasSite_of_mem_sitesOf_outline {root : Node} {s : Site}
    (h : s ∈ Statement.sitesOf root.outline) : root.HasSite s := by
  obtain ⟨statement, hstatement, hs⟩ := Statement.mem_sitesOf_iff.mp h
  obtain ⟨outer, houter, rfl⟩ := List.mem_map.mp hstatement
  rcases Site.hasSite_of_mem_sites_statement hs with rfl | hbelow
  · exact hasSite_of_mem_bodySites houter
  · exact (hasSite_of_mem_bodySites houter).has.hasSite hbelow

end RubyDoc

import RubyDoc.Docstring.Directives
import RubyDoc.Proofs.Text.Lines

/-!
# Passages of a docstring

Behind its first lines of prose a docstring is a row of passages: each begins
with a line that opens a block and goes on to the next such line. A passage
gives one block, and the lines that do not continue that block fall back to
prose. So a text of joined lines is read passage by passage, whatever stands in
the lines.
-/

namespace RubyDoc

open RubyDoc.Text

/-- A line that opens a block, and the lines up to the next such line. -/
structure Passage where
  /-- The line that opens the block. -/
  head : String
  /-- The lines after it, whether they continue the block or not. -/
  more : List String

namespace Passage

/-- All lines of a passage. -/
def lines (p : Passage) : List String := p.head :: p.more

/-- The lines that continue the block of a passage. -/
def continued (p : Passage) : List String := (p.more.takeWhile isContinuation).map stripEnd

/-- The lines that fall back to prose. -/
def left (p : Passage) : List String := (p.more.dropWhile isContinuation).map stripEnd

/-- The block that a passage opens. -/
def block (p : Passage) : Block :=
  if beginsWith "@!" p.head then .directive (stripEnd p.head) p.continued
  else .tag (stripEnd p.head) p.continued

/-- Only the first line opens a block. -/
structure IsProper (p : Passage) : Prop where
  /-- The first line begins with an at sign. -/
  opens : beginsWith "@" p.head = true
  /-- No later line does. -/
  closed : ∀ l ∈ p.more, beginsWith "@" l = false

end Passage

/-! ### Lines and blocks -/

/-- A line that begins with an at sign has that character in front. -/
theorem head?_of_beginsWith_at {l : String} (h : beginsWith "@" l = true) :
    l.toList.head? = some '@' := by
  rwa [beginsWith_mark rfl, beq_iff_eq] at h

/-- A line that opens a block continues none. -/
theorem isContinuation_of_beginsWith_at {l : String} (h : beginsWith "@" l = true) :
    isContinuation l = false := by
  have hh := head?_of_beginsWith_at h
  cases hl : l.toList with
  | nil => simp [isContinuation, hl]
  | cons c cs =>
    rw [hl, List.head?_cons, Option.some.injEq] at hh
    subst hh
    have hb : isBlank '@' = false := by decide
    simp [isContinuation, hl, hb]

/-- Lines of prose in front of a text are prose. -/
theorem ofLines_prose {ls : List String} (h : ∀ l ∈ ls, beginsWith "@" l = false)
    (rest : List String) :
    Block.ofLines (ls ++ rest) = ls.map (fun l => .prose (stripEnd l)) ++ Block.ofLines rest := by
  induction ls with
  | nil => rfl
  | cons l ls ih =>
    have hl := h l (by simp)
    rw [List.cons_append, Block.ofLines, if_neg (by simp [hl]),
      ih fun k hk => h k (List.mem_cons_of_mem _ hk)]
    rfl

/-- The lines of a block end where the next one opens. -/
theorem takeWhile_isContinuation_append (ls : List String) {rest : List String}
    (h : ∀ l ∈ rest.head?, beginsWith "@" l = true) :
    (ls ++ rest).takeWhile isContinuation = ls.takeWhile isContinuation := by
  induction ls with
  | nil =>
    cases rest with
    | nil => rfl
    | cons r rs =>
      have hr := isContinuation_of_beginsWith_at (h r rfl)
      rw [List.nil_append, List.takeWhile_cons_of_neg (by simp [hr]), List.takeWhile_nil]
  | cons l ls ih =>
    rw [List.cons_append, List.takeWhile_cons, List.takeWhile_cons, ih]

theorem dropWhile_isContinuation_append (ls : List String) {rest : List String}
    (h : ∀ l ∈ rest.head?, beginsWith "@" l = true) :
    (ls ++ rest).dropWhile isContinuation = ls.dropWhile isContinuation ++ rest := by
  induction ls with
  | nil =>
    cases rest with
    | nil => rfl
    | cons r rs =>
      have hr := isContinuation_of_beginsWith_at (h r rfl)
      rw [List.nil_append, List.dropWhile_cons_of_neg (by simp [hr]), List.dropWhile_nil]
      rfl
  | cons l ls ih =>
    rw [List.cons_append, List.dropWhile_cons, List.dropWhile_cons]
    split
    · exact ih
    · rfl

/-- A passage is read as its block and the prose that is left of it. -/
theorem ofLines_passage {p : Passage} (hp : p.IsProper) {rest : List String}
    (hr : ∀ l ∈ rest.head?, beginsWith "@" l = true) :
    Block.ofLines (p.lines ++ rest) = p.block :: p.left.map Block.prose ++ Block.ofLines rest := by
  have hleft : ∀ l ∈ p.more.dropWhile isContinuation, beginsWith "@" l = false := fun l hl =>
    hp.closed l ((List.dropWhile_sublist _).subset hl)
  rw [Passage.lines, List.cons_append, Block.ofLines, if_pos hp.opens]
  dsimp only
  rw [takeWhile_isContinuation_append _ hr, dropWhile_isContinuation_append _ hr,
    ofLines_prose hleft, Passage.left, List.map_map]
  rfl

/-- The lines of passages begin with one that opens a block. -/
theorem head?_flatMap_lines {ps : List Passage} (h : ∀ p ∈ ps, p.IsProper) :
    ∀ l ∈ (ps.flatMap Passage.lines).head?, beginsWith "@" l = true := by
  intro l hl
  cases ps with
  | nil => cases hl
  | cons q qs =>
    rw [List.flatMap_cons, Passage.lines, List.cons_append, List.head?_cons,
      Option.mem_some_iff] at hl
    rw [← hl]
    exact (h q (by simp)).opens

/-- No other lines begin with an at sign than the first ones of passages. -/
theorem countP_flatMap_lines {ps : List Passage} (h : ∀ p ∈ ps, p.IsProper) :
    (ps.flatMap Passage.lines).countP (fun l => beginsWith "@" l) = ps.length := by
  induction ps with
  | nil => rfl
  | cons p ps ih =>
    have hp := h p List.mem_cons_self
    have hmore : p.more.countP (fun l => beginsWith "@" l) = 0 := by
      rw [List.countP_eq_zero]
      exact fun l hl => Bool.eq_false_iff.mp (hp.closed l hl)
    rw [List.flatMap_cons, List.countP_append, ih fun q hq => h q (List.mem_cons_of_mem _ hq),
      Passage.lines, List.countP_cons_of_pos hp.opens, hmore, List.length_cons]
    omega

/-- Lines in front of passages have no at sign at the front, if they come to the same text with
other lines that have none, in front of as many passages. -/
theorem beginsWith_of_append_eq {prose prose' : List String} {ps ps' : List Passage}
    (hps : ∀ p ∈ ps, p.IsProper) (hps' : ∀ p ∈ ps', p.IsProper) (hlen : ps'.length = ps.length)
    (h : ∀ l ∈ prose, beginsWith "@" l = false)
    (he : prose ++ ps.flatMap Passage.lines = prose' ++ ps'.flatMap Passage.lines) :
    ∀ l ∈ prose', beginsWith "@" l = false := by
  have hprose : prose.countP (fun l => beginsWith "@" l) = 0 := by
    rw [List.countP_eq_zero]
    exact fun l hl => Bool.eq_false_iff.mp (h l hl)
  have hcount := congrArg (List.countP fun l => beginsWith "@" l) he
  rw [List.countP_append, List.countP_append, countP_flatMap_lines hps,
    countP_flatMap_lines hps', hprose, hlen] at hcount
  have hprose' : prose'.countP (fun l => beginsWith "@" l) = 0 := by omega
  rw [List.countP_eq_zero] at hprose'
  exact fun l hl => Bool.eq_false_iff.mpr (hprose' l hl)

/-- A row of passages is read passage by passage. -/
theorem ofLines_passages {ps : List Passage} (h : ∀ p ∈ ps, p.IsProper) :
    Block.ofLines (ps.flatMap Passage.lines) =
      ps.flatMap fun p => p.block :: p.left.map Block.prose := by
  induction ps with
  | nil => simp [Block.ofLines]
  | cons p ps ih =>
    have hrest := head?_flatMap_lines fun q hq => h q (List.mem_cons_of_mem p hq)
    rw [List.flatMap_cons, List.flatMap_cons, ofLines_passage (h p (by simp)) hrest,
      ih fun q hq => h q (List.mem_cons_of_mem _ hq)]

/-! ### Telling passages apart -/

/-- Prose ends where the first line opens a block. -/
theorem prose_eq_of_append_eq {prose prose' rest rest' : List String}
    (h : ∀ l ∈ prose, beginsWith "@" l = false) (h' : ∀ l ∈ prose', beginsWith "@" l = false)
    (hr : ∀ l ∈ rest.head?, beginsWith "@" l = true)
    (hr' : ∀ l ∈ rest'.head?, beginsWith "@" l = true)
    (he : prose ++ rest = prose' ++ rest') : prose = prose' ∧ rest = rest' := by
  have hcut : ∀ ls ms : List String, (∀ l ∈ ls, beginsWith "@" l = false) →
      (∀ l ∈ ms.head?, beginsWith "@" l = true) →
      (ls ++ ms).takeWhile (fun l => !beginsWith "@" l) = ls := by
    intro ls ms hls hms
    have hstop : ms.takeWhile (fun l => !beginsWith "@" l) = [] := by
      cases ms with
      | nil => rfl
      | cons m ms => exact List.takeWhile_cons_of_neg (by simp [hms m rfl])
    rw [List.takeWhile_append_of_pos fun l hl => by simp [hls l hl], hstop, List.append_nil]
  have hp : prose = prose' := by rw [← hcut prose rest h hr, he, hcut prose' rest' h' hr']
  rw [hp] at he
  exact ⟨hp, List.append_cancel_left he⟩

/-- Passages are known by their lines. -/
theorem passages_eq_of_lines_eq {ps ps' : List Passage} (h : ∀ p ∈ ps, p.IsProper)
    (h' : ∀ p ∈ ps', p.IsProper) (he : ps.flatMap Passage.lines = ps'.flatMap Passage.lines) :
    ps = ps' := by
  induction ps generalizing ps' with
  | nil =>
    cases ps' with
    | nil => rfl
    | cons q qs => cases he
  | cons p ps ih =>
    cases ps' with
    | nil => cases he
    | cons q qs =>
      have htail : ∀ r ∈ ps, r.IsProper := fun r hr => h r (List.mem_cons_of_mem _ hr)
      have htail' : ∀ r ∈ qs, r.IsProper := fun r hr => h' r (List.mem_cons_of_mem _ hr)
      rw [List.flatMap_cons, List.flatMap_cons, Passage.lines, Passage.lines, List.cons_append,
        List.cons_append, List.cons.injEq] at he
      obtain ⟨hmore, hrest⟩ := prose_eq_of_append_eq (h p (by simp)).closed (h' q (by simp)).closed
        (head?_flatMap_lines htail) (head?_flatMap_lines htail') he.2
      have hpq : p = q := by
        cases p
        rw [Passage.mk.injEq]
        exact ⟨he.1, hmore⟩
      rw [hpq, ih htail htail' hrest]

/-! ### What a docstring of prose and passages says -/

theorem filterMap_proseLine?_prose (ls : List String) :
    (ls.map Block.prose).filterMap Block.proseLine? = ls := by
  induction ls with
  | nil => rfl
  | cons l ls ih => rw [List.map_cons, List.filterMap_cons_some (f := Block.proseLine?) rfl, ih]

theorem filterMap_prose_eq_nil {β : Type} {f : Block → Option β}
    (hf : ∀ l, f (.prose l) = none) (ls : List String) :
    (ls.map Block.prose).filterMap f = [] := by
  induction ls with
  | nil => rfl
  | cons l ls ih => rw [List.map_cons, List.filterMap_cons_none (hf l), ih]

/-- The block of a passage is no prose. -/
theorem Passage.proseLine?_block (p : Passage) : p.block.proseLine? = none := by
  unfold Passage.block
  split <;> rfl

/-- The prose in a row of passages is what is left of each. -/
theorem proseLines_passages (ps : List Passage) :
    (ps.flatMap fun p => p.block :: p.left.map Block.prose).filterMap Block.proseLine? =
      ps.flatMap Passage.left := by
  induction ps with
  | nil => rfl
  | cons p ps ih =>
    rw [List.flatMap_cons, List.filterMap_append, ih, List.filterMap_cons_none p.proseLine?_block,
      filterMap_proseLine?_prose, List.flatMap_cons]

/-- Tags and directives in a row of passages come from its blocks alone. -/
theorem filterMap_passages {β : Type} {f : Block → Option β} (hf : ∀ l, f (.prose l) = none)
    (ps : List Passage) :
    (ps.flatMap fun p => p.block :: p.left.map Block.prose).filterMap f =
      (ps.map Passage.block).filterMap f := by
  induction ps with
  | nil => rfl
  | cons p ps ih =>
    rw [List.flatMap_cons, List.filterMap_append, ih, List.map_cons, List.filterMap_cons,
      filterMap_prose_eq_nil hf, List.filterMap_cons]
    cases f p.block <;> rfl

/-- A text of prose lines and passages is read to the prose with what is left
of the passages, and to the tags and directives of the blocks. -/
theorem parse_passages {prose : List String} {ps : List Passage}
    (hprose : ∀ l ∈ prose, beginsWith "@" l = false) (hps : ∀ p ∈ ps, p.IsProper)
    {content : String} (hc : lines content = prose ++ ps.flatMap Passage.lines) :
    Docstring.parse content =
      { text := strip (joinLines (prose.map stripEnd ++ ps.flatMap Passage.left))
        tags := (ps.map Passage.block).filterMap Block.tag?
        directives := (ps.map Passage.block).filterMap Block.directiveText? } := by
  have hprose' : prose.map (fun l => Block.prose (stripEnd l)) =
      (prose.map stripEnd).map Block.prose := by rw [List.map_map]; rfl
  unfold Docstring.parse
  dsimp only
  rw [hc, ofLines_prose hprose, ofLines_passages hps, hprose', List.filterMap_append,
    List.filterMap_append, List.filterMap_append, filterMap_proseLine?_prose, proseLines_passages,
    filterMap_prose_eq_nil fun _ => rfl, filterMap_prose_eq_nil fun _ => rfl,
    filterMap_passages fun _ => rfl, filterMap_passages fun _ => rfl]
  rfl

end RubyDoc

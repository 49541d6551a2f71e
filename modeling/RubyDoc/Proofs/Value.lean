import RubyDoc.Value

/-!
# Entries of maps

What is put under a text key of a map is found there, and everything else is found as before. A
map gets longer by it only if the key is new.
-/

namespace RubyDoc

namespace Value

variable {α β : Type}

/-- Only the text itself is the same key as a text. -/
theorem isSameKey_text (k : Value) (key : String) :
    k.isSameKey (.text key) = decide (k = .text key) := by
  cases k with
  | real x =>
    rw [isSameKey, whole?]
    cases x.toInt? <;> rfl
  | _ => rfl

theorem putEntry_cons (key : String) (a : α) (e : Value × α) (rest : List (Value × α)) :
    putEntry (.text key) a (e :: rest) =
      if e.1 = .text key then (e.1, a) :: rest else e :: putEntry (.text key) a rest := by
  rw [putEntry, isSameKey_text]
  simp only [decide_eq_true_eq]

theorem under_cons (e : Value × α) (name : String) (rest : List (Value × α)) :
    under (e :: rest) name = if e.1 = .text name then some e.2 else under rest name := by
  obtain ⟨k, v⟩ := e
  cases k with
  | text k =>
    rw [under]
    simp only [beq_iff_eq, text.injEq]
  | _ => exact (if_neg nofun).symm

theorem under_map (f : α → β) (entries : List (Value × α)) (name : String) :
    under (entries.map fun e => (e.1, f e.2)) name = (under entries name).map f := by
  induction entries with
  | nil => rfl
  | cons e rest ih =>
    rw [List.map_cons, under_cons, under_cons, ih]
    split <;> rfl

theorem under_append (xs ys : List (Value × α)) (name : String) :
    under (xs ++ ys) name = (under xs name).or (under ys name) := by
  induction xs with
  | nil => rfl
  | cons e rest ih =>
    rw [List.cons_append, under_cons, under_cons, ih]
    split <;> rfl

/-- What is put under a key of a map is there, and nothing else is changed. -/
theorem under_putEntry (key name : String) (a : α) (entries : List (Value × α)) :
    under (putEntry (.text key) a entries) name =
      if key = name then some a else under entries name := by
  induction entries with
  | nil =>
    rw [putEntry, under_cons]
    simp only [text.injEq]
  | cons e rest ih =>
    rw [putEntry_cons]
    split
    · next hkey =>
      rw [under_cons, under_cons, hkey]
      simp only [text.injEq]
      split <;> rfl
    · next hkey =>
      rw [under_cons, under_cons, ih]
      grind

/-- The entry of a key stays at its place, and one of a new key comes behind all others. -/
theorem putEntry_append (key : String) (a : α) (xs ys : List (Value × α)) :
    putEntry (.text key) a (xs ++ ys) =
      if (under xs key).isSome then putEntry (.text key) a xs ++ ys
      else xs ++ putEntry (.text key) a ys := by
  induction xs with
  | nil => rfl
  | cons e rest ih =>
    rw [List.cons_append, putEntry_cons, putEntry_cons, under_cons, ih]
    split
    · rfl
    · split <;> rfl

theorem length_putEntry (key : String) (a : α) (entries : List (Value × α)) :
    (putEntry (.text key) a entries).length =
      entries.length + if (under entries key).isSome then 0 else 1 := by
  induction entries with
  | nil => rfl
  | cons e rest ih =>
    rw [putEntry_cons, under_cons]
    split
    · rfl
    · rw [List.length_cons, ih, List.length_cons]
      omega

/-- To put the same once more changes nothing. -/
theorem putEntry_putEntry (key : String) (a : α) (entries : List (Value × α)) :
    putEntry (.text key) a (putEntry (.text key) a entries) = putEntry (.text key) a entries := by
  induction entries with
  | nil =>
    rw [putEntry, putEntry_cons, if_pos rfl]
  | cons e rest ih =>
    rw [putEntry_cons]
    split
    · next hkey => rw [putEntry_cons, if_pos hkey]
    · next hkey => rw [putEntry_cons, if_neg hkey, ih]

theorem of_mem_putEntry {key : String} {a : α} {e : Value × α} {entries : List (Value × α)}
    (h : e ∈ putEntry (.text key) a entries) : e ∈ entries ∨ e.2 = a := by
  induction entries with
  | nil =>
    rw [List.mem_singleton.mp h]
    exact .inr rfl
  | cons first rest ih =>
    rw [putEntry_cons] at h
    split at h
    · rcases List.mem_cons.mp h with rfl | h
      · exact .inr rfl
      · exact .inl (List.mem_cons_of_mem _ h)
    · rcases List.mem_cons.mp h with rfl | h
      · exact .inl List.mem_cons_self
      · exact (ih h).imp_left (List.mem_cons_of_mem _)

end Value

end RubyDoc

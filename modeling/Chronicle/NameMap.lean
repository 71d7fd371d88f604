/-!
# Tables by name

A finite table from names to values, kept in the order of the names, so that equal
tables are equal values.

* `get?_insert`: what a table holds after an insertion.
-/

namespace Chronicle

/-- A table from names to values. -/
structure NameMap (α : Type) where
  /-- The entries. -/
  entries : List (String × α)
  /-- The names increase. -/
  sorted : entries.Pairwise fun a b => a.1 < b.1
deriving DecidableEq

/-- A set of names. -/
abbrev NameSet := NameMap Unit

namespace NameMap

variable {α : Type}

/-- The table without entries. -/
def empty : NameMap α := ⟨[], .nil⟩

instance : Inhabited (NameMap α) := ⟨empty⟩

/-- The entries after an insertion; an entry of the same name is replaced. -/
def insertEntry (name : String) (a : α) : List (String × α) → List (String × α)
  | [] => [(name, a)]
  | (n, b) :: rest =>
    if name < n then (name, a) :: (n, b) :: rest
    else if name = n then (name, a) :: rest
    else (n, b) :: insertEntry name a rest

theorem fst_mem_insertEntry {name : String} {a : α} {es : List (String × α)}
    {e : String × α} (h : e ∈ insertEntry name a es) : e.1 = name ∨ e ∈ es := by
  induction es with
  | nil => simp_all [insertEntry]
  | cons b es ih =>
    obtain ⟨n, b⟩ := b
    unfold insertEntry at h
    split at h
    · rcases List.mem_cons.1 h with rfl | h
      · exact .inl rfl
      · exact .inr h
    · split at h
      · rcases List.mem_cons.1 h with rfl | h
        · exact .inl rfl
        · exact .inr (List.mem_cons_of_mem _ h)
      · rcases List.mem_cons.1 h with rfl | h
        · exact .inr List.mem_cons_self
        · exact (ih h).imp id (List.mem_cons_of_mem _)

theorem sorted_insertEntry (name : String) (a : α) {es : List (String × α)}
    (h : es.Pairwise fun a b => a.1 < b.1) :
    (insertEntry name a es).Pairwise fun a b => a.1 < b.1 := by
  induction es with
  | nil => simp [insertEntry]
  | cons b es ih =>
    obtain ⟨n, b⟩ := b
    obtain ⟨hn, hes⟩ := List.pairwise_cons.1 h
    unfold insertEntry
    split
    · next hlt =>
      refine List.pairwise_cons.2 ⟨fun e he => ?_, h⟩
      rcases List.mem_cons.1 he with rfl | he
      · exact hlt
      · exact String.lt_trans hlt (hn e he)
    · next hlt =>
      split
      · next heq =>
        subst heq
        exact List.pairwise_cons.2 ⟨hn, hes⟩
      · next hne =>
        have hgt : n < name :=
          Decidable.byContradiction fun hng =>
            hne (String.le_antisymm (String.not_lt.1 hng) (String.not_lt.1 hlt))
        refine List.pairwise_cons.2 ⟨fun e he => ?_, ih hes⟩
        rcases fst_mem_insertEntry he with heq | he
        · rw [heq]
          exact hgt
        · exact hn e he

/-- The table after an insertion. -/
def insert (m : NameMap α) (name : String) (a : α) : NameMap α :=
  ⟨insertEntry name a m.entries, sorted_insertEntry name a m.sorted⟩

/-- The table of a list of entries; of entries with the same name the last one
counts. -/
def ofList (es : List (String × α)) : NameMap α :=
  es.foldl (fun m (n, a) => m.insert n a) empty

/-- The value under a name. -/
def get? (m : NameMap α) (name : String) : Option α := m.entries.lookup name

/-- The names. -/
def names (m : NameMap α) : List String := m.entries.map Prod.fst

/-- The number of entries. -/
def size (m : NameMap α) : Nat := m.entries.length

/-- The first entry decides a look-up of its own name and no other. -/
theorem lookup_cons_eq_ite (other n : String) (b : α) (es : List (String × α)) :
    List.lookup other ((n, b) :: es) = if other = n then some b
      else es.lookup other := by
  by_cases h : other = n
  · simp [h]
  · simp [List.lookup_cons, beq_false_of_ne h, h]

theorem lookup_insertEntry (name other : String) (a : α) (es : List (String × α)) :
    (insertEntry name a es).lookup other = if other = name then some a
      else es.lookup other := by
  induction es with
  | nil => simp [insertEntry, lookup_cons_eq_ite]
  | cons b es ih =>
    obtain ⟨n, b⟩ := b
    unfold insertEntry
    split
    · simp [lookup_cons_eq_ite]
    · split
      · next heq =>
        subst heq
        by_cases ho : other = name <;> simp [lookup_cons_eq_ite, ho]
      · next hne =>
        rw [lookup_cons_eq_ite, lookup_cons_eq_ite, ih]
        by_cases ho : other = name
        · subst ho
          simp [hne]
        · simp [ho]

theorem get?_insert (m : NameMap α) (name other : String) (a : α) :
    (m.insert name a).get? other = if other = name then some a else m.get? other :=
  lookup_insertEntry name other a m.entries

end NameMap

namespace NameSet

/-- The set of the names in a list. -/
def ofNames (names : List String) : NameSet :=
  NameMap.ofList (names.map fun n => (n, ()))

end NameSet

end Chronicle

import Chronicle.NameMap

/-!
# Tables made from lists

Names that differ all get an entry of their own.

* `get?_ofList`: a table made from a list holds what the list holds.
* `names_ofList_perm`: it has the names of the list and no others.
* `ofList_entries`: a table is made up again by its entries.
-/

namespace Chronicle.NameMap

variable {α : Type}

theorem lookup_eq_none_of_not_mem {name : String} {es : List (String × α)}
    (h : name ∉ es.map (·.1)) : es.lookup name = none := by
  rw [List.lookup_eq_none_iff]
  intro e he
  simp only [bne_iff_ne, ne_eq]
  rintro rfl
  exact h (List.mem_map_of_mem he)

theorem lookup_eq_some_iff_mem {name : String} {a : α} {es : List (String × α)}
    (h : (es.map (·.1)).Nodup) :
    es.lookup name = some a ↔ (name, a) ∈ es := by
  induction es with
  | nil => simp
  | cons e es ih =>
    obtain ⟨n, b⟩ := e
    rw [List.map_cons, List.nodup_cons] at h
    rw [lookup_cons_eq_ite, List.mem_cons, Prod.mk.injEq]
    by_cases hname : name = n
    · subst hname
      have hnot : (name, a) ∉ es := fun hin => h.1 (List.mem_map.2 ⟨_, hin, rfl⟩)
      simp [hnot, eq_comm]
    · simp [hname, ih h.2]

/-- Entries with names of their own are all found again, whatever was in the table
before. -/
theorem get?_foldl_insert {es : List (String × α)} (h : (es.map (·.1)).Nodup)
    (m : NameMap α) (name : String) :
    (es.foldl (fun m (n, a) => m.insert n a) m).get? name =
      (es.lookup name).or (m.get? name) := by
  induction es generalizing m with
  | nil => simp
  | cons e es ih =>
    obtain ⟨n, a⟩ := e
    rw [List.map_cons, List.nodup_cons] at h
    rw [List.foldl_cons, ih h.2, get?_insert, lookup_cons_eq_ite]
    by_cases hname : name = n
    · subst hname
      simp [lookup_eq_none_of_not_mem h.1]
    · simp [hname]

theorem get?_ofList {es : List (String × α)} (h : (es.map (·.1)).Nodup)
    (name : String) :
    (ofList es).get? name = es.lookup name := by
  rw [ofList, get?_foldl_insert h]
  show (es.lookup name).or none = _
  simp

theorem map_fst_insertEntry_perm {name : String} {a : α} {es : List (String × α)}
    (h : name ∉ es.map (·.1)) :
    ((insertEntry name a es).map (·.1)).Perm (name :: es.map (·.1)) := by
  induction es with
  | nil => exact .refl _
  | cons e es ih =>
    obtain ⟨n, b⟩ := e
    simp only [List.map_cons, List.mem_cons, not_or] at h
    rw [insertEntry, if_neg h.1]
    split
    · exact .refl _
    · exact ((ih h.2).cons n).trans (.swap name n _)

theorem names_foldl_insert_perm {es : List (String × α)} (h : (es.map (·.1)).Nodup)
    (m : NameMap α) (hm : ∀ name ∈ es.map (·.1), name ∉ m.names) :
    (es.foldl (fun m (n, a) => m.insert n a) m).names.Perm
      (es.map (·.1) ++ m.names) := by
  induction es generalizing m with
  | nil => exact .refl _
  | cons e es ih =>
    obtain ⟨n, a⟩ := e
    rw [List.map_cons, List.nodup_cons] at h
    have hn : n ∉ m.names := hm n List.mem_cons_self
    have hinsert : (m.insert n a).names.Perm (n :: m.names) :=
      map_fst_insertEntry_perm hn
    refine (ih h.2 (m.insert n a) ?_).trans ?_
    · intro name hname hin
      rcases List.mem_cons.1 (hinsert.mem_iff.1 hin) with rfl | hin
      · exact h.1 hname
      · exact hm name (List.mem_cons_of_mem _ hname) hin
    · exact (hinsert.append_left _).trans List.perm_middle

theorem names_ofList_perm {es : List (String × α)} (h : (es.map (·.1)).Nodup) :
    (ofList es).names.Perm (es.map (·.1)) := by
  have hperm := names_foldl_insert_perm h empty (by simp [names, empty])
  simpa [ofList, names, empty] using hperm

/-! ## The entries of a table make it up again -/

/-- A name behind all others is inserted at the end. -/
theorem insertEntry_of_lt {name : String} {a : α} {es : List (String × α)}
    (h : ∀ e ∈ es, e.1 < name) :
    insertEntry name a es = es ++ [(name, a)] := by
  induction es with
  | nil => rfl
  | cons e es ih =>
    obtain ⟨n, b⟩ := e
    have hlt : n < name := h (n, b) List.mem_cons_self
    have hne : name ≠ n := fun heq => String.lt_irrefl n (heq ▸ hlt)
    rw [insertEntry, if_neg (String.lt_asymm hlt), if_neg hne,
      ih fun e he => h e (List.mem_cons_of_mem _ he)]
    rfl

theorem entries_foldl_insert {es : List (String × α)} (m : NameMap α)
    (h : (m.entries ++ es).Pairwise fun a b => a.1 < b.1) :
    (es.foldl (fun m (n, a) => m.insert n a) m).entries = m.entries ++ es := by
  induction es generalizing m with
  | nil => exact (List.append_nil _).symm
  | cons e es ih =>
    obtain ⟨n, a⟩ := e
    have hlast : (m.insert n a).entries = m.entries ++ [(n, a)] :=
      insertEntry_of_lt fun e he =>
        (List.pairwise_append.1 h).2.2 e he (n, a) List.mem_cons_self
    have hmore : (m.insert n a).entries ++ es = m.entries ++ (n, a) :: es := by
      rw [hlast, List.append_assoc]
      rfl
    rw [List.foldl_cons, ih (m.insert n a) (hmore ▸ h), hmore]

theorem eq_of_entries_eq {m n : NameMap α} (h : m.entries = n.entries) : m = n := by
  cases m
  cases n
  cases h
  rfl

theorem ofList_entries (m : NameMap α) : ofList m.entries = m :=
  eq_of_entries_eq (entries_foldl_insert empty m.sorted)

end Chronicle.NameMap

namespace Chronicle.NameSet

theorem ofNames_names (s : NameSet) : ofNames s.names = s := by
  have hentries : s.names.map (fun n => (n, ())) = s.entries := by
    rw [NameMap.names, List.map_map]
    exact List.map_id' s.entries
  rw [ofNames, hentries, NameMap.ofList_entries]

theorem names_ofNames_perm {ns : List String} (h : ns.Nodup) :
    (ofNames ns).names.Perm ns := by
  have hfst : (ns.map fun n => (n, ())).map (·.1) = ns := by
    rw [List.map_map]
    exact List.map_id' ns
  have hperm := NameMap.names_ofList_perm
    (show ((ns.map fun n => (n, ())).map (·.1)).Nodup by rwa [hfst])
  rwa [hfst] at hperm

theorem size_ofNames {ns : List String} (h : ns.Nodup) :
    (ofNames ns).size = ns.length := by
  have hlength := (names_ofNames_perm h).length_eq
  rwa [NameMap.names, List.length_map] at hlength

end Chronicle.NameSet

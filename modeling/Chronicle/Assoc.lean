/-!
# Association lists

Finite tables as lists of pairs, in the order in which their keys came up first.

* `lookup_set`, `lookup_erase`: what a table holds after a change.
-/

namespace Chronicle.Assoc

variable {κ β : Type} [BEq κ]

/-- The table with a value under a key: an entry of the key is replaced, a new one
stands at the end. -/
def set (k : κ) (b : β) : List (κ × β) → List (κ × β)
  | [] => [(k, b)]
  | (k', b') :: rest => if k == k' then (k, b) :: rest else (k', b') :: set k b rest

/-- The table without the entries of a key. -/
def erase (k : κ) (es : List (κ × β)) : List (κ × β) := es.filter fun e => !(k == e.1)

theorem lookup_cons_ite (x k : κ) (b : β) (es : List (κ × β)) :
    List.lookup x ((k, b) :: es) = if x == k then some b else es.lookup x := by
  rw [List.lookup_cons]
  cases x == k <;> rfl

variable [LawfulBEq κ]

theorem lookup_set (x k : κ) (b : β) (es : List (κ × β)) :
    (set k b es).lookup x = if x == k then some b else es.lookup x := by
  induction es with
  | nil => rw [set, lookup_cons_ite, List.lookup_nil]
  | cons e es ih =>
    obtain ⟨k', b'⟩ := e
    rw [set]
    by_cases hk : k == k'
    · have := eq_of_beq hk
      subst this
      rw [if_pos hk, lookup_cons_ite, lookup_cons_ite]
      cases x == k <;> rfl
    · rw [if_neg hk, lookup_cons_ite, lookup_cons_ite, ih]
      by_cases hx : x == k
      · have := eq_of_beq hx
        subst this
        simp [hk]
      · simp [hx]

theorem lookup_erase (x k : κ) (es : List (κ × β)) :
    (erase k es).lookup x = if x == k then none else es.lookup x := by
  induction es with
  | nil => cases x == k <;> rfl
  | cons e es ih =>
    obtain ⟨k', b'⟩ := e
    rw [erase] at ih ⊢
    by_cases hk : k == k'
    · have := eq_of_beq hk
      subst this
      rw [List.filter_cons_of_neg (by simp), ih, lookup_cons_ite]
      cases x == k <;> rfl
    · rw [List.filter_cons_of_pos (by simpa using hk), lookup_cons_ite,
        lookup_cons_ite, ih]
      by_cases hx : x == k
      · have := eq_of_beq hx
        subst this
        simp [hk]
      · simp [hx]

end Chronicle.Assoc

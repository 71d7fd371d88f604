import Chronicle.Bytes

/-!
# Lines

Bytes as lines, each ended by a newline, and a rest in which there is none.

* `join_split`: nothing is lost, and `split_line_append`: a line followed by anything
  is the first line.
-/

namespace Chronicle.Text.Lines

/-- The byte that ends a line. -/
def newline : UInt8 := 10

/-- The lines of some bytes and what follows the last newline, `current` being the
line that is going on, last byte first. -/
def splitFrom (current : Bytes) : Bytes → List Bytes × Bytes
  | [] => ([], current.reverse)
  | b :: bs =>
    if b = newline then
      let (lines, rest) := splitFrom [] bs
      (current.reverse :: lines, rest)
    else splitFrom (b :: current) bs

/-- The lines of some bytes, without their newlines, and what follows the last one. -/
def split (bs : Bytes) : List Bytes × Bytes := splitFrom [] bs

/-- Lines with their newlines. -/
def join (lines : List Bytes) : Bytes := lines.flatMap (· ++ [newline])

/-- The lines of some bytes; what follows the last newline is a line too if it is not
empty. -/
def all (bs : Bytes) : List Bytes :=
  let (lines, rest) := split bs
  if rest.isEmpty then lines else lines ++ [rest]

/-- The bytes with one line replaced, or taken out. -/
def replace (bs : Bytes) (n : Nat) (line : Option Bytes) : Bytes :=
  let (lines, rest) := split bs
  if n < lines.length then
    join (lines.take n ++ line.toList ++ lines.drop (n + 1)) ++ rest
  else if n = lines.length && !rest.isEmpty then join (lines ++ line.toList)
  else bs

@[simp] theorem join_nil : join [] = [] := rfl

@[simp] theorem join_cons (l : Bytes) (ls : List Bytes) :
    join (l :: ls) = l ++ newline :: join ls := by
  simp [join]

@[simp] theorem join_append (ls ms : List Bytes) :
    join (ls ++ ms) = join ls ++ join ms := by
  simp [join]

theorem join_splitFrom (bs current : Bytes) :
    join (splitFrom current bs).1 ++ (splitFrom current bs).2 =
      current.reverse ++ bs := by
  induction bs generalizing current with
  | nil => simp [splitFrom]
  | cons b bs ih =>
    rw [splitFrom]
    split
    · next h =>
      subst h
      have := ih []
      simp only [List.reverse_nil, List.nil_append] at this
      simp [this]
    · simp [ih]

theorem join_split (bs : Bytes) : join (split bs).1 ++ (split bs).2 = bs :=
  join_splitFrom bs []

theorem splitFrom_line_append (l bs current : Bytes) (h : newline ∉ l) :
    splitFrom current (l ++ newline :: bs) =
      ((current.reverse ++ l) :: (split bs).1, (split bs).2) := by
  induction l generalizing current with
  | nil => simp [splitFrom, split]
  | cons b l ih =>
    rw [List.cons_append, splitFrom, if_neg (fun e => h (by simp [e])),
      ih _ (fun m => h (by simp [m]))]
    simp

theorem split_line_append (l bs : Bytes) (h : newline ∉ l) :
    split (l ++ newline :: bs) = (l :: (split bs).1, (split bs).2) :=
  splitFrom_line_append l bs [] h

theorem splitFrom_rest (l current : Bytes) (h : newline ∉ l) :
    splitFrom current l = ([], current.reverse ++ l) := by
  induction l generalizing current with
  | nil => simp [splitFrom]
  | cons b l ih =>
    rw [splitFrom, if_neg (fun e => h (by simp [e])), ih _ (fun m => h (by simp [m]))]
    simp

theorem split_join_append (ls : List Bytes) (rest : Bytes) (hl : ∀ l ∈ ls, newline ∉ l)
    (hr : newline ∉ rest) :
    split (join ls ++ rest) = (ls, rest) := by
  induction ls with
  | nil => exact splitFrom_rest rest [] hr
  | cons l ls ih =>
    rw [join_cons, List.append_assoc, List.cons_append,
      split_line_append _ _ (hl l (by simp)), ih (fun m hm => hl m (by simp [hm]))]

end Chronicle.Text.Lines

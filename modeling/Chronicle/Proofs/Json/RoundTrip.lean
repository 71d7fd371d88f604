import Chronicle.Proofs.Json.Token

/-!
# Reading what was written

A value that holds no number of too many digits and nothing to skip is read back from
its text, in either layout. The reader has as much fuel as the text has bytes; every
value, item and member takes at least one of them.

* `parse?_render`: the text of a plain value stands for that value.
-/

namespace Chronicle.Json

mutual

/-- The value can be written: numbers have at most `digitLimit` digits, and there is
nothing to skip. -/
def Plain : Json → Prop
  | natural n => (Text.Decimal.render n).length ≤ digitLimit
  | array vs => PlainItems vs
  | object ms => PlainMembers ms
  | other => False
  | null | bool _ | string _ => True

/-- Every item can be written. -/
def PlainItems : List Json → Prop
  | [] => True
  | v :: vs => Plain v ∧ PlainItems vs

/-- Every member can be written. -/
def PlainMembers : List (String × Json) → Prop
  | [] => True
  | (_, v) :: ms => Plain v ∧ PlainMembers ms

end

theorem plain_array {vs : List Json} (h : ∀ v ∈ vs, Plain v) : Plain (array vs) := by
  show PlainItems vs
  induction vs with
  | nil => trivial
  | cons v vs ih =>
    obtain ⟨hv, hvs⟩ := List.forall_mem_cons.1 h
    exact ⟨hv, ih hvs⟩

theorem plain_object {ms : List (String × Json)} (h : ∀ m ∈ ms, Plain m.2) :
    Plain (object ms) := by
  show PlainMembers ms
  induction ms with
  | nil => trivial
  | cons m ms ih =>
    obtain ⟨hm, hms⟩ := List.forall_mem_cons.1 h
    exact ⟨hm, ih hms⟩

theorem plain_string (s : String) : Plain (string s) := trivial

theorem plain_bool (b : Bool) : Plain (bool b) := trivial

theorem plain_uint64 (n : UInt64) : Plain (natural n.toNat) :=
  Text.Decimal.length_render_le n.toNat_lt

theorem plain_uint32 (n : UInt32) : Plain (natural n.toNat) :=
  Text.Decimal.length_render_le (Nat.lt_trans n.toNat_lt (by decide))

/-! ## Blanks -/

/-- There is nothing but blanks. -/
def Blanks (ws : Bytes) : Prop := ∀ b ∈ ws, isSpace b = true

theorem blanks_nil : Blanks [] := by
  intro b hb
  cases hb

theorem blanks_lineBreak (layout : Layout) : Blanks layout.lineBreak := by
  intro b hb
  cases layout with
  | compact => cases hb
  | indented level =>
    rcases List.mem_cons.1 hb with rfl | hb
    · rfl
    · rw [List.eq_of_mem_replicate hb]
      rfl

/-- What follows blanks is found, if it begins with none itself. -/
theorem skipSpace_blanks {ws : Bytes} (hws : Blanks ws) {b : UInt8}
    (hb : isSpace b = false) (s : Bytes) :
    skipSpace (ws ++ b :: s) = b :: s := by
  rw [skipSpace, List.dropWhile_append_of_pos hws,
    List.dropWhile_cons_of_neg (by simp [hb])]

theorem ne_of_isDigit {d b : UInt8} (hd : Text.Decimal.isDigit d = true)
    (hb : Text.Decimal.isDigit b = false) : d ≠ b := by
  intro he
  rw [he, hb] at hd
  cases hd

theorem isSpace_of_isDigit {d : UInt8} (hd : Text.Decimal.isDigit d = true) :
    isSpace d = false := by
  have hne : ∀ b, Text.Decimal.isDigit b = false → (d == b) = false :=
    fun b hb => beq_eq_false_iff_ne.2 (ne_of_isDigit hd hb)
  rw [isSpace, hne 0x20 rfl, hne 0x09 rfl, hne 0x0A rfl, hne 0x0D rfl]
  rfl

/-- The first byte of a value is no blank and closes nothing. -/
theorem render_head (layout : Layout) (v : Json) :
    ∃ b s, render layout v = b :: s ∧ isSpace b = false ∧ b ≠ 0x5D ∧ b ≠ 0x7D := by
  cases v with
  | null => exact ⟨_, _, rfl, by decide⟩
  | bool t => cases t <;> exact ⟨_, _, rfl, by decide⟩
  | natural n =>
    obtain ⟨d, ds, hds⟩ := List.exists_cons_of_ne_nil (Text.Decimal.render_ne_nil n)
    have hd : Text.Decimal.isDigit d = true :=
      Text.Decimal.isDigit_of_mem_render (by rw [hds]; exact List.mem_cons_self)
    exact ⟨d, ds, hds, isSpace_of_isDigit hd, ne_of_isDigit hd (by decide),
      ne_of_isDigit hd (by decide)⟩
  | string s => exact ⟨_, _, rfl, by decide⟩
  | array vs => exact ⟨_, _, by rw [render], by decide⟩
  | object ms => exact ⟨_, _, by rw [render], by decide⟩
  | other => exact ⟨_, _, rfl, by decide⟩

/-! ## Values -/

theorem value_digit {ws : Bytes} (hws : Blanks ws) {d : UInt8}
    (hd : Text.Decimal.isDigit d = true) (fuel : Nat) (s : Bytes) :
    value (fuel + 1) (ws ++ d :: s) = number (d :: s) := by
  rw [value, skipSpace_blanks hws (isSpace_of_isDigit hd)]
  split
  case h_7 => rfl
  all_goals
    rename_i hbytes
    exact absurd (List.cons.inj hbytes).1 (ne_of_isDigit hd (by decide))

theorem value_string {ws : Bytes} (hws : Blanks ws) (fuel : Nat) (s : String)
    (rest : Bytes) :
    value (fuel + 1) (ws ++ (renderText s ++ rest)) = some (string s, rest) := by
  rw [renderText, List.cons_append, List.cons_append, List.append_assoc, value,
    skipSpace_blanks hws (by decide)]
  simp only [List.singleton_append, text_escaped]

/-- After the opening bracket, anything but the closing one is read as items. -/
theorem value_array {ws s t : Bytes} {b : UInt8} (hws : Blanks ws) (fuel : Nat)
    (hs : skipSpace s = b :: t) (hb : b ≠ 0x5D) :
    value (fuel + 1) (ws ++ 0x5B :: s) =
      (items fuel (b :: t)).map fun (vs, rest) => (array vs, rest) := by
  rw [value, skipSpace_blanks hws (by decide)]
  simp only [hs]
  split
  · rename_i hbytes
    exact absurd (List.cons.inj hbytes).1 hb
  · rfl

/-- After the opening brace, anything but the closing one is read as members. -/
theorem value_object {ws s t : Bytes} {b : UInt8} (hws : Blanks ws) (fuel : Nat)
    (hs : skipSpace s = b :: t) (hb : b ≠ 0x7D) :
    value (fuel + 1) (ws ++ 0x7B :: s) =
      (members fuel (b :: t)).map fun (ms, rest) => (ofMembers ms, rest) := by
  rw [value, skipSpace_blanks hws (by decide)]
  simp only [hs]
  split
  · rename_i hbytes
    exact absurd (List.cons.inj hbytes).1 hb
  · rfl

/-- Members as the reader finds them, all names being text. -/
def named (ms : List (String × Json)) : List (Option String × Json) :=
  ms.map fun m => (some m.1, m.2)

theorem ofMembers_named (ms : List (String × Json)) :
    ofMembers (named ms) = object ms := by
  have hnamed : (named ms).mapM
      (fun (m : Option String × Json) => m.1.map fun s => (s, m.2)) = some ms := by
    rw [named]
    induction ms with
    | nil => rfl
    | cons m ms ih => simp [List.mapM_cons, ih]
  rw [ofMembers]
  simp only [hnamed]

theorem stops_renderItems (layout : Layout) (vs : List Json) (rest : Bytes) :
    Stops (renderItems layout false vs ++ rest) := by
  cases vs with
  | nil => cases layout <;> simp [renderItems, Layout.lineBreak, Stops]
  | cons v vs => simp [renderItems, Stops]

theorem stops_renderMembers (layout : Layout) (ms : List (String × Json))
    (rest : Bytes) :
    Stops (renderMembers layout false ms ++ rest) := by
  cases ms with
  | nil => cases layout <;> simp [renderMembers, Layout.lineBreak, Stops]
  | cons m ms => simp [renderMembers, Stops]

/-! ## The reader undoes the printer One statement for each of the three readers,
with the fuel that they need; each follows from the statements for one unit of fuel
less. -/

/-- With this much fuel every value with a text of at most as many bytes is read
back. -/
def ReadsValues (fuel : Nat) : Prop :=
  ∀ (layout : Layout) (v : Json) (ws rest : Bytes), Blanks ws → Plain v →
    (render layout v).length ≤ fuel → Stops rest →
    value fuel (ws ++ (render layout v ++ rest)) = some (v, rest)

/-- The same for the items of a list. -/
def ReadsItems (fuel : Nat) : Prop :=
  ∀ (layout : Layout) (v : Json) (vs : List Json) (ws rest : Bytes), Blanks ws →
    Plain v →
    PlainItems vs →
    (render layout.inner v).length + (renderItems layout false vs).length ≤ fuel →
    items fuel (ws ++
      (render layout.inner v ++ (renderItems layout false vs ++ rest))) =
      some (v :: vs, rest)

/-- The same for the members of an object. -/
def ReadsMembers (fuel : Nat) : Prop :=
  ∀ (layout : Layout) (name : String) (v : Json) (ms : List (String × Json)) (ws
    rest : Bytes), Blanks ws → Plain v → PlainMembers ms →
    (renderText name).length + (render layout.inner v).length +
      (renderMembers layout false ms).length ≤ fuel →
    members fuel (ws ++ (renderText name ++ (layout.colon ++ (render layout.inner v ++
      (renderMembers layout false ms ++ rest))))) = some (named ((name, v) :: ms), rest)

theorem length_render_pos (layout : Layout) (v : Json) :
    0 < (render layout v).length := by
  obtain ⟨b, s, hs, _⟩ := render_head layout v
  rw [hs]
  exact Nat.zero_lt_succ _

theorem length_renderItems_pos (layout : Layout) (vs : List Json) :
    0 < (renderItems layout false vs).length := by
  cases vs with
  | nil => simp [renderItems]
  | cons v vs => simp [renderItems]

theorem length_renderMembers_pos (layout : Layout) (ms : List (String × Json)) :
    0 < (renderMembers layout false ms).length := by
  cases ms with
  | nil => simp [renderMembers]
  | cons m ms => simp [renderMembers]

theorem readsItems_succ {fuel : Nat} (hvalues : ReadsValues fuel)
    (hitems : ReadsItems fuel) : ReadsItems (fuel + 1) := by
  intro layout v vs ws rest hws hv hvs hfuel
  have hpos := length_render_pos layout.inner v
  have hrest := length_renderItems_pos layout vs
  have hread :=
    hvalues layout.inner v ws (renderItems layout false vs ++ rest) hws hv (by omega)
    (stops_renderItems layout vs rest)
  rw [items, hread]
  cases vs with
  | nil =>
    have hclose : skipSpace (renderItems layout false [] ++ rest) = 0x5D :: rest := by
      rw [renderItems]
      simpa using skipSpace_blanks (blanks_lineBreak layout) (b := 0x5D)
        (by decide) rest
    simp only [hclose]
  | cons w vs =>
    have hcomma : skipSpace (renderItems layout false (w :: vs) ++ rest) =
        0x2C :: (layout.inner.lineBreak ++ (render layout.inner w ++
          (renderItems layout false vs ++ rest))) := by
      rw [renderItems]
      simpa using skipSpace_blanks blanks_nil (b := 0x2C) (by decide) _
    simp only [renderItems, List.length_append] at hfuel
    have hnext :=
      hitems layout w vs layout.inner.lineBreak rest (blanks_lineBreak _) hvs.1 hvs.2
      (by simp at hfuel; omega)
    simp only [hcomma, hnext]
    rfl

/-- After the colon there are at most blanks before the value. -/
theorem colon_eq (layout : Layout) : ∃ ws, layout.colon = 0x3A :: ws ∧ Blanks ws := by
  cases layout with
  | compact => exact ⟨[], rfl, blanks_nil⟩
  | indented level =>
    exact ⟨[0x20], rfl, by intro b hb; rw [List.mem_singleton.1 hb]; rfl⟩

theorem readsMembers_succ {fuel : Nat} (hvalues : ReadsValues fuel)
    (hmembers : ReadsMembers fuel) : ReadsMembers (fuel + 1) := by
  intro layout name v ms ws rest hws hv hms hfuel
  have hrest := length_renderMembers_pos layout ms
  obtain ⟨gap, hcolon, hgap⟩ := colon_eq layout
  have hread := hvalues layout.inner v gap (renderMembers layout false ms ++ rest)
    hgap hv (by omega) (stops_renderMembers layout ms rest)
  have hname : text ((Bytes.ofText name).flatMap escapeByte ++ 0x22 :: (layout.colon ++
      (render layout.inner v ++ (renderMembers layout false ms ++ rest)))) =
        some (some name, _) :=
    text_escaped name _
  have hvalue : skipSpace (layout.colon ++ (render layout.inner v ++
      (renderMembers layout false ms ++ rest))) =
        0x3A :: (gap ++
          (render layout.inner v ++ (renderMembers layout false ms ++ rest))) := by
    rw [hcolon]
    exact skipSpace_blanks blanks_nil (by decide) _
  rw [renderText, List.cons_append, List.cons_append, List.append_assoc, members,
    skipSpace_blanks hws (by decide)]
  simp only [List.singleton_append, hname, hvalue, hread]
  cases ms with
  | nil =>
    have hclose : skipSpace (renderMembers layout false [] ++ rest) = 0x7D :: rest := by
      rw [renderMembers]
      simpa using skipSpace_blanks (blanks_lineBreak layout) (b := 0x7D)
        (by decide) rest
    simp only [hclose]
    rfl
  | cons m ms =>
    obtain ⟨other, w⟩ := m
    have hcomma : skipSpace (renderMembers layout false ((other, w) :: ms) ++ rest) =
        0x2C :: (layout.inner.lineBreak ++ (renderText other ++ (layout.colon ++
          (render layout.inner w ++ (renderMembers layout false ms ++ rest))))) := by
      rw [renderMembers]
      simpa using skipSpace_blanks blanks_nil (b := 0x2C) (by decide) _
    simp only [renderMembers, List.length_append] at hfuel
    have hnext :=
      hmembers layout other w ms layout.inner.lineBreak rest (blanks_lineBreak _) hms.1
      hms.2 (by simp at hfuel; omega)
    simp only [hcomma, hnext]
    rfl

theorem readsValues_succ {fuel : Nat} (hitems : ReadsItems fuel)
    (hmembers : ReadsMembers fuel) : ReadsValues (fuel + 1) := by
  intro layout v ws rest hws hv hfuel hstops
  cases v with
  | null =>
    show value (fuel + 1) (ws ++ 0x6E :: 0x75 :: 0x6C :: 0x6C :: rest) = _
    rw [value, skipSpace_blanks hws (by decide)]
    rfl
  | bool t =>
    cases t with
    | false =>
      show value (fuel + 1) (ws ++ 0x66 :: 0x61 :: 0x6C :: 0x73 :: 0x65 :: rest) = _
      rw [value, skipSpace_blanks hws (by decide)]
      rfl
    | true =>
      show value (fuel + 1) (ws ++ 0x74 :: 0x72 :: 0x75 :: 0x65 :: rest) = _
      rw [value, skipSpace_blanks hws (by decide)]
      rfl
  | natural n =>
    have hnumber := number_render hv hstops
    obtain ⟨d, ds, hds⟩ := List.exists_cons_of_ne_nil (Text.Decimal.render_ne_nil n)
    have hd : Text.Decimal.isDigit d = true :=
      Text.Decimal.isDigit_of_mem_render (by rw [hds]; exact List.mem_cons_self)
    rw [render, hds, List.cons_append, value_digit hws hd]
    rw [hds] at hnumber
    exact hnumber
  | string s => exact value_string hws fuel s rest
  | array vs =>
    cases vs with
    | nil =>
      show value (fuel + 1) (ws ++ 0x5B :: 0x5D :: rest) = _
      rw [value, skipSpace_blanks hws (by decide)]
      rfl
    | cons v vs =>
      obtain ⟨b, s, hs, hspace, hclose, _⟩ := render_head layout.inner v
      have hread := hitems layout v vs [] rest blanks_nil hv.1 hv.2 (by
        simp only [render, renderItems, List.length_cons, List.length_append, if_true]
          at hfuel
        omega)
      rw [render, renderItems]
      simp only [if_true, List.nil_append, List.cons_append, List.append_assoc]
      rw [List.nil_append, hs, List.cons_append] at hread
      rw [hs, List.cons_append,
        value_array hws fuel (skipSpace_blanks (blanks_lineBreak _) hspace _) hclose,
        hread]
      rfl
  | object ms =>
    cases ms with
    | nil =>
      show value (fuel + 1) (ws ++ 0x7B :: 0x7D :: rest) = _
      rw [value, skipSpace_blanks hws (by decide)]
      rfl
    | cons m ms =>
      obtain ⟨name, v⟩ := m
      have hread := hmembers layout name v ms [] rest blanks_nil hv.1 hv.2 (by
        simp only [render, renderMembers, List.length_cons, List.length_append, if_true]
          at hfuel
        omega)
      rw [render, renderMembers]
      simp only [if_true, List.nil_append, List.cons_append, List.append_assoc]
      rw [List.nil_append] at hread
      rw [renderText] at hread ⊢
      simp only [List.cons_append] at hread ⊢
      rw [value_object hws fuel (skipSpace_blanks (blanks_lineBreak _) (by decide) _)
        (by decide), hread]
      simp only [Option.map_some, ofMembers_named]
  | other => exact absurd hv id

/-- Every reader gives back what the printer wrote, with as much fuel as there are
bytes. -/
theorem reads_all (fuel : Nat) :
    ReadsValues fuel ∧ ReadsItems fuel ∧ ReadsMembers fuel := by
  induction fuel with
  | zero =>
    refine ⟨?_, ?_, ?_⟩
    · intro layout v ws rest _ _ hfuel
      exact absurd (length_render_pos layout v) (by omega)
    · intro layout v vs ws rest _ _ _ hfuel
      exact absurd (length_render_pos layout.inner v) (by omega)
    · intro layout name v ms ws rest _ _ _ hfuel
      exact absurd (length_render_pos layout.inner v) (by omega)
  | succ fuel ih =>
    obtain ⟨hvalues, hitems, hmembers⟩ := ih
    exact ⟨readsValues_succ hitems hmembers, readsItems_succ hvalues hitems,
      readsMembers_succ hvalues hmembers⟩

theorem parse?_render (layout : Layout) {v : Json} (hv : Plain v) :
    parse? (render layout v) = some v := by
  have hread :=
    (reads_all ((render layout v).length + 1)).1 layout v [] [] blanks_nil hv
    (Nat.le_succ _) trivial
  rw [List.nil_append, List.append_nil] at hread
  rw [parse?, hread]
  rfl

end Chronicle.Json

import Chronicle.Proofs.Toml.Value

/-!
# Documents in TOML are read back

A document that is written line by line spells its statements one after the other:
each line is read to its end, and what follows is read as if it stood alone. `Spells`
says so of a text, and texts that spell statements are joined.

* `key_bare`: a bare key is read up to what follows it.
* `Spells.append`, `spells_line`, `spells_header`: joined texts, assignments and
  headers.
* `parse?_of_spells`: the table of a text is the one that its statements define.
-/

namespace Chronicle.Toml

variable {name : String} {rest : List Char} {fuel : Nat}

/-! ## Keys -/

/-- The name can be written as a key without quotes. -/
structure BareKey (name : String) : Prop where
  /-- It is not empty. -/
  ne_nil : name.toList ≠ []
  /-- Its characters need no quotes. -/
  bare : ∀ c ∈ name.toList, isBare c = true

theorem bareKey_of_all (hne : name.toList.isEmpty = false)
    (h : name.toList.all isBare = true) : BareKey name :=
  ⟨List.isEmpty_eq_false_iff.1 hne, List.all_eq_true.1 h⟩

theorem BareKey.exists_cons (h : BareKey name) :
    ∃ c cs, name.toList = c :: cs ∧ isBare c = true := by
  obtain ⟨c, cs, hcs⟩ := List.exists_cons_of_ne_nil h.ne_nil
  exact ⟨c, cs, hcs, h.bare c (by rw [hcs]; exact List.mem_cons_self)⟩

theorem ne_of_isBare {c d : Char} (hc : isBare c = true)
    (hd : isBare d = false) : c ≠ d := by
  rintro rfl
  rw [hc] at hd
  cases hd

theorem isBlank_of_isBare {c : Char} (h : isBare c = true) : isBlank c = false := by
  have hspace : c ≠ ' ' := ne_of_isBare h (by decide)
  have htab : c ≠ '\t' := ne_of_isBare h (by decide)
  simp [isBlank, hspace, htab]

theorem isSolid_of_isBare {c : Char} (h : isBare c = true) : isSolid c = true := by
  have hcomment : c ≠ '#' := ne_of_isBare h (by decide)
  have hnewline : c ≠ '\n' := ne_of_isBare h (by decide)
  have hreturn : c ≠ '\r' := ne_of_isBare h (by decide)
  simp [isSolid, isBlank_of_isBare h, hcomment, hnewline, hreturn]

theorem keyPart_bare (h : BareKey name) {d : Char} (hd : isBare d = false) :
    keyPart fuel (name.toList ++ d :: rest) = some (name, d :: rest) := by
  have htake : (name.toList ++ d :: rest).takeWhile isBare = name.toList := by
    rw [List.takeWhile_append_of_pos h.bare, List.takeWhile_cons_of_neg (by simp [hd]),
      List.append_nil]
  have hback : String.ofList name.toList = name := String.ofList_toList
  obtain ⟨c, cs, hcs, hc⟩ := h.exists_cons
  rw [hcs] at htake hback ⊢
  rw [List.cons_append] at htake ⊢
  rw [keyPart]
  · simp [htake, hback]
  all_goals
    intro _ heq
    exact ne_of_isBare hc (by decide) (List.cons.inj heq).1

/-- A bare key is read, with the blanks behind it, if no point follows. -/
theorem key_bare (h : BareKey name) {d e : Char} {after : List Char}
    (hd : isBare d = false) (hskip : skipBlanks (d :: after) = e :: rest)
    (he : e ≠ '.') :
    key (fuel + 1) (name.toList ++ d :: after) = some (([], name), e :: rest) := by
  have hfront : skipBlanks (name.toList ++ d :: after) = name.toList ++ d :: after := by
    obtain ⟨c, cs, hcs, hc⟩ := h.exists_cons
    rw [hcs, List.cons_append, skipBlanks,
      List.dropWhile_cons_of_neg (by simp [isBlank_of_isBare hc])]
  rw [key, keyParts, hfront, keyPart_bare h hd]
  simp [hskip, he, depthLimit]

/-! ## Statements -/

/-- The text is read as the value at the end of a line. -/
structure Denotes (written : List Char) (v : Toml) : Prop where
  /-- It does not begin with a blank. -/
  skip : ∀ rest, skipBlanks (written ++ '\n' :: rest) = written ++ '\n' :: rest
  /-- It is read as the value. -/
  read : ∀ {fuel : Nat} (rest : List Char), written.length < fuel →
    value fuel 0 (written ++ '\n' :: rest) = some (v, '\n' :: rest)

theorem denotes_text (s : String) : Denotes (renderText s) (.string s) := by
  refine ⟨fun rest => ?_, fun rest h => value_renderText s ⟨by simp, by simp⟩ h⟩
  obtain ⟨t, heq | heq⟩ := renderText_cases s
  · rw [heq]
    rfl
  · rw [heq]
    rfl

theorem denotes_texts (texts : List String) :
    Denotes (renderTexts texts) (.array (texts.map .string)) := by
  refine ⟨fun rest => ?_, fun rest h => value_renderTexts texts (by decide) h⟩
  cases texts with
  | nil => rfl
  | cons t ts => cases ts <;> rfl

theorem denotes_number {n : Nat} (hlimit : n < integerLimit) :
    Denotes (Nat.toDigits 10 n) (.integer n) := by
  refine ⟨fun rest => ?_, fun {fuel} rest h => ?_⟩
  · have hn := numeral_toDigits n
    obtain ⟨d, ds, hds⟩ := List.exists_cons_of_ne_nil hn.ne_nil
    have hd := hn.digits d (by rw [hds]; exact List.mem_cons_self)
    have hspace : d ≠ ' ' := ne_of_isDigit hd (by decide)
    have htab : d ≠ '\t' := ne_of_isDigit hd (by decide)
    rw [hds, List.cons_append, skipBlanks,
      List.dropWhile_cons_of_neg (by simp [isBlank, hspace, htab])]
  · obtain ⟨fuel, rfl⟩ := Nat.exists_eq_succ_of_ne_zero (Nat.ne_zero_of_lt h)
    exact value_toDigits hlimit

theorem renderLine_append (name : String) (written rest : List Char) :
    renderLine name written ++ rest =
      name.toList ++ ' ' :: ('=' :: ' ' :: (written ++ '\n' :: rest)) := by
  simp [renderLine]

theorem statement_line {written : List Char} {v : Toml} (hname : BareKey name)
    (hv : Denotes written v) (h : written.length < fuel) :
    statement fuel (renderLine name written ++ rest) =
      some (.assignment [] name v, '\n' :: rest) := by
  obtain ⟨fuel, rfl⟩ := Nat.exists_eq_succ_of_ne_zero (Nat.ne_zero_of_lt h)
  have hkey : key (fuel + 1)
      (name.toList ++ ' ' :: ('=' :: ' ' :: (written ++ '\n' :: rest))) =
      some (([], name), '=' :: ' ' :: (written ++ '\n' :: rest)) :=
    key_bare hname rfl rfl (by decide)
  have hskip : skipBlanks (' ' :: (written ++ '\n' :: rest)) =
      written ++ '\n' :: rest := hv.skip rest
  have hread := hv.read rest h
  obtain ⟨c, cs, hcs, hc⟩ := hname.exists_cons
  rw [renderLine_append]
  rw [hcs, List.cons_append] at hkey ⊢
  rw [statement]
  · simp only [hkey, hskip, hread, Option.map_some]
  all_goals
    intro _ heq
    exact ne_of_isBare hc (by decide) (List.cons.inj heq).1

theorem statement_header (hname : BareKey name) :
    statement (fuel + 1) ('[' :: (name.toList ++ ']' :: rest)) =
      some (.header [] name, rest) := by
  have hkey : key (fuel + 1) (name.toList ++ ']' :: rest) =
      some (([], name), ']' :: rest) :=
    key_bare hname rfl rfl (by decide)
  obtain ⟨c, cs, hcs, hc⟩ := hname.exists_cons
  rw [hcs, List.cons_append] at hkey ⊢
  rw [statement, hkey]
  · rfl
  · intro _ heq
    exact ne_of_isBare hc (by decide) (List.cons.inj heq).1

/-! ## Lines -/

/-- Read before anything else, the text gives the statements, and what follows is
read as if it stood alone. -/
def Spells (written : List Char) (sts : List Statement) : Prop :=
  ∀ fuel rest, (written ++ rest).length < fuel → ∃ fuel', rest.length < fuel' ∧
    statements fuel (written ++ rest) = (statements fuel' rest).map (sts ++ ·)

theorem Spells.append {s t : List Char} {ss ts : List Statement} (hs : Spells s ss)
    (ht : Spells t ts) :
    Spells (s ++ t) (ss ++ ts) := by
  intro fuel rest h
  rw [List.append_assoc] at h ⊢
  obtain ⟨fuel', hfuel', hfirst⟩ := hs fuel (t ++ rest) h
  obtain ⟨fuel'', hfuel'', hsecond⟩ := ht fuel' rest hfuel'
  refine ⟨fuel'', hfuel'', ?_⟩
  rw [hfirst, hsecond, Option.map_map]
  congr 1
  funext sts
  exact (List.append_assoc ss ts sts).symm

/-- One statement is read from its line. -/
theorem statements_line {s line after : List Char} {c : Char} {st : Statement}
    (hskip : skipLines s = c :: line) (hc : c ≠ '#')
    (hread : statement fuel (c :: line) = some (st, '\n' :: after)) :
    statements (fuel + 1) s = (statements fuel after).map (st :: ·) := by
  have hcomment : skipComment (c :: line) = c :: line := by
    rw [skipComment]
    intro _ heq
    exact hc (List.cons.inj heq).1
  have hend : lineEnd? ('\n' :: after) = some after := rfl
  rw [statements, hskip]
  simp only [hcomment, hread, hend]

theorem spells_line {written : List Char} {v : Toml} (hname : BareKey name)
    (hv : Denotes written v) :
    Spells (renderLine name written) [.assignment [] name v] := by
  intro fuel rest h
  obtain ⟨fuel, rfl⟩ := Nat.exists_eq_succ_of_ne_zero (Nat.ne_zero_of_lt h)
  have hlength : (renderLine name written).length =
      name.toList.length + written.length + 4 := by
    simp only [renderLine, List.length_append, List.length_cons, List.length_nil]
    omega
  rw [List.length_append, hlength] at h
  have hread := @statement_line name rest fuel written v hname hv (by omega)
  obtain ⟨c, cs, hcs, hc⟩ := hname.exists_cons
  rw [renderLine_append, hcs, List.cons_append] at hread ⊢
  exact ⟨fuel, by omega, statements_line (skipLines_solid (isSolid_of_isBare hc) _)
    (ne_of_isBare hc (by decide)) hread⟩

theorem head?_line_ne {written : List Char} (hname : BareKey name) {d : Char}
    (hd : isBare d = false) :
    (renderLine name written ++ rest).head? ≠ some d := by
  obtain ⟨c, cs, hcs, hc⟩ := hname.exists_cons
  rw [renderLine_append, hcs, List.cons_append, List.head?_cons]
  exact fun heq => ne_of_isBare hc hd (Option.some.inj heq)

theorem spells_header (hname : BareKey name) :
    Spells ('\n' :: '[' :: (name.toList ++ [']', '\n'])) [.header [] name] := by
  intro fuel rest h
  simp only [List.cons_append, List.append_assoc, List.nil_append, List.length_cons,
    List.length_append] at h ⊢
  obtain ⟨fuel, rfl⟩ :=
    Nat.exists_eq_add_of_lt (Nat.lt_of_le_of_lt (Nat.le_add_left 1 _) h)
  have hskip : skipLines ('\n' :: '[' :: (name.toList ++ ']' :: '\n' :: rest)) =
      '[' :: (name.toList ++ ']' :: '\n' :: rest) := by
    rw [skipLines_newline]
    exact skipLines_solid rfl _
  refine ⟨fuel + 1, by omega, ?_⟩
  rw [Nat.add_comm 1 fuel]
  exact statements_line hskip (by decide) (statement_header hname)

/-- The table of a text is the one that its statements define. -/
theorem parse?_of_spells {cs : List Char} {sts : List Statement} (h : Spells cs sts)
    (hmark : cs.head? ≠ some '\ufeff') :
    parse? (String.ofList cs) = Document.run sts := by
  obtain ⟨fuel, hfuel, hread⟩ :=
    h (2 * cs.length + 3) [] (by rw [List.append_nil]; omega)
  obtain ⟨fuel, rfl⟩ := Nat.exists_eq_succ_of_ne_zero (Nat.ne_zero_of_lt hfuel)
  have hend : statements (fuel + 1) [] = some [] := rfl
  rw [List.append_nil, hend, Option.map_some, List.append_nil] at hread
  rw [parse?, String.toList_ofList]
  cases cs with
  | nil => exact congrArg (Option.bind · Document.run) hread
  | cons c cs =>
    have hc : c ≠ '\ufeff' := by simpa using hmark
    split
    · next heq => exact absurd (List.cons.inj heq).1 hc
    · rw [hread]
      rfl

end Chronicle.Toml

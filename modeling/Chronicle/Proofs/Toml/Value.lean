import Chronicle.Proofs.Json.Token
import Chronicle.Proofs.Toml.Text

/-!
# Values in TOML are read back

A value begins with a character that tells its kind. Digits could also begin a date,
a time or a floating-point number: what follows the digits of a whole number at the
end of a line is none of the signs that these need. The items of a list stand on
lines of their own, each with a comma behind it, or in the brackets alone.

* `value_renderText`: a text is read as a value.
* `value_toDigits`: a number at the end of a line is read as a value.
* `value_renderTexts`: a list of texts is read as a value.
-/

namespace Chronicle.Toml

variable {rest : List Char} {fuel depth : Nat}

/-! ## Texts -/

/-- A text begins with a quote. -/
theorem renderText_cases (s : String) :
    ∃ t, renderText s = '"' :: t ∨ renderText s = '\'' :: t := by
  rw [renderText]
  cases formOf (measure s.toList) with
  | basic => exact ⟨_, .inl rfl⟩
  | literal => exact ⟨_, .inr rfl⟩
  | basicLines => exact ⟨_, .inl rfl⟩
  | literalLines => exact ⟨_, .inr rfl⟩

theorem value_renderText (s : String) (hrest : Unquoted rest)
    (h : (renderText s).length < fuel) :
    value fuel depth (renderText s ++ rest) = some (.string s, rest) := by
  obtain ⟨fuel, rfl⟩ := Nat.exists_eq_succ_of_ne_zero (Nat.ne_zero_of_lt h)
  have hread := text_renderText s hrest (Nat.le_of_lt_succ h)
  have hvalue : value (fuel + 1) depth (renderText s ++ rest) =
      (text fuel (renderText s ++ rest)).map fun r => (.string r.1, r.2) := by
    obtain ⟨t, heq | heq⟩ := renderText_cases s
    · rw [heq, List.cons_append, value]
    · rw [heq, List.cons_append, value]
  rw [hvalue, hread]
  rfl

/-! ## Numbers -/

section Numbers

variable {ds : List Char}

/-- Digits up to the end of a line are read. -/
theorem digits_append (hne : ds ≠ []) (hds : ∀ d ∈ ds, d.isDigit = true) :
    digits Char.isDigit (ds ++ '\n' :: rest) = some (ds, '\n' :: rest) := by
  induction ds with
  | nil => exact absurd rfl hne
  | cons c ds ih =>
    obtain ⟨hc, hds⟩ := List.forall_mem_cons.1 hds
    cases ds with
    | nil =>
      rw [List.singleton_append, digits]
      · simp [hc]
      · decide
    | cons d ds =>
      have hd : d.isDigit = true := hds d List.mem_cons_self
      rw [List.cons_append, List.cons_append, digits]
      · rw [← List.cons_append, ih (List.cons_ne_nil d ds) hds]
        simp [hc, hd]
      · rintro rfl
        exact absurd hd (by decide)

theorem ne_of_isDigit {c d : Char} (hd : d.isDigit = true)
    (hc : c.isDigit = false) : d ≠ c := by
  rintro rfl
  rw [hd] at hc
  cases hc

/-- Behind a fixed number of digits there is another digit or the end of the line,
and no other sign. -/
theorem fixed_append {n v : Nat} {t : List Char} (hds : ∀ d ∈ ds, d.isDigit = true)
    (h : fixed n (ds ++ '\n' :: rest) = some (v, t)) :
    ∃ d t', t = d :: t' ∧ ∀ c, c.isDigit = false → c ≠ '\n' → d ≠ c := by
  simp only [fixed, Bool.and_eq_true, beq_iff_eq, List.all_eq_true,
    Option.ite_none_right_eq_some, Option.some.injEq, Prod.mk.injEq] at h
  obtain ⟨⟨_, hall⟩, _, rfl⟩ := h
  rcases Nat.lt_or_ge ds.length n with hlong | hshort
  · have hin : '\n' ∈ (ds ++ '\n' :: rest).take n := by
      rw [List.take_append, List.mem_append]
      obtain ⟨k, hk⟩ := Nat.exists_eq_add_of_lt hlong
      exact .inr (by
        rw [hk, Nat.add_assoc, Nat.add_sub_cancel_left]; exact List.mem_cons_self)
    exact absurd (hall '\n' hin) (by decide)
  · rw [List.drop_append_of_le_length hshort]
    cases hdrop : ds.drop n with
    | nil => exact ⟨'\n', rest, rfl, fun _ _ hne => hne.symm⟩
    | cons d ds' =>
      have hd : d ∈ ds := List.mem_of_mem_drop (by rw [hdrop]; exact List.mem_cons_self)
      exact ⟨d, _, rfl, fun _ hc _ => ne_of_isDigit (hds d hd) hc⟩

theorem date?_digits (hds : ∀ d ∈ ds, d.isDigit = true) :
    date? (ds ++ '\n' :: rest) = none := by
  rw [date?]
  cases hyear : fixed 4 (ds ++ '\n' :: rest) with
  | none => rfl
  | some r =>
    obtain ⟨d, t, ht, hd⟩ := fixed_append hds hyear
    have hdash : d ≠ '-' := hd '-' (by decide) (by decide)
    simp [ht, hdash]

theorem time?_digits (hds : ∀ d ∈ ds, d.isDigit = true) :
    time? (ds ++ '\n' :: rest) = none := by
  rw [time?, hourMinute?]
  cases hhour : fixed 2 (ds ++ '\n' :: rest) with
  | none => rfl
  | some r =>
    obtain ⟨d, t, ht, hd⟩ := fixed_append hds hhour
    have hcolon : d ≠ ':' := hd ':' (by decide) (by decide)
    simp [ht, hcolon]

theorem dateTime_digits (hds : ∀ d ∈ ds, d.isDigit = true) :
    dateTime (ds ++ '\n' :: rest) = none := by
  rw [dateTime, date?_digits hds, time?_digits hds]
  rfl

/-- The digits of a whole number: at least one, and a zero in front only if it stands
alone. -/
structure Numeral (ds : List Char) : Prop where
  /-- There is a digit. -/
  ne_nil : ds ≠ []
  /-- All are digits. -/
  digits : ∀ d ∈ ds, d.isDigit = true
  /-- A zero stands alone. -/
  zero : ds.head? = some '0' → ds = ['0']

theorem Numeral.cases (h : Numeral ds) :
    ds = ['0'] ∨ ∃ d ds', ds = d :: ds' ∧ d.isDigit = true ∧ d ≠ '0' := by
  obtain ⟨d, ds, rfl⟩ := List.exists_cons_of_ne_nil h.ne_nil
  by_cases hd : d = '0'
  · exact .inl (h.zero (by rw [hd]; rfl))
  · exact .inr ⟨d, ds, rfl, h.digits d List.mem_cons_self, hd⟩

theorem Numeral.sign_eq (h : Numeral ds) :
    sign (ds ++ '\n' :: rest) = (false, ds ++ '\n' :: rest) := by
  obtain ⟨d, ds, rfl⟩ := List.exists_cons_of_ne_nil h.ne_nil
  have hd := h.digits d List.mem_cons_self
  rw [List.cons_append, sign]
  · intro _ heq
    exact ne_of_isDigit hd (by decide) (List.cons.inj heq).1
  · intro _ heq
    exact ne_of_isDigit hd (by decide) (List.cons.inj heq).1

theorem Numeral.wholePart_eq (h : Numeral ds) :
    wholePart (ds ++ '\n' :: rest) = some (ds, '\n' :: rest) := by
  have hread := @digits_append rest ds h.ne_nil h.digits
  rcases h.cases with rfl | ⟨d, ds, rfl, _, hd⟩
  · rfl
  · rw [List.cons_append] at hread ⊢
    rw [wholePart, hread]
    intro _ heq
    exact hd (List.cons.inj heq).1

theorem Numeral.floatNumber_eq (h : Numeral ds) :
    floatNumber (ds ++ '\n' :: rest) = none := by
  have hwhole := @wholePart_eq rest ds h
  have hsign := @sign_eq rest ds h
  obtain ⟨d, ds, rfl⟩ := List.exists_cons_of_ne_nil h.ne_nil
  have hd := h.digits d List.mem_cons_self
  have hi : d ≠ 'i' := ne_of_isDigit hd (by decide)
  have hn : d ≠ 'n' := ne_of_isDigit hd (by decide)
  rw [List.cons_append] at hwhole hsign ⊢
  rw [floatNumber, hsign]
  simp [hwhole, hi, hn]

theorem hexValue?_of_isDigit {c : Char} (h : c.isDigit = true) :
    hexValue? c = some (c.toNat - 48) := by
  have hrange : '0' ≤ c ∧ c ≤ '9' := by
    simp only [Char.isDigit, Bool.and_eq_true, decide_eq_true_eq] at h
    exact h
  simp [hexValue?, hrange]

theorem numberOf_eq (hds : ∀ d ∈ ds, d.isDigit = true) :
    numberOf 10 ds = Nat.ofDigitChars 10 ds 0 := by
  have key : ∀ (cs : List Char) (m : Nat), (∀ c ∈ cs, c.isDigit = true) →
      cs.foldl (fun n c => 10 * n + (hexValue? c).getD 0) m =
        Nat.ofDigitChars 10 cs m := by
    intro cs
    induction cs with
    | nil => exact fun _ _ => rfl
    | cons c cs ih =>
      intro m h
      obtain ⟨hc, hcs⟩ := List.forall_mem_cons.1 h
      rw [List.foldl_cons, Nat.ofDigitChars_cons, hexValue?_of_isDigit hc]
      exact ih _ hcs
  exact key ds 0 hds

theorem numeral_toDigits (n : Nat) : Numeral (Nat.toDigits 10 n) := by
  refine ⟨Nat.toDigits_ne_nil,
    fun _ hd => Nat.isDigit_of_mem_toDigits (by decide) (by decide) hd, fun hzero => ?_⟩
  rcases Nat.eq_zero_or_pos n with rfl | hpos
  · rfl
  · exact absurd hzero (Text.Decimal.head?_toDigits_ne_zero hpos)

theorem Numeral.shortNumber?_eq (h : Numeral ds) (hlength : ds.length ≤ 64) :
    shortNumber? 10 ds = some (numberOf 10 ds : Int) := by
  rcases h.cases with rfl | ⟨d, ds, rfl, _, hd⟩
  · rfl
  · rw [shortNumber?, List.dropWhile_cons_of_neg (by simp [hd]),
      List.drop_eq_nil_of_le hlength]
    rfl

theorem Numeral.wholeNumber_eq (h : Numeral ds) (hlength : ds.length ≤ 64)
    (hlimit : numberOf 10 ds < integerLimit) :
    wholeNumber (ds ++ '\n' :: rest) =
      some (.integer (numberOf 10 ds), '\n' :: rest) := by
  have hwhole := @wholePart_eq rest ds h
  have hsign := @sign_eq rest ds h
  have hshort := shortNumber?_eq h hlength
  -- The letter of another base does not follow: a zero in front has the end of the
  -- line behind it.
  have hbase : ∀ e t, ds ++ '\n' :: rest = '0' :: e :: t → e = '\n' := by
    intro e t heq
    rcases h.cases with rfl | ⟨d, ds, rfl, _, hd⟩
    · exact (List.cons.inj (List.cons.inj heq).2).1.symm
    · exact absurd (List.cons.inj heq).1 hd
  rw [wholeNumber]
  · simp only [hsign, hwhole, hshort, Option.bind_eq_bind, Option.bind_some,
      Option.pure_def, Bool.false_eq_true, if_false]
    rw [if_neg]
    rw [Bool.or_eq_true, decide_eq_true_eq, decide_eq_true_eq]
    omega
  all_goals
    intro t heq
    exact absurd (hbase _ t heq) (by decide)

/-- A number at the end of a line is read as a value. -/
theorem value_toDigits {n : Nat} (hlimit : n < integerLimit) :
    value (fuel + 1) depth (Nat.toDigits 10 n ++ '\n' :: rest) =
      some (.integer n, '\n' :: rest) := by
  have h := numeral_toDigits n
  have hlength : (Nat.toDigits 10 n).length ≤ 64 :=
    (Nat.length_toDigits_le_iff (by decide) (by decide)).2
      (Nat.lt_trans hlimit (by decide))
  have hvalue : numberOf 10 (Nat.toDigits 10 n) = n := by
    rw [numberOf_eq h.digits, Nat.ofDigitChars_toDigits (by decide) (by decide)]
  have hwhole := @Numeral.wholeNumber_eq rest _ h hlength (by rwa [hvalue])
  have hfloat := @Numeral.floatNumber_eq rest _ h
  have hdate := @dateTime_digits rest _ h.digits
  rw [hvalue] at hwhole
  generalize Nat.toDigits 10 n = ds at h hwhole hfloat hdate ⊢
  obtain ⟨d, ds, rfl⟩ := List.exists_cons_of_ne_nil h.ne_nil
  have hd := h.digits d List.mem_cons_self
  rw [List.cons_append] at hwhole hfloat hdate ⊢
  rw [value, hdate, hfloat, hwhole]
  · rfl
  all_goals
    intro _ heq
    exact ne_of_isDigit hd (by decide) (List.cons.inj heq).1

end Numbers

/-! ## Between lines -/

/-- The character begins something: it is no blank and no line end, and no comment
begins with it. -/
def isSolid (c : Char) : Bool := !isBlank c && c != '#' && c != '\n' && c != '\r'

theorem skipLines_newline (s : List Char) : skipLines ('\n' :: s) = skipLines s := rfl

theorem skipLines_space (s : List Char) : skipLines (' ' :: s) = skipLines s := rfl

theorem skipLines_solid {c : Char} (h : isSolid c = true) (s : List Char) :
    skipLines (c :: s) = c :: s := by
  simp only [isSolid, Bool.and_eq_true, Bool.not_eq_true', bne_iff_ne] at h
  obtain ⟨⟨⟨hblank, hcomment⟩, hnewline⟩, hreturn⟩ := h
  rw [skipLines, skipLinesFrom]
  · simp [hblank, hcomment]
  · exact hnewline
  · exact fun _ heq => absurd heq hreturn

theorem skipLines_renderText (t : String) (s : List Char) :
    skipLines (renderText t ++ s) = renderText t ++ s := by
  obtain ⟨u, heq | heq⟩ := renderText_cases t
  · rw [heq]
    exact skipLines_solid rfl (u ++ s)
  · rw [heq]
    exact skipLines_solid rfl (u ++ s)

/-! ## Lists -/

section Lists

variable {t : String} {s : List Char}

theorem items_close (h : skipLines s = ']' :: rest) :
    items (fuel + 1) depth s = some ([], rest) := by
  rw [items, h]
  rfl

/-- An item with a comma behind it is followed by the others. -/
theorem items_comma (hskip : skipLines s = renderText t ++ ',' :: rest)
    (h : (renderText t).length < fuel) :
    items (fuel + 1) depth s = (items fuel depth rest).map fun r =>
      (.string t :: r.1, r.2) := by
  have hread := @value_renderText (',' :: rest) fuel depth t ⟨by simp, by simp⟩ h
  have hcomma : skipLines (',' :: rest) = ',' :: rest := skipLines_solid rfl rest
  rw [items, hskip]
  obtain ⟨u, hu | hu⟩ := renderText_cases t
  · rw [hu, List.cons_append] at hread ⊢
    simp [hread, hcomma]
  · rw [hu, List.cons_append] at hread ⊢
    simp [hread, hcomma]

/-- An item with the bracket behind it is the last one. -/
theorem items_last (hskip : skipLines s = renderText t ++ ']' :: rest)
    (h : (renderText t).length < fuel) :
    items (fuel + 1) depth s = some ([.string t], rest) := by
  have hread := @value_renderText (']' :: rest) fuel depth t ⟨by simp, by simp⟩ h
  have hbracket : skipLines (']' :: rest) = ']' :: rest := skipLines_solid rfl rest
  rw [items, hskip]
  obtain ⟨u, hu | hu⟩ := renderText_cases t
  · rw [hu, List.cons_append] at hread ⊢
    simp [hread, hbracket]
  · rw [hu, List.cons_append] at hread ⊢
    simp [hread, hbracket]

/-- An item on a line of its own. -/
def itemLine (t : String) : List Char :=
  ['\n', ' ', ' ', ' ', ' '] ++ renderText t ++ [',']

theorem items_itemLines (ts : List String) (h : (ts.flatMap itemLine).length < fuel) :
    items fuel depth (ts.flatMap itemLine ++ '\n' :: ']' :: rest) =
      some (ts.map .string, rest) := by
  induction ts generalizing fuel with
  | nil =>
    obtain ⟨fuel, rfl⟩ := Nat.exists_eq_succ_of_ne_zero (Nat.ne_zero_of_lt h)
    exact items_close rfl
  | cons t ts ih =>
    obtain ⟨fuel, rfl⟩ := Nat.exists_eq_succ_of_ne_zero (Nat.ne_zero_of_lt h)
    have hlength : (itemLine t).length = (renderText t).length + 6 := by
      simp [itemLine]
    have hskip : skipLines
        (itemLine t ++ (ts.flatMap itemLine ++ '\n' :: ']' :: rest)) =
        renderText t ++ ',' :: (ts.flatMap itemLine ++ '\n' :: ']' :: rest) := by
      rw [itemLine, List.append_assoc, List.append_assoc]
      simp only [List.cons_append, List.nil_append, skipLines_newline, skipLines_space]
      exact skipLines_renderText t _
    rw [List.flatMap_cons, List.length_append, hlength] at h
    rw [List.flatMap_cons, List.append_assoc, items_comma hskip (by omega),
      ih (by omega)]
    rfl

theorem value_bracket (hdepth : depth + 1 < depthLimit) (s : List Char) :
    value (fuel + 1) depth ('[' :: s) = (items fuel (depth + 1) s).map fun r =>
      (.array r.1, r.2) := by
  rw [value, if_neg (by omega)]

/-- A list of texts is read as a value. -/
theorem value_renderTexts (texts : List String) (hdepth : depth + 1 < depthLimit)
    (h : (renderTexts texts).length < fuel) :
    value fuel depth (renderTexts texts ++ rest) =
      some (.array (texts.map .string), rest) := by
  obtain ⟨fuel, rfl⟩ := Nat.exists_eq_succ_of_ne_zero (Nat.ne_zero_of_lt h)
  cases texts with
  | nil =>
    obtain ⟨fuel, rfl⟩ :=
      Nat.exists_eq_succ_of_ne_zero (Nat.ne_zero_of_lt (Nat.lt_of_succ_lt_succ h))
    rw [renderTexts, List.cons_append, value_bracket hdepth, List.singleton_append,
      items_close rfl]
    rfl
  | cons t ts =>
    cases ts with
    | nil =>
      simp only [renderTexts, List.length_append, List.length_cons, List.length_nil]
        at h
      obtain ⟨fuel, rfl⟩ := Nat.exists_eq_succ_of_ne_zero (show fuel ≠ 0 by omega)
      have hskip := skipLines_renderText t (']' :: rest)
      rw [renderTexts, List.cons_append, List.cons_append, value_bracket hdepth,
        List.append_assoc, List.singleton_append, items_last hskip (by omega)]
      rfl
    | cons u us =>
      have hlines : renderTexts (t :: u :: us) =
          '[' :: ((t :: u :: us).flatMap itemLine ++ ['\n', ']']) := rfl
      rw [hlines, List.length_cons, List.length_append] at h
      rw [hlines, List.cons_append, value_bracket hdepth, List.append_assoc,
        List.cons_append, List.cons_append, List.nil_append,
        items_itemLines (t :: u :: us) (by omega)]
      rfl

end Lists

end Chronicle.Toml

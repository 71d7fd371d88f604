import Chronicle.Toml.Printer
import Chronicle.Toml.Reader

/-!
# Texts in TOML are read back

The printer chooses among four forms by what a text holds, and the reader knows the
form from the quotes it meets first. Within a form each character is written plainly
or as an escape, and read back as one character. Three quotes end a text of several
lines, up to two more before them belong to it, so a run of quotes inside must stay
below three: in the escaped form because every third one is escaped, in the literal
form because the printer measures the runs.

* `escaped_cases`: a character is written plainly, or as an escape that stands for
  it.
* `closing?_of_quotes`, `closing?_of_other`: where a text of several lines ends, and
  where it does not.
* `text_renderText`: a text is read back from the form that suits it.
-/

namespace Chronicle.Toml

variable {c quote : Char} {cs rest : List Char} {fuel : Nat}

/-! ## Escapes -/

/-- Behind a backslash the characters stand for the given one, and not for an escaped
line end. -/
structure Escapes (e : List Char) (c : Char) : Prop where
  /-- They are read as that character. -/
  read : ∀ rest, escape (e ++ rest) = some (c, rest)
  /-- No line end begins with them. -/
  noNewline : ∀ rest, escapedNewline? (e ++ rest) = none

/-- The character stands in a text as it is. -/
structure Plain (c : Char) : Prop where
  /-- It is no control character. -/
  plain : isPlain c = true
  /-- It does not begin an escape. -/
  ne_backslash : c ≠ '\\'

theorem ofNatAux_toNat (h : c.toNat.isValidChar) : Char.ofNatAux c.toNat h = c := by
  have hchar := Char.ofNat_toNat c
  rwa [Char.ofNat, dif_pos h] at hchar

/-- The digits of a number stand for the character with that number. -/
theorem numbered_append {ds : List Char} (h : hexNumber? ds = some c.toNat)
    (rest : List Char) :
    numbered ds.length (ds ++ rest) = some (c, rest) := by
  have hvalid : c.toNat.isValidChar := c.valid
  unfold numbered
  rw [List.take_left, List.drop_left, if_neg (Nat.lt_irrefl _), h]
  rw [Option.bind_eq_bind, Option.bind_some, dif_pos hvalid, ofNatAux_toNat]

/-- A control character is written with four digits, which stand for its number. -/
theorem numberEscape_eq (h : isControl c = true) :
    ∃ ds, numberEscape c = '\\' :: 'u' :: ds ∧ ds.length = 4 ∧
      hexNumber? ds = some c.toNat := by
  have key : ∀ n : Fin 128, isControl (Char.ofNat n.val) = true →
      (numberEscape (Char.ofNat n.val)).take 2 = ['\\', 'u'] ∧
        ((numberEscape (Char.ofNat n.val)).drop 2).length = 4 ∧
        hexNumber? ((numberEscape (Char.ofNat n.val)).drop 2) = some n.val := by
    decide +kernel
  have hlt : c.toNat < 128 := by
    simp only [isControl, Bool.or_eq_true, Bool.and_eq_true, decide_eq_true_eq,
      beq_iff_eq] at h
    omega
  have hc := key ⟨c.toNat, hlt⟩
  simp only [Char.ofNat_toNat] at hc
  obtain ⟨hmark, hlength, hnumber⟩ := hc h
  refine ⟨_, ?_, hlength, hnumber⟩
  conv => lhs; rw [← List.take_append_drop 2 (numberEscape c), hmark]
  rfl

theorem escapes_letter {letter : Char} {ds : List Char}
    (hread : ∀ rest, escape (letter :: (ds ++ rest)) = some (c, rest))
    (hblank : isBlank letter = false) (hnewline : letter ≠ '\n')
    (hreturn : letter ≠ '\r') :
    Escapes (letter :: ds) c := by
  refine ⟨hread, fun rest => ?_⟩
  rw [escapedNewline?, List.cons_append, skipBlanks,
    List.dropWhile_cons_of_neg (by simp [hblank]), newline?]
  · rfl
  all_goals simp_all

theorem isPlain_of_not_isControl (h : isControl c = false) (hnewline : c ≠ '\n') :
    isPlain c = true := by
  by_cases htab : c = '\t'
  · rw [htab]
    rfl
  · simp [isControl, htab, hnewline] at h
    simp [isPlain, htab]
    omega

/-- A character other than a line feed is written plainly, or as an escape that
stands for it. -/
theorem escaped_cases (hnewline : c ≠ '\n') :
    (escaped c = [c] ∧ Plain c) ∨ ∃ e, escaped c = '\\' :: e ∧ Escapes e c := by
  by_cases hletter : c ∈ ['\x08', '\t', '\x0c', '\r', '\\']
  · simp only [List.mem_cons, List.not_mem_nil, or_false] at hletter
    right
    rcases hletter with rfl | rfl | rfl | rfl | rfl
    all_goals exact ⟨[_], rfl,
      escapes_letter (fun _ => rfl) rfl (by decide) (by decide)⟩
  · simp only [List.mem_cons, List.not_mem_nil, or_false, not_or] at hletter
    have hescaped : escaped c = if isControl c then numberEscape c else [c] := by
      simp [escaped, hletter]
    by_cases hcontrol : isControl c = true
    · obtain ⟨ds, hshown, hlength, hnumber⟩ := numberEscape_eq hcontrol
      refine .inr ⟨'u' :: ds, ?_,
        escapes_letter (fun rest => ?_) rfl (by decide) (by decide)⟩
      · rw [hescaped, if_pos hcontrol, hshown]
      · show numbered 4 (ds ++ rest) = some (c, rest)
        rw [← hlength]
        exact numbered_append hnumber rest
    · refine .inl ⟨?_, isPlain_of_not_isControl (by simpa using hcontrol) hnewline,
        hletter.2.2.2.2⟩
      rw [hescaped, if_neg hcontrol]

/-! ## Texts on one line -/

theorem basic_escape {e s : List Char} (h : Escapes e c) :
    basic (fuel + 1) ('\\' :: (e ++ s)) = (basic fuel s).map fun r =>
      (c :: r.1, r.2) := by
  rw [basic]
  simp only [h.read, Option.bind_eq_bind, Option.bind_some]
  cases basic fuel s <;> rfl

theorem basic_plain {s : List Char} (h : Plain c) (hquote : c ≠ '"') :
    basic (fuel + 1) (c :: s) = (basic fuel s).map fun r => (c :: r.1, r.2) := by
  rw [basic]
  · simp [h.plain]
  · exact fun heq => hquote heq
  · exact fun heq => h.ne_backslash heq

/-- A character on a line is written plainly, or as an escape that stands for it. -/
theorem escapedLine_cons_cases (c : Char) (cs : List Char) :
    (escapedLine (c :: cs) = c :: escapedLine cs ∧ Plain c ∧ c ≠ '"') ∨
      ∃ e, escapedLine (c :: cs) = '\\' :: (e ++ escapedLine cs) ∧ Escapes e c := by
  have hcons : escapedLine (c :: cs) =
      (if c == '"' then ['\\', '"'] else if c == '\n' then ['\\', 'n']
        else escaped c) ++ escapedLine cs := rfl
  by_cases hquote : c = '"'
  · subst hquote
    exact .inr ⟨['"'], hcons, escapes_letter (fun _ => rfl) rfl (by decide) (by decide)⟩
  by_cases hnewline : c = '\n'
  · subst hnewline
    exact .inr ⟨['n'], hcons, escapes_letter (fun _ => rfl) rfl (by decide) (by decide)⟩
  rw [if_neg (by simpa using hquote), if_neg (by simpa using hnewline)] at hcons
  rcases escaped_cases hnewline with ⟨hself, hplain⟩ | ⟨e, he, hescapes⟩
  · rw [hself] at hcons
    exact .inl ⟨hcons, hplain, hquote⟩
  · rw [he] at hcons
    exact .inr ⟨e, hcons, hescapes⟩

/-- A text with escapes is read back up to the closing quote. -/
theorem basic_escapedLine (h : (escapedLine cs).length < fuel) :
    basic fuel (escapedLine cs ++ '"' :: rest) = some (cs, rest) := by
  induction cs generalizing fuel with
  | nil =>
    obtain ⟨fuel, rfl⟩ := Nat.exists_eq_succ_of_ne_zero (Nat.ne_zero_of_lt h)
    rfl
  | cons c cs ih =>
    obtain ⟨fuel, rfl⟩ := Nat.exists_eq_succ_of_ne_zero (Nat.ne_zero_of_lt h)
    rcases escapedLine_cons_cases c cs with ⟨hcons, hplain, hquote⟩ |
      ⟨e, hcons, hescapes⟩
    · rw [hcons, List.length_cons] at h
      rw [hcons, List.cons_append, basic_plain hplain hquote, ih (by omega)]
      rfl
    · rw [hcons, List.length_cons, List.length_append] at h
      rw [hcons, List.cons_append, List.append_assoc, basic_escape hescapes,
        ih (by omega)]
      rfl

/-- A text without single quotes and control characters is read back as it stands. -/
theorem literal_append (h : ∀ c ∈ cs, isPlain c = true ∧ c ≠ '\'') :
    literal (cs ++ '\'' :: rest) = some (cs, rest) := by
  have hinside : (cs ++ '\'' :: rest).takeWhile (fun c => isPlain c && c != '\'') =
      cs := by
    rw [List.takeWhile_append_of_pos (fun c hc => by simp [h c hc]),
      List.takeWhile_cons_of_neg (by simp), List.append_nil]
  rw [literal, hinside]
  simp

/-! ## Where texts of several lines end -/

theorem takeWhile_quotes {k : Nat} (hrest : rest.head? ≠ some quote) :
    (List.replicate k quote ++ rest).takeWhile (· == quote) =
      List.replicate k quote := by
  have hquotes : ∀ d ∈ List.replicate k quote, (d == quote) = true := by
    intro d hd
    rw [List.eq_of_mem_replicate hd, beq_self_eq_true]
  rw [List.takeWhile_append_of_pos hquotes]
  cases rest with
  | nil => simp
  | cons d rest =>
    rw [List.takeWhile_cons_of_neg (by simpa using hrest), List.append_nil]

/-- Three quotes end a text, and up to two before them belong to it. -/
theorem closing?_of_quotes {k : Nat} (hk : k ≤ 2) (hrest : rest.head? ≠ some quote) :
    closing? quote (List.replicate k quote ++ quote :: quote :: quote :: rest) =
      some (List.replicate k quote, rest) := by
  have hall : List.replicate k quote ++ quote :: quote :: quote :: rest =
      List.replicate (k + 3) quote ++ rest := by
    rw [← List.replicate_append_replicate, List.append_assoc]
    rfl
  have hkept : min (k + 3 - 3) 2 = k := by omega
  rw [closing?, hall, takeWhile_quotes hrest, List.length_replicate,
    if_neg (by omega), hkept]
  simp

/-- Fewer than three quotes do not end a text. -/
theorem closing?_of_other {k : Nat} (hk : k ≤ 2) (hc : c ≠ quote) :
    closing? quote (List.replicate k quote ++ c :: rest) = none := by
  rw [closing?, takeWhile_quotes (by simpa using hc), List.length_replicate,
    if_pos (by omega)]

/-! ## Texts of several lines with escapes -/

theorem newline?_eq_none {s : List Char} (hnewline : c ≠ '\n') (hreturn : c ≠ '\r') :
    newline? (c :: s) = none := by
  rw [newline?]
  all_goals simp_all

theorem newline?_of_isPlain {s : List Char} (h : isPlain c = true) :
    newline? (c :: s) = none := by
  apply newline?_eq_none
  · rintro rfl
    exact absurd h (by decide)
  · rintro rfl
    exact absurd h (by decide)

section

variable {s : List Char}

theorem basicLines_closing {kept : List Char} (h : closing? '"' s = some (kept, rest)) :
    basicLines (fuel + 1) s = some (kept, rest) := by
  rw [basicLines.eq_def]
  simp only [h]

theorem basicLines_newline :
    basicLines (fuel + 1) ('\n' :: s) = (basicLines fuel s).map fun r =>
      ('\n' :: r.1, r.2) := by
  have hopen : closing? '"' ('\n' :: s) = none :=
    @closing?_of_other '\n' '"' s 0 (by decide) (by decide)
  rw [basicLines, hopen]
  · rfl
  · decide

theorem basicLines_escape {e : List Char} (h : Escapes e c) :
    basicLines (fuel + 1) ('\\' :: (e ++ s)) = (basicLines fuel s).map fun r =>
      (c :: r.1, r.2) := by
  have hopen : closing? '"' ('\\' :: (e ++ s)) = none :=
    @closing?_of_other '\\' '"' _ 0 (by decide) (by decide)
  have hline : newline? ('\\' :: (e ++ s)) = none :=
    newline?_eq_none (by decide) (by decide)
  rw [basicLines, hopen, hline]
  simp only [h.noNewline, h.read, Option.bind_eq_bind, Option.bind_some]
  cases basicLines fuel s <;> rfl

theorem basicLines_plain (h : Plain c) (hopen : closing? '"' (c :: s) = none) :
    basicLines (fuel + 1) (c :: s) = (basicLines fuel s).map fun r =>
      (c :: r.1, r.2) := by
  rw [basicLines, hopen, newline?_of_isPlain h.plain]
  · simp [h.plain]
  · exact fun heq => h.ne_backslash heq

end

/-- A character of a text of several lines is a quote or a line feed, or it is
written plainly or as an escape that stands for it. -/
theorem escapedLines_cons_cases (run : Nat) (c : Char) (cs : List Char) :
    (c = '"' ∧ run ≠ 2 ∧ escapedLines run (c :: cs) =
        '"' :: escapedLines (run + 1) cs) ∨
    (c = '\n' ∧ escapedLines run (c :: cs) = '\n' :: escapedLines 0 cs) ∨
    (Plain c ∧ c ≠ '"' ∧ escapedLines run (c :: cs) = c :: escapedLines 0 cs) ∨
    ∃ e, Escapes e c ∧ escapedLines run (c :: cs) =
      '\\' :: (e ++ escapedLines 0 cs) := by
  rw [escapedLines]
  by_cases hquote : c = '"'
  · subst hquote
    by_cases hrun : run = 2
    · subst hrun
      exact .inr (.inr
        (.inr ⟨['"'], escapes_letter (fun _ => rfl) rfl (by decide) (by decide), rfl⟩))
    · exact .inl ⟨rfl, hrun, by simp [hrun]⟩
  by_cases hnewline : c = '\n'
  · subst hnewline
    exact .inr (.inl ⟨rfl, rfl⟩)
  rw [if_neg (by simpa using hquote), if_neg (by simpa using hnewline)]
  rcases escaped_cases hnewline with ⟨hself, hplain⟩ | ⟨e, he, hescapes⟩
  · exact .inr (.inr (.inl ⟨hplain, hquote, by rw [hself]; rfl⟩))
  · exact .inr (.inr (.inr ⟨e, hescapes, by rw [he]; rfl⟩))

/-- With `run` quotes gone by, what is written begins with so few more that there are
less than three together; all of it is quotes only if the text is. -/
theorem escapedLines_cases {run : Nat} (hrun : run ≤ 2) :
    (∃ k, cs = List.replicate k '"' ∧ run + k ≤ 2 ∧ escapedLines run cs = cs) ∨
      ∃ k d tail, escapedLines run cs = List.replicate k '"' ++ d :: tail ∧ d ≠ '"' ∧
      run + k ≤ 2 := by
  induction cs generalizing run with
  | nil => exact .inl ⟨0, rfl, hrun, rfl⟩
  | cons c cs ih =>
    rcases escapedLines_cons_cases run c cs with ⟨rfl, hne, hcons⟩ | ⟨_, hcons⟩ |
      ⟨_, hquote, hcons⟩ | ⟨e, _, hcons⟩
    · rw [hcons]
      rcases @ih (run + 1) (by omega) with ⟨k, rfl, hk, heq⟩ | ⟨k, d, tail, heq, hd, hk⟩
      · exact .inl ⟨k + 1, rfl, by omega, by rw [heq]⟩
      · exact .inr ⟨k + 1, d, tail, by rw [heq]; rfl, hd, by omega⟩
    · exact .inr ⟨0, '\n', _, hcons, by decide, hrun⟩
    · exact .inr ⟨0, c, _, hcons, hquote, hrun⟩
    · exact .inr ⟨0, '\\', _, hcons, by decide, hrun⟩

/-- A text of several lines with escapes is read back up to the closing quotes. -/
theorem basicLines_escapedLines {run : Nat} (hrun : run ≤ 2)
    (hrest : rest.head? ≠ some '"') (h : (escapedLines run cs).length < fuel) :
    basicLines fuel (escapedLines run cs ++ '"' :: '"' :: '"' :: rest) =
      some (cs, rest) := by
  induction cs generalizing run fuel with
  | nil =>
    obtain ⟨fuel, rfl⟩ := Nat.exists_eq_succ_of_ne_zero (Nat.ne_zero_of_lt h)
    exact basicLines_closing (@closing?_of_quotes '"' rest 0 (by decide) hrest)
  | cons c cs ih =>
    obtain ⟨fuel, rfl⟩ := Nat.exists_eq_succ_of_ne_zero (Nat.ne_zero_of_lt h)
    rcases @escapedLines_cases (c :: cs) run hrun with ⟨k, hcs, hk, heq⟩ |
      ⟨k, d, tail, heq, hd, hk⟩
    · rw [heq, hcs]
      exact basicLines_closing (closing?_of_quotes (by omega) hrest)
    · have hopen : closing? '"'
          (escapedLines run (c :: cs) ++ '"' :: '"' :: '"' :: rest) = none := by
        rw [heq, List.append_assoc]
        exact closing?_of_other (by omega) hd
      rcases escapedLines_cons_cases run c cs with
        ⟨rfl, hne, hcons⟩ | ⟨rfl, hcons⟩ | ⟨hplain, hquote, hcons⟩ |
          ⟨e, hescapes, hcons⟩
      · rw [hcons, List.cons_append] at hopen
        rw [hcons, List.length_cons] at h
        rw [hcons, List.cons_append, basicLines_plain ⟨rfl, by decide⟩ hopen,
          ih (by omega) (by omega)]
        rfl
      · rw [hcons, List.length_cons] at h
        rw [hcons, List.cons_append, basicLines_newline, ih (by omega) (by omega)]
        rfl
      · rw [hcons, List.cons_append] at hopen
        rw [hcons, List.length_cons] at h
        rw [hcons, List.cons_append, basicLines_plain hplain hopen,
          ih (by omega) (by omega)]
        rfl
      · rw [hcons, List.length_cons, List.length_append] at h
        rw [hcons, List.cons_append, List.append_assoc, basicLines_escape hescapes,
          ih (by omega) (by omega)]
        rfl

/-! ## Texts of several lines as they stand -/

theorem literalLines_closing {s kept : List Char}
    (h : closing? '\'' s = some (kept, rest)) :
    literalLines (fuel + 1) s = some (kept, rest) := by
  rw [literalLines.eq_def]
  simp only [h]

theorem literalLines_cons {s : List Char} (hopen : closing? '\'' (c :: s) = none)
    (hc : c = '\n' ∨ isPlain c = true) :
    literalLines (fuel + 1) (c :: s) = (literalLines fuel s).map fun r =>
      (c :: r.1, r.2) := by
  rcases hc with rfl | hplain
  · rw [literalLines, hopen]
    rfl
  · rw [literalLines, hopen, newline?_of_isPlain hplain]
    simp [hplain]

/-- A list of characters is quotes only, or has another character behind the quotes. -/
theorem quotes_cases (quote : Char) (cs : List Char) :
    (∃ k, cs = List.replicate k quote) ∨
      ∃ k d tail, cs = List.replicate k quote ++ d :: tail ∧ d ≠ quote := by
  induction cs with
  | nil => exact .inl ⟨0, rfl⟩
  | cons c cs ih =>
    by_cases hc : c = quote
    · subst hc
      rcases ih with ⟨k, rfl⟩ | ⟨k, d, tail, rfl, hd⟩
      · exact .inl ⟨k + 1, rfl⟩
      · exact .inr ⟨k + 1, d, tail, rfl, hd⟩
    · exact .inr ⟨0, c, cs, rfl, hc⟩

/-! ## Runs of quotes -/

theorem le_longestRun (quote : Char) (run : Nat) (cs : List Char) :
    run ≤ longestRun quote run cs := by
  induction cs generalizing run with
  | nil => exact Nat.le_refl run
  | cons c cs ih =>
    rw [longestRun]
    split
    · exact Nat.le_trans (Nat.le_succ run) (ih (run + 1))
    · exact Nat.le_max_left run _

theorem longestRun_mono {run run' : Nat} (h : run ≤ run') (quote : Char)
    (cs : List Char) :
    longestRun quote run cs ≤ longestRun quote run' cs := by
  induction cs generalizing run run' with
  | nil => exact h
  | cons c cs ih =>
    rw [longestRun, longestRun]
    split
    · exact ih (Nat.succ_le_succ h)
    · omega

/-- A text has no longer runs than one with a character more in front. -/
theorem longestRun_le_cons (quote c : Char) (cs : List Char) :
    longestRun quote 0 cs ≤ longestRun quote 0 (c :: cs) := by
  rw [longestRun]
  split
  · exact longestRun_mono (Nat.le_succ 0) quote cs
  · exact Nat.le_max_right 0 _

theorem le_longestRun_replicate (quote : Char) (k run : Nat) (cs : List Char) :
    run + k ≤ longestRun quote run (List.replicate k quote ++ cs) := by
  induction k generalizing run with
  | zero => exact le_longestRun quote run cs
  | succ k ih =>
    rw [List.replicate_succ, List.cons_append, longestRun,
      if_pos (beq_self_eq_true quote)]
    have := ih (run + 1)
    omega

/-- A text without control characters and without long runs of single quotes is read
back as it stands. -/
theorem literalLines_append (hrest : rest.head? ≠ some '\'')
    (hplain : ∀ c ∈ cs, c = '\n' ∨ isPlain c = true) (hruns : longestRun '\'' 0 cs ≤ 2)
    (h : cs.length < fuel) :
    literalLines fuel (cs ++ '\'' :: '\'' :: '\'' :: rest) = some (cs, rest) := by
  induction cs generalizing fuel with
  | nil =>
    obtain ⟨fuel, rfl⟩ := Nat.exists_eq_succ_of_ne_zero (Nat.ne_zero_of_lt h)
    exact literalLines_closing (@closing?_of_quotes '\'' rest 0 (by decide) hrest)
  | cons c cs ih =>
    obtain ⟨fuel, rfl⟩ := Nat.exists_eq_succ_of_ne_zero (Nat.ne_zero_of_lt h)
    rcases quotes_cases '\'' (c :: cs) with ⟨k, hcs⟩ | ⟨k, d, tail, hcs, hd⟩
    · have hk := le_longestRun_replicate '\'' k 0 []
      rw [List.append_nil, ← hcs] at hk
      rw [hcs]
      exact literalLines_closing (closing?_of_quotes (by omega) hrest)
    · have hk := le_longestRun_replicate '\'' k 0 (d :: tail)
      rw [← hcs] at hk
      have hopen : closing? '\'' ((c :: cs) ++ '\'' :: '\'' :: '\'' :: rest) =
          none := by
        rw [hcs, List.append_assoc]
        exact closing?_of_other (by omega) hd
      obtain ⟨hc, hcs'⟩ := List.forall_mem_cons.1 hplain
      rw [List.length_cons] at h
      rw [List.cons_append] at hopen ⊢
      rw [literalLines_cons hopen hc,
        ih hcs' (Nat.le_trans (longestRun_le_cons '\'' c cs) hruns) (by omega)]
      rfl

theorem longestRun_pos (h : quote ∈ cs) : 0 < longestRun quote 0 cs := by
  induction cs with
  | nil => cases h
  | cons c cs ih =>
    rcases List.mem_cons.1 h with rfl | hin
    · rw [longestRun, if_pos (beq_self_eq_true quote)]
      exact le_longestRun quote 1 cs
    · exact Nat.lt_of_lt_of_le (ih hin) (longestRun_le_cons quote c cs)

/-! ## The form that suits a text -/

theorem isPlain_of_control (h : (measure cs).control = false) :
    ∀ c ∈ cs, c = '\n' ∨ isPlain c = true := by
  intro c hc
  have hcontrol : isControl c = false := by
    have hany : cs.any isControl = false := h
    simpa using List.any_eq_false.1 hany c hc
  by_cases hnewline : c = '\n'
  · exact .inl hnewline
  · exact .inr (isPlain_of_not_isControl hcontrol hnewline)

theorem ne_of_newline (h : (measure cs).newline = false) : ∀ c ∈ cs, c ≠ '\n' := by
  rintro c hc rfl
  have hcontains : cs.contains '\n' = false := h
  simp [hc] at hcontains

theorem of_formOf_literal {m : Measure} (h : formOf m = .literal) :
    m.control = false ∧ m.singles = 0 ∧ m.newline = false := by
  rw [formOf] at h
  split at h
  · cases h
  split at h
  · next hliteral =>
    simp only [Bool.and_eq_true, Bool.not_eq_true', beq_iff_eq] at hliteral
    exact ⟨hliteral.1.1, hliteral.1.2, hliteral.2⟩
  split at h
  · cases h
  split at h
  · cases h
  split at h <;> cases h

theorem of_formOf_literalLines {m : Measure} (h : formOf m = .literalLines) :
    m.control = false ∧ m.singles ≤ 2 := by
  rw [formOf] at h
  split at h
  · cases h
  split at h
  · cases h
  split at h
  · cases h
  split at h
  · next hliteral =>
    simp only [Bool.and_eq_true, Bool.not_eq_true', decide_eq_true_eq] at hliteral
    exact hliteral
  split at h <;> cases h

/-! ## Reading each form -/

/-- Neither kind of quote follows. -/
def Unquoted (rest : List Char) : Prop := rest.head? ≠ some '"' ∧ rest.head? ≠ some '\''

theorem text_of_basic {s : List Char} (h : ∀ t, s ≠ '"' :: '"' :: t) :
    text fuel ('"' :: s) = (basic fuel s).map fun r => (String.ofList r.1, r.2) := by
  rw [text]
  exact h

theorem text_of_literal {s : List Char} (h : ∀ t, s ≠ '\'' :: '\'' :: t) :
    text fuel ('\'' :: s) = (literal s).map fun r => (String.ofList r.1, r.2) := by
  rw [text]
  exact h

theorem text_basic (hrest : Unquoted rest) (h : (escapedLine cs).length < fuel) :
    text fuel ('"' :: (escapedLine cs ++ '"' :: rest)) =
      some (String.ofList cs, rest) := by
  have hone : ∀ t, escapedLine cs ++ '"' :: rest ≠ '"' :: '"' :: t := by
    intro t heq
    cases cs with
    | nil => exact hrest.1 (by rw [(List.cons.inj heq).2]; rfl)
    | cons c cs =>
      rcases escapedLine_cons_cases c cs with ⟨hcons, _, hquote⟩ | ⟨e, hcons, _⟩
      · rw [hcons] at heq
        exact hquote (List.cons.inj heq).1
      · rw [hcons] at heq
        exact absurd (List.cons.inj heq).1 (by decide)
  rw [text_of_basic hone, basic_escapedLine h]
  rfl

theorem text_literal (hne : cs ≠ []) (hplain : ∀ c ∈ cs, isPlain c = true ∧ c ≠ '\'') :
    text fuel ('\'' :: (cs ++ '\'' :: rest)) = some (String.ofList cs, rest) := by
  have hone : ∀ t, cs ++ '\'' :: rest ≠ '\'' :: '\'' :: t := by
    intro t heq
    obtain ⟨c, cs, rfl⟩ := List.exists_cons_of_ne_nil hne
    exact (hplain c List.mem_cons_self).2 (List.cons.inj heq).1
  rw [text_of_literal hone, literal_append hplain]
  rfl

/-- A line end behind the opening quotes does not count, whether it was written or
there is none. -/
theorem trimNewline_opening {s : List Char} {newline : Bool}
    (h : newline = false → newline? s = none) :
    trimNewline ((if newline then ['\n'] else []) ++ s) = s := by
  cases newline with
  | true => rfl
  | false =>
    rw [trimNewline]
    simp [h rfl]

theorem newline?_escapedLines (h : ∀ c ∈ cs, c ≠ '\n') :
    newline? (escapedLines 0 cs ++ '"' :: '"' :: '"' :: rest) = none := by
  cases cs with
  | nil => rfl
  | cons c cs =>
    rcases escapedLines_cons_cases 0 c cs with ⟨rfl, _, hcons⟩ | ⟨rfl, _⟩ |
      ⟨hplain, _, hcons⟩ | ⟨e, _, hcons⟩
    · rw [hcons]
      rfl
    · exact absurd rfl (h '\n' List.mem_cons_self)
    · rw [hcons]
      exact newline?_of_isPlain hplain.plain
    · rw [hcons]
      rfl

theorem newline?_literal (hplain : ∀ c ∈ cs, c = '\n' ∨ isPlain c = true)
    (h : ∀ c ∈ cs, c ≠ '\n') :
    newline? (cs ++ '\'' :: '\'' :: '\'' :: rest) = none := by
  cases cs with
  | nil => rfl
  | cons c cs =>
    exact newline?_of_isPlain
      ((hplain c List.mem_cons_self).resolve_left (h c List.mem_cons_self))

theorem text_basicLines (hrest : Unquoted rest) {newline : Bool}
    (hnewline : newline = false → ∀ c ∈ cs, c ≠ '\n')
    (h : (escapedLines 0 cs).length < fuel) :
    text fuel ('"' :: '"' :: '"' :: ((if newline then ['\n'] else []) ++
      (escapedLines 0 cs ++ '"' :: '"' :: '"' :: rest))) =
        some (String.ofList cs, rest) := by
  rw [text, trimNewline_opening fun hn => newline?_escapedLines (hnewline hn),
    basicLines_escapedLines (by decide) hrest.1 h]
  rfl

theorem text_literalLines (hrest : Unquoted rest) {newline : Bool}
    (hnewline : newline = false → ∀ c ∈ cs, c ≠ '\n')
    (hplain : ∀ c ∈ cs, c = '\n' ∨ isPlain c = true) (hruns : longestRun '\'' 0 cs ≤ 2)
    (h : cs.length < fuel) :
    text fuel ('\'' :: '\'' :: '\'' :: ((if newline then ['\n'] else []) ++
      (cs ++ '\'' :: '\'' :: '\'' :: rest))) = some (String.ofList cs, rest) := by
  rw [text, trimNewline_opening fun hn => newline?_literal hplain (hnewline hn),
    literalLines_append hrest.2 hplain hruns h]
  rfl

/-- A text is read back from the form that suits it, if no quote follows. -/
theorem text_renderText (s : String) (hrest : Unquoted rest)
    (h : (renderText s).length ≤ fuel) :
    text fuel (renderText s ++ rest) = some (s, rest) := by
  have hback : String.ofList s.toList = s := String.ofList_toList
  rw [renderText] at h ⊢
  generalize s.toList = cs at h hback ⊢
  subst hback
  cases hform : formOf (measure cs) with
  | basic =>
    simp only [hform, List.cons_append, List.length_cons, List.length_append,
      List.length_nil] at h
    simp only [List.cons_append, List.append_assoc, List.nil_append]
    exact text_basic hrest (by omega)
  | literal =>
    obtain ⟨hcontrol, hsingles, hnewline⟩ := of_formOf_literal hform
    have hplain : ∀ c ∈ cs, isPlain c = true ∧ c ≠ '\'' := by
      intro c hc
      refine ⟨(isPlain_of_control hcontrol c hc).resolve_left
        (ne_of_newline hnewline c hc), ?_⟩
      rintro rfl
      exact absurd hsingles (Nat.pos_iff_ne_zero.1 (longestRun_pos hc))
    have hne : cs ≠ [] := by
      rintro rfl
      cases hform
    simp only [List.cons_append, List.append_assoc, List.nil_append]
    exact text_literal hne hplain
  | basicLines =>
    simp only [hform, List.cons_append, List.length_cons, List.length_append,
      List.length_nil] at h
    simp only [List.cons_append, List.append_assoc, List.nil_append]
    exact text_basicLines hrest ne_of_newline (by omega)
  | literalLines =>
    obtain ⟨hcontrol, hruns⟩ := of_formOf_literalLines hform
    simp only [hform, List.cons_append, List.length_cons, List.length_append,
      List.length_nil] at h
    simp only [List.cons_append, List.append_assoc, List.nil_append]
    exact text_literalLines hrest ne_of_newline (isPlain_of_control hcontrol)
      hruns (by omega)

end Chronicle.Toml

import Chronicle.Proofs.Json.RoundTrip

/-!
# Texts that break off

The text of a value breaks off, and the text of an object follows. The reader comes
to a stop where the second text begins, or, if the first one broke off inside a
string, where a name in the second one begins: there it finds a byte that no text
goes on with. So what it finds is no text.

* `Tears.natural`, `Tears.bool`, `Tears.string`, `Tears.object`: the reader comes to
  a stop in every value.
* `parse?_torn`: a text that broke off and another one after it are no text.
-/

namespace Chronicle.Json

/-- A byte that is no blank and separates or closes nothing. -/
def isForeign (x : UInt8) : Bool :=
  !isSpace x && x != 0x2C && x != 0x3A && x != 0x5D && x != 0x7D

/-- The text of an object whose first name begins with a foreign byte. -/
structure Opening (s : Bytes) : Prop where
  begins : ∃ x t, s = 0x7B :: 0x22 :: x :: t ∧ isForeign x = true
  reads : ∀ fuel, s.length ≤ fuel → ∃ v, value fuel s = some (v, [])

/-- The reader has failed, or has come to a foreign byte. -/
def Stuck {α : Type} (r : Option (α × Bytes)) : Prop :=
  r = none ∨ ∃ a x t, r = some (a, x :: t) ∧ isForeign x = true

/-- A value whose text cannot break off before another one: the reader gets stuck. -/
def Tears (v : Json) : Prop :=
  ∀ s w fuel, Opening s → w <+: v.compact → w ≠ [] → (w ++ s).length ≤ fuel →
    Stuck (value fuel (w ++ s))

theorem skipSpace_foreign {x : UInt8} (h : isForeign x = true) (t : Bytes) :
    skipSpace (x :: t) = x :: t := by
  have hx : isSpace x = false := by
    simp only [isForeign, Bool.and_eq_true, Bool.not_eq_true'] at h
    exact h.1.1.1.1
  rw [skipSpace, List.dropWhile_cons_of_neg (by simp [hx])]

theorem Opening.foreign {s : Bytes} (h : Opening s) :
    ∃ t, s = 0x7B :: t ∧ isForeign 0x7B = true := by
  obtain ⟨x, t, rfl, _⟩ := h.begins
  exact ⟨_, rfl, by decide⟩

theorem Stuck.map {α β : Type} {r : Option (α × Bytes)} (h : Stuck r) (f : α → β) :
    Stuck (r.map fun p => (f p.1, p.2)) := by
  rcases h with rfl | ⟨a, x, t, rfl, hx⟩
  · exact .inl rfl
  · exact .inr ⟨f a, x, t, rfl, hx⟩

/-! ## Numbers and words -/

/-- Digits are a number, or none if there is a zero too many; what follows is the
other text. -/
theorem stuck_number {w s : Bytes} (hs : Opening s) (hne : w ≠ [])
    (hw : ∀ d ∈ w, Text.Decimal.isDigit d = true) : Stuck (number (w ++ s)) := by
  obtain ⟨t, rfl, hforeign⟩ := hs.foreign
  obtain ⟨d, ds, rfl⟩ := List.exists_cons_of_ne_nil hne
  have hd : Text.Decimal.isDigit d = true := hw d List.mem_cons_self
  have hwhole : whole (d :: ds ++ 0x7B :: t) = none ∨
      ∃ digits, whole (d :: ds ++ 0x7B :: t) = some (digits, 0x7B :: t) := by
    by_cases hzero : d = 0x30
    · subst hzero
      cases ds with
      | nil => exact .inr ⟨[0x30], rfl⟩
      | cons e es =>
        left
        have he : Text.Decimal.isDigit e = true :=
          hw e (List.mem_cons_of_mem _ List.mem_cons_self)
        simp [whole, he]
    · right
      have htake : (d :: ds ++ 0x7B :: t).dropWhile Text.Decimal.isDigit =
          0x7B :: t := by
        rw [List.dropWhile_append_of_pos hw, List.dropWhile_cons_of_neg (by decide)]
      rw [List.cons_append, whole]
      · rw [if_pos hd, ← List.cons_append, htake]
        exact ⟨_, rfl⟩
      · exact hzero
  have hunsigned : Stuck (unsigned (d :: ds ++ 0x7B :: t)) := by
    rw [unsigned]
    rcases hwhole with hnone | ⟨digits, hsome⟩
    · rw [hnone]
      exact .inl rfl
    · rw [hsome]
      exact .inr ⟨ofDigits digits, 0x7B, t, rfl, hforeign⟩
  rw [List.cons_append, number]
  · exact hunsigned
  · intro _ he
    exact ne_of_isDigit hd (by decide) (List.cons.inj he).1

theorem Tears.natural (n : Nat) : Tears (natural n) := by
  intro s w fuel hs hpart hne hfuel
  obtain ⟨d, ds, rfl⟩ := List.exists_cons_of_ne_nil hne
  have hw : ∀ e ∈ d :: ds, Text.Decimal.isDigit e = true := fun e he =>
    Text.Decimal.isDigit_of_mem_render (hpart.subset he)
  cases fuel with
  | zero => cases hfuel
  | succ fuel =>
    rw [List.cons_append, ← List.nil_append (d :: (ds ++ s)),
      value_digit blanks_nil (hw d List.mem_cons_self)]
    exact stuck_number hs hne hw

/-- A word that is complete is read, and no beginning of it is anything. -/
theorem Tears.bool (b : Bool) : Tears (bool b) := by
  intro s w fuel hs hpart hne hfuel
  obtain ⟨t, rfl, hforeign⟩ := hs.foreign
  have hpos : 0 < w.length := List.length_pos_iff.2 hne
  have hle := hpart.length_le
  rw [List.prefix_iff_eq_take] at hpart
  cases fuel with
  | zero => simp at hfuel
  | succ fuel =>
    cases b with
    | false =>
      replace hle : w.length ≤ 5 := hle
      obtain h | h | h | h | h : w.length = 1 ∨ w.length = 2 ∨ w.length = 3 ∨
        w.length = 4 ∨ w.length = 5 := by
        omega
      all_goals rw [hpart, h]
      · exact .inl rfl
      · exact .inl rfl
      · exact .inl rfl
      · exact .inl rfl
      · exact .inr ⟨_, 0x7B, t, rfl, hforeign⟩
    | true =>
      replace hle : w.length ≤ 4 := hle
      obtain h | h | h | h : w.length = 1 ∨ w.length = 2 ∨ w.length = 3 ∨
        w.length = 4 := by omega
      all_goals rw [hpart, h]
      · exact .inl rfl
      · exact .inl rfl
      · exact .inl rfl
      · exact .inr ⟨_, 0x7B, t, rfl, hforeign⟩

/-! ## Strings -/

/-- Bytes that stand in a string as they are. -/
def isPlain (b : UInt8) : Bool := b != 0x22 && b != 0x5C && !(b < 0x20)

/-- No byte of the text needs an escape. -/
def IsPlainText (s : String) : Prop :=
  ((Bytes.ofText s).flatMap escapeByte).all isPlain = true

theorem pieces_plain_append {u : Bytes} (hu : u.all isPlain = true) (rest : Bytes) :
    ∃ ps, pieces (u ++ 0x22 :: rest) = some (ps, rest) := by
  induction u with
  | nil => exact ⟨[], by rw [List.nil_append, pieces]⟩
  | cons b u ih =>
    rw [List.all_cons, Bool.and_eq_true] at hu
    obtain ⟨ps, hps⟩ := ih hu.2
    have hb := hu.1
    simp only [isPlain, Bool.and_eq_true, bne_iff_ne, Bool.not_eq_true',
      decide_eq_false_iff_not] at hb
    exact ⟨.byte b :: ps,
      by rw [List.cons_append, pieces_plain hb.1.1 hb.1.2 hb.2, hps]; rfl⟩

/-- A string that breaks off goes on to the first quote of the other text. -/
theorem text_torn {s u : Bytes} (hs : Opening s) (hu : u.all isPlain = true) :
    ∃ r x t, text (u ++ s) = some (r, x :: t) ∧ isForeign x = true := by
  obtain ⟨x, t, rfl, hx⟩ := hs.begins
  have hopen : (u ++ [0x7B]).all isPlain = true := by
    rw [List.all_append, hu]
    decide
  obtain ⟨ps, hps⟩ := pieces_plain_append hopen (x :: t)
  rw [List.append_assoc, List.singleton_append] at hps
  exact ⟨_, x, t, by rw [text, hps], hx⟩

/-- A beginning of a list that is followed by one more item is all of it, or a
beginning of the list. -/
theorem prefix_concat_cases {α : Type} {w u : List α} {x : α} (h : w <+: u ++ [x]) :
    w = u ++ [x] ∨ w <+: u := by
  obtain ⟨more, hmore⟩ := h
  by_cases hne : more = []
  · rw [hne, List.append_nil] at hmore
    exact .inl hmore
  · right
    have hbegin := congrArg List.dropLast hmore
    rw [List.dropLast_concat, List.dropLast_append_of_ne_nil hne] at hbegin
    exact ⟨_, hbegin⟩

theorem Tears.string {s : String} (h : IsPlainText s) : Tears (string s) := by
  intro other w fuel hs hpart hne hfuel
  cases fuel with
  | zero => simp [hne] at hfuel
  | succ fuel =>
    rcases prefix_concat_cases (u := 0x22 :: (Bytes.ofText s).flatMap escapeByte) hpart
      with rfl | hbegin
    · obtain ⟨t, rfl, hforeign⟩ := hs.foreign
      exact .inr ⟨_, 0x7B, t, value_string blanks_nil fuel s (0x7B :: t), hforeign⟩
    · obtain ⟨b, u, rfl⟩ := List.exists_cons_of_ne_nil hne
      obtain ⟨rfl, hu⟩ := List.cons_prefix_cons.1 hbegin
      have hplain : u.all isPlain = true :=
        List.all_eq_true.2 fun b hb => List.all_eq_true.1 h b (hu.subset hb)
      obtain ⟨r, x, t, htext, hx⟩ := text_torn hs hplain
      rw [List.cons_append, ← List.nil_append (0x22 :: (u ++ other)), value,
        skipSpace_blanks blanks_nil (by decide)]
      simp only [htext]
      cases r with
      | none => exact .inr ⟨_, x, t, rfl, hx⟩
      | some text => exact .inr ⟨_, x, t, rfl, hx⟩

/-! ## Objects -/

/-- What stands after the opening brace, or after the comma before a member. -/
def memberText (name : String) (v : Json) (ms : List (String × Json)) : Bytes :=
  (renderText name ++ 0x3A :: v.compact) ++ renderMembers .compact false ms

/-- A member whose name needs no escape and whose value tears. -/
def TearsMember (m : String × Json) : Prop := IsPlainText m.1 ∧ Plain m.2 ∧ Tears m.2

theorem prefix_append_cases {α : Type} {w u v : List α} (h : w <+: u ++ v) :
    w <+: u ∨ ∃ w', w = u ++ w' ∧ w' <+: v := by
  rcases List.prefix_or_prefix_of_prefix h (List.prefix_append u v) with hw | ⟨w', rfl⟩
  · exact .inl hw
  · exact .inr ⟨w', rfl, (List.prefix_append_right_inj u).1 h⟩

theorem ne_of_isForeign {x y : UInt8} (h : isForeign x = true)
    (hy : isForeign y = false) : x ≠ y := by
  rintro rfl
  rw [hy] at h
  cases h

/-- After a name there must be a colon. -/
theorem members_of_text {u t : Bytes} {r : Option String} {x : UInt8}
    (h : text u = some (r, x :: t)) (hx : isForeign x = true) (fuel : Nat) :
    members (fuel + 1) (0x22 :: u) = none := by
  rw [← List.nil_append (0x22 :: u), members, skipSpace_blanks blanks_nil (by decide)]
  simp only [h, skipSpace_foreign hx]
  split
  · next hcolon =>
      exact absurd (List.cons.inj hcolon).1 (ne_of_isForeign hx (by decide))
  · rfl

theorem members_opening {s : Bytes} (hs : Opening s) (fuel : Nat) :
    members fuel s = none := by
  obtain ⟨t, rfl, hforeign⟩ := hs.foreign
  cases fuel with
  | zero => rw [members]
  | succ fuel => rw [members, skipSpace_foreign hforeign]; rfl

/-- Where the name breaks off, there is no colon. -/
theorem members_torn_name {name : String} {s w : Bytes} (hs : Opening s)
    (hname : IsPlainText name) (hw : w <+: renderText name) (fuel : Nat) :
    members fuel (w ++ s) = none := by
  cases fuel with
  | zero => rw [members]
  | succ fuel =>
    rcases prefix_concat_cases (u := 0x22 :: (Bytes.ofText name).flatMap escapeByte) hw
      with rfl | hbegin
    · obtain ⟨t, rfl, hforeign⟩ := hs.foreign
      rw [List.append_assoc, List.cons_append]
      exact members_of_text (text_escaped name (0x7B :: t)) hforeign fuel
    · cases w with
      | nil => exact members_opening hs (fuel + 1)
      | cons b u =>
        obtain ⟨rfl, hu⟩ := List.cons_prefix_cons.1 hbegin
        have hplain : u.all isPlain = true :=
          List.all_eq_true.2 fun b hb => List.all_eq_true.1 hname b (hu.subset hb)
        obtain ⟨r, x, t, htext, hx⟩ := text_torn hs hplain
        exact members_of_text htext hx fuel

/-- After the name and the colon the value is read, and then what follows it. -/
theorem members_of_value (name : String) (u : Bytes) (fuel : Nat) :
    members (fuel + 1) (renderText name ++ 0x3A :: u) =
      match value fuel u with
      | none => none
      | some (v, rest) =>
        match skipSpace rest with
        | 0x2C :: rest => (members fuel rest).map fun r => ((some name, v) :: r.1, r.2)
        | 0x7D :: rest => some ([(some name, v)], rest)
        | _ => none := by
  rw [renderText, List.cons_append, List.cons_append, List.append_assoc,
    ← List.nil_append (0x22 :: _), members, skipSpace_blanks blanks_nil (by decide)]
  simp only [List.singleton_append, text_escaped]
  rfl

theorem members_of_stuck {name : String} {u : Bytes} {fuel : Nat}
    (h : Stuck (value fuel u)) :
    members (fuel + 1) (renderText name ++ 0x3A :: u) = none := by
  rw [members_of_value]
  rcases h with hnone | ⟨v, x, t, hsome, hx⟩
  · rw [hnone]
  · rw [hsome]
    simp only [skipSpace_foreign hx]
    split
    · next hcomma =>
        exact absurd (List.cons.inj hcomma).1 (ne_of_isForeign hx (by decide))
    · next hbrace =>
        exact absurd (List.cons.inj hbrace).1 (ne_of_isForeign hx (by decide))
    · rfl

/-- Where a name or a value breaks off, there is no member. -/
theorem members_torn {name : String} {v : Json} {s w : Bytes} {fuel : Nat}
    (hs : Opening s) (hm : TearsMember (name, v))
    (hw : w <+: renderText name ++ 0x3A :: v.compact) (hfuel : (w ++ s).length ≤ fuel) :
    members fuel (w ++ s) = none := by
  rcases prefix_append_cases hw with hname | ⟨w', rfl, hw'⟩
  · exact members_torn_name hs hm.1 hname fuel
  · cases w' with
    | nil =>
      rw [List.append_nil]
      exact members_torn_name hs hm.1 (List.prefix_refl _) fuel
    | cons b u =>
      obtain ⟨rfl, hu⟩ := List.cons_prefix_cons.1 hw'
      cases fuel with
      | zero => simp at hfuel
      | succ fuel =>
        have hless : (u ++ s).length ≤ fuel := by
          simp only [List.length_append, List.length_cons] at hfuel ⊢
          omega
        rw [List.append_assoc, List.cons_append]
        by_cases hne : u = []
        · -- The whole other text is the value, and nothing closes the object.
          subst hne
          obtain ⟨x, hread⟩ := hs.reads fuel hless
          rw [members_of_value, List.nil_append, hread]
          rfl
        · exact members_of_stuck (hm.2.2 s u fuel hs hu hne hless)

theorem value_compact (fuel : Nat) {v : Json} (hv : Plain v) {rest : Bytes}
    (hstops : Stops rest) (hfuel : v.compact.length ≤ fuel) :
    value fuel (v.compact ++ rest) = some (v, rest) :=
  (reads_all fuel).1 .compact v [] rest blanks_nil hv hfuel hstops

/-- Where the members break off, the reader gets stuck. -/
theorem stuck_members {s : Bytes} (hs : Opening s) (ms : List (String × Json))
    (hms : ∀ m ∈ ms, TearsMember m) (fuel : Nat) {name : String} {v : Json} {w : Bytes}
    (hm : TearsMember (name, v)) (hw : w <+: memberText name v ms)
    (hfuel : (w ++ s).length ≤ fuel) : Stuck (members fuel (w ++ s)) := by
  induction ms generalizing name v w fuel with
  | nil =>
    rcases prefix_concat_cases hw with rfl | hbegin
    · -- The object is complete, and the other text follows it.
      cases fuel with
      | zero => simp at hfuel
      | succ fuel =>
        obtain ⟨t, rfl, hforeign⟩ := hs.foreign
        have hread := value_compact fuel (v := v) hm.2.1
          (show Stops (0x7D :: 0x7B :: t) by simp [Stops]) (by
          simp only [List.length_append, List.length_cons] at hfuel
          omega)
        have hmembers : members (fuel + 1)
            ((renderText name ++ 0x3A :: v.compact) ++ [0x7D] ++ 0x7B :: t) =
            some ([(some name, v)], 0x7B :: t) := by
          rw [List.append_assoc, List.append_assoc, List.cons_append,
            List.singleton_append, members_of_value, hread]
          rfl
        exact .inr ⟨_, 0x7B, t, hmembers, hforeign⟩
    · exact .inl (members_torn hs hm hbegin hfuel)
  | cons m ms ih =>
    rcases prefix_append_cases hw with hbegin | ⟨w', rfl, hw'⟩
    · exact .inl (members_torn hs hm hbegin hfuel)
    · cases w' with
      | nil =>
        rw [List.append_nil] at hfuel ⊢
        exact .inl (members_torn hs hm (List.prefix_refl _) hfuel)
      | cons b u =>
        obtain ⟨other, x⟩ := m
        have htail : renderMembers .compact false ((other, x) :: ms) =
            0x2C :: memberText other x ms := by
          rw [renderMembers, memberText, compact]
          simp [Layout.inner, Layout.lineBreak, Layout.colon]
        rw [htail] at hw'
        obtain ⟨rfl, hu⟩ := List.cons_prefix_cons.1 hw'
        cases fuel with
        | zero => simp at hfuel
        | succ fuel =>
          simp only [List.length_append, List.length_cons] at hfuel
          have hread := value_compact fuel (v := v) hm.2.1
            (show Stops (0x2C :: (u ++ s)) by simp [Stops]) (by omega)
          have hnext := ih (fun m hm => hms m (List.mem_cons_of_mem _ hm)) fuel
            (hms (other, x) List.mem_cons_self) hu (by rw [List.length_append]; omega)
          have hmembers : members (fuel + 1)
              ((renderText name ++ 0x3A :: v.compact) ++ 0x2C :: u ++ s) =
              (members fuel (u ++ s)).map fun r => ((some name, v) :: r.1, r.2) := by
            rw [List.append_assoc, List.append_assoc, List.cons_append,
              List.cons_append, members_of_value, hread]
            rfl
          rw [hmembers]
          exact hnext.map _

theorem Tears.object {name : String} {v : Json} {ms : List (String × Json)}
    (h : ∀ m ∈ (name, v) :: ms, TearsMember m) :
    Tears (Json.object ((name, v) :: ms)) := by
  intro s w fuel hs hpart hne hfuel
  have htext : (Json.object ((name, v) :: ms)).compact =
      0x7B :: memberText name v ms := by
    rw [compact, render, renderMembers, memberText, compact]
    simp [Layout.inner, Layout.lineBreak, Layout.colon]
  rw [htext] at hpart
  obtain ⟨b, u, rfl⟩ := List.exists_cons_of_ne_nil hne
  obtain ⟨rfl, hu⟩ := List.cons_prefix_cons.1 hpart
  cases fuel with
  | zero => simp at hfuel
  | succ fuel =>
    have hmembers :=
      stuck_members hs ms (fun m hm => h m (List.mem_cons_of_mem _ hm)) fuel
      (h (name, v) List.mem_cons_self) hu (by simpa using hfuel)
    -- The members begin with a quote, and the other text with a brace: nothing
    -- closes the object at once.
    obtain ⟨c, t, hbegin, hspace, hbrace⟩ : ∃ c t, u ++ s = c :: t ∧ isSpace c = false ∧
      c ≠ 0x7D := by
      cases u with
      | nil =>
        obtain ⟨t, rfl, _⟩ := hs.foreign
        exact ⟨0x7B, t, rfl, by decide, by decide⟩
      | cons c u =>
        rw [memberText, renderText] at hu
        obtain ⟨rfl, _⟩ := List.cons_prefix_cons.1 hu
        exact ⟨0x22, _, rfl, by decide, by decide⟩
    have hskip : skipSpace (u ++ s) = c :: t := by
      rw [hbegin]
      exact skipSpace_blanks blanks_nil hspace t
    rw [List.cons_append, ← List.nil_append (0x7B :: (u ++ s)),
      value_object blanks_nil fuel hskip hbrace, ← hbegin]
    exact hmembers.map ofMembers

/-- A text that broke off, or did not, and another one after it are no text. -/
theorem parse?_torn {v : Json} {w s : Bytes} (hv : Tears v) (hs : Opening s)
    (hw : w <+: v.compact) (hne : w ≠ []) : parse? (w ++ s) = none := by
  rw [parse?]
  rcases hv s w _ hs hw hne (Nat.le_succ _) with hnone | ⟨a, x, t, hsome, hx⟩
  · rw [hnone]
  · rw [hsome]
    simp only [skipSpace_foreign hx]
    rfl

end Chronicle.Json

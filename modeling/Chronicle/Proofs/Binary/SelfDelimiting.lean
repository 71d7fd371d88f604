import Chronicle.Proofs.Binary.RoundTrip

/-!
# Binary forms delimit themselves

A reader looks no further than the bytes that it takes: where it finds a value, it
finds the same value when more bytes follow. A beginning of a written form is
therefore refused, since a reader that took a value from it would leave something of
the whole form over. For the same reason no written form begins with another one.

* `Steady.bind`: readers in sequence look no further than they take.
* `Reads.refuses`: what is cut off within a written form is refused.
* `Reads.eq_of_begins`: a written form that begins with another one is that other
  one.
* `binary_forms_delimit_themselves`: all of this for records and nodes.
-/

namespace Chronicle

namespace Binary

variable {α β : Type}

/-- Where the reader takes a value, it takes the same value when more bytes follow,
and leaves these. -/
def Steady (reader : Reader α) : Prop :=
  ∀ s a rest, reader s = .ok (a, rest) →
    ∀ more, reader (s ++ more) = .ok (a, rest ++ more)

theorem steady_pure (a : α) : Steady (pure a) := by
  intro s b rest h more
  cases h
  rfl

theorem steady_throw (fault : Fault) : Steady (throw fault : Reader α) := by
  intro s b rest h
  cases h

/-- A sequence of two readers that takes a value is two readings, one behind the
other. -/
theorem bind_eq_ok {x : Reader α} {f : α → Reader β} {s rest : Bytes} {b : β}
    (h : (x >>= f) s = .ok (b, rest)) :
    ∃ a between, x s = .ok (a, between) ∧ f a between = .ok (b, rest) := by
  change (x s >>= fun p => f p.1 p.2) = .ok (b, rest) at h
  cases hx : x s with
  | error fault =>
    rw [hx] at h
    cases h
  | ok p =>
    rw [hx] at h
    exact ⟨p.1, p.2, rfl, h⟩

theorem Steady.bind {x : Reader α} {f : α → Reader β} (hx : Steady x)
    (hf : ∀ a, Steady (f a)) : Steady (x >>= f) := by
  intro s b rest h more
  obtain ⟨a, between, hfirst, hsecond⟩ := bind_eq_ok h
  show (x (s ++ more) >>= fun p => f p.1 p.2) = _
  rw [hx s a between hfirst more]
  exact hf a between b rest hsecond more

theorem Steady.map {x : Reader α} (hx : Steady x) (f : α → β) :
    Steady (x >>= fun a => pure (f a)) :=
  hx.bind fun a => steady_pure (f a)

/-! ## Fields -/

theorem steady_take (n : Nat) (fault : Fault) : Steady (take n fault) := by
  intro s bs rest h more
  unfold take at h ⊢
  split at h
  · next hlength =>
    cases h
    have hle : n ≤ s.length := by
      rw [List.length_take] at hlength
      omega
    rw [List.take_append_of_le_length hle, List.drop_append_of_le_length hle,
      if_pos hlength]
  · cases h

theorem steady_uint64 : Steady uint64 := (steady_take 8 _).map _

theorem steady_uint32 : Steady uint32 := (steady_take 4 _).map _

theorem steady_text : Steady text := by
  apply steady_uint64.bind
  intro n
  apply (steady_take n.toNat _).bind
  intro bs
  cases Text.Utf8.decode bs with
  | ok t => exact steady_pure t
  | error f => exact steady_throw _

theorem steady_bytes : Steady bytes := steady_uint64.bind fun n => steady_take n.toNat _

theorem steady_digest : Steady digest := by
  apply steady_text.bind
  intro s
  cases Digest.ofHex s with
  | ok d => exact steady_pure d
  | error e => exact steady_throw _

theorem steady_timestamp : Steady timestamp :=
  steady_uint64.bind fun _ => steady_uint32.map _

/-! ## What follows for written forms -/

/-- A reader that took a value from a beginning of the form would take it from the
form, with something left. -/
theorem Reads.refuses {x : Reader α} {w p : Bytes} {a : α} (hx : Reads x w a)
    (hsteady : Steady x) (hp : p <+: w) (hne : p ≠ w) :
    ∃ fault, x.run' p = .error fault := by
  obtain ⟨missing, rfl⟩ := hp
  cases hread : x p with
  | error fault =>
    refine ⟨fault, ?_⟩
    show (·.1) <$> x p = _
    rw [hread]
    rfl
  | ok found =>
    -- The reader would leave at least what is missing, but it leaves nothing of the
    -- whole form.
    have hlonger := hsteady p found.1 found.2 hread missing
    have hwhole := hx []
    rw [List.append_nil, hlonger] at hwhole
    have hleft : found.2 ++ missing = [] := (Prod.mk.inj (Except.ok.inj hwhole)).2
    have hmissing : missing = [] := (List.append_eq_nil_iff.1 hleft).2
    rw [hmissing, List.append_nil] at hne
    exact absurd rfl hne

theorem Reads.eq_of_begins {x : Reader α} {w v : Bytes} {a b : α} (hw : Reads x w a)
    (hv : Reads x v b) (h : w <+: v) : w = v ∧ a = b := by
  obtain ⟨more, rfl⟩ := h
  have hboth := hv []
  rw [List.append_nil, hw more] at hboth
  cases hboth
  exact ⟨(List.append_nil w).symm, rfl⟩

/-- The forms of the values that fit are read back whatever follows them, are refused
when cut off, tell the values apart, and none of them begins with another one. -/
structure SelfDelimiting (written : α → Bytes) (read : Bytes → Except Fault α)
    (fits : α → Prop) : Prop where
  read_append : ∀ a, fits a → ∀ more, read (written a ++ more) = .ok a
  refuses_cut : ∀ a, fits a → ∀ p, p <+: written a → p ≠ written a →
    ∃ fault, read p = .error fault
  injective : ∀ a b, fits a → fits b → written a = written b → a = b
  prefix_free : ∀ a b, fits a → fits b → written a <+: written b → written a = written b

theorem selfDelimiting_run {reader : Reader α} {written : α → Bytes} {fits : α → Prop}
    (hreads : ∀ a, fits a → Reads reader (written a) a) (hsteady : Steady reader) :
    SelfDelimiting written reader.run' fits where
  read_append a ha := (hreads a ha).run_append
  refuses_cut a ha _ hp hne := (hreads a ha).refuses hsteady hp hne
  injective a b ha hb h := by
    have hprefix : written a <+: written b := h ▸ List.prefix_refl _
    exact ((hreads a ha).eq_of_begins (hreads b hb) hprefix).2
  prefix_free a b ha hb h := ((hreads a ha).eq_of_begins (hreads b hb) h).1

end Binary

open Binary

/-! ## Records and nodes -/

theorem Record.steady_reader : Steady reader :=
  steady_text.bind fun _ => steady_text.bind fun _ => steady_bytes.bind fun _ =>
    steady_digest.bind fun _ =>
    steady_timestamp.map _

theorem Record.selfDelimiting : SelfDelimiting toBinary ofBinary Sized :=
  selfDelimiting_run (fun _ hr => reads_of_sized hr) steady_reader

theorem Node.steady_reader : Steady reader :=
  Record.steady_reader.bind fun _ => steady_digest.bind fun _ => steady_digest.map _

theorem Node.selfDelimiting :
    SelfDelimiting toBinary ofBinary fun n => n.record.Sized :=
  selfDelimiting_run (fun _ hn => reads_of_sized hn) steady_reader

/-- Records and nodes are read back from their binary forms whatever follows, and
every cut within a form is noticed. -/
theorem Binary.binary_forms_delimit_themselves :
    SelfDelimiting Record.toBinary Record.ofBinary Record.Sized ∧
      SelfDelimiting Node.toBinary Node.ofBinary fun n => n.record.Sized :=
  ⟨Record.selfDelimiting, Node.selfDelimiting⟩

/-- A node of a record with an accent in its key is read with a byte behind it, and
refused without its last byte. -/
theorem Binary.binary_forms_delimit_themselves_accent :
    let node : Node :=
  ⟨⟨"note", "clé", [0, 255], Digest.ofByte 1, ⟨5, 0⟩⟩, Digest.zero, Digest.ofByte 2⟩
    node.record.Sized ∧ Node.ofBinary (node.toBinary ++ [7]) = .ok node ∧
      ∃ fault, Node.ofBinary node.toBinary.dropLast = .error fault := by
  intro node
  have hsized : node.record.Sized := ⟨by decide, by decide, by decide⟩
  have hform := binary_forms_delimit_themselves.2
  have hshorter : node.toBinary.dropLast ≠ node.toBinary := by
    intro hsame
    have hlength := congrArg List.length hsame
    rw [List.length_dropLast, Node.length_toBinary] at hlength
    omega
  exact ⟨hsized, hform.read_append node hsized [7],
    hform.refuses_cut node hsized _ (List.dropLast_prefix _) hshorter⟩

end Chronicle

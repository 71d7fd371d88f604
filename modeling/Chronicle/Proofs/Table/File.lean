import Chronicle.Proofs.Binary.RoundTrip
import Chronicle.Proofs.Frame.OnDisk
import Chronicle.Proofs.Table.Engine
import Chronicle.Table.File

/-!
# Tables in files are kept

The last byte of a row is written last, by a call that does its work if and only if
it says so. Whatever else an insertion leaves in the file is less than a frame and is
passed over.

* `Row.ofBinary?_toBinary`: a row is read back from its frame.
* `ofFile?_toFile`: a table is read back from its file, also if the file ends within
  a frame.
* `Filed.insert`: a row is in the table if and only if its insertion succeeded.
* `File.lawful`: the engine keeps its tables.
-/

namespace Chronicle

open Binary
open Frame (journal Framed Torn)

namespace Table

/-! ## Rows -/

/-- The bytes of the cell have a length that can be told, and the number in it is
none of more than eight bytes. -/
def Cell.Fits : Cell → Prop
  | .integer n => n.natAbs < UInt64.size
  | .text s => (Bytes.ofText s).length < UInt64.size
  | .blob bs => bs.length < UInt64.size

theorem Cell.reads_reader {c : Cell} (h : c.Fits) : Reads reader c.toBinary c := by
  have hnumber (n : Nat) (hn : n < UInt64.size) :
      Reads bytes (ofBytes (Bytes.littleEndian 8 n)) (Bytes.littleEndian 8 n) ∧
        Bytes.ofLittleEndian (Bytes.littleEndian 8 n) = n :=
    ⟨reads_bytes (by rw [Bytes.length_littleEndian]; decide),
      Bytes.ofLittleEndian_littleEndian 8 n hn⟩
  cases c with
  | integer n =>
    cases n with
    | ofNat n =>
      obtain ⟨hread, hvalue⟩ := hnumber n h
      have hrest := hread.map fun bs => Cell.integer (.ofNat (Bytes.ofLittleEndian bs))
      rw [hvalue] at hrest
      exact (reads_tag 0 _).bind hrest
    | negSucc n =>
      obtain ⟨hread, hvalue⟩ := hnumber n (Nat.lt_of_succ_lt h)
      have hrest := hread.map fun bs =>
        Cell.integer (.negSucc (Bytes.ofLittleEndian bs))
      rw [hvalue] at hrest
      exact (reads_tag 1 _).bind hrest
  | text s => exact (reads_tag 2 _).bind ((reads_text h).map _)
  | blob bs => exact (reads_tag 3 _).bind ((reads_bytes h).map _)

theorem Cell.fits_of_isStorable {c : Cell} (h : c.isStorable = true)
    (hlength : c.toBinary.length < UInt64.size) : c.Fits := by
  have hlimit : integerLimit < UInt64.size := by decide
  cases c with
  | integer n =>
    simp only [isStorable, Bool.and_eq_true, decide_eq_true_eq] at h
    exact show n.natAbs < UInt64.size by omega
  | text s =>
    simp only [toBinary, List.length_cons, length_ofText] at hlength
    exact show (Bytes.ofText s).length < UInt64.size by omega
  | blob bs =>
    simp only [toBinary, List.length_cons, length_ofBytes] at hlength
    exact show bs.length < UInt64.size by omega

structure Row.Fits (r : Row) : Prop where
  unixMs : r.unixMs.Fits
  logical : r.logical.Fits
  kind : r.kind.Fits
  key : r.key.Fits
  value : r.value.Fits
  signature : r.signature.Fits

theorem Row.ofBinary?_toBinary {r : Row} (h : r.Fits) :
    Row.ofBinary? r.toBinary = some r := by
  have hcells : Reads Row.reader
      (r.unixMs.toBinary ++ (r.logical.toBinary ++ (r.kind.toBinary ++
      (r.key.toBinary ++ (r.value.toBinary ++ r.signature.toBinary))))) r :=
    (Cell.reads_reader h.unixMs).bind ((Cell.reads_reader h.logical).bind
      ((Cell.reads_reader h.kind).bind ((Cell.reads_reader h.key).bind
        ((Cell.reads_reader h.value).bind ((Cell.reads_reader h.signature).map _)))))
  have hrun := hcells.run_append [0]
  simp only [List.append_assoc] at hrun
  simp only [ofBinary?, toBinary, List.append_assoc, hrun]
  rfl

/-- Rows that are not too long are read back. -/
theorem Row.fits_of_isStorable {r : Row} (h : r.isStorable = true)
    (hlength : r.toBinary.length < UInt64.size) : r.Fits := by
  simp only [isStorable, List.all_cons, List.all_nil, Bool.and_true, Bool.and_eq_true]
    at h
  simp only [toBinary, List.length_append, List.length_singleton] at hlength
  obtain ⟨hms, hlogical, hkind, hkey, hvalue, hsignature⟩ := h
  exact ⟨Cell.fits_of_isStorable hms (by omega),
    Cell.fits_of_isStorable hlogical (by omega),
    Cell.fits_of_isStorable hkind (by omega), Cell.fits_of_isStorable hkey (by omega),
    Cell.fits_of_isStorable hvalue (by omega),
    Cell.fits_of_isStorable hsignature (by omega)⟩

theorem Row.toBinary_ne_nil (row : Row) : row.toBinary ≠ [] :=
  List.append_ne_nil_of_right_ne_nil _ (List.cons_ne_nil _ _)

/-- The frame of a row ends with a zero. -/
theorem Row.dropLast_encode (row : Row) :
    (Frame.encode row.toBinary).dropLast ++ [0] = Frame.encode row.toBinary := by
  rw [Frame.encode, toBinary, ← List.append_assoc, List.dropLast_concat]

/-! ## Tables -/

/-- Every row is one that a file can have. -/
structure Storable (t : Table) : Prop where
  fits : ∀ row ∈ t, row.Fits
  framed : Framed (t.map Row.toBinary)

theorem storable_nil : Storable [] :=
  ⟨fun row hrow => (by cases hrow), Frame.framed_nil⟩

theorem takes_eq_true {t : Table} {row : Row} (h : File.takes t row = true) :
    row.Fits ∧ row.toBinary.length < Frame.payloadLimit ∧
      (toFile (t ++ [row])).length < Disk.sizeLimit := by
  have hlimit : File.rowLimit < Frame.payloadLimit := by decide
  have hlimit' : Frame.payloadLimit < UInt64.size := by decide
  simp only [File.takes, Bool.and_eq_true, decide_eq_true_eq] at h
  obtain ⟨⟨hcells, hrow⟩, hfile⟩ := h
  exact ⟨Row.fits_of_isStorable hcells (by omega), by omega, hfile⟩

theorem Storable.concat {t : Table} {row : Row} (h : Storable t)
    (htakes : File.takes t row = true) : Storable (t ++ [row]) := by
  obtain ⟨hfits, hlimit, _⟩ := takes_eq_true htakes
  refine ⟨?_, ?_⟩
  · intro x hx
    rcases List.mem_append.1 hx with hx | hx
    · exact h.fits x hx
    · rw [List.mem_singleton.1 hx]
      exact hfits
  · rw [List.map_append, List.map_singleton]
    exact h.framed.concat row.toBinary_ne_nil hlimit

theorem toFile_eq (t : Table) :
    t.toFile = fileSignature ++ journal (t.map Row.toBinary) := by
  rw [toFile, journal, List.flatMap_map]

theorem toFile_concat (t : Table) (row : Row) :
    toFile (t ++ [row]) = t.toFile ++ Frame.encode row.toBinary := by
  simp [toFile]

theorem lt_length_toFile (t : Table) : File.blankLimit < t.toFile.length := by
  have hsignature : fileSignature.length = 16 := rfl
  rw [toFile, List.length_append, hsignature, File.blankLimit]
  omega

theorem mapM_ofBinary? {t : Table} (h : ∀ row ∈ t, row.Fits) (offset : Nat) :
    (Frame.tilesOf offset (t.map Row.toBinary)).mapM
      (fun x => Row.ofBinary? x.payload) = some t := by
  induction t generalizing offset with
  | nil => rfl
  | cons row t ih =>
    rw [List.map_cons, Frame.tilesOf, List.mapM_cons,
      Row.ofBinary?_toBinary (h row List.mem_cons_self),
      ih (fun x hx => h x (List.mem_cons_of_mem _ hx))]
    rfl

theorem ofFile?_toFile {t : Table} {torn : Bytes} (h : t.Storable) (htorn : Torn torn) :
    ofFile? (t.toFile ++ torn) = some t := by
  rw [ofFile?, toFile_eq, List.append_assoc, List.take_left, List.drop_left,
    Frame.scan_journal h.framed htorn]
  simp only [beq_self_eq_true, Frame.scanOf_skipped, Bool.and_self, if_true,
    Frame.scanOf_intact]
  exact mapM_ofBinary? h.fits 0

/-! ## Files -/

/-- The file at the path is the table, and perhaps the beginning of one more frame. -/
structure Filed (p : Path) (id : Nat) (d : Disk) (t : Table) : Prop where
  sound : d.Sound
  stat : d.stat p = .ok (.file id)
  storable : t.Storable
  content : ∃ torn, d.content id = t.toFile ++ torn ∧ Torn torn
  /-- The path is not too long for a table. -/
  path : ¬File.pathLimit < p.place.toText.utf8ByteSize

namespace Filed

variable {p : Path} {id : Nat} {d d' : Disk} {t u : Table} {row : Row}

theorem entry (h : Filed p id d t) : d.entry? p.place = some (.file id) :=
  Disk.entry_of_stat h.stat

theorem present (h : Filed p id d t) : id < d.contents.length :=
  h.sound.lt_of_entry h.entry

theorem rows (h : Filed p id d t) : ofFile? (d.content id) = some t := by
  obtain ⟨torn, hcontent, htorn⟩ := h.content
  rw [hcontent, ofFile?_toFile h.storable htorn]

/-- Only the content of the file has changed. -/
theorem replaced (h : Filed p id d t) (hsound : d'.Sound) (htree : Disk.SameTree d d')
    (hu : u.Storable)
    (hcontent : ∃ torn, d'.content id = u.toFile ++ torn ∧ Torn torn) :
    Filed p id d' u :=
  ⟨hsound, (htree.stat p).trans h.stat, hu, hcontent, h.path⟩

theorem cut {r : Except Disk.Fault Unit} (h : Filed p id d t)
    (hcut : File.cut id t.toFile.length d = (r, d')) :
    Filed p id d' t ∧ Disk.Within (· = p.place) d d' ∧
      (r = .ok () → d'.content id = t.toFile) := by
  obtain ⟨torn, hcontent, htorn⟩ := h.content
  have hsize : d.size id = t.toFile.length + torn.length := by
    rw [Disk.size_eq, hcontent, List.length_append]
  rw [File.cut] at hcut
  split at hcut
  · next hless =>
    cases hcut
    have hnone : torn = [] := List.eq_nil_of_length_eq_zero (by omega)
    refine ⟨h, .refl h.sound _, fun _ => ?_⟩
    rw [hcontent, hnone, List.append_nil]
  · have hwithin := Disk.truncate_within (T := (· = p.place)) h.sound h.entry rfl hcut
    cases r with
    | error f =>
      obtain ⟨htree, hsame⟩ := Disk.truncate_error hcut
      have hcontent' : d'.content id = d.content id := by
        rw [Disk.content, hsame, Disk.content]
      exact ⟨h.replaced hwithin.sound htree h.storable
        ⟨torn, hcontent'.trans hcontent, htorn⟩, hwithin, fun hr => by cases hr⟩
    | ok u =>
      obtain ⟨htree, hall⟩ := Disk.truncate_ok h.present (by omega) hcut
      rw [hcontent, List.take_left] at hall
      refine ⟨h.replaced hwithin.sound htree h.storable ⟨[], ?_, Frame.torn_nil⟩,
        hwithin, fun _ => hall⟩
      rw [hall, List.append_nil]

/-- What is there of a frame is less than the frame as long as its last byte is
missing. -/
theorem torn_of_dropLast {written : Bytes} (htakes : File.takes t row = true)
    (h : written <+: (Frame.encode row.toBinary).dropLast) : Torn written := by
  refine ⟨row.toBinary, (takes_eq_true htakes).2.1,
    h.trans (List.dropLast_prefix _), ?_⟩
  have hlength := h.length_le
  rw [List.length_dropLast] at hlength
  have hpos : 0 < (Frame.encode row.toBinary).length := by
    rw [Frame.length_encode, Frame.headerSize]
    omega
  omega

theorem commit {r : Except Disk.Fault Unit} (h : Filed p id d t)
    (hall : d.content id = t.toFile) (htakes : File.takes t row = true)
    (hcommit : File.commit id (Frame.encode row.toBinary) d = (r, d')) :
    Disk.Within (· = p.place) d d' ∧ Disk.SameTree d d' ∧
      (r = .ok () → d'.content id = toFile (t ++ [row])) ∧
      (r ≠ .ok () → Filed p id d' t) := by
  rw [File.commit] at hcommit
  cases happend : d.append id (Frame.encode row.toBinary).dropLast with
  | mk a d₁ =>
    have hwithin₁ := Disk.append_within (T := (· = p.place)) h.sound h.entry rfl happend
    obtain ⟨htree₁, written, hwritten, hpart, hfull⟩ :=
      Disk.append_spec h.present happend
    have htorn := torn_of_dropLast htakes hpart
    have h₁ : Filed p id d₁ t :=
      h.replaced hwithin₁.sound htree₁ h.storable
        ⟨written, by rw [hwritten, hall], htorn⟩
    rw [happend] at hcommit
    cases a with
    | error f =>
      cases hcommit
      exact ⟨hwithin₁, htree₁, fun hr => (by cases hr), fun _ => h₁⟩
    | ok u =>
      simp only at hcommit
      have hwithin₂ :=
        Disk.truncate_within (T := (· = p.place)) h₁.sound h₁.entry rfl hcommit
      cases r with
      | error f =>
        obtain ⟨htree₂, hsame⟩ := Disk.truncate_error hcommit
        have hcontent' : d'.content id = d₁.content id := by
          rw [Disk.content, hsame, Disk.content]
        refine ⟨hwithin₁.trans hwithin₂, htree₁.trans htree₂,
          fun hr => (by cases hr), fun _ => ?_⟩
        exact h₁.replaced hwithin₂.sound htree₂ h.storable
          ⟨written, by rw [hcontent', hwritten, hall], htorn⟩
      | ok u =>
        obtain ⟨htree₂, hzero⟩ := Disk.truncate_succ h₁.present hcommit
        refine ⟨hwithin₁.trans hwithin₂, htree₁.trans htree₂, fun _ => ?_,
          fun hr => absurd rfl hr⟩
        rw [hzero, hwritten, hall, hfull rfl, List.append_assoc, Row.dropLast_encode,
          toFile_concat]

/-- A row is in the table if and only if its insertion succeeded. -/
theorem insert {x : Bool} (h : Filed p id d t)
    (hinsert : File.insert id row d = (x, d')) :
    Disk.Within (· = p.place) d d' ∧
      (x = true → File.takes t row = true ∧ Filed p id d' (t ++ [row]) ∧
        d'.content id = toFile (t ++ [row])) ∧
      (x = false → Filed p id d' t) := by
  rw [File.insert, h.rows] at hinsert
  simp only at hinsert
  split at hinsert
  · cases hinsert
    exact ⟨.refl h.sound _, fun hx => (by cases hx), fun _ => h⟩
  · next htakes =>
    have htakes : File.takes t row = true := by simpa using htakes
    cases hcut : File.cut id t.toFile.length d with
    | mk a d₁ =>
      obtain ⟨h₁, hwithin₁, hall⟩ := h.cut hcut
      rw [hcut] at hinsert
      cases a with
      | error f =>
        cases hinsert
        exact ⟨hwithin₁, fun hx => (by cases hx), fun _ => h₁⟩
      | ok u =>
        simp only at hinsert
        cases hcommit : File.commit id (Frame.encode row.toBinary) d₁ with
        | mk b d₂ =>
          obtain ⟨hwithin₂, htree, hdone, hrefused⟩ :=
            h₁.commit (hall rfl) htakes hcommit
          rw [hcommit] at hinsert
          cases b with
          | error f =>
            cases hinsert
            exact ⟨hwithin₁.trans hwithin₂, fun hx => (by cases hx),
              fun _ => hrefused fun hr => by cases hr⟩
          | ok u =>
            cases hinsert
            have hcontent := hdone rfl
            refine ⟨hwithin₁.trans hwithin₂, fun _ => ⟨htakes, ?_, hcontent⟩,
              fun hx => by cases hx⟩
            exact h₁.replaced hwithin₂.sound htree (h.storable.concat htakes)
              ⟨[], by rw [hcontent, List.append_nil], Frame.torn_nil⟩

/-- If nothing is in the way, a row is inserted for which there is room. -/
theorem insert_calm (h : Filed p id d t) (hcalm : d.Calm)
    (htakes : File.takes t row = true) :
    ∃ d', File.insert id row d = (true, d') := by
  have hlimit := (takes_eq_true htakes).2.2
  have hlength : (toFile (t ++ [row])).length =
      t.toFile.length + (Frame.encode row.toBinary).length := by
    rw [toFile_concat, List.length_append]
  have hcut : ∃ d₁, File.cut id t.toFile.length d = (.ok (), d₁) ∧ d₁.Calm := by
    rw [File.cut]
    split
    · exact ⟨d, rfl, hcalm⟩
    · exact hcalm.truncate id (show t.toFile.length < Disk.sizeLimit by omega)
  obtain ⟨d₁, hcut, hcalm₁⟩ := hcut
  obtain ⟨h₁, _, hall⟩ := h.cut hcut
  obtain ⟨d₂, happend, hcalm₂⟩ := hcalm₁.append id (Frame.encode row.toBinary).dropLast
  -- With its last byte the file has the size that was found to be possible.
  have hsize : d₂.size id + 1 < Disk.sizeLimit := by
    obtain ⟨_, written, hwritten, _, hfull⟩ := Disk.append_spec h₁.present happend
    have hframe := congrArg List.length (Row.dropLast_encode row)
    rw [List.length_append, List.length_singleton] at hframe
    rw [Disk.size_eq, hwritten, hall rfl, hfull rfl, List.length_append]
    omega
  obtain ⟨d₃, htruncate, _⟩ := hcalm₂.truncate id hsize
  rw [File.insert, h.rows]
  simp only [htakes, Bool.not_true, Bool.false_eq_true, if_false, hcut]
  rw [File.commit, happend]
  simp only [htruncate]
  exact ⟨d₃, rfl⟩

/-- A table is opened again as it is. -/
theorem connect (h : Filed p id d t) : File.connect p d = (some id, d) := by
  obtain ⟨torn, hcontent, _⟩ := h.content
  have hsize : ¬d.size id ≤ File.blankLimit := by
    have hlong := lt_length_toFile t
    rw [Disk.size_eq, hcontent, List.length_append]
    omega
  have hpath : ¬File.pathLimit < (p.foldl Path.step []).toText.utf8ByteSize := h.path
  rw [File.connect, if_neg hpath, (Disk.reopen_of_stat h.stat).2]
  simp only [if_neg hsize, h.rows, Option.isSome_some, if_true]

end Filed

theorem clear_ok {id : Nat} {d d' : Disk} (hid : id < d.contents.length)
    (h : File.clear id d = (.ok (), d')) :
    Disk.SameTree d d' ∧ d'.content id = toFile [] := by
  rw [File.clear] at h
  cases ht : d.truncate id 0 with
  | mk r d₁ =>
    rw [ht] at h
    cases r with
    | error f => cases h
    | ok u =>
      obtain ⟨htree, hcut⟩ := Disk.truncate_ok hid (Nat.zero_le _) ht
      obtain ⟨htree', written, hcontent, _, hall⟩ :=
        Disk.append_spec (htree.length ▸ hid) h
      refine ⟨htree.trans htree', ?_⟩
      rw [hcontent, hcut, hall rfl, List.take_zero, List.nil_append, toFile,
        List.flatMap_nil, List.append_nil]

theorem clear_within {id : Nat} {p : Path} {d d' : Disk} {r : Except Disk.Fault Unit}
    (hd : d.Sound) (hentry : d.entry? p.place = some (.file id))
    (h : File.clear id d = (r, d')) : Disk.Within (· = p.place) d d' := by
  rw [File.clear] at h
  cases ht : d.truncate id 0 with
  | mk a d₁ =>
    have hwithin := Disk.truncate_within (T := (· = p.place)) hd hentry rfl ht
    rw [ht] at h
    cases a with
    | error f =>
      cases h
      exact hwithin
    | ok u =>
      have htree := (Disk.truncate_ok (hd.lt_of_entry hentry) (Nat.zero_le _) ht).1
      exact hwithin.trans
        (Disk.append_within hwithin.sound ((htree.entry_eq _).trans hentry) rfl h)

/-- Nothing but the file is touched by opening it, and an empty one becomes an empty
table. -/
theorem connect_spec {p : Path} {d d' : Disk} {x : Option Nat} (hd : d.Sound)
    (h : File.connect p d = (x, d')) :
    Disk.Within (· = p.place) d d' ∧
      (Vacant p d → ∀ id, x = some id → Filed p id d' []) := by
  rw [File.connect] at h
  split at h
  · cases h
    exact ⟨.refl hd _, fun _ id hid => by cases hid⟩
  · next hpath =>
    cases hfile : d.openOrCreate p with
    | mk r d₁ =>
      obtain ⟨hwithin₁, hentry⟩ :=
        Disk.openOrCreate_within (T := (· = p.place)) hd rfl hfile
      rw [hfile] at h
      cases r with
      | error f =>
        cases h
        exact ⟨hwithin₁, fun _ id hid => by cases hid⟩
      | ok id =>
        have hentry := hentry id rfl
        have hempty : Vacant p d → d₁.stat p = .ok (.file id) ∧ d₁.content id = [] := by
          intro hvacant
          obtain ⟨_, hstat, ⟨hthere, rfl⟩ | ⟨_, hnew⟩⟩ :=
            Disk.openOrCreate_ok hd.wellFormed hfile
          · exact ⟨hstat, (hvacant _ id (.inl rfl) hentry).2⟩
          · exact ⟨hstat, hnew⟩
        simp only at h
        split at h
        · cases hclear : File.clear id d₁ with
          | mk a d₂ =>
            have hwithin₂ := clear_within hwithin₁.sound hentry hclear
            rw [hclear] at h
            cases a with
            | error f =>
              cases h
              exact ⟨hwithin₁.trans hwithin₂, fun _ id hid => by cases hid⟩
            | ok u =>
              cases h
              refine ⟨hwithin₁.trans hwithin₂, fun hvacant id' hid => ?_⟩
              cases hid
              obtain ⟨htree, htable⟩ :=
                clear_ok (hwithin₁.sound.lt_of_entry hentry) hclear
              exact ⟨hwithin₂.sound, (htree.stat p).trans (hempty hvacant).1,
                storable_nil,
                ⟨[], by rw [htable, List.append_nil], Frame.torn_nil⟩, hpath⟩
        · next hsize =>
          -- A file that is not empty was not vacant.
          have hnot : ¬Vacant p d := by
            intro hvacant
            rw [Disk.size_eq, (hempty hvacant).2] at hsize
            exact hsize (Nat.zero_le _)
          split at h
          · cases h
            exact ⟨hwithin₁, fun hvacant => absurd hvacant hnot⟩
          · cases h
            exact ⟨hwithin₁, fun _ id hid => by cases hid⟩

/-- Where two files are the same, an insertion leaves them the same. -/
theorem Filed.same {p : Path} {id : Nat} {d e : Disk} {t u : Table} (h : Filed p id d t)
    (h' : Filed p id e u) (hsame : Disk.SameOn (around p) d e) :
    t = u ∧ (d.Calm → e.Calm → ∀ row,
      Disk.SameOn (around p) (File.insert id row d).2 (File.insert id row e).2) := by
  have hcontent := hsame.content_eq (.inl rfl) h.entry h'.entry
  have hrows := h.rows
  rw [hcontent, h'.rows] at hrows
  obtain rfl := Option.some.inj hrows
  refine ⟨rfl, fun hcalm hcalm' row q hq => ?_⟩
  cases htakes : File.takes u row with
  | false =>
    have hnone : ∀ {d : Disk}, Filed p id d u → File.insert id row d = (false, d) := by
      intro d h
      rw [File.insert, h.rows]
      simp only [htakes, Bool.not_false, if_true]
    rw [hnone h, hnone h']
    exact hsame q hq
  | true =>
    obtain ⟨d₁, hinsert⟩ := h.insert_calm hcalm htakes
    obtain ⟨e₁, hinsert'⟩ := h'.insert_calm hcalm' htakes
    obtain ⟨hwithin, hdone, _⟩ := h.insert hinsert
    obtain ⟨hwithin', hdone', _⟩ := h'.insert hinsert'
    obtain ⟨_, hfiled, hfile⟩ := hdone rfl
    obtain ⟨_, hfiled', hfile'⟩ := hdone' rfl
    rw [hinsert, hinsert']
    by_cases hplace : q = p.place
    · subst hplace
      rw [Disk.item?_eq_file_iff.2 ⟨id, hfiled.entry, hfile⟩,
        Disk.item?_eq_file_iff.2 ⟨id, hfiled'.entry, hfile'⟩]
    · rw [hwithin.item_eq hplace, hwithin'.item_eq hplace]
      exact hsame q hq

/-- The engine keeps its tables. -/
instance File.lawful : LawfulEngine where
  Holds := Filed
  rows_of_holds h := h.rows
  turn h hspares := by
    obtain ⟨hstat, hcontent⟩ := hspares.stat h.stat
    exact ⟨hspares.sound, hstat, h.storable, hcontent ▸ h.content, h.path⟩
  connect_vacant hd hvacant h := (connect_spec hd h).2 hvacant _ rfl
  connect_holds h hconnect := by
    cases h.connect.symm.trans hconnect
    exact h
  connect_calm h _ := ⟨_, _, h.connect⟩
  connect_within hd h := (connect_spec hd h).1.mono fun _ hq => .inl hq
  insert_done h hinsert := ((h.insert hinsert).2.1 rfl).2.1
  insert_refused h hinsert := (h.insert hinsert).2.2 rfl
  insert_takes h hinsert := ((h.insert hinsert).2.1 rfl).1
  insert_calm h hcalm htakes := h.insert_calm hcalm htakes
  insert_within h hinsert := (h.insert hinsert).1.mono fun _ hq => .inl hq
  same h h' hsame := h.same h' hsame

end Table

end Chronicle

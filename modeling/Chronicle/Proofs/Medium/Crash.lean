import Chronicle.Proofs.Binary.Cut
import Chronicle.Proofs.Medium.InFrames

/-!
# Crashes and failed appends of media in frames

An append to the file of an archive or of the journal of a lineage can put down any
part of a frame and fail. The attempt to take the part back can fail too. Between two
openings the file can be cut at any byte. Nothing of that changes what a key reads,
but for the records whose frames were cut.

* `Frame.take_journal`: what a cut leaves of the frames.
* `Run`: what may happen to such a medium.
* `Run.stands`: what medium and file always have in common.
* `framed_media_lose_only_what_is_cut_off`: what can be read, written and opened at
  every step.
-/

namespace Chronicle

/-- A mishap before the last byte leaves less than all that was to be written. -/
theorem Disk.tears_of_mishap {d : Disk} {id stop : Nat} {bs : Bytes}
    {plan : List (Option Nat)} (hid : id < d.contents.length)
    (hplan : d.plan = some stop :: plan) (hstop : stop < bs.length) :
    d.Tears id bs := by
  intro f d' happend
  rw [append, draw, hplan] at happend
  cases happend
  right
  have hid' : id < ({ d with plan := plan } : Disk).contents.length := hid
  rw [extend_eq_setContent, size_eq, content_setContent hid', List.length_append,
    List.length_take, size_eq]
  show (d.content id).length + _ < _
  omega

/-! ## What a cut leaves of frames -/

namespace Frame

theorem Torn.of_part {t t' : Bytes} (h : Torn t) (hpart : t' <+: t) : Torn t' := by
  obtain ⟨p, hlimit, hbegin, hless⟩ := h
  exact ⟨p, hlimit, hpart.trans hbegin, Nat.lt_of_le_of_lt hpart.length_le hless⟩

/-- A cut leaves the frames that are whole before it, and less than the next one. -/
theorem take_journal {ps : List Bytes} {t : Bytes} (h : Framed ps) (ht : Torn t)
    (n : Nat) :
    ∃ t', (journal ps ++ t).take n =
      journal (ps.take (Bytes.wholeWithin n (ps.map encode))) ++ t' ∧ Torn t' := by
  by_cases hn : (journal ps).length ≤ n
  · have hall : Bytes.wholeWithin n (ps.map encode) = ps.length := by
      rw [Bytes.wholeWithin_of_le (by rw [flatten_map_encode]; exact hn),
        List.length_map]
    refine ⟨t.take (n - (journal ps).length), ?_, ht.of_part (List.take_prefix _ _)⟩
    rw [hall, List.take_length, List.take_append, List.take_of_length_le hn]
  · obtain ⟨rest, htake, hrest⟩ := Bytes.take_flatten n (ps.map encode)
    rw [← List.map_take, flatten_map_encode, flatten_map_encode] at htake
    refine ⟨rest, ?_, ?_⟩
    · rw [List.take_append_of_le_length (by omega), htake]
    · rcases hrest with rfl | ⟨f, hf, hpart, hless⟩
      · exact torn_nil
      · obtain ⟨q, hq, rfl⟩ := List.mem_map.1 hf
        exact ⟨q, (h q hq).2, hpart, hless⟩

end Frame

namespace Medium.InFrames

open Frame (journal Kept)

section

variable [Compression]
variable {x : InFrames} {p : Path} {file : Nat} {ready : Bool} {m m' : Medium}
    {d d' : Disk} {rs : List Record}

/-- The records whose frames are whole within the first `n` bytes of all frames. -/
def within (x : InFrames) (n : Nat) (rs : List Record) : List Record :=
  rs.take (Bytes.wholeWithin n ((x.payloads rs).map Frame.encode))

theorem length_journal_within (x : InFrames) (n : Nat) (rs : List Record) :
    (journal (x.payloads (x.within n rs))).length ≤ n := by
  rw [within, payloads_take, ← Frame.flatten_map_encode, List.map_take]
  exact Bytes.length_take_wholeWithin n _

/-- It is the longest beginning of the records that is within the bytes. -/
theorem within_longest {n : Nat} {qs : List Record} (hpart : qs <+: rs)
    (h : (journal (x.payloads qs)).length ≤ n) : qs <+: x.within n rs := by
  have hqs : qs = rs.take qs.length := List.prefix_iff_eq_take.1 hpart
  rw [hqs, payloads_take, ← Frame.flatten_map_encode, List.map_take] at h
  have hlength : qs.length ≤ ((x.payloads rs).map Frame.encode).length := by
    rw [List.length_map, length_payloads]
    exact hpart.length_le
  rw [hqs]
  exact List.take_prefix_take_left (Bytes.le_wholeWithin hlength h)

/-- A file that is cut keeps the records whose frames are left whole. -/
theorem kept_within {id n : Nat} {e : Disk} {bs : Bytes} {whole : Bool}
    (h : Kept d p file (x.payloads rs) whole) (he : e.WellFormed)
    (hstat : e.stat p = .ok (.file id)) (hread : d.read p = .ok bs)
    (hcut : e.content id = bs.take n) :
    Kept e p id (x.payloads (x.within n rs)) false := by
  obtain ⟨t, hcontent, ht, _⟩ := h.content
  rw [Disk.read_of_stat h.stat, hcontent] at hread
  cases hread
  obtain ⟨t', htake, ht'⟩ := Frame.take_journal h.framed ht n
  refine ⟨he, hstat, ?_, t', ?_, ht', fun hfalse => by cases hfalse⟩
  · rw [within, payloads_take]
    exact fun q hq => h.framed q (List.mem_of_mem_take hq)
  · rw [hcut, htake, within, payloads_take]

/-! ## Media that can take a record -/

theorem Stands.ready_iff (h : x.Stands p file ready m d rs) :
    m.Ready ↔ ready = true := by
  cases x with
  | archive =>
    obtain ⟨a, rfl, _, rfl, _⟩ := h.archive
    exact Iff.rfl
  | lineage =>
    obtain ⟨l, rfl, hj, _⟩ := h.lineage
    constructor
    · exact fun hready => hready _ hj
    · intro hready j hj'
      rw [hj] at hj'
      cases hj'
      exact hready

theorem Stands.tears {r : Record} (h : x.Stands p file ready m d rs)
    (hsafe : m.Safe r d) :
    d.Tears file (Frame.encode (m.payloadFor r)) := by
  cases x with
  | archive =>
    obtain ⟨a, rfl, rfl, _⟩ := h.archive
    exact hsafe.2
  | lineage =>
    obtain ⟨l, rfl, hj, _⟩ := h.lineage
    exact hsafe.2 _ hj

theorem Stands.legible_concat {r : Record} (h : x.Stands p file ready m d rs)
    (hlegible : x.Legible rs) (hsafe : m.Safe r d) : x.Legible (rs ++ [r]) := by
  cases x with
  | archive =>
    obtain ⟨a, rfl, _⟩ := h.archive
    intro s hs
    rcases List.mem_append.1 hs with hs | hs
    · exact hlegible s hs
    · rw [List.mem_singleton.1 hs]
      exact hsafe.1
  | lineage =>
    obtain ⟨l, rfl, _, hgraph⟩ := h.lineage
    have hapart := hsafe.1
    rw [hgraph] at hapart
    exact Graph.Fresh.concat hlegible hapart

theorem Stands.ready_withReady (h : x.Stands p file ready m d rs) (back : Bool) :
    (m.withReady back).Ready ↔ back = true := by
  cases x with
  | archive =>
    obtain ⟨a, rfl, _⟩ := h.archive
    exact Iff.rfl
  | lineage =>
    obtain ⟨⟨graph, journal⟩, rfl, rfl, _⟩ := h.lineage
    constructor
    · exact fun hready => hready _ rfl
    · intro hback j hj
      cases hj
      exact hback

/-! ## Runs -/

variable [Table.Engine]

/-- What a medium comes to, with the records that it has acknowledged and that no cut
took away. It is opened where there was nothing, records are written to it, its file
is cut and opened again on whatever disk it is then, and anything happens to the disk
but to that file. -/
inductive Run (x : InFrames) (p : Path) : Medium → Disk → List Record → Prop where
  | start {m : Medium} {d₀ d : Disk} (hd : d₀.WellFormed) (hvacant : Frame.Vacant d₀ p)
      (hopen : (x.appendOnly p).openOn d₀ = (.ok m, d)) : Run x p m d []
  | write {m m' : Medium} {d d' : Disk} {rs : List Record} {r : Record}
      {a : Answer Unit} (h : Run x p m d rs) (hsafe : m.Safe r d)
      (hwrite : m.write r d = (a, m', d')) :
      Run x p m' d' (if a = .done () then rs ++ [r] else rs)
  | crash {m m' : Medium} {d e d' : Disk} {rs : List Record} {bs : Bytes} {n : Nat}
      (h : Run x p m d rs) (hread : d.read p = .ok bs) (he : e.WellFormed)
      (hcut : e.read p = .ok (bs.take n))
      (hopen : (x.appendOnly p).openOn e = (.ok m', d')) : Run x p m' d' (x.within n rs)
  | turn {m : Medium} {d d' : Disk} {rs : List Record} (h : Run x p m d rs)
      (hd : d'.WellFormed) (hstat : d'.stat p = d.stat p)
      (hread : d'.read p = d.read p) : Run x p m d' rs

/-! ## What every run keeps -/

/-- A write that is acknowledged adds its record, and any other one adds nothing. -/
theorem Stands.write {r : Record} {a : Answer Unit} (h : x.Stands p file ready m d rs)
    (hlegible : x.Legible rs) (hsafe : m.Safe r d)
    (hwrite : m.write r d = (a, m', d')) :
    ∃ ready', x.Stands p file ready' m' d' (if a = .done () then rs ++ [r] else rs) ∧
      x.Legible (if a = .done () then rs ++ [r] else rs) := by
  by_cases ha : a = .done ()
  · subst ha
    rw [if_pos rfl]
    exact ⟨true, (h.write_ok hwrite).2.2, h.legible_concat hlegible hsafe⟩
  · rw [if_neg ha]
    obtain ⟨ready', h'⟩ := h.write_failed (h.tears hsafe) hwrite ha
    exact ⟨ready', h', hlegible⟩

theorem Run.stands (h : x.Run p m d rs) :
    ∃ file ready, x.Stands p file ready m d rs ∧ x.Legible rs := by
  induction h with
  | start hd hvacant hopen =>
    obtain ⟨file, hstands⟩ := openOn_vacant hd hvacant hopen
    exact ⟨file, true, hstands, x.legible_nil⟩
  | write _ hsafe hwrite ih =>
    obtain ⟨file, ready, hstands, hlegible⟩ := ih
    obtain ⟨ready', hnext⟩ := hstands.write hlegible hsafe hwrite
    exact ⟨file, ready', hnext⟩
  | crash _ hread he hcut hopen ih =>
    obtain ⟨file, ready, hstands, hlegible⟩ := ih
    obtain ⟨id, hstat, hcontent⟩ := Disk.stat_of_read hcut
    have hkept := kept_within hstands.kept he hstat hread hcontent
    exact ⟨id, true, (openOn_kept hkept (hlegible.take _).sized hopen).2,
      hlegible.take _⟩
  | turn _ hd hstat hread ih =>
    obtain ⟨file, ready, hstands, hlegible⟩ := ih
    exact ⟨file, ready, ⟨hstands.state, hstands.kept.of_same hd hstat hread⟩, hlegible⟩

/-! ## Writing -/

/-- A medium that could not take a part of a frame back takes nothing more, on
whatever disk. -/
theorem Stands.write_closed (h : x.Stands p file false m d rs) (r : Record) (e : Disk) :
    ∃ why, m.write r e = (.failed why, m, e) ∧
      if (m.payloadFor r).length < Frame.payloadLimit then ∃ w, why = .unavailable w
      else ∃ w, why = .unwritable w := by
  cases hwrite : m.write r e with
  | mk a rest =>
    obtain ⟨m', e'⟩ := rest
    rcases h.write_cases (fun hfalse => by cases hfalse) hwrite
      with ⟨hlong, ⟨w, rfl⟩, rfl, rfl⟩ | ⟨hfits, hcases⟩
    · refine ⟨_, rfl, ?_⟩
      rw [if_neg hlong]
      exact ⟨w, rfl⟩
    · rcases hcases with ⟨_, ⟨w, rfl⟩, rfl, rfl⟩ | ⟨hfalse, _⟩ | ⟨hfalse, _⟩
      · refine ⟨_, rfl, ?_⟩
        rw [if_pos hfits]
        exact ⟨w, rfl⟩
      · cases hfalse
      · cases hfalse

/-- A medium that takes records takes one whose frame is appended. -/
theorem Stands.write_appended {r : Record} (h : x.Stands p file true m d rs)
    (hfits : (m.payloadFor r).length < Frame.payloadLimit)
    (happend : d.append file (Frame.encode (m.payloadFor r)) = (.ok (), d')) :
    m.write r d = (.done (), m.taken r, d') := by
  cases hwrite : m.write r d with
  | mk a rest =>
    obtain ⟨m', e'⟩ := rest
    rcases h.write_cases (fun _ => rfl) hwrite with ⟨hlong, _⟩ |
      ⟨_, ⟨hfalse, _⟩ | ⟨_, happend', rfl, rfl⟩ | ⟨_, f, d₁, back, happend', _⟩⟩
    · exact absurd hfits hlong
    · cases hfalse
    · rw [happend] at happend'
      cases happend'
      rfl
    · rw [happend] at happend'
      cases happend'

/-- It takes records on if and only if it can take back what was written of a frame. -/
theorem Stands.write_torn {r : Record} {f : Disk.Fault} {d₁ : Disk} {back : Bool}
    (h : x.Stands p file true m d rs)
    (hfits : (m.payloadFor r).length < Frame.payloadLimit)
    (happend : d.append file (Frame.encode (m.payloadFor r)) = (.error f, d₁))
    (hback : d₁.rollBack file (d.size file) = (back, d')) :
    m.write r d = (.failed .disk, m.withReady back, d') := by
  cases hwrite : m.write r d with
  | mk a rest =>
    obtain ⟨m', e'⟩ := rest
    rcases h.write_cases (fun _ => rfl) hwrite with ⟨hlong, _⟩ |
      ⟨_, ⟨hfalse, _⟩ | ⟨_, happend', _⟩ |
      ⟨_, f', d₂, back', happend', hback', rfl, rfl⟩⟩
    · exact absurd hfits hlong
    · cases hfalse
    · rw [happend] at happend'
      cases happend'
    · rw [happend] at happend'
      cases happend'
      rw [hback] at hback'
      cases hback'
      rfl

/-! ## The medium at every step -/

/-- What holds of a medium with its file, whatever became of earlier appends. -/
structure Endures (x : InFrames) (p : Path) (file : Nat) (m : Medium) (d : Disk)
    (rs : List Record) : Prop where
  stat : d.stat p = .ok (.file file)
  /-- Each key reads the last record that was acknowledged for it and not cut off. -/
  read : ∀ key, m.read key d = .done ((Memory.ofRecords rs).read key)
  /-- While the medium takes records, it and its file are what the records lead to. -/
  ready : m.Ready → m = x.after p file rs ∧ d.read p = .ok (journal (x.payloads rs))
  /-- A record that is not acknowledged changes nothing that is read. -/
  answered : ∀ r a m' d', m.Safe r d → m.write r d = (a, m', d') →
    (a = .done () → m.Ready ∧ m' = m.taken r) ∧
    (a ≠ .done () → ∀ key, m'.read key d' = m.read key d)
  /-- A record whose frame can be appended is acknowledged. -/
  appended : ∀ r d', m.Ready → (m.payloadFor r).length < Frame.payloadLimit →
    d.append file (Frame.encode (m.payloadFor r)) = (.ok (), d') →
    m.write r d = (.done (), m.taken r, d')
  /-- If a frame could not be appended, the medium goes on taking records if and only
  if what was written of it could be taken back. -/
  torn : ∀ r f d₁ d' back, m.Ready → (m.payloadFor r).length < Frame.payloadLimit →
    d.append file (Frame.encode (m.payloadFor r)) = (.error f, d₁) →
    d₁.rollBack file (d.size file) = (back, d') →
    ∃ m', m.write r d = (.failed .disk, m', d') ∧ (m'.Ready ↔ back = true)
  /-- Otherwise it answers that it is unavailable, or that the record has no room in
  any frame, and nothing changes. -/
  closed : ∀ r e, ¬m.Ready → ∃ why, m.write r e = (.failed why, m, e) ∧
    if (m.payloadFor r).length < Frame.payloadLimit then ∃ w, why = .unavailable w
    else ∃ w, why = .unwritable w
  /-- Of the first bytes of the file the longest beginning of the records is left
  whose frames are whole. -/
  left : ∀ n, x.within n rs <+: rs ∧ (journal (x.payloads (x.within n rs))).length ≤ n ∧
    ∀ qs, qs <+: rs → (journal (x.payloads qs)).length ≤ n → qs <+: x.within n rs
  /-- The file can be cut at any byte: what is opened then is what the records lead
  to that are left, and the file ends where their frames end. -/
  reopened : ∀ n bs e, d.read p = .ok bs → e.WellFormed → e.read p = .ok (bs.take n) →
    (e.Calm → (bs.take n).length < Disk.sizeLimit →
      ∃ m' d', (x.appendOnly p).openOn e = (.ok m', d') ∧ d'.Calm) ∧
    ∀ m' d', (x.appendOnly p).openOn e = (.ok m', d') → x.Run p m' d' (x.within n rs) ∧
      (∃ id, m' = x.after p id (x.within n rs)) ∧
      d'.read p = .ok (journal (x.payloads (x.within n rs))) ∧
      ∀ key, m'.read key d' = .done ((Memory.ofRecords (x.within n rs)).read key)

/-- Every step of every run leaves the medium with the records that were acknowledged
and not cut off. -/
theorem framed_media_lose_only_what_is_cut_off (h : x.Run p m d rs) :
    ∃ file, x.Endures p file m d rs := by
  obtain ⟨file, ready, hstands, hlegible⟩ := h.stands
  have hopen {id : Nat} {rs : List Record} {m : Medium} {d : Disk}
      (hstands : x.Stands p id true m d rs) :
      d.read p = .ok (journal (x.payloads rs)) := by
    rw [Disk.read_of_stat hstands.kept.stat, hstands.kept.content_eq]
  refine ⟨file, hstands.kept.stat, hstands.read hlegible, ?_, ?_, ?_, ?_, ?_, ?_, ?_⟩
  · intro hready
    obtain rfl := hstands.ready_iff.1 hready
    exact ⟨hstands.state.trans (withReady_after x p file rs), hopen hstands⟩
  · intro r a m' d' hsafe hwrite
    constructor
    · rintro rfl
      obtain ⟨hready, htaken, _⟩ := hstands.write_ok hwrite
      exact ⟨hstands.ready_iff.2 hready, htaken⟩
    · intro ha key
      obtain ⟨ready', hnext⟩ := hstands.write_failed (hstands.tears hsafe) hwrite ha
      rw [hnext.read hlegible, hstands.read hlegible]
  · intro r d' hready
    obtain rfl := hstands.ready_iff.1 hready
    exact hstands.write_appended
  · intro r f d₁ d' back hready hfits happend hback
    obtain rfl := hstands.ready_iff.1 hready
    exact ⟨_, hstands.write_torn hfits happend hback, hstands.ready_withReady back⟩
  · intro r e hclosed
    have hfalse : ready = false :=
      Bool.eq_false_iff.2 fun hready => hclosed (hstands.ready_iff.2 hready)
    subst hfalse
    exact hstands.write_closed r e
  · exact fun n =>
      ⟨List.take_prefix _ _, length_journal_within x n rs, fun qs => within_longest⟩
  · intro n bs e hread he hcut
    obtain ⟨id, hstat, hcontent⟩ := Disk.stat_of_read hcut
    have hkept := kept_within hstands.kept he hstat hread hcontent
    constructor
    · intro hcalm hsize
      rw [← hcontent, Disk.length_content] at hsize
      exact openOn_kept_calm hkept hcalm hsize
    · intro m' d' hagain
      obtain ⟨rfl, hstands'⟩ := openOn_kept hkept (hlegible.take _).sized hagain
      exact ⟨h.crash hread he hcut hagain, ⟨id, rfl⟩, hopen hstands',
        hstands'.read (hlegible.take _)⟩

end

/-- An archive that has taken a record, and can put down three bytes of the next one
and not take them back. -/
theorem framed_media_lose_only_what_is_cut_off_threeBytes :
    ∃ (m : Medium) (d : Disk), archive.Run ["a"] m d [AppendOnly.pairOfOneKey.1] ∧
      ¬m.Ready ∧
      m.read "k" d = .done (some AppendOnly.pairOfOneKey.1) ∧
      ∃ why, m.write AppendOnly.pairOfOneKey.2 d =
        (.failed (.unavailable why), m, d) := by
  let r := AppendOnly.pairOfOneKey.1
  let r' := AppendOnly.pairOfOneKey.2
  let m₀ : Medium := .archive ⟨["a"], 0, 0, [], true⟩
  let d₀ : Disk := { entries := [((1, ["a"]), .file 0)], contents := [[]] }
  have hvacant : Frame.Vacant {} ["a"] := by
    intro bs hread
    cases hread
  have hopen : (archive.appendOnly ["a"]).openOn {} = (.ok m₀, d₀) := by
    with_unfolding_all rfl
  have h₀ : archive.Run ["a"] m₀ d₀ [] := .start Disk.wellFormed_empty hvacant hopen
  have hcalm : d₀.Calm := ⟨rfl, rfl⟩
  -- The first record is taken.
  obtain ⟨file, hendures₀⟩ := framed_media_lose_only_what_is_cut_off h₀
  obtain ⟨d₁, happend, _⟩ := hcalm.append file (Frame.encode (Archive.payload r))
  have hwrite := hendures₀.appended r d₁ rfl (by decide +kernel) happend
  have h₁ := h₀.write ⟨AppendOnly.sized_pairOfOneKey.1, hcalm.tears _ _⟩ hwrite
  rw [if_pos rfl] at h₁
  -- The second one is not.
  obtain ⟨file, ready, hstands, _⟩ := h₁.stands
  let d₂ : Disk := { d₁ with plan := [some 3, some 0] }
  have h₂ : archive.Run ["a"] (m₀.taken r) d₂ [r] :=
    h₁.turn hstands.kept.wellFormed rfl rfl
  have hlong : 3 < (Frame.encode (Archive.payload r')).length := by
    rw [Frame.length_encode]
    exact Nat.lt_add_right _ (by decide)
  have hsafe : (m₀.taken r).Safe r' d₂ := by
    obtain ⟨a, ha, rfl, _⟩ := hstands.archive
    cases ha
    exact ⟨AppendOnly.sized_pairOfOneKey.2,
      Disk.tears_of_mishap hstands.kept.present rfl hlong⟩
  obtain ⟨_, hendures₂⟩ := framed_media_lose_only_what_is_cut_off h₂
  obtain ⟨m, d, hfails, hready⟩ :
      ∃ m d, (m₀.taken r).write r' d₂ = (.failed .disk, m, d) ∧
      (m.Ready ↔ false = true) := by
    obtain ⟨m, hm⟩ :=
      hendures₂.torn r' .mishap _ _ false rfl (by decide +kernel) rfl rfl
    exact ⟨m, _, hm⟩
  have h₃ := h₂.write hsafe hfails
  rw [if_neg (by simp)] at h₃
  -- From then on the archive takes nothing, and reads what it has.
  have hclosed : ¬m.Ready := fun hyes => Bool.false_ne_true (hready.1 hyes)
  obtain ⟨_, hendures₃⟩ := framed_media_lose_only_what_is_cut_off h₃
  obtain ⟨why, hrefused, hwhy⟩ := hendures₃.closed r' d hclosed
  obtain ⟨_, _, hstands', _⟩ := h₃.stands
  obtain ⟨a, rfl, _⟩ := hstands'.archive
  have hfits : (Archive.payload r').length < Frame.payloadLimit := by decide +kernel
  rw [if_pos (show ((Medium.archive a).payloadFor r').length < _ from hfits)] at hwhy
  obtain ⟨w, rfl⟩ := hwhy
  exact ⟨_, d, h₃, hclosed, hendures₃.read "k", w, hrefused⟩

end Medium.InFrames

end Chronicle

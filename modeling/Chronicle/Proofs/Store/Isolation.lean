import Chronicle.Proofs.Ledger.Interchange
import Chronicle.Proofs.Ledger.Reopen
import Chronicle.Proofs.Medium.Locality
import Chronicle.Proofs.Store.Tandem

/-!
# Media that do not feel each other

Two stores with the same media are given the same calls. In one of them some medium
may fail, hang or break down where it works in the other one, and at different calls.
No other medium feels this: it answers every call alike in both stores, counts the
same and keeps the same, and both ledgers have a block for the same attempts with the
same index and the same timestamp. Only what the blocks say about acknowledgements
and their hashes are different.

Media that are in memory or have directories of their own below one directory do not
meet, and neither do they meet a ledger in memory or in a file elsewhere.

* `apart_dwells`: media that have different directories do not meet.
* `SideBySide.call`: stores with such media go on in tandem whatever they are called
  with.
* `failing_medium_is_not_felt`: what is alike about the other media, the answers and
  the ledgers.
-/

namespace Chronicle

namespace Ledger

variable {l l' : Ledger} {d e : Disk} {bs : List Block}

/-! ## Logs that nobody meets -/

variable {T : Path → Prop} {log log' : BlockLog} {d' : Disk}

/-- The log is in memory, or in a file outside of a part of the tree with nothing in
its way. -/
def BlockLog.Outside (T : Path → Prop) : BlockLog → Disk → Prop
  | .memory _, _ => True
  | .file l, d => d.Sound ∧ d.Calm ∧ ¬T l.path.place

/-- What happens in that part does not matter to the log. -/
theorem BlockLog.Outside.turn (h : log.Outside T d) (hw : Disk.Within T d d') :
    log.Kept d d' ∧ log.Outside T d' := by
  cases log with
  | memory blocks => exact ⟨kept_memory rfl d d', trivial⟩
  | file l =>
    obtain ⟨_, hcalm, hout⟩ := h
    refine ⟨?_, hw.sound, hw.calm hcalm, hout⟩
    rintro bs ⟨ls, hls, hbs⟩
    exact ⟨ls, hls.turn hw hout, hbs⟩

/-- What the log does is outside of that part. -/
theorem BlockLog.Outside.append {b : Block} {r : Except Error Unit}
    (h : log.Outside T d) (hholds : log.Holds d bs)
    (happend : log.append b d = (r, log', d')) :
    log'.Outside T d' ∧ (d' = d ∨ Disk.Within (fun q => ¬T q) d d') := by
  cases log with
  | memory blocks =>
    rw [BlockLog.append] at happend
    split at happend <;> cases happend <;> exact ⟨trivial, .inl rfl⟩
  | file l =>
    obtain ⟨hd, hcalm, hout⟩ := h
    obtain ⟨ls, hls, _⟩ := hholds
    obtain ⟨l', rfl, hl⟩ := append_file happend
    have hw := hls.append_within (T := fun q => ¬T q) hd hout hl
    exact ⟨⟨hw.sound, hw.calm hcalm, by rw [FileLog.path_append hl]; exact hout⟩,
      .inr hw⟩

theorem append_outside {now : Timestamp} {payload : Digest} {acks : UInt32}
    {a : Except (Failure Error) Block} (h : l.log.Outside T d)
    (hholds : l.log.Holds d bs)
    (happend : l.append now payload (decide (1 ≤ acks)) acks d = (a, l', d')) :
    l'.log.Outside T d' ∧ (d' = d ∨ Disk.Within (fun q => ¬T q) d d') := by
  rcases append_ends happend with ⟨b, log, _, _, _, hlog, rfl⟩ |
    ⟨x, _, rfl, rfl | ⟨b, _, hlog⟩⟩ | ⟨_, _, rfl, rfl⟩
  · exact h.append hholds hlog
  · exact ⟨h, .inl rfl⟩
  · exact h.append hholds hlog
  · exact ⟨h, .inl rfl⟩

/-- The next block is taken. -/
theorem BlockLog.Outside.append_next {b : Block} (h : log.Outside T d)
    (hindex : b.index.toNat = log.length) :
    (log.append b d).1 = .ok () := by
  cases happend : log.append b d with
  | mk r rest =>
    obtain ⟨log', d'⟩ := rest
    cases r with
    | ok u => rfl
    | error x =>
      obtain rfl := append_error_of_eq hindex happend
      cases log with
      | memory blocks =>
        rw [BlockLog.length] at hindex
        rw [BlockLog.append, if_neg (not_not_intro hindex)] at happend
        cases happend
      | file l => exact absurd rfl (append_of_calm h.2.1 happend).1

/-- Logs of the same length answer alike, wherever they are. -/
theorem logsAnswerAlike (h : log.Outside T d) (h' : log'.Outside T e)
    (hlength : log.length = log'.length) :
    LogsAnswerAlike log d log' e where
  alike b c hentry := by
    by_cases hindex : b.index.toNat = log.length
    · rw [h.append_next hindex,
        h'.append_next (by rw [← hentry.index, hindex, hlength])]
    · rw [BlockLog.append_of_ne hindex,
        BlockLog.append_of_ne (show c.index.toNat ≠
          log'.length by rwa [← hentry.index, ← hlength]), hlength,
        hentry.index]
  rollsBack b := by
    have hback : ∀ {log : BlockLog} {d : Disk}, log.Outside T d →
        log.RollsBack b d := by
      intro log d h
      cases log with
      | memory blocks => trivial
      | file l => exact BlockLog.rollsBack_calm _ b h.2.1.plan h.2.1.limit
    exact ⟨hback h, hback h'⟩

end Ledger

namespace Store

open Medium (Adapter)

variable {μ : Type} [Adapter μ] {At : Nat → μ → Disk → Prop}
    {Same : Nat → Disk → Disk → Prop} {s t : Store μ}
  {d e : Disk} {i k : Nat} {xs ys : List (Except Error Receipt)}

/-! ## Media below one directory -/

section

open Medium (Kind InMemory Settled)

variable {dir : Path} {kinds : Nat → Option Kind} {m : Medium} {d' : Disk}

/-- No two media have the same directory. -/
def EachOnce (kinds : Nat → Option Kind) : Prop :=
  ∀ k l kind, kinds k = some kind → kinds l = some kind → k = l

/-- The disks have the same in the directory of the `k`-th medium, if it has one. -/
def SameHome (dir : Path) (kinds : Nat → Option Kind) (k : Nat) (d e : Disk) : Prop :=
  ∀ kind, kinds k = some kind → Disk.SameOn (kind.territory dir) d e

/-- What belongs to the media. -/
def homes (dir : Path) (kinds : Nat → Option Kind) (q : Path) : Prop :=
  ∃ k kind, kinds k = some kind ∧ kind.territory dir q

theorem SameHome.of_within {T : Path → Prop} (hw : Disk.Within T d d')
    (hout : ∀ kind, kinds k = some kind → ∀ q, T q → ¬kind.territory dir q) :
    SameHome dir kinds k d d' :=
  fun kind hkind q hq => (hw.item_eq fun hT => hout kind hkind q hT hq).symm

variable [Compression] [Table.Engine] [Table.LawfulEngine]

/-- The medium is in memory, or it stands in a directory below `dir` that belongs to
the `k`-th medium. -/
def Dwells (dir : Path) (kinds : Nat → Option Kind) (k : Nat) (m : Medium)
    (d : Disk) : Prop :=
  InMemory m ∨ ∃ kind, kinds k = some kind ∧ Settled dir kind m d

theorem Dwells.write (h : Dwells dir kinds k m d) (r : Record) :
    Dwells dir kinds k (m.write r d).2.1 (m.write r d).2.2 ∧
      ((m.write r d).2.2 = d ∨ ∃ kind, kinds k = some kind ∧
        Disk.Within (kind.territory dir) d (m.write r d).2.2) := by
  rcases h with hm | ⟨kind, hkind, hsettled⟩
  · obtain ⟨a, m', hm', hwrite⟩ := hm.write_eq r
    rw [hwrite]
    exact ⟨.inl hm', .inl rfl⟩
  · obtain ⟨hafter, hwithin⟩ := hsettled.write (r := r) rfl
    exact ⟨.inr ⟨kind, hkind, hafter⟩, .inr ⟨kind, hkind, hwithin⟩⟩

/-- What happens elsewhere does not matter to a medium. -/
theorem Dwells.turn {T : Path → Prop} (h : Dwells dir kinds k m d)
    (hw : Disk.Within T d d')
    (hout : ∀ kind, kinds k = some kind → ∀ q, T q → ¬kind.territory dir q) :
    Dwells dir kinds k m d' := by
  rcases h with hm | ⟨kind, hkind, hsettled⟩
  · exact .inl hm
  · exact .inr ⟨kind, hkind, hsettled.turn hw (hout kind hkind)⟩

/-- Media that have different directories do not meet. -/
theorem apart_dwells (dir : Path) (hkinds : EachOnce kinds) :
    Apart (Dwells dir kinds) (SameHome dir kinds) where
  same k := by
    refine ⟨fun d kind _ => ?_, fun h kind hkind => ?_, fun h h' kind hkind => ?_⟩
    · exact (Disk.equivalence_sameOn _).refl d
    · exact (Disk.equivalence_sameOn _).symm (h kind hkind)
    · exact (Disk.equivalence_sameOn _).trans (h kind hkind) (h' kind hkind)
  write {k m d e} r hd he hsame := by
    by_cases hm : InMemory m
    · obtain ⟨a, m', _, hwrite⟩ := hm.write_eq r
      show (m.write r d).1 = (m.write r e).1 ∧ (m.write r d).2.1 = (m.write r e).2.1 ∧
        SameHome dir kinds k (m.write r d).2.2 (m.write r e).2.2
      rw [hwrite, hwrite]
      exact ⟨rfl, rfl, hsame⟩
    · obtain ⟨kind, hkind, hsettled⟩ := hd.resolve_left hm
      obtain ⟨_, hkind', hsettled'⟩ := he.resolve_left hm
      cases hkind.symm.trans hkind'
      obtain ⟨hanswer, hmedium, hafter⟩ :=
        hsettled.write_same hsettled' (hsame kind hkind) r
      refine ⟨hanswer, hmedium, fun kind' hkind' => ?_⟩
      cases hkind.symm.trans hkind'
      exact hafter
  read {k m d e} key hd he hsame := by
    by_cases hm : InMemory m
    · exact hm.read_eq key d e
    · obtain ⟨kind, hkind, hsettled⟩ := hd.resolve_left hm
      obtain ⟨_, hkind', hsettled'⟩ := he.resolve_left hm
      cases hkind.symm.trans hkind'
      exact hsettled.read_same hsettled' (hsame kind hkind) key
  own r hd := (hd.write r).1
  others {k l m d} r hd hl := by
    rcases (hd.write r).2 with hsame | ⟨kind, hkind, hwithin⟩
    · show SameHome dir kinds l d (m.write r d).2.2 ∧
        ∀ m', Dwells dir kinds l m' d → Dwells dir kinds l m' (m.write r d).2.2
      rw [hsame]
      exact ⟨fun _ _ _ _ => rfl, fun _ h => h⟩
    · -- A place that belongs to both media would make them one.
      have hout : ∀ kind', kinds l = some kind' → ∀ q, kind.territory dir q →
          ¬kind'.territory dir q := by
        intro kind' hkind' q hq hq'
        rw [← Kind.eq_of_territory hq hq'] at hkind'
        exact hl (hkinds l k kind hkind' hkind)
      exact ⟨.of_within hwithin hout, fun m' hm' => hm'.turn hwithin hout⟩

/-- Handing out a record changes what belongs to the media, and nothing else. -/
theorem dispatch_homes {n : Nat} {ms : List (Member Medium)}
    (hkinds : EachOnce kinds) (slots : Nat) (r : Record)
    (h : Placed (Dwells dir kinds) n ms d) :
    (dispatch slots r ms d).2.2 = d ∨
      Disk.Within (homes dir kinds) d (dispatch slots r ms d).2.2 := by
  induction ms generalizing n d with
  | nil => exact .inl rfl
  | cons m ms ih =>
    obtain ⟨hfirst, hrest⟩ := (apart_dwells dir hkinds).placed_tail slots r h
    have hwrite : (m.write slots r d).2.2 = d ∨
        Disk.Within (homes dir kinds) d (m.write slots r d).2.2 := by
      rw [Member.write]
      rcases m.call_cases slots (fun medium d => Adapter.write medium r d) d
        with hcall | ⟨held, hcall⟩ <;> simp only [hcall]
      · exact .inl trivial
      · rcases (hfirst.write r).2 with hsame | ⟨kind, hkind, hwithin⟩
        · exact .inl hsame
        · exact .inr (hwithin.mono fun q hq => ⟨n, kind, hkind, hq⟩)
    have hothers := ih hrest
    show (dispatch slots r ms (m.write slots r d).2.2).2.2 = d ∨
      Disk.Within (homes dir kinds) d (dispatch slots r ms (m.write slots r d).2.2).2.2
    rcases hwrite with hsame | hwithin
    · rw [hsame] at hothers ⊢
      exact hothers
    · rcases hothers with hsame | hwithin'
      · rw [hsame]
        exact .inr hwithin
      · exact .inr (hwithin.trans hwithin')

/-- Below one directory, with the ledger in memory or in a file elsewhere, media and
ledger leave each other alone. -/
theorem Call.keepsApart {c : Call} {s : Store Medium} {bs : List Block}
    (hkinds : EachOnce kinds) (hplaced : Placed (Dwells dir kinds) 0 s.members d)
    (hlog : s.ledger.log.Outside (homes dir kinds) d) (hholds : s.ledger.log.Holds d bs)
    (hc : c.Valid) :
    (s.ledger.log.Kept d (c.handOut s d).2.2 ∧
        s.ledger.log.Outside (homes dir kinds) (c.handOut s d).2.2) ∧
      (c.make s d).2.1.ledger.log.Outside (homes dir kinds) (c.make s d).2.2 ∧
      ∀ k, SameHome dir kinds k (c.handOut s d).2.2 (c.make s d).2.2 ∧
        ∀ m, Dwells dir kinds k m (c.handOut s d).2.2 →
        Dwells dir kinds k m (c.make s d).2.2 := by
  have hhanded : s.ledger.log.Kept d (c.handOut s d).2.2 ∧
      s.ledger.log.Outside (homes dir kinds) (c.handOut s d).2.2 := by
    rcases dispatch_homes hkinds s.slots c.record hplaced with hsame | hwithin
    · rw [Call.handOut, hsame]
      exact ⟨fun _ h => h, hlog⟩
    · exact hlog.turn hwithin
  refine ⟨hhanded, ?_⟩
  cases henter : c.enter s d with
  | mk a rest =>
    obtain ⟨l, d'⟩ := rest
    rw [c.make_of_enter hc henter]
    obtain ⟨hafter, hdisk⟩ :=
      Ledger.append_outside hhanded.2 (hhanded.1 bs hholds) henter
    refine ⟨hafter, ?_⟩
    intro k
    rcases hdisk with rfl | hwithin
    · exact ⟨fun _ _ _ _ => rfl, fun _ h => h⟩
    · have hout : ∀ kind, kinds k = some kind → ∀ q, ¬homes dir kinds q →
          ¬kind.territory dir q :=
        fun kind hkind q hq hin => hq ⟨k, kind, hkind, hin⟩
      exact ⟨.of_within hwithin hout, fun m hm => hm.turn hwithin hout⟩

/-- Stores that run in tandem, with media that are in memory or below one directory
and ledgers that are elsewhere. -/
structure SideBySide (dir : Path) (kinds : Nat → Option Kind) (i : Nat)
    (s : Store Medium) (d : Disk) (t : Store Medium) (e : Disk)
    (xs ys : List (Except Error Receipt)) : Prop where
  tandem : Tandem (Dwells dir kinds) (SameHome dir kinds) i s d t e xs ys
  logs : s.ledger.log.Outside (homes dir kinds) d ∧
    t.ledger.log.Outside (homes dir kinds) e

variable {s t : Store Medium}

/-- Such stores go on in tandem whatever they are called with. -/
theorem SideBySide.call (h : SideBySide dir kinds i s d t e xs ys)
    (hkinds : EachOnce kinds) (c : Call) :
    SideBySide dir kinds i (c.make s d).2.1 (c.make s d).2.2 (c.make t e).2.1
      (c.make t e).2.2 (xs ++ [(c.make s d).1]) (ys ++ [(c.make t e).1]) := by
  obtain ⟨htwins, _, bs, cs, hbook⟩ :=
  h.tandem.alike (apart_dwells dir hkinds) namesStay_medium
  by_cases hc : c.Valid
  · obtain ⟨hkept, hafter, hmedia⟩ :=
      c.keepsApart hkinds htwins.placed.1 h.logs.1 hbook.holds.1 hc
    obtain ⟨hkept', hafter', hmedia'⟩ :=
      c.keepsApart hkinds htwins.placed.2 h.logs.2 hbook.holds.2 hc
    have hlength : s.ledger.log.length = t.ledger.log.length := by
      rw [hbook.holds.1.shows.length, hbook.holds.2.shows.length,
        hbook.entries.length_eq]
    have halike := Ledger.logsAnswerAlike hkept.2 hkept'.2 hlength
    exact ⟨h.tandem.call c fun _ => ⟨⟨hkept.1, hkept'.1⟩, halike, hmedia, hmedia'⟩,
      hafter, hafter'⟩
  · refine ⟨h.tandem.call c fun hvalid => absurd hvalid hc, ?_⟩
    obtain ⟨x, hx⟩ := c.prepare_of_not_valid hc
    rw [c.make_of_prepare_error hx, c.make_of_prepare_error hx]
    exact h.logs

/-- At any time the `i`-th medium of one of them can become another one of its name. -/
theorem SideBySide.exchange {m : Member Medium}
    (h : SideBySide dir kinds i s d t e xs ys) (hkinds : EachOnce kinds)
    (hm : t.members[i]? = some m) (m' : Member Medium)
    (hsame : (m'.name, m'.acks, m'.failures) = (m.name, m.acks, m.failures))
    (hat : Dwells dir kinds i m'.medium e) :
    SideBySide dir kinds i s d (t.exchange i m') e xs ys :=
  ⟨h.tandem.exchange (apart_dwells dir hkinds) namesStay_medium hm m' hsame hat, h.logs⟩

end

/-- Two stores were given the same calls, and the `i`-th medium did in one of them
something else than in the other one, at whichever calls. Every other medium is the
same in both stores, has counted the same and keeps the same: all keys read alike.
All calls were answered alike about all other media. Both ledgers have the same
length, and their blocks have the same indices, payloads and timestamps. -/
theorem failing_medium_is_not_felt (hapart : Apart At Same) (hnames : NamesStay μ)
    (h : Tandem At Same i s d t e xs ys) :
    (∀ k ≠ i, s.members[k]? = t.members[k]? ∧ Same k d e ∧
      ∀ m key, s.members[k]? = some m →
      (m.read s.slots key d).1 = (m.read t.slots key e).1) ∧
      List.Forall₂ (SameAnswer s.names i) xs ys ∧ s.ledger.length = t.ledger.length ∧
      ∃ bs cs, s.ledger.log.Shows d bs ∧ t.ledger.log.Shows e cs ∧
      List.Forall₂ Block.SameEntry bs cs := by
  obtain ⟨htwins, hanswers, bs, cs, hbook⟩ := h.alike hapart hnames
  refine ⟨?_, hanswers, ?_, bs, cs, hbook.holds.1.shows, hbook.holds.2.shows,
    hbook.entries⟩
  · intro k hk
    refine ⟨htwins.members k hk, htwins.parts k hk, ?_⟩
    intro m key hm
    have hat := htwins.placed.1 k m hm
    have hat' := htwins.placed.2 k m (htwins.members k hk ▸ hm)
    rw [Nat.zero_add] at hat hat'
    rw [← htwins.slots]
    exact hapart.read_member s.slots key hat hat' (htwins.parts k hk)
  · rw [Ledger.length, Ledger.length, Ledger.tail?, Ledger.tail?, hbook.poisoned]
    split
    · rfl
    · exact congrArg Except.ok hbook.nextIndex

/-! ## A medium that fails beside two that work -/

section

open Medium (Kind)

/-- A medium in memory, and two below `data`. -/
def threeMedia (first last : Medium) : Store Medium :=
  ⟨[⟨first, 0, 0, 0⟩, ⟨.files ⟨.document, ["data", "documents"], 0⟩, 0, 0, 0⟩,
    ⟨last, 0, 0, 0⟩], Ledger.inMemory, 4, 1000⟩

/-- The directories of the two. -/
def twoHomes : Nat → Option Kind
  | 1 => some .document
  | 2 => some .archive
  | _ => none

theorem eachOnce_twoHomes : EachOnce twoHomes := by
  intro k l kind hk hl
  rw [twoHomes.eq_def] at hk hl
  split at hk <;> split at hl <;> cases hk <;> cases hl <;> rfl

/-- The media can be opened on an empty disk. -/
theorem exists_placed_threeMedia (first : Medium) (hfirst : Medium.InMemory first) :
    ∃ (last : Medium) (d : Disk), last.name = "archive" ∧
      Placed (Dwells ["data"] twoHomes) 0 (threeMedia first last).members d := by
  have hok : (Disk.makeDirectories {} ["data"]).1 = .ok () := rfl
  have hdocuments :
      (Medium.openIn .document ["data"] (Disk.makeDirectories {} ["data"]).2).1 =
      .ok (.files ⟨.document, ["data", "documents"], 0⟩) := rfl
  have harchive : (Medium.openIn .archive ["data"]
      (Medium.openIn .document ["data"]
        (Disk.makeDirectories {} ["data"]).2).2).1.toOption.isSome = true := rfl
  generalize hmade : Disk.makeDirectories {} ["data"] = x₀ at hok hdocuments harchive
  obtain ⟨_, d₀⟩ := x₀
  cases hok
  generalize hopen₁ : Medium.openIn .document ["data"] d₀ = x₁ at hdocuments harchive
  obtain ⟨_, d₁⟩ := x₁
  cases hdocuments
  generalize hopen₂ : Medium.openIn .archive ["data"] d₁ = x₂ at harchive
  obtain ⟨_ | last, d₂⟩ := x₂
  · cases harchive
  -- Nothing but the directory `data` is on the disk at first.
  obtain ⟨hwithin₀, hfound⟩ :=
    Disk.makeDirectories_within (T := fun q => q.length ≤ 1) Disk.sound_empty (by
    intro part hpart _
    have hparts : part = [] ∨ part = ["data"] := by
      simpa [List.prefix_cons_iff] using hpart
    rcases hparts with rfl | rfl <;> decide) hmade
  have hdir := hfound rfl
  have hnone (kind : Kind) (q : Path) (hq : kind.territory ["data"] q) : d₀.entry? q =
      none := by
    have hlong : 2 ≤ q.length := by
      rw [Kind.territory, Kind.place_home] at hq
      exact hq.length_le
    rw [hwithin₀.entry q (by omega), Disk.entry?, if_neg (by rintro rfl; cases hlong)]
    rfl
  obtain ⟨hsettled₁, hwithin₁⟩ :=
    Medium.settled_of_openIn hwithin₀.sound (hwithin₀.calm ⟨rfl, rfl⟩) hdir
    (hnone .document) (by rw [Medium.Files.Roomy]; decide) hopen₁
  have hnone₁ (q : Path) (hq : Kind.archive.territory ["data"] q) : d₁.entry? q =
      none := by
    rw [hwithin₁.entry q fun hin => Kind.noConfusion (Kind.eq_of_territory hq hin)]
    exact hnone .archive q hq
  obtain ⟨hsettled₂, hwithin₂⟩ :=
    Medium.settled_of_openIn hwithin₁.sound hsettled₁.calm (hwithin₁.find hdir) hnone₁
    (by rw [Medium.Files.Roomy]; decide) hopen₂
  have hsettled := hsettled₁.turn hwithin₂ fun q hq hin =>
    Kind.noConfusion (Kind.eq_of_territory hq hin)
  refine ⟨last, d₂, hsettled₂.standing.name, ?_⟩
  intro k m hm
  rw [Nat.zero_add]
  rcases k with _ | _ | _ | k <;> cases hm
  · exact .inl hfirst
  · exact .inr ⟨.document, rfl, hsettled⟩
  · exact .inr ⟨.archive, rfl, hsettled₂⟩

/-- A medium in memory that is named `a`. -/
def standIn (mode : Medium.Mode) : Medium :=
  .rehearsal { inner := { name := "a" }, writing := mode }

/-- The medium in memory does not come back from the first call and breaks down in
the second one. In the other store it works. -/
theorem failing_medium_is_not_felt_standIn :
    ∃ (s t : Store Medium) (d e : Disk) (xs ys : List (Except Error Receipt)),
      Tandem (Dwells ["data"] twoHomes) (SameHome ["data"] twoHomes) 0 s d t e xs ys ∧
      xs.length = 2 ∧
      s.names = ["a", "document", "archive"] ∧ s.members[0]?.map (·.failures) = some 0 ∧
      t.members[0]?.map (·.failures) = some 2 ∧
      (∀ k ≠ 0, s.members[k]? = t.members[k]?) ∧
      List.Forall₂ (SameAnswer s.names 0) xs ys ∧
      s.ledger.length = t.ledger.length := by
  obtain ⟨last, d, hname, hplaced⟩ :=
    exists_placed_threeMedia (standIn .working) trivial
  have hapart := apart_dwells ["data"] eachOnce_twoHomes
  have hnames : (threeMedia (standIn .working) last).names =
      ["a", "document", "archive"] :=
    congrArg (fun name => ["a", "document", name]) hname
  have hinMemory (mode : Medium.Mode) (e : Disk) : Dwells ["data"] twoHomes 0
      (standIn mode) e := .inl trivial
  have hself := twins_self (i := 0) hapart (by rw [hnames]; decide) hplaced
  have hholds : Ledger.inMemory.log.Holds d [] := rfl
  have hstart : SideBySide ["data"] twoHomes 0 (threeMedia (standIn .working) last)
      d _ d [] [] :=
    ⟨.start hself rfl ⟨hholds, hholds⟩, trivial, trivial⟩
  have hhung := hstart.exchange eachOnce_twoHomes rfl ⟨standIn .hanging, 0, 0, 0⟩
    rfl (hinMemory _ d)
  have h₁ := hhung.call eachOnce_twoHomes (storeByte 1)
  obtain ⟨_, hm₁⟩ := Call.getElem?_make (i := 0) (m := ⟨standIn .working, 0, 0, 0⟩)
    (s := threeMedia (standIn .working) last) (valid_storeByte 1) rfl d
  obtain ⟨_, hn₁⟩ := Call.getElem?_make (i := 0) (m := ⟨standIn .hanging, 0, 0, 0⟩)
    (s := (threeMedia (standIn .working) last).exchange 0 ⟨standIn .hanging, 0, 0, 0⟩)
      (valid_storeByte 1) rfl d
  have hall := Call.names_make namesStay_medium (storeByte 1)
    (threeMedia (standIn .working) last) d
  have hslots := (storeByte 1).slots_make (threeMedia (standIn .working) last) d
  have hslots' := (storeByte 1).slots_make
    ((threeMedia (standIn .working) last).exchange 0 ⟨standIn .hanging, 0, 0, 0⟩) d
  generalize (storeByte 1).make (threeMedia (standIn .working) last) d = x
    at h₁ hm₁ hall hslots
  generalize (storeByte 1).make
    ((threeMedia (standIn .working) last).exchange 0 ⟨standIn .hanging, 0, 0, 0⟩) d = y
      at h₁ hn₁ hslots'
  have hbroke :=
    h₁.exchange eachOnce_twoHomes hn₁ ⟨standIn .breaking, 1, 0, 1⟩ rfl (hinMemory _ _)
  have h₂ := hbroke.call eachOnce_twoHomes (storeByte 2)
  obtain ⟨_, hm₂⟩ := Call.getElem?_make (valid_storeByte 2) hm₁ x.2.2
  obtain ⟨_, hn₂⟩ := Call.getElem?_make (i := 0) (m := ⟨standIn .breaking, 1, 0, 1⟩)
    (s := y.2.1.exchange 0 ⟨standIn .breaking, 1, 0, 1⟩) (valid_storeByte 2) (by
      rw [members_exchange, List.getElem?_set_self (List.getElem?_eq_some_iff.1 hn₁).1])
        y.2.2
  rw [hslots] at hm₂
  rw [show (y.2.1.exchange 0 ⟨standIn .breaking, 1, 0, 1⟩).slots = 4 from hslots']
    at hn₂
  obtain ⟨hothers, hanswers, hlength, _⟩ :=
    failing_medium_is_not_felt hapart namesStay_medium h₂.tandem
  refine ⟨_, _, _, _, _, _, h₂.tandem, rfl, ?_, by rw [hm₂]; rfl, by rw [hn₂]; rfl,
    fun k hk => (hothers k hk).1, hanswers, hlength⟩
  rw [Call.names_make namesStay_medium, hall, hnames]

end

end Store

end Chronicle

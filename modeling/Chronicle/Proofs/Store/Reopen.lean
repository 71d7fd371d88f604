import Mathlib.Data.List.Forall2
import Chronicle.Proofs.Ledger.Reopen
import Chronicle.Proofs.Medium.Neighbours
import Chronicle.Proofs.Store.Arrangement
import Chronicle.Proofs.Store.Attempt

/-!
# Stores that are opened again

A store is opened over an empty data directory, and then calls follow in any number.
As long as nothing is in the way of the disk, each medium and the ledger stay in a
state in which they can be opened again as they are, since none of them changes the
files of another.

* `Sits`: the store stands on the disk.
* `sits_of_openWith`, `Sits.call`, `Sits.reopen`: what opening gives, what a call
  leaves, and what opening again gives.
* `Session.sits`: the state after any number of calls.
* `reopened_store_loses_nothing`: the store that is opened again has the chain of the
  one before and recalls what that one recalled.
-/

namespace Chronicle

open Medium (Kind Standing Adapter)

/-! ## Where a configuration has its files -/

namespace Config

/-- The data directory. -/
def directory (c : Config) (base : Path) : Path := base.join c.dataDir

/-- The ledger file. -/
def ledgerFile (c : Config) (base : Path) : Path :=
  (c.directory base).join c.ledger.fileName

/-- The ledger is outside of the directories of the media: no part of its path leads
into one of them. -/
def LedgerApart (c : Config) (base : Path) : Prop :=
  ∀ k ∈ c.backends, ∀ part : Path, part <+: c.ledgerFile base →
    ∀ name names, part.place ≠ (k.home (c.directory base)).place ++ name :: names

theorem LedgerApart.eq_home {c : Config} {base part : Path} {k : Kind}
    (h : c.LedgerApart base) (hk : k ∈ c.backends) (hpart : part <+: c.ledgerFile base)
    (hin : k.territory (c.directory base) part.place) :
    part.place = (k.home (c.directory base)).place := by
  obtain ⟨names, hnames⟩ := hin
  cases names with
  | nil => rw [← hnames, List.append_nil]
  | cons name names => exact absurd hnames.symm (h k hk part hpart name names)

end Config

namespace Store

/-- The lengths in the record of a call have room in eight bytes, as the length of
anything in memory has. -/
def Call.Sized (c : Call) : Prop := (Record.sign c.kind c.key c.value c.taken).Sized

theorem Call.sized_of_prepare {c : Call} {r : Record} (h : c.Sized)
    (hr : prepare c.kind c.key c.value c.taken = .ok r) : r.Sized := by
  obtain ⟨_, rfl⟩ := prepare_eq_ok hr
  exact h

section

variable [Compression] [Table.Engine]

theorem stats_of_tail {s : Store Medium} {t : Ledger.Tail}
    (h : s.ledger.tail? = .ok t) :
    ∃ x, s.stats = .ok x ∧ x.chainLength = UInt64.ofNat t.nextIndex ∧
      x.totalRecords = UInt64.ofNat t.succeeded ∧
      x.failedAttempts = UInt64.ofNat (t.nextIndex - t.succeeded) := by
  rw [stats, h]
  exact ⟨_, rfl, rfl, rfl, rfl⟩

/-! ## Opening -/

theorem openWith_eq_ok_iff {c : Config} {base : Path} {d d' : Disk} {s : Store Medium} :
    openWith c base d = (.ok s, d') ↔ c.validate = .ok () ∧ ∃ d₁ media d₂ ledger,
      d.makeDirectories (c.directory base) = (.ok (), d₁) ∧
      openMedia (c.directory base) c.backends d₁ = (.ok media, d₂) ∧
      openLedger (c.ledgerFile base) c.ledger.syncMode d₂ = (.ok ledger, d') ∧
      Setup.build {
        media, ledger
        timeoutMs := c.timeoutMs.toNat
        maxParallel := c.maxParallel.toNat } = .ok s := by
  constructor
  · intro h
    rw [openWith] at h
    split at h
    · cases h
    · next hvalid =>
      simp only at h
      split at h
      · cases h
      · next d₁ hmake =>
        split at h
        · cases h
        · next media d₂ hmedia =>
          split at h
          · cases h
          · next ledger d₃ hledger =>
            split at h
            · next hbuild =>
              cases h
              exact ⟨hvalid, d₁, media, d₂, ledger, hmake, hmedia, hledger, hbuild⟩
            · cases h
            · cases h
  · rintro ⟨hvalid, d₁, media, d₂, ledger, hmake, hmedia, hledger, hbuild⟩
    rw [Config.directory] at hmake hmedia
    rw [Config.ledgerFile, Config.directory] at hledger
    rw [openWith, hvalid]
    simp only [hmake, hmedia, hledger, hbuild]

/-! ## Media that answer alike -/

/-- Both media have the same name, and each on its disk they answer alike when they
are asked for a record. -/
def Echoes (d d' : Disk) (m m' : Member Medium) : Prop :=
  m.held = m'.held ∧ m.name = m'.name ∧
    ∀ key, m.medium.read key d = m'.medium.read key d'

variable {d d' : Disk} {m m' : Member Medium} {ms ms' : List (Member Medium)}

theorem Echoes.read (h : Echoes d d' m m') (slots : Nat) (key : String) :
    ∃ a m₁ m₁', m.read slots key d = (a, m₁, d) ∧ m'.read slots key d' = (a, m₁', d') ∧
      m₁.name = m₁'.name := by
  obtain ⟨hheld, hname, hread⟩ := h
  have hrun : ∀ (n : Medium) (d : Disk), Adapter.read n key d = (n.read key d, n, d) :=
    fun _ _ => rfl
  rw [Member.read, Member.read, Member.call, Member.call, hheld, hrun, hrun, hread key]
  split
  · exact ⟨_, m, m', rfl, rfl, hname⟩
  · cases m'.medium.read key d' <;> exact ⟨_, _, _, rfl, rfl, hname⟩

theorem ask_of_echoes (slots : Nat) (key : String)
    (h : List.Forall₂ (Echoes d d') ms ms') :
    (ask slots key ms d).1 = (ask slots key ms' d').1 := by
  induction h with
  | nil => rfl
  | cons hm hms ih =>
    obtain ⟨a, m₁, m₁', hread, hread', hname⟩ := hm.read slots key
    rw [ask, ask]
    simp only [hread, hread']
    cases offered? key a with
    | none => exact ih
    | some r => exact congrArg (fun name => some (Recalled.mk r name)) hname

end

/-! ## The media of a store -/

/-- What belongs to some of the media. -/
def territories (ks : List Kind) (dir : Path) (q : Path) : Prop :=
  ∃ k ∈ ks, k.territory dir q

theorem not_territory_of_territories {ks : List Kind} {k : Kind} {dir q : Path}
    (hk : k ∉ ks) (h : territories ks dir q) : ¬k.territory dir q := by
  obtain ⟨l, hl, hin⟩ := h
  intro hown
  exact hk (Medium.Kind.eq_of_territory hown hin ▸ hl)

/-- First one medium has changed what belongs to it, then others have. -/
theorem within_territories_cons {k : Kind} {ks : List Kind} {dir : Path}
    {d d₁ d₂ : Disk} (h₁ : Disk.Within (k.territory dir) d d₁)
    (h₂ : Disk.Within (territories ks dir) d₁ d₂) :
    Disk.Within (territories (k :: ks) dir) d d₂ :=
  (h₁.mono fun _ hq => ⟨k, List.mem_cons_self, hq⟩).trans
    (h₂.mono fun _ hq => hq.imp fun _ hl => ⟨List.mem_cons_of_mem k hl.1, hl.2⟩)

section

variable [Compression] [Table.Engine] [Table.LawfulEngine]

/-- The medium can be opened again as it is, and no call on it is on its way. -/
def Seated (dir : Path) (d : Disk) (k : Kind) (m : Member Medium) : Prop :=
  m.held = 0 ∧ Standing Record.Sized dir d k m.medium

variable {dir : Path} {d d' : Disk} {k : Kind} {ks : List Kind} {m m' : Member Medium}
    {ms ms' : List (Member Medium)}
  {slots : Nat} {r : Record} {T : Path → Prop}

theorem Seated.turn (h : Seated dir d k m) (hd : d.Sound) (hw : Disk.Within T d d')
    (hout : ∀ q, T q → ¬k.territory dir q) : Seated dir d' k m :=
  ⟨h.1, (h.2.turn hd hw hout).1⟩

theorem Seated.write {o : Outcome} (h : Seated dir d k m) (hr : r.Sized) (hd : d.Sound)
    (hcalm : d.Calm) (hslots : 0 < slots) (hwrite : m.write slots r d = (o, m', d')) :
    Seated dir d' k m' ∧ Disk.Within (k.territory dir) d d' := by
  obtain ⟨hheld, hstanding⟩ := h
  rw [Member.write, Member.call, if_neg (by omega)] at hwrite
  cases hw : m.medium.write r d with
  | mk a rest =>
    obtain ⟨medium, d₁⟩ := rest
    obtain ⟨hafter, hwithin, hanswered⟩ := hstanding.write hr hd hcalm hw
    have hrun : Adapter.write m.medium r d = (a, medium, d₁) := hw
    rw [hrun] at hwrite
    cases a with
    | unanswered => exact absurd rfl hanswered
    | done _ | failed _ | brokeDown =>
      cases hwrite
      exact ⟨⟨hheld, hafter⟩, hwithin⟩

/-- What happens outside of their directories does not matter to the media. -/
theorem seated_turn (h : List.Forall₂ (Seated dir d) ks ms) (hd : d.Sound)
    (hw : Disk.Within T d d') (hout : ∀ k ∈ ks, ∀ q, T q → ¬k.territory dir q) :
    List.Forall₂ (Seated dir d') ks ms := by
  induction h with
  | nil => exact .nil
  | cons hm hms ih =>
    exact .cons (hm.turn hd hw (hout _ List.mem_cons_self))
      (ih fun k hk => hout k (List.mem_cons_of_mem _ hk))

/-- Handing out a record leaves every medium as it should be: its own write does, and
the others change nothing that belongs to it. -/
theorem seated_dispatch {os : List (String × Outcome)} (hr : r.Sized)
    (hnodup : ks.Nodup) (hd : d.Sound) (hcalm : d.Calm) (hslots : 0 < slots)
    (h : List.Forall₂ (Seated dir d) ks ms)
    (hdispatch : dispatch slots r ms d = (os, ms', d')) :
    List.Forall₂ (Seated dir d') ks ms' ∧ Disk.Within (territories ks dir) d d' := by
  induction ks generalizing ms d os ms' d' with
  | nil =>
    cases h
    cases hdispatch
    exact ⟨.nil, .refl hd _⟩
  | cons k ks ih =>
    cases h with
    | @cons _ m _ ms hm hms =>
      obtain ⟨hk, hks⟩ := List.nodup_cons.1 hnodup
      rw [dispatch] at hdispatch
      cases hw : m.write slots r d with
      | mk o rest =>
        obtain ⟨m₁, d₁⟩ := rest
        obtain ⟨hm₁, hwithin₁⟩ := hm.write hr hd hcalm hslots hw
        have hms₁ : List.Forall₂ (Seated dir d₁) ks ms :=
          seated_turn hms hd hwithin₁ fun l hl q hq hin =>
            hk (Medium.Kind.eq_of_territory hq hin ▸ hl)
        cases hrest : dispatch slots r ms d₁ with
        | mk os₁ rest =>
          obtain ⟨ms₁, d₂⟩ := rest
          obtain ⟨hms₂, hwithin₂⟩ :=
            ih hks hwithin₁.sound (hwithin₁.calm hcalm) hms₁ hrest
          simp only [hw, hrest] at hdispatch
          cases hdispatch
          have hm₂ := hm₁.turn hwithin₁.sound hwithin₂ fun q =>
            not_territory_of_territories hk
          exact ⟨.cons hm₂ hms₂, within_territories_cons hwithin₁ hwithin₂⟩

/-! ## Opening the media -/

/-- Media that are opened where they find no files can be opened again as they are. -/
theorem seated_of_openMedia {media : List Medium} {q : Path} (hnodup : ks.Nodup)
    (hd : d.Sound) (hdir : d.find dir = .ok (q, .directory))
    (hfree : ∀ k ∈ ks, ∀ q id, k.territory dir q → d.entry? q ≠ some (.file id))
    (hopen : openMedia dir ks d = (.ok media, d')) :
    List.Forall₂ (Seated dir d') ks (media.map fun m => { medium := m }) ∧
      Disk.Within (territories ks dir) d d' := by
  induction ks generalizing d media d' with
  | nil =>
    cases hopen
    exact ⟨.nil, .refl hd _⟩
  | cons k ks ih =>
    obtain ⟨hk, hks⟩ := List.nodup_cons.1 hnodup
    rw [openMedia] at hopen
    cases ho : Medium.openIn k dir d with
    | mk a d₁ =>
      rw [ho] at hopen
      cases a with
      | error e => cases hopen
      | ok m =>
        obtain ⟨hm, hwithin₁⟩ :=
          Medium.standing_of_openIn hd hdir (hfree k List.mem_cons_self) ho
        -- The medium has made nothing where the others will be.
        have hfree₁ : ∀ l ∈ ks, ∀ q id, l.territory dir q →
            d₁.entry? q ≠ some (.file id) := by
          intro l hl q id hq
          rw [hwithin₁.entry q fun hin => hk (Medium.Kind.eq_of_territory hin hq ▸ hl)]
          exact hfree l (List.mem_cons_of_mem k hl) q id hq
        simp only at hopen
        cases hr : openMedia dir ks d₁ with
        | mk b d₂ =>
          rw [hr] at hopen
          cases b with
          | error e => cases hopen
          | ok rest =>
            cases hopen
            obtain ⟨hrest, hwithin₂⟩ :=
              ih hks hwithin₁.sound (hwithin₁.find hdir) hfree₁ hr
            have hm₂ :=
              (hm.turn hwithin₁.sound hwithin₂ fun q =>
                not_territory_of_territories hk).1
            exact ⟨.cons ⟨rfl, hm₂⟩ hrest, within_territories_cons hwithin₁ hwithin₂⟩

theorem echoes_turn {d₀ : Disk} (h : List.Forall₂ (Seated dir d) ks ms) (hd : d.Sound)
    (hw : Disk.Within T d d') (hout : ∀ k ∈ ks, ∀ q, T q → ¬k.territory dir q)
    (hechoes : List.Forall₂ (Echoes d₀ d') ms' ms) :
    List.Forall₂ (Echoes d₀ d) ms' ms := by
  induction h generalizing ms' with
  | nil =>
    cases hechoes
    exact .nil
  | cons hm hms ih =>
    cases hechoes with
    | cons hecho hechoes =>
      obtain ⟨hheld, hname, hread⟩ := hecho
      have hsame := (hm.2.turn hd hw (hout _ List.mem_cons_self)).2
      exact .cons ⟨hheld, hname, fun key => (hread key).trans (hsame key)⟩
        (ih (fun k hk => hout k (List.mem_cons_of_mem _ hk)) hechoes)

/-- The media can be opened again, each changes nothing that belongs to another, and
they answer as before. -/
theorem reopen_media (hnodup : ks.Nodup) (hd : d.Sound) (hcalm : d.Calm)
    (h : List.Forall₂ (Seated dir d) ks ms) :
    ∃ media d', openMedia dir ks d = (.ok media, d') ∧
      List.Forall₂ (Seated dir d') ks (media.map fun m => { medium := m }) ∧
      Disk.Within (territories ks dir) d d' ∧
      List.Forall₂ (Echoes d' d) (media.map fun m => { medium := m }) ms := by
  induction ks generalizing ms d with
  | nil =>
    cases h
    exact ⟨[], d, rfl, .nil, .refl hd _, .nil⟩
  | cons k ks ih =>
    cases h with
    | @cons _ m _ ms hm hms =>
      obtain ⟨hk, hks⟩ := List.nodup_cons.1 hnodup
      obtain ⟨medium, d₁, ho, hstanding, hwithin₁, hread⟩ :=
        hm.2.reopen (fun _ hr => hr) hd hcalm
      have hout₁ : ∀ l ∈ ks, ∀ q, k.territory dir q → ¬l.territory dir q :=
        fun l hl q hq hin => hk (Medium.Kind.eq_of_territory hq hin ▸ hl)
      obtain ⟨media, d₂, hopen, hseated, hwithin₂, hechoes⟩ :=
        ih hks hwithin₁.sound (hwithin₁.calm hcalm) (seated_turn hms hd hwithin₁ hout₁)
      obtain ⟨hstanding₂, hread₂⟩ :=
        hstanding.turn hwithin₁.sound hwithin₂ fun q => not_territory_of_territories hk
      refine ⟨medium :: media, d₂, ?_, .cons ⟨rfl, hstanding₂⟩ hseated,
        within_territories_cons hwithin₁ hwithin₂,
        .cons ⟨hm.1.symm, ?_, fun key => (hread₂ key).trans (hread key)⟩
          (echoes_turn hms hd hwithin₁ hout₁ hechoes)⟩
      · rw [openMedia, ho]
        simp only [hopen]
      · exact hstanding.name.trans hm.2.name.symm

end

/-! ## Stores that stand on the disk -/

section

/-- What a configuration has to be for a store to be built from it. -/
structure Builds (c : Config) : Prop where
  valid : c.validate = .ok ()
  nodup : c.backends.Nodup
  media : c.backends ≠ []
  names : (c.backends.map Kind.name).Nodup
  parallel : c.maxParallel.toNat ≠ 0
  timeout : c.timeoutMs.toNat ≠ 0
  slots : c.maxParallel.toNat ≤ Setup.slotLimit

variable [Compression] [Table.Engine] [Table.LawfulEngine]

/-- The store is that of the configuration, and each of its media and its ledger can
be opened again as they are. -/
structure Sits (c : Config) (base : Path) (s : Store Medium) (d : Disk)
    (bs : List Block) : Prop where
  builds : Builds c
  sound : d.Sound
  calm : d.Calm
  found : d.find (c.directory base) = .ok ((c.directory base).place, .directory)
  media : List.Forall₂ (Seated (c.directory base) d) c.backends s.members
  slots : s.slots = c.maxParallel.toNat
  ledger : s.ledger.Entered (c.ledgerFile base) d bs

variable {c : Config} {base : Path} {s s' : Store Medium} {d d' : Disk}
    {bs : List Block}

theorem home_of_seated {dir : Path} {ks : List Kind} {ms : List (Member Medium)}
    {k : Kind} (h : List.Forall₂ (Seated dir d) ks ms) (hk : k ∈ ks) :
    d.entry? (k.home dir).place = some .directory := by
  induction h with
  | nil => cases hk
  | cons hm hms ih =>
    rcases List.mem_cons.1 hk with rfl | hk
    · exact hm.2.home
    · exact ih hk

/-- There are directories where the media are, and at the place of the ledger is a
file, so the ledger belongs to none of the media. -/
theorem Sits.ledger_outside (h : Sits c base s d bs) (hapart : c.LedgerApart base)
    {k : Kind} (hk : k ∈ c.backends) :
    ¬k.territory (c.directory base) (c.ledgerFile base).place := by
  intro hin
  have hfile := h.ledger.entry
  rw [hapart.eq_home hk (List.prefix_refl _) hin, home_of_seated h.media hk] at hfile
  obtain ⟨id, hfile⟩ := hfile
  cases hfile

/-- A new ledger leaves the media alone: what is made for it is outside of their
directories, which are there. -/
theorem seated_of_openLedger {ms : List (Member Medium)} {mode : SyncMode} {l : Ledger}
    (hapart : c.LedgerApart base) (hd : d.Sound)
    (hseated : List.Forall₂ (Seated (c.directory base) d) c.backends ms)
    (hfree : ∀ id, d.entry? (c.ledgerFile base).place ≠ some (.file id))
    (hopen : openLedger (c.ledgerFile base) mode d = (.ok l, d')) :
    l.Entered (c.ledgerFile base) d' [] ∧
      List.Forall₂ (Seated (c.directory base) d') c.backends ms ∧
      ∃ T, Disk.Within T d d' := by
  have hentered := Ledger.entered_of_openLedger hd.wellFormed hfree hopen
  have hwithin := Ledger.openLedger_within
    (T := fun q => ¬territories c.backends (c.directory base) q ∨
      q = (c.ledgerFile base).place) hd (by
      intro part hpart hnone
      refine .inl ?_
      rintro ⟨k, hk, hin⟩
      rw [hapart.eq_home hk (hpart.trans (Disk.parent_part _)) hin,
        home_of_seated hseated hk] at hnone
      cases hnone) (.inr rfl) hopen
  refine ⟨hentered, seated_turn hseated hd hwithin ?_, _, hwithin⟩
  rintro k hk q (hq | rfl) hin
  · exact hq ⟨k, hk, hin⟩
  · obtain ⟨id, hfile⟩ := hentered.entry
    rw [hapart.eq_home hk (List.prefix_refl _) hin,
      hwithin.directory _ (home_of_seated hseated hk)] at hfile
    cases hfile

/-- A store that was opened over an empty data directory stands on the disk. -/
theorem sits_of_openWith (hapart : c.LedgerApart base) (hd : d.Sound) (hcalm : d.Calm)
    (hempty : ∀ q id, (c.directory base).place <+: q → d.entry? q ≠ some (.file id))
    (hledger : ∀ id, d.entry? (c.ledgerFile base).place ≠ some (.file id))
    (hopen : openWith c base d = (.ok s, d')) : Sits c base s d' [] := by
  obtain ⟨hvalid, d₁, media, d₂, l, hmake, hmedia, hlog, hbuild⟩ :=
    openWith_eq_ok_iff.1 hopen
  obtain ⟨hgood, hslots, rfl⟩ := (Setup.build_unordered_eq_ok_iff rfl).1 hbuild
  obtain ⟨hbackends, hnodup, _⟩ := Config.validate_eq_ok hvalid
  obtain ⟨hwithin₁, hfound⟩ :=
    Disk.makeDirectories_within (T := fun _ => True) hd (fun _ _ _ => trivial) hmake
  have hdir := hfound rfl
  have hfree : ∀ k ∈ c.backends, ∀ q id, k.territory (c.directory base) q →
      d₁.entry? q ≠ some (.file id) := by
    intro k _ q id hq hfile
    rw [Kind.territory, Kind.place_home] at hq
    exact hempty q id ((List.prefix_append _ _).trans hq)
      (Disk.file_of_makeDirectories hmake hfile)
  obtain ⟨hseated, hwithin₂⟩ :=
    seated_of_openMedia hnodup hwithin₁.sound hdir hfree hmedia
  -- Where the ledger will be there is no file yet: the media have made files nowhere
  -- but inside of their directories.
  have hfree₂ : ∀ id, d₂.entry? (c.ledgerFile base).place ≠ some (.file id) := by
    intro id hfile
    by_cases hin : territories c.backends (c.directory base) (c.ledgerFile base).place
    · obtain ⟨k, hk, hin⟩ := hin
      rw [hapart.eq_home hk (List.prefix_refl _) hin, home_of_seated hseated hk]
        at hfile
      cases hfile
    · rw [hwithin₂.entry _ hin] at hfile
      exact hledger id (Disk.file_of_makeDirectories hmake hfile)
  obtain ⟨hentered, hseated', _, hwithin₃⟩ :=
    seated_of_openLedger hapart hwithin₂.sound hseated hfree₂ hlog
  have hnames : (c.backends.map Kind.name).Nodup :=
    names_of_openMedia hmedia ▸ hgood.names
  exact ⟨⟨hvalid, hnodup, hbackends, hnames, Nat.ne_of_gt hgood.parallel,
    Nat.ne_of_gt hgood.timeout, hslots⟩,
    hwithin₃.sound, hwithin₃.calm (hwithin₂.calm (hwithin₁.calm hcalm)),
    hwithin₃.find (hwithin₂.find hdir), hseated', rfl, hentered⟩

theorem Sits.dispatch {r : Record} {os : List (String × Outcome)}
    {ms : List (Member Medium)} (h : Sits c base s d bs) (hapart : c.LedgerApart base)
    (hr : r.Sized) (hdispatch : Store.dispatch s.slots r s.members d = (os, ms, d')) :
    Sits c base { s with members := ms } d' bs := by
  have hslots : 0 < s.slots := by
    rw [h.slots]
    exact Nat.pos_of_ne_zero h.builds.parallel
  obtain ⟨hms, hwithin⟩ :=
    seated_dispatch hr h.builds.nodup h.sound h.calm hslots h.media hdispatch
  refine ⟨h.builds, hwithin.sound, hwithin.calm h.calm, hwithin.find h.found,
    hms, h.slots, ?_⟩
  refine h.ledger.turn hwithin ?_
  rintro ⟨k, hk, hin⟩
  exact h.ledger_outside hapart hk hin

theorem Sits.append {now : Timestamp} {payload : Digest} {acks : UInt32}
    {a : Except (Failure Ledger.Error) Block} {l : Ledger} (h : Sits c base s d bs)
    (hapart : c.LedgerApart base)
    (happend : s.ledger.append now payload (decide (1 ≤ acks)) acks d = (a, l, d')) :
    ∃ bs', Sits c base { s with ledger := l } d' bs' := by
  obtain ⟨hwithin, bs', hledger⟩ := h.ledger.append h.sound h.calm happend
  refine ⟨bs', h.builds, hwithin.sound, hwithin.calm h.calm, hwithin.find h.found, ?_,
    h.slots, hledger⟩
  exact seated_turn h.media h.sound hwithin fun k hk q hq hin =>
    h.ledger_outside hapart hk (hq ▸ hin)

/-- A call leaves the store standing. -/
theorem Sits.call (h : Sits c base s d bs) (hapart : c.LedgerApart base) (call : Call)
    (hsized : call.Sized) :
    ∃ bs', Sits c base (call.make s d).2.1 (call.make s d).2.2 bs' := by
  cases hr : prepare call.kind call.key call.value call.taken with
  | error e =>
    rw [Call.make_of_prepare_error hr]
    exact ⟨bs, h⟩
  | ok r =>
    rw [Call.make_of_prepare_ok hr]
    generalize hdispatch : Store.dispatch s.slots r s.members d = result
    obtain ⟨os, ms, d₁⟩ := result
    have h₁ := h.dispatch hapart (call.sized_of_prepare hsized hr) hdispatch
    generalize happend : s.ledger.append call.entered r.signature
      (decide (1 ≤ ackWord os)) (ackWord os) d₁ = result
    obtain ⟨a, l, d₂⟩ := result
    rw [settle_of_append (s := { s with members := ms }) happend]
    exact h₁.append hapart happend

/-- The store can be opened again. The ledger has the same blocks, and what is
recalled is what was recalled before. -/
theorem Sits.reopen (h : Sits c base s d bs) (hapart : c.LedgerApart base) :
    ∃ s' d', openWith c base d = (.ok s', d') ∧ Sits c base s' d' bs ∧
      s'.ledger.poisoned = false ∧
      ∀ key, (s'.recallRecord key d').1 = (s.recallRecord key d).1 := by
  obtain ⟨media, d', hmedia, hseated, hwithin, hechoes⟩ :=
    reopen_media h.builds.nodup h.sound h.calm h.media
  have hturned : s.ledger.Entered (c.ledgerFile base) d' bs := by
    refine h.ledger.turn hwithin ?_
    rintro ⟨k, hk, hin⟩
    exact h.ledger_outside hapart hk hin
  obtain ⟨l, hledger, hentered, hsane⟩ := hturned.reopen c.ledger.syncMode
  refine ⟨⟨media.map fun m => { medium := m }, l, c.maxParallel.toNat,
    c.timeoutMs.toNat⟩, d', ?_, ?_, hsane, ?_⟩
  · exact openWith_eq_ok_iff.2 ⟨h.builds.valid, d, media, d', l,
      Disk.makeDirectories_of_find h.found, hmedia, hledger,
      (Setup.build_unordered_eq_ok_iff rfl).2
        ⟨good_of_validate l h.builds.valid hmedia, h.builds.slots, rfl⟩⟩
  · exact ⟨h.builds, hwithin.sound, hwithin.calm h.calm, hwithin.find h.found, hseated,
      rfl, hentered⟩
  · intro key
    rw [recallRecord, recallRecord]
    cases Record.checkKey key with
    | error e => rfl
    | ok u =>
      simp only [h.slots]
      exact ask_of_echoes _ key hechoes

/-! ## Sessions -/

/-- The disk is in order and nothing is in its way. There are no files in the data
directory yet, and no ledger. -/
structure Fresh (c : Config) (base : Path) (d : Disk) : Prop where
  sound : d.Sound
  calm : d.Calm
  empty : ∀ q id, (c.directory base).place <+: q → d.entry? q ≠ some (.file id)
  noLedger : ∀ id, d.entry? (c.ledgerFile base).place ≠ some (.file id)

/-- The states of store and disk after a store was opened over an empty data
directory, calls were made on it one after the other, whatever the clock said, and
every now and then it was dropped and opened again. -/
inductive Session (c : Config) (base : Path) : Store Medium → Disk → Prop where
  | opened {s : Store Medium} {d₀ d : Disk} (hfresh : Fresh c base d₀)
      (hopen : openWith c base d₀ = (.ok s, d)) :
      Session c base s d
  | called {s : Store Medium} {d : Disk} (h : Session c base s d) (call : Call)
      (hsized : call.Sized) :
      Session c base (call.make s d).2.1 (call.make s d).2.2
  | reopened {s s' : Store Medium} {d d' : Disk} (h : Session c base s d)
      (hopen : openWith c base d = (.ok s', d')) :
      Session c base s' d'

theorem Session.sits (h : Session c base s d) (hapart : c.LedgerApart base) :
    ∃ bs, Sits c base s d bs := by
  induction h with
  | opened hfresh hopen =>
    exact ⟨[], sits_of_openWith hapart hfresh.sound hfresh.calm hfresh.empty
      hfresh.noLedger hopen⟩
  | called _ call hsized ih =>
    obtain ⟨bs, h⟩ := ih
    exact h.call hapart call hsized
  | reopened _ hopen ih =>
    obtain ⟨bs, h⟩ := ih
    obtain ⟨s', d', hsame, hsits, _⟩ := h.reopen hapart
    rw [hsame] at hopen
    cases hopen
    exact ⟨bs, hsits⟩

/-! ## What is there after opening again -/

/-- The next call on the store enters a block that follows the given tail, and is
answered as the media did. -/
def GoesOn (s : Store Medium) (d : Disk) (t : Ledger.Tail) : Prop :=
  ∀ (call : Call) (r : Record), call.Sized →
    prepare call.kind call.key call.value call.taken = .ok r →
    t.nextIndex < UInt64.size → (Timestamp.nextAfter call.entered t.lastStamp).isSome →
    ∃ b s' d', call.make s d =
      (answerOf r (dispatch s.slots r s.members d).1 (.ok b), s', d') ∧
      b.index.toNat = t.nextIndex ∧ b.prev = t.head ∧ b.payload = r.signature ∧
      s'.ledger.tail? = .ok (t.push b)

/-- The second store has all that the first one has: the chain, its counts and its
head, and for every key the record and the medium that serves it. Its chain is sound,
and goes on where the first one ended. -/
structure LosesNothing (s : Store Medium) (d : Disk) (s' : Store Medium)
    (d' : Disk) : Prop where
  tail : s'.ledger.tail? = .ok s.ledger.tail
  /-- The first store shows its tail, too, unless there was no timestamp left for a
  block and the caller broke down. -/
  shown : s.ledger.tail? = .ok s.ledger.tail ∨
    (s.ledger.tail? = .error .poisoned ∧ s.ledger.tail.lastStamp.succ? = none)
  stats : ∀ x, s.stats = .ok x → ∃ y, s'.stats = .ok y ∧ y.chainLength = x.chainLength ∧
    y.totalRecords = x.totalRecords ∧ y.failedAttempts = x.failedAttempts
  verified : s'.verify d' = .ok ⟨none, s.ledger.tail.nextIndex⟩
  recalled : ∀ key, (s'.recallRecord key d').1 = (s.recallRecord key d).1
  goesOn : GoesOn s' d' s.ledger.tail

theorem Sits.goesOn (h : Sits c base s d bs) (hapart : c.LedgerApart base)
    (hsane : s.ledger.poisoned = false) :
    GoesOn s d s.ledger.tail := by
  intro call r hsized hr hroom hstamp
  rw [Call.make_of_prepare_ok hr]
  generalize hdispatch : Store.dispatch s.slots r s.members d = result
  obtain ⟨os, ms, d₁⟩ := result
  have h₁ := h.dispatch hapart (call.sized_of_prepare hsized hr) hdispatch
  obtain ⟨stamp, hnext⟩ := Option.isSome_iff_exists.1 hstamp
  obtain ⟨b, hb⟩ : ∃ b, Ledger.nextBlock? s.ledger.tail call.entered r.signature
    (ackWord os) = some b := by
    rw [Ledger.nextBlock?, hnext]
    exact ⟨_, rfl⟩
  generalize happend : s.ledger.append call.entered r.signature
    (decide (1 ≤ ackWord os)) (ackWord os) d₁ = result
  obtain ⟨a, l, d₂⟩ := result
  obtain ⟨rfl, htail, hindex, hprev⟩ :=
    h₁.ledger.append_next h₁.calm hsane hb hroom happend
  refine ⟨b, { s with members := ms, ledger := l }, d₂, ?_, hindex, hprev,
    (Ledger.nextBlock?_eq_some hb).2.2.1, htail⟩
  exact settle_of_append (s := { s with members := ms }) happend

/-- After every session the store can be opened again, and nothing is lost. Of the
engine and of the compression no more is known than that they keep what they are
given. -/
theorem reopened_store_loses_nothing {c : Config} {base : Path} {s : Store Medium}
    {d : Disk} (hapart : c.LedgerApart base) (h : Session c base s d) :
    ∃ s' d', openWith c base d = (.ok s', d') ∧ LosesNothing s d s' d' := by
  obtain ⟨bs, hsits⟩ := h.sits hapart
  obtain ⟨s', d', hopen, hagain, hsane, hrecall⟩ := hsits.reopen hapart
  have hsame : s'.ledger.tail = s.ledger.tail :=
    hagain.ledger.tail.trans hsits.ledger.tail.symm
  have htail : s'.ledger.tail? = .ok s.ledger.tail := by
    rw [Ledger.tail?, hsane, hsame]
    rfl
  have hshown := hsits.ledger.tail?_cases
  refine ⟨s', d', hopen, htail, hshown, ?_, ?_, hrecall, ?_⟩
  · intro x hx
    rcases hshown with hshown | ⟨hpoisoned, _⟩
    · obtain ⟨y, hy, hlength, htotal, hfailed⟩ := stats_of_tail htail
      obtain ⟨x', hx', hlength', htotal', hfailed'⟩ := stats_of_tail hshown
      rw [hx] at hx'
      cases hx'
      exact ⟨y, hy, hlength.trans hlength'.symm, htotal.trans htotal'.symm,
        hfailed.trans hfailed'.symm⟩
    · rw [stats, hpoisoned] at hx
      cases hx
  · rw [Store.verify, (hagain.ledger.follows hsane).verify, hsits.ledger.tail,
      Ledger.Tail.nextIndex_ofBlocks,
      (Chain.firstDivergence_eq_none_iff _).2 hagain.ledger.verified]
  · rw [← hsame]
    exact hagain.goesOn hapart hsane

end

/-- A store of all five media below `data`, after one call. -/
theorem reopened_store_loses_nothing_oneCall :
    ∃ (s : Store Medium) (d : Disk), Session {} [] s d ∧ s.ledger.length = .ok 1 ∧
      ∃ s' d', openWith {} [] d = (.ok s', d') ∧ LosesNothing s d s' d' := by
  have hapart : Config.LedgerApart {} [] := by
    intro k _ part hpart name names heq
    have hparts : part = [] ∨ ∃ t, part = "data" :: t ∧
        (t = [] ∨ t = ["ledger.jsonl"]) := by
      simpa [List.prefix_cons_iff]
        using (show part <+: ["data", "ledger.jsonl"] from hpart)
    have hplace : part.place.length ≤ 2 := by
      rcases hparts with rfl | ⟨t, rfl, rfl | rfl⟩ <;> decide
    have hdir : (Config.directory {} []).place = ["data"] := rfl
    rw [heq, Kind.place_home, hdir] at hplace
    simp at hplace
  have hnone : ∀ q id, Disk.entry? {} q ≠ some (.file id) := by
    intro q id
    rw [Disk.entry?]
    split <;> simp
  have hfresh : Fresh {} [] {} :=
    ⟨Disk.sound_empty, ⟨rfl, rfl⟩, fun q id _ => hnone q id, hnone _⟩
  have hopens : (openWith {} [] {}).1.toOption.isSome = true := rfl
  cases hopen : openWith {} [] {} with
  | mk a d =>
    rw [hopen] at hopens
    cases a with
    | error e => cases hopens
    | ok s =>
      have h := Session.opened hfresh hopen
      have hsits := sits_of_openWith hapart hfresh.sound hfresh.calm hfresh.empty
        hfresh.noLedger hopen
      have hzero : s.ledger.tail = Ledger.Tail.empty := hsits.ledger.tail
      have hsane : s.ledger.poisoned = false := by
        refine Bool.eq_false_iff.2 fun hpoisoned => ?_
        have hspent := hsits.ledger.spent hpoisoned
        rw [hzero] at hspent
        cases hspent
      have hsized : (storeByte 1).Sized := Record.sized_of_length (by decide +kernel)
      obtain ⟨b, s', d', hmake, _, _, _, htail⟩ :=
        hsits.goesOn hapart hsane (storeByte 1) _ hsized rfl
        (by rw [hzero]; decide) (by rw [hzero]; decide)
      have hcalled := h.called (storeByte 1) hsized
      rw [hmake] at hcalled
      refine ⟨s', d', hcalled, ?_, reopened_store_loses_nothing hapart hcalled⟩
      rw [Ledger.length, htail, hzero]
      rfl

end Store

end Chronicle

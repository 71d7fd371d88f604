import Chronicle.Proofs.Ledger.Recovery

/-!
# One log in the place of another

Whoever uses a log cannot tell whether its blocks are in memory or in a file. Both
reply alike to every request, whatever the blocks are and in whatever order they
come, and also if the file is opened again in between.

* `ask`, `replies`: what logs reply to one request, and to requests one after the
  other.
* `Lists.ask`: a log in a file replies as the log in memory with the same blocks
  does, unless the disk stops an append.
* `Talk.lists`: so it does throughout a talk.
* `file_log_replies_as_memory_log`: the talks that both logs have are the same.
-/

namespace Chronicle.Ledger

/-! ## Requests and replies -/

/-- What is asked of a log. -/
inductive Request where
  | append (b : Block)
  | readRange (start stop : UInt64)
  | length
  | last
  /-- The log is dropped and opened again. -/
  | reopen (mode : SyncMode)

/-- What a log replies. -/
inductive Reply where
  | done
  | blocks (bs : List Block)
  | number (n : Nat)
  | block (b : Option Block)
  | failed (e : Error)

/-- The reply for what a log gives or reports. -/
def Reply.of {α : Type} (reply : α → Reply) : Except Error α → Reply
  | .ok a => reply a
  | .error e => failed e

theorem FileLog.write_of_calm (l : FileLog) {d : Disk} (hcalm : d.Calm) (bs : Bytes) :
    ∃ d', l.write bs d = (.ok (), d') ∧ d'.Calm := by
  obtain ⟨d', happend, hcalm'⟩ := hcalm.append l.file bs
  have hsync : d'.sync = (.ok (), d') := by rw [Disk.sync, Disk.draw, hcalm'.plan]
  refine ⟨d', ?_, hcalm'⟩
  rw [write, happend]
  simp only
  split
  · exact hsync
  · rfl

namespace BlockLog

/-- The log after it was dropped and opened again. What is in memory is not dropped. -/
def reopen (log : BlockLog) (mode : SyncMode) (d : Disk) :
    Except Error BlockLog × Disk :=
  match log with
  | memory blocks => (.ok (memory blocks), d)
  | file l =>
    match FileLog.openAt l.path mode d with
    | (.ok l', d) => (.ok (file l'), d)
    | (.error e, d) => (.error e, d)

/-- What the log replies to a request, and what becomes of it. -/
def ask (log : BlockLog) (d : Disk) : Request → Reply × BlockLog × Disk
  | .append b =>
    let (r, log, d) := log.append b d
    (.of (fun _ => .done) r, log, d)
  | .readRange start stop =>
    (.of .blocks (log.readRange start.toNat stop.toNat d), log, d)
  | .length => (.number log.length, log, d)
  | .last => (.of .block (log.last d), log, d)
  | .reopen mode =>
    match log.reopen mode d with
    | (.ok log', d) => (.done, log', d)
    | (.error e, d) => (.failed e, log, d)

/-- What the log replies to requests one after the other, and what becomes of it. -/
def replies (log : BlockLog) (d : Disk) : List Request → List Reply × BlockLog × Disk
  | [] => ([], log, d)
  | q :: qs =>
    let (a, log, d) := log.ask d q
    let (as, log, d) := log.replies d qs
    (a :: as, log, d)

theorem replies_concat (log : BlockLog) (d : Disk) (qs : List Request) (q : Request) :
    log.replies d (qs ++ [q]) =
      ((log.replies d qs).1 ++
        [((log.replies d qs).2.1.ask (log.replies d qs).2.2 q).1],
        ((log.replies d qs).2.1.ask (log.replies d qs).2.2 q).2) := by
  induction qs generalizing log d with
  | nil => rfl
  | cons first qs ih =>
    rw [List.cons_append, replies, replies]
    simp only [ih]
    rfl

/-! ## Logs with the same blocks -/

section

variable {log log' : BlockLog} {p : Path} {d d' : Disk} {bs : List Block} {b : Block}

/-- A block that is not the next one is refused, and nothing happens. -/
theorem append_of_ne (hindex : b.index.toNat ≠ log.length) (d : Disk) :
    log.append b d = (.error (.outOfOrder log.length b.index.toNat), log, d) := by
  cases log with
  | memory blocks =>
    rw [length] at hindex
    rw [append, if_pos hindex, length]
  | file l =>
    rw [length] at hindex
    rw [append, FileLog.append, if_pos hindex, length]

/-- The next block is not out of order. If it is refused, then the disk is the
reason. -/
theorem append_error_of_eq {e : Error} (hindex : b.index.toNat = log.length)
    (ha : log.append b d = (.error e, log', d')) : e = .disk := by
  cases log with
  | memory blocks =>
    rw [length] at hindex
    rw [append, if_neg (not_not_intro hindex)] at ha
    cases ha
  | file l =>
    rw [length] at hindex
    obtain ⟨l', _, hl⟩ := append_file ha
    rw [FileLog.append, if_neg (not_not_intro hindex)] at hl
    split at hl <;> cases hl
    rfl

theorem Shows.last (h : log.Shows d bs) : log.last d = .ok bs.getLast? := by
  rw [BlockLog.last, h.length]
  by_cases hempty : bs.length = 0
  · rw [if_pos hempty, List.length_eq_zero_iff.1 hempty]
    rfl
  · rw [if_neg hempty, h.readRange _ _ (Nat.sub_le _ 1), List.take_length]
    show Except.ok (bs.drop (bs.length - 1)).getLast? = _
    rw [List.getLast?_drop, if_neg (by omega)]

/-- Logs that show the same blocks reply alike to whoever only looks. -/
theorem Shows.readRange_eq {other : BlockLog} {e : Disk} (h : log.Shows d bs)
    (h' : other.Shows e bs) (start stop : Nat) :
    log.readRange start stop d = other.readRange start stop e := by
  by_cases hle : start ≤ stop
  · rw [h.readRange start stop hle, h'.readRange start stop hle]
  · have hinvalid : ∀ (l : BlockLog) (x : Disk), l.readRange start stop x =
        .error (.invalidRange start stop) := by
      intro l x
      cases l with
      | memory blocks => rw [BlockLog.readRange, if_pos (Nat.not_le.1 hle)]
      | file l => rw [BlockLog.readRange, FileLog.readRange, if_pos (Nat.not_le.1 hle)]
    rw [hinvalid, hinvalid]

theorem Lists.reopen (h : log.Lists p d bs) (mode : SyncMode) :
    ∃ log', log.reopen mode d = (.ok log', d) ∧ log'.Lists p d bs := by
  obtain ⟨f, rfl, rfl, hf⟩ := h
  refine ⟨file { f with mode }, ?_, { f with mode }, rfl, rfl, { hf with }⟩
  rw [BlockLog.reopen, hf.openAt mode]

/-- The file of the log is left alone. -/
theorem Lists.turn (h : log.Lists p d bs) (hd : d'.WellFormed)
    (hstat : d'.stat p = d.stat p) (hread : d'.read p = d.read p) :
    log.Lists p d' bs := by
  obtain ⟨f, hlog, rfl, hf⟩ := h
  have hstat' : d'.stat f.path = .ok (.file f.file) := hstat.trans hf.stat
  refine ⟨f, hlog, rfl,
    { hf with stat := hstat', present := hd.lt_of_stat hstat', content := ?_ }⟩
  rw [Disk.read_of_stat hstat', Disk.read_of_stat hf.stat] at hread
  exact (Except.ok.inj hread).trans hf.content

/-- A request to a log in a file: the log in memory with the same blocks replies
alike, and both have the same blocks afterwards. Only an append can be stopped by the
disk. -/
theorem Lists.ask {a : Reply} (h : log.Lists p d bs) {q : Request}
    (hask : log.ask d q = (a, log', d')) :
    (∃ b, q = .append b ∧ log.append b d = (.error .disk, log', d') ∧
        a = .failed .disk) ∨
      ∃ bs', (∀ e, (memory bs).ask e q = (a, memory bs', e)) ∧ log'.Lists p d' bs' := by
  have hshows := h.holds.shows
  have hmemory : ∀ e, (memory bs).Shows e bs := fun e => Holds.shows rfl
  cases q with
  | append b =>
    by_cases hindex : b.index.toNat = log.length
    · cases happend : log.append b d with
      | mk r rest =>
        obtain ⟨log₁, d₁⟩ := rest
        simp only [BlockLog.ask, happend] at hask
        cases r with
        | error e =>
          cases hask
          obtain rfl := append_error_of_eq hindex happend
          exact .inl ⟨b, rfl, happend, rfl⟩
        | ok u =>
          cases hask
          refine .inr ⟨bs ++ [b], fun e => ?_, h.append_ok happend⟩
          rw [BlockLog.ask, append, if_neg (not_not_intro (hindex.trans hshows.length))]
    · -- The block is not the next one of either log.
      have hindex' : b.index.toNat ≠ (memory bs).length :=
        fun heq => hindex (heq.trans hshows.length.symm)
      simp only [BlockLog.ask, append_of_ne hindex] at hask
      cases hask
      refine .inr ⟨bs, fun e => ?_, h⟩
      simp only [BlockLog.ask, append_of_ne hindex', hshows.length]
      rfl
  | readRange start stop =>
    cases hask
    exact .inr ⟨bs, fun e => by rw [BlockLog.ask, hshows.readRange_eq (hmemory e)], h⟩
  | length =>
    cases hask
    exact .inr ⟨bs, fun e => by rw [BlockLog.ask, hshows.length]; rfl, h⟩
  | last =>
    cases hask
    exact .inr ⟨bs, fun e => by rw [BlockLog.ask, hshows.last, (hmemory e).last], h⟩
  | reopen mode =>
    obtain ⟨log₁, hopen, hlists⟩ := h.reopen mode
    simp only [BlockLog.ask, hopen] at hask
    cases hask
    exact .inr ⟨bs, fun e => rfl, hlists⟩

/-- With nothing in the way no append is stopped, and nothing is then. -/
theorem append_of_calm {r : Except Error Unit} (hcalm : d.Calm)
    (ha : log.append b d = (r, log', d')) :
    r ≠ .error .disk ∧ d'.Calm := by
  cases log with
  | memory blocks =>
    rw [append] at ha
    split at ha <;> cases ha <;> exact ⟨by simp, hcalm⟩
  | file l =>
    obtain ⟨l', _, hl⟩ := append_file ha
    obtain ⟨d₁, hwrite, hcalm₁⟩ := l.write_of_calm hcalm (FileLog.line b)
    rw [FileLog.append, hwrite] at hl
    split at hl <;> cases hl
    · exact ⟨by simp, hcalm⟩
    · exact ⟨by simp, hcalm₁⟩

/-- With nothing in the way the log in a file replies to all requests as the one in
memory does. -/
theorem Lists.replies (h : log.Lists p d bs) (hcalm : d.Calm) (e : Disk)
    (qs : List Request) :
    (log.replies d qs).1 = ((memory bs).replies e qs).1 := by
  induction qs generalizing log d bs with
  | nil => rfl
  | cons q qs ih =>
    cases hask : log.ask d q with
    | mk a rest =>
      obtain ⟨log', d'⟩ := rest
      have hcalm' : d'.Calm := by
        cases q with
        | append b =>
          cases hask
          exact (append_of_calm hcalm rfl).2
        | reopen mode =>
          obtain ⟨log₁, hopen, _⟩ := h.reopen mode
          simp only [BlockLog.ask, hopen] at hask
          cases hask
          exact hcalm
        | readRange | length | last =>
          cases hask
          exact hcalm
      rcases h.ask hask with ⟨b, _, happend, _⟩ | ⟨bs', hmemory, hlists⟩
      · exact absurd rfl (append_of_calm hcalm happend).1
      · simp only [BlockLog.replies, hask, hmemory e]
        rw [ih hlists hcalm']

end

/-! ## Talks -/

/-- A log file that was empty when it was opened, and what it has been asked and has
replied since. Nobody else touches the file. An append that the disk stops is not
counted, and must have been taken back. -/
inductive Talk (p : Path) : BlockLog → Disk → List Request → List Reply → Prop where
  | start {before d : Disk} {mode : SyncMode} {l : FileLog}
      (hbefore : before.WellFormed) (hopen : FileLog.openAt p mode before = (.ok l, d))
      (hempty : l.count = 0) : Talk p (file l) d [] []
  | ask {log log' : BlockLog} {d d' : Disk} {qs : List Request} {as : List Reply}
      (h : Talk p log d qs as) (q : Request) {a : Reply}
      (hask : log.ask d q = (a, log', d')) (hworks : a ≠ .failed .disk) :
      Talk p log' d' (qs ++ [q]) (as ++ [a])
  | stopped {log log' : BlockLog} {d d' : Disk} {qs : List Request} {as : List Reply}
      {b : Block} (h : Talk p log d qs as) (hback : log.RollsBack b d)
      (happend : log.append b d = (.error .disk, log', d')) :
      Talk p log' d' qs as
  | turn {log : BlockLog} {d d' : Disk} {qs : List Request} {as : List Reply}
      (h : Talk p log d qs as) (hd : d'.WellFormed) (hstat : d'.stat p = d.stat p)
      (hread : d'.read p = d.read p) : Talk p log d' qs as

variable {log : BlockLog} {p : Path} {d : Disk} {qs : List Request} {as : List Reply}

/-- Throughout a talk the file has the blocks that the log in memory has after the
same requests, and the replies are the same. -/
theorem Talk.lists (h : Talk p log d qs as) :
    ∃ bs, (∀ e, (memory []).replies e qs = (as, memory bs, e)) ∧ log.Lists p d bs := by
  induction h with
  | @start before d mode l hbefore hopen hempty =>
    obtain ⟨ls, hls⟩ := FileLog.openAt_intact hbefore hopen
    obtain rfl : ls = [] := List.eq_nil_of_length_eq_zero (hls.count.symm.trans hempty)
    exact ⟨[], fun e => rfl, l, rfl, FileLog.path_openAt hopen, hls⟩
  | ask h q hask hworks ih =>
    obtain ⟨bs, hmemory, hlists⟩ := ih
    rcases hlists.ask hask with ⟨b, _, _, hstopped⟩ | ⟨bs', hreply, hlists'⟩
    · exact absurd hstopped hworks
    · refine ⟨bs', fun e => ?_, hlists'⟩
      rw [replies_concat, hmemory e]
      simp only [hreply e]
  | stopped h hback happend ih =>
    obtain ⟨bs, hmemory, hlists⟩ := ih
    exact ⟨bs, hmemory, hlists.append_error hback happend⟩
  | turn h hd hstat hread ih =>
    obtain ⟨bs, hmemory, hlists⟩ := ih
    exact ⟨bs, hmemory, hlists.turn hd hstat hread⟩

/-- The log in a file has replied as an empty log in memory would have to the same
requests, and has the same blocks. With nothing in the way of the disk it goes on so,
whatever is asked. A block that is not the next one is refused by both with the same
error, and nothing changes in either; one that the disk refuses changes nothing if it
can be taken back. -/
theorem file_log_replies_as_memory_log (h : Talk p log d qs as) :
    ∃ bs, (∀ e, (memory []).replies e qs = (as, memory bs, e)) ∧ log.Shows d bs ∧
      (d.Calm → ∀ more e, (log.replies d more).1 = ((memory bs).replies e more).1) ∧
      ∀ b x log' d', log.append b d = (.error x, log', d') →
        (x ≠ .disk → x = .outOfOrder bs.length b.index.toNat ∧ log' = log ∧ d' = d ∧
          ∀ e, (memory bs).append b e = (.error x, memory bs, e)) ∧
        (log.RollsBack b d → log' = log ∧ log'.Shows d' bs) := by
  obtain ⟨bs, hmemory, hlists⟩ := h.lists
  have hlength := hlists.holds.shows.length
  refine ⟨bs, hmemory, hlists.holds.shows,
    fun hcalm more e => hlists.replies hcalm e more, ?_⟩
  intro b x log' d' happend
  refine ⟨fun hx => ?_, fun hback => ?_⟩
  · have hindex : b.index.toNat ≠ log.length :=
      fun heq => hx (append_error_of_eq heq happend)
    have hindex' : b.index.toNat ≠ (memory bs).length :=
      fun heq => hindex (heq.trans hlength.symm)
    rw [append_of_ne hindex] at happend
    cases happend
    refine ⟨by rw [hlength], rfl, rfl, fun e => ?_⟩
    rw [append_of_ne hindex', hlength]
    rfl
  · obtain ⟨rfl, hholds⟩ := hlists.holds.append_error hback happend
    exact ⟨rfl, hholds.shows⟩

/-- The disk stops the first block in a new file, which is taken back. Then come a
block out of order, the first block again, and a look at it through a file that was
opened again. -/
theorem file_log_replies_as_memory_log_reopened :
    ∃ (l : FileLog) (d d₁ : Disk) (b c : Block),
      FileLog.openAt ["ledger"] .everyWrite {} = (.ok l, d) ∧
      (file l).append b { d with plan := [some 3] } = (.error .disk, file l, d₁) ∧
      Talk ["ledger"] (file l) d₁ [] [] ∧
      ((file l).replies d₁ [.append c, .append b, .reopen .osDefault,
        .readRange 0 18446744073709551615, .readRange 2 1, .last, .length]).1 =
        [.failed (.outOfOrder 0 3), .done, .done, .blocks [b],
          .failed (.invalidRange 2 1), .block (some b), .number 1] := by
  let b : Block := ⟨⟨0, Digest.zero, Digest.zero, ⟨5, 0⟩, true, 1⟩, Digest.zero⟩
  let c : Block := ⟨⟨3, Digest.zero, Digest.zero, ⟨5, 0⟩, true, 1⟩, Digest.zero⟩
  let l : FileLog := ⟨["ledger"], .everyWrite, 0, 0, 0⟩
  let d : Disk := { entries := [((1, ["ledger"]), .file 0)], contents := [[]] }
  have hopen : FileLog.openAt ["ledger"] .everyWrite {} = (.ok l, d) := rfl
  have hsound : Disk.WellFormed { d with plan := [some 3] } := by
    intro x hx id hid
    rw [List.mem_singleton.1 hx] at hid
    cases hid
    exact Nat.zero_lt_one
  have hback : (file l).RollsBack b { d with plan := [some 3] } := by
    intro f d' hw
    cases hw
    rfl
  have hstopped : (file l).append b { d with plan := [some 3] } =
      (.error .disk, file l, d) := rfl
  have htalk : Talk ["ledger"] (file l) d [] [] :=
    ((Talk.start Disk.wellFormed_empty hopen rfl).turn hsound rfl rfl).stopped
      hback hstopped
  obtain ⟨bs, hmemory, _, hreplies, _⟩ := file_log_replies_as_memory_log htalk
  have hbs : bs = [] := by
    have hsame := congrArg (fun r => r.2.1) (hmemory d)
    exact (BlockLog.memory.inj hsame).symm
  subst hbs
  exact ⟨l, d, d, b, c, hopen, hstopped, htalk, (hreplies ⟨rfl, rfl⟩ _ d).trans rfl⟩

end BlockLog

end Chronicle.Ledger

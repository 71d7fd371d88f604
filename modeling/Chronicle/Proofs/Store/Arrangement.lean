import Chronicle.Proofs.Store.Setup

/-!
# Which setups make a store, and in which order it asks its media

Two loops go through lists of names and stop at the first bad one: the check that no
two media have one name, and the arrangement of the media, which takes them out of
the list one by one. `FirstBad` says where such a loop stops. What is allowed shrinks
by the names that were met, so one step of either loop is one step of
`firstBad_cons`.

* `arrange_of_firstBad`, `arrange_of_allowed`: what the arrangement does with a bad
  name, and without one.
* `Good`, `FirstFault`: what a setup needs, and the first of its needs that is not
  met.
* `exists_ordered_of_good`, `ordered_of_firstFault`: each setup is one or the other,
  and the builder tells which.
* `builder_takes_good_setups_in_order`: all that the builder can answer, and what
  that means for configurations.
-/

namespace Chronicle

/-! ## The first bad item of a list -/

section FirstBad

variable {α : Type} {p q : α → Prop} {as : List α} {a c : α}

/-- The item is the first one in the list that repeats an item before it or is not
allowed. -/
def FirstBad (allowed : α → Prop) (as : List α) (a : α) : Prop :=
  ∃ before after, as = before ++ a :: after ∧ before.Nodup ∧ (∀ b ∈ before, allowed b) ∧
    (a ∈ before ∨ ¬allowed a)

theorem not_firstBad_nil : ¬FirstBad p [] a := by
  rintro ⟨before, after, h, _⟩
  exact List.append_ne_nil_of_right_ne_nil before (List.cons_ne_nil a after) h.symm

theorem FirstBad.congr (h : FirstBad p as a) (hiff : ∀ b, p b ↔ q b) :
    FirstBad q as a := by
  have heq : p = q := funext fun b => propext (hiff b)
  rwa [heq] at h

/-- The first item is the bad one, or it is not allowed a second time. -/
theorem firstBad_cons :
    FirstBad p (c :: as) a ↔ (¬p c ∧ a = c) ∨
      (p c ∧ FirstBad (fun b => p b ∧ b ≠ c) as a) := by
  constructor
  · rintro ⟨before, after, h, hnodup, hall, hbad⟩
    cases before with
    | nil =>
      obtain ⟨rfl, rfl⟩ := List.cons.inj h
      rcases hbad with hin | hbad
      · cases hin
      · exact .inl ⟨hbad, rfl⟩
    | cons b before =>
      obtain ⟨rfl, rfl⟩ := List.cons.inj h
      obtain ⟨hnew, hnodup⟩ := List.nodup_cons.1 hnodup
      obtain ⟨hc, hall⟩ := List.forall_mem_cons.1 hall
      refine .inr ⟨hc, before, after, rfl, hnodup, ?_, ?_⟩
      · intro b hb
        exact ⟨hall b hb, fun heq => hnew (heq ▸ hb)⟩
      · rcases hbad with hin | hbad
        · rcases List.mem_cons.1 hin with rfl | hin
          · exact .inr fun h => h.2 rfl
          · exact .inl hin
        · exact .inr fun h => hbad h.1
  · rintro (⟨hc, rfl⟩ | ⟨hc, before, after, rfl, hnodup, hall, hbad⟩)
    · exact ⟨[], as, rfl, .nil, fun b hb => absurd hb List.not_mem_nil, .inr hc⟩
    · refine ⟨c :: before, after, rfl,
        List.nodup_cons.2 ⟨fun hin => (hall c hin).2 rfl, hnodup⟩, ?_, ?_⟩
      · exact List.forall_mem_cons.2 ⟨hc, fun b hb => (hall b hb).1⟩
      · by_cases heq : a = c
        · exact .inl (heq ▸ List.mem_cons_self)
        · exact hbad.imp (List.mem_cons_of_mem _) fun hnot h => hnot ⟨h, heq⟩

/-- A list without a bad item has only allowed items, each of them once. -/
theorem allowed_or_firstBad (p : α → Prop) (as : List α) :
    (as.Nodup ∧ ∀ a ∈ as, p a) ∨ ∃ a, FirstBad p as a := by
  induction as generalizing p with
  | nil => exact .inl ⟨.nil, fun a ha => absurd ha List.not_mem_nil⟩
  | cons c as ih =>
    by_cases hc : p c
    · rcases ih fun b => p b ∧ b ≠ c with ⟨hnodup, hall⟩ | ⟨a, ha⟩
      · refine .inl ⟨List.nodup_cons.2 ⟨fun hin => (hall c hin).2 rfl, hnodup⟩, ?_⟩
        exact List.forall_mem_cons.2 ⟨hc, fun b hb => (hall b hb).1⟩
      · exact .inr ⟨a, firstBad_cons.2 (.inr ⟨hc, ha⟩)⟩
    · exact .inr ⟨c, firstBad_cons.2 (.inl ⟨hc, rfl⟩)⟩

theorem Config.firstRepeated?_of_firstBad [BEq α] [LawfulBEq α] {seen : List α}
    (h : FirstBad (· ∉ seen) as a) :
    firstRepeated? seen as = some a := by
  induction as generalizing seen with
  | nil => exact absurd h not_firstBad_nil
  | cons c as ih =>
    rw [firstRepeated?]
    rcases firstBad_cons.1 h with ⟨hc, rfl⟩ | ⟨hc, hrest⟩
    · rw [if_pos (List.contains_iff_mem.2 (Classical.not_not.1 hc))]
    · rw [if_neg (fun hin => hc (List.contains_iff_mem.1 hin))]
      -- What was seen is no longer allowed.
      exact ih (hrest.congr fun b => by simp [and_comm])

end FirstBad

namespace Store.Setup

open Medium

variable {μ : Type} [Adapter μ] {s : Setup μ} {left : List μ} {names : List String}
    {name : String}

/-! ## Taking media out by name -/

theorem takeOut?_eq_none (h : name ∉ left.map Adapter.name) :
    takeOut? name left = none := by
  induction left with
  | nil => rfl
  | cons m left ih =>
    rw [List.map_cons, List.mem_cons, not_or] at h
    rw [takeOut?, if_neg (by simpa using Ne.symm h.1), ih h.2]
    rfl

/-- Where all names differ, the medium with a name is taken out, and the others stay
in their order. -/
theorem takeOut?_of_mem (hnodup : (left.map Adapter.name).Nodup)
    (h : name ∈ left.map Adapter.name) :
    ∃ m, Adapter.name m = name ∧
      takeOut? name left = some (m, left.filter fun x => Adapter.name x ≠ name) := by
  induction left with
  | nil => cases h
  | cons first left ih =>
    rw [List.map_cons, List.nodup_cons] at hnodup
    by_cases hfirst : Adapter.name first = name
    · refine ⟨first, hfirst, ?_⟩
      have hothers : (left.filter fun x => Adapter.name x ≠ name) = left := by
        apply List.filter_eq_self.2
        intro x hx
        exact decide_eq_true fun heq => hnodup.1 (hfirst ▸ heq ▸ List.mem_map_of_mem hx)
      rw [takeOut?, if_pos (by simpa using hfirst),
        List.filter_cons_of_neg (by simpa using hfirst), hothers]
    · have hin : name ∈ left.map Adapter.name :=
        (List.mem_cons.1 h).resolve_left (Ne.symm hfirst)
      obtain ⟨m, hm, hout⟩ := ih hnodup.2 hin
      refine ⟨m, hm, ?_⟩
      rw [takeOut?, if_neg (by simpa using hfirst), hout,
        List.filter_cons_of_pos (by simpa using hfirst)]
      rfl

theorem mem_names_filter {other : String} :
    other ∈ (left.filter fun x => Adapter.name x ≠ name).map Adapter.name ↔
      other ∈ left.map Adapter.name ∧ other ≠ name := by
  simp only [List.mem_map, List.mem_filter, decide_eq_true_eq]
  constructor
  · rintro ⟨x, ⟨hx, hne⟩, rfl⟩
    exact ⟨⟨x, hx, rfl⟩, hne⟩
  · rintro ⟨⟨x, hx, rfl⟩, hne⟩
    exact ⟨x, ⟨hx, hne⟩, rfl⟩

theorem nodup_names_filter (keep : μ → Bool) (hnodup : (left.map Adapter.name).Nodup) :
    ((left.filter keep).map Adapter.name).Nodup :=
  hnodup.sublist (List.filter_sublist.map _)

/-! ## Arranging -/

/-- The media are those that the names ask for, in the order of the names, and behind
them the others as they were. -/
def InOrder (names : List String) (media arranged : List μ) : Prop :=
  ∃ first, arranged = first ++ (media.filter fun m => Adapter.name m ∉ names) ∧
    first.map Adapter.name = names

/-- The error for a name that is not among the media that are left. -/
def nameFault (registered : List String) (name : String) : Config.Fault :=
  if registered.contains name then .duplicateBackend name else .unknownBackend name

theorem arrange_of_firstBad (registered : List String)
    (hnodup : (left.map Adapter.name).Nodup)
    (h : FirstBad (· ∈ left.map Adapter.name) names name) :
    arrange registered names left = .error (nameFault registered name) := by
  induction names generalizing left with
  | nil => exact absurd h not_firstBad_nil
  | cons n names ih =>
    rw [arrange]
    rcases firstBad_cons.1 h with ⟨hnot, rfl⟩ | ⟨hin, hrest⟩
    · rw [takeOut?_eq_none hnot]
      rfl
    · obtain ⟨m, _, hout⟩ := takeOut?_of_mem hnodup hin
      -- A name that was taken out is not left a second time, so a repeated name is
      -- bad further on.
      have hleft :=
        ih (nodup_names_filter _ hnodup) (hrest.congr fun b => mem_names_filter.symm)
      simp only [hout, hleft]

theorem arrange_of_allowed (registered : List String)
    (hnodup : (left.map Adapter.name).Nodup) (hnames : names.Nodup)
    (hall : ∀ n ∈ names, n ∈ left.map Adapter.name) :
    ∃ arranged, arrange registered names left = .ok arranged ∧
      InOrder names left arranged := by
  induction names generalizing left with
  | nil => exact ⟨left, rfl, [], (List.filter_eq_self.2 (by simp)).symm, rfl⟩
  | cons n names ih =>
    obtain ⟨hnew, hnames⟩ := List.nodup_cons.1 hnames
    obtain ⟨hin, hall⟩ := List.forall_mem_cons.1 hall
    obtain ⟨m, hm, hout⟩ := takeOut?_of_mem hnodup hin
    have hstill : ∀ x ∈ names,
        x ∈ (left.filter fun y => Adapter.name y ≠ n).map Adapter.name :=
      fun x hx => mem_names_filter.2 ⟨hall x hx, fun heq => hnew (heq ▸ hx)⟩
    obtain ⟨arranged, harranged, first, rfl, hfirst⟩ :=
      ih (nodup_names_filter _ hnodup) hnames hstill
    refine ⟨_, ?_, m :: first, rfl, by rw [List.map_cons, hm, hfirst]⟩
    have hrest : ((left.filter fun y => Adapter.name y ≠ n).filter fun y =>
        Adapter.name y ∉ names) =
        left.filter fun y => Adapter.name y ∉ n :: names := by
      rw [List.filter_filter]
      apply List.filter_congr
      intro y _
      simp [Bool.and_comm]
    rw [arrange, hout]
    simp only [harranged, hrest, List.cons_append]

/-! ## Good setups and first faults -/

/-- The names under which the media are registered. -/
def registered (s : Setup μ) : List String := s.media.map Adapter.name

/-- There are media, slots for calls on them and time for the calls. -/
structure Equipped (s : Setup μ) : Prop where
  media : s.media ≠ []
  parallel : 0 < s.maxParallel
  timeout : 0 < s.timeoutMs

/-- Nothing is missing, no two media have one name, and the order names media that
there are, each at most once. -/
structure Good (s : Setup μ) : Prop extends Equipped s where
  names : s.registered.Nodup
  order : s.recallOrder.Nodup
  known : ∀ name ∈ s.recallOrder, name ∈ s.registered

/-- The fault is the first one of the setup: all that is checked before it is in
order. A bad name in the order is an unknown one if no medium was registered under
it, and otherwise a repeated one. -/
inductive FirstFault (s : Setup μ) : Config.Fault → Prop where
  | noMedia : s.media = [] → FirstFault s .noBackends
  | noSlots : s.media ≠ [] → s.maxParallel = 0 → FirstFault s .zeroParallel
| noTime :
      s.media ≠ [] → 0 < s.maxParallel → s.timeoutMs = 0 → FirstFault s .zeroTimeout
  | repeatedMedium {name : String} :
      s.Equipped → FirstBad (fun _ => True) s.registered name →
      FirstFault s (.duplicateBackend name)
  | unknownName {name : String} :
      s.Equipped → s.registered.Nodup → FirstBad (· ∈ s.registered) s.recallOrder name →
      name ∉ s.registered → FirstFault s (.unknownBackend name)
  | repeatedName {name : String} :
      s.Equipped → s.registered.Nodup → FirstBad (· ∈ s.registered) s.recallOrder name →
      name ∈ s.registered → FirstFault s (.duplicateBackend name)

theorem ordered_of_repeated (h : s.Equipped)
    (hrepeated : Config.firstRepeated? [] (s.media.map Adapter.name) = some name) :
    s.ordered = .error (.duplicateBackend name) := by
  rw [ordered, if_neg (by simpa using h.media), if_neg (Nat.ne_of_gt h.parallel),
    if_neg (Nat.ne_of_gt h.timeout), hrepeated]

theorem ordered_of_nodup (h : s.Equipped) (hnames : s.registered.Nodup) :
    s.ordered = arrange s.registered s.recallOrder s.media := by
  have hnone : Config.firstRepeated? [] (s.media.map Adapter.name) = none :=
    Config.firstRepeated?_eq_none_iff.2 ⟨hnames, fun _ _ => List.not_mem_nil⟩
  rw [ordered, if_neg (by simpa using h.media), if_neg (Nat.ne_of_gt h.parallel),
    if_neg (Nat.ne_of_gt h.timeout), hnone]
  rfl

theorem exists_ordered_of_good (h : s.Good) :
    ∃ arranged, s.ordered = .ok arranged ∧ InOrder s.recallOrder s.media arranged := by
  rw [ordered_of_nodup h.toEquipped h.names]
  exact arrange_of_allowed _ h.names h.order h.known

theorem ordered_of_firstFault {e : Config.Fault} (h : s.FirstFault e) :
    s.ordered = .error e := by
  cases h with
  | noMedia hmedia => rw [ordered, if_pos (by simpa using hmedia)]
  | noSlots hmedia hparallel =>
    rw [ordered, if_neg (by simpa using hmedia), if_pos hparallel]
  | noTime hmedia hparallel htimeout =>
    rw [ordered, if_neg (by simpa using hmedia), if_neg (Nat.ne_of_gt hparallel),
      if_pos htimeout]
  | repeatedMedium hequipped hbad =>
    exact ordered_of_repeated hequipped
      (Config.firstRepeated?_of_firstBad (hbad.congr fun b => by simp))
  | unknownName hequipped hnames hbad hunknown =>
    rw [ordered_of_nodup hequipped hnames, arrange_of_firstBad _ hnames hbad, nameFault,
      if_neg (fun hin => hunknown (List.contains_iff_mem.1 hin))]
  | repeatedName hequipped hnames hbad hknown =>
    rw [ordered_of_nodup hequipped hnames, arrange_of_firstBad _ hnames hbad, nameFault,
      if_pos (List.contains_iff_mem.2 hknown)]

theorem good_or_firstFault (s : Setup μ) : s.Good ∨ ∃ e, s.FirstFault e := by
  by_cases hmedia : s.media = []
  · exact .inr ⟨_, .noMedia hmedia⟩
  rcases Nat.eq_zero_or_pos s.maxParallel with hparallel | hparallel
  · exact .inr ⟨_, .noSlots hmedia hparallel⟩
  rcases Nat.eq_zero_or_pos s.timeoutMs with htimeout | htimeout
  · exact .inr ⟨_, .noTime hmedia hparallel htimeout⟩
  have hequipped : s.Equipped := ⟨hmedia, hparallel, htimeout⟩
  rcases allowed_or_firstBad (fun _ => True) s.registered
    with ⟨hnames, _⟩ | ⟨name, hbad⟩
  · rcases allowed_or_firstBad (· ∈ s.registered) s.recallOrder
      with ⟨horder, hknown⟩ | ⟨name, hbad⟩
    · exact .inl ⟨hequipped, hnames, horder, hknown⟩
    · by_cases hin : name ∈ s.registered
      · exact .inr ⟨_, .repeatedName hequipped hnames hbad hin⟩
      · exact .inr ⟨_, .unknownName hequipped hnames hbad hin⟩
  · exact .inr ⟨_, .repeatedMedium hequipped hbad⟩

theorem good_of_ordered {arranged : List μ}
    (h : s.ordered = .ok arranged) : s.Good := by
  rcases good_or_firstFault s with hgood | ⟨e, he⟩
  · exact hgood
  · rw [ordered_of_firstFault he] at h
    cases h

theorem ordered_eq_error_iff {e : Config.Fault} :
    s.ordered = .error e ↔ s.FirstFault e := by
  refine ⟨fun h => ?_, ordered_of_firstFault⟩
  rcases good_or_firstFault s with hgood | ⟨f, hf⟩
  · obtain ⟨arranged, harranged, _⟩ := exists_ordered_of_good hgood
    rw [harranged] at h
    cases h
  · rw [ordered_of_firstFault hf] at h
    cases h
    exact hf

/-! ## What the builder answers -/

theorem build_eq_error_iff {e : Config.Fault} :
    s.build = .error (.error e) ↔ s.FirstFault e := by
  rw [← ordered_eq_error_iff, build]
  cases s.ordered with
  | error f => simp
  | ok arranged =>
    simp only [reduceCtorEq, iff_false]
    split <;> simp

theorem build_eq_breakdown_iff :
    s.build = .error .breakdown ↔ s.Good ∧ slotLimit < s.maxParallel := by
  rw [build]
  cases h : s.ordered with
  | error f =>
    have hnot : ¬s.Good := by
      intro hgood
      obtain ⟨arranged, harranged, _⟩ := exists_ordered_of_good hgood
      rw [harranged] at h
      cases h
    simp [hnot]
  | ok arranged =>
    have hgood := good_of_ordered h
    by_cases hslots : slotLimit < s.maxParallel <;> simp [hgood, hslots]

/-- A store has the media in order, and as many slots and as much time as the setup
says. -/
theorem build_eq_ok_iff {st : Store μ} :
    s.build = .ok st ↔ s.Good ∧ s.maxParallel ≤ slotLimit ∧
      ∃ arranged, s.ordered = .ok arranged ∧
      st = ⟨arranged.map fun m => { medium := m }, s.ledger, s.maxParallel,
        s.timeoutMs⟩ := by
  rw [build]
  cases h : s.ordered with
  | error f => simp
  | ok arranged =>
    have hgood := good_of_ordered h
    by_cases hslots : slotLimit < s.maxParallel
    · simp [hslots, Nat.not_le.2 hslots]
    · simp [hslots, Nat.not_lt.1 hslots, hgood, eq_comm]

/-- Without an order to bring them into, the media stay as they are. -/
theorem build_unordered_eq_ok_iff {st : Store μ} (horder : s.recallOrder = []) :
    s.build = .ok st ↔ s.Good ∧ s.maxParallel ≤ slotLimit ∧
      st = ⟨s.media.map fun m => { medium := m }, s.ledger, s.maxParallel,
        s.timeoutMs⟩ := by
  rw [build_eq_ok_iff]
  refine and_congr_right fun hgood => and_congr_right fun _ => ?_
  have hordered : s.ordered = .ok s.media := by
    rw [ordered_of_nodup hgood.toEquipped hgood.names, horder]
    rfl
  simp [hordered]

end Store.Setup

/-! ## Configurations -/

theorem Config.validate_eq_ok {c : Config} (h : c.validate = .ok ()) :
    c.backends ≠ [] ∧ c.backends.Nodup ∧ c.timeoutMs ≠ 0 ∧ c.maxParallel ≠ 0 := by
  rw [validate] at h
  split at h
  · cases h
  · next hbackends =>
    split at h
    · cases h
    · next hnone =>
      split at h
      · cases h
      · next htimeout =>
        split at h
        · cases h
        · next hparallel =>
          exact ⟨by simpa using hbackends, (firstRepeated?_eq_none_iff.1 hnone).1,
            htimeout, hparallel⟩

theorem Medium.name_of_openIn [Compression] [Table.Engine] {k : Kind} {dir : Path}
    {d d' : Disk} {m : Medium} (h : openIn k dir d = (.ok m, d')) :
    m.name = k.name := by
  have hmap {α : Type} {r : Except Error α} {f : α → Medium} {d₁ : Disk}
      (h : (r.map f, d₁) = (.ok m, d')) : ∃ a, r = .ok a ∧ m = f a := by
    cases r with
    | error e => cases h
    | ok a =>
      cases h
      exact ⟨a, rfl, rfl⟩
  have hformat {format : Format} {p : Path} {f : Files}
      (h : (Files.openAt format p d).1 = .ok f) : f.format = format := by
    rw [Files.openAt] at h
    split at h
    · cases h
    · split at h
      · cases h
      · cases h
        rfl
  cases k with
  | structured =>
    obtain ⟨_, _, rfl⟩ := hmap h
    rfl
  | document =>
    obtain ⟨f, hf, rfl⟩ := hmap h
    show f.format.name = _
    rw [hformat hf]
    rfl
  | recursive =>
    obtain ⟨_, _, rfl⟩ := hmap h
    rfl
  | archive =>
    obtain ⟨_, _, rfl⟩ := hmap h
    rfl
  | glyph =>
    obtain ⟨f, hf, rfl⟩ := hmap h
    show f.format.name = _
    rw [hformat hf]
    rfl

namespace Store

open Medium

theorem ledger_of_openLedger_error {p : Path} {mode : SyncMode} {d d' : Disk}
    {e : Error} (h : openLedger p mode d = (.error e, d')) :
    ∃ cause, e = .ledger cause := by
  rw [openLedger] at h
  split at h
  · cases h
    exact ⟨_, rfl⟩
  · split at h
    · cases h
      exact ⟨_, rfl⟩
    · cases h

section

variable [Compression] [Table.Engine]

theorem names_of_openMedia {dir : Path} {ks : List Kind} {d d' : Disk}
    {media : List Medium} (h : openMedia dir ks d = (.ok media, d')) :
    media.map Adapter.name = ks.map Kind.name := by
  induction ks generalizing d media with
  | nil =>
    cases h
    rfl
  | cons k ks ih =>
    rw [openMedia] at h
    split at h
    · cases h
    · next m d₁ hopen =>
      split at h
      · cases h
      · next ms d₂ hrest =>
        cases h
        rw [List.map_cons, List.map_cons, ih hrest]
        exact congrArg (· :: _) (name_of_openIn hopen)

theorem medium_of_openMedia_error {dir : Path} {ks : List Kind} {d d' : Disk}
    {e : Error} (h : openMedia dir ks d = (.error e, d')) :
    ∃ name cause, e = .medium name cause := by
  induction ks generalizing d with
  | nil => cases h
  | cons k ks ih =>
    rw [openMedia] at h
    split at h
    · cases h
      exact ⟨_, _, rfl⟩
    · split at h
      · next hrest =>
        cases h
        exact ih hrest
      · cases h

/-- What the store of a configuration is built from. -/
def configured (c : Config) (media : List Medium) (ledger : Ledger) : Setup Medium :=
  { media, ledger, timeoutMs := c.timeoutMs.toNat, maxParallel := c.maxParallel.toNat }

/-- The media of a valid configuration make a good setup, whatever is on the disk. -/
theorem good_of_validate {c : Config} {dir : Path} {d d' : Disk} {media : List Medium}
    (ledger : Ledger) (hvalid : c.validate = .ok ())
    (hmedia : openMedia dir c.backends d = (.ok media, d')) :
    (configured c media ledger).Good := by
  obtain ⟨hbackends, hnodup, htimeout, hparallel⟩ := Config.validate_eq_ok hvalid
  have hnames := names_of_openMedia hmedia
  refine ⟨⟨?_, ?_, ?_⟩, ?_, .nil, fun name hname => absurd hname List.not_mem_nil⟩
  · rintro rfl
    exact hbackends (List.map_eq_nil_iff.1 hnames.symm)
  · exact Nat.pos_of_ne_zero fun h => hparallel (UInt64.toNat_inj.1 h)
  · exact Nat.pos_of_ne_zero fun h => htimeout (UInt64.toNat_inj.1 h)
  · show (media.map Adapter.name).Nodup
    rw [hnames]
    exact List.pairwise_map.2 (hnodup.imp fun hne h => hne (Kind.name_inj h))

/-- Opening the store of a valid configuration fails only where something cannot be
opened, or where there are more slots than can be managed. -/
theorem openWith_of_validate {c : Config} (hvalid : c.validate = .ok ()) (base : Path)
    (d : Disk) :
    (∀ e, (openWith c base d).1 ≠ .error (.error (.setup e))) ∧
      ((openWith c base d).1 = .error .breakdown →
        Setup.slotLimit < c.maxParallel.toNat) := by
  rw [openWith, hvalid]
  simp only
  split
  · simp
  · split
    · next hmedia =>
      obtain ⟨name, cause, rfl⟩ := medium_of_openMedia_error hmedia
      simp
    · next media d₂ hmedia =>
      split
      · next hledger =>
        obtain ⟨cause, rfl⟩ := ledger_of_openLedger_error hledger
        simp
      · next ledger d₃ hledger =>
        have hgood := good_of_validate ledger hvalid hmedia
        split
        · simp
        · next e hbuild =>
          -- A good setup has no fault.
          have hfault := Setup.ordered_of_firstFault (Setup.build_eq_error_iff.1 hbuild)
          obtain ⟨arranged, harranged, _⟩ := Setup.exists_ordered_of_good hgood
          rw [configured, hfault] at harranged
          cases harranged
        · next hbuild =>
          have hslots := (Setup.build_eq_breakdown_iff.1 hbuild).2
          simpa using hslots

/-- A store is built from every good setup that does not ask for more slots than can
be managed; its media are those of the setup, first those in the recall order and
then the others as they were registered. Any other setup is refused with its first
fault, or breaks the builder down for its slots alone. So a valid configuration is
never refused by the builder, and breaks it down only for its slots. -/
theorem builder_takes_good_setups_in_order {μ : Type} [Adapter μ] (s : Setup μ) :
    ((∃ st, s.build = .ok st) ↔ s.Good ∧ s.maxParallel ≤ Setup.slotLimit) ∧
      (∀ st, s.build = .ok st → (st.members.map Member.medium).Perm s.media ∧
        Setup.InOrder s.recallOrder s.media (st.members.map Member.medium)) ∧
      (∀ e, s.build = .error (.error e) ↔ s.FirstFault e) ∧
      (s.build = .error .breakdown ↔ s.Good ∧ Setup.slotLimit < s.maxParallel) ∧
      (∀ c : Config, c.validate = .ok () → ∀ base d,
        (∀ e, (openWith c base d).1 ≠ .error (.error (.setup e))) ∧
          ((openWith c base d).1 = .error .breakdown →
            Setup.slotLimit < c.maxParallel.toNat)) := by
  refine ⟨⟨?_, ?_⟩, ?_, fun e => Setup.build_eq_error_iff,
    Setup.build_eq_breakdown_iff, ?_⟩
  · rintro ⟨st, hst⟩
    obtain ⟨hgood, hslots, _⟩ := Setup.build_eq_ok_iff.1 hst
    exact ⟨hgood, hslots⟩
  · rintro ⟨hgood, hslots⟩
    obtain ⟨arranged, harranged, _⟩ := Setup.exists_ordered_of_good hgood
    exact ⟨_, Setup.build_eq_ok_iff.2 ⟨hgood, hslots, arranged, harranged, rfl⟩⟩
  · intro st hst
    obtain ⟨hgood, _, arranged, harranged, rfl⟩ := Setup.build_eq_ok_iff.1 hst
    obtain ⟨arranged', harranged', horder⟩ := Setup.exists_ordered_of_good hgood
    rw [harranged] at harranged'
    cases harranged'
    have hmedia : (arranged.map fun m => ({ medium := m } : Member μ)).map
        Member.medium = arranged := by
      rw [List.map_map]
      exact List.map_id' arranged
    rw [hmedia]
    exact ⟨(Setup.ordered_eq_ok harranged).1, horder⟩
  · intro c hvalid base d
    exact openWith_of_validate hvalid base d

end

/-- Of three media the last is to be asked first, then the first. -/
theorem builder_takes_good_setups_in_order_lastFirst :
    let setup : Setup Medium :=
      { media := [.memory { name := "a" }, .memory { name := "b" },
        .memory { name := "c" }], recallOrder := ["c", "a"] }
    setup.Good ∧ ∃ st, setup.build = .ok st ∧ st.names = ["c", "a", "b"] := by
  intro setup
  have hgood : setup.Good :=
    ⟨⟨by simp [setup], by decide, by decide⟩, by decide, by decide, by decide⟩
  obtain ⟨haccepts, horders, _⟩ := builder_takes_good_setups_in_order setup
  obtain ⟨st, hst⟩ := haccepts.2 ⟨hgood, by decide⟩
  obtain ⟨_, first, harranged, hfirst⟩ := horders st hst
  refine ⟨hgood, st, hst, ?_⟩
  have hnames : st.names = (st.members.map Member.medium).map Adapter.name := by
    rw [List.map_map]
    rfl
  rw [hnames, harranged, List.map_append, hfirst]
  rfl

/-- With one slot more than can be managed, a good setup breaks the builder down, and
so does a valid configuration. -/
theorem good_setup_breaks_builder_down :
    let setup : Setup Medium :=
  { media := [.memory { name := "a" }], maxParallel := 2305843009213693952 }
    let config : Config :=
      { backends := [.document], maxParallel := 2305843009213693952 }
    (setup.Good ∧ setup.build = .error .breakdown) ∧
      config.validate = .ok () ∧ (openWith config [] {}).1 = .error .breakdown := by
  intro setup
  have hgood : setup.Good :=
    ⟨⟨by simp [setup], by decide, by decide⟩, by decide, .nil,
      fun name hname => absurd hname List.not_mem_nil⟩
  exact ⟨⟨hgood, Setup.build_eq_breakdown_iff.2 ⟨hgood, by decide⟩⟩, rfl, rfl⟩

end Store

end Chronicle

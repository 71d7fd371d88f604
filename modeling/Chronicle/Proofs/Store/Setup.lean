import Chronicle.Store.Setup

/-!
# Stores that were built

The builder takes no two media of one name, and a store has the media that were
handed in, rearranged.

* `firstRepeated?_eq_none_iff`: the check for names that come twice.
* `arrange_perm`: arranging loses nothing.
* `build_eq_ok`: what a store has at its beginning.
-/

namespace Chronicle

theorem Config.firstRepeated?_eq_none_iff {α : Type} [BEq α] [LawfulBEq α]
    {seen as : List α} :
    firstRepeated? seen as = none ↔ as.Nodup ∧ ∀ a ∈ as, a ∉ seen := by
  induction as generalizing seen with
  | nil => simp [firstRepeated?]
  | cons a as ih =>
    rw [firstRepeated?]
    by_cases ha : a ∈ seen
    · simp [ha]
    · simp only [List.contains_eq_mem, ha, decide_false, Bool.false_eq_true, if_false,
        ih, List.nodup_cons, List.mem_cons, not_or, forall_eq_or_imp,
        not_false_eq_true, true_and]
      constructor
      · rintro ⟨hnodup, hnew⟩
        exact ⟨⟨fun hin => (hnew a hin).1 rfl, hnodup⟩, fun b hb => (hnew b hb).2⟩
      · rintro ⟨⟨hnot, hnodup⟩, hnew⟩
        exact ⟨hnodup, fun b hb => ⟨fun heq => hnot (heq ▸ hb), hnew b hb⟩⟩

namespace Store.Setup

variable {μ : Type} [Medium.Adapter μ]

theorem takeOut?_perm {name : String} {ms rest : List μ} {m : μ}
    (h : takeOut? name ms = some (m, rest)) : ms.Perm (m :: rest) := by
  induction ms generalizing rest with
  | nil => cases h
  | cons first ms ih =>
    rw [takeOut?] at h
    split at h
    · cases h
      exact .refl _
    · obtain ⟨⟨found, left⟩, hleft, hpair⟩ := Option.map_eq_some_iff.1 h
      cases hpair
      exact ((ih hleft).cons first).trans (.swap m first left)

theorem arrange_perm {registered names : List String} {ms arranged : List μ}
    (h : arrange registered names ms = .ok arranged) : arranged.Perm ms := by
  induction names generalizing ms arranged with
  | nil =>
    cases h
    exact .refl _
  | cons name names ih =>
    rw [arrange] at h
    split at h
    · cases h
    · next m left hout =>
      split at h
      · cases h
      · next rest hrest =>
        cases h
        exact ((ih hrest).cons m).trans (takeOut?_perm hout).symm

theorem ordered_eq_ok {setup : Setup μ} {ms : List μ} (h : setup.ordered = .ok ms) :
    ms.Perm setup.media ∧ (setup.media.map Medium.Adapter.name).Nodup := by
  rw [ordered] at h
  -- Of the checks only the one for repeated names matters here.
  split at h
  · cases h
  · split at h
    · cases h
    · split at h
      · cases h
      · split at h
        · cases h
        · next hnone =>
            exact ⟨arrange_perm h, (Config.firstRepeated?_eq_none_iff.1 hnone).1⟩

/-- A store begins with media of different names that have counted nothing, over the
ledger of the setup. -/
theorem build_eq_ok {setup : Setup μ} {s : Store μ} (h : setup.build = .ok s) :
    s.names.Nodup ∧ (∀ m ∈ s.members, m.acks = 0 ∧ m.failures = 0) ∧
      s.ledger = setup.ledger := by
  rw [build] at h
  split at h
  · cases h
  · next ms hms =>
    obtain ⟨hperm, hnodup⟩ := ordered_eq_ok hms
    split at h
    · cases h
    · cases h
      refine ⟨?_, ?_, rfl⟩
      · have hnames : (ms.map fun m => ({ medium := m } : Member μ)).map Member.name =
            ms.map Medium.Adapter.name := by
          rw [List.map_map]
          rfl
        rw [names, hnames]
        exact (hperm.map _).nodup_iff.2 hnodup
      · intro m hm
        obtain ⟨medium, _, rfl⟩ := List.mem_map.1 hm
        exact ⟨rfl, rfl⟩

end Store.Setup

end Chronicle

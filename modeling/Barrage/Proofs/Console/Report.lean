import Barrage.Console.Run
import Barrage.Proofs.Process.Ids
import Mathlib.Data.List.Induction

/-!
# What the report of a run knows

What comes in changes the entries of a report, or adds one, but takes nothing back: the entries stay in
increasing order of their processes (`pairwise_ids_receive`), so there is one for each; every process
that is expected keeps its entry, and an entry is ready only if a READY of its process has come in
(`Knows.receive`). So a report in which all expected processes are ready has heard READY from each of
them (`Knows.says_ready_of_allReady`), and stays so (`allReady_receive`).
-/

namespace Barrage

/-- Whether READY of a process comes in. -/
def Inbound.SaysReady (i : Inbound) (ids : ProcessIds) : Prop :=
  ∃ daemon e, i = .message daemon e ∧ e.type = .ready ∧ e.decode ProcessIds = .ok ids

/-- What becomes of an entry when something comes in. -/
structure ProcessReport.Grows (i : Inbound) (old entry : ProcessReport) : Prop where
  ids_eq : entry.ids = old.ids
  expected_eq : entry.expected = old.expected
  ready_of : old.ready = true → entry.ready = true
  says_ready : entry.ready = true → old.ready = true ∨ i.SaysReady entry.ids

namespace RunReport

variable {report : RunReport} {i : Inbound} {daemon : UInt32} {e : Envelope} {ids : ProcessIds}
  {f : ProcessReport → ProcessReport} {entry old : ProcessReport}

open ProcessReport (Grows)

theorem ok_of_toOption {ε α : Type} {x : Except ε α} {a : α} (h : x.toOption = some a) :
    x = .ok a := by
  cases x with
  | error _ => cases h
  | ok b => exact congrArg Except.ok (Option.some.inj h)

theorem grows_refl (i : Inbound) (old : ProcessReport) : Grows i old old :=
  ⟨rfl, rfl, id, .inl⟩

/-- An envelope changes the entry of the process that it is about. -/
theorem grows_of_change? (h : change? e = some (ids, f)) (hids : old.ids = ids) :
    Grows (.message daemon e) old (f old) := by
  unfold change? at h
  split at h
  · rename_i htype
    obtain ⟨ids', hdecode, hsame⟩ := Option.map_eq_some_iff.1 h
    obtain ⟨rfl, rfl⟩ := Prod.mk.inj hsame
    have hsays : (Inbound.message daemon e).SaysReady ids' :=
      ⟨daemon, e, rfl, htype, ok_of_toOption hdecode⟩
    exact ⟨rfl, rfl, fun _ => rfl, fun _ => .inr (hids ▸ hsays)⟩
  · obtain ⟨ids', -, hsame⟩ := Option.map_eq_some_iff.1 h
    obtain ⟨rfl, rfl⟩ := Prod.mk.inj hsame
    exact ⟨rfl, rfl, id, .inl⟩
  · obtain ⟨s, -, hsame⟩ := Option.map_eq_some_iff.1 h
    obtain ⟨rfl, rfl⟩ := Prod.mk.inj hsame
    exact ⟨rfl, rfl, id, .inl⟩
  · obtain ⟨s, -, hsame⟩ := Option.map_eq_some_iff.1 h
    obtain ⟨rfl, rfl⟩ := Prod.mk.inj hsame
    exact ⟨rfl, rfl, id, .inl⟩
  · cases h

theorem grows_markLost (i : Inbound) (old : ProcessReport) : Grows i old old.markLost := by
  unfold ProcessReport.markLost
  split
  · exact grows_refl i old
  · exact ⟨rfl, rfl, id, .inl⟩

/-- An entry after a change was there before, changed or not, or is new. -/
theorem mem_updateEntry {entries : List ProcessReport} (h : entry ∈ updateEntry ids f entries) :
    entry ∈ entries ∨ (∃ old ∈ entries, old.ids = ids ∧ entry = f old) ∨
      entry = f (.new ids false) := by
  -- the row is in order: an entry is made before the first that is greater
  induction entries with
  | nil => exact .inr (.inr (List.mem_singleton.1 h))
  | cons r rest ih =>
    unfold updateEntry at h
    split at h
    · rcases List.mem_cons.1 h with rfl | h
      · exact .inr (.inr rfl)
      · exact .inl h
    · split at h
      · rename_i hids
        rcases List.mem_cons.1 h with rfl | h
        · exact .inr (.inl ⟨r, List.mem_cons_self, hids.symm, rfl⟩)
        · exact .inl (List.mem_cons_of_mem _ h)
      · rcases List.mem_cons.1 h with rfl | h
        · exact .inl List.mem_cons_self
        · rcases ih h with h | ⟨old, hold, hrest⟩ | h
          · exact .inl (List.mem_cons_of_mem _ h)
          · exact .inr (.inl ⟨old, List.mem_cons_of_mem _ hold, hrest⟩)
          · exact .inr (.inr h)

/-- No entry goes away by a change. -/
theorem exists_updateEntry {entries : List ProcessReport} (h : old ∈ entries) :
    old ∈ updateEntry ids f entries ∨ (old.ids = ids ∧ f old ∈ updateEntry ids f entries) := by
  induction entries with
  | nil => cases h
  | cons r rest ih =>
    unfold updateEntry
    split
    · exact .inl (List.mem_cons_of_mem _ h)
    · split
      · rename_i hids
        rcases List.mem_cons.1 h with rfl | h
        · exact .inr ⟨hids.symm, List.mem_cons_self⟩
        · exact .inl (List.mem_cons_of_mem _ h)
      · rcases List.mem_cons.1 h with rfl | h
        · exact .inl List.mem_cons_self
        · rcases ih h with h | ⟨hids, h⟩
          · exact .inl (List.mem_cons_of_mem _ h)
          · exact .inr ⟨hids, List.mem_cons_of_mem _ h⟩

/-- An entry after something came in has grown from one before it, or from a new one, which is not
expected. -/
theorem exists_grows (h : entry ∈ (report.receive i).entries) :
    ∃ old, (old ∈ report.entries ∨ ∃ ids, old = .new ids false) ∧ Grows i old entry := by
  cases i with
  | lost daemon =>
    obtain ⟨old, hold, rfl⟩ := List.mem_map.1 h
    refine ⟨old, .inl hold, ?_⟩
    split
    · exact grows_markLost _ old
    · exact grows_refl _ old
  | message daemon e =>
    simp only [receive, apply] at h
    split at h
    · rename_i ids f hchange
      rcases mem_updateEntry h with hold | ⟨old, hold, hids, rfl⟩ | rfl
      · exact ⟨entry, .inl hold, grows_refl _ entry⟩
      · exact ⟨old, .inl hold, grows_of_change? hchange hids⟩
      · exact ⟨_, .inr ⟨ids, rfl⟩, grows_of_change? hchange rfl⟩
    · exact ⟨entry, .inl h, grows_refl _ entry⟩

/-- Every entry grows when something comes in. -/
theorem exists_grown (h : old ∈ report.entries) :
    ∃ entry ∈ (report.receive i).entries, Grows i old entry := by
  cases i with
  | lost daemon =>
    refine ⟨_, List.mem_map_of_mem h, ?_⟩
    split
    · exact grows_markLost _ old
    · exact grows_refl _ old
  | message daemon e =>
    simp only [receive, apply]
    split
    · rename_i ids f hchange
      have hgrown : old ∈ updateEntry ids f report.entries ∨
          old.ids = ids ∧ f old ∈ updateEntry ids f report.entries := exists_updateEntry h
      rcases hgrown with hold | ⟨hids, hnew⟩
      · exact ⟨old, hold, grows_refl _ old⟩
      · exact ⟨f old, hnew, grows_of_change? hchange hids⟩
    · exact ⟨old, h, grows_refl _ old⟩

/-- A change of a process puts the process into the row of all that have an entry. -/
theorem map_ids_updateEntry (hf : ∀ r : ProcessReport, r.ids = ids → (f r).ids = ids)
    (entries : List ProcessReport) :
    (updateEntry ids f entries).map (·.ids) = ProcessIds.insert ids (entries.map (·.ids)) := by
  induction entries with
  | nil => simp [updateEntry, ProcessIds.insert, hf (.new ids false) rfl]
  | cons r rest ih =>
    unfold updateEntry
    rw [List.map_cons, ProcessIds.insert]
    split
    · simp [hf (.new ids false) rfl]
    · split
      · rename_i hids
        simp [hf r hids.symm, hids]
      · simp [ih]

/-- The entries stay in increasing order of their processes. -/
theorem pairwise_ids_receive (h : (report.entries.map (·.ids)).Pairwise (· < ·)) :
    ((report.receive i).entries.map (·.ids)).Pairwise (· < ·) := by
  cases i with
  | lost daemon =>
    have hsame : (report.receive (.lost daemon)).entries.map (·.ids) =
        report.entries.map (·.ids) := by
      simp only [receive, markDaemonLost, List.map_map]
      refine List.map_congr_left fun r _ => ?_
      simp only [Function.comp_apply]
      split
      · exact (grows_markLost (.lost daemon) r).ids_eq
      · rfl
    rwa [hsame]
  | message daemon e =>
    simp only [receive, apply]
    split
    · rename_i ids f hchange
      have hf (r : ProcessReport) (hids : r.ids = ids) : (f r).ids = ids :=
        (grows_of_change? hchange hids : Grows (.message daemon e) r (f r)).ids_eq.trans hids
      rw [update, map_ids_updateEntry hf]
      exact ProcessIds.pairwise_insert h
    · exact h

/-- Where the entries are in increasing order, each is found by its process. -/
theorem get?_eq_of_mem (h : (report.entries.map (·.ids)).Pairwise (· < ·))
    (hentry : entry ∈ report.entries) : report.get? entry.ids = some entry := by
  unfold get?
  generalize report.entries = entries at h hentry
  induction entries with
  | nil => cases hentry
  | cons r rest ih =>
    obtain ⟨hr, hrest⟩ := List.pairwise_cons.1 h
    rcases List.mem_cons.1 hentry with rfl | hentry
    · simp
    -- an entry further on is greater, so the search does not end at the first
    · have hne : r.ids ≠ entry.ids := by
        intro hsame
        have hlt : r.ids < entry.ids := hr entry.ids (List.mem_map_of_mem hentry)
        rw [hsame] at hlt
        exact ProcessIds.lt_irrefl _ hlt
      rw [List.find?_cons_of_neg (by simpa using hne)]
      exact ih hrest hentry

/-- Where every expected process is ready, it stays so. -/
theorem allReady_receive (h : report.allReady = true) : (report.receive i).allReady = true := by
  simp only [allReady, List.all_eq_true, Bool.or_eq_true, Bool.not_eq_true'] at h ⊢
  intro entry hentry
  obtain ⟨old, hold | ⟨ids, rfl⟩, hgrows⟩ := exists_grows hentry
  · rw [hgrows.expected_eq]
    exact (h old hold).imp_right hgrows.ready_of
  · exact .inl hgrows.expected_eq

/-! ### The report of all that came in -/

variable {expected : List ProcessIds} {taken : List Inbound}

/-- What a report knows after some traffic: the processes that are expected have entries, and READY has
come in from those that are ready. -/
structure Knows (expected : List ProcessIds) (taken : List Inbound) (report : RunReport) : Prop where
  increasing : (report.entries.map (·.ids)).Pairwise (· < ·)
  exists_entry : ∀ ids ∈ expected, ∃ entry ∈ report.entries, entry.ids = ids ∧ entry.expected = true
  says_ready : ∀ entry ∈ report.entries, entry.ready = true → ∃ i ∈ taken, i.SaysReady entry.ids

theorem knows_new (expected : List ProcessIds) : Knows expected [] (.new expected) := by
  constructor
  · simpa [RunReport.new, ProcessReport.new, Function.comp_def] using
      ProcessIds.pairwise_distinct expected
  · intro ids hids
    exact ⟨_, List.mem_map_of_mem (ProcessIds.mem_distinct.2 hids), rfl, rfl⟩
  · intro entry hentry hready
    obtain ⟨ids, -, rfl⟩ := List.mem_map.1 hentry
    cases hready

theorem Knows.receive (h : Knows expected taken report) (i : Inbound) :
    Knows expected (taken ++ [i]) (report.receive i) := by
  constructor
  · exact pairwise_ids_receive h.increasing
  · intro ids hids
    obtain ⟨old, hold, hsame, hexpected⟩ := h.exists_entry ids hids
    obtain ⟨entry, hentry, hgrows⟩ := exists_grown hold
    exact ⟨entry, hentry, hgrows.ids_eq.trans hsame, hgrows.expected_eq.trans hexpected⟩
  · intro entry hentry hready
    obtain ⟨old, hold, hgrows⟩ := exists_grows hentry
    rcases hgrows.says_ready hready with hbefore | hsays
    · rcases hold with hold | ⟨ids, rfl⟩
      · obtain ⟨j, hj, hsays⟩ := h.says_ready old hold hbefore
        exact ⟨j, List.mem_append_left _ hj, hgrows.ids_eq ▸ hsays⟩
      · cases hbefore
    · exact ⟨i, by simp, hsays⟩

/-- The report of some traffic knows what came in. -/
theorem knows_foldl (expected : List ProcessIds) (taken : List Inbound) :
    Knows expected taken (taken.foldl RunReport.receive (.new expected)) := by
  induction taken using List.reverseRecOn with
  | nil => exact knows_new expected
  | append_singleton taken i ih =>
    rw [List.foldl_append]
    exact ih.receive i

/-- When all expected processes are ready, the entry of each of them says so. -/
theorem Knows.exists_ready (h : Knows expected taken report) (hready : report.allReady = true)
    {ids : ProcessIds} (hids : ids ∈ expected) :
    ∃ entry ∈ report.entries, report.get? ids = some entry ∧ entry.ready = true := by
  obtain ⟨entry, hentry, rfl, hexpected⟩ := h.exists_entry ids hids
  simp only [allReady, List.all_eq_true, Bool.or_eq_true, Bool.not_eq_true'] at hready
  refine ⟨entry, hentry, get?_eq_of_mem h.increasing hentry, ?_⟩
  refine (hready entry hentry).resolve_left fun hother => ?_
  exact absurd (hexpected.symm.trans hother) nofun

/-- When all expected processes are ready, READY has come in from each of them. -/
theorem Knows.says_ready_of_allReady (h : Knows expected taken report)
    (hready : report.allReady = true) {ids : ProcessIds} (hids : ids ∈ expected) :
    ∃ i ∈ taken, i.SaysReady ids := by
  obtain ⟨entry, hentry, hget, hentryReady⟩ := h.exists_ready hready hids
  obtain rfl : entry.ids = ids := by simpa using List.find?_some hget
  exact h.says_ready entry hentry hentryReady

end RunReport

end Barrage

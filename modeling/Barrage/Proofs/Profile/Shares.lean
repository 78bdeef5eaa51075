import Barrage.Process.Run
import Barrage.Profile.LoadProfile
import Barrage.Proofs.Message.Payloads
import Barrage.Proofs.Process.Ids
import Mathlib.Algebra.Ring.Nat
import Mathlib.Data.List.Nodup
import Mathlib.Data.List.Perm.Basic

/-!
# The shares of a load profile

A profile is divided twice: each daemon is sent its own events, and each process takes those of its
own number from what its daemon passes on (`LoadProfile.share`).  Both together are a division by
process (`LoadProfile.filter_configFor`), and a division of a row by keys makes up the row
(`perm_flatMap_filter`), so that no event is lost and none is done twice
(`LoadProfile.shares_make_up_events`).
-/

namespace Barrage

/-! ### Dividing a row -/

/-- Of distinct keys, one is that of an entry. -/
theorem flatMap_singleton_of_nodup {β κ : Type} [DecidableEq κ] {keys : List κ} (hkeys : keys.Nodup)
    {key : κ} (hkey : key ∈ keys) (x : β) :
    (keys.flatMap fun k => if key = k then [x] else []) = [x] := by
  induction keys with
  | nil => cases hkey
  | cons k keys ih =>
    obtain ⟨hk, hkeys⟩ := List.nodup_cons.1 hkeys
    by_cases he : key = k
    · subst he
      have hnone : (keys.flatMap fun k => if key = k then [x] else []) = [] := by
        rw [List.flatMap_eq_nil_iff]
        intro other hother
        have hne : key ≠ other := fun he => hk (by rwa [he])
        rw [if_neg hne]
      simp [hnone]
    · simp [he, ih hkeys ((List.mem_cons.1 hkey).resolve_left he)]

/-- The parts of a row by distinct keys, put together, make up the row. -/
theorem perm_flatMap_filter {β κ : Type} [DecidableEq κ] {f : β → κ} {keys : List κ}
    (hkeys : keys.Nodup) {row : List β} (hrow : ∀ x ∈ row, f x ∈ keys) :
    (keys.flatMap fun k => row.filter fun x => f x = k).Perm row := by
  induction row with
  | nil => simp
  | cons x row ih =>
    have hsplit (k : κ) : (x :: row).filter (fun y => f y = k) =
        (if f x = k then [x] else []) ++ row.filter fun y => f y = k := by
      by_cases he : f x = k <;> simp [he]
    calc
      List.Perm _ (keys.flatMap fun k =>
          (if f x = k then [x] else []) ++ row.filter fun y => f y = k) := by
        simp only [hsplit]
        exact .refl _
      List.Perm _ ((keys.flatMap fun k => if f x = k then [x] else []) ++
          keys.flatMap fun k => row.filter fun y => f y = k) :=
        (List.flatMap_append_perm _ _ _).symm
      List.Perm _ (x :: row) := by
        rw [flatMap_singleton_of_nodup hkeys (hrow x List.mem_cons_self)]
        exact (ih fun y hy => hrow y (List.mem_cons_of_mem _ hy)).cons x

/-! ### Numbering -/

/-- What an assignment asks for, apart from its number. -/
def Assignment.task (a : Assignment) : String × String × Nat := (a.operation, a.target, a.offset)

/-- What an event asks for, apart from its process. -/
def Event.task (e : Event) : String × String × Nat := (e.operation, e.target, e.offset.toNat)

theorem assignmentsFrom_eq_mapIdx (thread : Nat) (events : List Event) :
    assignmentsFrom thread events =
      events.mapIdx fun i e => ⟨thread + i, e.operation, e.target, e.offset.toNat⟩ := by
  induction events generalizing thread with
  | nil => rfl
  | cons e events ih =>
    simp only [assignmentsFrom, ih, List.mapIdx_cons, Nat.add_zero, Nat.add_assoc, Nat.add_comm 1]

theorem map_thread_assignmentsFrom (thread : Nat) (events : List Event) :
    (assignmentsFrom thread events).map Assignment.thread = List.range' thread events.length := by
  induction events generalizing thread with
  | nil => rfl
  | cons e events ih => simp [assignmentsFrom, ih, List.range'_succ]

theorem map_task_assignmentsFrom (thread : Nat) (events : List Event) :
    (assignmentsFrom thread events).map Assignment.task = events.map Event.task := by
  induction events generalizing thread with
  | nil => rfl
  | cons e events ih => simp [assignmentsFrom, ih, Assignment.task, Event.task]

theorem length_assignmentsFrom (thread : Nat) (events : List Event) :
    (assignmentsFrom thread events).length = events.length := by
  simpa using congrArg List.length (map_task_assignmentsFrom thread events)

/-- The numbers of a schedule that is short of `2 ^ 32` events take no more than 32 bits. -/
theorem thread_lt_of_mem_assignmentsFor {events : List Event} (hevents : events.length < 2 ^ 32)
    {ids : ProcessIds} {a : Assignment} (ha : a ∈ assignmentsFor events ids) :
    1 ≤ a.thread ∧ a.thread < 2 ^ 32 := by
  have hthread := List.mem_map_of_mem (f := Assignment.thread) ha
  rw [assignmentsFor, map_thread_assignmentsFrom, List.mem_range'_1] at hthread
  have hfewer := List.length_filter_le (fun e : Event => e.process = ids.process) events
  omega

/-- A process has nothing to do when no event has its number. -/
theorem assignmentsFor_eq_nil {events : List Event} {ids : ProcessIds}
    (h : ∀ e ∈ events, e.process ≠ ids.process) : assignmentsFor events ids = [] := by
  have hnone : events.filter (fun e => e.process = ids.process) = [] :=
    List.filter_eq_nil_iff.2 fun e he => by simpa using h e he
  rw [assignmentsFor, hnone]
  rfl

namespace LoadProfile

variable {p : LoadProfile} {ids : ProcessIds}

/-- What a process takes from what its daemon is sent. -/
def share (p : LoadProfile) (ids : ProcessIds) : List Assignment :=
  assignmentsFor (p.configFor ids.daemon).events ids

/-- The events of one process. -/
def eventsOf (p : LoadProfile) (ids : ProcessIds) : List Event := p.events.filter fun e => e.ids = ids

/-! ### Both divisions -/

/-- To take the events of a daemon and then those of a process number is to take those of a
process. -/
theorem filter_configFor (p : LoadProfile) (ids : ProcessIds) :
    ((p.configFor ids.daemon).events.filter fun e => e.process = ids.process) = p.eventsOf ids := by
  rw [configFor, eventsOf, List.filter_filter]
  refine List.filter_congr fun e _ => ?_
  rw [← Bool.decide_and, decide_eq_decide]
  exact ⟨fun h => by rw [Event.ids, h.1, h.2], fun h => by rw [← h]; exact ⟨rfl, rfl⟩⟩

theorem share_eq (p : LoadProfile) (ids : ProcessIds) :
    p.share ids = assignmentsFrom 1 (p.eventsOf ids) := by
  rw [share, assignmentsFor, filter_configFor]

theorem mem_expected : ids ∈ p.expected ↔ ∃ e ∈ p.events, e.ids = ids := by
  rw [expected, ProcessIds.mem_distinct, List.mem_map]

/-- A valid profile names each daemon once, and has its events on those. -/
theorem validate_eq_ok (h : p.validate = .ok ()) :
    p.daemonIds.Nodup ∧ ∀ e ∈ p.events, e.daemon ∈ p.daemonIds := by
  unfold validate at h
  split at h
  · rename_i hnodup
    split at h
    · cases h
    · rename_i hnone
      exact ⟨hnodup, fun e he => by simpa using List.find?_eq_none.1 hnone e he⟩
  · cases h

/-- What is expected of a process and what it is told go together: the shares, put together, are the
events of the profile. -/
theorem perm_shares (p : LoadProfile) :
    (p.expected.flatMap fun ids => (p.share ids).map fun a => (ids, a.task)).Perm
      (p.events.map fun e => (e.ids, e.task)) := by
  have hshare (ids : ProcessIds) : (p.share ids).map (fun a => (ids, a.task)) =
      (p.eventsOf ids).map fun e => (e.ids, e.task) := by
    have htask := map_task_assignmentsFrom 1 (p.eventsOf ids)
    have hids : (p.eventsOf ids).map (fun e => (e.ids, e.task)) =
        (p.eventsOf ids).map fun e => (ids, e.task) :=
      List.map_congr_left fun e he => by rw [of_decide_eq_true (List.mem_filter.1 he).2]
    rw [hids, share_eq]
    simpa [List.map_map, Function.comp_def] using congrArg (List.map (Prod.mk ids)) htask
  have hexpected : ∀ e ∈ p.events, e.ids ∈ p.expected := fun e he =>
    ProcessIds.mem_distinct.2 (List.mem_map_of_mem he)
  have hparts := perm_flatMap_filter (ProcessIds.nodup_distinct _) hexpected
  calc
    List.Perm _ ((p.expected.flatMap p.eventsOf).map fun e => (e.ids, e.task)) := by
      simp only [hshare, List.map_flatMap]
      exact .refl _
    List.Perm _ _ := hparts.map _

/-! ### The main statement -/

/-- The two divisions of a valid profile make up its events.  The daemons are sent each event once;
and each process reads CONFIG as it was written and takes from it just its own events, in the order of
the profile and numbered from 1, with operation, target and offset unchanged.  Each event comes to
exactly one expected process, so that the expected processes take as many assignments as there are
events; and a row without events of a process gives it none. -/
theorem shares_make_up_events {p : LoadProfile} (h : p.validate = .ok ()) :
    (p.daemonIds.flatMap fun d => (p.configFor d).events).Perm p.events ∧
      (∀ ids ∈ p.expected, p.daemonIds.count ids.daemon = 1) ∧
      (∀ ids, ∃ c, (Envelope.config (p.configFor ids.daemon)).decode ProcessConfig = .ok c ∧
        (Envelope.config (p.configFor ids.daemon)).decodeAs ProcessConfig .config = .ok c ∧
        c.properties = p.properties ∧ assignmentsFor c.events ids = p.share ids ∧
        ∀ driver limits listeners calendar clock gate, gate.ids = ids →
          (ProcessRun.new c driver limits listeners calendar clock gate).assignments = p.share ids) ∧
      (∀ ids, (p.share ids).map Assignment.task = (p.eventsOf ids).map Event.task ∧
        (p.share ids).map Assignment.thread = List.range' 1 (p.share ids).length) ∧
      p.expected.Nodup ∧
      (∀ e ∈ p.events, ∃! ids, ids ∈ p.expected ∧ e ∈ p.eventsOf ids) ∧
      (p.expected.flatMap fun ids => (p.share ids).map fun a => (ids, a.task)).Perm
        (p.events.map fun e => (e.ids, e.task)) ∧
      (p.expected.map fun ids => (p.share ids).length).sum = p.events.length ∧
      ∀ (events : List Event) (ids : ProcessIds), (∀ e ∈ events, e.process ≠ ids.process) →
        assignmentsFor events ids = [] := by
  obtain ⟨hnodup, hknown⟩ := validate_eq_ok h
  refine ⟨perm_flatMap_filter hnodup hknown, fun ids hids => ?_, fun ids => ?_, fun ids => ?_,
    ProcessIds.nodup_distinct _, fun e he => ?_, p.perm_shares, ?_,
    fun events ids => assignmentsFor_eq_nil⟩
  · obtain ⟨e, he, rfl⟩ := mem_expected.1 hids
    exact List.count_eq_one_of_mem hnodup (hknown e he)
  · -- CONFIG is read back as it was written
    have hread := Envelope.decode_config (p.configFor ids.daemon)
    refine ⟨_, hread, ?_, rfl, rfl, ?_⟩
    · have htype : (Envelope.config (p.configFor ids.daemon)).type = .config := rfl
      rw [Envelope.decodeAs, if_pos htype, hread]
    · rintro driver limits listeners calendar clock gate rfl
      rfl
  · constructor
    · rw [share_eq, map_task_assignmentsFrom]
    · rw [share_eq, map_thread_assignmentsFrom, length_assignmentsFrom]
  · refine ⟨e.ids, ⟨mem_expected.2 ⟨e, he, rfl⟩, List.mem_filter.2 ⟨he, decide_eq_true rfl⟩⟩, ?_⟩
    exact fun ids hids => (of_decide_eq_true (List.mem_filter.1 hids.2).2).symm
  · have := p.perm_shares.length_eq
    simpa [List.length_flatMap] using this

/-- Two daemons with a process of the same number, of which the one has two events and the other one. -/
theorem shares_make_up_events_of_three :
    ∃ p : LoadProfile, p.validate = .ok () ∧ p.expected = [⟨7, 1⟩, ⟨7, 2⟩] ∧
      p.share ⟨7, 1⟩ = [⟨1, "get", "a", 5⟩, ⟨2, "put", "c", 0⟩] ∧
      p.share ⟨7, 2⟩ = [⟨1, "get", "b", 3⟩] ∧
      (p.expected.map fun ids => (p.share ids).length).sum = 3 := by
  let p : LoadProfile :=
    ⟨[⟨1, "h", 80⟩, ⟨2, "h", 81⟩],
      [⟨5, "get", "a", 1, 7⟩, ⟨3, "get", "b", 2, 7⟩, ⟨0, "put", "c", 1, 7⟩], .empty⟩
  have h : p.validate = .ok () := by decide
  obtain ⟨-, -, -, -, -, -, -, hsum, -⟩ := shares_make_up_events h
  exact ⟨p, h, by decide, by decide, by decide, hsum⟩

end LoadProfile

end Barrage

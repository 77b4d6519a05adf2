import LakeCatalog.Emission.Tasks
import LakeCatalog.Proofs.Emission.Channel

/-!
# Tasks and channels

While a channel is held every task that sends over it is waited for. So where an emission comes to
its end no task is left when the channel is closed: each has ended by itself or was stopped when it
had been waited for too long. Where an emission is dropped, the tasks that wait go with it, and
those that send are left behind on a channel that is closed.
-/

namespace LakeCatalog.Emission

open Catalog

namespace Tasks

variable {s s' : Tasks} {events : List TaskEvent}

@[simp] lemma run_nil : s.run [] = some s := rfl

lemma run_cons_iff {e : TaskEvent} :
    s.run (e :: events) = some s' ↔ ∃ next, s.step e = some next ∧ next.run events = some s' := by
  rw [run, List.foldlM_cons]
  exact Option.bind_eq_some_iff

lemma run_append (s : Tasks) (earlier later : List TaskEvent) :
    s.run (earlier ++ later) = (s.run earlier).bind (·.run later) :=
  List.foldlM_append

/-- Every task that sends is waited for, and nothing is waited for over a closed channel. -/
structure Attended (s : Tasks) : Prop where
  waited : ∀ i ∈ s.sending, i ∈ s.waiting
  nobody : s.held = false → s.waiting = []

lemma attended_start : start.Attended := ⟨by simp [start], by simp [start]⟩

/-- An event that happens could happen. -/
lemma happens {can : Prop} [Decidable can] {next : Tasks}
    (stepped : (if can then some next else none) = some s') : can ∧ next = s' :=
  (Option.ite_none_right_eq_some.mp stepped).imp_right Option.some.inj

/-- Only dropping an emission leaves a task behind. -/
lemma Attended.step {e : TaskEvent} (h : s.Attended) (kept : e ≠ .abandoned)
    (stepped : s.step e = some s') : s'.Attended := by
  obtain ⟨waited, nobody⟩ := h
  cases e with
  | taken i =>
    obtain ⟨held, rfl⟩ := happens stepped
    refine ⟨fun j mem => ?_, fun closed => ?_⟩
    · exact List.mem_append.mpr ((List.mem_append.mp mem).imp_left (waited j))
    · rw [held] at closed
      cases closed
  | ended i =>
    obtain ⟨-, rfl⟩ := happens stepped
    exact ⟨fun j mem => waited j (List.mem_of_mem_filter mem), nobody⟩
  | reported i =>
    obtain ⟨⟨-, done⟩, rfl⟩ := happens stepped
    -- The task that is no longer waited for has ended before, so it is none of those that send.
    refine ⟨fun j mem => List.mem_filter.mpr ⟨waited j mem, ?_⟩, fun closed => ?_⟩
    · exact decide_eq_true fun same : j = i => done (same ▸ mem)
    · simp [nobody closed]
  | expired i =>
    obtain ⟨-, rfl⟩ := happens stepped
    refine ⟨fun j mem => ?_, fun closed => ?_⟩
    · obtain ⟨mem, other⟩ := List.mem_filter.mp mem
      exact List.mem_filter.mpr ⟨waited j mem, other⟩
    · simp [nobody closed]
  | closed =>
    obtain ⟨⟨-, nobody⟩, rfl⟩ := happens stepped
    exact ⟨waited, fun _ => nobody⟩
  | abandoned => exact absurd rfl kept

/-- Until the emission is dropped every task that sends is waited for. -/
lemma Attended.run (h : s.Attended) (kept : .abandoned ∉ events)
    (ran : s.run events = some s') : s'.Attended := by
  induction events generalizing s with
  | nil =>
    cases ran
    exact h
  | cons e events ih =>
    obtain ⟨next, stepped, rest⟩ := run_cons_iff.mp ran
    obtain ⟨other, later⟩ := List.ne_and_not_mem_of_not_mem_cons kept
    exact ih (h.step (Ne.symm other) stepped) later rest

/-- Over a closed channel, and with nobody waiting, a task can only end by itself. -/
lemma step_left_behind {e : TaskEvent} (closed : s.held = false) (nobody : s.waiting = [])
    (stepped : s.step e = some s') :
    ∃ i, e = .ended i ∧ s' = { s with sending := s.sending.filter (· ≠ i) } := by
  cases e with
  | ended i =>
    obtain ⟨-, rfl⟩ := happens stepped
    exact ⟨i, rfl, rfl⟩
  | _ => simp [Tasks.step, closed, nobody] at stepped

/-- A task that nobody waits for runs until it ends by itself. -/
lemma mem_sending_left_behind (closed : s.held = false) (nobody : s.waiting = [])
    (ran : s.run events = some s') (i : Nat) :
    i ∈ s'.sending ↔ i ∈ s.sending ∧ .ended i ∉ events := by
  induction events generalizing s with
  | nil =>
    cases ran
    simp
  | cons e events ih =>
    obtain ⟨next, stepped, rest⟩ := run_cons_iff.mp ran
    obtain ⟨j, rfl, rfl⟩ := step_left_behind closed nobody stepped
    rw [ih (s := { s with sending := s.sending.filter (· ≠ j) }) closed nobody rest,
      List.mem_filter]
    simp [and_assoc]

def without (s : Tasks) (gone : List Nat) : Tasks :=
  { s with sending := s.sending.filter (· ∉ gone), waiting := s.waiting.filter (· ∉ gone) }

lemma without_without (s : Tasks) (gone more : List Nat) :
    (s.without gone).without more = s.without (gone ++ more) := by
  simp [without, List.filter_filter, Bool.and_comm]

lemma run_taken (s : Tasks) (held : s.held = true) (positions : List Nat) :
    s.run (positions.map .taken) =
      some ⟨s.sending ++ positions, s.waiting ++ positions, true⟩ := by
  induction positions generalizing s with
  | nil =>
    obtain ⟨sending, waiting, flag⟩ := s
    cases held
    simp
  | cons i positions ih =>
    rw [List.map_cons, run_cons_iff]
    refine ⟨_, if_pos held, (ih ⟨s.sending ++ [i], s.waiting ++ [i], s.held⟩ held).trans ?_⟩
    simp

/-- The two tasks of a proposal that is waited for are over when its outcome is known. -/
lemma run_taskEvents (timeout : Duration) {w : Waiter} (sends : w.position ∈ s.sending)
    (waits : w.position ∈ s.waiting) :
    s.run (w.taskEvents timeout) = some (s.without [w.position]) := by
  unfold Waiter.taskEvents
  split
  · refine run_cons_iff.mpr ⟨_, if_pos sends, run_cons_iff.mpr ⟨_, if_pos ⟨waits, ?_⟩, ?_⟩⟩
    · simp [without]
    · simp
  · refine run_cons_iff.mpr ⟨_, if_pos waits, ?_⟩
    simp [without]

lemma run_heard (timeout : Duration) (ws : List Waiter) (s : Tasks)
    (distinct : (ws.map Waiter.position).Nodup)
    (sends : ∀ w ∈ ws, w.position ∈ s.sending) (waits : ∀ w ∈ ws, w.position ∈ s.waiting) :
    s.run (ws.flatMap (·.taskEvents timeout)) = some (s.without (ws.map Waiter.position)) := by
  induction ws generalizing s with
  | nil => simp [without]
  | cons w ws ih =>
    obtain ⟨first, distinct⟩ := List.nodup_cons.mp distinct
    obtain ⟨sending, sends⟩ := List.forall_mem_cons.mp sends
    obtain ⟨waiting, waits⟩ := List.forall_mem_cons.mp waits
    have still (v : Waiter) (hv : v ∈ ws) : v.position ∉ [w.position] := fun same =>
      first (List.mem_singleton.mp same ▸ List.mem_map_of_mem hv)
    rw [List.flatMap_cons, run_append, run_taskEvents timeout sending waiting, Option.bind_some,
      ih (s.without [w.position]) distinct, without_without]
    · rfl
    · exact fun v hv => List.mem_filter.mpr ⟨sends v hv, decide_eq_true (still v hv)⟩
    · exact fun v hv => List.mem_filter.mpr ⟨waits v hv, decide_eq_true (still v hv)⟩

lemma run_ended (positions : List Nat) (s : Tasks) (distinct : positions.Nodup)
    (sends : ∀ i ∈ positions, i ∈ s.sending) :
    s.run (positions.map .ended) =
      some { s with sending := s.sending.filter (· ∉ positions) } := by
  induction positions generalizing s with
  | nil => simp
  | cons i positions ih =>
    obtain ⟨first, distinct⟩ := List.nodup_cons.mp distinct
    obtain ⟨sending, sends⟩ := List.forall_mem_cons.mp sends
    rw [List.map_cons, run_cons_iff]
    refine ⟨_, if_pos sending, (ih _ distinct fun j hj => ?_).trans ?_⟩
    · refine List.mem_filter.mpr ⟨sends j hj, decide_eq_true ?_⟩
      rintro rfl
      exact first hj
    · simp [List.filter_filter, Bool.and_comm]

/-- Every position has just one waiter. -/
lemma position_mem_filter_iff {ws : List Waiter} (distinct : (ws.map Waiter.position).Nodup)
    {w : Waiter} (mem : w ∈ ws) (which : Waiter → Bool) :
    w.position ∈ (ws.filter which).map Waiter.position ↔ which w = true := by
  constructor
  · intro listed
    obtain ⟨v, hv, same⟩ := List.mem_map.mp listed
    obtain ⟨hv, chosen⟩ := List.mem_filter.mp hv
    exact List.inj_on_of_nodup_map distinct hv mem same ▸ chosen
  · exact fun chosen => List.mem_map_of_mem (List.mem_filter.mpr ⟨mem, chosen⟩)

/-- The positions that are left of those taken, when those of some are removed. -/
lemma filter_positions {taken arrivals : List Waiter} (answered : arrivals.Perm taken)
    (distinct : (arrivals.map Waiter.position).Nodup) (which : Waiter → Bool) :
    (taken.map Waiter.position).filter (· ∉ (arrivals.filter which).map Waiter.position) =
      (taken.filter (!which ·)).map Waiter.position := by
  rw [List.filter_map]
  refine congrArg _ (List.filter_congr fun w mem => ?_)
  have listed := position_mem_filter_iff distinct (answered.mem_iff.mpr mem) which
  simp [Function.comp, listed]

/-- Every one of some waiters waits for a task that sends. -/
def attending (ws : List Waiter) : Tasks := ⟨ws.map Waiter.position, ws.map Waiter.position, true⟩

def leftBehind (ws : List Waiter) : Tasks := ⟨ws.map Waiter.position, [], false⟩

section

variable {taken arrivals : List Waiter} (answered : arrivals.Perm taken)
  (distinct : (arrivals.map Waiter.position).Nodup)

include answered in
lemma position_mem_taken {w : Waiter} (mem : w ∈ arrivals) :
    w.position ∈ taken.map Waiter.position :=
  List.mem_map_of_mem (answered.mem_iff.mp mem)

lemma run_all_taken (taken : List Waiter) :
    start.run (taken.map (.taken ·.position)) = some (attending taken) := by
  have ran := run_taken start rfl (taken.map Waiter.position)
  rwa [List.map_map] at ran

include answered distinct in
lemma run_some_heard (timeout : Duration) (known : Waiter → Bool) :
    (attending taken).run ((arrivals.filter known).flatMap (·.taskEvents timeout)) =
      some (attending (taken.filter (!known ·))) := by
  have listed (w : Waiter) (mem : w ∈ arrivals.filter known) :=
    position_mem_taken answered (List.mem_of_mem_filter mem)
  rw [run_heard timeout (arrivals.filter known) (attending taken)
    (distinct.sublist (List.filter_sublist.map _)) listed listed, without, attending]
  simp only [filter_positions answered distinct, attending]

include answered in
lemma run_close :
    (attending taken).run [if arrivals.isEmpty then .closed else .abandoned] =
      some (leftBehind taken) := by
  cases arrivals with
  | nil =>
    rw [answered.nil_eq.symm]
    rfl
  | cons => rfl

include answered distinct in
lemma run_some_ended (ended : Waiter → Bool) :
    (leftBehind taken).run ((arrivals.filter ended).map (.ended ·.position)) =
      some (leftBehind (taken.filter (!ended ·))) := by
  have ran := run_ended ((arrivals.filter ended).map Waiter.position) (leftBehind taken)
    (distinct.sublist (List.filter_sublist.map _)) fun i mem =>
      ((answered.map Waiter.position).subset ((List.filter_sublist.map _).subset mem))
  rw [List.map_map] at ran
  refine ran.trans ?_
  simp only [leftBehind, filter_positions answered distinct]

include answered distinct in
/-- The channel takes proposals, some of them are heard, the channel is closed or dropped, and some
of those that are left end: what runs is the rest. -/
lemma run_course (timeout : Duration) (known ended : Waiter → Bool) :
    start.run (taken.map (.taken ·.position) ++
        (arrivals.filter known).flatMap (·.taskEvents timeout) ++
        [if (arrivals.filter (!known ·)).isEmpty then .closed else .abandoned] ++
        ((arrivals.filter (!known ·)).filter ended).map (.ended ·.position)) =
      some (leftBehind ((taken.filter (!known ·)).filter (!ended ·))) := by
  have left := answered.filter (!known ·)
  rw [run_append, run_append, run_append, run_all_taken, Option.bind_some,
    run_some_heard answered distinct, Option.bind_some, run_close left, Option.bind_some,
    run_some_ended left (distinct.sublist (List.filter_sublist.map _))]

end

end Tasks

lemma Batch.tasksRunning_eq (b : Batch) (timeout : Duration) (dropped : Option Duration)
    (time : Duration) :
    b.tasksRunning timeout dropped time = (b.waiters.filter fun w =>
      !(w.hasEnded time || waitsFor timeout dropped w && w.due timeout ≤ time)).map
        Waiter.position := by
  cases dropped <;> rfl

section

variable (t : Transport) (opens count : Nat) (timeout : Duration) (drop : Option Duration)
  (batch : List Proposal)

/-- Those whose outcome is known before the emission is dropped are heard before the channel is
closed, and these are all exactly if the emission comes to its end. -/
lemma waitsFor_within (opened : t.opening opens = none) :
    let b := (emit t opens count timeout batch).within drop
    (∀ w ∈ (Flight.begun t timeout count batch).arrivals,
      Batch.waitsFor timeout drop w = true → w.due timeout ≤ b.duration) ∧
    (b.completed = true → ∀ w ∈ (Flight.begun t timeout count batch).arrivals,
      Batch.waitsFor timeout drop w = true) ∧
    (b.completed = false → drop = some b.duration ∧
      ∃ w ∈ (Flight.begun t timeout count batch).arrivals,
        Batch.waitsFor timeout drop w = false) := by
  intro b
  obtain ⟨heard, unheard, parts, -, before, completes, drops⟩ :=
    within_of_opening t opens count timeout drop batch opened
  rw [parts]
  refine ⟨fun w mem known => ?_, fun completed w mem => ?_, fun dropped => ?_⟩
  · rcases List.mem_append.mp mem with mem | mem
    · exact before w mem
    · cases ended : b.completed with
      | true =>
        rw [(completes ended).1] at mem
        cases mem
      | false =>
        rw [(drops ended).1, Batch.waitsFor, decide_eq_true_eq] at known
        exact Nat.le_of_lt known
  · obtain ⟨nobody, -, early⟩ := completes completed
    rw [nobody, List.append_nil] at mem
    cases drop with
    | none => rfl
    | some time => exact decide_eq_true (early time rfl w mem)
  · obtain ⟨instant, w, mem, late⟩ := drops dropped
    refine ⟨instant, w, List.mem_append_right _ mem, ?_⟩
    rw [instant]
    exact decide_eq_false (Nat.not_lt.mpr late)

lemma waiters_emit (opened : t.opening opens = none) :
    (emit t opens count timeout batch).waiters = (Flight.begun t timeout count batch).taken := by
  rw [emit_of_opening count timeout batch opened]
  rfl

/-- Once the channel is closed only the tasks run that nobody waits for and that have not ended. -/
lemma tasksRunning_of_closed (opened : t.opening opens = none) {time : Duration}
    (past : ((emit t opens count timeout batch).within drop).duration ≤ time) :
    (emit t opens count timeout batch).tasksRunning timeout drop time =
      ((emit t opens count timeout batch).waiters.filter fun w =>
        !Batch.waitsFor timeout drop w && !w.hasEnded time).map Waiter.position := by
  obtain ⟨inTime, -, -⟩ := waitsFor_within t opens count timeout drop batch opened
  have answered := (Flight.begun t timeout count batch).arrivals_perm
  rw [Batch.tasksRunning_eq]
  refine congrArg _ (List.filter_congr fun w mem => ?_)
  rw [waiters_emit t opens count timeout batch opened] at mem
  cases known : Batch.waitsFor timeout drop w with
  | false => simp
  | true =>
    have due : w.due timeout ≤ time := Nat.le_trans (inTime w (answered.mem_iff.mpr mem) known) past
    simp [due]

lemma nodup_taken_begun :
    ((Flight.begun t timeout count batch).taken.map Waiter.position).Nodup :=
  List.pairwise_map.mpr
    ((Flight.taken_begun_pairwise t timeout count batch).imp fun h => Nat.ne_of_lt h)

lemma nodup_arrivals_begun :
    ((Flight.begun t timeout count batch).arrivals.map Waiter.position).Nodup :=
  ((Flight.begun t timeout count batch).arrivals_perm.map _).nodup_iff.mpr
    (nodup_taken_begun t count timeout batch)

/-- The tasks of an emission come to what is said to run after it. -/
lemma run_taskEvents_emit (opened : t.opening opens = none) {time : Duration}
    (past : ((emit t opens count timeout batch).within drop).duration ≤ time) :
    Tasks.start.run ((emit t opens count timeout batch).taskEvents timeout drop time) =
      some ⟨(emit t opens count timeout batch).tasksRunning timeout drop time, [], false⟩ := by
  have answered := (Flight.begun t timeout count batch).arrivals_perm
  have distinct := nodup_arrivals_begun t count timeout batch
  have waiting : (emit t opens count timeout batch).waiting =
      some (Flight.begun t timeout count batch) := by
    rw [emit_of_opening count timeout batch opened]
  rw [tasksRunning_of_closed t opens count timeout drop batch opened past, Batch.taskEvents,
    waiting, waiters_emit t opens count timeout batch opened]
  refine (Tasks.run_course answered distinct timeout (Batch.waitsFor timeout drop)
    (·.hasEnded time)).trans ?_
  simp only [Tasks.leftBehind, List.filter_filter, Bool.and_comm]

/-- An emission that comes to its end leaves no task behind. -/
lemma tasksRunning_of_completed (opened : t.opening opens = none) {time : Duration}
    (past : ((emit t opens count timeout batch).within drop).duration ≤ time)
    (completed : ((emit t opens count timeout batch).within drop).completed = true) :
    (emit t opens count timeout batch).tasksRunning timeout drop time = [] := by
  have answered := (Flight.begun t timeout count batch).arrivals_perm
  obtain ⟨-, all, -⟩ := waitsFor_within t opens count timeout drop batch opened
  rw [tasksRunning_of_closed t opens count timeout drop batch opened past, List.map_eq_nil_iff,
    List.filter_eq_nil_iff, waiters_emit t opens count timeout batch opened]
  intro w mem
  simp [all completed w (answered.mem_iff.mpr mem)]

lemma Waiter.not_hasEnded_iff {w : Waiter} {time : Duration} :
    w.hasEnded time = false ↔ ∀ e, w.behaviour.taskEnd = some e → time < w.submitted + e := by
  unfold Waiter.hasEnded
  split
  · rename_i e ends
    rw [decide_eq_false_iff_not, ends]
    exact ⟨fun runs _ same => Option.some.inj same ▸ Nat.lt_of_not_le runs,
      fun runs => Nat.not_le_of_lt (runs e rfl)⟩
  · rename_i never
    simp [never]

/-- An emission that is dropped leaves the tasks behind whose outcome is yet to come, each until it
ends by itself. -/
lemma mem_tasksRunning_of_dropped (opened : t.opening opens = none) {time : Duration}
    (past : ((emit t opens count timeout batch).within drop).duration ≤ time)
    (dropped : ((emit t opens count timeout batch).within drop).completed = false) (i : Nat) :
    i ∈ (emit t opens count timeout batch).tasksRunning timeout drop time ↔
      ∃ w ∈ (emit t opens count timeout batch).waiters, w.position = i ∧
        ((emit t opens count timeout batch).within drop).duration ≤ w.due timeout ∧
        ∀ e, w.behaviour.taskEnd = some e → time < w.submitted + e := by
  obtain ⟨-, -, drops⟩ := waitsFor_within t opens count timeout drop batch opened
  obtain ⟨instant, -⟩ := drops dropped
  have late (w : Waiter) : Batch.waitsFor timeout drop w = false ↔
      ((emit t opens count timeout batch).within drop).duration ≤ w.due timeout := by
    -- The instant of the drop stands on the right side too, inside of the emission.
    conv_lhs => rw [instant]
    rw [Batch.waitsFor, decide_eq_false_iff_not]
    exact Nat.not_lt
  rw [tasksRunning_of_closed t opens count timeout drop batch opened past, List.mem_map]
  constructor
  · rintro ⟨w, mem, rfl⟩
    obtain ⟨mem, left⟩ := List.mem_filter.mp mem
    simp only [Bool.and_eq_true, Bool.not_eq_true'] at left
    exact ⟨w, mem, rfl, (late w).mp left.1, Waiter.not_hasEnded_iff.mp left.2⟩
  · rintro ⟨w, mem, rfl, unknown, runs⟩
    refine ⟨w, List.mem_filter.mpr ⟨mem, ?_⟩, rfl⟩
    rw [(late w).mpr unknown, Waiter.not_hasEnded_iff.mpr runs]
    rfl

/-- Only a channel that was opened is closed, and that when the emission is over. -/
lemma opened_of_closed {close : Duration} {answer : Option TransportError}
    (closed : ⟨close, .closed answer⟩ ∈ ((emit t opens count timeout batch).within drop).events) :
    t.opening opens = none ∧
      close = ((emit t opens count timeout batch).within drop).duration := by
  cases opened : t.opening opens with
  | some error =>
    rw [emit_of_failed_opening count timeout batch opened] at closed
    cases drop <;> simp [Batch.within, Batch.droppedAfter] at closed
  | none =>
    obtain ⟨heard, -, -, events, -⟩ :=
      within_of_opening t opens count timeout drop batch opened
    rw [events, List.cons_append] at closed
    refine ⟨rfl, ?_⟩
    rcases List.mem_cons.mp closed with first | closed
    · cases first
    · rcases List.mem_append.mp closed with between | last
      · cases isInner_of_mem_eventsBetween timeout _ heard between
      · exact congrArg TimedEvent.time (List.mem_singleton.mp last)

end

/-- While a channel is held, whatever happens to the tasks of its emission, every task that sends
is waited for. Closing the channel leaves none, and dropping the emission leaves all that have not
ended, each until it ends by itself. Every emission goes such a course. So from the instant at which
the channel is closed no task runs if the emission has come to its end. If it has been dropped just
those run whose outcomes were still to come, and they run until they end by themselves. -/
theorem tasks_end_before_close_unless_abandoned (t : Transport) (opens count : Nat)
    (timeout : Duration) (drop : Option Duration) (batch : List Proposal) :
    (∀ events s, Tasks.start.run events = some s → .abandoned ∉ events →
      (∀ i ∈ s.sending, i ∈ s.waiting) ∧ (s.held = false → s.sending = [])) ∧
    (∀ s later s', Tasks.run s (.abandoned :: later) = some s' →
      ∀ i, i ∈ s'.sending ↔ i ∈ s.sending ∧ .ended i ∉ later) ∧
    let whole := emit t opens count timeout batch
    let b := whole.within drop
    ∀ close answer, ⟨close, .closed answer⟩ ∈ b.events → ∀ time, close ≤ time →
      Tasks.start.run (whole.taskEvents timeout drop time) =
        some ⟨whole.tasksRunning timeout drop time, [], false⟩ ∧
      (b.completed = true → whole.tasksRunning timeout drop time = []) ∧
      (b.completed = false → ∀ i, i ∈ whole.tasksRunning timeout drop time ↔
        ∃ w ∈ whole.waiters, w.position = i ∧ close ≤ w.due timeout ∧
          ∀ e, w.behaviour.taskEnd = some e → time < w.submitted + e) := by
  refine ⟨fun events s ran kept => ?_, fun s later s' ran i => ?_, ?_⟩
  · obtain ⟨waited, nobody⟩ := Tasks.attended_start.run kept ran
    refine ⟨waited, fun closed => List.eq_nil_iff_forall_not_mem.mpr fun i mem => ?_⟩
    have listed := waited i mem
    rw [nobody closed] at listed
    cases listed
  · obtain ⟨next, stepped, rest⟩ := Tasks.run_cons_iff.mp ran
    obtain ⟨-, rfl⟩ := Tasks.happens stepped
    exact Tasks.mem_sending_left_behind rfl rfl rest i
  · intro whole b close answer closed time past
    obtain ⟨opened, rfl⟩ := opened_of_closed t opens count timeout drop batch closed
    exact ⟨run_taskEvents_emit t opens count timeout drop batch opened past,
      tasksRunning_of_completed t opens count timeout drop batch opened past,
      mem_tasksRunning_of_dropped t opens count timeout drop batch opened past⟩

/-- An answer takes five seconds, and the emission is dropped after one. For four seconds the
proposal is on its way over a channel that is closed. -/
theorem answer_outlives_dropped_emission :
    let p : Proposal := ⟨.container, ⟨"urn:li:container:orders", by decide +kernel⟩, .status false⟩
    let slow : Transport := .behaving fun _ => .resolves (.ofSeconds 5) none
    let whole := emit slow 0 0 (.ofSeconds 30) [p]
    let b := whole.within (some (.ofSeconds 1))
    b.completed = false ∧ ⟨.ofSeconds 1, .closed none⟩ ∈ b.events ∧
      ∀ time, whole.tasksRunning (.ofSeconds 30) (some (.ofSeconds 1)) time =
        if .ofSeconds 5 ≤ time then [] else [0] := by
  intro p slow whole b
  refine ⟨by decide +kernel, by decide +kernel, fun time => ?_⟩
  let w : Waiter := ⟨0, 0, p, .resolves (.ofSeconds 5) none, .zero⟩
  have waiters : whole.waiters = [w] := by decide +kernel
  have arrives : Duration.zero + .ofSeconds 5 = .ofSeconds 5 := by decide +kernel
  have unheard : Batch.waitsFor (.ofSeconds 30) (some (.ofSeconds 1)) w = false := by
    decide +kernel
  have ends : w.hasEnded time = decide (.ofSeconds 5 ≤ time) := by
    rw [← arrives]
    rfl
  rw [Batch.tasksRunning_eq, waiters, List.filter_singleton, ends, unheard, Bool.false_and,
    Bool.or_false]
  by_cases past : Duration.ofSeconds 5 ≤ time
  · simp only [past, decide_true, if_true]
    rfl
  · simp only [past, decide_false, if_false]
    rfl

end LakeCatalog.Emission

import LakeCatalog.Proofs.Sync.Emissions

/-!
# Emissions that overlap

Emissions on consecutive channels go on writing a log whatever stands in it. They may be under way
at the same time. At any instant as many of their channels are open as emissions are under way, and
when all are over what they opened is closed.
-/

namespace LakeCatalog.Emission

open Catalog

/-- The emission does with its channel what one that is dropped after some time, or never, does. -/
def Attempt.IsOrderly (a : Attempt) : Prop :=
  ∃ patience, a.batch.Orderly a.proposals.length patience

/-- What happens on a channel happens before its emission is over. -/
lemma Batch.Orderly.time_le_duration {b : Batch} {size : Nat} {patience : Option Duration}
    (h : b.Orderly size patience) : ∀ e ∈ b.events, e.time ≤ b.duration := by
  cases h with
  | unavailable events atOnce completed =>
    intro e he
    rw [events] at he
    rw [List.mem_singleton.mp he]
    exact Nat.zero_le _
  | opened between error events inner timed recorded inTime dropped =>
    intro e he
    rw [events] at he timed
    rcases List.mem_append.mp he with he | he
    · exact (List.pairwise_append.mp timed).2.2 e he _ (List.mem_singleton.mpr rfl)
    · rw [List.mem_singleton.mp he]
      exact Nat.le_refl _

namespace Log

variable (t : Transport) (timeout : Duration) (patience : Patience)

/-- Each of these is the emission of its proposals over what the log is by then. -/
def Continues (log : Log) (attempts : List Attempt) : Prop :=
  ∀ (k : Nat) (a : Attempt), attempts[k]? = some a →
    a.batch = Log.attempt (log ++ entriesFrom log.opens (attempts.take k)) t timeout patience
      a.proposals

variable {t timeout patience} {log : Log} {attempts : List Attempt}

lemma opens_attempt (log : Log) (time : Duration) (proposals : List Proposal) :
    Log.opens (log ++ entriesOf time log.opens (log.attempt t timeout patience proposals)) =
      log.opens + 1 := by
  rw [opens_append]
  exact congrArg _ (opens_entriesOf _ _ (within_orderly ..))

lemma Continues.nil : log.Continues t timeout patience [] := by
  intro k a known
  simp at known

lemma Continues.cons {a : Attempt} (batch : a.batch = log.attempt t timeout patience a.proposals)
    (rest : Log.Continues t timeout patience (log ++ entriesOf a.start log.opens a.batch)
      attempts) :
    log.Continues t timeout patience (a :: attempts) := by
  intro k later known
  cases k with
  | zero =>
    obtain rfl := Option.some.inj known
    simpa [entriesFrom] using batch
  | succ k =>
    have emitted := rest k later known
    have opens : Log.opens (log ++ entriesOf a.start log.opens a.batch) = log.opens + 1 := by
      rw [batch]
      exact opens_attempt ..
    rw [opens, List.append_assoc] at emitted
    exact emitted

lemma Continues.uncons {a : Attempt} (h : log.Continues t timeout patience (a :: attempts)) :
    a.batch = log.attempt t timeout patience a.proposals ∧
      Log.Continues t timeout patience (log ++ entriesOf a.start log.opens a.batch) attempts := by
  have first : a.batch = log.attempt t timeout patience a.proposals := by
    simpa [entriesFrom] using h 0 a rfl
  refine ⟨first, fun k later known => ?_⟩
  have opens : Log.opens (log ++ entriesOf a.start log.opens a.batch) = log.opens + 1 := by
    rw [first]
    exact opens_attempt ..
  rw [opens, List.append_assoc]
  exact h (k + 1) later known

/-- A log that emissions have written and that others go on writing is written by all of them. -/
lemma Written.append {more : List Attempt} (written : log.Written t timeout patience attempts)
    (continues : log.Continues t timeout patience more) :
    Log.Written t timeout patience (log ++ entriesFrom log.opens more) (attempts ++ more) := by
  induction more generalizing log attempts with
  | nil => rwa [entriesFrom, List.append_nil, List.append_nil]
  | cons a more ih =>
    obtain ⟨first, rest⟩ := continues.uncons
    have opens : Log.opens (log ++ entriesOf a.start log.opens
        (log.attempt t timeout patience a.proposals)) = log.opens + 1 := opens_attempt ..
    obtain ⟨start, proposals, batch⟩ := a
    obtain rfl : batch = log.attempt t timeout patience proposals := first
    have later := ih (written.attempt start proposals) rest
    rw [opens, List.append_assoc, List.append_assoc] at later
    exact later

lemma Continues.orderly (h : log.Continues t timeout patience attempts) :
    ∀ a ∈ attempts, a.IsOrderly := by
  intro a ha
  obtain ⟨k, known⟩ := List.mem_iff_getElem?.mp ha
  rw [Attempt.IsOrderly, h k a known]
  exact ⟨_, within_orderly ..⟩

/-- A channel is open from the start of its emission to the end. -/
lemma running_entriesOf (a : Attempt) (time : Duration) (channel : Nat) {size : Nat}
    {patience : Option Duration} (h : a.batch.Orderly size patience) :
    ((entriesOf a.start channel a.batch).upTo time).opens =
      ((entriesOf a.start channel a.batch).upTo time).failures +
        ((entriesOf a.start channel a.batch).upTo time).closes +
        if a.isRunning time then 1 else 0 := by
  have ending := ends_upTo_entriesOf a.start time channel h
  rw [opens_upTo_entriesOf a.start time channel h]
  simp only [Attempt.isRunning, Bool.and_eq_true, decide_eq_true_eq, Duration.le_iff,
    Duration.lt_iff, Duration.nanoseconds_add] at ending ⊢
  split at ending <;> split <;> split <;> omega

/-- At any instant, of the channels of some emissions those are open whose emission is under way. -/
lemma running_entriesFrom (channel : Nat) (time : Duration)
    (orderly : ∀ a ∈ attempts, a.IsOrderly) :
    ((entriesFrom channel attempts).upTo time).opens =
      ((entriesFrom channel attempts).upTo time).failures +
        ((entriesFrom channel attempts).upTo time).closes +
        attempts.countP (·.isRunning time) := by
  induction attempts generalizing channel with
  | nil => rfl
  | cons a attempts ih =>
    obtain ⟨⟨_, first⟩, orderly⟩ := List.forall_mem_cons.mp orderly
    have one := running_entriesOf a time channel first
    have rest := ih (channel + 1) orderly
    rw [entriesFrom, upTo_append, opens_append, failures_append, closes_append,
      List.countP_cons]
    omega

/-- When all emissions are over, what they opened is closed or did not open. -/
lemma ends_entriesFrom (channel : Nat)
    (orderly : ∀ a ∈ attempts, a.IsOrderly) :
    (entriesFrom channel attempts).opens =
      (entriesFrom channel attempts).failures + (entriesFrom channel attempts).closes := by
  induction attempts generalizing channel with
  | nil => rfl
  | cons a attempts ih =>
    obtain ⟨⟨_, first⟩, orderly⟩ := List.forall_mem_cons.mp orderly
    have one := ends_entriesOf a.start channel first
    have rest := ih (channel + 1) orderly
    rw [entriesFrom, opens_append, failures_append, closes_append, opens_entriesOf _ _ first]
    omega

/-- Nothing happens on a channel after its emission. -/
lemma time_le_of_mem_entriesFrom {channel : Nat} {entry : LogEntry}
    (orderly : ∀ a ∈ attempts, a.IsOrderly)
    (h : entry ∈ entriesFrom channel attempts) :
    ∃ a ∈ attempts, entry.time ≤ a.start + a.batch.duration := by
  induction attempts generalizing channel with
  | nil => cases h
  | cons a attempts ih =>
    obtain ⟨⟨_, first⟩, orderly⟩ := List.forall_mem_cons.mp orderly
    rcases List.mem_append.mp h with h | h
    · obtain ⟨e, he, rfl⟩ := List.mem_map.mp h
      exact ⟨a, List.mem_cons_self, Nat.add_le_add_left (first.time_le_duration e he) _⟩
    · obtain ⟨a', ha', late⟩ := ih orderly h
      exact ⟨a', List.mem_cons_of_mem _ ha', late⟩

end Log

end LakeCatalog.Emission

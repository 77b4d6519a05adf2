import LakeCatalog.Proofs.Emission.Channel

/-!
# The balance of openings and closes

The log is written by emissions, each on the next channel, which may start at any instants and be
under way at the same time. What is opened is closed: at every instant the attempts to open a
channel are those that failed, those whose channel is closed again, and those whose emission is
under way.
-/

namespace LakeCatalog.Emission

open Catalog

/-- An emission of proposals that starts at an instant, and its course. -/
structure Attempt where
  start : Duration
  proposals : List Proposal
  batch : Batch

def Attempt.isRunning (a : Attempt) (time : Duration) : Bool :=
  decide (a.start ≤ time) && decide (time < a.start + a.batch.duration)

/-- The end of what happens on a channel: an opening that failed, or a close. -/
def Event.isEnd (e : Event) : Bool := e.isFailure || e.isClose

lemma Event.isOpening_of_isInner {e : Event} (h : e.isInner = true) : e.isOpening = false := by
  cases e <;> first | rfl | cases h

lemma Event.isEnd_of_isInner {e : Event} (h : e.isInner = true) : e.isEnd = false := by
  cases e <;> first | rfl | cases h

namespace Batch.Orderly

variable {b : Batch} {size : Nat} {patience : Option Duration}

lemma countP_isOpening (h : b.Orderly size patience) :
    b.events.countP (·.event.isOpening) = 1 := by
  cases h with
  | unavailable events => rw [events]; rfl
  | opened between error events inner =>
    have none_between : between.countP (·.event.isOpening) = 0 :=
      List.countP_eq_zero.mpr fun e he => by simp [Event.isOpening_of_isInner (inner e he)]
    rw [events, List.countP_append, List.countP_cons, none_between]
    rfl

lemma countP_isEnd (h : b.Orderly size patience) : b.events.countP (·.event.isEnd) = 1 := by
  cases h with
  | unavailable events => rw [events]; rfl
  | opened between error events inner =>
    have none_between : between.countP (·.event.isEnd) = 0 :=
      List.countP_eq_zero.mpr fun e he => by simp [Event.isEnd_of_isInner (inner e he)]
    rw [events, List.countP_append, List.countP_cons, none_between]
    rfl

/-- A channel is opened when the emission starts. -/
lemma time_of_isOpening (h : b.Orderly size patience) :
    ∀ e ∈ b.events, e.event.isOpening = true → e.time = .zero := by
  intro e he opening
  cases h with
  | unavailable events =>
    rw [events] at he
    rw [List.mem_singleton.mp he]
  | opened between error events inner =>
    rw [events] at he
    rcases List.mem_append.mp he with he | he
    · rcases List.mem_cons.mp he with rfl | he
      · rfl
      · rw [Event.isOpening_of_isInner (inner e he)] at opening
        cases opening
    · rw [List.mem_singleton.mp he] at opening
      cases opening

/-- A channel is closed when the emission is over. -/
lemma time_of_isEnd (h : b.Orderly size patience) :
    ∀ e ∈ b.events, e.event.isEnd = true → e.time = b.duration := by
  intro e he ended
  cases h with
  | unavailable events atOnce =>
    rw [events] at he
    rw [List.mem_singleton.mp he, atOnce]
  | opened between error events inner =>
    rw [events] at he
    rcases List.mem_append.mp he with he | he
    · rcases List.mem_cons.mp he with rfl | he
      · cases ended
      · rw [Event.isEnd_of_isInner (inner e he)] at ended
        cases ended
    · rw [List.mem_singleton.mp he]

end Batch.Orderly

namespace Log

/-- A log that emissions have written, each on the next channel. -/
inductive Written (t : Transport) (timeout : Duration) (patience : Patience) :
    Log → List Attempt → Prop where
  | start : Written t timeout patience [] []
  | attempt {log : Log} {attempts : List Attempt}
      (written : Written t timeout patience log attempts) (time : Duration)
      (proposals : List Proposal) :
      Written t timeout patience
        (log ++ entriesOf time log.opens (log.attempt t timeout patience proposals))
        (attempts ++ [⟨time, proposals, log.attempt t timeout patience proposals⟩])

/-- The openings and closes of a log that emissions have written are in balance. -/
structure Balanced (patience : Patience) (log : Log) (attempts : List Attempt) : Prop where
  /-- Every emission opens a channel once. -/
  opens : log.opens = attempts.length
  /-- Nothing happens on other channels. -/
  numbers : ∀ entry ∈ log, entry.channel < attempts.length
  /-- What happens on a channel is what its emission does. -/
  channel : ∀ (k : Nat) (a : Attempt), attempts[k]? = some a →
    log.channel k = entriesOf a.start k a.batch
  /-- An emission opens its channel first and closes it last. -/
  orderly : ∀ (k : Nat) (a : Attempt), attempts[k]? = some a →
    a.batch.Orderly a.proposals.length (patience k)
  /-- At every instant, what was opened is closed, or did not open, or is under way. -/
  running : ∀ time, (log.upTo time).opens =
    (log.upTo time).failures + (log.upTo time).closes + attempts.countP (·.isRunning time)
  /-- In the end, what was opened is closed or did not open. -/
  ended : log.opens = log.failures + log.closes

section

variable (log more : Log) (start time : Duration) (k : Nat) (b : Batch)

lemma opens_append : Log.opens (log ++ more) = log.opens + Log.opens more := List.countP_append

lemma failures_append : Log.failures (log ++ more) = log.failures + Log.failures more :=
  List.countP_append

lemma closes_append : Log.closes (log ++ more) = log.closes + Log.closes more := List.countP_append

lemma upTo_append : Log.upTo (log ++ more) time = log.upTo time ++ Log.upTo more time :=
  List.filter_append ..

lemma channel_append : Log.channel (log ++ more) k = log.channel k ++ Log.channel more k :=
  List.filter_append ..

/-- A channel has its end by an opening that failed or by a close. -/
lemma failures_add_closes : log.failures + log.closes = log.countP (·.event.isEnd) := by
  induction log with
  | nil => rfl
  | cons entry log ih =>
    simp only [failures, closes, List.countP_cons] at ih ⊢
    cases entry.event <;> simp [Event.isEnd, Event.isFailure, Event.isClose] at ih ⊢ <;> omega

lemma countP_entriesOf (p : Event → Bool) :
    (entriesOf start k b).countP (fun entry => p entry.event) =
      b.events.countP fun e => p e.event := by
  rw [entriesOf, List.countP_map]
  rfl

/-- Events of an emission that all happen at one instant have happened once it has come. -/
lemma countP_upTo_entriesOf {d : Duration} (p : Event → Bool)
    (same : ∀ e ∈ b.events, p e.event = true → e.time = d) :
    ((entriesOf start k b).upTo time).countP (fun entry => p entry.event) =
      if start + d ≤ time then b.events.countP fun e => p e.event else 0 := by
  rw [upTo, entriesOf, List.countP_filter, List.countP_map]
  split
  · refine List.countP_congr fun e he => ?_
    simp only [Function.comp_apply, Bool.and_eq_true, decide_eq_true_eq, and_iff_left_iff_imp]
    intro hp
    rwa [same e he hp]
  · rename_i later
    refine List.countP_eq_zero.mpr fun e he => ?_
    simp only [Function.comp_apply, Bool.and_eq_true, decide_eq_true_eq, not_and]
    intro hp
    rwa [same e he hp]

variable {b} {size : Nat} {patience : Option Duration}

lemma opens_entriesOf (h : b.Orderly size patience) : (entriesOf start k b).opens = 1 :=
  (countP_entriesOf start k b Event.isOpening).trans h.countP_isOpening

lemma ends_entriesOf (h : b.Orderly size patience) :
    (entriesOf start k b).failures + (entriesOf start k b).closes = 1 := by
  rw [failures_add_closes]
  exact (countP_entriesOf start k b Event.isEnd).trans h.countP_isEnd

lemma opens_upTo_entriesOf (h : b.Orderly size patience) :
    ((entriesOf start k b).upTo time).opens = if start ≤ time then 1 else 0 := by
  have opening := countP_upTo_entriesOf start time k b Event.isOpening h.time_of_isOpening
  rw [h.countP_isOpening] at opening
  exact opening

lemma ends_upTo_entriesOf (h : b.Orderly size patience) :
    ((entriesOf start k b).upTo time).failures + ((entriesOf start k b).upTo time).closes =
      if start + b.duration ≤ time then 1 else 0 := by
  have ending := countP_upTo_entriesOf start time k b Event.isEnd h.time_of_isEnd
  rw [h.countP_isEnd, ← failures_add_closes] at ending
  exact ending

variable (b)

lemma channel_entriesOf_self : Log.channel (entriesOf start k b) k = entriesOf start k b := by
  refine List.filter_eq_self.mpr fun entry h => ?_
  obtain ⟨e, -, rfl⟩ := List.mem_map.mp h
  exact decide_eq_true rfl

lemma channel_entriesOf_of_ne {n : Nat} (other : n ≠ k) :
    Log.channel (entriesOf start k b) n = [] := by
  refine List.filter_eq_nil_iff.mpr fun entry h => ?_
  obtain ⟨e, -, rfl⟩ := List.mem_map.mp h
  simpa using other.symm

end

variable {t : Transport} {timeout : Duration} {patience : Patience} {log : Log}
  {attempts : List Attempt}

/-- Nothing has happened on the next channel. -/
lemma channel_eq_nil (numbers : ∀ entry ∈ log, entry.channel < attempts.length) :
    log.channel attempts.length = [] := by
  refine List.filter_eq_nil_iff.mpr fun entry h => ?_
  have other : entry.channel ≠ attempts.length := Nat.ne_of_lt (numbers entry h)
  simpa using other

lemma getElem?_concat_cases {a last : Attempt} {k : Nat}
    (known : (attempts ++ [last])[k]? = some a) :
    attempts[k]? = some a ∧ k ≠ attempts.length ∨ k = attempts.length ∧ a = last := by
  rcases Nat.lt_trichotomy k attempts.length with h | h | h
  · rw [List.getElem?_append_left h] at known
    exact Or.inl ⟨known, Nat.ne_of_lt h⟩
  · subst h
    rw [List.getElem?_concat_length, Option.some.injEq] at known
    exact Or.inr ⟨rfl, known.symm⟩
  · rw [List.getElem?_eq_none (by simp; omega)] at known
    cases known

/-- The emission of one more batch keeps the balance. -/
lemma Balanced.attempt (h : Balanced patience log attempts) (start : Duration) {b : Batch}
    {proposals : List Proposal} (orderly : b.Orderly proposals.length (patience log.opens)) :
    Balanced patience (log ++ entriesOf start log.opens b)
      (attempts ++ [⟨start, proposals, b⟩]) where
  opens := by
    rw [opens_append, opens_entriesOf _ _ orderly, h.opens, List.length_append,
      List.length_singleton]
  numbers := by
    intro entry hentry
    rw [List.length_append, List.length_singleton]
    rcases List.mem_append.mp hentry with hentry | hentry
    · exact Nat.lt_succ_of_lt (h.numbers entry hentry)
    · obtain ⟨e, -, rfl⟩ := List.mem_map.mp hentry
      rw [h.opens]
      exact Nat.lt_succ_self _
  channel := by
    intro k a known
    rw [channel_append, h.opens]
    rcases getElem?_concat_cases known with ⟨known, other⟩ | ⟨rfl, rfl⟩
    · rw [h.channel k a known, channel_entriesOf_of_ne _ _ _ other, List.append_nil]
    · rw [channel_eq_nil h.numbers, channel_entriesOf_self, List.nil_append]
  orderly := by
    intro k a known
    rcases getElem?_concat_cases known with ⟨known, -⟩ | ⟨rfl, rfl⟩
    · exact h.orderly k a known
    · rw [← h.opens]
      exact orderly
  running := by
    intro time
    have before := h.running time
    have opening := opens_upTo_entriesOf start time log.opens orderly
    have ending := ends_upTo_entriesOf start time log.opens orderly
    rw [upTo_append, opens_append, failures_append, closes_append, List.countP_append,
      List.countP_singleton, opening, before]
    simp only [Attempt.isRunning, Bool.and_eq_true, decide_eq_true_eq, Duration.le_iff,
      Duration.lt_iff, Duration.nanoseconds_add] at ending ⊢
    split at ending <;> split <;> split <;> omega
  ended := by
    have before := h.ended
    have ending := ends_entriesOf start log.opens orderly
    rw [opens_append, failures_append, closes_append, opens_entriesOf _ _ orderly]
    omega

/-- Whatever emissions write a log, its openings and closes are in balance. -/
theorem Written.balanced (h : Written t timeout patience log attempts) :
    Balanced patience log attempts := by
  induction h with
  | start =>
    constructor
    · rfl
    · simp
    · simp
    · simp
    · intro _; rfl
    · rfl
  | attempt _ time proposals ih => exact ih.attempt time (within_orderly ..)

end Log

end LakeCatalog.Emission

import LakeCatalog.Proofs.Emission.Course

/-!
# The outcomes of a batch

Every position of a batch comes to exactly one outcome. Which one, and after which time, is laid
down by the submission at this position alone; the other submissions only decide where in the list
it stands, and when the emission is over.
-/

namespace LakeCatalog.Emission

open Catalog

/-- The instant at which the outcome of a submission is known: its own delay, but not more than the
timeout. -/
def Behaviour.instant (timeout : Duration) : Behaviour → Duration
  | .resolves delay _ => min delay timeout
  | .hangs => timeout
  | .refuses _ => .zero
  | .panics _ => .zero

lemma Behaviour.due_eq_instant (timeout : Duration) (b : Behaviour) :
    b.due timeout = b.instant timeout := by
  cases b with
  | resolves delay error =>
    by_cases h : delay ≤ timeout
    · simp only [due, instant, if_pos h]
      exact Duration.ext (Nat.min_eq_left h).symm
    · simp only [due, instant, if_neg h]
      exact Duration.ext (Nat.min_eq_right (Nat.le_of_not_le h)).symm
  | hangs => rfl
  | refuses error => rfl
  | panics message => rfl

lemma Behaviour.instant_le (timeout : Duration) (b : Behaviour) : b.instant timeout ≤ timeout := by
  cases b with
  | resolves delay error => exact Nat.min_le_right _ _
  | hangs => exact Nat.le_refl _
  | refuses error => exact Nat.zero_le _
  | panics message => exact Nat.zero_le _

lemma Submission.due_waiter (timeout : Duration) (s : Submission) :
    (s.waiter .zero).due timeout = s.behaviour.instant timeout := by
  rw [← Behaviour.due_eq_instant]
  exact Duration.ext (Nat.zero_add _)

/-- A proposal that is handed over at the start has the outcome of its submission. -/
lemma Submission.settled_waiter (t : Transport) (timeout : Duration) (s : Submission) :
    (s.waiter .zero).settled t timeout = s.settled t timeout := by
  have elapsed : (s.waiter .zero).due timeout - .zero = s.behaviour.due timeout := by
    rw [due_waiter, Behaviour.due_eq_instant]
    rfl
  simp only [Waiter.settled, Waiter.outcome, Submission.settled]
  exact congrArg
    (fun d => (⟨s.position, s.proposal, s.behaviour.status (t.obituary s.number) timeout, d⟩ :
      Settled)) elapsed

/-- The outcome of a submission is known before that of another; of two that are known at the same
instant the earlier submission comes first. -/
def Submission.Before (timeout : Duration) (a b : Submission) : Prop :=
  a.behaviour.instant timeout < b.behaviour.instant timeout ∨
    a.behaviour.instant timeout = b.behaviour.instant timeout ∧ a.position < b.position

def Waiter.submission (w : Waiter) : Submission :=
  ⟨w.position, w.number, w.proposal, w.behaviour⟩

section

variable (t : Transport) (timeout : Duration) (count : Nat) (batch : List Proposal)

/-- The waiters report in the order in which the outcomes of their submissions are known. -/
lemma exists_answered : ∃ answered : List Submission,
    (Flight.begun t timeout count batch).arrivals = answered.map (·.waiter .zero) ∧
      answered.Perm ((submissionsFrom t count 0 batch).filter (!·.isRefused)) ∧
      answered.Pairwise (Submission.Before timeout) := by
  have hp := (Flight.begun t timeout count batch).arrivals_perm
  rw [Flight.taken_begun] at hp
  have back : ∀ w ∈ (Flight.begun t timeout count batch).arrivals,
      w.submission.waiter .zero = w := by
    intro w hw
    obtain ⟨s, -, rfl⟩ := List.mem_map.mp (hp.mem_iff.mp hw)
    rfl
  refine ⟨(Flight.begun t timeout count batch).arrivals.map Waiter.submission, ?_, ?_, ?_⟩
  · rw [List.map_map]
    exact ((List.map_congr_left back).trans (List.map_id' _)).symm
  · refine (hp.map Waiter.submission).trans (.of_eq ?_)
    rw [List.map_map]
    exact List.map_id _
  · rw [List.pairwise_map]
    refine (Flight.arrivals_begun_pairwise t timeout count batch).imp_of_mem ?_
    intro v w hv hw before
    rw [← back v hv, ← back w hw, Waiter.Before, Submission.due_waiter, Submission.due_waiter]
      at before
    exact before

variable {t} {opens : Nat}

/-- The outcomes of a batch are those of the refused submissions in their order, and then those of
the others in the order in which they are known. -/
lemma exists_settled_emit (opened : t.opening opens = none) : ∃ answered : List Submission,
    answered.Perm ((submissionsFrom t count 0 batch).filter (!·.isRefused)) ∧
      answered.Pairwise (Submission.Before timeout) ∧
      (emit t opens count timeout batch).settled =
        ((submissionsFrom t count 0 batch).filter (·.isRefused)).map (·.settled t timeout) ++
          answered.map (·.settled t timeout) ∧
      (emit t opens count timeout batch).duration =
        latest .zero (answered.map (·.behaviour.instant timeout)) := by
  obtain ⟨answered, arrivals, perm, ordered⟩ := exists_answered t timeout count batch
  refine ⟨answered, perm, ordered, ?_, ?_⟩
  · rw [emit_of_opening count timeout batch opened]
    simp only [arrivals, List.map_map, Function.comp_def, Submission.settled_waiter]
  · rw [emit_of_opening count timeout batch opened]
    simp only [arrivals, List.map_map, Function.comp_def, Submission.due_waiter]

/-- Every submission of a batch has its outcome, and there are no others. -/
lemma settled_emit_perm (opened : t.opening opens = none) :
    (emit t opens count timeout batch).settled.Perm
      ((submissionsFrom t count 0 batch).map (·.settled t timeout)) := by
  obtain ⟨answered, perm, -, settled, -⟩ := exists_settled_emit timeout count batch opened
  rw [settled]
  refine ((perm.map _).append_left _).trans ?_
  rw [← List.map_append]
  exact (List.filter_append_perm _ _).map _

lemma handedOver_heard (ws : List Waiter) :
    (ws.map (·.event timeout)).filterMap (·.event.proposal?) = [] := by
  rw [List.filterMap_map]
  exact List.filterMap_eq_nil_iff.mpr fun _ _ => rfl

lemma handedOver_submissions (t : Transport) : ((submissionsFrom t count 0 batch).map
    fun s => (⟨.zero, s.event⟩ : TimedEvent)).filterMap (·.event.proposal?) = batch := by
  rw [List.filterMap_map]
  simp only [Function.comp_def, Submission.proposal?_event]
  exact (congrFun List.filterMap_eq_map _).trans (map_proposal_submissionsFrom t count 0 batch)

/-- What is handed over to a channel that opens is the batch, in its order. -/
lemma handedOver_emit (opened : t.opening opens = none) :
    (emit t opens count timeout batch).events.filterMap (·.event.proposal?) = batch := by
  rw [emit_of_opening count timeout batch opened, List.filterMap_append, List.filterMap_append,
    List.filterMap_cons_none rfl, handedOver_submissions, handedOver_heard,
    List.filterMap_cons_none rfl, List.filterMap_nil, List.append_nil, List.append_nil]

end

/-- A channel that cannot be opened is unavailable; a cause that is just that is kept. -/
lemma unavailable_spec (error : TransportError) : ∃ reason,
    (error = .channelUnavailable reason ∨
      (∀ kept, error ≠ .channelUnavailable kept) ∧ reason = error.message) ∧
    unavailable error = .channelUnavailable reason := by
  cases error with
  | channelUnavailable reason => exact ⟨reason, Or.inl rfl, rfl⟩
  | submission reason => exact ⟨_, Or.inr ⟨fun _ => by simp, rfl⟩, rfl⟩
  | rejected status body => exact ⟨_, Or.inr ⟨fun _ => by simp, rfl⟩, rfl⟩
  | io reason => exact ⟨_, Or.inr ⟨fun _ => by simp, rfl⟩, rfl⟩
  | aborted reason => exact ⟨_, Or.inr ⟨fun _ => by simp, rfl⟩, rfl⟩

/-- Every position of a batch comes to exactly one outcome, which is about its own proposal, also
when proposals are equal, and whichever waiters report, and in whatever order. If the channel cannot
be opened, the outcomes are failures for that cause, in the order of the batch, and nothing is
handed over; otherwise the whole batch is handed over, whatever is refused. -/
theorem emit_one_outcome_per_position (t : Transport) (opens count : Nat) (timeout : Duration)
    (batch : List Proposal) :
    let b := emit t opens count timeout batch
    (b.settled.map Settled.position).Perm (List.range batch.length) ∧
    (∀ s ∈ b.settled, batch[s.position]? = some s.outcome.proposal) ∧
    b.outcomes.length = batch.length ∧
    (∀ f, b.waiting = some f → ∀ reports : List Report,
      (reports.filterMap Report.settled).Subperm (f.taken.map (·.settled t timeout)) →
      (((reports.foldl Flight.hear f).finish batch).settled.map Settled.position).Perm
          (List.range batch.length) ∧
        ∀ s ∈ ((reports.foldl Flight.hear f).finish batch).settled,
          batch[s.position]? = some s.outcome.proposal) ∧
    (∀ error, t.opening opens = some error → ∃ reason,
      (error = .channelUnavailable reason ∨
        (∀ kept, error ≠ .channelUnavailable kept) ∧ reason = error.message) ∧
      b.outcomes = batch.map (⟨·, .failed (.channelUnavailable reason), .zero⟩) ∧
      b.settled.map Settled.position = List.range batch.length ∧
      b.events.filterMap (·.event.proposal?) = []) ∧
    (t.opening opens = none → b.events.filterMap (·.event.proposal?) = batch) := by
  intro b
  cases hopen : t.opening opens with
  | some error =>
    have hb : b = _ := emit_of_failed_opening count timeout batch hopen
    have positions : b.settled.map Settled.position = List.range batch.length := by
      simp [hb, Function.comp_def, List.range_eq_range']
    refine ⟨.of_eq positions, ?_, by simp [hb, Batch.outcomes], by simp [hb], ?_, by simp⟩
    · intro s hs
      rw [hb] at hs
      obtain ⟨⟨p, i⟩, hp, rfl⟩ := List.mem_map.mp hs
      exact List.mem_zipIdx_iff_getElem?.mp hp
    · rintro _ ⟨⟩
      obtain ⟨reason, kept, same⟩ := unavailable_spec error
      refine ⟨reason, kept, ?_, positions, by simp [hb, Event.proposal?]⟩
      rw [← List.zipIdx_map_fst 0 batch, List.map_map]
      simp [hb, Batch.outcomes, same, Function.comp_def]
  | none =>
    have hb : b = _ := emit_of_opening count timeout batch hopen
    have perm := settled_emit_perm timeout count batch hopen
    refine ⟨?_, ?_, ?_, ?_, by simp, fun _ => handedOver_emit timeout count batch hopen⟩
    · have h := perm.map Settled.position
      rw [List.map_map] at h
      exact h.trans (.of_eq (map_position_submissionsFrom t count batch))
    · intro s hs
      obtain ⟨sub, hsub, rfl⟩ := List.mem_map.mp (perm.mem_iff.mp hs)
      exact ((mem_submissionsFrom t count batch).mp hsub).1
    · rw [Batch.outcomes, List.length_map, perm.length_eq, List.length_map,
        length_submissionsFrom]
    · intro f hf reports heard
      rw [hb, Option.some.injEq] at hf
      subst hf
      have accounted := Flight.accounted_of_reports t timeout count batch heard
      exact ⟨accounted.finish_perm, fun s => accounted.finish_faithful⟩

namespace Batch

def outcomesAt (b : Batch) (position : Nat) : List Outcome :=
  (b.settled.filter (·.position = position)).map Settled.outcome

end Batch

/-- A position of a batch has the one outcome that its own submission comes to. -/
lemma outcomesAt_emit {t : Transport} {opens : Nat} (count : Nat) (timeout : Duration)
    {batch : List Proposal} (opened : t.opening opens = none) {i : Nat} {p : Proposal}
    (known : batch[i]? = some p) :
    (emit t opens count timeout batch).outcomesAt i =
      [⟨p, t.status timeout (count + i), (t.submission (count + i)).due timeout⟩] := by
  have perm := (settled_emit_perm timeout count batch opened).filter (·.position = i)
  have unique : (submissionsFrom t count 0 batch).filter (·.position = i) =
      [⟨i, count + i, p, t.submission (count + i)⟩] := by
    have nodup : (submissionsFrom t count 0 batch).Nodup := by
      refine (submissionsFrom_pairwise t count 0 batch).imp ?_
      rintro a _ hlt rfl
      exact Nat.lt_irrefl _ hlt
    refine List.Perm.eq_singleton ?_
    refine (List.perm_ext_iff_of_nodup (nodup.filter _) (List.nodup_singleton _)).mpr ?_
    intro s
    simp only [List.mem_filter, decide_eq_true_eq, List.mem_singleton, mem_submissionsFrom]
    constructor
    · rintro ⟨⟨hp, hn, hb⟩, rfl⟩
      obtain ⟨j, n, q, b⟩ := s
      simp only at hp hn hb
      rw [hb, hn, Option.some.inj (hp.symm.trans known)]
    · rintro rfl
      exact ⟨⟨known, rfl, rfl⟩, rfl⟩
  rw [List.filter_map] at perm
  have split : ((fun x : Settled => decide (x.position = i)) ∘ (·.settled t timeout)) =
      fun s : Submission => decide (s.position = i) := rfl
  rw [split, unique, List.map_singleton] at perm
  rw [Batch.outcomesAt, perm.eq_singleton, List.map_singleton]
  rfl

/-- The status without the words for an abort. -/
def Status.wordless : Status → Status
  | .failed (.aborted _) => .failed (.aborted "")
  | status => status

/-- What happens to the other proposals of a batch does not matter to a proposal: two transports
that open the channel and treat the submission at a position alike give it the same status after the
same time, the one that its own behaviour dictates. Where its task dies the runtime words the
failure, and it numbers tasks over the whole process, so these words are those of the run; but for
them the outcomes are equal. -/
theorem emit_isolates_siblings {t t' : Transport} {opens opens' count count' : Nat}
    (timeout : Duration) (batch : List Proposal) (i : Nat)
    (opened : t.opening opens = none) (opened' : t'.opening opens' = none)
    (inside : i < batch.length)
    (alike : t.submission (count + i) = t'.submission (count' + i)) :
    ∃ o o', (emit t opens count timeout batch).outcomesAt i = [o] ∧
      (emit t' opens' count' timeout batch).outcomesAt i = [o'] ∧
      batch[i]? = some o.proposal ∧ o'.proposal = o.proposal ∧
      o'.status.wordless = o.status.wordless ∧ o'.elapsed = o.elapsed ∧
      ((∀ message, t.submission (count + i) = .panics message →
        t'.obituary (count' + i) message = t.obituary (count + i) message) → o' = o) ∧
      match t.submission (count + i) with
      | .refuses error => o.status = .failed error ∧ o.elapsed = .zero
      | .panics message =>
        o.status = .failed (.aborted (t.obituary (count + i) message)) ∧
          o'.status = .failed (.aborted (t'.obituary (count' + i) message)) ∧ o.elapsed = .zero
      | .hangs => o.status = .timedOut ∧ o.elapsed = timeout
      | .resolves delay error =>
        (delay < timeout → o.elapsed = delay ∧
          o.status = match error with
            | none => .succeeded
            | some error => .failed error) ∧
        (timeout < delay → o.status = .timedOut ∧ o.elapsed = timeout) := by
  have known : batch[i]? = some batch[i] := List.getElem?_eq_getElem inside
  have first := outcomesAt_emit count timeout opened known
  have second := outcomesAt_emit count' timeout opened' known
  rw [Transport.status, ← alike] at second
  refine ⟨_, _, first, second, known, rfl, ?_⟩
  rw [Transport.status]
  cases hb : t.submission (count + i) with
  | refuses error => exact ⟨rfl, rfl, fun _ => rfl, rfl, rfl⟩
  | panics message =>
    refine ⟨rfl, rfl, fun agree => ?_, rfl, rfl, rfl⟩
    simp only [Behaviour.status, agree message rfl]
  | hangs => exact ⟨rfl, rfl, fun _ => rfl, rfl, rfl⟩
  | resolves delay error =>
    refine ⟨rfl, rfl, fun _ => rfl, fun early => ?_, fun late => ?_⟩
    · have h : delay ≤ timeout := Nat.le_of_lt early
      simp only [Behaviour.status, Behaviour.due, if_pos h, true_and]
      cases error <;> rfl
    · have h : ¬ delay ≤ timeout := Nat.not_le_of_lt late
      simp only [Behaviour.status, Behaviour.due, if_neg h, and_self]

/-- A refused first sibling in place of one that hangs changes nothing for the second proposal, and
for the third one, whose task dies, only the number of that task. -/
theorem emit_isolates_sibling_of_hung :
    let p : Proposal := ⟨.container, ⟨"urn:li:container:sales", by decide +kernel⟩, .status false⟩
    let script (first : Behaviour) : Nat → Behaviour := fun n =>
      if n = 1 then .resolves (.ofMilliseconds 5) none else if n = 2 then .panics "boom" else first
    -- A proposal that is taken starts two tasks, and one that is refused none.
    let obituary (started : Nat) : Nat → String → String := fun n message =>
      "task " ++ Text.decimal (started + 2 * n) ++ " panicked with message \"" ++ message ++ "\""
    let hung : Transport := ⟨"", fun _ => none, script .hangs, none, obituary 3⟩
    let refused : Transport := ⟨"", fun _ => none, script (.refuses (.io "down")), none, obituary 1⟩
    let emitted (t : Transport) : Batch := emit t 0 0 (.ofSeconds 1) [p, p, p]
    (hung.opening 0 = none ∧ refused.opening 0 = none ∧ 2 < [p, p, p].length ∧
      hung.submission (0 + 1) = refused.submission (0 + 1) ∧
      hung.submission (0 + 2) = refused.submission (0 + 2)) ∧
    (∃ o, (emitted hung).outcomesAt 1 = [o] ∧ (emitted refused).outcomesAt 1 = [o] ∧
      o.status = .succeeded ∧ o.elapsed = .ofMilliseconds 5) ∧
    ∃ o o', (emitted hung).outcomesAt 2 = [o] ∧ (emitted refused).outcomesAt 2 = [o'] ∧
      o.status = .failed (.aborted "task 7 panicked with message \"boom\"") ∧
      o'.status = .failed (.aborted "task 5 panicked with message \"boom\"") ∧
      o'.elapsed = o.elapsed := by
  intro p script obituary hung refused emitted
  have alike : hung.submission (0 + 1) = refused.submission (0 + 1) := rfl
  have alike' : hung.submission (0 + 2) = refused.submission (0 + 2) := rfl
  obtain ⟨o, o', first, second, -, -, -, -, same, dictated⟩ :=
    emit_isolates_siblings (.ofSeconds 1) [p, p, p] 1 (rfl : hung.opening 0 = none)
      (rfl : refused.opening 0 = none) (by decide) alike
  obtain rfl := same fun _ panics => by cases panics
  obtain ⟨d, d', third, fourth, -, -, -, elapsed, -, dies, dies', -⟩ :=
    emit_isolates_siblings (.ofSeconds 1) [p, p, p] 2 (rfl : hung.opening 0 = none)
      (rfl : refused.opening 0 = none) (by decide) alike'
  have inTime : Duration.ofMilliseconds 5 < .ofSeconds 1 := by decide
  exact ⟨⟨rfl, rfl, by decide, alike, alike'⟩,
    ⟨o', first, second, (dictated.1 inTime).2, (dictated.1 inTime).1⟩,
    d, d', third, fourth, dies, dies', elapsed⟩

end LakeCatalog.Emission

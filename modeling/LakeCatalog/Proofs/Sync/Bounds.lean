import LakeCatalog.Proofs.Emission.Ledger
import LakeCatalog.Sync.Client

/-!
# How long operations take

An emission ends when the last of its outcomes is known, which is never later than its timeout. An
operation spends its time on emissions only, so the number of its batches bounds how long it takes.
-/

namespace LakeCatalog.Emission

open Catalog

section

variable {t : Transport} {opens : Nat} (count : Nat) (timeout : Duration) (batch : List Proposal)

/-- An emission goes on until the last outcome is known. -/
lemma instant_le_duration_emit (opened : t.opening opens = none) :
    ∀ s ∈ submissionsFrom t count 0 batch,
      s.behaviour.instant timeout ≤ (emit t opens count timeout batch).duration := by
  obtain ⟨answered, perm, -, -, duration⟩ := exists_settled_emit timeout count batch opened
  intro s hs
  rw [duration]
  cases hr : s.isRefused with
  | true =>
    cases hb : s.behaviour <;> simp only [Submission.isRefused, Behaviour.isRefusal, hb] at hr
    · cases hr
    · cases hr
    · exact Nat.zero_le _
    · cases hr
  | false =>
    have waited : s ∈ answered := perm.mem_iff.mpr (List.mem_filter.mpr ⟨hs, by simp [hr]⟩)
    exact le_latest_of_mem (List.mem_map_of_mem waited)

/-- An emission is over once the last outcome is known. -/
lemma duration_emit_attained (opened : t.opening opens = none) :
    batch = [] ∧ (emit t opens count timeout batch).duration = .zero ∨
      ∃ s ∈ submissionsFrom t count 0 batch,
        s.behaviour.instant timeout = (emit t opens count timeout batch).duration := by
  have bound := instant_le_duration_emit count timeout batch opened
  obtain ⟨answered, perm, -, -, duration⟩ := exists_settled_emit timeout count batch opened
  rw [duration] at bound ⊢
  rcases latest_eq_or_mem .zero (answered.map (·.behaviour.instant timeout)) with none_later | h
  · rw [none_later] at bound ⊢
    cases batch with
    | nil => exact Or.inl ⟨rfl, rfl⟩
    | cons p ps =>
      rw [submissionsFrom_cons] at bound ⊢
      have first := bound _ List.mem_cons_self
      exact Or.inr ⟨_, List.mem_cons_self, Duration.ext (Nat.le_antisymm first (Nat.zero_le _))⟩
  · obtain ⟨s, hs, same⟩ := List.mem_map.mp h
    exact Or.inr ⟨s, (List.mem_filter.mp (perm.mem_iff.mp hs)).1, same⟩

lemma duration_emit_le : (emit t opens count timeout batch).duration ≤ timeout :=
  duration_within_le t opens count timeout none batch

end

end LakeCatalog.Emission

namespace LakeCatalog.Sync

open Catalog Emission

variable {α : Type} {n : Nat} (t : Transport) (timeout : Duration) (patience : Patience)
  (table : History)

/-- A batch takes one timeout at most and one channel. -/
lemma Session.attempt_bounds (s : Session) (batch : List Proposal) :
    (s.attempt t timeout patience batch).2.now.nanoseconds ≤
        s.now.nanoseconds + timeout.nanoseconds ∧
      (s.attempt t timeout patience batch).2.log.opens = s.log.opens + 1 := by
  constructor
  · exact Nat.add_le_add_left (duration_within_le ..) _
  · rw [Session.attempt, Log.opens_append]
    exact congrArg _ (Log.opens_entriesOf _ _ (within_orderly ..))

/-- A plan takes one timeout at most, and one channel, for each batch that it may emit. -/
lemma Plan.attempt_bounds (p : Plan α n) (s : Session) :
    (p.attempt t timeout patience table s).2.now.nanoseconds ≤
        s.now.nanoseconds + n * timeout.nanoseconds ∧
      (p.attempt t timeout patience table s).2.log.opens ≤ s.log.opens + n := by
  induction p generalizing s with
  | finish result => exact ⟨Nat.le_add_right _ _, Nat.le_add_right _ _⟩
  | readFacts next ih => exact ih (table s.now).facts s
  | readLastCommit next ih => exact ih (table s.now).lastCommit s
  | @emit n batch next ih =>
    obtain ⟨now, opens⟩ := Session.attempt_bounds t timeout patience s batch
    rw [Plan.attempt, Nat.add_one_mul]
    simp only
    split
    · have rest := ih (s.attempt t timeout patience batch).1.outcomes
        (s.attempt t timeout patience batch).2
      omega
    · dsimp only
      omega

/-- A plan of which nobody drops a batch has its result. -/
lemma Plan.attempt_endless (p : Plan α n) (s : Session) :
    p.attempt t timeout .endless table s =
      (some (p.run t timeout table s).1, (p.run t timeout table s).2) := by
  induction p generalizing s with
  | finish result => rfl
  | readFacts next ih => exact ih (table s.now).facts s
  | readLastCommit next ih => exact ih (table s.now).lastCommit s
  | emit batch next ih =>
    have same : s.attempt t timeout .endless batch = s.emit t timeout batch := rfl
    have completed : (s.emit t timeout batch).1.completed = true := completed_emit ..
    rw [Plan.attempt, Plan.run, same]
    simp only [completed, if_true]
    exact ih _ _

/-- The outcomes of a batch are those of the refused proposals in the order of the batch, and then
the others in the order of the instants at which they become known, and of the batch where these are
equal. The emission ends at the latest of these instants, which is within its timeout. So a full
sync of a table, which emits at most three batches, ends within three timeouts. -/
theorem emit_in_completion_order (opens count : Nat) (batch : List Proposal) :
    (t.opening opens = none →
      let subs := submissionsFrom t count 0 batch
      let b := emit t opens count timeout batch
      (∃ answered : List Submission,
        answered.Perm (subs.filter (!·.isRefused)) ∧
        answered.Pairwise (fun s s' =>
          s.behaviour.instant timeout < s'.behaviour.instant timeout ∨
            s.behaviour.instant timeout = s'.behaviour.instant timeout ∧
              s.position < s'.position) ∧
        b.settled = (subs.filter (·.isRefused)).map (·.settled t timeout) ++
          answered.map (·.settled t timeout)) ∧
      (∀ s ∈ subs, s.behaviour.instant timeout ≤ b.duration) ∧
      (batch = [] ∧ b.duration = .zero ∨
        ∃ s ∈ subs, s.behaviour.instant timeout = b.duration) ∧
      b.duration ≤ timeout) ∧
    ∀ (c : Client) (s : Session),
      let bound := c.settings.emitTimeout
      let ended := (c.syncTable.run t bound table s).2
      ended.log.opens ≤ s.log.opens + 3 ∧ ended.now ≤ s.now + bound + bound + bound := by
  constructor
  · intro opened subs b
    obtain ⟨answered, perm, ordered, settled, -⟩ := exists_settled_emit timeout count batch opened
    exact ⟨⟨answered, perm, ordered, settled⟩, instant_le_duration_emit count timeout batch opened,
      duration_emit_attained count timeout batch opened, duration_emit_le count timeout batch⟩
  · intro c s bound ended
    have bounds := c.syncTable.attempt_bounds t bound .endless table s
    rw [Plan.attempt_endless] at bounds
    refine ⟨bounds.2, ?_⟩
    have now : ended.now.nanoseconds ≤ s.now.nanoseconds + 3 * bound.nanoseconds := bounds.1
    simp only [Duration.le_iff, Duration.nanoseconds_add]
    omega

end LakeCatalog.Sync

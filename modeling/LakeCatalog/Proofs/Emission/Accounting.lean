import LakeCatalog.Proofs.Emission.Submission
import Mathlib.Data.List.Nodup

/-!
# One outcome for every position

The marks of an emission are kept in step with its recorded outcomes: a position is marked exactly
if an outcome of it is recorded, and no position is recorded twice. Whichever waiters report, and in
whatever order, the final sweep then records exactly the positions that are missing.
-/

namespace LakeCatalog.Emission

open Catalog

namespace Flight

/-- The positions whose outcomes are recorded, in the order in which they were recorded. -/
def positions (f : Flight) : List Nat := f.settled.map Settled.position

/-- The marks of an emission are in step with its recorded outcomes. -/
structure Accounted (batch : List Proposal) (f : Flight) : Prop where
  size : f.resolved.length = batch.length
  marked : ∀ i, f.isMarked i = true ↔ i ∈ f.positions
  once : f.positions.Nodup
  faithful : ∀ s ∈ f.settled, batch[s.position]? = some s.outcome.proposal

variable {batch : List Proposal} {f : Flight} {s : Settled}

lemma accounted_opened (t : Transport) (timeout : Duration) (submissions : Nat) :
    (opened t timeout submissions batch.length).Accounted batch where
  size := by simp [opened]
  marked i := by
    simp only [opened, positions, isMarked, List.getD_eq_getElem?_getD, List.getElem?_replicate]
    split <;> simp
  once := .nil
  faithful := by simp [opened]

lemma Accounted.lt_length (h : f.Accounted batch) {i : Nat} (hi : i ∈ f.positions) :
    i < batch.length := by
  obtain ⟨s, hs, rfl⟩ := List.mem_map.mp hi
  exact (List.getElem?_eq_some_iff.mp (h.faithful s hs)).1

/-- An outcome of a new position is recorded together with its mark. -/
lemma Accounted.record (h : f.Accounted batch) (new : s.position ∉ f.positions)
    (known : batch[s.position]? = some s.outcome.proposal) : (f.record s).Accounted batch where
  size := by simpa [Flight.record] using h.size
  marked i := by
    have hlt : s.position < f.resolved.length :=
      h.size ▸ (List.getElem?_eq_some_iff.mp known).1
    have hm := h.marked i
    by_cases hi : i = s.position
    · subst hi
      simp [Flight.record, positions, isMarked, List.getD_eq_getElem?_getD, hlt]
    · have hne : s.position ≠ i := fun he => hi he.symm
      simpa [Flight.record, positions, isMarked, List.getD_eq_getElem?_getD,
        List.getElem?_set_ne hne, hi] using hm
  once := by
    simp only [positions, Flight.record, List.map_append, List.map_cons, List.map_nil]
    exact List.Nodup.append h.once (List.nodup_singleton _) (by simpa [positions] using new)
  faithful o ho := by
    simp only [Flight.record, List.mem_append, List.mem_singleton] at ho
    rcases ho with ho | rfl
    · exact h.faithful o ho
    · exact known

lemma Accounted.congr {g : Flight} (h : f.Accounted batch) (resolved : g.resolved = f.resolved)
    (settled : g.settled = f.settled) : g.Accounted batch where
  size := by rw [resolved]; exact h.size
  marked := by simpa only [isMarked, resolved, positions, settled] using h.marked
  once := by rw [positions, settled]; exact h.once
  faithful := by rw [settled]; exact h.faithful

/-- Handing over a proposal at a new position keeps the marks in step, also when it is refused. -/
lemma Accounted.submit (h : f.Accounted batch) {position : Nat} {p : Proposal}
    (new : position ∉ f.positions) (known : batch[position]? = some p) :
    (f.submit position p).Accounted batch := by
  have written (e : Event) : (f.write e).Accounted batch := h.congr rfl rfl
  unfold Flight.submit
  split
  · split
    · exact ((written _).record new known).congr rfl rfl
    · exact h.congr rfl rfl
  · exact (written _).record new known

lemma mem_positions_submit {position i : Nat} {p : Proposal}
    (hi : i ∈ (f.submit position p).positions) : i ∈ f.positions ∨ i = position := by
  unfold Flight.submit at hi
  split at hi
  · split at hi
    · simpa [positions, Flight.record, write] using hi
    · exact Or.inl hi
  · simpa [positions, Flight.record, write] using hi

/-- Handing over the rest of a batch keeps the marks in step. -/
lemma Accounted.submitFrom {done rest : List Proposal} (h : f.Accounted (done ++ rest))
    (before : ∀ i ∈ f.positions, i < done.length) :
    (submitFrom done.length rest f).Accounted (done ++ rest) := by
  induction rest generalizing done f with
  | nil => exact h
  | cons p rest ih =>
    have new : done.length ∉ f.positions := fun hi => Nat.lt_irrefl _ (before _ hi)
    have step : (f.submit done.length p).Accounted (done ++ p :: rest) :=
      h.submit new (by simp)
    rw [List.append_cons] at step ⊢
    rw [Flight.submitFrom]
    have hlen : done.length + 1 = (done ++ [p]).length := by simp
    rw [hlen]
    refine ih step ?_
    intro i hi
    rw [← hlen]
    rcases mem_positions_submit hi with hi | rfl
    · exact Nat.lt_succ_of_lt (before i hi)
    · exact Nat.lt_succ_self _

/-- Whatever is heard is recorded, in the order in which it is heard. -/
lemma settled_foldl_hear (rs : List Report) (f : Flight) :
    (rs.foldl hear f).settled = f.settled ++ rs.filterMap Report.settled := by
  induction rs generalizing f with
  | nil => simp
  | cons r rs ih =>
    rw [List.foldl_cons, ih]
    cases hr : r.settled <;> simp [hear, hr, Flight.record, write]

lemma Accounted.hear (h : f.Accounted batch) {r : Report}
    (new : ∀ s ∈ r.settled, s.position ∉ f.positions)
    (known : ∀ s ∈ r.settled, batch[s.position]? = some s.outcome.proposal) :
    (f.hear r).Accounted batch := by
  unfold Flight.hear
  cases hr : r.settled with
  | none => exact h.congr rfl rfl
  | some s =>
    exact Accounted.record (h.congr rfl rfl) (new s (by rw [hr]; rfl)) (known s (by rw [hr]; rfl))

/-- Reports of distinct new positions keep the marks in step, whatever their order. -/
lemma Accounted.foldl_hear {rs : List Report} (h : f.Accounted batch)
    (new : (f.settled ++ rs.filterMap Report.settled).map Settled.position |>.Nodup)
    (known : ∀ s ∈ rs.filterMap Report.settled, batch[s.position]? = some s.outcome.proposal) :
    (rs.foldl Flight.hear f).Accounted batch := by
  induction rs generalizing f with
  | nil => exact h
  | cons r rs ih =>
    have hsplit : f.settled ++ (r :: rs).filterMap Report.settled =
        (f.hear r).settled ++ rs.filterMap Report.settled := by
      rw [← settled_foldl_hear, ← settled_foldl_hear, List.foldl_cons]
    refine ih (h.hear ?_ ?_) (hsplit ▸ new) ?_
    · intro s hs hmem
      rw [Option.mem_def] at hs
      rw [List.filterMap_cons_some hs, List.map_append, List.nodup_append] at new
      exact new.2.2 s.position hmem s.position (by simp) rfl
    · intro s hs
      exact known s (List.mem_filterMap.mpr ⟨r, List.mem_cons_self, hs⟩)
    · intro s hs
      obtain ⟨q, hq, hqs⟩ := List.mem_filterMap.mp hs
      exact known s (List.mem_filterMap.mpr ⟨q, List.mem_cons_of_mem r hq, hqs⟩)

def lost (p : Proposal) (position : Nat) : Settled :=
  ⟨position, p, .failed unreported, .zero⟩

@[simp] lemma settled_lose (f : Flight) (position : Nat) (p : Proposal) :
    (f.lose position p).settled = f.settled ++ [lost p position] := rfl

@[simp] lemma isMarked_lose (f : Flight) (position i : Nat) (p : Proposal) :
    (f.lose position p).isMarked i = f.isMarked i := rfl

/-- The sweep records exactly the positions without a mark, in their order. -/
lemma settled_sweepFrom (position : Nat) (ps : List Proposal) (f : Flight) :
    (sweepFrom position ps f).settled = f.settled ++
      ((ps.zipIdx position).filter fun e => !f.isMarked e.2).map fun e => lost e.1 e.2 := by
  induction ps generalizing position f with
  | nil => simp [sweepFrom]
  | cons p ps ih =>
    rw [sweepFrom, ih, List.zipIdx_cons]
    cases hm : f.isMarked position <;> simp [hm]

lemma sweepFrom_eq_self {position : Nat} {ps : List Proposal}
    (marked : ∀ i, position ≤ i → i < position + ps.length → f.isMarked i = true) :
    sweepFrom position ps f = f := by
  induction ps generalizing position with
  | nil => rfl
  | cons p ps ih =>
    have here := marked position (Nat.le_refl _) (by simp)
    rw [sweepFrom, if_pos here]
    refine ih fun i hlo hhi => marked i (by omega) ?_
    simp only [List.length_cons]
    omega

lemma settled_finish (f : Flight) (batch : List Proposal) :
    (f.finish batch).settled = (sweepFrom 0 batch f).settled := by
  unfold finish close drop release
  split <;> simp [write]

/-- After the sweep every position of the batch is recorded exactly once. -/
lemma Accounted.finish_perm (h : f.Accounted batch) :
    (f.finish batch).positions.Perm (List.range batch.length) := by
  have missing : ((batch.zipIdx.filter fun e => !f.isMarked e.2).map Prod.snd) =
      (List.range batch.length).filter fun i => !f.isMarked i := by
    rw [List.range_eq_range', ← List.zipIdx_map_snd 0 batch, List.filter_map]
    rfl
  have positions_eq : (f.finish batch).positions = f.positions ++
      (List.range batch.length).filter fun i => !f.isMarked i := by
    rw [positions, settled_finish, settled_sweepFrom, List.map_append, List.map_map, ← missing]
    rfl
  rw [positions_eq]
  refine (List.perm_ext_iff_of_nodup ?_ List.nodup_range).mpr ?_
  · refine List.Nodup.append h.once (List.nodup_range.filter _) ?_
    intro i hi hmiss
    have hm := (h.marked i).mpr hi
    simp [hm] at hmiss
  · intro i
    simp only [List.mem_append, List.mem_filter, List.mem_range, Bool.not_eq_true']
    constructor
    · rintro (hi | ⟨hi, -⟩)
      · exact h.lt_length hi
      · exact hi
    · intro hi
      cases hm : f.isMarked i with
      | true => exact Or.inl ((h.marked i).mp hm)
      | false => exact Or.inr ⟨hi, rfl⟩

lemma Accounted.finish_faithful (h : f.Accounted batch) {s : Settled}
    (hs : s ∈ (f.finish batch).settled) : batch[s.position]? = some s.outcome.proposal := by
  rw [settled_finish, settled_sweepFrom, List.mem_append] at hs
  rcases hs with hs | hs
  · exact h.faithful s hs
  · obtain ⟨⟨p, i⟩, he, rfl⟩ := List.mem_map.mp hs
    exact List.mem_zipIdx_iff_getElem?.mp (List.mem_of_mem_filter he)

section

variable (t : Transport) (timeout : Duration) (count : Nat) (batch : List Proposal)

lemma begun_handedOver : (opened t timeout count batch.length).HandedOver
    (begun t timeout count batch) (submissionsFrom t count 0 batch) :=
  submitFrom_handedOver t count 0 batch _ rfl rfl rfl

lemma begun_accounted : (begun t timeout count batch).Accounted batch := by
  have start : (opened t timeout count batch.length).Accounted ([] ++ batch) :=
    accounted_opened t timeout count
  exact start.submitFrom (by simp [opened, positions])

lemma settled_begun : (begun t timeout count batch).settled =
    ((submissionsFrom t count 0 batch).filter (·.isRefused)).map (·.settled t timeout) :=
  (begun_handedOver t timeout count batch).settled

lemma taken_begun : (begun t timeout count batch).taken =
    ((submissionsFrom t count 0 batch).filter (!·.isRefused)).map (·.waiter .zero) :=
  (begun_handedOver t timeout count batch).taken

/-- Every position of a batch is either refused or waited for. -/
lemma positions_begun_perm :
    ((begun t timeout count batch).settled ++
      (begun t timeout count batch).taken.map (·.settled t timeout)).map Settled.position |>.Perm
        (List.range batch.length) := by
  rw [settled_begun, taken_begun, ← map_position_submissionsFrom t count batch]
  have parts := (List.filter_append_perm (·.isRefused) (submissionsFrom t count 0 batch)).map
    Submission.position
  simp only [List.map_append, List.map_map] at parts ⊢
  exact parts

/-- Whichever waiters report, and in whatever order, the marks stay in step. -/
lemma accounted_of_reports {reports : List Report}
    (heard : (reports.filterMap Report.settled).Subperm
      ((begun t timeout count batch).taken.map (·.settled t timeout))) :
    (reports.foldl hear (begun t timeout count batch)).Accounted batch := by
  refine (begun_accounted t timeout count batch).foldl_hear ?_ ?_
  · obtain ⟨among, same, sub⟩ := heard
    refine (((same.append_left _).map Settled.position).nodup_iff).mp ?_
    refine ((sub.append_left _).map Settled.position).nodup ?_
    exact (positions_begun_perm t timeout count batch).nodup_iff.mpr List.nodup_range
  · intro s hs
    obtain ⟨w, hw, rfl⟩ := List.mem_map.mp (heard.subset hs)
    rw [taken_begun] at hw
    obtain ⟨sub, hsub, rfl⟩ := List.mem_map.mp hw
    exact ((mem_submissionsFrom t count batch).mp (List.mem_of_mem_filter hsub)).1

/-- When all waiters report, in whatever order, no position is left for the sweep. -/
lemma sweepFrom_of_all_reports {reports : List Report}
    (heard : (reports.filterMap Report.settled).Perm
      ((begun t timeout count batch).taken.map (·.settled t timeout))) :
    sweepFrom 0 batch (reports.foldl hear (begun t timeout count batch)) =
      reports.foldl hear (begun t timeout count batch) := by
  have accounted := accounted_of_reports t timeout count batch heard.subperm
  have all : (reports.foldl hear (begun t timeout count batch)).positions.Perm
      (List.range batch.length) := by
    rw [positions, settled_foldl_hear]
    exact ((heard.append_left _).map _).trans (positions_begun_perm t timeout count batch)
  refine sweepFrom_eq_self fun i _ hi => (accounted.marked i).mpr (all.mem_iff.mpr ?_)
  rw [List.mem_range]
  omega

end

end Flight

end LakeCatalog.Emission

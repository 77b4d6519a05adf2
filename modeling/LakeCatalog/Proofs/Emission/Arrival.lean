import LakeCatalog.Emission.Batch
import Mathlib.Data.List.Perm.Basic
import Mathlib.Tactic.Common

/-!
# The order in which waiters report

Taking the first waiter over and over lists the waiters by the instants at which their outcomes are
known. Positions enter only as the order of the list: a waiter is overtaken by a later one only if
that one is known strictly earlier, so equal instants keep the order of the submissions.
-/

namespace LakeCatalog.Emission

variable {timeout : Duration} {first w : Waiter} {ws others : List Waiter}

/-- The outcome of a waiter is known before that of another; of two that are known at the same
instant the earlier submission comes first. -/
def Waiter.Before (timeout : Duration) (a b : Waiter) : Prop :=
  a.due timeout < b.due timeout ∨ a.due timeout = b.due timeout ∧ a.position < b.position

lemma takeFirst_eq_none (h : takeFirst timeout ws = none) : ws = [] := by
  cases ws with
  | nil => rfl
  | cons w ws =>
    rw [takeFirst] at h
    cases hr : takeFirst timeout ws with
    | none => simp [hr] at h
    | some taken => simp only [hr] at h; split at h <;> cases h

/-- The first waiter is taken out of its place: those before it are due later, and those after it
not earlier. -/
lemma takeFirst_split (h : takeFirst timeout ws = some (first, others)) :
    ∃ before after, ws = before ++ first :: after ∧ others = before ++ after ∧
      (∀ w ∈ before, first.due timeout < w.due timeout) ∧
      ∀ w ∈ after, first.due timeout ≤ w.due timeout := by
  induction ws generalizing first others with
  | nil => cases h
  | cons w ws ih =>
    rw [takeFirst] at h
    cases hr : takeFirst timeout ws with
    | none =>
      simp only [hr, Option.some.injEq, Prod.mk.injEq] at h
      obtain ⟨rfl, rfl⟩ := h
      exact ⟨[], [], by rw [takeFirst_eq_none hr]; rfl, rfl, by simp, by simp⟩
    | some taken =>
      obtain ⟨f, os⟩ := taken
      obtain ⟨before, after, hws, hos, hb, ha⟩ := ih hr
      simp only [hr] at h
      by_cases hlt : f.due timeout < w.due timeout
      · simp only [if_pos hlt, Option.some.injEq, Prod.mk.injEq] at h
        obtain ⟨rfl, rfl⟩ := h
        refine ⟨w :: before, after, by rw [hws]; rfl, by rw [hos]; rfl, ?_, ha⟩
        intro v hv
        rcases List.mem_cons.mp hv with rfl | hv
        · exact hlt
        · exact hb v hv
      · simp only [if_neg hlt, Option.some.injEq, Prod.mk.injEq] at h
        obtain ⟨rfl, rfl⟩ := h
        have hle : w.due timeout ≤ f.due timeout := Nat.le_of_not_lt hlt
        refine ⟨[], ws, rfl, rfl, by simp, ?_⟩
        intro v hv
        rw [hws, List.mem_append, List.mem_cons] at hv
        rcases hv with hv | rfl | hv
        · exact Nat.le_of_lt (Nat.lt_of_le_of_lt hle (hb v hv))
        · exact hle
        · exact Nat.le_trans hle (ha v hv)

lemma takeFirst_perm (h : takeFirst timeout ws = some (first, others)) :
    (first :: others).Perm ws := by
  obtain ⟨before, after, rfl, rfl, -, -⟩ := takeFirst_split h
  exact List.perm_middle.symm

lemma takeFirst_before (h : takeFirst timeout ws = some (first, others))
    (inPlace : ws.Pairwise fun a b => a.position < b.position) (hw : w ∈ others) :
    first.Before timeout w := by
  obtain ⟨before, after, rfl, rfl, hb, ha⟩ := takeFirst_split h
  rcases List.mem_append.mp hw with hw | hw
  · exact Or.inl (hb w hw)
  · have hpos : first.position < w.position :=
      (List.pairwise_cons.mp (List.pairwise_append.mp inPlace).2.1).1 w hw
    rcases Nat.lt_or_eq_of_le (ha w hw) with hlt | heq
    · exact Or.inl hlt
    · exact Or.inr ⟨Duration.ext heq, hpos⟩

lemma takeFirst_sublist (h : takeFirst timeout ws = some (first, others)) :
    others.Sublist ws := by
  obtain ⟨before, after, rfl, rfl, -, -⟩ := takeFirst_split h
  exact List.Sublist.append_left (List.sublist_cons_self first after) before

lemma inOrder_perm (fuel : Nat) (enough : ws.length ≤ fuel) :
    (inOrder timeout fuel ws).Perm ws := by
  induction fuel generalizing ws with
  | zero => rw [List.length_eq_zero_iff.mp (Nat.le_zero.mp enough)]; exact .nil
  | succ fuel ih =>
    rw [inOrder]
    cases h : takeFirst timeout ws with
    | none => rw [takeFirst_eq_none h]
    | some taken =>
      obtain ⟨first, others⟩ := taken
      have hp := takeFirst_perm h
      have hlen : others.length ≤ fuel := by
        have := hp.length_eq
        simp only [List.length_cons] at this
        omega
      exact ((ih hlen).cons first).trans hp

lemma inOrder_pairwise (fuel : Nat) (enough : ws.length ≤ fuel)
    (inPlace : ws.Pairwise fun a b => a.position < b.position) :
    (inOrder timeout fuel ws).Pairwise (Waiter.Before timeout) := by
  induction fuel generalizing ws with
  | zero => exact .nil
  | succ fuel ih =>
    rw [inOrder]
    cases h : takeFirst timeout ws with
    | none => exact .nil
    | some taken =>
      obtain ⟨first, others⟩ := taken
      have hlen : others.length ≤ fuel := by
        have := (takeFirst_perm h).length_eq
        simp only [List.length_cons] at this
        omega
      refine List.pairwise_cons.mpr ⟨?_, ih hlen (inPlace.sublist (takeFirst_sublist h))⟩
      intro w hw
      exact takeFirst_before h inPlace ((inOrder_perm fuel hlen).mem_iff.mp hw)

/-- Every waiter reports exactly once. -/
theorem Flight.arrivals_perm (f : Flight) : f.arrivals.Perm f.taken :=
  inOrder_perm f.taken.length (Nat.le_refl _)

/-- The reports come in the order of their instants, and those of one instant in the order of the
submissions. -/
theorem Flight.arrivals_pairwise (f : Flight)
    (inPlace : f.taken.Pairwise fun a b => a.position < b.position) :
    f.arrivals.Pairwise (Waiter.Before f.timeout) :=
  inOrder_pairwise f.taken.length (Nat.le_refl _) inPlace

lemma Waiter.Before.due_le {a b : Waiter} (h : a.Before timeout b) :
    a.due timeout ≤ b.due timeout := by
  rcases h with h | ⟨h, -⟩
  · exact Nat.le_of_lt h
  · exact h ▸ Nat.le_refl _

end LakeCatalog.Emission

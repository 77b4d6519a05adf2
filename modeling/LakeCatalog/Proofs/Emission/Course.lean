import LakeCatalog.Proofs.Emission.Accounting

/-!
# The course of an emission

An emission whose channel opens runs through four stages: it hands over its batch, it hears from the
waiters, it finds nothing to sweep, and it closes its channel. Each stage only adds to the recorded
outcomes and to the events, so both can be written down for the whole emission, whether it comes to
its end or is dropped while it waits.
-/

namespace LakeCatalog.Emission

open Catalog

/-- The latest of instants that are not before a first one. -/
def latest (first : Duration) (instants : List Duration) : Duration := instants.foldl max first

lemma le_latest (first : Duration) (instants : List Duration) : first ≤ latest first instants := by
  induction instants generalizing first with
  | nil => exact Nat.le_refl _
  | cons d ds ih => exact Nat.le_trans (Nat.le_max_left _ _) (ih (max first d))

lemma le_latest_of_mem {first d : Duration} {instants : List Duration} (h : d ∈ instants) :
    d ≤ latest first instants := by
  induction instants generalizing first with
  | nil => cases h
  | cons e ds ih =>
    rcases List.mem_cons.mp h with rfl | h
    · exact Nat.le_trans (Nat.le_max_right _ _) (le_latest (max first d) ds)
    · exact ih h

lemma latest_eq_or_mem (first : Duration) (instants : List Duration) :
    latest first instants = first ∨ latest first instants ∈ instants := by
  induction instants generalizing first with
  | nil => exact Or.inl rfl
  | cons d ds ih =>
    rcases ih (max first d) with h | h
    · have hm : max first d = first ∨ max first d = d := by
        rcases Nat.le_total d.nanoseconds first.nanoseconds with hle | hle
        · exact Or.inl (Duration.ext (Nat.max_eq_left hle))
        · exact Or.inr (Duration.ext (Nat.max_eq_right hle))
      rcases hm with hm | hm
      · exact Or.inl (h.trans hm)
      · exact Or.inr (List.mem_cons.mpr (Or.inl (h.trans hm)))
    · exact Or.inr (List.mem_cons_of_mem d h)

def Waiter.event (timeout : Duration) (w : Waiter) : TimedEvent :=
  ⟨w.due timeout, .settled w.position⟩

namespace Flight

/-- What hearing from waiters changes of an emission, its marks apart. -/
structure Awaited (f g : Flight) (ws : List Waiter) : Prop where
  transport : g.transport = f.transport
  timeout : g.timeout = f.timeout
  held : g.held = f.held
  taken : g.taken = f.taken
  now : g.now = latest f.now (ws.map (·.due f.timeout))
  settled : g.settled = f.settled ++ ws.map (·.settled f.transport f.timeout)
  events : g.events = f.events ++ ws.map (·.event f.timeout)

/-- Waiters that report in the order of their instants are heard at just these instants. -/
lemma awaited_foldl (t : Transport) (timeout : Duration) (f : Flight) (ws : List Waiter)
    (transport : f.transport = t) (bound : f.timeout = timeout)
    (ordered : ws.Pairwise fun a b => a.due timeout ≤ b.due timeout)
    (later : ∀ w ∈ ws, f.now ≤ w.due timeout) :
    f.Awaited ((ws.map (·.report t timeout)).foldl hear f) ws := by
  induction ws generalizing f with
  | nil => constructor <;> simp [latest]
  | cons w ws ih =>
    have hmax : max f.now (w.due timeout) = w.due timeout :=
      Duration.ext (Nat.max_eq_right (later w List.mem_cons_self))
    have rest := ih (f.hear (w.report t timeout)) transport bound
      (List.pairwise_cons.mp ordered).2 <| by
      intro v hv
      change max f.now (w.due timeout) ≤ v.due timeout
      rw [hmax]
      exact (List.pairwise_cons.mp ordered).1 v hv
    subst bound transport
    constructor
    · exact rest.transport
    · exact rest.timeout
    · exact rest.held
    · exact rest.taken
    · exact rest.now
    · rw [List.map_cons, List.foldl_cons, rest.settled]
      simp [hear, record, write, Waiter.report]
    · rw [List.map_cons, List.foldl_cons, rest.events]
      simp [hear, record, write, Waiter.report, Waiter.event, hmax]

lemma awaited (f : Flight) (ws : List Waiter)
    (ordered : ws.Pairwise fun a b => a.due f.timeout ≤ b.due f.timeout)
    (later : ∀ w ∈ ws, f.now ≤ w.due f.timeout) : f.Awaited (f.await ws) ws :=
  awaited_foldl f.transport f.timeout f ws rfl rfl ordered later

/-- Closing a channel that is held closes it once, although the emission is given up afterwards. -/
lemma close_of_held {f : Flight} (held : f.held = true) :
    f.close = { f.write (.closed f.transport.closing) with held := false } := by
  simp [close, drop, release, held]

/-- Dropping an emission that holds its channel closes it. -/
lemma dropAt_of_held {f : Flight} (held : f.held = true) (time : Duration) :
    f.dropAt time =
      { f with now := time, held := false,
               events := f.events ++ [⟨time, .closed f.transport.closing⟩] } := by
  simp [dropAt, drop, release, held, write]

section

variable (t : Transport) (timeout : Duration) (count : Nat) (batch : List Proposal)

@[simp] lemma timeout_begun : (begun t timeout count batch).timeout = timeout :=
  (begun_handedOver t timeout count batch).timeout

@[simp] lemma transport_begun : (begun t timeout count batch).transport = t :=
  (begun_handedOver t timeout count batch).transport

@[simp] lemma held_begun : (begun t timeout count batch).held = true :=
  (begun_handedOver t timeout count batch).held

@[simp] lemma now_begun : (begun t timeout count batch).now = .zero :=
  (begun_handedOver t timeout count batch).now

lemma events_begun : (begun t timeout count batch).events =
    ⟨.zero, .opened⟩ :: (submissionsFrom t count 0 batch).map fun s => ⟨.zero, s.event⟩ :=
  (begun_handedOver t timeout count batch).events

lemma taken_begun_pairwise :
    (begun t timeout count batch).taken.Pairwise fun a b => a.position < b.position := by
  rw [taken_begun, List.pairwise_map]
  exact (submissionsFrom_pairwise t count 0 batch).filter _

lemma arrivals_begun_pairwise :
    (begun t timeout count batch).arrivals.Pairwise (Waiter.Before timeout) := by
  have h := (begun t timeout count batch).arrivals_pairwise
    (taken_begun_pairwise t timeout count batch)
  rwa [timeout_begun] at h

/-- Hearing from any first part of the waiters that report. -/
lemma awaited_begun {ws : List Waiter} (part : ws.Sublist (begun t timeout count batch).arrivals) :
    (begun t timeout count batch).Awaited ((begun t timeout count batch).await ws) ws := by
  refine awaited _ ws ?_ fun w _ => by rw [now_begun]; exact Nat.zero_le _
  rw [timeout_begun]
  exact ((arrivals_begun_pairwise t timeout count batch).imp fun h => h.due_le).sublist part

lemma filterMap_settled_report (ws : List Waiter) :
    (ws.map (·.report t timeout)).filterMap Report.settled = ws.map (·.settled t timeout) := by
  rw [List.filterMap_map]
  exact congrFun (List.filterMap_eq_map (f := (·.settled t timeout))) ws

/-- When all waiters have reported there is no position left for the sweep. -/
lemma sweepFrom_await_arrivals :
    sweepFrom 0 batch ((begun t timeout count batch).await (begun t timeout count batch).arrivals) =
      (begun t timeout count batch).await (begun t timeout count batch).arrivals := by
  refine sweepFrom_of_all_reports t timeout count batch ?_
  rw [transport_begun, timeout_begun, filterMap_settled_report]
  exact (begun t timeout count batch).arrivals_perm.map _

end

end Flight

section

variable {t : Transport} {opens : Nat} (count : Nat) (timeout : Duration) (batch : List Proposal)

/-- An emission that nobody drops comes to its end. -/
lemma completed_emit (t : Transport) (opens : Nat) :
    (emit t opens count timeout batch).completed = true := by
  unfold emit
  split <;> rfl

/-- The whole course of an emission whose channel cannot be opened. -/
lemma emit_of_failed_opening {error : TransportError} (failed : t.opening opens = some error) :
    emit t opens count timeout batch =
      { settled := batch.zipIdx.map fun (p, i) => ⟨i, p, .failed (unavailable error), .zero⟩
        duration := .zero
        events := [⟨.zero, .openFailed⟩]
        completed := true
        waiting := none } := by
  simp only [emit, failed]

/-- The whole course of an emission whose channel opens and that comes to its end. -/
lemma emit_of_opening (opened : t.opening opens = none) :
    let f := Flight.begun t timeout count batch
    emit t opens count timeout batch =
      { settled := ((submissionsFrom t count 0 batch).filter (·.isRefused)).map
          (·.settled t timeout) ++ f.arrivals.map (·.settled t timeout)
        duration := latest .zero (f.arrivals.map (·.due timeout))
        events := ⟨.zero, .opened⟩ ::
          (submissionsFrom t count 0 batch).map (fun s => ⟨.zero, s.event⟩) ++
          f.arrivals.map (·.event timeout) ++
          [⟨latest .zero (f.arrivals.map (·.due timeout)), .closed t.closing⟩]
        completed := true
        waiting := some f } := by
  intro f
  have heard := Flight.awaited_begun t timeout count batch (.refl f.arrivals)
  have held : (f.await f.arrivals).held = true := heard.held.trans (Flight.held_begun ..)
  simp only [emit, opened, Flight.finish, Flight.sweepFrom_await_arrivals]
  rw [Flight.close_of_held held]
  simp only [Flight.write, heard.settled, heard.now, heard.events, heard.transport,
    Flight.settled_begun, Flight.events_begun, Flight.timeout_begun, Flight.transport_begun,
    Flight.now_begun, List.cons_append, f]

/-- The whole course of an emission that is dropped while it waits. -/
lemma droppedAfter_of_opening (opened : t.opening opens = none) {time : Duration} {left : Batch}
    (dropped : (emit t opens count timeout batch).droppedAfter time = some left) :
    let f := Flight.begun t timeout count batch
    let heard := f.arrivals.takeWhile fun w => w.due timeout < time
    heard ≠ f.arrivals ∧ left =
      { settled := []
        duration := time
        events := ⟨.zero, .opened⟩ ::
          (submissionsFrom t count 0 batch).map (fun s => ⟨.zero, s.event⟩) ++
          heard.map (·.event timeout) ++ [⟨time, .closed t.closing⟩]
        completed := false
        waiting := some f } := by
  intro f heard
  have part : heard.Sublist f.arrivals := List.takeWhile_sublist _
  have awaited := Flight.awaited_begun t timeout count batch part
  have held : (f.await heard).held = true := awaited.held.trans (Flight.held_begun ..)
  rw [emit_of_opening count timeout batch opened] at dropped
  simp only [Batch.droppedAfter, Flight.timeout_begun] at dropped
  by_cases all : heard.length = f.arrivals.length
  · rw [if_pos all] at dropped
    cases dropped
  · rw [if_neg all, Option.some.injEq, Flight.dropAt_of_held held] at dropped
    refine ⟨fun same => all (congrArg List.length same), ?_⟩
    rw [← dropped]
    simp only [awaited.events, awaited.transport, Flight.events_begun, Flight.timeout_begun,
      Flight.transport_begun, List.cons_append, f]

end

end LakeCatalog.Emission

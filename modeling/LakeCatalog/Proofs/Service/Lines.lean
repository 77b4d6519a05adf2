import LakeCatalog.Proofs.Service.Turns

/-!
# Lines of requests

Requests that arrive at the same instant stand in lines, one for each route that admits one request
at a time. What a line does while the others go on beside it follows from how it is served: nothing
of it overlaps, and nobody waits but for those before. Only the requests of four routes emit
anything, so no more than four channels are open at a time.
-/

namespace LakeCatalog.Service

open Catalog Emission Sync

namespace Turn

def isRunning (e : Turn) (time : Duration) : Bool :=
  decide (e.time ≤ time) && decide (time < e.endTime)

lemma endTime_of_attempt {e : Turn} {a : Attempt} (h : e.attempt? = some a) :
    e.endTime = e.time + a.batch.duration := by
  obtain ⟨time, request, line, deed⟩ := e
  cases deed with
  | emits a' =>
    obtain rfl : a' = a := Option.some.inj h
    rfl
  | ends reply => cases h

end Turn

section

variable {table : History} {time : Duration} {calls : List Call} {turns : List Turn}

lemma Served.time_le (h : Served table time calls turns) : ∀ e ∈ turns, time ≤ e.time := by
  induction h with
  | nobody => simp
  | emits b due rest ih =>
    refine List.forall_mem_cons.mpr ⟨Nat.le_refl _, fun e he => ?_⟩
    exact Nat.le_trans (Nat.le_add_right _ _) (ih e he)
  | ends due rest ih => exact List.forall_mem_cons.mpr ⟨Nat.le_refl _, ih⟩

lemma Served.mem_requests (h : Served table time calls turns) :
    ∀ e ∈ turns, e.request ∈ calls.map Call.request := by
  induction h with
  | nobody => simp
  | emits b due rest ih => exact List.forall_mem_cons.mpr ⟨List.mem_cons_self, ih⟩
  | ends due rest ih =>
    exact List.forall_mem_cons.mpr
      ⟨List.mem_cons_self, fun e he => List.mem_cons_of_mem _ (ih e he)⟩

/-- A turn is over when the next one begins. -/
lemma Served.pairwise_endTime (h : Served table time calls turns) :
    turns.Pairwise fun e e' => e.endTime ≤ e'.time := by
  induction h with
  | nobody => exact .nil
  | emits b due rest ih => exact .cons rest.time_le ih
  | ends due rest ih => exact .cons rest.time_le ih

/-- The requests have their turns in the order in which they stand in line. -/
lemma Served.pairwise_request (h : Served table time calls turns)
    (ordered : (calls.map Call.request).Pairwise (· < ·)) :
    turns.Pairwise fun e e' => e.request ≤ e'.request := by
  induction h with
  | nobody => exact .nil
  | emits b due rest ih =>
    refine .cons (fun e he => ?_) (ih ordered)
    rcases List.mem_cons.mp (rest.mem_requests e he) with same | later
    · exact same.symm.le
    · exact Nat.le_of_lt (List.rel_of_pairwise_cons ordered later)
  | ends due rest ih =>
    refine .cons (fun e he => ?_) (ih ordered.of_cons)
    exact Nat.le_of_lt (List.rel_of_pairwise_cons ordered (rest.mem_requests e he))

/-- Whatever an earlier request of a line does is over when a later one begins. -/
lemma Served.endTime_le (h : Served table time calls turns)
    (ordered : (calls.map Call.request).Pairwise (· < ·)) :
    ∀ e ∈ turns, ∀ e' ∈ turns, e.request < e'.request → e.endTime ≤ e'.time := by
  intro e he e' he' earlier
  obtain ⟨i, hi, rfl⟩ := List.getElem_of_mem he
  obtain ⟨j, hj, rfl⟩ := List.getElem_of_mem he'
  rcases Nat.lt_trichotomy i j with before | rfl | after
  · exact List.pairwise_iff_getElem.mp h.pairwise_endTime i j hi hj before
  · exact absurd earlier (Nat.lt_irrefl _)
  · have inOrder := List.pairwise_iff_getElem.mp (h.pairwise_request ordered) j i hj hi after
    exact absurd inOrder (Nat.not_le_of_lt earlier)

/-- Only what a request has still to emit is emitted. -/
lemma Served.size_pos (h : Served table time calls turns) :
    ∀ e ∈ turns, e.attempt?.isSome = true →
      ∃ call ∈ calls, call.request = e.request ∧ 0 < call.size := by
  induction h with
  | nobody => simp
  | @emits _ request _ _ job smaller _ _ _ _ b due rest ih =>
    have first : 0 < (Call.mk request (some job)).size := Nat.zero_lt_of_lt smaller
    refine List.forall_mem_cons.mpr ⟨fun _ => ⟨_, List.mem_cons_self, rfl, first⟩, ?_⟩
    intro e he emission
    obtain ⟨call, hcall, same, size⟩ := ih e he emission
    rcases List.mem_cons.mp hcall with rfl | hcall
    · exact ⟨_, List.mem_cons_self, same, first⟩
    · exact ⟨call, List.mem_cons_of_mem _ hcall, same, size⟩
  | ends due rest ih =>
    refine List.forall_mem_cons.mpr ⟨by simp [Turn.attempt?], fun e he emission => ?_⟩
    obtain ⟨call, hcall, same⟩ := ih e he emission
    exact ⟨call, List.mem_cons_of_mem _ hcall, same⟩

/-- An emission begins with its turn. -/
lemma Served.start_eq (h : Served table time calls turns) :
    ∀ e ∈ turns, ∀ a, e.attempt? = some a → a.start = e.time := by
  induction h with
  | nobody => simp
  | emits b due rest ih =>
    refine List.forall_mem_cons.mpr ⟨?_, ih⟩
    rintro a ⟨⟩
    rfl
  | ends due rest ih => exact List.forall_mem_cons.mpr ⟨by simp [Turn.attempt?], ih⟩

lemma Served.ne_nil {call : Call} (h : Served table time (call :: calls) turns) : turns ≠ [] := by
  cases h <;> exact List.cons_ne_nil _ _

/-- Every turn is over when some request of the line ends. -/
lemma Served.exists_ended (h : Served table time calls turns) :
    ∀ e ∈ turns, ∃ e' ∈ turns, e'.ended?.isSome = true ∧ e.endTime ≤ e'.time := by
  induction h with
  | nobody => simp
  | emits b due rest ih =>
    refine List.forall_mem_cons.mpr ⟨?_, fun e he => ?_⟩
    · obtain ⟨e, he⟩ := List.exists_mem_of_ne_nil _ rest.ne_nil
      obtain ⟨e', he', ended, -⟩ := ih e he
      exact ⟨e', List.mem_cons_of_mem _ he', ended, rest.time_le e' he'⟩
    · obtain ⟨e', he', ended⟩ := ih e he
      exact ⟨e', List.mem_cons_of_mem _ he', ended⟩
  | ends due rest ih =>
    refine List.forall_mem_cons.mpr ⟨⟨_, List.mem_cons_self, rfl, Nat.le_refl _⟩, fun e he => ?_⟩
    obtain ⟨e', he', ended⟩ := ih e he
    exact ⟨e', List.mem_cons_of_mem _ he', ended⟩

end

lemma isRunning_attempt {e : Turn} (start : ∀ a, e.attempt? = some a → a.start = e.time)
    (instant : Duration) :
    (e.attempt?.map (·.isRunning instant)).getD false = e.isRunning instant := by
  obtain ⟨time, request, line, deed⟩ := e
  cases deed with
  | emits a =>
    obtain rfl : a.start = time := start a rfl
    rfl
  | ends reply =>
    simp only [Turn.attempt?, Turn.isRunning, Turn.endTime, Option.map_none, Option.getD_none,
      Duration.le_iff, Duration.lt_iff]
    by_cases late : time.nanoseconds ≤ instant.nanoseconds <;> simp [late]

lemma mem_line {turns : List Turn} {e : Turn} (he : e ∈ turns) :
    e ∈ turns.filter (·.line = e.line) :=
  List.mem_filter.mpr ⟨he, decide_eq_true rfl⟩

/-- Of turns that do not overlap one at most is under way. -/
lemma running_le_one {turns : List Turn} (apart : turns.Pairwise fun e e' => e.endTime ≤ e'.time)
    (instant : Duration) : turns.countP (·.isRunning instant) ≤ 1 := by
  induction apart with
  | nil => exact Nat.zero_le _
  | @cons e turns later apart ih =>
    by_cases running : e.isRunning instant = true
    · have none_later : turns.countP (·.isRunning instant) = 0 := by
        refine List.countP_eq_zero.mpr fun e' he' => ?_
        have after := later e' he'
        simp only [Turn.isRunning, Bool.and_eq_true, decide_eq_true_eq, not_and, Duration.le_iff,
          Duration.lt_iff] at running after ⊢
        omega
      simp only [List.countP_cons, none_later, running, if_true, Nat.zero_add, Nat.le_refl]
    · simpa only [List.countP_cons, if_neg running, Nat.add_zero] using ih

/-- Among turns of some lines, of each of which one at most is under way, no more of them are under
way than there are lines. -/
lemma running_le_length {turns : List Turn} {instant : Duration} (lines : List Line)
    (one : ∀ line, (turns.filter (·.line = line)).countP (·.isRunning instant) ≤ 1)
    (among : ∀ e ∈ turns, e.isRunning instant = true → e.line ∈ lines) :
    turns.countP (·.isRunning instant) ≤ lines.length := by
  induction lines generalizing turns with
  | nil =>
    refine Nat.le_of_eq (List.countP_eq_zero.mpr fun e he running => ?_)
    cases among e he running
  | cons line lines ih =>
    rw [List.countP_eq_countP_filter_add _ _ (fun e => decide (e.line = line)), List.length_cons]
    have here := one line
    have others : (turns.filter fun e => !decide (e.line = line)).countP (·.isRunning instant) ≤
        lines.length := by
      refine ih (fun line' => ?_) (fun e he running => ?_)
      · exact Nat.le_trans (List.filter_sublist.filter _).countP_le (one line')
      · obtain ⟨he, other⟩ := List.mem_filter.mp he
        exact (List.mem_cons.mp (among e he running)).resolve_left (by simpa using other)
    omega

/-- The calls of the requests that have to wait in a line, in the order of their arrival. -/
def callsIn (line : Line) (arrivals : List (Admitted × Nat)) : List Call :=
  (arrivals.filter fun (a, i) => Line.of a.lane i = line).map fun (a, i) => ⟨i, some a.job⟩

/-- The agenda of requests that have arrived at an instant, before the first of them goes on. -/
structure Agenda.Gathered (time : Duration) (arrivals : List (Admitted × Nat)) (s : Agenda) :
    Prop where
  inLine : s.InLine
  calls : ∀ line, s.calls line = callsIn line arrivals
  due : ∀ p ∈ s.pending, p.time = time
  going : ∀ p ∈ s.pending, p.job.isSome = true
  requests : s.requests.Perm (arrivals.map Prod.snd)
  answered : s.answered = []
  load : s.load = stepBound (arrivals.map Prod.fst)

lemma stepBound_append (admitted more : List Admitted) :
    stepBound (admitted ++ more) = stepBound admitted + stepBound more := by
  induction admitted with
  | nil => exact (Nat.zero_add _).symm
  | cons a admitted ih =>
    simp only [List.cons_append, stepBound, ih]
    omega

lemma callsIn_append_self {line : Line} {arrivals : List (Admitted × Nat)} {a : Admitted} {i : Nat}
    (same : Line.of a.lane i = line) :
    callsIn line (arrivals ++ [(a, i)]) = callsIn line arrivals ++ [⟨i, some a.job⟩] := by
  simp [callsIn, List.filter_append, same]

lemma callsIn_append_of_ne {line : Line} {arrivals : List (Admitted × Nat)} {a : Admitted} {i : Nat}
    (other : Line.of a.lane i ≠ line) :
    callsIn line (arrivals ++ [(a, i)]) = callsIn line arrivals := by
  simp [callsIn, List.filter_append, other]

lemma callsIn_ordered (line : Line) (admitted : List Admitted) :
    ((callsIn line admitted.zipIdx).map Call.request).Pairwise (· < ·) := by
  have numbers : (admitted.zipIdx.map Prod.snd).Pairwise (· < ·) := by
    rw [List.zipIdx_map_snd]
    exact List.pairwise_lt_range'
  rw [callsIn, List.map_map]
  exact numbers.sublist (List.filter_sublist.map _)

namespace Agenda.Gathered

variable {time : Duration} {arrivals : List (Admitted × Nat)} {s : Agenda} {a : Admitted} {i : Nat}

lemma nobody (time : Duration) (log : Log) (now : Duration) :
    Gathered time [] ⟨log, [], [], [], now⟩ where
  inLine := ⟨List.nodup_nil, by simp⟩
  calls _ := rfl
  due := by simp
  going := by simp
  requests := .nil
  answered := rfl
  load := rfl

/-- A request that finds its line free is served. -/
lemma start (h : Gathered time arrivals s) (free : ∀ p ∈ s.pending, p.line ≠ Line.of a.lane i) :
    Gathered time (arrivals ++ [(a, i)])
      { s with pending := s.pending ++ [⟨time, i, a.lane, some a.job⟩] } where
  inLine := by
    constructor
    · rw [List.map_append, List.map_singleton]
      refine h.inLine.alone.append (List.nodup_singleton _) ?_
      intro line hline same
      obtain ⟨p, hp, rfl⟩ := List.mem_map.mp hline
      exact free p hp (List.mem_singleton.mp same)
    · intro q hq
      obtain ⟨p, hp, same⟩ := h.inLine.held q hq
      exact ⟨p, List.mem_append_left _ hp, same⟩
  calls line := by
    by_cases same : Line.of a.lane i = line
    · subst same
      have idle : s.queued.filter (·.line = Line.of a.lane i) = [] := by
        refine List.filter_eq_nil_iff.mpr fun q hq => ?_
        obtain ⟨p, hp, held⟩ := h.inLine.held q hq
        simpa [← held] using free p hp
      have before := h.calls (Line.of a.lane i)
      rw [calls_of_others _ free, idle] at before
      rw [callsIn_append_self rfl, ← before, calls_of_last _ _ rfl free rfl, idle]
      rfl
    · rw [callsIn_append_of_ne same, ← h.calls line]
      have other : (Pending.mk time i a.lane (some a.job)).line ≠ line := same
      simp [Agenda.calls, List.filter_append, other]
  due := by
    intro p hp
    rcases List.mem_append.mp hp with hp | hp
    · exact h.due p hp
    · rw [List.mem_singleton.mp hp]
  going := by
    intro p hp
    rcases List.mem_append.mp hp with hp | hp
    · exact h.going p hp
    · rw [List.mem_singleton.mp hp]
      rfl
  requests := by
    have moved : (Agenda.requests
        { s with pending := s.pending ++ [⟨time, i, a.lane, some a.job⟩] }).Perm
        (s.requests ++ [i]) := by
      simp only [Agenda.requests, List.map_append, List.map_singleton, List.append_assoc]
      exact .append_left _ List.perm_append_comm
    rw [List.map_append]
    exact moved.trans (h.requests.append_right _)
  answered := h.answered
  load := by
    have before := h.load
    simp only [Agenda.load, List.map_append, turnBound_append, stepBound_append, stepBound,
      List.map_singleton, turnBound, Pending.call, Call.size, Option.map_some,
      Option.getD_some] at before ⊢
    omega

/-- A request that finds somebody of its line served waits. -/
lemma wait (h : Gathered time arrivals s) {lane : Route} (laned : a.lane = some lane)
    (held : ∃ p ∈ s.pending, p.line = .route lane) :
    Gathered time (arrivals ++ [(a, i)])
      { s with queued := s.queued ++ [⟨i, lane, a.job⟩] } where
  inLine := by
    refine ⟨h.inLine.alone, fun q hq => ?_⟩
    rcases List.mem_append.mp hq with hq | hq
    · exact h.inLine.held q hq
    · rw [List.mem_singleton.mp hq]
      exact held
  calls line := by
    have here : Line.of a.lane i = (Queued.mk i lane a.job).line := by
      rw [laned]
      rfl
    by_cases same : Line.of a.lane i = line
    · rw [callsIn_append_self same, ← h.calls line]
      rw [here] at same
      simp [Agenda.calls, List.filter_append, same, Queued.call]
    · rw [callsIn_append_of_ne same, ← h.calls line]
      rw [here] at same
      simp [Agenda.calls, List.filter_append, same]
  due := h.due
  going := h.going
  requests := by
    simp only [Agenda.requests, List.map_append, List.map_singleton, ← List.append_assoc]
    exact h.requests.append_right _
  answered := h.answered
  load := by
    have before := h.load
    simp only [Agenda.load, List.map_append, turnBound_append, stepBound_append, stepBound,
      List.map_singleton, turnBound, Queued.call, Call.size, Option.map_some,
      Option.getD_some] at before ⊢
    omega

/-- A request that arrives is served or waits. -/
lemma arrive (h : Gathered time arrivals s) (another : ∀ x ∈ arrivals, x.2 ≠ i) :
    Gathered time (arrivals ++ [(a, i)]) (s.arrive time i a) := by
  have fresh : ∀ p ∈ s.pending, p.request ≠ i := by
    intro p hp same
    have known : p.request ∈ s.requests := List.mem_append_left _ (List.mem_map_of_mem hp)
    obtain ⟨x, hx, there⟩ := List.mem_map.mp (h.requests.mem_iff.mp known)
    exact another x hx (there.trans same)
  unfold Agenda.arrive
  split
  · rename_i laned
    refine laned ▸ h.start fun p hp same => fresh p hp ?_
    cases lane : p.lane <;> simp [Pending.line, Line.of, laned, lane] at same
    exact same
  · rename_i lane laned
    split
    · rename_i somebody
      obtain ⟨p, hp, same⟩ := List.any_eq_true.mp somebody
      refine h.wait laned ⟨p, hp, ?_⟩
      simp [Pending.line, Line.of, eq_of_beq same]
    · rename_i nobody
      refine laned ▸ h.start fun p hp same => nobody (List.any_eq_true.mpr ⟨p, hp, ?_⟩)
      cases lane : p.lane <;> simp [Pending.line, Line.of, laned, lane] at same
      exact beq_iff_eq.mpr (congrArg some same)

lemma foldl_arrive {done : List (Admitted × Nat)} (h : Gathered time done s)
    (rest : List (Admitted × Nat)) (distinct : ((done ++ rest).map Prod.snd).Nodup) :
    Gathered time (done ++ rest) (rest.foldl (fun agenda (a, i) => agenda.arrive time i a) s) := by
  induction rest generalizing done s with
  | nil => rwa [List.append_nil]
  | cons x rest ih =>
    obtain ⟨a, i⟩ := x
    have another : ∀ x ∈ done, x.2 ≠ i := by
      rw [List.map_append, List.map_cons] at distinct
      intro x hx same
      exact (List.nodup_append.mp distinct).2.2 _ (List.mem_map_of_mem hx) _ List.mem_cons_self same
    rw [List.append_cons] at distinct ⊢
    exact ih (h.arrive another) distinct

end Agenda.Gathered

@[simp] lemma Agenda.log_arrive (s : Agenda) (time : Duration) (request : Nat) (a : Admitted) :
    (s.arrive time request a).log = s.log := by
  simp only [arrive]
  split
  · rfl
  · split <;> rfl

lemma log_foldl_arrive (time : Duration) (arrivals : List (Admitted × Nat)) (s : Agenda) :
    (arrivals.foldl (fun agenda (a, i) => agenda.arrive time i a) s).log = s.log := by
  induction arrivals generalizing s with
  | nil => rfl
  | cons a arrivals ih => rw [List.foldl_cons, ih, Agenda.log_arrive]

namespace Agenda

variable {t : Transport} {timeout : Duration} {table : History} {s next last : Agenda}
  {others : List Pending} {p : Pending} {e : Turn} {turns : List Turn}

lemma Goes.going (goes : Goes t timeout .endless table s others p e next)
    (going : ∀ x ∈ others, x.job.isSome = true) : ∀ x ∈ next.pending, x.job.isSome = true := by
  intro x hx
  cases goes with
  | emits job due b emission =>
    rcases List.mem_append.mp hx with hx | hx
    · exact going x hx
    · have completed : b.completed = true := by
        rw [emission]
        exact completed_emit ..
      rw [List.mem_singleton.mp hx]
      simp [Pending.later, Job.left, completed]
  | leaves due nobody => exact going x hx
  | passes due queued same first =>
    rcases List.mem_append.mp hx with hx | hx
    · exact going x hx
    · rw [List.mem_singleton.mp hx]
      rfl

lemma Goes.answered (goes : Goes t timeout .endless table s others p e next)
    (going : p.job.isSome = true) : e.ended? = e.answer?.map Answered.request := by
  cases goes with
  | emits => rfl
  | leaves due _ | passes due =>
    cases job : p.job with
    | none => simp [job] at going
    | some _ =>
      rw [job] at due
      cases due
      rfl

/-- Where nobody drops a request, every request that ends is answered. -/
lemma Course.all_answered (course : Course t timeout .endless table s turns last)
    (going : ∀ p ∈ s.pending, p.job.isSome = true) :
    turns.filterMap Turn.ended? = (turns.filterMap Turn.answer?).map Answered.request := by
  rw [List.map_filterMap]
  refine List.filterMap_congr fun e he => ?_
  induction course with
  | done nobody => cases he
  | @turn s next last p before after first turns pending earliest goes rest ih =>
    rw [pending] at going
    rcases List.mem_cons.mp he with rfl | he
    · exact goes.answered (going p (by simp))
    · refine ih (goes.going fun x hx => going x ?_) he
      exact ((List.sublist_cons_self p after).append_left before).subset hx

end Agenda

section

variable {answered : List Answered} {n : Nat}

lemma find?_answered (distinct : (answered.map Answered.request).Nodup) {a : Answered}
    (h : a ∈ answered) : answered.find? (·.request == a.request) = some a := by
  cases found : answered.find? (·.request == a.request) with
  | none => exact absurd (beq_self_eq_true _) (List.find?_eq_none.mp found a h)
  | some a' =>
    have same : a'.request = a.request := by simpa using List.find?_some found
    rw [List.inj_on_of_nodup_map distinct (List.mem_of_find?_eq_some found) h same]

/-- Who is answered has ended. -/
lemma answered_sublist (turns : List Turn) :
    ((turns.filterMap Turn.answer?).map Answered.request).Sublist
      (turns.filterMap Turn.ended?) := by
  induction turns with
  | nil => exact .slnil
  | cons e turns ih =>
    obtain ⟨time, request, line, deed⟩ := e
    cases deed with
    | emits a => exact ih
    | ends reply =>
      cases reply with
      | none => exact .cons _ ih
      | some r => exact .cons_cons _ ih

/-- Put in the order of arrival, the answers are still the same. -/
lemma mem_answers_iff (distinct : (answered.map Answered.request).Nodup)
    (among : ∀ a ∈ answered, a.request < n) (a : Answered) :
    a ∈ (List.range n).filterMap (fun i => answered.find? (·.request == i)) ↔ a ∈ answered := by
  rw [List.mem_filterMap]
  constructor
  · rintro ⟨i, -, found⟩
    exact List.mem_of_find?_eq_some found
  · intro h
    exact ⟨a.request, List.mem_range.mpr (among a h), find?_answered distinct h⟩

/-- If every request is answered once, the answers are in the order of arrival. -/
lemma map_request_answers (all : (answered.map Answered.request).Perm (List.range n)) :
    ((List.range n).filterMap fun i => answered.find? (·.request == i)).map Answered.request =
      List.range n := by
  have each : ∀ i ∈ List.range n,
      (answered.find? (·.request == i)).map Answered.request = some i := by
    intro i hi
    obtain ⟨a, ha, rfl⟩ := List.mem_map.mp (all.mem_iff.mpr hi)
    rw [find?_answered (all.nodup_iff.mpr List.nodup_range) ha]
    rfl
  rw [List.map_filterMap, List.filterMap_congr each]
  exact List.filterMap_some

end

def emittingRoutes : List Route := [.syncTable, .syncSchema, .updateProperties, .syncLastCommit]

/-- A request waits for its route if that admits one at a time and answers to its method. -/
lemma lane_admission_eq_some_iff (c : Client) (scope : Scope) (r : Request) (route : Route) :
    (admission c scope r).lane = some route ↔
      Route.ofPath? r.path = some route ∧ route.methods.contains r.method = true ∧
        route.isExclusive = true := by
  unfold admission
  split
  · rename_i nowhere
    simp [nowhere]
  · rename_i found there
    rw [there, Option.some.injEq]
    split
    · rename_i refused
      refine ⟨fun h => (nomatch h), fun ⟨same, answers, _⟩ => ?_⟩
      rw [same, answers] at refused
      cases refused
    · rename_i answers
      by_cases exclusive : found.isExclusive = true
      · simp only [if_pos exclusive, Option.some.injEq]
        refine ⟨fun same => ⟨same, ?_⟩, fun same => same.1⟩
        rw [← same]
        exact ⟨by simpa using answers, exclusive⟩
      · simp only [if_neg exclusive]
        refine ⟨fun h => (nomatch h), fun ⟨same, _, stated⟩ => ?_⟩
        exact absurd (same ▸ stated) exclusive

/-- Only requests that wait for one of four routes have something to emit. -/
lemma lane_of_size_pos (c : Client) (scope : Scope) (r : Request)
    (emits : 0 < (admission c scope r).job.size) :
    ∃ route ∈ emittingRoutes, (admission c scope r).lane = some route := by
  unfold admission at emits ⊢
  split at emits
  · simp [Job.reply] at emits
  · rename_i route there
    split at emits
    · simp [Job.reply] at emits
    · rename_i answers
      have size : 0 < (handle c scope r route).size := by
        dsimp only at emits
        split at emits <;> exact emits
      refine ⟨route, ?_, ?_⟩
      · cases route <;> simp [handle, Job.reply, emittingRoutes] at size ⊢
      · rw [if_neg answers]
        cases route <;> first | rfl | simp [handle, Job.reply] at size

/-- How requests that arrive at the instant of a session are served in turns. -/
structure ServedInTurns (t : Transport) (timeout : Duration) (patience : Patience)
    (table : History) (arrivals : List (Admitted × Nat)) (before : Session) (turns : List Turn)
    (answers : List Answered) (after : Session) : Prop where
  /-- A line is served as if it were alone, from the instant of the arrival on. -/
  served : ∀ line, Served table before.now (callsIn line arrivals) (turns.filter (·.line = line))
  inOrder : turns.Pairwise fun e e' => e.time ≤ e'.time
  /-- Whatever a request does is over when a later one of its line begins. -/
  apart : ∀ e ∈ turns, ∀ e' ∈ turns, e.line = e'.line → e.request < e'.request → e.endTime ≤ e'.time
  /-- Every request ends once. -/
  ended : (turns.filterMap Turn.ended?).Perm (arrivals.map Prod.snd)
  answered : ∀ a, a ∈ answers ↔ ∃ e ∈ turns, e.answer? = some a
  /-- What is emitted in the turns is emitted over one channel after the other. -/
  emitted : before.log.Continues t timeout patience (turns.filterMap Turn.attempt?)
  log : after.log =
    before.log ++ Log.entriesFrom before.log.opens (turns.filterMap Turn.attempt?)
  /-- All is over at last. -/
  inTime : ∀ e ∈ turns, e.endTime ≤ after.now

variable (c : Client) (t : Transport) (patience : Patience) (table : History) (s : Session)
  (requests : List Request)

/-- The requests gather in an agenda, and take their turns from it. -/
lemma exists_course_serveWithin :
    ∃ start turns last,
      start.Gathered s.now (requests.map (admission c (c.scope t))).zipIdx ∧ start.log = s.log ∧
      Agenda.Course t c.settings.emitTimeout patience table start turns last ∧
      serveWithin c t patience table s requests =
        ((List.range requests.length).filterMap fun i => last.answered.find? (·.request == i),
          ⟨last.now, last.log⟩) := by
  let arrivals := (requests.map (admission c (c.scope t))).zipIdx
  let start : Agenda := arrivals.foldl (fun agenda (a, i) => Agenda.arrive s.now agenda i a)
    ⟨s.log, [], [], [], s.now⟩
  have gathered : start.Gathered s.now arrivals := by
    refine Agenda.Gathered.foldl_arrive (.nobody s.now s.log s.now) arrivals ?_
    rw [List.nil_append, List.zipIdx_map_snd]
    exact List.nodup_range'
  have enough : start.load ≤ stepBound (requests.map (admission c (c.scope t))) := by
    rw [gathered.load, List.zipIdx_map_fst]
  obtain ⟨turns, course⟩ := Agenda.exists_course_run t c.settings.emitTimeout patience table _ start
    enough
  exact ⟨start, turns, _, gathered, log_foldl_arrive .., course, rfl⟩

variable {c t patience table s requests} {start last : Agenda} {turns : List Turn}

lemma servedInTurns
    (gathered : start.Gathered s.now (requests.map (admission c (c.scope t))).zipIdx)
    (log : start.log = s.log)
    (course : Agenda.Course t c.settings.emitTimeout patience table start turns last) :
    ServedInTurns t c.settings.emitTimeout patience table
      (requests.map (admission c (c.scope t))).zipIdx s turns
      ((List.range requests.length).filterMap fun i => last.answered.find? (·.request == i))
      ⟨last.now, last.log⟩ := by
  have served : ∀ line, Served table s.now
      (callsIn line (requests.map (admission c (c.scope t))).zipIdx)
      (turns.filter (·.line = line)) := by
    intro line
    rw [← gathered.calls line]
    exact course.served gathered.inLine line fun p hp _ => gathered.due p hp
  have ended := (course.ended_perm gathered.inLine).symm.trans gathered.requests
  have answered : last.answered = turns.filterMap Turn.answer? := by
    rw [course.answered, gathered.answered, List.nil_append]
  constructor
  · exact served
  · exact course.pairwise_time
  · intro e he e' he' same
    exact (served e.line).endTime_le (callsIn_ordered ..) e (mem_line he) e'
      (same ▸ mem_line he')
  · exact ended
  · intro a
    rw [List.zipIdx_map_snd, List.length_map] at ended
    have sub := answered_sublist turns
    rw [answered, mem_answers_iff, List.mem_filterMap]
    · exact (ended.nodup_iff.mpr List.nodup_range').sublist sub
    · intro a ha
      have known := ended.mem_iff.mp (sub.subset (List.mem_map_of_mem ha))
      simpa using List.mem_range'_1.mp known
  · exact log ▸ course.log.2
  · rw [course.log.1, log]
  · intro e he
    obtain ⟨e', he', ended, earlier⟩ := (served e.line).exists_ended e (mem_line he)
    obtain ⟨i, hi⟩ := Option.isSome_iff_exists.mp ended
    exact Nat.le_trans earlier (course.now.2 e' (List.mem_of_mem_filter he') i hi)

namespace ServedInTurns

variable {timeout : Duration} {scope : Scope} {answers : List Answered} {after : Session}

lemma start_eq {arrivals : List (Admitted × Nat)}
    (h : ServedInTurns t timeout patience table arrivals s turns answers after) :
    ∀ e ∈ turns, ∀ a, e.attempt? = some a → a.start = e.time :=
  fun e he => (h.served e.line).start_eq e (mem_line he)

/-- Emissions are under way for four lines at most. -/
lemma running_le (h : ServedInTurns t timeout patience table
      (requests.map (admission c scope)).zipIdx s turns answers after) (instant : Duration) :
    (turns.filterMap Turn.attempt?).countP (·.isRunning instant) ≤ 4 := by
  have running : (turns.filterMap Turn.attempt?).countP (·.isRunning instant) =
      turns.countP (·.isRunning instant) := by
    rw [List.countP_filterMap]
    refine List.countP_congr fun e he => ?_
    rw [isRunning_attempt (h.start_eq e he)]
  rw [running]
  refine running_le_length (emittingRoutes.map Line.route) ?_ ?_
  · exact fun line => running_le_one (h.served line).pairwise_endTime instant
  · intro e he under
    have emits : e.attempt?.isSome = true := by
      rw [← isRunning_attempt (h.start_eq e he)] at under
      cases attempt : e.attempt? with
      | none => simp [attempt] at under
      | some a => rfl
    obtain ⟨call, hcall, -, size⟩ := (h.served e.line).size_pos e (mem_line he) emits
    obtain ⟨⟨a, i⟩, arrived, rfl⟩ := List.mem_map.mp hcall
    obtain ⟨arrived, line⟩ := List.mem_filter.mp arrived
    obtain ⟨r, -, rfl⟩ := List.mem_map.mp (List.fst_mem_of_mem_zipIdx arrived)
    obtain ⟨route, emitting, lane⟩ := lane_of_size_pos c scope r size
    have here : Line.route route = e.line := by
      simpa [lane, Line.of] using line
    exact List.mem_map.mpr ⟨route, emitting, here⟩

/-- Nothing happens on a channel after all requests have ended. -/
lemma time_le {arrivals : List (Admitted × Nat)}
    (h : ServedInTurns t timeout patience table arrivals s turns answers after) (channel : Nat) :
    ∀ entry ∈ Log.entriesFrom channel (turns.filterMap Turn.attempt?), entry.time ≤ after.now := by
  intro entry hentry
  obtain ⟨a, ha, late⟩ := Log.time_le_of_mem_entriesFrom h.emitted.orderly hentry
  obtain ⟨e, he, emission⟩ := List.mem_filterMap.mp ha
  rw [h.start_eq e he a emission, ← Turn.endTime_of_attempt emission] at late
  exact Nat.le_trans late (h.inTime e he)

end ServedInTurns

/-- Requests that arrive at the same instant are served line by line, whatever they ask for,
whatever becomes of it and whoever drops them. A line is that of a route that admits one request at
a time, or a request by itself. In a line one request is served after the other in the order of
their arrival: the first at once, and every other from the instant at which the one before it has
ended, whatever goes on in the other lines. At any instant four channels are open at most, none is
left open when all requests have ended, and where nobody drops them every request is answered. -/
theorem routes_serve_one_request_at_a_time (c : Client) (t : Transport) (patience : Patience)
    (table : History) (s : Session) (requests : List Request) :
    let arrivals := (requests.map (admission c (c.scope t))).zipIdx
    let served := serveWithin c t patience table s requests
    (∀ r ∈ requests, ∀ route, (admission c (c.scope t) r).lane = some route ↔
      Route.ofPath? r.path = some route ∧ route.methods.contains r.method = true ∧
        route.isExclusive = true) ∧
    (∃ turns, ServedInTurns t c.settings.emitTimeout patience table arrivals s turns served.1
      served.2) ∧
    (∃ written, served.2.log = s.log ++ written ∧
      (∀ time, (Log.upTo written time).opens ≤
        (Log.upTo written time).failures + (Log.upTo written time).closes + 4) ∧
      Log.opens written = Log.failures written + Log.closes written ∧
      ∀ entry ∈ written, entry.time ≤ served.2.now) ∧
    (serve c t table s requests).1.map Answered.request = List.range requests.length := by
  intro arrivals served
  obtain ⟨start, turns, last, gathered, log, course, same⟩ :=
    exists_course_serveWithin c t patience table s requests
  have inTurns : ServedInTurns t c.settings.emitTimeout patience table arrivals s turns served.1
      served.2 := by
    have result : served = _ := same
    rw [result]
    exact servedInTurns gathered log course
  refine ⟨fun r _ route => lane_admission_eq_some_iff c _ r route, ⟨turns, inTurns⟩, ?_, ?_⟩
  · refine ⟨_, inTurns.log, fun time => ?_, Log.ends_entriesFrom _ inTurns.emitted.orderly,
      inTurns.time_le _⟩
    have open_channels := Log.running_entriesFrom s.log.opens time inTurns.emitted.orderly
    have four := inTurns.running_le time
    omega
  · obtain ⟨start, turns, last, gathered, -, course, same⟩ :=
      exists_course_serveWithin c t .endless table s requests
    rw [serve, same]
    refine map_request_answers ?_
    rw [course.answered, gathered.answered, List.nil_append, ← course.all_answered gathered.going]
    have ended := (course.ended_perm gathered.inLine).symm.trans gathered.requests
    rw [List.zipIdx_map_snd, List.length_map, ← List.range_eq_range'] at ended
    exact ended

end LakeCatalog.Service

import LakeCatalog.Proofs.Emission.Overlap
import LakeCatalog.Service.Schedule

/-!
# The turns of requests

Requests that are served go on in turns. In a turn a request emits its next batch and goes on when
that is over, or it ends and makes room for the first that waits in its line. The requests of a
route that admits one at a time are a line; any other request is a line by itself. What one turn can
do to an agenda is said once. From it follows, for the course of all turns, that every line is
served as if it were alone: in order, one request after the other and without a pause.
-/

namespace LakeCatalog.Service

open Catalog Emission Sync

/-- Where a request waits: in the line of its route, or by itself. -/
inductive Line where
  | route (route : Route)
  | own (request : Nat)
  deriving DecidableEq

def Line.of (lane : Option Route) (request : Nat) : Line :=
  match lane with
  | some r => .route r
  | none => .own request

inductive Deed where
  /-- It emits a batch and waits for it. -/
  | emits (attempt : Attempt)
  /-- It is answered, or it was dropped. -/
  | ends (reply : Option Reply)

structure Turn where
  time : Duration
  request : Nat
  line : Line
  deed : Deed

namespace Turn

def attempt? (e : Turn) : Option Attempt :=
  match e.deed with
  | .emits a => some a
  | .ends _ => none

def answer? (e : Turn) : Option Answered :=
  match e.deed with
  | .emits _ => none
  | .ends reply => reply.map fun r => ⟨e.time, e.request, r⟩

def ended? (e : Turn) : Option Nat :=
  match e.deed with
  | .emits _ => none
  | .ends _ => some e.request

def endTime (e : Turn) : Duration :=
  match e.deed with
  | .emits a => e.time + a.batch.duration
  | .ends _ => e.time

end Turn

/-- A request with what is left of its job; nothing if it was dropped. -/
structure Call where
  request : Nat
  job : Option Job

def Job.left {m : Nat} (next : List Outcome → Plan Reply m) (b : Batch) : Option Job :=
  if b.completed then some ⟨m, next b.outcomes⟩ else none

inductive Ends (table : Table) : Option Job → Option Reply → Prop where
  | replies {job : Job} {reply : Reply} (due : job.plan.advance table = .finished reply) :
      Ends table (some job) (some reply)
  | dropped : Ends table none none

/-- Requests are served one after the other in these turns, from an instant on: a turn begins when
the one before it is over, and with a request when the one before it has ended. -/
inductive Served (table : History) : Duration → List Call → List Turn → Prop where
  | nobody (time : Duration) : Served table time [] []
  | emits {time : Duration} {request m : Nat} {line : Line} {job : Job} {smaller : m < job.size}
      {batch : List Proposal} {next : List Outcome → Plan Reply m} {calls : List Call}
      {turns : List Turn} (b : Batch)
      (due : job.plan.advance (table time) = .waiting smaller batch next)
      (rest : Served table (time + b.duration) (⟨request, Job.left next b⟩ :: calls) turns) :
      Served table time (⟨request, some job⟩ :: calls)
        (⟨time, request, line, .emits ⟨time, batch, b⟩⟩ :: turns)
  | ends {time : Duration} {request : Nat} {line : Line} {job : Option Job} {reply : Option Reply}
      {calls : List Call} {turns : List Turn} (due : Ends (table time) job reply)
      (rest : Served table time calls turns) :
      Served table time (⟨request, job⟩ :: calls) (⟨time, request, line, .ends reply⟩ :: turns)

def Pending.line (p : Pending) : Line := .of p.lane p.request

def Pending.call (p : Pending) : Call := ⟨p.request, p.job⟩

def Queued.line (q : Queued) : Line := .route q.lane

def Queued.call (q : Queued) : Call := ⟨q.request, some q.job⟩

def Queued.letIn (q : Queued) (time : Duration) : Pending :=
  ⟨time, q.request, some q.lane, some q.job⟩

def Pending.later (p : Pending) (time : Duration) (job : Option Job) : Pending :=
  { p with time, job }

@[simp] lemma Pending.call_later (p : Pending) (time : Duration) (job : Option Job) :
    (p.later time job).call = ⟨p.request, job⟩ := rfl

@[simp] lemma Queued.call_letIn (q : Queued) (time : Duration) : (q.letIn time).call = q.call := rfl

def Call.size (call : Call) : Nat := (call.job.map Job.size).getD 0

lemma Call.size_left_lt {m n : Nat} (request : Nat) (next : List Outcome → Plan Reply m) (b : Batch)
    (smaller : m < n) : (Call.mk request (Job.left next b)).size < n := by
  unfold size Job.left
  split
  · exact smaller
  · exact Nat.zero_lt_of_lt smaller

/-- The turns that calls can take: one for each batch, and one to end. -/
def turnBound : List Call → Nat
  | [] => 0
  | call :: rest => call.size + 1 + turnBound rest

lemma turnBound_append (calls more : List Call) :
    turnBound (calls ++ more) = turnBound calls + turnBound more := by
  induction calls with
  | nil => exact (Nat.zero_add _).symm
  | cons call calls ih =>
    rw [List.cons_append, turnBound, turnBound, ih]
    omega

namespace Agenda

/-- The calls of a line: the one that is served, and those that wait. -/
def calls (s : Agenda) (line : Line) : List Call :=
  (s.pending.filter (·.line = line)).map Pending.call ++
    (s.queued.filter (·.line = line)).map Queued.call

/-- Nobody is served beside another of the same line, and nobody waits without reason. -/
structure InLine (s : Agenda) : Prop where
  alone : (s.pending.map Pending.line).Nodup
  held : ∀ q ∈ s.queued, ∃ p ∈ s.pending, p.line = q.line

def ended (s : Agenda) (others : List Pending) (p : Pending) (reply : Option Reply) : Agenda :=
  { s with
    pending := others
    answered := s.answered ++ (reply.map fun r => ⟨p.time, p.request, r⟩).toList
    now := max s.now p.time }

/-- What a request that goes on can make of an agenda. -/
inductive Goes (t : Transport) (timeout : Duration) (patience : Patience) (table : History)
    (s : Agenda) (others : List Pending) (p : Pending) : Turn → Agenda → Prop where
  /-- It emits a batch. -/
  | emits {job : Job} {m : Nat} {smaller : m < job.size} {batch : List Proposal}
      {next : List Outcome → Plan Reply m} (going : p.job = some job)
      (due : job.plan.advance (table p.time) = .waiting smaller batch next) (b : Batch)
      (emission : b = s.log.attempt t timeout patience batch) :
      Goes t timeout patience table s others p
        ⟨p.time, p.request, p.line, .emits ⟨p.time, batch, b⟩⟩
        { s with
          log := s.log ++ Log.entriesOf p.time s.log.opens b
          pending := others ++ [p.later (p.time + b.duration) (Job.left next b)] }
  /-- It ends, and nobody waits for that. -/
  | leaves {reply : Option Reply} (due : Ends (table p.time) p.job reply)
      (nobody : ∀ q ∈ s.queued, q.line ≠ p.line) :
      Goes t timeout patience table s others p ⟨p.time, p.request, p.line, .ends reply⟩
        (s.ended others p reply)
  /-- It ends, and the first that waits in its line is let in. -/
  | passes {reply : Option Reply} {q : Queued} {before after : List Queued}
      (due : Ends (table p.time) p.job reply) (queued : s.queued = before ++ q :: after)
      (same : q.line = p.line) (first : ∀ x ∈ before, x.line ≠ p.line) :
      Goes t timeout patience table s others p ⟨p.time, p.request, p.line, .ends reply⟩
        { s.ended (others ++ [q.letIn p.time]) p reply with queued := before ++ after }

/-- The turns from an agenda on until nobody is left; the earliest request goes on first. -/
inductive Course (t : Transport) (timeout : Duration) (patience : Patience) (table : History) :
    Agenda → List Turn → Agenda → Prop where
  | done {s : Agenda} (nobody : s.pending = []) : Course t timeout patience table s [] s
  | turn {s next last : Agenda} {p : Pending} {before after : List Pending} {e : Turn}
      {turns : List Turn} (pending : s.pending = before ++ p :: after)
      (earliest : ∀ q ∈ s.pending, p.time ≤ q.time)
      (goes : Goes t timeout patience table s (before ++ after) p e next)
      (rest : Course t timeout patience table next turns last) :
      Course t timeout patience table s (e :: turns) last

def load (s : Agenda) : Nat :=
  turnBound (s.pending.map Pending.call) + turnBound (s.queued.map Queued.call)

end Agenda

lemma takeFirst_eq_none {ps : List Pending} (h : takeFirst ps = none) : ps = [] := by
  cases ps with
  | nil => rfl
  | cons p ps =>
    rw [takeFirst] at h
    split at h
    · cases h
    · split at h <;> cases h

/-- The request that goes on first is taken out of its place, and none is due earlier. -/
lemma takeFirst_split {ps others : List Pending} {first : Pending}
    (h : takeFirst ps = some (first, others)) :
    ∃ before after, ps = before ++ first :: after ∧ others = before ++ after ∧
      ∀ p ∈ ps, first.time ≤ p.time := by
  induction ps generalizing first others with
  | nil => cases h
  | cons p ps ih =>
    rw [takeFirst] at h
    cases taken : takeFirst ps with
    | none =>
      simp only [taken, Option.some.injEq, Prod.mk.injEq] at h
      obtain ⟨rfl, rfl⟩ := h
      obtain rfl := takeFirst_eq_none taken
      exact ⟨[], [], rfl, rfl, by simp [Duration.le_iff]⟩
    | some found =>
      obtain ⟨f, rest⟩ := found
      obtain ⟨before, after, rfl, rfl, least⟩ := ih taken
      simp only [taken] at h
      by_cases earlier : f.time < p.time
      · simp only [if_pos earlier, Option.some.injEq, Prod.mk.injEq] at h
        obtain ⟨rfl, rfl⟩ := h
        exact ⟨p :: before, after, rfl, rfl, List.forall_mem_cons.mpr
          ⟨Nat.le_of_lt earlier, least⟩⟩
      · simp only [if_neg earlier, Option.some.injEq, Prod.mk.injEq] at h
        obtain ⟨rfl, rfl⟩ := h
        have first_le : p.time ≤ f.time := Nat.le_of_not_lt earlier
        exact ⟨[], _, rfl, rfl, List.forall_mem_cons.mpr
          ⟨Nat.le_refl _, fun q hq => Nat.le_trans first_le (least q hq)⟩⟩

lemma takeQueued_eq_none {lane : Route} {qs : List Queued} (h : takeQueued lane qs = none) :
    ∀ q ∈ qs, q.lane ≠ lane := by
  induction qs with
  | nil => simp
  | cons q qs ih =>
    rw [takeQueued] at h
    split at h
    · cases h
    · rename_i other
      exact List.forall_mem_cons.mpr ⟨other, ih (Option.map_eq_none_iff.mp h)⟩

/-- The request that is let into a route is the first that waits for it. -/
lemma takeQueued_split {lane : Route} {qs others : List Queued} {q : Queued}
    (h : takeQueued lane qs = some (q, others)) :
    ∃ before after, qs = before ++ q :: after ∧ others = before ++ after ∧ q.lane = lane ∧
      ∀ x ∈ before, x.lane ≠ lane := by
  induction qs generalizing q others with
  | nil => cases h
  | cons x qs ih =>
    rw [takeQueued] at h
    by_cases same : x.lane = lane
    · rw [if_pos same, Option.some.injEq, Prod.mk.injEq] at h
      obtain ⟨rfl, rfl⟩ := h
      exact ⟨[], qs, rfl, rfl, same, by simp⟩
    · rw [if_neg same] at h
      obtain ⟨⟨found, rest⟩, taken, pair⟩ := Option.map_eq_some_iff.mp h
      obtain ⟨rfl, rfl⟩ := Prod.mk.inj pair
      obtain ⟨before, after, rfl, rfl, here, earlier⟩ := ih taken
      exact ⟨x :: before, after, rfl, rfl, here, List.forall_mem_cons.mpr ⟨same, earlier⟩⟩

namespace Agenda

section

variable (t : Transport) (timeout : Duration) (patience : Patience) (table : History)
  (s : Agenda) (others : List Pending) (p : Pending)

lemma goes_release {reply : Option Reply} (due : Ends (table p.time) p.job reply) :
    s.Goes t timeout patience table others p ⟨p.time, p.request, p.line, .ends reply⟩
      (release (s.ended others p reply) p.time p.lane) := by
  have waits (q : Queued) : q.line = p.line ↔ p.lane = some q.lane := by
    cases lane : p.lane <;> simp [Queued.line, Pending.line, Line.of, lane, eq_comm]
  cases lane : p.lane with
  | none =>
    refine .leaves due fun q _ same => ?_
    simp [lane, waits] at same
  | some l =>
    simp only [release]
    split
    · rename_i nobody
      refine .leaves due fun q hq same => takeQueued_eq_none nobody q hq ?_
      rw [waits, lane, Option.some.injEq] at same
      exact same.symm
    · rename_i q others taken
      obtain ⟨before, after, queued, rfl, rfl, first⟩ := takeQueued_split taken
      refine .passes due queued ((waits q).mpr lane) fun x hx same => first x hx ?_
      rw [waits, lane, Option.some.injEq] at same
      exact same.symm

/-- A step is one of the turns that a request can take. -/
lemma exists_goes_step : ∃ e, s.Goes t timeout patience table others p e
    (step t timeout patience table { s with pending := others } p) := by
  unfold step
  split
  · rename_i job
    have goes := goes_release t timeout patience table s others p (job ▸ Ends.dropped)
    simp only [ended, Option.map_none, Option.toList_none, List.append_nil] at goes
    exact ⟨_, goes⟩
  · rename_i j job
    split
    · rename_i reply due
      exact ⟨_, goes_release t timeout patience table s others p (job ▸ Ends.replies due)⟩
    · rename_i m smaller batch next due
      exact ⟨_, .emits job due _ rfl⟩

end

variable {t : Transport} {timeout : Duration} {patience : Patience} {table : History}
  {s next last : Agenda} {p : Pending} {before after : List Pending} {e : Turn} {turns : List Turn}

/-- A turn is over before the requests that are left could take more of them. -/
lemma Goes.load_lt (pending : s.pending = before ++ p :: after)
    (goes : Goes t timeout patience table s (before ++ after) p e next) :
    next.load < s.load := by
  simp only [load, pending, List.map_append, List.map_cons, turnBound_append, turnBound]
  cases goes with
  | @emits job m smaller batch follow going due b emission =>
    have less := Call.size_left_lt p.request follow b smaller
    have size : p.call.size = job.size := by simp [Pending.call, Call.size, going]
    simp only [List.map_append, List.map_cons, List.map_nil, turnBound_append, turnBound,
      Pending.call_later]
    omega
  | leaves due nobody =>
    simp only [Agenda.ended, List.map_append, turnBound_append]
    omega
  | passes due queued same first =>
    simp only [Agenda.ended, queued, List.map_append, List.map_cons, List.map_nil,
      turnBound_append, turnBound, Queued.call_letIn]
    omega

/-- The steps of an agenda are the turns of a course, if there are enough of them. -/
lemma exists_course_run (t : Transport) (timeout : Duration) (patience : Patience)
    (table : History) (fuel : Nat) (s : Agenda) (enough : s.load ≤ fuel) :
    ∃ turns, Course t timeout patience table s turns (s.run t timeout patience table fuel) := by
  induction fuel generalizing s with
  | zero =>
    refine ⟨[], .done ?_⟩
    cases pending : s.pending with
    | nil => rfl
    | cons p ps =>
      simp only [load, pending, List.map_cons, turnBound] at enough
      omega
  | succ fuel ih =>
    rw [run]
    cases taken : takeFirst s.pending with
    | none => exact ⟨[], .done (takeFirst_eq_none taken)⟩
    | some found =>
      obtain ⟨p, others⟩ := found
      obtain ⟨before, after, pending, rfl, earliest⟩ := takeFirst_split taken
      obtain ⟨e, goes⟩ := exists_goes_step t timeout patience table s (before ++ after) p
      have less := goes.load_lt pending
      obtain ⟨turns, rest⟩ := ih _ (Nat.le_of_lt_succ (Nat.lt_of_lt_of_le less enough))
      exact ⟨e :: turns, .turn pending earliest goes rest⟩

lemma Goes.inLine (h : s.InLine) (pending : s.pending = before ++ p :: after)
    (goes : Goes t timeout patience table s (before ++ after) p e next) :
    next.InLine := by
  obtain ⟨alone, held⟩ := h
  rw [pending] at alone held
  have again (p' : Pending) (same : p'.line = p.line) :
      ((before ++ after ++ [p']).map Pending.line).Nodup := by
    rw [List.map_append, List.map_singleton, same]
    refine alone.perm ?_
    simp only [List.map_append, List.map_cons]
    exact List.perm_middle.trans (List.perm_append_singleton _ _).symm
  have others (q : Queued) (hq : q ∈ s.queued) :
      (∃ p' ∈ before ++ after, p'.line = q.line) ∨ p.line = q.line := by
    obtain ⟨p', hp', same⟩ := held q hq
    rcases List.mem_append.mp hp' with hp' | hp'
    · exact Or.inl ⟨p', List.mem_append_left _ hp', same⟩
    · rcases List.mem_cons.mp hp' with rfl | hp'
      · exact Or.inr same
      · exact Or.inl ⟨p', List.mem_append_right _ hp', same⟩
  have still (p' : Pending) (same : p'.line = p.line) (q : Queued) (hq : q ∈ s.queued) :
      ∃ x ∈ before ++ after ++ [p'], x.line = q.line := by
    rcases others q hq with ⟨x, hx, line⟩ | line
    · exact ⟨x, List.mem_append_left _ hx, line⟩
    · exact ⟨p', List.mem_append_right _ (List.mem_singleton.mpr rfl), same.trans line⟩
  cases goes with
  | emits going due b emission => exact ⟨again _ rfl, still _ rfl⟩
  | leaves due nobody =>
    refine ⟨?_, fun q hq => ?_⟩
    · exact alone.sublist (((List.sublist_cons_self p after).append_left before).map _)
    · rcases others q hq with found | line
      · exact found
      · exact absurd line.symm (nobody q hq)
  | @passes _ q _ _ due queued same first =>
    refine ⟨again (q.letIn p.time) same, fun x hx => still (q.letIn p.time) same x ?_⟩
    rw [queued]
    exact List.mem_append.mpr ((List.mem_append.mp hx).imp_right (List.mem_cons_of_mem _))

lemma calls_of_ne {line : Line} (pending : s.pending = before ++ p :: after) (other : p.line ≠ line)
    (goes : Goes t timeout patience table s (before ++ after) p e next) :
    next.calls line = s.calls line := by
  have apart (p' : Pending) (same : p'.line = p.line) :
      (before ++ after ++ [p']).filter (·.line = line) =
        (before ++ p :: after).filter (·.line = line) := by
    simp [List.filter_append, same, other]
  simp only [calls, pending]
  cases goes with
  | @emits _ _ _ _ left going due b emission =>
    dsimp only
    rw [apart (p.later (p.time + b.duration) (Job.left left b)) rfl]
  | leaves due nobody => simp [ended, List.filter_append, other]
  | @passes _ q _ _ due queued same first =>
    dsimp only [ended]
    rw [apart (q.letIn p.time) same, queued]
    simp [List.filter_append, same, other]

lemma InLine.queued_eq_nil (h : s.InLine) (nobody : s.pending = []) : s.queued = [] := by
  refine List.eq_nil_iff_forall_not_mem.mpr fun q hq => ?_
  obtain ⟨p, hp, -⟩ := h.held q hq
  rw [nobody] at hp
  cases hp

/-- Nobody else is served in the line of a request. -/
lemma InLine.others (h : s.InLine) (pending : s.pending = before ++ p :: after) :
    ∀ p' ∈ before ++ after, p'.line ≠ p.line := by
  have alone := h.alone
  rw [pending, List.map_append, List.map_cons] at alone
  intro p' hp' same
  have elsewhere := (List.nodup_middle.mp alone).notMem
  rw [← List.map_append] at elsewhere
  exact elsewhere (same ▸ List.mem_map_of_mem hp')

lemma calls_of_others (line : Line) (others : ∀ p' ∈ s.pending, p'.line ≠ line) :
    s.calls line = (s.queued.filter (·.line = line)).map Queued.call := by
  have nobody : s.pending.filter (·.line = line) = [] :=
    List.filter_eq_nil_iff.mpr fun p' hp' => by simpa using others p' hp'
  rw [calls, nobody]
  rfl

lemma calls_of_pending (line : Line) (pending : s.pending = before ++ p :: after)
    (others : ∀ p' ∈ before ++ after, p'.line ≠ line) (same : p.line = line) :
    s.calls line = p.call :: (s.queued.filter (·.line = line)).map Queued.call := by
  have nobody (ps : List Pending) (sub : ps ⊆ before ++ after) : ps.filter (·.line = line) = [] :=
    List.filter_eq_nil_iff.mpr fun p' hp' => by simpa using others p' (sub hp')
  rw [calls, pending, List.filter_append, List.filter_cons_of_pos (by simpa using same),
    nobody before (List.subset_append_left ..), nobody after (List.subset_append_right ..)]
  rfl

lemma calls_of_last (line : Line) {others : List Pending} (p' : Pending)
    (pending : s.pending = others ++ [p']) (apart : ∀ x ∈ others, x.line ≠ line)
    (same : p'.line = line) :
    s.calls line = p'.call :: (s.queued.filter (·.line = line)).map Queued.call :=
  calls_of_pending line pending (by simpa using apart) same

lemma Goes.line_eq {others : List Pending}
    (goes : Goes t timeout patience table s others p e next) : e.line = p.line := by
  cases goes <;> rfl

lemma Goes.mem_pending {others : List Pending}
    (goes : Goes t timeout patience table s others p e next) :
    ∀ x ∈ next.pending, x ∈ others ∨ x.line = p.line ∧ p.time ≤ x.time := by
  intro x hx
  cases goes with
  | emits going due b emission =>
    rcases List.mem_append.mp hx with hx | hx
    · exact Or.inl hx
    · rw [List.mem_singleton.mp hx]
      exact Or.inr ⟨rfl, Nat.le_add_right _ _⟩
  | leaves ends nobody => exact Or.inl hx
  | passes ends queued same first =>
    rcases List.mem_append.mp hx with hx | hx
    · exact Or.inl hx
    · rw [List.mem_singleton.mp hx]
      exact Or.inr ⟨same, Nat.le_refl _⟩

lemma Goes.time_eq {others : List Pending}
    (goes : Goes t timeout patience table s others p e next) : e.time = p.time := by
  cases goes <;> rfl

/-- Who goes on later or is let in is the only one of the line. -/
lemma time_of_line {others : List Pending} {p' : Pending} {line : Line}
    (apart : ∀ x ∈ others, x.line ≠ line) :
    ∀ x ∈ others ++ [p'], x.line = line → x.time = p'.time := by
  intro x hx same
  rcases List.mem_append.mp hx with hx | hx
  · exact absurd same (apart x hx)
  · rw [List.mem_singleton.mp hx]

/-- Every line is served as if it were alone. -/
lemma Course.served (course : Course t timeout patience table s turns last) (h : s.InLine)
    (line : Line) {time : Duration} (due : ∀ p ∈ s.pending, p.line = line → p.time = time) :
    Served table time (s.calls line) (turns.filter (·.line = line)) := by
  induction course generalizing time with
  | @done s nobody =>
    simp only [calls, nobody, h.queued_eq_nil nobody]
    exact .nobody time
  | @turn s next last p before after e turns pending earliest goes rest ih =>
    have others := h.others pending
    have inLine := goes.inLine h pending
    by_cases same : p.line = line
    · subst same
      obtain rfl : p.time = time := due p (by simp [pending]) rfl
      rw [calls_of_pending p.line pending others rfl,
        List.filter_cons_of_pos (by simp [goes.line_eq])]
      cases goes with
      | @emits _ _ _ _ left going due b emission =>
        have served := ih inLine (time_of_line others)
        rw [calls_of_last p.line (p.later (p.time + b.duration) (Job.left left b)) rfl others rfl]
          at served
        rw [Pending.call, going]
        exact .emits b due served
      | leaves ends nobody =>
        have free : ∀ x ∈ before ++ after, x.line = p.line → x.time = p.time :=
          fun x hx line => absurd line (others x hx)
        have served := ih inLine free
        rw [calls_of_others p.line others] at served
        exact .ends ends served
      | @passes _ q ahead _ ends queued same first =>
        have served := ih inLine (time_of_line others)
        rw [calls_of_last p.line (q.letIn p.time) rfl others same] at served
        have nobody : ahead.filter (·.line = p.line) = [] :=
          List.filter_eq_nil_iff.mpr fun x hx => by simpa using first x hx
        rw [queued, List.filter_append, nobody, List.filter_cons_of_pos (by simpa using same)]
        rw [List.filter_append, nobody] at served
        exact .ends ends served
    · rw [List.filter_cons_of_neg (by simp [goes.line_eq, same]), ← calls_of_ne pending same goes]
      refine ih inLine fun x hx line => ?_
      rcases goes.mem_pending x hx with hx | ⟨here, -⟩
      · refine due x ?_ line
        rw [pending]
        exact ((List.sublist_cons_self p after).append_left before).subset hx
      · exact absurd (here.symm.trans line) same

def requests (s : Agenda) : List Nat := s.pending.map Pending.request ++ s.queued.map Queued.request

/-- What a turn adds to the log, to the answers and to the time. -/
lemma Goes.adds {others : List Pending} (goes : Goes t timeout patience table s others p e next) :
    next.log = s.log ++ Log.entriesFrom s.log.opens e.attempt?.toList ∧
      (∀ a ∈ e.attempt?, a.batch = s.log.attempt t timeout patience a.proposals ∧
        a.start = e.time) ∧
      next.answered = s.answered ++ e.answer?.toList ∧ s.now ≤ next.now ∧
      ∀ i ∈ e.ended?, e.time ≤ next.now := by
  cases goes with
  | emits going due b emission =>
    refine ⟨?_, ?_, (List.append_nil _).symm, Nat.le_refl _, by simp [Turn.ended?]⟩
    · simp [Turn.attempt?, Log.entriesFrom]
    · rintro a ⟨⟩
      exact ⟨emission, rfl⟩
  | leaves due nobody | passes due queued same first =>
    refine ⟨(List.append_nil _).symm, by simp [Turn.attempt?], rfl, ?_, ?_⟩
    · exact Nat.le_max_left _ _
    · rintro i ⟨⟩
      exact Nat.le_max_right _ _

/-- A request is served or waits until it ends. -/
lemma Goes.requests_perm (pending : s.pending = before ++ p :: after)
    (goes : Goes t timeout patience table s (before ++ after) p e next) :
    s.requests.Perm (e.ended?.toList ++ next.requests) := by
  have taken : s.requests.Perm
      (p.request :: ((before ++ after).map Pending.request ++ s.queued.map Queued.request)) := by
    simp only [requests, pending, List.map_append, List.map_cons, List.append_assoc]
    exact List.perm_middle
  have last (p' : Pending) : (before ++ after ++ [p']).map Pending.request =
      (before ++ after).map Pending.request ++ [p'.request] := List.map_append
  refine taken.trans ?_
  cases goes with
  | emits going due b emission =>
    dsimp only [requests, Turn.ended?, Option.toList_none, List.nil_append]
    rw [last, List.append_assoc]
    exact List.perm_middle.symm
  | leaves due nobody => exact .refl _
  | @passes _ q ahead behind due queued same first =>
    have waiting : (s.queued.map Queued.request).Perm
        (q.request :: (ahead ++ behind).map Queued.request) := by
      rw [queued, List.map_append, List.map_cons, List.map_append]
      exact List.perm_middle
    dsimp only [requests, Turn.ended?, Option.toList_some, ended]
    rw [last, List.append_assoc]
    exact .cons _ (.append_left _ waiting)

/-- The log goes on with what is emitted in the turns. -/
lemma Course.log (course : Course t timeout patience table s turns last) :
    last.log = s.log ++ Log.entriesFrom s.log.opens (turns.filterMap Turn.attempt?) ∧
      s.log.Continues t timeout patience (turns.filterMap Turn.attempt?) := by
  induction course with
  | done nobody => exact ⟨(List.append_nil _).symm, .nil⟩
  | @turn s next last p before after e turns pending earliest goes rest ih =>
    obtain ⟨log, emitted, -⟩ := goes.adds
    cases emission : e.attempt? with
    | none =>
      simp only [emission, Option.toList_none, Log.entriesFrom, List.append_nil] at log
      rw [List.filterMap_cons_none emission, ← log]
      exact ih
    | some a =>
      obtain ⟨batch, -⟩ := emitted a emission
      have opens : next.log.opens = s.log.opens + 1 := by
        rw [log, emission]
        simp only [Option.toList_some, Log.entriesFrom, List.append_nil]
        rw [batch]
        exact Log.opens_attempt ..
      rw [emission] at log
      simp only [Option.toList_some, Log.entriesFrom, List.append_nil] at log
      rw [List.filterMap_cons_some emission]
      refine ⟨?_, .cons batch (log ▸ ih.2)⟩
      rw [ih.1, opens, log, List.append_assoc, Log.entriesFrom]

/-- Every request ends once. -/
lemma Course.ended_perm (course : Course t timeout patience table s turns last) (h : s.InLine) :
    s.requests.Perm (turns.filterMap Turn.ended?) := by
  induction course with
  | @done s nobody =>
    simp only [requests, nobody, h.queued_eq_nil nobody]
    exact .refl _
  | turn pending earliest goes rest ih =>
    rw [List.filterMap_eq_flatMap_toList, List.flatMap_cons, ← List.filterMap_eq_flatMap_toList]
    exact (goes.requests_perm pending).trans (.append_left _ (ih (goes.inLine h pending)))

lemma Course.answered (course : Course t timeout patience table s turns last) :
    last.answered = s.answered ++ turns.filterMap Turn.answer? := by
  induction course with
  | done nobody => exact (List.append_nil _).symm
  | turn pending earliest goes rest ih =>
    obtain ⟨-, -, answered, -⟩ := goes.adds
    rw [ih, answered, List.append_assoc, List.filterMap_eq_flatMap_toList,
      List.filterMap_eq_flatMap_toList, List.flatMap_cons]

lemma Course.time_le (course : Course t timeout patience table s turns last) {time : Duration}
    (due : ∀ p ∈ s.pending, time ≤ p.time) : ∀ e ∈ turns, time ≤ e.time := by
  induction course with
  | done nobody => simp
  | turn pending earliest goes rest ih =>
    rw [pending] at due
    have first : time ≤ _ := due _ (List.mem_append_right _ List.mem_cons_self)
    refine List.forall_mem_cons.mpr ⟨goes.time_eq ▸ first, ih fun x hx => ?_⟩
    rcases goes.mem_pending x hx with hx | ⟨-, later⟩
    · exact due x (((List.sublist_cons_self ..).append_left _).subset hx)
    · exact Nat.le_trans first later

/-- The turns are taken in the order of time. -/
lemma Course.pairwise_time (course : Course t timeout patience table s turns last) :
    turns.Pairwise fun e e' => e.time ≤ e'.time := by
  induction course with
  | done nobody => exact .nil
  | turn pending earliest goes rest ih =>
    refine .cons (rest.time_le fun x hx => ?_) ih
    rw [goes.time_eq]
    rw [pending] at earliest
    rcases goes.mem_pending x hx with hx | ⟨-, later⟩
    · exact earliest x (((List.sublist_cons_self ..).append_left _).subset hx)
    · exact later

lemma Course.now (course : Course t timeout patience table s turns last) :
    s.now ≤ last.now ∧ ∀ e ∈ turns, ∀ i ∈ e.ended?, e.time ≤ last.now := by
  induction course with
  | done nobody => exact ⟨Nat.le_refl _, by simp⟩
  | @turn s next last p before after e turns pending earliest goes rest ih =>
    obtain ⟨-, -, -, now, ended⟩ := goes.adds
    refine ⟨Nat.le_trans now ih.1, List.forall_mem_cons.mpr ⟨?_, ih.2⟩⟩
    exact fun i hi => Nat.le_trans (ended i hi) ih.1

end Agenda

end LakeCatalog.Service

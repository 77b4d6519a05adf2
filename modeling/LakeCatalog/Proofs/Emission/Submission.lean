import LakeCatalog.Emission.Batch
import LakeCatalog.Proofs.Emission.Arrival

/-!
# What handing over a batch leaves behind

The submissions of a batch are its proposals, each with its position and with what the transport
does to it. Handing them over takes no time and splits them in two: the refused ones have their
outcomes at once, in their order, and the others are taken and waited for.
-/

namespace LakeCatalog.Emission

open Catalog

/-- A transport that opens and closes every channel. -/
def Transport.behaving (submission : Nat → Behaviour) : Transport :=
  ⟨"", fun _ => none, submission, none, fun _ message => message⟩

def Behaviour.isRefusal : Behaviour → Bool
  | .refuses _ => true
  | _ => false

structure Submission where
  position : Nat
  /-- The number of the submission, counted over all channels. -/
  number : Nat
  proposal : Proposal
  behaviour : Behaviour
  deriving DecidableEq

/-- The submissions of proposals from a position of the batch on; `count` submissions came before
the batch. -/
def submissionsFrom (t : Transport) (count position : Nat) (ps : List Proposal) :
    List Submission :=
  (ps.zipIdx position).map fun (p, i) => ⟨i, count + i, p, t.submission (count + i)⟩

namespace Submission

def isRefused (s : Submission) : Bool := s.behaviour.isRefusal

/-- The outcome that the submission comes to. -/
def settled (t : Transport) (timeout : Duration) (s : Submission) : Settled :=
  ⟨s.position, s.proposal, s.behaviour.status (t.obituary s.number) timeout,
    s.behaviour.due timeout⟩

def waiter (time : Duration) (s : Submission) : Waiter :=
  ⟨s.position, s.number, s.proposal, s.behaviour, time⟩

def event (s : Submission) : Event :=
  if s.isRefused then .refused s.position s.proposal else .submitted s.position s.proposal

@[simp] lemma position_settled (t : Transport) (timeout : Duration) (s : Submission) :
    (s.settled t timeout).position = s.position := rfl

@[simp] lemma proposal?_event (s : Submission) : s.event.proposal? = some s.proposal := by
  unfold event
  split <;> rfl

end Submission

section

variable (t : Transport) (count position : Nat) (p : Proposal) (ps : List Proposal)

lemma submissionsFrom_cons : submissionsFrom t count position (p :: ps) =
    ⟨position, count + position, p, t.submission (count + position)⟩ ::
      submissionsFrom t count (position + 1) ps := by
  simp [submissionsFrom, List.zipIdx_cons]

@[simp] lemma length_submissionsFrom :
    (submissionsFrom t count position ps).length = ps.length := by
  simp [submissionsFrom]

lemma map_position_submissionsFrom : (submissionsFrom t count 0 ps).map Submission.position =
    List.range ps.length := by
  simp [submissionsFrom, Function.comp_def, List.range_eq_range']

lemma map_proposal_submissionsFrom :
    (submissionsFrom t count position ps).map Submission.proposal = ps := by
  simp [submissionsFrom, Function.comp_def]

lemma submissionsFrom_pairwise : (submissionsFrom t count position ps).Pairwise
    fun a b => a.position < b.position := by
  have h : ((submissionsFrom t count position ps).map Submission.position).Pairwise (· < ·) := by
    simpa [submissionsFrom, Function.comp_def] using List.pairwise_lt_range'
  exact List.pairwise_map.mp h

/-- A submission of a batch is known by its position. -/
lemma mem_submissionsFrom {s : Submission} : s ∈ submissionsFrom t count 0 ps ↔
    ps[s.position]? = some s.proposal ∧ s.number = count + s.position ∧
      s.behaviour = t.submission s.number := by
  obtain ⟨i, n, p, b⟩ := s
  simp only [submissionsFrom, List.mem_map, Prod.exists, List.mem_zipIdx_iff_getElem?,
    Submission.mk.injEq]
  constructor
  · rintro ⟨q, j, hq, rfl, rfl, rfl, rfl⟩
    exact ⟨hq, rfl, rfl⟩
  · rintro ⟨hp, rfl, rfl⟩
    exact ⟨p, i, hp, rfl, rfl, rfl, rfl⟩

end

/-- What handing over submissions changes of an emission, its marks apart. -/
structure Flight.HandedOver (f g : Flight) (subs : List Submission) : Prop where
  transport : g.transport = f.transport
  timeout : g.timeout = f.timeout
  held : g.held = f.held
  now : g.now = f.now
  submissions : g.submissions = f.submissions + subs.length
  settled : g.settled =
    f.settled ++ (subs.filter (·.isRefused)).map (·.settled f.transport f.timeout)
  taken : g.taken = f.taken ++ (subs.filter (!·.isRefused)).map (·.waiter f.now)
  events : g.events = f.events ++ subs.map fun s => ⟨f.now, s.event⟩

lemma Flight.HandedOver.trans {f g h : Flight} {subs more : List Submission}
    (first : f.HandedOver g subs) (second : g.HandedOver h more) :
    f.HandedOver h (subs ++ more) where
  transport := second.transport.trans first.transport
  timeout := second.timeout.trans first.timeout
  held := second.held.trans first.held
  now := second.now.trans first.now
  submissions := by rw [second.submissions, first.submissions, List.length_append]; omega
  settled := by
    rw [second.settled, first.settled, first.transport, first.timeout, List.append_assoc,
      ← List.map_append, ← List.filter_append]
  taken := by
    rw [second.taken, first.taken, first.now, List.append_assoc, ← List.map_append,
      ← List.filter_append]
  events := by
    rw [second.events, first.events, first.now, List.append_assoc, ← List.map_append]

lemma Flight.submit_handedOver (f : Flight) (held : f.held = true) (position : Nat) (p : Proposal) :
    f.HandedOver (f.submit position p)
      [⟨position, f.submissions, p, f.transport.submission f.submissions⟩] := by
  rw [submit, if_pos held]
  cases hb : f.transport.submission f.submissions <;>
    constructor <;> simp [record, write, Submission.isRefused, Submission.settled,
      Submission.waiter, Submission.event, Behaviour.isRefusal, Behaviour.status, Behaviour.due]

/-- Handing over a batch one proposal after the other hands over its submissions. -/
lemma Flight.submitFrom_handedOver (t : Transport) (count position : Nat) (ps : List Proposal)
    (f : Flight) (transport : f.transport = t) (held : f.held = true)
    (submissions : f.submissions = count + position) :
    f.HandedOver (submitFrom position ps f) (submissionsFrom t count position ps) := by
  induction ps generalizing f position with
  | nil => constructor <;> simp [submitFrom, submissionsFrom]
  | cons p ps ih =>
    have step := f.submit_handedOver held position p
    rw [transport, submissions] at step
    rw [submissionsFrom_cons]
    refine step.trans (ih (position + 1) _ ?_ ?_ ?_)
    · exact step.transport.trans transport
    · exact step.held.trans held
    · rw [step.submissions, submissions]; rfl

end LakeCatalog.Emission

import LakeCatalog.Proofs.Sync.TableSync

/-!
# Faults

Reading a table and deriving its properties can fail, which is a fault and not a failed run. An
operation on one part of a table does all that can fault before it emits anything, so a fault leaves
the catalog as it was. A full sync reads the last commit after it has published the schema and the
properties, as its last part does. That is the only fault that comes late.
-/

namespace LakeCatalog.Sync

open Catalog Emission

def faultOf {α : Type} : Except SyncError α → Option Fault
  | .error (.fault fault) => some fault
  | _ => none

section

variable {α β : Type}

lemma faultOf_eq_some_iff {result : Except SyncError α} {fault : Fault} :
    faultOf result = some fault ↔ result = .error (.fault fault) := by
  rcases result with (_ | _) | _ <;> simp [faultOf]

@[simp] lemma faultOf_map (f : α → β) (result : Except SyncError α) :
    faultOf (result.map f) = faultOf result := by
  rcases result with (_ | _) | _ <;> rfl

@[simp] lemma Client.faultOf_result (c : Client) (operation : String) (outcomes : List Outcome) :
    faultOf (c.result operation outcomes) = none := by
  rcases c.result_cases operation outcomes with ⟨ok, -⟩ | ⟨-, failure, failed⟩
  · rw [ok]
    rfl
  · rw [failed]
    rfl

end

namespace Plan

section

variable {α β : Type} {n : Nat}

/-- No course of a plan ends with a fault. -/
def Faultless {n : Nat} : Plan (Except SyncError α) n → Prop
  | .finish result => faultOf result = none
  | .readFacts next => ∀ facts, (next facts).Faultless
  | .readLastCommit next => ∀ commit, (next commit).Faultless
  | .emit _ next => ∀ outcomes, (next outcomes).Faultless

/-- Once a plan has emitted a batch it ends without a fault. -/
def FaultsFirst {n : Nat} : Plan (Except SyncError α) n → Prop
  | .finish _ => True
  | .readFacts next => ∀ facts, (next facts).FaultsFirst
  | .readLastCommit next => ∀ commit, (next commit).FaultsFirst
  | .emit _ next => ∀ outcomes, (next outcomes).Faultless

lemma Faultless.map (f : α → β) {p : Plan (Except SyncError α) n} (h : p.Faultless) :
    (p.map (Except.map f)).Faultless := by
  induction p with
  | finish result => exact (faultOf_map f result).trans h
  | readFacts next ih => exact fun facts => ih facts (h facts)
  | readLastCommit next ih => exact fun commit => ih commit (h commit)
  | emit batch next ih => exact fun outcomes => ih outcomes (h outcomes)

lemma FaultsFirst.map (f : α → β) {p : Plan (Except SyncError α) n} (h : p.FaultsFirst) :
    (p.map (Except.map f)).FaultsFirst := by
  induction p with
  | finish result => trivial
  | readFacts next ih => exact fun facts => ih facts (h facts)
  | readLastCommit next ih => exact fun commit => ih commit (h commit)
  | emit batch next ih => exact fun outcomes => (h outcomes).map f

variable (t : Transport) (timeout : Duration) (table : History)

lemma Faultless.faultOf_run {p : Plan (Except SyncError α) n} (h : p.Faultless) (s : Session) :
    faultOf (p.run t timeout table s).1 = none := by
  induction p generalizing s with
  | finish result => exact h
  | readFacts next ih => exact ih _ (h _) s
  | readLastCommit next ih => exact ih _ (h _) s
  | emit batch next ih => exact ih _ (h _) _

lemma FaultsFirst.untouched {p : Plan (Except SyncError α) n} (h : p.FaultsFirst) (s : Session)
    {fault : Fault} (failed : faultOf (p.run t timeout table s).1 = some fault) :
    p.emissions t timeout table s = [] ∧ (p.run t timeout table s).2 = s := by
  induction p with
  | finish result => exact ⟨rfl, rfl⟩
  | readFacts next ih => exact ih _ (h _) failed
  | readLastCommit next ih => exact ih _ (h _) failed
  | emit batch next ih =>
    -- What is left of the plan cannot fault, so this case does not arise.
    have sound := (h (s.emit t timeout batch).1.outcomes).faultOf_run t timeout table
      (s.emit t timeout batch).2
    cases sound.symm.trans failed

end

end Plan

namespace Client

variable (c : Client)

lemma syncSchema_faultsFirst : c.syncSchema.FaultsFirst
  | .error _ => trivial
  | .ok _ => fun outcomes => c.faultOf_result _ outcomes

lemma syncProperties_faultsFirst : c.syncProperties.FaultsFirst
  | .error _ => trivial
  | .ok facts => by
    dsimp only
    split
    · trivial
    · exact fun outcomes => c.faultOf_result _ outcomes

lemma syncLastCommit_faultsFirst : c.syncLastCommit.FaultsFirst
  | .error _ => trivial
  | .ok none => trivial
  | .ok (some _) => fun outcomes => (faultOf_map ..).trans (c.faultOf_result _ outcomes)

lemma plan_faultsFirst {o : Operation} (part : o ≠ .syncTable) : (o.plan c).FaultsFirst := by
  cases o with
  | updateSchema schema =>
    have faultsFirst : (c.updateSchema schema).FaultsFirst := fun outcomes =>
      c.faultOf_result _ outcomes
    exact faultsFirst.map _
  | updateProperties name properties =>
    have faultsFirst : (c.updateProperties name properties).FaultsFirst := fun outcomes =>
      (faultOf_map ..).trans (c.faultOf_result _ outcomes)
    exact faultsFirst.map _
  | syncSchema => exact c.syncSchema_faultsFirst.map _
  | syncProperties => exact c.syncProperties_faultsFirst.map _
  | syncLastCommit => exact c.syncLastCommit_faultsFirst.map _
  | syncTable => exact absurd rfl part

end Client

/-- A full sync has published the schema and the properties when it cannot read the last commit; no
error was propagated from either of them. -/
structure Client.CommitUnread (c : Client) (table : History) (s : Session) (fault : Fault)
    (emitted : List Attempt) (ended : Session) : Prop where
  commit : (table ended.now).lastCommit = .error fault
  published : ∃ facts derived a b, (table s.now).facts = .ok facts ∧
    DerivedProperties.derive c.settings facts = .ok derived ∧ emitted = [a, b] ∧
    a.proposals = c.publisher.schemaProposals facts.schema ∧
    b.proposals = c.propertiesBatch derived
  succeeded : c.settings.policy = .propagateFirstError → ∀ a ∈ emitted, a.Succeeded

section

variable {c : Client} {t : Transport} {timeout : Duration} {table : History} {s ended : Session}
  {emitted : List Attempt} {fault : Fault}

lemma Client.TableCourse.of_fault
    (course : c.TableCourse t timeout table s (.error (.fault fault)) emitted ended) :
    emitted = [] ∧ ended = s ∨ c.CommitUnread table s fault emitted ended := by
  -- Runs end with failures only, so the fault comes from the preparation or from the commit.
  have never {operation : String} {batch : List Proposal} {s₁ s₂ : Session} {a : Attempt}
      (ran : c.Ran t timeout operation batch s₁ a (.error (.fault fault)) s₂) : False := by
    obtain ⟨failure, other⟩ := ran.of_error.2
    cases other
  cases course with
  | unprepared => exact .inl ⟨rfl, rfl⟩
  | schemaFailed _ first => exact (never first).elim
  | propertiesFailed _ _ second => exact (never second).elim
  | markerFailed _ _ _ _ third => exact (never third).elim
  | commitUnread prepared first second commit =>
    obtain ⟨read, derives⟩ := prepared_eq_ok_iff.mp prepared
    refine .inr ⟨commit, ⟨_, _, _, _, read, derives, rfl, first.proposals, second.proposals⟩, ?_⟩
    intro propagates
    have schema := first.of_ok.2 propagates
    have properties := second.of_ok.2 propagates
    exact List.forall_mem_cons.mpr ⟨schema, List.forall_mem_singleton.mpr properties⟩

lemma run_plan_syncTable : (Operation.syncTable.plan c).run t timeout table s =
    ((c.syncTable.run t timeout table s).1.map .report, (c.syncTable.run t timeout table s).2) :=
  Plan.run_map ..

lemma emissions_plan_syncTable : (Operation.syncTable.plan c).emissions t timeout table s =
    c.syncTable.emissions t timeout table s :=
  Plan.emissions_map ..

end

/-- An operation that ends with a fault has opened no channel and submitted nothing, unless it is a
full sync whose fault is that of the last commit. Then the schema and the properties are published,
on one channel for each, and no marker is. -/
theorem untouched_by_fault_unless_commit_unread (c : Client) (o : Operation) (t : Transport)
    (timeout : Duration) (table : History) (s : Session) {fault : Fault}
    (failed : ((o.plan c).run t timeout table s).1 = .error (.fault fault)) :
    let ended := ((o.plan c).run t timeout table s).2
    let emitted := (o.plan c).emissions t timeout table s
    emitted = [] ∧ ended = s ∨
      o = .syncTable ∧ c.CommitUnread table s fault emitted ended ∧
        ended.log = s.log ++ Log.entriesFrom s.log.opens emitted := by
  intro ended emitted
  rw [← faultOf_eq_some_iff] at failed
  rcases eq_or_ne o .syncTable with rfl | part
  · have course := c.syncTable_course t timeout table s
    have faulted : faultOf (c.syncTable.run t timeout table s).1 = some fault := by
      rwa [run_plan_syncTable, faultOf_map] at failed
    rw [faultOf_eq_some_iff.mp faulted] at course
    rcases course.of_fault with ⟨nothing, same⟩ | unread
    · left
      have after : ended = (c.syncTable.run t timeout table s).2 :=
        congrArg Prod.snd run_plan_syncTable
      exact ⟨emissions_plan_syncTable.trans nothing, after.trans same⟩
    · right
      refine ⟨rfl, ?_, Plan.log_run ..⟩
      simpa only [ended, emitted, run_plan_syncTable, emissions_plan_syncTable] using unread
  · exact .inl ((c.plan_faultsFirst part).untouched t timeout table s failed)

/-- Properties are not published where the settings name a file format that is not supported. -/
theorem untouched_by_unsupported_format :
    let settings := { (Client.ofOrders true).settings with fileFormat := some "csv" }
    let c : Client := { Client.ofOrders true with settings }
    let t : Transport := .behaving fun _ => .hangs
    let table : Table := ⟨.ok Client.ordersFacts, .ok none⟩
    let ran := (Operation.syncProperties.plan c).run t (.ofSeconds 30) (fun _ => table) .start
    ran.1 = .error (.fault (.build (.unsupportedFileFormat "CSV"))) ∧ ran.2 = .start := by
  intro settings c t table ran
  have failed : ran.1 = .error (.fault (.build (.unsupportedFileFormat "CSV"))) := by
    decide +kernel
  rcases untouched_by_fault_unless_commit_unread c .syncProperties t (.ofSeconds 30)
    (fun _ => table) .start failed with ⟨-, untouched⟩ | ⟨other, -⟩
  · exact ⟨failed, untouched⟩
  · cases other

/-- A full sync that cannot read the last commit leaves the schema and the properties published. -/
theorem syncTable_faults_after_publishing :
    let t : Transport := .behaving fun _ => .resolves .zero none
    let fault : Fault := .metadata (.stated "list failed")
    let table : Table := ⟨.ok Client.ordersFacts, .error fault⟩
    let ran := (Operation.syncTable.plan (.ofOrders true)).run t (.ofSeconds 30) (fun _ => table)
      .start
    ran.1 = .error (.fault fault) ∧
      ¬ (ran.2.log.opens = Session.start.log.opens ∧
        ran.2.log.submitted = Session.start.log.submitted) ∧
      ran.2.log.opens = 2 ∧ ran.2.log.submitted.length = 10 := by
  decide +kernel

end LakeCatalog.Sync

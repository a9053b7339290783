import MipStack.Miptpd.AppController

/-!
# The answer to a finished transfer (`MIPTPAppController_handle_completes`)

* `answer`             what the client of a finished job is to get;
* `Completed`          a connection that a package has moved to `CONN_COMPLETE`;
* `completed_of_receivePackage`   such a connection has an answer;
* `handleCompletes_sent`   nothing is ever sent: complete connections are refused their result;
* `answered_iff`       **clients are answered as they should be exactly where no connection is
                       complete**;
* `finished_sender_not_answered`   a sender whose last package has been confirmed.
-/

namespace MipStack

namespace AppConnection

def answer (c : AppConnection) : Option ClientPackage :=
  match c.sJob, c.rJob with
  | some job, _ => job.result
  | none, some job => job.result
  | none, none => none

def Completed (c : AppConnection) : Bool := c.isComplete && c.answer.isSome

theorem isComplete_iff (c : AppConnection) : c.isComplete = true ↔ c.status = .CONN_COMPLETE :=
  decide_eq_true_iff

theorem completed_of_answer {c : AppConnection} (hc : c.status = .CONN_COMPLETE)
    (h : c.answer.isSome = true) : c.Completed = true := by
  rw [Completed, c.isComplete_iff.mpr hc, h]
  rfl

/-- **A package that completes a connection leaves it with an answer.** -/
theorem completed_of_receivePackage {c c' : AppConnection} {sender : MIPAddress}
    {package : MIPTPPackage} {rc : ℤ} (h : c.receivePackage sender package = .ok (rc, c'))
    (hjob : c.status = .CONN_RECEIVER → c.sJob = none) (hc : c.status ≠ .CONN_COMPLETE)
    (hc' : c'.status = .CONN_COMPLETE) : c'.Completed = true := by
  obtain ⟨port, socket, connectedMip, status, sJob, rJob⟩ := c
  cases status with
  | CONN_SENDER =>
    cases sJob with
    | none => cases h
    | some job =>
      obtain ⟨_, rfl⟩ := Prod.mk.inj (Except.ok.inj h)
      by_cases hcomplete : (job.receivePackage package).isComplete = true
      · have hresult : ((job.receivePackage package).result).isSome = true := by
          rw [MIPTPSendJob.result, if_pos hcomplete]
          rfl
        exact completed_of_answer hc' hresult
      · rw [if_neg hcomplete] at hc'
        cases hc'
  | CONN_RECEIVER =>
    obtain rfl : sJob = none := hjob rfl
    cases rJob with
    | none => cases h
    | some job =>
      simp only [receivePackage] at h
      split at h
      · obtain ⟨_, rfl⟩ := Prod.mk.inj (Except.ok.inj h)
        cases hc'
      · obtain ⟨_, rfl⟩ := Prod.mk.inj (Except.ok.inj h)
        by_cases hcomplete : (job.receivePackage sender package).2.isComplete = true
        · have hresult : ((job.receivePackage sender package).2.result).isSome = true := by
            rw [MIPTPReceiveJob.result, if_pos hcomplete]
            rfl
          exact completed_of_answer hc' hresult
        · rw [if_neg hcomplete] at hc'
          cases hc'
  | CONN_NOT_READY =>
    obtain ⟨_, rfl⟩ := Prod.mk.inj (Except.ok.inj h)
    exact absurd hc' hc
  | CONN_COMPLETE => exact absurd rfl hc
  | CONN_FINISHED =>
    obtain ⟨_, rfl⟩ := Prod.mk.inj (Except.ok.inj h)
    exact absurd hc' hc

/-- the check at the top of `AppConnection_result` -/
theorem result_of_isComplete {c : AppConnection} (h : c.isComplete = true) : c.result = .ok none := by
  rw [result, c.isComplete_iff.mp h]

end AppConnection

namespace MIPTPAppController

/-- **The purpose of the function**: each completed connection has its client answered once and
leaves the list, and the others stay in their order. -/
structure Answered (controller : MIPTPAppController) : Prop where
  connections : controller.handleCompletes.connections
    = .ok (controller.connections.filter fun c => !c.Completed)
  sent : controller.handleCompletes.sent = (controller.connections.filter fun c => c.Completed).flatMap
    fun c => (sendClientPackage c.socket c.answer).2

/-- the loop stops at a complete connection, with nothing sent -/
theorem completes_cons_complete {c : AppConnection} (h : c.isComplete = true)
    (rest : List AppConnection) :
    completes (c :: rest) = ⟨[], c.close, .error .outOfBounds⟩ := by
  rw [completes, if_pos h, AppConnection.result_of_isComplete h]
  rfl

/-- **Nothing is ever sent to a client.** -/
theorem handleCompletes_sent (controller : MIPTPAppController) :
    controller.handleCompletes.sent = [] := by
  show (completes controller.connections).sent = []
  induction controller.connections with
  | nil => rfl
  | cons c rest ih =>
    by_cases h : c.isComplete = true
    · rw [completes_cons_complete h]
    · rw [completes, if_neg h]
      exact ih

theorem completes_connections_iff (connections : List AppConnection) :
    (∃ kept, (completes connections).connections = .ok kept) ↔
      ∀ c ∈ connections, c.status ≠ .CONN_COMPLETE := by
  induction connections with
  | nil => exact iff_of_true ⟨[], rfl⟩ (List.forall_mem_nil _)
  | cons c rest ih =>
    rw [List.forall_mem_cons, ← ih]
    by_cases h : c.isComplete = true
    · rw [completes_cons_complete h]
      exact iff_of_false (fun hex => nomatch hex.choose_spec)
        fun hall => hall.1 (c.isComplete_iff.mp h)
    · rw [completes, if_neg h]
      exact exists_map_ok_iff.trans (and_iff_right (mt c.isComplete_iff.mpr h)).symm

/-- without complete connections the loop keeps them all, and closes nothing -/
theorem completes_of_none_complete {connections : List AppConnection}
    (h : ∀ c ∈ connections, c.status ≠ .CONN_COMPLETE) :
    completes connections = ⟨[], [], .ok connections⟩ := by
  induction connections with
  | nil => rfl
  | cons c rest ih =>
    obtain ⟨hc, hrest⟩ := List.forall_mem_cons.mp h
    rw [completes, if_neg (mt c.isComplete_iff.mp hc), ih hrest]
    rfl

/-- **When clients are answered as they should be**: when there is nobody to answer. -/
theorem answered_iff (controller : MIPTPAppController) :
    controller.Answered ↔ ∀ c ∈ controller.connections, c.status ≠ .CONN_COMPLETE := by
  constructor
  · intro h
    exact (completes_connections_iff _).mp ⟨_, h.connections⟩
  · intro h
    have hnone : ∀ c ∈ controller.connections, c.Completed = false := by
      intro c hc
      rw [AppConnection.Completed, Bool.eq_false_iff.mpr (mt c.isComplete_iff.mp (h c hc))]
      rfl
    have hkept : controller.connections.filter (fun c => !c.Completed) = controller.connections :=
      List.filter_eq_self.mpr fun c hc => by rw [hnone c hc]; rfl
    have hgone : controller.connections.filter (fun c => c.Completed) = [] :=
      List.filter_eq_nil_iff.mpr fun c hc => by rw [hnone c hc]; exact Bool.false_ne_true
    refine ⟨?_, ?_⟩
    · rw [hkept, handleCompletes, completes_of_none_complete h]
    · rw [handleCompletes_sent, hgone]
      rfl

/-- one byte for the host 110 -/
def shortSender : AppConnection :=
  ⟨10, 7, 110, .CONN_SENDER, some (MIPTPSendJob.create 10 110 oneByte 1000 0), none⟩

/-- **A sender whose package has been confirmed gets no answer.** -/
theorem finished_sender_not_answered :
    shortSender.receivePackage 110 ⟨⟨0, 10, 0⟩, []⟩
      = .ok (1, { shortSender with status := .CONN_COMPLETE }) ∧
    ¬ ∀ controller : MIPTPAppController, controller.Answered := by
  refine ⟨rfl, fun h => ?_⟩
  have hsent := (h ⟨[{ shortSender with status := .CONN_COMPLETE }], 10, 0⟩).sent
  rw [handleCompletes_sent] at hsent
  exact absurd hsent (by decide)

end MIPTPAppController

end MipStack

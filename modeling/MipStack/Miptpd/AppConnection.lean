import MipStack.Miptpd.Codec
import MipStack.Miptpd.ReceiveJob

/-!
# Connections to client applications (`app_connection.c`)

* `AppConnection`        socket, port, status, and the job of a sender or of a receiver;
* `AppConnection.create`     sets the job that belongs to the status; for a receiver the job that is
                             checked is the sender's, which is not there;
* `AppConnection.nextPackages`, `.receivePackage`, `.result`   passed on to the job;
* `AppConnection.WellFormed limit`   a sender has its job, with at most `limit` bytes of data, and
                                     there are no receivers;
* `create_eq_none_iff`   **no receiver is ever created**, everything else is;
* `WellFormed.receivePackage_eq`, `WellFormed.nextPackages`   what a connection does without fail.

Allocation succeeds, and it gives connections addresses below 2 ^ 31: `AppConnection_create` and
`AppConnection_create_not_ready` are declared without a return type, so that the pointer they return
passes through an `int`.
-/

namespace MipStack

inductive AppConnectionStatus
  | CONN_SENDER
  | CONN_RECEIVER
  | CONN_NOT_READY
  | CONN_COMPLETE
  | CONN_FINISHED
  deriving DecidableEq, Repr

structure AppConnection where
  port : BitVec 14
  socket : ℕ
  connectedMip : MIPAddress
  status : AppConnectionStatus
  sJob : Option MIPTPSendJob
  rJob : Option MIPTPReceiveJob
  deriving DecidableEq

def connectionType : MIPTPClientType → AppConnectionStatus
  | .MIPTP_SENDER => .CONN_SENDER
  | .MIPTP_RECEIVER => .CONN_RECEIVER
  | .other _ => .CONN_NOT_READY

namespace AppConnection

/-- the port is stored in 14 bits; `none` for `NULL`.  The pointer comes through the `int` that is
returned as it was. -/
def create (status : AppConnectionStatus) (socket : ℕ) (port : UInt16) (destination : MIPAddress)
    (data : JobData) (timeout : ℕ) (now : ℤ) : Option AppConnection :=
  let connection : AppConnection :=
    ⟨BitVec.ofNat 14 port.toNat, socket, destination, status, none, none⟩
  match status with
  | .CONN_SENDER =>
    some { connection with
      sJob := some (MIPTPSendJob.create connection.port connection.connectedMip data timeout now) }
  | .CONN_RECEIVER =>
    let connection :=
      { connection with rJob := some (MIPTPReceiveJob.create connection.port timeout) }
    -- the check that follows is on `s_job`
    if connection.sJob.isSome then some connection else none
  | .CONN_NOT_READY => some connection
  | .CONN_COMPLETE => some connection
  | .CONN_FINISHED => some connection

/-- the port -1; the pointer comes through the `int` here too -/
def createNotReady (socket : ℕ) : Option AppConnection :=
  create .CONN_NOT_READY socket 65535 0 JobData.empty 0 0

/-- the packages to be sent, `none` for `NULL` -/
def nextPackages (connection : AppConnection) :
    Except Fault (Option (List MIPTPPackage) × AppConnection) :=
  match connection.status with
  | .CONN_SENDER =>
    match connection.sJob with
    | none => .error .nullDereference
    | some job => .ok (some job.nextPackages, connection)
  | .CONN_RECEIVER =>
    match connection.rJob with
    | none => .error .nullDereference
    | some job => job.nextPackages.map fun x => (x.1, { connection with rJob := some x.2 })
  | _ => .ok (some [], connection)

/-- return code and connection -/
def receivePackage (connection : AppConnection) (sender : MIPAddress) (package : MIPTPPackage) :
    Except Fault (ℤ × AppConnection) :=
  match connection.status with
  | .CONN_SENDER =>
    match connection.sJob with
    | none => .error .nullDereference
    | some job =>
      let job := job.receivePackage package
      .ok (1, { connection with
        sJob := some job
        status := if job.isComplete then .CONN_COMPLETE else connection.status })
  | .CONN_RECEIVER =>
    match connection.rJob with
    | none => .error .nullDereference
    | some job =>
      let (rc, job) := job.receivePackage sender package
      if rc = -1 then .ok (-1, { connection with rJob := some job })
      else .ok (1, { connection with
        rJob := some job
        status := if job.isComplete then .CONN_COMPLETE else connection.status })
  | _ => .ok (1, connection)

def isComplete (connection : AppConnection) : Bool := connection.status = .CONN_COMPLETE

/-- `none` for `NULL`; the check at the top lets senders and receivers through only -/
def result (connection : AppConnection) : Except Fault (Option ClientPackage) :=
  match connection.status with
  | .CONN_SENDER =>
    match connection.sJob with
    | none => .error .nullDereference
    | some job => .ok job.result
  | .CONN_RECEIVER =>
    match connection.rJob with
    | none => .error .nullDereference
    | some job => .ok job.result
  | _ => .ok none

/-- the descriptors that are closed -/
def close (connection : AppConnection) : List ℕ :=
  if connection.socket ≠ 0 then [connection.socket] else []

/-! ## the connections there are -/

structure WellFormed (limit : ℕ) (connection : AppConnection) : Prop where
  sender : connection.status = .CONN_SENDER → connection.sJob.isSome
  no_receiver : connection.status ≠ .CONN_RECEIVER
  data : ∀ job, connection.sJob = some job → job.data.1.length ≤ limit

theorem create_eq_none_iff (status : AppConnectionStatus) (socket : ℕ) (port : UInt16)
    (destination : MIPAddress) (data : JobData) (timeout : ℕ) (now : ℤ) :
    create status socket port destination data timeout now = none ↔ status = .CONN_RECEIVER := by
  cases status <;> simp [create]

theorem create_eq_some {status : AppConnectionStatus} {socket : ℕ} {port : UInt16}
    {destination : MIPAddress} {data : JobData} {timeout : ℕ} {now : ℤ} {c : AppConnection}
    (h : create status socket port destination data timeout now = some c) :
    c.socket = socket ∧ c.WellFormed data.1.length := by
  cases status with
  | CONN_SENDER =>
    obtain rfl := Option.some.inj h
    refine ⟨rfl, fun _ => rfl, nofun, fun job hjob => ?_⟩
    rw [← Option.some.inj hjob]
    exact le_rfl
  | CONN_RECEIVER => cases h
  | _ =>
    obtain rfl := Option.some.inj h
    exact ⟨rfl, nofun, nofun, nofun⟩

theorem create_port {status : AppConnectionStatus} {socket : ℕ} {port : UInt16}
    {destination : MIPAddress} {data : JobData} {timeout : ℕ} {now : ℤ} {c : AppConnection}
    (h : create status socket port destination data timeout now = some c) :
    c.port = BitVec.ofNat 14 port.toNat := by
  cases status with
  | CONN_RECEIVER => cases h
  | _ =>
    obtain rfl := Option.some.inj h
    rfl

theorem WellFormed.mono {n m : ℕ} {c : AppConnection} (h : c.WellFormed n) (hle : n ≤ m) :
    c.WellFormed m :=
  ⟨h.sender, h.no_receiver, fun job hjob => (h.data job hjob).trans hle⟩

/-- the slices of its data that a sender would send, nothing for the others -/
def window (connection : AppConnection) : List MIPTPPackage :=
  match connection.status, connection.sJob with
  | .CONN_SENDER, some job => job.nextPackages
  | _, _ => []

theorem mem_window {c : AppConnection} {p : MIPTPPackage} (h : p ∈ c.window) :
    ∃ job, c.status = .CONN_SENDER ∧ c.sJob = some job ∧ p ∈ job.nextPackages := by
  unfold window at h
  split at h
  · rename_i job hstatus hjob
    exact ⟨job, hstatus, hjob, h⟩
  · cases h

variable {limit : ℕ}

theorem WellFormed.nextPackages {c : AppConnection} (h : c.WellFormed limit) :
    c.nextPackages = .ok (some c.window, c) := by
  obtain ⟨port, socket, connectedMip, status, sJob, rJob⟩ := c
  cases status with
  | CONN_SENDER =>
    obtain ⟨job, rfl⟩ := Option.isSome_iff_exists.mp (h.sender rfl)
    rfl
  | CONN_RECEIVER => exact absurd rfl h.no_receiver
  | CONN_NOT_READY => rfl
  | CONN_COMPLETE => rfl
  | CONN_FINISHED => rfl

/-- a sender takes the package, the others ignore it -/
def received (package : MIPTPPackage) (connection : AppConnection) : AppConnection :=
  match connection.status, connection.sJob with
  | .CONN_SENDER, some job =>
    let job := job.receivePackage package
    { connection with
      sJob := some job
      status := if job.isComplete then .CONN_COMPLETE else connection.status }
  | _, _ => connection

theorem WellFormed.receivePackage_eq {c : AppConnection} (h : c.WellFormed limit)
    (sender : MIPAddress) (package : MIPTPPackage) :
    c.receivePackage sender package = .ok (1, c.received package) := by
  obtain ⟨port, socket, connectedMip, status, sJob, rJob⟩ := c
  cases status with
  | CONN_SENDER =>
    obtain ⟨job, rfl⟩ := Option.isSome_iff_exists.mp (h.sender rfl)
    rfl
  | CONN_RECEIVER => exact absurd rfl h.no_receiver
  | CONN_NOT_READY => rfl
  | CONN_COMPLETE => rfl
  | CONN_FINISHED => rfl

theorem WellFormed.received {c : AppConnection} (h : c.WellFormed limit) (package : MIPTPPackage) :
    (c.received package).WellFormed limit := by
  obtain ⟨port, socket, connectedMip, status, sJob, rJob⟩ := c
  cases status with
  | CONN_SENDER =>
    obtain ⟨job, rfl⟩ := Option.isSome_iff_exists.mp (h.sender rfl)
    refine ⟨fun _ => rfl, ?_, fun job' hjob' => ?_⟩
    · show (if (job.receivePackage package).isComplete = true then _ else _) ≠ _
      split <;> nofun
    · rw [← Option.some.inj hjob']
      exact h.data job rfl
  | CONN_RECEIVER => exact absurd rfl h.no_receiver
  | CONN_NOT_READY => exact h
  | CONN_COMPLETE => exact h
  | CONN_FINISHED => exact h

@[simp] theorem received_socket (package : MIPTPPackage) (c : AppConnection) :
    (c.received package).socket = c.socket := by
  unfold AppConnection.received
  split <;> rfl

@[simp] theorem received_port (package : MIPTPPackage) (c : AppConnection) :
    (c.received package).port = c.port := by
  unfold AppConnection.received
  split <;> rfl

/-- what the loop of `MIPTPAppController_handle_mipd_package` does to a connection that cannot fail -/
def dispatched (package : MIPTPPackage) (c : AppConnection) : AppConnection :=
  if c.port = package.miptpHeader.port then c.received package else c

theorem WellFormed.dispatched {c : AppConnection} (h : c.WellFormed limit) (package : MIPTPPackage) :
    (c.dispatched package).WellFormed limit := by
  unfold AppConnection.dispatched
  split
  · exact h.received package
  · exact h

@[simp] theorem dispatched_socket (package : MIPTPPackage) (c : AppConnection) :
    (c.dispatched package).socket = c.socket := by
  unfold AppConnection.dispatched
  split
  · exact received_socket package c
  · rfl

@[simp] theorem dispatched_port (package : MIPTPPackage) (c : AppConnection) :
    (c.dispatched package).port = c.port := by
  unfold AppConnection.dispatched
  split
  · exact received_port package c
  · rfl

end AppConnection

end MipStack

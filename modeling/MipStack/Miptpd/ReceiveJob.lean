import MipStack.Miptpd.SendJob
import MipStack.Library.Bytes
import MipStack.Library.Reach

/-!
# The receiver of a transfer (`miptp_receive_job.c`), and a sender and a receiver together

* `MIPTPReceiveJob`        the status machine and the two byte counters;
* `MIPTPReceiveJob.Idle`   the state in which a job is created: no status, both counters 0;
* `Idle.receivePackage`, `Idle.nextPackages`   a job that is idle stays so and sends nothing;
* `TransferStep`           sender and receiver over a channel that loses, repeats and reorders;
* `result_eq_data_iff`     **in every reachable state the result is the data of the sender if and
                           only if there is none**, because the receiver is complete from the start.
-/

namespace MipStack
open Library

/-! ## the job -/

/-- `calloc` leaves the status 0, which is none of the three values of the enumeration -/
inductive MIPTPReceiveJobStatus
  | zero
  | RJOB_WAITING_FOR_CONNECTION
  | RJOB_WAITING_FOR_PACKAGE
  | RJOB_ACK_READY
  deriving DecidableEq, Repr

/-- `buffer` holds 65535 bytes -/
structure MIPTPReceiveJob where
  port : BitVec 14
  sender : MIPAddress
  status : MIPTPReceiveJobStatus
  timeout : ℕ
  lastPackageTime : ℕ
  buffer : List UInt8
  dataReceived : UInt16
  dataSize : UInt16
  requestNr : UInt16
  deriving DecidableEq

namespace MIPTPReceiveJob

def create (port : BitVec 14) (timeout : ℕ) : MIPTPReceiveJob where
  port := port
  sender := 0
  status := .zero
  timeout := timeout
  lastPackageTime := 0
  buffer := List.replicate MAX_DATA_SIZE_BYTES 0
  dataReceived := 0
  dataSize := 0
  requestNr := 0

def isComplete (job : MIPTPReceiveJob) : Bool := job.dataReceived = job.dataSize

/-- the first two bytes of the data -/
def getDataSizeFromPackage (package : MIPTPPackage) : UInt16 :=
  UInt16.ofNat (ofLe (package.data.takeD 2 0))

/-- return code and job: the bytes are copied, the counter is not moved, and the function falls
through to its error label -/
def appendData (job : MIPTPReceiveJob) (data : List UInt8) : ℤ × MIPTPReceiveJob :=
  let pos := job.dataReceived.toNat
  (-1, { job with buffer := job.buffer.take pos ++ data ++ job.buffer.drop (pos + data.length) })

def receivePackage (job : MIPTPReceiveJob) (sender : MIPAddress) (package : MIPTPPackage) :
    ℤ × MIPTPReceiveJob :=
  if job.status = .RJOB_WAITING_FOR_CONNECTION then
    (1, { job with
      sender := sender
      dataSize := getDataSizeFromPackage package
      status := .RJOB_WAITING_FOR_PACKAGE })
  else if job.isComplete then (1, job)
  else
    let (rc, job') := job.appendData package.data
    if rc = -1 then (-1, job') else (1, job')

def nextPackage (job : MIPTPReceiveJob) (sequenceNr : UInt16) : Option MIPTPPackage :=
  MIPTPPackage.create job.port sequenceNr none 0

/-- `none` for `NULL`; the package itself is returned where its callers take a queue from -/
def nextPackages (job : MIPTPReceiveJob) :
    Except Fault (Option (List MIPTPPackage) × MIPTPReceiveJob) :=
  if job.status ≠ .RJOB_ACK_READY then .ok (some [], job)
  else match job.nextPackage job.requestNr with
    | none => .ok (none, job)
    | some _ => .error .outOfBounds

/-- as many bytes of the buffer as are counted -/
def resultData (job : MIPTPReceiveJob) : JobData :=
  ⟨job.buffer.takeD job.dataReceived.toNat 0, by
    have := job.dataReceived.toNat_lt
    rw [List.takeD_length]
    show job.dataReceived.toNat ≤ 65535
    omega⟩

/-- `none` for a job that is not complete -/
def result (job : MIPTPReceiveJob) : Option ClientPackage :=
  if job.isComplete then some (ClientPackage.create 0 0 .MIPTP_SENDER job.resultData) else none

/-! ## an idle job stays idle -/

def Idle (job : MIPTPReceiveJob) : Prop :=
  job.status = .zero ∧ job.dataReceived = 0 ∧ job.dataSize = 0

theorem idle_create (port : BitVec 14) (timeout : ℕ) : (create port timeout).Idle :=
  ⟨rfl, rfl, rfl⟩

theorem Idle.isComplete {job : MIPTPReceiveJob} (h : job.Idle) : job.isComplete = true := by
  rw [MIPTPReceiveJob.isComplete, h.2.1, h.2.2]
  rfl

theorem Idle.receivePackage {job : MIPTPReceiveJob} (h : job.Idle) (sender : MIPAddress)
    (package : MIPTPPackage) : job.receivePackage sender package = (1, job) := by
  have hstatus : job.status ≠ .RJOB_WAITING_FOR_CONNECTION := by
    rw [h.1]
    decide
  rw [MIPTPReceiveJob.receivePackage, if_neg hstatus, if_pos h.isComplete]

theorem Idle.nextPackages {job : MIPTPReceiveJob} (h : job.Idle) :
    job.nextPackages = .ok (some [], job) := by
  have hstatus : job.status ≠ .RJOB_ACK_READY := by
    rw [h.1]
    decide
  rw [MIPTPReceiveJob.nextPackages, if_pos hstatus]

theorem Idle.result {job : MIPTPReceiveJob} (h : job.Idle) :
    job.result = some (ClientPackage.create 0 0 .MIPTP_SENDER JobData.empty) := by
  have hdata : job.resultData = JobData.empty := by
    apply Subtype.ext
    show job.buffer.takeD job.dataReceived.toNat 0 = []
    rw [h.2.1]
    rfl
  rw [MIPTPReceiveJob.result, if_pos h.isComplete, hdata]

end MIPTPReceiveJob

/-! ## a transfer -/

/-- everything that was ever sent may still arrive, any number of times -/
structure Transfer where
  sendJob : MIPTPSendJob
  receiveJob : MIPTPReceiveJob
  toReceiver : List MIPTPPackage
  toSender : List MIPTPPackage

def Transfer.Starts (port : BitVec 14) (data : JobData) (s : Transfer) : Prop :=
  ∃ destination sendTimeout receiveTimeout now,
    s = ⟨MIPTPSendJob.create port destination data sendTimeout now,
      MIPTPReceiveJob.create port receiveTimeout, [], []⟩

inductive TransferStep : Transfer → Transfer → Prop
  | send (s : Transfer) :
      TransferStep s { s with toReceiver := s.toReceiver ++ s.sendJob.nextPackages }
  | deliver {s : Transfer} {p : MIPTPPackage} (sender : MIPAddress) (h : p ∈ s.toReceiver) :
      TransferStep s { s with receiveJob := (s.receiveJob.receivePackage sender p).2 }
  | acknowledge {s : Transfer} {packages : List MIPTPPackage} {job : MIPTPReceiveJob}
      (h : s.receiveJob.nextPackages = .ok (some packages, job)) :
      TransferStep s { s with toSender := s.toSender ++ packages, receiveJob := job }
  | confirm {s : Transfer} {p : MIPTPPackage} (h : p ∈ s.toSender) :
      TransferStep s { s with sendJob := s.sendJob.receivePackage p }

/-- the receiver stays idle, the data of the sender stays as it is, and no acknowledgement is sent -/
structure Silent (data : JobData) (s : Transfer) : Prop where
  idle : s.receiveJob.Idle
  data_eq : s.sendJob.data = data
  no_ack : s.toSender = []

theorem Silent.step {data : JobData} {s s' : Transfer} (hs : Silent data s)
    (h : TransferStep s s') : Silent data s' := by
  cases h with
  | send => exact ⟨hs.idle, hs.data_eq, hs.no_ack⟩
  | deliver sender h =>
    refine ⟨?_, hs.data_eq, hs.no_ack⟩
    show (s.receiveJob.receivePackage _ _).2.Idle
    rw [hs.idle.receivePackage]
    exact hs.idle
  | acknowledge h =>
    rw [hs.idle.nextPackages] at h
    obtain ⟨hp, rfl⟩ := Prod.mk.inj (Except.ok.inj h)
    obtain rfl := Option.some.inj hp
    exact ⟨hs.idle, hs.data_eq, by rw [hs.no_ack]; rfl⟩
  | confirm h =>
    rw [hs.no_ack] at h
    cases h

theorem silent_of_reach {port : BitVec 14} {data : JobData} {s : Transfer}
    (h : Reach (Transfer.Starts port data) TransferStep s) : Silent data s := by
  refine h.invariant (fun s h0 => ?_) fun _ _ _ hs hstep => hs.step hstep
  obtain ⟨destination, sendTimeout, receiveTimeout, now, rfl⟩ := h0
  exact ⟨MIPTPReceiveJob.idle_create port receiveTimeout, rfl, rfl⟩

/-- **What a completed transfer delivers.**  In every reachable state the receiver is complete; its
result is the data of the sender if and only if that is empty. -/
theorem result_eq_data_iff (port : BitVec 14) (data : JobData) {s : Transfer}
    (h : Reach (Transfer.Starts port data) TransferStep s) :
    (s.receiveJob.isComplete = true → ∃ package, s.receiveJob.result = some package ∧
      package.data = data) ↔ data.1 = [] := by
  have hidle := (silent_of_reach h).idle
  constructor
  · intro hresult
    obtain ⟨package, hp, hdata⟩ := hresult hidle.isComplete
    rw [hidle.result] at hp
    rw [← hdata, ← Option.some.inj hp]
    rfl
  · intro hempty _
    exact ⟨_, hidle.result, Subtype.ext hempty.symm⟩

def oneByte : JobData := ⟨[65], by decide⟩

def oneByteTransfer : Transfer :=
  ⟨MIPTPSendJob.create 10 110 oneByte 1000 0, MIPTPReceiveJob.create 10 1000, [], []⟩

theorem reach_oneByte : Reach (Transfer.Starts 10 oneByte) TransferStep oneByteTransfer :=
  Reach.start ⟨110, 1000, 1000, 0, rfl⟩

/-- a package arrives twice, and between that the receiver is asked for packages -/
theorem exists_delivered {port : BitVec 14} {data : JobData} {s : Transfer} {p : MIPTPPackage}
    (h : Reach (Transfer.Starts port data) TransferStep s) (hp : p ∈ s.toReceiver) :
    ∃ s', Reach (Transfer.Starts port data) TransferStep s' ∧ ∃ job,
      (s.receiveJob.receivePackage 110 p).2.nextPackages = .ok (some [], job) ∧
        s'.receiveJob = (job.receivePackage 110 p).2 := by
  have h₁ := Reach.next h (TransferStep.deliver 110 hp)
  have hempty := (silent_of_reach h₁).idle.nextPackages
  have h₂ := Reach.next h₁ (TransferStep.acknowledge hempty)
  exact ⟨_, Reach.next h₂ (TransferStep.deliver 110 hp), _, hempty, rfl⟩

theorem mem_nextPackages_oneByte : ⟨⟨3, 10, 0⟩, [65]⟩ ∈ oneByteTransfer.sendJob.nextPackages := by
  have hfirst : oneByteTransfer.sendJob.nextPackage 0 = some ⟨⟨3, 10, 0⟩, [65]⟩ := by
    decide +kernel
  show _ ∈ oneByteTransfer.sendJob.windowPackages 0 (10 + 1)
  rw [MIPTPSendJob.windowPackages, hfirst]
  exact List.mem_cons_self

theorem result_eq_data_oneByte : ∃ (s s' : Transfer) (p : MIPTPPackage) (job : MIPTPReceiveJob),
    p ∈ s.toReceiver ∧ p.data = oneByte.1 ∧
    (s.receiveJob.receivePackage 110 p).2.nextPackages = .ok (some [], job) ∧
    s'.receiveJob = (job.receivePackage 110 p).2 ∧
    ((s'.receiveJob.isComplete = true → ∃ package, s'.receiveJob.result = some package ∧
      package.data = oneByte) ↔ oneByte.1 = []) := by
  obtain ⟨s, h, hp⟩ : ∃ s, Reach (Transfer.Starts 10 oneByte) TransferStep s ∧
      ⟨⟨3, 10, 0⟩, [65]⟩ ∈ s.toReceiver := by
    exact ⟨_, Reach.next reach_oneByte (TransferStep.send oneByteTransfer),
      List.mem_append_right _ mem_nextPackages_oneByte⟩
  obtain ⟨s', h', job, hempty, hjob⟩ := exists_delivered h hp
  exact ⟨s, s', _, job, hp, rfl, hempty, hjob, result_eq_data_iff 10 oneByte h'⟩

/-- **A transfer of one byte is complete without it**, from the start on. -/
theorem complete_without_data : ∃ s, Reach (Transfer.Starts 10 oneByte) TransferStep s ∧
    s.receiveJob.isComplete = true ∧ ∃ package, s.receiveJob.result = some package ∧
      package.data ≠ oneByte := by
  have hidle := (silent_of_reach reach_oneByte).idle
  exact ⟨oneByteTransfer, reach_oneByte, hidle.isComplete, _, hidle.result, by decide⟩

end MipStack

import MipStack.Miptpd.Package
import MipStack.Commons.ClientPackage

/-!
# The sender of a transfer (`sliding_window.c`, `miptp_send_job.c`)

* `SlidingWindow.update`     moves the window to a higher sequence number, in 16 bits;
* `MIPTPSendJob.nextPackages`   the packages of the window, up to the first missing one;
* `MIPTPSendJob.isComplete`  the base of the window against the number of packages less one, unsigned;
* `isComplete_receiveAll`    **when a job is complete**: it has one package, or some package numbered
                             at least the last one has come in;
* `complete_iff_acknowledged`   exactly when this agrees with the acknowledgement of all packages;
* `empty_job_never_complete` a job without data, on which they differ.
-/

namespace MipStack

/-! ## the window -/

structure SlidingWindow where
  windowSize : UInt16
  sequenceBase : UInt16
  sequenceMax : UInt16
  deriving DecidableEq, Repr

namespace SlidingWindow

def create (sequenceBase windowSize : UInt16) : SlidingWindow :=
  ⟨windowSize, sequenceBase, windowSize + 1⟩

def update (window : SlidingWindow) (sequenceNr : UInt16) : SlidingWindow :=
  if sequenceNr > window.sequenceBase then
    { window with
      sequenceMax := (window.sequenceMax - window.sequenceBase) + sequenceNr
      sequenceBase := sequenceNr }
  else window

theorem le_sequenceBase_update (w : SlidingWindow) (s : UInt16) (m : ℕ) :
    m ≤ (w.update s).sequenceBase.toNat ↔ m ≤ w.sequenceBase.toNat ∨ m ≤ s.toNat := by
  unfold update
  split
  · rename_i h
    have hlt : w.sequenceBase.toNat < s.toNat := UInt16.lt_iff_toNat_lt.mp h
    show m ≤ s.toNat ↔ _
    omega
  · rename_i h
    have hge : s.toNat ≤ w.sequenceBase.toNat :=
      Nat.le_of_not_lt fun hlt => h (UInt16.lt_iff_toNat_lt.mpr hlt)
    omega

theorem sequenceBase_update (w : SlidingWindow) (s : UInt16) :
    (w.update s).sequenceBase.toNat = max w.sequenceBase.toNat s.toNat := by
  refine eq_of_forall_le_iff fun m => ?_
  rw [le_sequenceBase_update, le_max_iff]

/-- the window stays as wide as it was, in 16 bits -/
theorem width_update (w : SlidingWindow) (s : UInt16) :
    (w.update s).sequenceMax - (w.update s).sequenceBase = w.sequenceMax - w.sequenceBase := by
  unfold update
  split
  · exact UInt16.add_sub_cancel _ _
  · rfl

theorem le_sequenceBase_foldl (numbers : List UInt16) (w : SlidingWindow) (m : ℕ) :
    m ≤ (numbers.foldl update w).sequenceBase.toNat ↔
      m ≤ w.sequenceBase.toNat ∨ ∃ s ∈ numbers, m ≤ s.toNat := by
  induction numbers generalizing w with
  | nil => simp
  | cons s numbers ih =>
    rw [List.foldl_cons, ih, le_sequenceBase_update, or_assoc, List.exists_mem_cons_iff]

end SlidingWindow

/-! ## the job -/

def WINDOW_SIZE : UInt16 := 10
def MAX_DATA_BATCH_SIZE_BYTES : ℕ := 1492

structure MIPTPSendJob where
  port : BitVec 14
  destination : MIPAddress
  timeout : ℕ
  lastAck : ℕ
  data : JobData
  slidingWindow : SlidingWindow
  deriving DecidableEq

namespace MIPTPSendJob

def create (port : BitVec 14) (destination : MIPAddress) (data : JobData) (timeout : ℕ) (now : ℤ) :
    MIPTPSendJob :=
  ⟨port, destination, timeout, toUnsigned now, data, SlidingWindow.create 0 WINDOW_SIZE⟩

/-- the index is computed in 16 bits; it may be the end of the data -/
def nextPackage (job : MIPTPSendJob) (sequenceNr : UInt16) : Option MIPTPPackage :=
  let period := MAX_DATA_BATCH_SIZE_BYTES
  let dataSize := job.data.1.length
  let index := sequenceNr.toNat * period % 2 ^ 16
  if index > dataSize then none
  else
    let limit := if dataSize < index + period then dataSize else index + period
    MIPTPPackage.create job.port sequenceNr (some (job.data.1.drop index)) (limit - index)

/-- the loop of `MIPTPSendJob_next_packages` from `i` on, over `n` more numbers -/
def windowPackages (job : MIPTPSendJob) : UInt16 → ℕ → List MIPTPPackage
  | _, 0 => []
  | i, n + 1 =>
    match job.nextPackage i with
    | none => []
    | some package => package :: windowPackages job (i + 1) n

def nextPackages (job : MIPTPSendJob) : List MIPTPPackage :=
  job.windowPackages job.slidingWindow.sequenceBase
    (job.slidingWindow.sequenceMax.toNat - job.slidingWindow.sequenceBase.toNat)

/-- any package moves the window; always 1 -/
def receivePackage (job : MIPTPSendJob) (package : MIPTPPackage) : MIPTPSendJob :=
  { job with slidingWindow := job.slidingWindow.update package.miptpHeader.PSN }

theorem exists_of_mem_windowPackages {job : MIPTPSendJob} {p : MIPTPPackage} (i : UInt16) (n : ℕ)
    (h : p ∈ job.windowPackages i n) : ∃ s, job.nextPackage s = some p := by
  induction n generalizing i with
  | zero => cases h
  | succ n ih =>
    unfold windowPackages at h
    split at h
    · cases h
    · rename_i package hpackage
      rcases List.mem_cons.mp h with rfl | h
      · exact ⟨i, hpackage⟩
      · exact ih (i + 1) h

theorem length_of_mem_nextPackages {job : MIPTPSendJob} {p : MIPTPPackage}
    (h : p ∈ job.nextPackages) :
    p.data.length ≤ MAX_DATA_BATCH_SIZE_BYTES ∧ p.data.length ≤ job.data.1.length := by
  obtain ⟨s, hs⟩ := exists_of_mem_windowPackages _ _ h
  unfold nextPackage at hs
  dsimp only at hs
  split at hs
  · cases hs
  · obtain ⟨hlen, hmax⟩ := MIPTPPackage.length_of_create hs
    rw [hlen]
    refine ⟨hmax, ?_⟩
    split <;> omega

def numPackages (job : MIPTPSendJob) : ℕ :=
  job.data.1.length / MAX_DATA_BATCH_SIZE_BYTES +
    if job.data.1.length % MAX_DATA_BATCH_SIZE_BYTES ≠ 0 then 1 else 0

/-- the subtraction and the comparison are those of `unsigned int` -/
def isComplete (job : MIPTPSendJob) : Bool :=
  job.slidingWindow.sequenceBase.toUInt32 ≥ UInt32.ofNat job.numPackages - 1

/-- `none` for a job that is not complete; the terminating zero is part of the answer -/
def result (job : MIPTPSendJob) : Option ClientPackage :=
  if job.isComplete then
    some (ClientPackage.create (UInt16.ofNat job.port.toNat) job.destination .MIPTP_RECEIVER
      ⟨[79, 75, 0], by decide⟩)
  else none

/-- the subtraction is that of `unsigned long` -/
def isTimedOut (job : MIPTPSendJob) (now : ℤ) : Bool :=
  toUnsigned (toUnsigned now - job.lastAck) > job.timeout

/-! ## completion -/

theorem numPackages_le (job : MIPTPSendJob) : job.numPackages ≤ 44 := by
  have hlen : job.data.1.length ≤ 65535 := job.data.2
  unfold numPackages MAX_DATA_BATCH_SIZE_BYTES
  split <;> omega

theorem numPackages_eq (job : MIPTPSendJob) :
    job.numPackages = (job.data.1.length + 1491) / 1492 := by
  unfold numPackages MAX_DATA_BATCH_SIZE_BYTES
  split <;> omega

/-- without packages the subtraction wraps around, and the job is never complete -/
theorem isComplete_iff (job : MIPTPSendJob) :
    job.isComplete = true ↔
      0 < job.numPackages ∧ job.numPackages - 1 ≤ job.slidingWindow.sequenceBase.toNat := by
  have hle := job.numPackages_le
  have hbase := job.slidingWindow.sequenceBase.toNat_lt
  have hbase32 : job.slidingWindow.sequenceBase.toUInt32.toNat
      = job.slidingWindow.sequenceBase.toNat := UInt16.toNat_toUInt32 _
  have hnum : (UInt32.ofNat job.numPackages).toNat = job.numPackages := by
    rw [UInt32.toNat_ofNat']
    exact Nat.mod_eq_of_lt (by omega)
  have hone : (1 : UInt32).toNat = 1 := rfl
  unfold isComplete
  rw [decide_eq_true_eq, ge_iff_le, UInt32.le_iff_toNat_le, hbase32, UInt32.toNat_sub, hnum, hone]
  omega

def receiveAll (job : MIPTPSendJob) (packages : List MIPTPPackage) : MIPTPSendJob :=
  packages.foldl receivePackage job

theorem numPackages_receiveAll (job : MIPTPSendJob) (packages : List MIPTPPackage) :
    (job.receiveAll packages).numPackages = job.numPackages := by
  induction packages generalizing job with
  | nil => rfl
  | cons p packages ih => exact ih (job.receivePackage p)

/-- the window of a job is that of the numbers it has received -/
theorem slidingWindow_receiveAll (job : MIPTPSendJob) (packages : List MIPTPPackage) :
    (job.receiveAll packages).slidingWindow
      = (packages.map fun p => p.miptpHeader.PSN).foldl SlidingWindow.update job.slidingWindow := by
  induction packages generalizing job with
  | nil => rfl
  | cons p packages ih => exact ih (job.receivePackage p)

theorem le_base_receiveAll (job : MIPTPSendJob) (packages : List MIPTPPackage) (m : ℕ) :
    m ≤ (job.receiveAll packages).slidingWindow.sequenceBase.toNat ↔
      m ≤ job.slidingWindow.sequenceBase.toNat ∨
        ∃ p ∈ packages, m ≤ p.miptpHeader.PSN.toNat := by
  rw [slidingWindow_receiveAll, SlidingWindow.le_sequenceBase_foldl]
  simp only [List.mem_map, exists_exists_and_eq_and]

/-- **When a job is complete**: it has data, and the number of its last package is 0 or has been
reached by some package received. -/
theorem isComplete_receiveAll (port : BitVec 14) (destination : MIPAddress) (data : JobData)
    (timeout : ℕ) (now : ℤ) (packages : List MIPTPPackage) :
    ((create port destination data timeout now).receiveAll packages).isComplete = true ↔
      0 < (create port destination data timeout now).numPackages ∧
        ((create port destination data timeout now).numPackages = 1 ∨
          ∃ p ∈ packages, (create port destination data timeout now).numPackages - 1
            ≤ p.miptpHeader.PSN.toNat) := by
  have hbase : (create port destination data timeout now).slidingWindow.sequenceBase.toNat = 0 := rfl
  rw [isComplete_iff, numPackages_receiveAll, le_base_receiveAll, hbase]
  refine and_congr_right fun hpos => or_congr ?_ Iff.rfl
  omega

/-! ## acknowledgement -/

def AllAcknowledged (data : JobData) (packages : List MIPTPPackage) : Prop :=
  (data.1.length + 1491) / 1492 = 0 ∨
    ∃ p ∈ packages, p.IsAck ∧ (data.1.length + 1491) / 1492 - 1 ≤ p.miptpHeader.PSN.toNat

/-- **Where completion and acknowledgement agree.**  A job with one package must have received an
acknowledgement, for it is complete from the start; a job with more packages must not have been
moved to its last package by packages with data alone; and there must be a package at all. -/
theorem complete_iff_acknowledged (port : BitVec 14) (destination : MIPAddress) (data : JobData)
    (timeout : ℕ) (now : ℤ) (packages : List MIPTPPackage) :
    (((create port destination data timeout now).receiveAll packages).isComplete = true ↔
        AllAcknowledged data packages) ↔
      ((data.1.length + 1491) / 1492 = 1 ∧ ∃ p ∈ packages, p.IsAck) ∨
      (2 ≤ (data.1.length + 1491) / 1492 ∧
        ((∃ p ∈ packages, ¬ p.IsAck ∧
            (data.1.length + 1491) / 1492 - 1 ≤ p.miptpHeader.PSN.toNat) →
          ∃ p ∈ packages, p.IsAck ∧
            (data.1.length + 1491) / 1492 - 1 ≤ p.miptpHeader.PSN.toNat)) := by
  rw [isComplete_receiveAll, numPackages_eq, AllAcknowledged]
  show (0 < (data.1.length + 1491) / 1492 ∧ ((data.1.length + 1491) / 1492 = 1 ∨ ∃ p ∈ packages,
    (data.1.length + 1491) / 1492 - 1 ≤ p.miptpHeader.PSN.toNat) ↔ _) ↔ _
  generalize (data.1.length + 1491) / 1492 = N
  rcases Nat.lt_or_ge N 2 with hlt | hge
  · obtain rfl | rfl : N = 0 ∨ N = 1 := by omega
    · simp
    · simp
  · have h0 : N ≠ 0 := by omega
    have h1 : N ≠ 1 := by omega
    have hpos : 0 < N := by omega
    simp only [h0, h1, hpos, hge, true_and, false_or, false_and]
    -- a package that reaches the last one is an acknowledgement or carries data
    constructor
    · intro h h'
      obtain ⟨p, hp, _, hle⟩ := h'
      exact h.mp ⟨p, hp, hle⟩
    · intro h
      refine ⟨fun ⟨p, hp, hle⟩ => ?_, fun ⟨p, hp, _, hle⟩ => ⟨p, hp, hle⟩⟩
      by_cases hack : p.IsAck
      · exact ⟨p, hp, hack, hle⟩
      · exact h ⟨p, hp, hack, hle⟩

/-- **A job without data never completes**, although there is nothing to acknowledge; a job with one
package is complete before anything has come in. -/
theorem empty_job_never_complete :
    ¬ ∀ (port : BitVec 14) (destination : MIPAddress) (data : JobData) (timeout : ℕ) (now : ℤ)
      (packages : List MIPTPPackage),
      ((create port destination data timeout now).receiveAll packages).isComplete = true ↔
        AllAcknowledged data packages := by
  intro h
  have hcomplete := (h 10 110 ⟨[], by decide⟩ 1000 0 []).mpr (Or.inl rfl)
  exact absurd hcomplete (by decide)

end MIPTPSendJob

end MipStack

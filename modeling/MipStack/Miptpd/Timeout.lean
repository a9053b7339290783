import MipStack.Miptpd.SendJob
import MipStack.Library.Reach

/-!
# When a transfer times out (`MIPTPSendJob_is_timed_out`)

* `Milli`              a reading of the clock;
* `TimedJob`           a job, with the last reading and the time of the last progress;
* `ProgressStep`       time goes by and packages come in, the clock never goes back, and the window is
                       advanced at least once in every `timeout` milliseconds;
* `isTimedOut_iff`     the time is measured from the creation of the job;
* `never_times_out_iff`   **a run with progress never times out if and only if it is over `timeout`
                          milliseconds after the creation**: no package sets the time anew.
-/

namespace MipStack
open Library

/-- `get_now_milli` returns a `long` -/
abbrev Milli := { t : ℤ // -2 ^ 63 ≤ t ∧ t < 2 ^ 63 }

theorem toUnsigned_sub {t c : Milli} (h : c.1 ≤ t.1) :
    (toUnsigned (toUnsigned t.1 - toUnsigned c.1) : ℤ) = t.1 - c.1 := by
  obtain ⟨t, ht⟩ := t
  obtain ⟨c, hc⟩ := c
  have hle : c ≤ t := h
  show (toUnsigned (toUnsigned t - toUnsigned c) : ℤ) = t - c
  unfold toUnsigned
  omega

/-- **A job is timed out by the time that has passed since its last acknowledgement was noted.** -/
theorem MIPTPSendJob.isTimedOut_iff {job : MIPTPSendJob} {created t : Milli}
    (hjob : job.lastAck = toUnsigned created.1) (h : created.1 ≤ t.1) :
    job.isTimedOut t.1 = true ↔ job.timeout < t.1 - created.1 := by
  rw [isTimedOut, decide_eq_true_eq, hjob, ← toUnsigned_sub h]
  exact Int.ofNat_lt.symm

/-! ## runs with progress -/

inductive TransferEvent
  /-- a moment at which nothing comes in -/
  | tick (time : Milli)
  | receive (time : Milli) (package : MIPTPPackage)

def TransferEvent.time : TransferEvent → Milli
  | tick time => time
  | receive time _ => time

structure TimedJob where
  job : MIPTPSendJob
  now : Milli
  /-- when the window was last advanced, the creation before that -/
  lastProgress : Milli

namespace TimedJob

def start (port : BitVec 14) (destination : MIPAddress) (data : JobData) (timeout : ℕ)
    (created : Milli) : TimedJob :=
  ⟨MIPTPSendJob.create port destination data timeout created.1, created, created⟩

def after (s : TimedJob) : TransferEvent → TimedJob
  | .tick time => { s with now := time }
  | .receive time package =>
    ⟨s.job.receivePackage package, time,
      if package.miptpHeader.PSN > s.job.slidingWindow.sequenceBase then time else s.lastProgress⟩

end TimedJob

/-- no moment is later than `timeout` after the last progress -/
def ProgressStep (s : TimedJob) (e : TransferEvent) (s' : TimedJob) : Prop :=
  s.now.1 ≤ e.time.1 ∧ e.time.1 - s.lastProgress.1 ≤ s.job.timeout ∧ s' = s.after e

def InTime (s : TimedJob) (e : TransferEvent) (s' : TimedJob) : Prop :=
  s.job.isTimedOut e.time.1 = false ∧ s'.job.isTimedOut e.time.1 = false

def CreatedWithin (created : Milli) (timeout : ℕ) (_ : TimedJob) (e : TransferEvent) : Prop :=
  e.time.1 - created.1 ≤ timeout

instance (created : Milli) (timeout : ℕ) (s : TimedJob) (e : TransferEvent) :
    Decidable (CreatedWithin created timeout s e) :=
  inferInstanceAs (Decidable (e.time.1 - created.1 ≤ timeout))

/-- what no event changes -/
structure TimedJob.Since (created : Milli) (timeout : ℕ) (s : TimedJob) : Prop where
  lastAck : s.job.lastAck = toUnsigned created.1
  timeout : s.job.timeout = timeout
  now : created.1 ≤ s.now.1

namespace TimedJob.Since
variable {created : Milli} {timeout : ℕ} {s s' : TimedJob} {e : TransferEvent}

theorem step (hs : s.Since created timeout) (h : ProgressStep s e s') :
    s'.Since created timeout := by
  obtain ⟨hnow, _, rfl⟩ := h
  cases e with
  | tick time => exact ⟨hs.lastAck, hs.timeout, hs.now.trans hnow⟩
  | receive time package => exact ⟨hs.lastAck, hs.timeout, hs.now.trans hnow⟩

theorem isTimedOut_eq_false_iff (hs : s.Since created timeout) {t : Milli} (h : created.1 ≤ t.1) :
    s.job.isTimedOut t.1 = false ↔ t.1 - created.1 ≤ timeout := by
  rw [Bool.eq_false_iff, ne_eq, MIPTPSendJob.isTimedOut_iff hs.lastAck h, hs.timeout, not_lt]

theorem inTime_iff (hs : s.Since created timeout) (h : ProgressStep s e s') :
    InTime s e s' ↔ CreatedWithin created timeout s e := by
  have htime : created.1 ≤ e.time.1 := hs.now.trans h.1
  rw [InTime, hs.isTimedOut_eq_false_iff htime, (hs.step h).isTimedOut_eq_false_iff htime, and_self]
  rfl

end TimedJob.Since

/-- **When a transfer with progress never times out.** -/
theorem never_times_out_iff (port : BitVec 14) (destination : MIPAddress) (data : JobData)
    (timeout : ℕ) (created : Milli) {tr : List (TransferEvent × TimedJob)}
    (hr : Run ProgressStep (TimedJob.start port destination data timeout created) tr) :
    Always InTime (TimedJob.start port destination data timeout created) tr ↔
      Meets (CreatedWithin created timeout)
        (TimedJob.start port destination data timeout created) tr := by
  refine Run.always_iff (I := fun s => s.Since created timeout) (fun s e s' hs _ h => hs.step h)
    (fun s e s' hs h => hs.inTime_iff h) hr ⟨rfl, rfl, le_rfl⟩

/-- three packages of data, to be sent with a timeout of a second -/
def threePackages : TimedJob :=
  TimedJob.start 10 110 ⟨List.replicate 4476 65, by rw [List.length_replicate]; decide⟩ 1000
    ⟨0, by decide⟩

/-- the second package is confirmed after 600 ms -/
def confirmed : TransferEvent := .receive ⟨600, by decide⟩ ⟨⟨0, 10, 1⟩, []⟩

theorem run_confirmed (t : Milli) (h : 600 ≤ t.1 ∧ t.1 ≤ 1600) : Run ProgressStep threePackages
    [(confirmed, threePackages.after confirmed),
      (.tick t, (threePackages.after confirmed).after (.tick t))] := by
  have hprogress : (threePackages.after confirmed).lastProgress = ⟨600, by decide⟩ := rfl
  refine Run.cons ⟨by decide, by decide, rfl⟩ (Run.cons ⟨h.1, ?_, rfl⟩ (Run.nil _))
  rw [hprogress]
  show t.1 - 600 ≤ 1000
  omega

theorem never_times_out_second : ∃ tr, Run ProgressStep threePackages tr ∧ tr.length = 2 ∧
    Always InTime threePackages tr :=
  have hr := run_confirmed ⟨1000, by decide⟩ (by decide)
  ⟨_, hr, rfl, (never_times_out_iff 10 110 _ 1000 _ hr).mpr ⟨by decide, by decide, trivial⟩⟩

/-- **A transfer times out although it makes progress**: 1200 ms after its creation, 600 ms after the
last acknowledgement. -/
theorem times_out_with_progress :
    ¬ ∀ (port : BitVec 14) (destination : MIPAddress) (data : JobData) (timeout : ℕ)
      (created : Milli) (tr : List (TransferEvent × TimedJob)),
      Run ProgressStep (TimedJob.start port destination data timeout created) tr →
      Always InTime (TimedJob.start port destination data timeout created) tr := by
  intro h
  obtain ⟨_, hlate, _⟩ := h 10 110 _ 1000 _ _ (run_confirmed ⟨1200, by decide⟩ (by decide))
  exact absurd hlate.1 (by decide)

end MipStack

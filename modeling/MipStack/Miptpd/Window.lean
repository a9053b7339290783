import MipStack.Miptpd.Segmentation
import MipStack.Library.Reach
import Mathlib.Data.List.TakeWhile

/-!
# The sliding window (`sliding_window.c`, `MIPTPSendJob_next_packages`)

* `SlidingWindow.received`   the window after any sequence of updates;
* `sequenceBase_received`, `sequenceMax_received`   its base is the maximum, its end keeps the
                           distance that it had from the first base, in 16 bits;
* `follows_iff`            **the end is the base and the window size and one exactly for the first
                           base 0 and numbers that leave room below 65536**;
* `window_collapses`       the number 65530;
* `nextPackages_of_stops`, `segment_mem_nextPackages`   the packages of a window that ends with the
                           data, and one too many in the others;
* `SendStep`               calls of a job and acknowledgements of packages it has sent;
* `KeepsWindow`, `WindowFits`   what is expected of a call, and the condition on the job before it;
* `calls_keep_window_iff`   **in any run the calls are as expected exactly where the condition
                           holds**;
* `first_window_exceeds`   11 packages in the first window.
-/

namespace MipStack
open Library

namespace SlidingWindow

/-! ## the numbers of the window -/

def received (sequenceBase windowSize : UInt16) (numbers : List UInt16) : SlidingWindow :=
  numbers.foldl update (create sequenceBase windowSize)

theorem sequenceBase_foldl (numbers : List UInt16) (win : SlidingWindow) :
    (numbers.foldl update win).sequenceBase.toNat
      = (numbers.map UInt16.toNat).foldl max win.sequenceBase.toNat := by
  induction numbers generalizing win with
  | nil => rfl
  | cons s numbers ih =>
    rw [List.foldl_cons, ih, sequenceBase_update, List.map_cons, List.foldl_cons]

theorem width_foldl (numbers : List UInt16) (win : SlidingWindow) :
    (numbers.foldl update win).sequenceMax - (numbers.foldl update win).sequenceBase
      = win.sequenceMax - win.sequenceBase := by
  induction numbers generalizing win with
  | nil => rfl
  | cons s numbers ih => rw [List.foldl_cons, ih, width_update]

/-- **The base is the maximum** of the first base and all numbers. -/
theorem sequenceBase_received (b w : UInt16) (numbers : List UInt16) :
    (received b w numbers).sequenceBase.toNat = (numbers.map UInt16.toNat).foldl max b.toNat :=
  sequenceBase_foldl numbers (create b w)

theorem le_sequenceBase_received (b w : UInt16) (numbers : List UInt16) (m : ℕ) :
    m ≤ (received b w numbers).sequenceBase.toNat ↔ m ≤ b.toNat ∨ ∃ s ∈ numbers, m ≤ s.toNat :=
  le_sequenceBase_foldl numbers (create b w) m

theorem sequenceMax_received (b w : UInt16) (numbers : List UInt16) :
    (received b w numbers).sequenceMax = (w + 1 - b) + (received b w numbers).sequenceBase := by
  have hwidth : (received b w numbers).sequenceMax - (received b w numbers).sequenceBase
      = w + 1 - b := width_foldl numbers (create b w)
  rw [← hwidth]
  exact (UInt16.sub_add_cancel _ _).symm

theorem toNat_sequenceMax_received {b w : UInt16} (h : b.toNat + w.toNat + 1 ≤ 65535)
    (numbers : List UInt16) :
    (received b w numbers).sequenceMax.toNat =
      ((received b w numbers).sequenceBase.toNat + w.toNat + 1 + (65536 - b.toNat)) % 65536 := by
  have hone : (1 : UInt16).toNat = 1 := rfl
  rw [sequenceMax_received, UInt16.toNat_add, UInt16.toNat_sub, UInt16.toNat_add, hone]
  omega

/-- what is expected of the window after the updates -/
structure Follows (b w : UInt16) (numbers : List UInt16) (win : SlidingWindow) : Prop where
  base : win.sequenceBase.toNat = (numbers.map UInt16.toNat).foldl max b.toNat
  max : win.sequenceMax.toNat = win.sequenceBase.toNat + w.toNat + 1
  nonempty : win.sequenceBase < win.sequenceMax

/-- **Where the window follows the numbers**: it began at 0, and each number leaves room for the
window below 65536. -/
theorem follows_iff (b w : UInt16) (h : b.toNat + w.toNat + 1 ≤ 65535) (numbers : List UInt16) :
    Follows b w numbers (received b w numbers) ↔
      b = 0 ∧ ∀ s ∈ numbers, s.toNat + w.toNat + 1 ≤ 65535 := by
  have hmax := toNat_sequenceMax_received h numbers
  have hle := le_sequenceBase_received b w numbers
  have hb := (hle b.toNat).mpr (Or.inl le_rfl)
  constructor
  · intro hfollows
    have heq := hfollows.max
    have hlt := (received b w numbers).sequenceMax.toNat_lt
    have hzero : b.toNat = 0 := by omega
    refine ⟨UInt16.toNat_inj.mp hzero, fun s hs => ?_⟩
    have hs' := (hle s.toNat).mpr (Or.inr ⟨s, hs, le_rfl⟩)
    omega
  · rintro ⟨rfl, hroom⟩
    have hzero : (0 : UInt16).toNat = 0 := rfl
    have hbase : (received 0 w numbers).sequenceBase.toNat + w.toNat + 1 ≤ 65535 := by
      by_contra hover
      rcases (hle (65535 - w.toNat)).mp (by omega) with hfirst | ⟨s, hs, hle'⟩
      · omega
      · have := hroom s hs
        omega
    have heq : (received 0 w numbers).sequenceMax.toNat
        = (received 0 w numbers).sequenceBase.toNat + w.toNat + 1 := by omega
    exact ⟨sequenceBase_received 0 w numbers, heq, UInt16.lt_iff_toNat_lt.mpr (by omega)⟩

/-- the first window of a job, and three acknowledgements -/
theorem follows_iff_ten : Follows 0 10 [3, 1, 7] (received 0 10 [3, 1, 7]) :=
  (follows_iff 0 10 (by decide) [3, 1, 7]).mpr ⟨rfl, by simp⟩

/-- **The number 65530 collapses the window of a job**: its end wraps around to 5. -/
theorem window_collapses :
    ¬ ∀ (b w : UInt16) (numbers : List UInt16), b.toNat + w.toNat + 1 ≤ 65535 →
      Follows b w numbers (received b w numbers) := by
  intro hall
  have hopen := (hall 0 10 [65530] (by decide)).nonempty
  exact absurd hopen (by decide)

end SlidingWindow

/-! ## the packages of a call -/

namespace MIPTPSendJob

/-- what `MIPTPSendJob_next_packages` returns -/
def nextPackagesQueue (job : MIPTPSendJob) : Queue MIPTPPackage :=
  job.nextPackages.foldl Queue.send []

theorem inOrder_foldl_send (packages : List MIPTPPackage) (q : Queue MIPTPPackage) :
    (packages.foldl Queue.send q).inOrder = q.inOrder ++ packages := by
  induction packages generalizing q with
  | nil => exact (List.append_nil _).symm
  | cons p packages ih =>
    rw [List.foldl_cons, ih, Queue.inOrder_send, List.append_assoc, List.singleton_append]

/-- dequeued in the order of the loop -/
theorem inOrder_nextPackagesQueue (job : MIPTPSendJob) :
    job.nextPackagesQueue.inOrder = job.nextPackages :=
  inOrder_foldl_send job.nextPackages []

theorem lt_numPackages_iff (job : MIPTPSendJob) (s : ℕ) :
    s < job.numPackages ↔ s * 1492 < job.data.1.length := by
  rw [numPackages_eq]
  omega

theorem index_le_of_lt_numPackages {job : MIPTPSendJob} {s : ℕ} (hs : s < job.numPackages) :
    index s ≤ job.data.1.length :=
  (index_le s).trans ((job.lt_numPackages_iff s).mp hs).le

/-- the number after the last package finds no package -/
def StopsAtEnd (job : MIPTPSendJob) : Prop :=
  job.data.1.length < job.numPackages * 1492 % 65536

variable {job : MIPTPSendJob} {B : ℕ}

theorem nextPackages_eq (hbase : job.slidingWindow.sequenceBase.toNat = B)
    (hmax : job.slidingWindow.sequenceMax.toNat = B + 11) :
    job.nextPackages =
      ((List.range' B 11).takeWhile fun s => index s ≤ job.data.1.length).map job.segment := by
  have hof : job.slidingWindow.sequenceBase = UInt16.ofNat B := by
    rw [← hbase, UInt16.ofNat_toNat]
  rw [nextPackages, hbase, hmax, Nat.add_sub_cancel_left, hof, windowPackages_eq]

/-- a window that ends before the data does, or where the loop stops at the end of the data -/
theorem nextPackages_of_stops (hbase : job.slidingWindow.sequenceBase.toNat = B)
    (hmax : job.slidingWindow.sequenceMax.toNat = B + 11) (hB : B ≤ job.numPackages)
    (h : B + 11 ≤ job.numPackages ∨ job.StopsAtEnd) :
    job.nextPackages = (List.range' B (min 11 (job.numPackages - B))).map job.segment := by
  rw [nextPackages_eq hbase hmax]
  congr 1
  rcases Nat.lt_or_ge job.numPackages (B + 11) with hlt | hge
  · have hstops : job.StopsAtEnd := h.resolve_left (Nat.not_le.mpr hlt)
    rw [takeWhile_range' hB hlt (fun s _ hs => decide_eq_true (index_le_of_lt_numPackages hs))
      (decide_eq_false (Nat.not_le.mpr hstops)), Nat.min_eq_right (by omega)]
  · rw [Nat.min_eq_left (by omega)]
    refine List.takeWhile_eq_self_iff.mpr fun s hs =>
      decide_eq_true (index_le_of_lt_numPackages ?_)
    have := (List.mem_range'_1.mp hs).2
    omega

/-- otherwise the number after the last package is in the window, and a package is made of it -/
theorem segment_mem_nextPackages (hbase : job.slidingWindow.sequenceBase.toNat = B)
    (hmax : job.slidingWindow.sequenceMax.toNat = B + 11) (hB : B ≤ job.numPackages)
    (hlt : job.numPackages < B + 11) (h : ¬ job.StopsAtEnd) :
    job.segment job.numPackages ∈ job.nextPackages := by
  have hindex : ∀ s, s ≤ job.numPackages → index s ≤ job.data.1.length := by
    intro s hs
    rcases Nat.lt_or_ge s job.numPackages with hlt' | hge
    · exact index_le_of_lt_numPackages hlt'
    · obtain rfl : s = job.numPackages := by omega
      exact Nat.le_of_not_lt h
  obtain ⟨m, hm⟩ : ∃ m, 11 = (job.numPackages + 1 - B) + m :=
    ⟨11 - (job.numPackages + 1 - B), by omega⟩
  have hall : ∀ s ∈ List.range' B (job.numPackages + 1 - B),
      decide (index s ≤ job.data.1.length) = true := by
    intro s hs
    have := (List.mem_range'_1.mp hs).2
    exact decide_eq_true (hindex s (by omega))
  rw [nextPackages_eq hbase hmax, hm, ← List.range'_append_1, List.takeWhile_append_of_pos hall]
  refine List.mem_map_of_mem (List.mem_append_left _ (List.mem_range'_1.mpr ?_))
  omega

end MIPTPSendJob

/-! ## a job and its acknowledgements -/

/-- `sent` are the numbers of all packages returned so far, `acks` those of the acknowledgements -/
structure SendState where
  job : MIPTPSendJob
  sent : List UInt16
  acks : List UInt16

inductive SendEvent
  | nextPackages
  | ack (package : MIPTPPackage)

/-- an acknowledgement has at most the highest number sent so far -/
inductive SendStep : SendState → SendEvent → SendState → Prop
  | nextPackages (t : SendState) :
      SendStep t .nextPackages { t with
        sent := t.sent ++ t.job.nextPackagesQueue.inOrder.map fun p => p.miptpHeader.PSN }
  | ack {t : SendState} {p : MIPTPPackage} (hack : p.IsAck)
      (hsent : ∃ q ∈ t.sent, p.miptpHeader.PSN ≤ q) :
      SendStep t (.ack p) { t with
        job := t.job.receivePackage p
        acks := t.acks ++ [p.miptpHeader.PSN] }

namespace SendState

def start (port : BitVec 14) (destination : MIPAddress) (data : JobData) (timeout : ℕ) (now : ℤ) :
    SendState :=
  ⟨MIPTPSendJob.create port destination data timeout now, [], []⟩

/-- an acknowledgement confirms all packages up to its number -/
def Acknowledged (t : SendState) (s : ℕ) : Prop := ∃ a ∈ t.acks, s ≤ a.toNat

instance (t : SendState) (s : ℕ) : Decidable (t.Acknowledged s) :=
  inferInstanceAs (Decidable (∃ a ∈ t.acks, s ≤ a.toNat))

/-- the packages that the next call returns, in the order in which they are dequeued -/
def returned (t : SendState) : List MIPTPPackage := t.job.nextPackagesQueue.inOrder

/-- what is expected of a call -/
structure KeepsWindow (t : SendState) : Prop where
  consecutive : ∃ a, (t.returned.map fun p => p.miptpHeader.PSN.toNat)
    = List.range' a t.returned.length
  existing : ∀ p ∈ t.returned, p.miptpHeader.PSN.toNat * 1492 < t.job.data.1.length ∧
    p.data = chunk 1492 p.miptpHeader.PSN.toNat t.job.data.1
  limit : (t.returned.filter fun p => ¬ t.Acknowledged p.miptpHeader.PSN.toNat).length
    ≤ WINDOW_SIZE.toNat
  lowest : ∀ s, s * 1492 < t.job.data.1.length → ¬ t.Acknowledged s → (∀ r < s, t.Acknowledged r) →
    ∃ p ∈ t.returned, p.miptpHeader.PSN.toNat = s

/-- the sequence numbers are those of data packages, and the window is that of the
acknowledgements -/
structure InData (t : SendState) : Prop where
  sent : ∀ q ∈ t.sent, q.toNat < t.job.numPackages
  acks : ∀ a ∈ t.acks, a.toNat < t.job.numPackages
  window : t.job.slidingWindow = SlidingWindow.received 0 WINDOW_SIZE t.acks

/-- **The condition**: the window ends before the data does, or the loop stops at the end of the
data; and there is an acknowledgement, or no more packages than the window holds. -/
def WindowFits (t : SendState) : Prop :=
  (t.job.slidingWindow.sequenceBase.toNat + 11 ≤ t.job.numPackages ∨ t.job.StopsAtEnd) ∧
    (t.acks ≠ [] ∨ t.job.numPackages ≤ 10)

/-- a step of a run is as expected -/
def CallKeepsWindow (t : SendState) (e : SendEvent) (_ : SendState) : Prop :=
  e = .nextPackages → t.KeepsWindow

def CallFits (t : SendState) (e : SendEvent) : Prop := e = .nextPackages → t.WindowFits

variable {t t' : SendState}

theorem inData_start (port : BitVec 14) (destination : MIPAddress) (data : JobData) (timeout : ℕ)
    (now : ℤ) : (start port destination data timeout now).InData :=
  ⟨nofun, nofun, rfl⟩

/-! ## one call -/

theorem InData.le_base_iff (ht : t.InData) (m : ℕ) :
    m ≤ t.job.slidingWindow.sequenceBase.toNat ↔ m = 0 ∨ t.Acknowledged m := by
  rw [ht.window, SlidingWindow.le_sequenceBase_received]
  exact or_congr_left Nat.le_zero

/-- with an acknowledgement the base is the last package acknowledged -/
theorem InData.acknowledged_iff (ht : t.InData) (hacks : t.acks ≠ []) (s : ℕ) :
    t.Acknowledged s ↔ s ≤ t.job.slidingWindow.sequenceBase.toNat := by
  rw [ht.le_base_iff]
  refine ⟨Or.inr, fun h => h.elim (fun hzero => ?_) id⟩
  obtain ⟨a, ha⟩ := List.exists_mem_of_ne_nil _ hacks
  exact ⟨a, ha, by omega⟩

theorem InData.base_lt (ht : t.InData) (hacks : t.acks ≠ []) :
    t.job.slidingWindow.sequenceBase.toNat < t.job.numPackages := by
  obtain ⟨a, ha, hle⟩ := (ht.acknowledged_iff hacks _).mpr le_rfl
  exact hle.trans_lt (ht.acks a ha)

theorem not_acknowledged (hacks : t.acks = []) (s : ℕ) : ¬ t.Acknowledged s := by
  rintro ⟨a, ha, _⟩
  rw [hacks] at ha
  cases ha

theorem InData.base_eq_zero (ht : t.InData) (hacks : t.acks = []) :
    t.job.slidingWindow.sequenceBase.toNat = 0 := by
  rw [ht.window, hacks]
  rfl

theorem InData.base_le (ht : t.InData) :
    t.job.slidingWindow.sequenceBase.toNat ≤ t.job.numPackages := by
  by_cases hacks : t.acks = []
  · rw [ht.base_eq_zero hacks]
    exact Nat.zero_le _
  · exact (ht.base_lt hacks).le

theorem InData.max_eq (ht : t.InData) :
    t.job.slidingWindow.sequenceMax.toNat = t.job.slidingWindow.sequenceBase.toNat + 11 := by
  have hbase := ht.base_le
  have hnum := t.job.numPackages_le
  have hroom : (0 : UInt16).toNat + WINDOW_SIZE.toNat + 1 ≤ 65535 := by decide
  have hmax := SlidingWindow.toNat_sequenceMax_received hroom t.acks
  rw [← ht.window] at hmax
  have hzero : (0 : UInt16).toNat = 0 := rfl
  have hten : WINDOW_SIZE.toNat = 10 := rfl
  omega

theorem InData.step (ht : t.InData) {e : SendEvent} (hfits : t.CallFits e)
    (h : SendStep t e t') : t'.InData := by
  cases h with
  | nextPackages =>
    refine ⟨fun q hq => ?_, ht.acks, ht.window⟩
    rcases List.mem_append.mp hq with hq | hq
    · exact ht.sent q hq
    · obtain ⟨p, hp, rfl⟩ := List.mem_map.mp hq
      rw [MIPTPSendJob.inOrder_nextPackagesQueue, MIPTPSendJob.nextPackages_of_stops rfl ht.max_eq
        ht.base_le (hfits rfl).1] at hp
      obtain ⟨s, hs, rfl⟩ := List.mem_map.mp hp
      have hlt := (List.mem_range'_1.mp hs).2
      have hle := ht.base_le
      show (UInt16.ofNat s).toNat < t.job.numPackages
      rw [UInt16.toNat_ofNat']
      exact (Nat.mod_le _ _).trans_lt (by omega)
  | @ack p hack hsent =>
    obtain ⟨q, hq, hle⟩ := hsent
    refine ⟨ht.sent, fun a ha => ?_, ?_⟩
    · rcases List.mem_append.mp ha with ha | ha
      · exact ht.acks a ha
      · rw [List.mem_singleton.mp ha]
        exact (UInt16.le_iff_toNat_le.mp hle).trans_lt (ht.sent q hq)
    · show t.job.slidingWindow.update p.miptpHeader.PSN = SlidingWindow.received _ _ (t.acks ++ _)
      rw [ht.window, SlidingWindow.received, SlidingWindow.received, List.foldl_append]
      rfl

theorem InData.returned_eq (ht : t.InData)
    (h : t.job.slidingWindow.sequenceBase.toNat + 11 ≤ t.job.numPackages ∨ t.job.StopsAtEnd) :
    t.returned = (List.range' t.job.slidingWindow.sequenceBase.toNat
      (min 11 (t.job.numPackages - t.job.slidingWindow.sequenceBase.toNat))).map t.job.segment := by
  rw [returned, MIPTPSendJob.inOrder_nextPackagesQueue,
    MIPTPSendJob.nextPackages_of_stops rfl ht.max_eq ht.base_le h]

theorem toNat_PSN_segment {job : MIPTPSendJob} {s : ℕ} (hs : s ≤ job.numPackages) :
    (job.segment s).miptpHeader.PSN.toNat = s := by
  have hnum := job.numPackages_le
  show (UInt16.ofNat s).toNat = s
  rw [UInt16.toNat_ofNat']
  exact Nat.mod_eq_of_lt (by omega)

theorem map_PSN_segment {job : MIPTPSendJob} {a m : ℕ} (h : a + m ≤ job.numPackages) :
    (((List.range' a m).map job.segment).map fun p => p.miptpHeader.PSN.toNat)
      = List.range' a m := by
  rw [List.map_map]
  refine (List.map_congr_left fun s hs => ?_).trans (List.map_id _)
  have := (List.mem_range'_1.mp hs).2
  exact toNat_PSN_segment (by omega)

/-- the first package of a window is acknowledged if any is, and the others are not -/
theorem InData.limit_iff (ht : t.InData)
    (h : t.job.slidingWindow.sequenceBase.toNat + 11 ≤ t.job.numPackages ∨ t.job.StopsAtEnd) :
    (t.returned.filter fun p => ¬ t.Acknowledged p.miptpHeader.PSN.toNat).length
        ≤ WINDOW_SIZE.toNat ↔ t.acks ≠ [] ∨ t.job.numPackages ≤ 10 := by
  have hten : WINDOW_SIZE.toNat = 10 := rfl
  rw [ht.returned_eq h]
  by_cases hacks : t.acks = []
  · have hall : ∀ p : MIPTPPackage, decide (¬ t.Acknowledged p.miptpHeader.PSN.toNat) = true :=
      fun p => decide_eq_true (not_acknowledged hacks _)
    rw [List.filter_eq_self.mpr fun p _ => hall p, List.length_map, List.length_range',
      ht.base_eq_zero hacks, hten]
    simp only [hacks, ne_eq, not_true_eq_false, false_or]
    omega
  · have hlt := ht.base_lt hacks
    obtain ⟨m, hm⟩ : ∃ m, min 11 (t.job.numPackages - t.job.slidingWindow.sequenceBase.toNat)
        = m + 1 := Nat.exists_eq_add_of_le' (by omega)
    have hfirst : ¬ decide (¬ t.Acknowledged (t.job.segment
        t.job.slidingWindow.sequenceBase.toNat).miptpHeader.PSN.toNat) = true := by
      rw [decide_eq_true_eq, not_not, toNat_PSN_segment hlt.le]
      exact (ht.acknowledged_iff hacks _).mpr le_rfl
    rw [hm, List.range'_succ, List.map_cons, List.filter_cons, if_neg hfirst, hten]
    refine iff_of_true ((List.length_filter_le _ _).trans ?_) (Or.inl hacks)
    rw [List.length_map, List.length_range']
    omega

/-- **A call keeps to the window exactly where the condition holds.** -/
theorem InData.keepsWindow_iff (ht : t.InData) : t.KeepsWindow ↔ t.WindowFits := by
  have hbase := ht.base_le
  constructor
  · intro hkeeps
    have hstops : t.job.slidingWindow.sequenceBase.toNat + 11 ≤ t.job.numPackages ∨
        t.job.StopsAtEnd := by
      by_contra hover
      obtain ⟨hlt, hwrong⟩ := not_or.mp hover
      have hmem := MIPTPSendJob.segment_mem_nextPackages rfl ht.max_eq hbase (by omega) hwrong
      rw [← MIPTPSendJob.inOrder_nextPackagesQueue] at hmem
      have hexists := (hkeeps.existing _ hmem).1
      rw [toNat_PSN_segment le_rfl, ← MIPTPSendJob.lt_numPackages_iff] at hexists
      exact lt_irrefl _ hexists
    exact ⟨hstops, (ht.limit_iff hstops).mp hkeeps.limit⟩
  · rintro ⟨hstops, hlimit⟩
    have heq := ht.returned_eq hstops
    refine ⟨⟨t.job.slidingWindow.sequenceBase.toNat, ?_⟩, fun p hp => ?_,
      (ht.limit_iff hstops).mpr hlimit, fun s hs hun hbelow => ?_⟩
    · rw [heq, map_PSN_segment (by omega), List.length_map, List.length_range']
    · rw [heq] at hp
      obtain ⟨s, hs, rfl⟩ := List.mem_map.mp hp
      obtain ⟨_, hlt⟩ := List.mem_range'_1.mp hs
      have hs' : s < t.job.numPackages := by omega
      have hnum := t.job.numPackages_le
      rw [toNat_PSN_segment hs'.le]
      exact ⟨(t.job.lt_numPackages_iff s).mp hs', t.job.data_segment_of_lt (by omega)⟩
    · have hs' := (t.job.lt_numPackages_iff s).mpr hs
      -- the package after the base, or package 0 while nothing is acknowledged
      have hmem : s ∈ List.range' t.job.slidingWindow.sequenceBase.toNat
          (min 11 (t.job.numPackages - t.job.slidingWindow.sequenceBase.toNat)) := by
        rw [List.mem_range'_1]
        by_cases hacks : t.acks = []
        · have hzero := ht.base_eq_zero hacks
          have hfirst : s = 0 := by
            by_contra hpos
            exact not_acknowledged hacks 0 (hbelow 0 (by omega))
          omega
        · rw [ht.acknowledged_iff hacks] at hun
          have hprev := (ht.acknowledged_iff hacks _).mp (hbelow (s - 1) (by omega))
          omega
      rw [heq]
      exact ⟨t.job.segment s, List.mem_map_of_mem hmem, toNat_PSN_segment hs'.le⟩

/-! ## all calls -/

/-- **The calls of a job keep to the window exactly in the runs where the condition holds at each
of them.** -/
theorem calls_keep_window_iff (port : BitVec 14) (destination : MIPAddress) (data : JobData)
    (timeout : ℕ) (now : ℤ) {tr : List (SendEvent × SendState)}
    (hr : Run SendStep (start port destination data timeout now) tr) :
    Always CallKeepsWindow (start port destination data timeout now) tr ↔
      Meets CallFits (start port destination data timeout now) tr := by
  refine Run.always_iff (I := InData) (fun t e t' ht hfits h => ht.step hfits h) ?_ hr
    (inData_start port destination data timeout now)
  intro t e t' ht _
  exact imp_congr_right fun _ => ht.keepsWindow_iff

def threePackages : JobData := ⟨List.replicate 3000 72, by rw [List.length_replicate]; decide⟩

def threeStart : SendState := start 10 110 threePackages 1000 0

/-- it confirms the packages 0 and 1 -/
def ackOne : MIPTPPackage := ⟨⟨0, 10, 1⟩, []⟩

theorem numPackages_three {job : MIPTPSendJob} (h : job.data = threePackages) :
    job.numPackages = 3 := by
  have hlen : threePackages.1.length = 3000 := List.length_replicate
  rw [MIPTPSendJob.numPackages_eq, h, hlen]

theorem stopsAtEnd_three {job : MIPTPSendJob} (h : job.data = threePackages) : job.StopsAtEnd := by
  have hlen : threePackages.1.length = 3000 := List.length_replicate
  rw [MIPTPSendJob.StopsAtEnd, numPackages_three h, h, hlen]
  decide

/-- package 1 is in the first window -/
theorem exists_one_le_returned : ∃ p ∈ threeStart.returned, p.miptpHeader.PSN = 1 := by
  have ht : threeStart.InData := inData_start 10 110 threePackages 1000 0
  have hnum : threeStart.job.numPackages = 3 := numPackages_three rfl
  have hbase : threeStart.job.slidingWindow.sequenceBase.toNat = 0 := ht.base_eq_zero rfl
  rw [ht.returned_eq (Or.inr (stopsAtEnd_three rfl)), hbase, hnum]
  exact ⟨_, List.mem_map_of_mem (show 1 ∈ List.range' 0 (min 11 (3 - 0)) by decide), rfl⟩

/-- three packages, an acknowledgement of two of them, and the next call -/
theorem calls_keep_window_iff_three : ∃ t₁ t₂ t₃, SendStep threeStart .nextPackages t₁ ∧
    SendStep t₁ (.ack ackOne) t₂ ∧ SendStep t₂ .nextPackages t₃ ∧
    Always CallKeepsWindow threeStart
      [(.nextPackages, t₁), (.ack ackOne, t₂), (.nextPackages, t₃)] := by
  obtain ⟨p, hp, hone⟩ := exists_one_le_returned
  have hcall := SendStep.nextPackages threeStart
  have hack := SendStep.ack (t := { threeStart with
    sent := threeStart.sent ++ threeStart.returned.map fun p => p.miptpHeader.PSN })
    (show ackOne.IsAck from rfl)
    ⟨1, List.mem_append_right _ (hone ▸ List.mem_map_of_mem hp), UInt16.le_refl _⟩
  have hnext := SendStep.nextPackages { threeStart with
    job := threeStart.job.receivePackage ackOne
    sent := threeStart.sent ++ threeStart.returned.map fun p => p.miptpHeader.PSN
    acks := threeStart.acks ++ [ackOne.miptpHeader.PSN] }
  have hnum : threeStart.job.numPackages ≤ 10 := (numPackages_three rfl).trans_le (by decide)
  refine ⟨_, _, _, hcall, hack, hnext, (calls_keep_window_iff 10 110 threePackages 1000 0
    (Run.cons hcall (Run.cons hack (Run.cons hnext (Run.nil _))))).mpr ⟨fun _ => ?_, nofun,
      fun _ => ?_, trivial⟩⟩
  · exact ⟨Or.inr (stopsAtEnd_three rfl), Or.inr hnum⟩
  · exact ⟨Or.inr (stopsAtEnd_three rfl), Or.inl (by simp)⟩

/-- 11 packages, of 1 byte in the last one -/
def elevenPackages : JobData := ⟨List.replicate 14921 65, by rw [List.length_replicate]; decide⟩

/-- **The first window has 11 packages**, and none of them is acknowledged. -/
theorem first_window_exceeds :
    ¬ ∀ (port : BitVec 14) (destination : MIPAddress) (data : JobData) (timeout : ℕ) (now : ℤ)
      (tr : List (SendEvent × SendState)),
      Run SendStep (start port destination data timeout now) tr →
      Always CallKeepsWindow (start port destination data timeout now) tr := by
  intro hall
  have hstep := SendStep.nextPackages (start 10 110 elevenPackages 1000 0)
  have hkeeps := (hall 10 110 elevenPackages 1000 0 _ (Run.cons hstep (Run.nil _))).1 rfl
  have hlen : elevenPackages.1.length = 14921 := List.length_replicate
  have hnum : (start 10 110 elevenPackages 1000 0).job.numPackages = 11 := by
    have hdata : (start 10 110 elevenPackages 1000 0).job.data = elevenPackages := rfl
    rw [MIPTPSendJob.numPackages_eq, hdata, hlen]
  rcases ((inData_start 10 110 elevenPackages 1000 0).keepsWindow_iff.mp hkeeps).2 with hacks | hle
  · exact hacks rfl
  · omega

end SendState

end MipStack

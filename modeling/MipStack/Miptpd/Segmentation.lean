import MipStack.Miptpd.SendJob
import MipStack.Library.Chunks

/-!
# The data of a job in packages (`MIPTPSendJob_next_package`)

* `MIPTPSendJob.segment`   the package of a sequence number, at the index in 16 bits;
* `nextPackage_eq`, `windowPackages_eq`   one package, and the packages from a number on up to the
                           first one that is missing;
* `Segments job s`         the package `s` is what the data says: bytes `s * 1492` to
                           `(s + 1) * 1492`, and none from the end on;
* `segments_iff`           **that is so for the numbers of data packages, and where the index in 16
                           bits is past the end**: not at an exact end, and not where it wraps around;
* `partition_iff`          **the packages are the data exactly below 64156 bytes**;
* `segmentation_wrong`     1492 bytes, with an empty second package.
-/

namespace MipStack
open Library

namespace MIPTPSendJob

def index (s : ℕ) : ℕ := s * MAX_DATA_BATCH_SIZE_BYTES % 2 ^ 16

/-- the package number `s`, wherever its index is -/
def segment (job : MIPTPSendJob) (s : ℕ) : MIPTPPackage :=
  ⟨⟨BitVec.ofNat 2 (calcPl (min MAX_DATA_BATCH_SIZE_BYTES (job.data.1.length - index s))), job.port,
    UInt16.ofNat s⟩, (job.data.1.drop (index s)).take MAX_DATA_BATCH_SIZE_BYTES⟩

/-! ## one package -/

theorem nextPackage_eq (job : MIPTPSendJob) (s : ℕ) :
    job.nextPackage (UInt16.ofNat s) =
      if index s ≤ job.data.1.length then some (job.segment s) else none := by
  have hs : (UInt16.ofNat s).toNat * MAX_DATA_BATCH_SIZE_BYTES % 2 ^ 16 = index s := by
    rw [UInt16.toNat_ofNat', Nat.mod_mul_mod]
    rfl
  unfold nextPackage
  dsimp only
  rw [hs]
  by_cases h : index s ≤ job.data.1.length
  · rw [if_neg (Nat.not_lt.mpr h), if_pos h]
    have hlimit : (if job.data.1.length < index s + MAX_DATA_BATCH_SIZE_BYTES then job.data.1.length
        else index s + MAX_DATA_BATCH_SIZE_BYTES) - index s
        = min MAX_DATA_BATCH_SIZE_BYTES (job.data.1.length - index s) := by
      split <;> omega
    have hle : min MAX_DATA_BATCH_SIZE_BYTES (job.data.1.length - index s)
        ≤ MAX_MIPTP_PACKAGE_DATA_SIZE := Nat.min_le_left _ _
    have hdata : (job.data.1.drop (index s)).takeD
        (min MAX_DATA_BATCH_SIZE_BYTES (job.data.1.length - index s)) 0
        = (job.data.1.drop (index s)).take MAX_DATA_BATCH_SIZE_BYTES := by
      have hlen : (job.data.1.drop (index s)).length = job.data.1.length - index s :=
        List.length_drop
      rw [List.takeD_eq_take _ (by rw [hlen]; exact Nat.min_le_right _ _), ← hlen]
      exact List.take_eq_take_min.symm
    rw [hlimit, MIPTPPackage.create, if_pos hle, hdata]
    rfl
  · rw [if_pos (Nat.lt_of_not_le h), if_neg h]

theorem ofNat_succ (a : ℕ) : UInt16.ofNat a + 1 = UInt16.ofNat (a + 1) := by
  apply UInt16.toNat_inj.mp
  rw [UInt16.toNat_add, UInt16.toNat_ofNat', UInt16.toNat_ofNat', UInt16.toNat_one]
  omega

/-- the packages from `a` on, up to the first one that is missing -/
theorem windowPackages_eq (job : MIPTPSendJob) (a n : ℕ) :
    job.windowPackages (UInt16.ofNat a) n =
      ((List.range' a n).takeWhile fun s => index s ≤ job.data.1.length).map job.segment := by
  induction n generalizing a with
  | zero => rfl
  | succ n ih =>
    rw [windowPackages, nextPackage_eq, List.range'_succ]
    by_cases h : index a ≤ job.data.1.length
    · rw [if_pos h, List.takeWhile_cons_of_pos (by simpa using h), List.map_cons]
      dsimp only
      rw [ofNat_succ, ih]
    · rw [if_neg h, List.takeWhile_cons_of_neg (by simpa using h)]
      rfl

/-- the index of a data package does not wrap around -/
theorem index_of_lt {s : ℕ} (h : s * 1492 < 65536) : index s = s * 1492 := Nat.mod_eq_of_lt h

theorem index_le (s : ℕ) : index s ≤ s * 1492 := Nat.mod_le _ _

theorem data_segment_of_lt (job : MIPTPSendJob) {s : ℕ} (h : s * 1492 < 65536) :
    (job.segment s).data = chunk 1492 s job.data.1 := by
  show (job.data.1.drop (index s)).take _ = _
  rw [index_of_lt h]
  rfl

/-! ## what the data says -/

structure Segments (job : MIPTPSendJob) (s : UInt16) : Prop where
  some_iff : (job.nextPackage s).isSome ↔ s.toNat * 1492 < job.data.1.length
  PSN : ∀ p, job.nextPackage s = some p → p.miptpHeader.PSN = s
  payload : ∀ p, job.nextPackage s = some p → p.data =
    (job.data.1.drop (s.toNat * 1492)).take
      (min ((s.toNat + 1) * 1492) job.data.1.length - s.toNat * 1492)

/-- **Where the segmentation is right.** -/
theorem segments_iff (job : MIPTPSendJob) (s : UInt16) :
    Segments job s ↔ s.toNat * 1492 < job.data.1.length ∨
      job.data.1.length < s.toNat * 1492 % 65536 := by
  have hmax : job.data.1.length ≤ 65535 := job.data.2
  have hnext : job.nextPackage s =
      if index s.toNat ≤ job.data.1.length then some (job.segment s.toNat) else none := by
    rw [← nextPackage_eq, UInt16.ofNat_toNat]
  constructor
  · intro h
    by_cases hlt : s.toNat * 1492 < job.data.1.length
    · exact Or.inl hlt
    · refine Or.inr (Nat.lt_of_not_le fun hle => hlt (h.some_iff.mp ?_))
      have hindex : index s.toNat ≤ job.data.1.length := hle
      rw [hnext, if_pos hindex]
      rfl
  · intro h
    rcases h with hlt | hpast
    · have hindex := index_of_lt (show s.toNat * 1492 < 65536 by omega)
      have hsome : job.nextPackage s = some (job.segment s.toNat) := by
        rw [hnext, hindex, if_pos hlt.le]
      refine ⟨by simp [hsome, hlt], fun p hp => ?_, fun p hp => ?_⟩
      · obtain rfl := Option.some.inj (hsome.symm.trans hp)
        exact UInt16.ofNat_toNat
      · obtain rfl := Option.some.inj (hsome.symm.trans hp)
        rw [data_segment_of_lt job (by omega), chunk_eq_take]
    · have hnone : job.nextPackage s = none := by
        rw [hnext]
        exact if_neg (Nat.not_le.mpr hpast)
      have hle := index_le s.toNat
      have hnot : ¬ s.toNat * 1492 < job.data.1.length := by
        have hp : job.data.1.length < index s.toNat := hpast
        omega
      exact ⟨by simp [hnone, hnot], by simp [hnone], by simp [hnone]⟩

/-! ## all packages -/

/-- the payloads of the packages 0, 1, 2, ... until the first one that is missing -/
def allPayloads (job : MIPTPSendJob) : List UInt8 :=
  (job.windowPackages 0 65536).flatMap MIPTPPackage.data

theorem flatMap_segment (job : MIPTPSendJob) {m : ℕ} (hm : m ≤ 44) :
    ((List.range m).map job.segment).flatMap MIPTPPackage.data = job.data.1.take (m * 1492) := by
  rw [List.flatMap_map, ← flatMap_chunk]
  refine List.flatMap_congr fun s hs => ?_
  have hlt := List.mem_range.mp hs
  exact data_segment_of_lt job (by omega)

theorem allPayloads_of_lt (job : MIPTPSendJob) (h : job.data.1.length < 64156) :
    job.allPayloads = job.data.1 := by
  have hdiv : job.data.1.length / 1492 + 1 ≤ 43 := by omega
  have hlast : ¬ index (job.data.1.length / 1492 + 1) ≤ job.data.1.length := by
    rw [index_of_lt (by omega)]
    omega
  have hrun : ∀ s, 0 ≤ s → s < job.data.1.length / 1492 + 1 →
      decide (index s ≤ job.data.1.length) = true := by
    intro s _ hs
    rw [index_of_lt (by omega), decide_eq_true_eq]
    omega
  have hpackages : job.windowPackages 0 65536
      = (List.range (job.data.1.length / 1492 + 1)).map job.segment := by
    rw [show (0 : UInt16) = UInt16.ofNat 0 from rfl, windowPackages_eq,
      takeWhile_range' (Nat.zero_le _) (by omega) hrun (decide_eq_false hlast),
      Nat.sub_zero, List.range_eq_range']
  rw [allPayloads, hpackages, flatMap_segment job (by omega), List.take_of_length_le (by omega)]

/-- package 44 begins at byte 112 again -/
theorem length_allPayloads (job : MIPTPSendJob) (h : 64156 ≤ job.data.1.length) :
    job.data.1.length < job.allPayloads.length := by
  have hmax : job.data.1.length ≤ 65535 := job.data.2
  have hwrap : index 44 = 112 := rfl
  have hrun : ∀ s ∈ List.range' 0 45, decide (index s ≤ job.data.1.length) = true := by
    intro s hs
    obtain ⟨_, hlt⟩ := List.mem_range'_1.mp hs
    rw [decide_eq_true_eq]
    rcases Nat.lt_or_ge s 44 with h44 | h44
    · exact (index_le s).trans (by omega)
    · obtain rfl : s = 44 := by omega
      omega
  have hpackages : ∃ rest, job.windowPackages 0 65536
      = (List.range 44).map job.segment ++ (job.segment 44 :: rest) := by
    have hsplit : List.range' 0 65536 = List.range' 0 45 ++ List.range' 45 65491 :=
      (List.range'_append_1 (s := 0) (m := 45) (n := 65491)).symm
    rw [show (0 : UInt16) = UInt16.ofNat 0 from rfl, windowPackages_eq, hsplit,
      List.takeWhile_append_of_pos hrun, List.map_append, ← List.range_eq_range', List.range_succ,
      List.map_append, List.append_assoc]
    exact ⟨_, rfl⟩
  obtain ⟨rest, hrest⟩ := hpackages
  have hstale : (job.segment 44).data.length = 1492 := by
    show ((job.data.1.drop (index 44)).take 1492).length = 1492
    rw [List.length_take, List.length_drop, hwrap]
    omega
  rw [allPayloads, hrest, List.flatMap_append, flatMap_segment job (le_refl 44),
    List.flatMap_cons, List.length_append, List.length_append, hstale,
    List.take_of_length_le (by omega)]
  omega

/-- **The packages are the data exactly below 64156 bytes.** -/
theorem partition_iff (job : MIPTPSendJob) :
    job.allPayloads = job.data.1 ↔ job.data.1.length < 64156 := by
  refine ⟨fun heq => ?_, job.allPayloads_of_lt⟩
  by_contra hlong
  have hlt := job.length_allPayloads (Nat.le_of_not_lt hlong)
  rw [heq] at hlt
  exact lt_irrefl _ hlt

/-- **The segmentation of the data.**  Package by package it is right for the numbers of data
packages and where the index in 16 bits is past the end; as a whole below 64156 bytes. -/
theorem segmentation_iff (job : MIPTPSendJob) :
    (∀ s, Segments job s ↔ s.toNat * 1492 < job.data.1.length ∨
      job.data.1.length < s.toNat * 1492 % 65536) ∧
    (job.allPayloads = job.data.1 ↔ job.data.1.length < 64156) :=
  ⟨job.segments_iff, job.partition_iff⟩

/-- a job of 1492 bytes -/
def fullPackageJob : MIPTPSendJob :=
  create 10 110 ⟨List.replicate 1492 65, by rw [List.length_replicate]; decide⟩ 1000 0

/-- **1492 bytes make a second, empty package.** -/
theorem segmentation_wrong :
    ¬ ∀ job : MIPTPSendJob, (∀ s, Segments job s) ∧ job.allPayloads = job.data.1 := by
  intro hall
  have hlen : fullPackageJob.data.1.length = 1492 := List.length_replicate
  have hright := (fullPackageJob.segments_iff 1).mp ((hall fullPackageJob).1 1)
  rw [hlen] at hright
  exact absurd hright (by decide)

end MIPTPSendJob

end MipStack

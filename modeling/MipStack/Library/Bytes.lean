import Mathlib.Data.List.TakeDrop
import Mathlib.Data.UInt

/-!
# Byte lists

* `takeD_takeD`, `takeD_take`   padding a list with a default value, twice or after a cut;
* `takeD_eq_append`, `takeD_append`   what padding adds, and where;
* `take_takeD`, `drop_takeD`   the front and the back of a padded list;
* `takeD_append_range`   a padded list that goes on with its own bytes;
* `take_takeD_eq_iff` a list that is cut and padded again is the same if and only if what was cut off
                      is padding;
* `take_drop_append_prefix_iff`   a slice of `l ++ l'` lies within `l` if and only if it ends there;
* `leBytes k n`       the `k` low bytes of `n`, lowest first;
* `ofLe bytes`        the number that a byte list stores;
* `bitField_eq`       a bit field of such a number;
* `ofLe_leBytes`, `leBytes_ofLe`   reading back what was stored gives `n % 256^k`; storing what was
                      read gives the bytes.
-/

namespace Library

/-! ## padding -/

section
variable {α : Type*} (a : α)

theorem takeD_takeD (l : List α) {k n : ℕ} (h : k ≤ n) : (l.takeD n a).takeD k a = l.takeD k a := by
  induction k generalizing l n with
  | zero => rfl
  | succ k ih =>
    obtain ⟨n, rfl⟩ : ∃ n', n = n' + 1 := ⟨n - 1, by omega⟩
    rw [List.takeD_succ, List.takeD_succ, List.takeD_succ, List.head?_cons, List.tail_cons,
      Option.getD_some, ih l.tail (by omega)]

theorem takeD_take (l : List α) (n : ℕ) : (l.take n).takeD n a = l.takeD n a := by
  induction n generalizing l with
  | zero => rfl
  | succ n ih =>
    cases l with
    | nil => rfl
    | cons b l => rw [List.take_succ_cons, List.takeD_succ, List.takeD_succ, List.tail_cons, ih l]; rfl

theorem takeD_length_self (l : List α) : l.takeD l.length a = l := by
  rw [List.takeD_eq_take a le_rfl, List.take_length]

theorem takeD_eq_append (l : List α) {n : ℕ} (h : l.length ≤ n) :
    l.takeD n a = l ++ List.replicate (n - l.length) a := by
  induction l generalizing n with
  | nil => rw [List.takeD_nil]; rfl
  | cons b l ih =>
    obtain ⟨n, rfl⟩ : ∃ n', n = n' + 1 := ⟨n - 1, by rw [List.length_cons] at h; omega⟩
    rw [List.length_cons] at h
    rw [List.takeD_succ, List.head?_cons, List.tail_cons, ih (by omega), List.length_cons,
      Nat.add_sub_add_right]
    rfl

theorem takeD_append (l l' : List α) (n : ℕ) :
    (l ++ l').takeD (l.length + n) a = l ++ l'.takeD n a := by
  induction l with
  | nil => rw [List.length_nil, Nat.zero_add]; rfl
  | cons b l ih =>
    rw [List.cons_append, List.length_cons, Nat.add_right_comm, List.takeD_succ, List.head?_cons,
      List.tail_cons, ih]
    rfl

theorem take_takeD (l : List α) {k n : ℕ} (h : k ≤ n) : (l.takeD n a).take k = l.takeD k a := by
  rw [← List.takeD_eq_take a (by rw [List.takeD_length]; exact h), takeD_takeD a l h]

theorem drop_takeD (l : List α) (k n : ℕ) : (l.takeD (k + n) a).drop k = (l.drop k).takeD n a := by
  induction k generalizing l with
  | zero => rw [Nat.zero_add]; rfl
  | succ k ih =>
    rw [Nat.add_right_comm, List.takeD_succ, List.drop_succ_cons, ih, ← List.drop_one, List.drop_drop]
    rw [Nat.add_comm 1 k]

theorem takeD_append_range (l : List α) (m k : ℕ) :
    l.takeD m a ++ (List.range k).map (fun j => l.getD (m + j) a) = l.takeD (m + k) a := by
  induction m generalizing l with
  | zero =>
    rw [Nat.zero_add]
    show (List.range k).map _ = _
    induction k generalizing l with
    | zero => rfl
    | succ k ih =>
      rw [List.range_succ_eq_map, List.map_cons, List.map_map, List.takeD_succ, ← ih l.tail]
      cases l with
      | nil => rfl
      | cons b l =>
        show b :: _ = b :: _
        congr 1
  | succ m ih =>
    rw [Nat.add_right_comm, List.takeD_succ, List.takeD_succ, List.cons_append, ← ih l.tail]
    congr 2
    refine List.map_congr_left fun j _ => ?_
    cases l with
    | nil => rfl
    | cons b l =>
      rw [Nat.add_right_comm]
      rfl

/-- **Cutting off padding changes nothing**, cutting off anything else does. -/
theorem take_takeD_eq_iff (l : List α) (j : ℕ) :
    (l.take j).takeD l.length a = l ↔ ∀ b ∈ l.drop j, b = a := by
  induction l generalizing j with
  | nil => simp
  | cons b l ih =>
    cases j with
    | zero =>
      have hzero := ih 0
      rw [List.take_zero, List.drop_zero] at hzero
      rw [List.take_zero, List.drop_zero, List.length_cons, List.takeD_succ, List.forall_mem_cons,
        ← hzero]
      show a :: List.takeD l.length [] a = b :: l ↔ _
      rw [List.cons.injEq, eq_comm (a := a)]
    | succ j =>
      rw [List.take_succ_cons, List.drop_succ_cons, List.length_cons, List.takeD_succ, ← ih j]
      show b :: (l.take j).takeD l.length a = b :: l ↔ _
      rw [List.cons.injEq, and_iff_right rfl]

/-- **A slice that starts in the first of two lists**, or is empty, stays in it if it ends there. -/
theorem take_drop_append_prefix_iff (l l' : List α) {k n : ℕ} (h : k + n ≤ (l ++ l').length) :
    ((l ++ l').drop k).take n <+: l.drop k ↔ n = 0 ∨ k + n ≤ l.length := by
  constructor
  · intro hprefix
    have hle := hprefix.length_le
    rw [List.length_take, List.length_drop, List.length_drop] at hle
    omega
  · intro hcases
    rcases hcases with rfl | hle
    · rw [List.take_zero]
      exact List.nil_prefix
    · rw [List.drop_append_of_le_length (by omega),
        List.take_append_of_le_length (by rw [List.length_drop]; omega)]
      exact List.take_prefix n _

end

/-! ## little-endian numbers -/

def leBytes : ℕ → ℕ → List UInt8
  | 0, _ => []
  | k + 1, n => UInt8.ofNat n :: leBytes k (n / 256)

def ofLe : List UInt8 → ℕ
  | [] => 0
  | b :: bytes => b.toNat + 256 * ofLe bytes

@[simp] theorem length_leBytes (k n : ℕ) : (leBytes k n).length = k := by
  induction k generalizing n with
  | zero => rfl
  | succ k ih => rw [leBytes, List.length_cons, ih]

theorem ofLe_leBytes (k n : ℕ) : ofLe (leBytes k n) = n % 256 ^ k := by
  induction k generalizing n with
  | zero => rw [pow_zero, Nat.mod_one]; rfl
  | succ k ih =>
    have hb : (UInt8.ofNat n).toNat = n % 256 := UInt8.toNat_ofNat'
    rw [leBytes, ofLe, ih, hb, pow_succ, Nat.mul_comm (256 ^ k) 256, Nat.mod_mul]

/-- a bit field is read back from the number that holds it -/
theorem bitField_eq {w n : ℕ} {field : BitVec w} (h : n % 2 ^ w = field.toNat) :
    BitVec.ofNat w n = field := by
  apply BitVec.eq_of_toNat_eq
  rw [BitVec.toNat_ofNat, h]

theorem leBytes_ofLe (bytes : List UInt8) : leBytes bytes.length (ofLe bytes) = bytes := by
  induction bytes with
  | nil => rfl
  | cons b bytes ih =>
    have hb := b.toNat_lt
    have hlow : UInt8.ofNat (b.toNat + 256 * ofLe bytes) = b := by
      apply UInt8.toNat_inj.mp
      rw [UInt8.toNat_ofNat']
      show (b.toNat + 256 * ofLe bytes) % 256 = b.toNat
      omega
    have hhigh : (b.toNat + 256 * ofLe bytes) / 256 = ofLe bytes := by omega
    rw [List.length_cons, leBytes, ofLe, hlow, hhigh, ih]

end Library

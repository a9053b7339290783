import Mathlib.Data.List.Basic

/-!
# Lists cut into chunks of one length

* `chunk k s l`             the elements of `l` from `s * k` up to `(s + 1) * k`, or the end;
* `chunk_eq_take`           the same as so many elements;
* `flatMap_chunk`           **the first `m` chunks, one after the other, are the first `m * k`
                            elements**;
* `takeWhile_range'`        where a test holds up to `m` and fails there, the numbers up to `m`.
-/

namespace Library

variable {α : Type*}

def chunk (k s : ℕ) (l : List α) : List α := (l.drop (s * k)).take k

/-- up to the next chunk or the end -/
theorem chunk_eq_take (k s : ℕ) (l : List α) :
    chunk k s l = (l.drop (s * k)).take (min ((s + 1) * k) l.length - s * k) := by
  have hlen : (l.drop (s * k)).length = l.length - s * k := List.length_drop
  rcases Nat.le_total ((s + 1) * k) l.length with h | h
  · have hk : (s + 1) * k - s * k = k := by
      rw [Nat.succ_mul]
      omega
    rw [Nat.min_eq_left h, hk]
    rfl
  · have hk : l.length - s * k ≤ k := by
      rw [Nat.succ_mul] at h
      omega
    rw [Nat.min_eq_right h, chunk, List.take_of_length_le (by omega),
      List.take_of_length_le (by omega)]

theorem flatMap_chunk (k m : ℕ) (l : List α) :
    ((List.range m).flatMap fun s => chunk k s l) = l.take (m * k) := by
  induction m with
  | zero =>
    rw [Nat.zero_mul]
    rfl
  | succ m ih =>
    rw [List.range_succ, List.flatMap_append, ih, List.flatMap_singleton, chunk, Nat.succ_mul,
      List.take_add]

theorem takeWhile_range' {p : ℕ → Bool} {a m n : ℕ} (ham : a ≤ m) (hmn : m < a + n)
    (hp : ∀ s, a ≤ s → s < m → p s = true) (hm : p m = false) :
    (List.range' a n).takeWhile p = List.range' a (m - a) := by
  have hsplit : List.range' a n = List.range' a (m - a) ++ List.range' m (n - (m - a)) := by
    have happ := List.range'_append_1 (s := a) (m := m - a) (n := n - (m - a))
    rw [show a + (m - a) = m by omega, show m - a + (n - (m - a)) = n by omega] at happ
    exact happ.symm
  obtain ⟨j, hj⟩ : ∃ j, n - (m - a) = j + 1 := ⟨n - (m - a) - 1, by omega⟩
  rw [hsplit, List.takeWhile_append_of_pos, hj, List.range'_succ,
    List.takeWhile_cons_of_neg (by rw [hm]; decide), List.append_nil]
  intro s hs
  obtain ⟨hge, hlt⟩ := List.mem_range'_1.mp hs
  exact hp s hge (by omega)

end Library

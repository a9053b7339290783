import Mathlib.Data.UInt

/-!
# Shared definitions of the daemons

* `MIPAddress`, `MIP_BROADCAST_ADDRESS`, `UINT_MAX`   the types and constants of `definitions.h`,
  `mip_route_table.h` and `limits.h`;
* `Clock`       the readings of `get_now_milli` made by one call, in order;
* `Queue`       `queue.h`: a list with `Queue_send = List_unshift` and `Queue_recv = List_pop`, so
                the newest element comes first and the oldest leaves;
* `Fault`       how a handler can go wrong.
-/

namespace MipStack

/-- `uint8_t` -/
abbrev MIPAddress := UInt8

def MIP_BROADCAST_ADDRESS : MIPAddress := 255

def UINT_MAX : UInt32 := 4294967295

/-- the successive clock readings of one call, in milliseconds -/
abbrev Clock := ℕ → ℤ

def Clock.tail (clock : Clock) : Clock := fun i => clock (i + 1)

/-- newest element first -/
abbrev Queue (α : Type) := List α

namespace Queue
variable {α : Type}

def send (q : Queue α) (a : α) : Queue α := a :: q

/-- `Queue_recv`: the oldest element and the queue without it, `none` on an empty queue -/
def recv (q : Queue α) : Option (α × Queue α) := q.getLast?.map fun a => (a, q.dropLast)

def inOrder (q : Queue α) : List α := q.reverse

@[simp] theorem inOrder_send (q : Queue α) (a : α) : (q.send a).inOrder = q.inOrder ++ [a] := by
  simp [inOrder, send]

/-- **A queue gives its elements back in the order in which they were sent.** -/
theorem recv_inOrder (q : Queue α) :
    (q.recv.map fun x => (x.1, inOrder x.2)) = q.inOrder.head?.map fun a => (a, q.inOrder.tail) := by
  simp only [recv, inOrder, List.head?_reverse, Option.map_map, List.tail_reverse]
  rfl

theorem recv_eq_none_iff (q : Queue α) : q.recv = none ↔ q = [] := by
  simp [recv]

theorem recv_eq_some {q r : Queue α} {a : α} (h : q.recv = some (a, r)) :
    q.inOrder = a :: r.inOrder := by
  have h' := recv_inOrder q
  rw [h] at h'
  cases hq : q.inOrder with
  | nil => rw [hq] at h'; cases h'
  | cons b l =>
    rw [hq] at h'
    obtain ⟨rfl, rfl⟩ : a = b ∧ r.inOrder = l := by simpa using h'
    rfl

end Queue

inductive Fault
  /-- a failed `check` on the way to the error label of the main loop -/
  | errorExit
  | nullDereference
  /-- a read or write outside an array: undefined from there on -/
  | outOfBounds
  deriving DecidableEq, Repr

theorem map_eq_ok_iff {α β : Type} {r : Except Fault α} {f : α → β} {b : β} :
    r.map f = .ok b ↔ ∃ a, r = .ok a ∧ f a = b := by
  cases r with
  | error fault => simp [Except.map]
  | ok a => simp [Except.map]

theorem exists_map_ok_iff {α β : Type} {r : Except Fault α} {f : α → β} :
    (∃ b, r.map f = .ok b) ↔ ∃ a, r = .ok a := by
  constructor
  · intro h
    obtain ⟨b, hb⟩ := h
    obtain ⟨a, ha, _⟩ := map_eq_ok_iff.mp hb
    exact ⟨a, ha⟩
  · intro h
    obtain ⟨a, ha⟩ := h
    exact ⟨f a, map_eq_ok_iff.mpr ⟨a, ha, rfl⟩⟩

/-! ## unsigned arithmetic -/

/-- the conversion to `unsigned long` -/
def toUnsigned (x : ℤ) : ℕ := (x % 2 ^ 64).toNat

/-- the conversion of an `unsigned long` to `long` -/
def toLong (n : ℕ) : ℤ :=
  if n % 2 ^ 64 < 2 ^ 63 then (n % 2 ^ 64 : ℕ) else (n % 2 ^ 64 : ℕ) - 2 ^ 64

theorem toLong_of_lt {n : ℕ} (h : n < 2 ^ 63) : toLong n = n := by
  rw [toLong, Nat.mod_eq_of_lt (by omega), if_pos h]

/-- a cost other than `UINT_MAX` can be increased without wrapping around -/
theorem cost_succ {c : UInt32} (h : c ≠ UINT_MAX) : (c + 1).toNat = c.toNat + 1 := by
  have hne : c.toNat ≠ 4294967295 := fun he => h (UInt32.toNat_inj.mp he)
  have hlt := c.toNat_lt
  rw [UInt32.toNat_add]
  show (c.toNat + 1) % 4294967296 = c.toNat + 1
  omega

end MipStack

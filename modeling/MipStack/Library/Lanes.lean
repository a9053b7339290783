import MipStack.Library.Keyed
import Mathlib.Data.List.Forall2

/-!
# Streams of many senders in one list

The elements of all streams stand in one list in the order in which they were sent; the stream of a
sender are those with its key.

* `lane key k l`           the stream of `k`;
* `IsFirst key k before`   what stands before the first element of `k`;
* `lane_pop`, `lane_pop_of_ne`   taking out the first element of `k` pops its stream and leaves the
                           others as they are;
* `exists_first`           a stream that is not empty has a first element;
* `Served A R answers requests waiting`   clients wait in the order in which they came, the first of
                           them for an answer that is under way, the others with their requests;
* `Served.request`, `.answer`, `.pop`   what a new client, the server and an arriving answer do.
-/

namespace Library

variable {α κ : Type*} [DecidableEq κ] (key : α → κ)

def lane (k : κ) (l : List α) : List α := l.filter fun a => key a = k

def IsFirst (k : κ) (before : List α) : Prop := ∀ b ∈ before, key b ≠ k

variable {key} {k : κ} {a : α} {l before after : List α}

theorem lane_append (l l' : List α) : lane key k (l ++ l') = lane key k l ++ lane key k l' :=
  List.filter_append ..

theorem lane_singleton (h : key a = k) : lane key k [a] = [a] := by
  simp [lane, h]

theorem lane_singleton_of_ne (h : key a ≠ k) : lane key k [a] = [] := by
  simp [lane, h]

theorem IsFirst.lane_eq_nil (h : IsFirst key k before) : lane key k before = [] :=
  List.filter_eq_nil_iff.mpr fun b hb => by simpa using h b hb

theorem lane_pop (h : IsFirst key k before) (ha : key a = k) :
    lane key k (before ++ a :: after) = a :: lane key k (before ++ after) := by
  rw [lane_append, lane_append, h.lane_eq_nil, ← List.singleton_append, lane_append,
    lane_singleton ha]
  rfl

theorem lane_pop_of_ne (ha : key a ≠ k) :
    lane key k (before ++ a :: after) = lane key k (before ++ after) := by
  rw [lane_append, lane_append, ← List.singleton_append, lane_append, lane_singleton_of_ne ha]
  rfl

theorem exists_first (h : lane key k l ≠ []) : ∃ before a after, l = before ++ a :: after ∧
    key a = k ∧ IsFirst key k before := by
  obtain ⟨a, ha⟩ := List.exists_mem_of_ne_nil _ h
  obtain ⟨hmem, hk⟩ := List.mem_filter.mp ha
  obtain rfl : key a = k := by simpa using hk
  obtain ⟨b, hb⟩ := Option.isSome_iff_exists.mp (lookup_isSome_of_mem key hmem)
  obtain ⟨before, after, hl, hother, _⟩ := exists_append_of_lookup hb
  exact ⟨before, b, after, hl, key_of_lookup hb, hother⟩

/-! ## first come, first served -/

section
variable {β γ δ : Type*} {A : β → γ → Prop} {R : δ → γ → Prop} {answers : List β} {requests : List δ}
  {waiting : List γ} {b : β} {c : γ} {r : δ}

/-- `A b c`: `b` is a right answer for the client `c`; `R r c`: `r` is the request of `c` -/
def Served (A : β → γ → Prop) (R : δ → γ → Prop) (answers : List β) (requests : List δ)
    (waiting : List γ) : Prop :=
  ∃ w w', waiting = w ++ w' ∧ List.Forall₂ A answers w ∧ List.Forall₂ R requests w'

theorem served_nil : Served A R [] [] [] := ⟨[], [], rfl, .nil, .nil⟩

theorem Served.request (h : Served A R answers requests waiting) (hr : R r c) :
    Served A R answers (requests ++ [r]) (waiting ++ [c]) := by
  obtain ⟨w, w', rfl, ha, hreq⟩ := h
  exact ⟨w, w' ++ [c], List.append_assoc .., ha, List.rel_append hreq (.cons hr .nil)⟩

/-- the server takes the oldest request -/
theorem Served.answer (h : Served A R answers (r :: requests) waiting)
    (hb : ∀ c ∈ waiting, R r c → A b c) : Served A R (answers ++ [b]) requests waiting := by
  obtain ⟨w, w', rfl, ha, hreq⟩ := h
  obtain ⟨c, rest, hr, hrest, rfl⟩ := List.forall₂_cons_left_iff.mp hreq
  refine ⟨w ++ [c], rest, by simp, List.rel_append ha (.cons (hb c ?_ hr) .nil), hrest⟩
  exact List.mem_append_right _ List.mem_cons_self

/-- the oldest answer is for the client that has waited longest -/
theorem Served.pop (h : Served A R (b :: answers) requests waiting) :
    ∃ c rest, waiting = c :: rest ∧ A b c ∧ Served A R answers requests rest := by
  obtain ⟨w, w', rfl, ha, hreq⟩ := h
  obtain ⟨c, rest, hb, hrest, rfl⟩ := List.forall₂_cons_left_iff.mp ha
  exact ⟨c, rest ++ w', rfl, hb, rest, w', rfl, hrest, hreq⟩

theorem Served.length (h : Served A R answers requests waiting) :
    waiting.length = answers.length + requests.length := by
  obtain ⟨w, w', rfl, ha, hreq⟩ := h
  rw [List.length_append, ha.length_eq, hreq.length_eq]

end

end Library

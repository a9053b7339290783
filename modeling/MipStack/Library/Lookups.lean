import Mathlib.Data.List.Basic

/-!
# Requests without identifiers

A client keeps the subjects of its requests in a queue; requests and responses travel in two
streams, and a server answers in order.  Nothing on the wire says which request a response is for:
the `n`-th response is taken to be for the oldest subject in the queue.

* `Aligned queue requests responses`   the queue holds the subjects of the responses that are on
                                       their way and then those of the unanswered requests;
* `Aligned.submit`, `.serve`, `.consume`   the three steps keep it, and a consumed response belongs
                                       to the subject that leaves the queue;
* `aligned_fresh_iff`                  with empty streams only the empty queue is aligned.
-/

namespace Library

variable {α β : Type*}

/-- subjects in the queue, oldest first; requests not yet answered; responses not yet consumed -/
def Aligned (queue requests : List α) (responses : List (α × β)) : Prop :=
  queue = responses.map Prod.fst ++ requests

variable {queue requests : List α} {responses : List (α × β)}

theorem Aligned.submit (h : Aligned queue requests responses) (sent : List α) :
    Aligned (queue ++ sent) (requests ++ sent) responses := by
  rw [Aligned, ← List.append_assoc, ← h]

theorem Aligned.serve {a : α} (h : Aligned queue (a :: requests) responses) (b : β) :
    Aligned queue requests (responses ++ [(a, b)]) := by
  rw [Aligned, List.map_append, List.append_assoc]
  exact h

/-- **A consumed response belongs to the subject that leaves the queue.** -/
theorem Aligned.consume {a q : α} {b : β} (h : Aligned (q :: queue) requests ((a, b) :: responses)) :
    q = a ∧ Aligned queue requests responses := List.cons.inj h

theorem aligned_fresh_iff : Aligned queue [] ([] : List (α × β)) ↔ queue = [] := Iff.rfl

theorem Aligned.queue_eq_nil_iff (h : Aligned queue requests responses) :
    queue = [] ↔ requests = [] ∧ responses = [] := by
  rw [h, List.append_eq_nil_iff, List.map_eq_nil_iff, and_comm]

end Library

import MipStack.Library.Heap
import Mathlib.Data.List.Nodup

/-!
# Doubly linked nodes in memory, and loops over them

* `Node κ α`           two links and a value;
* `Segment h p l q`    the nodes `l`, each with its address, lie in `h` one behind the other: the
                       first one points back to `p` and the last one on to `q`;
* `Segment.modify_first`, `Segment.modify_last`   the link into or out of a segment is changed;
* `iterate`            a loop that follows a link of the node it stands on **after** its body;
* `iterate_rule`       the loop by an invariant over the nodes to come.
-/

set_option linter.unusedSectionVars false

namespace Library

structure Node (κ α : Type) where
  next : Option κ
  prev : Option κ
  value : α
  deriving DecidableEq, Repr

namespace Linked
variable {κ α : Type}

/-- the pointer to the first node, or `q` -/
def entry : List (κ × α) → Option κ → Option κ
  | [], q => q
  | x :: _, _ => some x.1

/-- the pointer to the last node, or `p` -/
def exit (p : Option κ) : List (κ × α) → Option κ
  | [] => p
  | x :: l => exit (some x.1) l

def keys (l : List (κ × α)) : List κ := l.map Prod.fst

def Segment (h : Heap κ (Node κ α)) : Option κ → List (κ × α) → Option κ → Prop
  | _, [], _ => True
  | p, x :: l, q => h x.1 = some ⟨entry l q, p, x.2⟩ ∧ Segment h (some x.1) l q

variable {h h' : Heap κ (Node κ α)} {p q : Option κ} {l m : List (κ × α)} {x : κ × α}

@[simp] theorem entry_nil (q : Option κ) : entry ([] : List (κ × α)) q = q := rfl

@[simp] theorem entry_cons (x : κ × α) (l : List (κ × α)) (q : Option κ) :
    entry (x :: l) q = some x.1 := rfl

@[simp] theorem exit_nil (p : Option κ) : exit p ([] : List (κ × α)) = p := rfl

@[simp] theorem exit_cons (p : Option κ) (x : κ × α) (l : List (κ × α)) :
    exit p (x :: l) = exit (some x.1) l := rfl

@[simp] theorem entry_append (l m : List (κ × α)) (q : Option κ) :
    entry (l ++ m) q = entry l (entry m q) := by
  cases l with
  | nil => rfl
  | cons x l => rfl

@[simp] theorem exit_append (p : Option κ) (l m : List (κ × α)) :
    exit p (l ++ m) = exit (exit p l) m := by
  induction l generalizing p with
  | nil => rfl
  | cons x l ih => exact ih (some x.1)

@[simp] theorem keys_nil : keys ([] : List (κ × α)) = [] := rfl

@[simp] theorem keys_cons (x : κ × α) (l : List (κ × α)) : keys (x :: l) = x.1 :: keys l := rfl

@[simp] theorem keys_append (l m : List (κ × α)) : keys (l ++ m) = keys l ++ keys m :=
  List.map_append

theorem exit_mem (hl : l ≠ []) : ∃ k ∈ keys l, exit p l = some k := by
  obtain ⟨init, x, rfl⟩ : ∃ init x, l = init ++ [x] :=
    ⟨l.dropLast, l.getLast hl, (List.dropLast_append_getLast hl).symm⟩
  exact ⟨x.1, by simp, by simp⟩

theorem entry_eq_none_iff : entry l none = none ↔ l = [] := by
  cases l with
  | nil => simp
  | cons x l => simp

theorem exit_eq_none_iff : exit none l = none ↔ l = [] := by
  constructor
  · intro he
    by_contra hne
    obtain ⟨k, _, hk⟩ := exit_mem (p := none) hne
    rw [he] at hk
    cases hk
  · rintro rfl
    rfl

/-- the first node is found by its address -/
theorem eq_entry_iff (hd : (keys (l ++ x :: m)).Nodup) :
    some x.1 = entry (l ++ x :: m) none ↔ l = [] := by
  cases l with
  | nil => simp
  | cons y l =>
    have hne : x.1 ≠ y.1 := by
      intro he
      simp [he] at hd
    simp [hne]

/-- the last node is found by its address -/
theorem eq_exit_iff (hd : (keys (l ++ x :: m)).Nodup) :
    some x.1 = exit none (l ++ x :: m) ↔ m = [] := by
  cases m with
  | nil => simp
  | cons y m =>
    have hx : x.1 ∉ keys (y :: m) := by
      rw [keys_append, keys_cons] at hd
      exact (List.nodup_cons.mp (List.nodup_append.mp hd).2.1).1
    rw [exit_append, exit_cons]
    obtain ⟨k, hk, he⟩ := exit_mem (p := some x.1) (l := y :: m) (by simp)
    rw [he]
    constructor
    · intro hkx
      rw [Option.some.inj hkx] at hx
      exact absurd hk hx
    · intro hm
      cases hm

/-! ## segments -/

theorem segment_append (p : Option κ) (l m : List (κ × α)) (q : Option κ) :
    Segment h p (l ++ m) q ↔ Segment h p l (entry m q) ∧ Segment h (exit p l) m q := by
  induction l generalizing p with
  | nil => simp [Segment]
  | cons x l ih =>
    show h x.1 = some ⟨entry (l ++ m) q, p, x.2⟩ ∧ Segment h (some x.1) (l ++ m) q ↔ _
    rw [ih, entry_append, ← and_assoc]
    exact Iff.rfl

namespace Segment

theorem congr (hs : Segment h p l q) (hk : ∀ k ∈ keys l, h' k = h k) : Segment h' p l q := by
  induction l generalizing p with
  | nil => trivial
  | cons x l ih =>
    obtain ⟨hx, hl⟩ := hs
    rw [← hk x.1 (by simp)] at hx
    exact ⟨hx, ih hl fun k hkl => hk k (List.mem_cons_of_mem _ hkl)⟩

theorem allocated (hs : Segment h p l q) {k : κ} (hk : k ∈ keys l) : ∃ n, h k = some n := by
  induction l generalizing p with
  | nil => cases hk
  | cons x l ih =>
    rcases List.mem_cons.mp hk with rfl | hk
    · exact ⟨_, hs.1⟩
    · exact ih hs.2 hk

/-- the node at one place of a segment -/
theorem node (hs : Segment h p (l ++ x :: m) q) :
    h x.1 = some ⟨entry m q, exit p l, x.2⟩ :=
  ((segment_append p l (x :: m) q).mp hs).2.1

variable [DecidableEq κ]

theorem write_other (hs : Segment h p l q) {k : κ} (hk : k ∉ keys l) (v : Option (Node κ α)) :
    Segment (h.write k v) p l q :=
  hs.congr fun i hi => Heap.write_of_ne v fun he => hk (by rwa [← he])

/-- `first->prev = p'` -/
theorem modify_first (hs : Segment h p l q) (hd : (keys l).Nodup) (hl : l ≠ []) (p' : Option κ) :
    ∃ h', h.modify (entry l q) (fun n => { n with prev := p' }) = .ok h' ∧ Segment h' p' l q ∧
      (∀ k ∉ keys l, h' k = h k) := by
  cases l with
  | nil => exact absurd rfl hl
  | cons x l =>
    obtain ⟨hx, hrest⟩ := hs
    have hxl : x.1 ∉ keys l := (List.nodup_cons.mp hd).1
    refine ⟨_, Heap.modify_of_some _ hx, ⟨Heap.write_self _, hrest.write_other hxl _⟩, ?_⟩
    intro k hk
    exact Heap.write_of_ne _ fun he => hk (by simp [he])

/-- `last->next = q'` -/
theorem modify_last (hs : Segment h p l q) (hd : (keys l).Nodup) (hl : l ≠ []) (q' : Option κ) :
    ∃ h', h.modify (exit p l) (fun n => { n with next := q' }) = .ok h' ∧ Segment h' p l q' ∧
      (∀ k ∉ keys l, h' k = h k) := by
  obtain ⟨init, x, rfl⟩ : ∃ init x, l = init ++ [x] :=
    ⟨l.dropLast, l.getLast hl, (List.dropLast_append_getLast hl).symm⟩
  have hx : x.1 ∉ keys init := by
    intro hmem
    rw [keys_append, List.nodup_append] at hd
    exact hd.2.2 x.1 hmem x.1 (by simp) rfl
  obtain ⟨hinit, hlast⟩ := (segment_append p init [x] q).mp hs
  rw [exit_append]
  refine ⟨_, Heap.modify_of_some _ hlast.1, ?_, ?_⟩
  · rw [segment_append]
    exact ⟨hinit.write_other hx _, Heap.write_self _, trivial⟩
  · intro k hk
    exact Heap.write_of_ne _ fun he => hk (by simp [he])

/-- a node that has just been allocated and filled in -/
theorem single (h : Heap κ (Node κ α)) (k : κ) (p q : Option κ) (a : α) :
    Segment (h.write k (some ⟨q, p, a⟩)) p [(k, a)] q := ⟨Heap.write_self _, trivial⟩

end Segment

/-! ## loops -/

/-- what one pass through the body of a loop ends in -/
inductive Pass (κ σ : Type)
  /-- `break` or `return` -/
  | leave (s : σ)
  | again (s : σ) (node : Option κ)

section
variable {σ : Type} (heap : σ → Heap κ (Node κ α)) (link : Node κ α → Option κ)
  (body : κ → σ → Except Trap (σ × Bool))

/-- the body, which also tells whether it leaves the loop, and the step to the linked node: the
link is read when the body is done -/
def pass (k : κ) (s : σ) : Except Trap (Pass κ σ) :=
  match body k s with
  | .error f => .error f
  | .ok (s, true) => .ok (.leave s)
  | .ok (s, false) =>
    match (heap s).load (some k) with
    | .error f => .error f
    | .ok n => .ok (.again s (link n))

/-- at most so many tests of the condition -/
def iterate : ℕ → Option κ → σ → Except Trap (σ × Bool)
  | 0, _, _ => .error .outOfFuel
  | _ + 1, none, s => .ok (s, false)
  | n + 1, some k, s =>
    match pass heap link body k s with
    | .error f => .error f
    | .ok (.leave s) => .ok (s, true)
    | .ok (.again s next) => iterate n next s

/-- what a pass on the node `x` has to do in front of the nodes `l`: keep the invariant and go on
to the next one, or end the loop with the required result -/
inductive Advances (I : List (κ × α) → σ → Prop) (P : Except Trap (σ × Bool) → Prop)
    (x : κ × α) (l : List (κ × α)) : Except Trap (Pass κ σ) → Prop
  | fault (f : Trap) (h : P (.error f)) : Advances I P x l (.error f)
  | leave (s : σ) (h : P (.ok (s, true))) : Advances I P x l (.ok (.leave s))
  | again (s : σ) (h : I l s) : Advances I P x l (.ok (.again s (entry l none)))

variable {heap link body}

/-- **A loop over a list of nodes ends, with what its invariant gives at the end or with what a
pass ends it with.** -/
theorem iterate_rule {I : List (κ × α) → σ → Prop} {P : Except Trap (σ × Bool) → Prop}
    (hpass : ∀ x l s, I (x :: l) s → Advances I P x l (pass heap link body x.1 s))
    (hend : ∀ s, I [] s → P (.ok (s, false))) {n : ℕ} {l : List (κ × α)} {s : σ} (hI : I l s)
    (hn : l.length < n) : P (iterate heap link body n (entry l none) s) := by
  induction l generalizing n s with
  | nil =>
    obtain ⟨n, rfl⟩ : ∃ m, n = m + 1 := ⟨n - 1, by simp at hn; omega⟩
    exact hend s hI
  | cons x l ih =>
    obtain ⟨n, rfl⟩ : ∃ m, n = m + 1 := ⟨n - 1, by simp at hn; omega⟩
    have hn' : l.length < n := by simpa using hn
    show P (iterate heap link body (n + 1) (some x.1) s)
    rw [iterate]
    generalize hr : pass heap link body x.1 s = r
    have hadv := hpass x l s hI
    rw [hr] at hadv
    cases hadv with
    | fault f h => exact h
    | leave s' h => exact h
    | again s' h => exact ih h hn'

end
end Linked
end Library

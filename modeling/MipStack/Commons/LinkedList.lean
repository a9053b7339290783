import MipStack.Commons.Definitions
import MipStack.Library.Linked
import MipStack.Library.Keyed
import Mathlib.Tactic.Ring
import Mathlib.Tactic.Tauto

/-!
# The linked list of the three daemons (`list.c`, `list.h`, `queue.h`)

The other modules speak of Lean lists; here is why they may.

* `CList`, `ListNode`    the two structures of `list.h`; a node is a block in memory;
* `CList.push` … `CList.remove`   the functions, with the block that `calloc` gives as an argument;
* `CList.clear`, `.destroy`, `.clearDestroy`   the loops that free the values and the nodes;
* `Represents h list l`  the nodes `l`, with their addresses, are what the structure stands for;
* `list_refines`         **any sequence of calls does to memory what it does to the list**: nothing
                         outside the list is touched, no node is lost and none is freed twice;
* `clearDestroy_frees`   **after the list is cleared and destroyed, nothing of it is allocated**;
* `Represents.send_spec`, `.recv_spec`   the macros of `queue.h` are the `Queue` of the others.

A `void *` is an `Option` with `none` for `NULL`, and so is the result of a failed `calloc`.
-/

set_option linter.unusedSectionVars false

namespace MipStack
open Library Library.Linked

/-! ## data -/

abbrev ListNode (κ α : Type) := Node κ (Option α)

/-- `List` of the source -/
structure CList (κ : Type) where
  count : ℤ
  first : Option κ
  last : Option κ
  deriving DecidableEq, Repr

namespace CList
variable {κ α γ : Type} [DecidableEq κ]

/-! ## the functions -/

def create : CList κ := ⟨0, none, none⟩

/-- nothing happens without memory for the node -/
def push (list : CList κ) (h : Heap κ (ListNode κ α)) (calloc : Option κ) (value : Option α) :
    Except Trap (Heap κ (ListNode κ α) × CList κ) :=
  match calloc with
  | none => .ok (h, list)
  | some node =>
    let h := h.write node (some ⟨none, none, value⟩)
    if list.last = none then
      .ok (h, ⟨list.count + 1, some node, some node⟩)
    else do
      let h ← h.modify list.last fun n => { n with next := some node }
      let h ← h.modify (some node) fun n => { n with prev := list.last }
      .ok (h, ⟨list.count + 1, list.first, some node⟩)

def unshift (list : CList κ) (h : Heap κ (ListNode κ α)) (calloc : Option κ) (value : Option α) :
    Except Trap (Heap κ (ListNode κ α) × CList κ) :=
  match calloc with
  | none => .ok (h, list)
  | some node =>
    let h := h.write node (some ⟨none, none, value⟩)
    if list.first = none then
      .ok (h, ⟨list.count + 1, some node, some node⟩)
    else do
      let h ← h.modify (some node) fun n => { n with next := list.first }
      let h ← h.modify list.first fun n => { n with prev := some node }
      .ok (h, ⟨list.count + 1, some node, list.last⟩)

/-- the last lines of `List_remove`, behind the four cases -/
def release (list : CList κ) (h : Heap κ (ListNode κ α)) (node : Option κ) :
    Except Trap (Heap κ (ListNode κ α) × CList κ × Option α) := do
  let n ← h.load node
  let h ← h.free node
  .ok (h, { list with count := list.count - 1 }, n.value)

/-- the list is left as it is by then where a check fails -/
def remove (list : CList κ) (h : Heap κ (ListNode κ α)) (node : Option κ) :
    Except Trap (Heap κ (ListNode κ α) × CList κ × Option α) :=
  if list.first = none ∨ list.last = none then .ok (h, list, none)
  else if node = none then .ok (h, list, none)
  else if node = list.first ∧ node = list.last then
    release { list with first := none, last := none } h node
  else if node = list.first then do
    let n ← h.load node
    if n.next = none then .ok (h, { list with first := none }, none)
    else
      let h ← h.modify n.next fun n => { n with prev := none }
      release { list with first := n.next } h node
  else if node = list.last then do
    let n ← h.load node
    if n.prev = none then .ok (h, { list with last := none }, none)
    else
      let h ← h.modify n.prev fun n => { n with next := none }
      release { list with last := n.prev } h node
  else do
    let n ← h.load node
    let h ← h.modify n.next fun after => { after with prev := n.prev }
    let h ← h.modify n.prev fun before => { before with next := n.next }
    release list h node

def pop (list : CList κ) (h : Heap κ (ListNode κ α)) :
    Except Trap (Heap κ (ListNode κ α) × CList κ × Option α) :=
  if list.last = none then .ok (h, list, none) else list.remove h list.last

def shift (list : CList κ) (h : Heap κ (ListNode κ α)) :
    Except Trap (Heap κ (ListNode κ α) × CList κ × Option α) :=
  if list.first = none then .ok (h, list, none) else list.remove h list.first

/-- `LIST_FOREACH(list, first, next, cur)`, with the heap as part of the state of the loop; the
result tells whether the loop has been left -/
def foreach {σ : Type} (list : CList κ) (heap : σ → Heap κ (ListNode κ α))
    (body : κ → σ → Except Trap (σ × Bool)) (fuel : ℕ) (s : σ) : Except Trap (σ × Bool) :=
  iterate heap Node.next body fuel list.first s

/-- `free(cur->value)` -/
def freeValue [DecidableEq α] (h : Heap κ (ListNode κ α)) (cur : κ) (values : Heap α γ) :
    Except Trap (Heap α γ × Bool) := do
  let n ← h.load (some cur)
  let values ← values.free n.value
  .ok (values, false)

/-- the values are blocks of another heap -/
def clear [DecidableEq α] (list : CList κ) (h : Heap κ (ListNode κ α)) (values : Heap α γ)
    (fuel : ℕ) : Except Trap (Heap α γ) :=
  (list.foreach (fun _ => h) (freeValue h) fuel values).map Prod.fst

/-- `if (cur->prev) free(cur->prev)` -/
def freePrev (cur : κ) (h : Heap κ (ListNode κ α)) :
    Except Trap (Heap κ (ListNode κ α) × Bool) := do
  let n ← h.load (some cur)
  if n.prev = none then .ok (h, false)
  else
    let h ← h.free n.prev
    .ok (h, false)

def destroy (list : CList κ) (h : Heap κ (ListNode κ α)) (fuel : ℕ) :
    Except Trap (Heap κ (ListNode κ α)) := do
  let s ← list.foreach id freePrev fuel h
  s.1.free list.last

def clearDestroy [DecidableEq α] (list : CList κ) (h : Heap κ (ListNode κ α)) (values : Heap α γ)
    (fuel : ℕ) : Except Trap (Heap κ (ListNode κ α) × Heap α γ) := do
  let values ← list.clear h values fuel
  let h ← list.destroy h fuel
  .ok (h, values)

/-! ## what a list stands for -/

structure Represents (h : Heap κ (ListNode κ α)) (list : CList κ) (l : List (κ × Option α)) :
    Prop where
  distinct : (keys l).Nodup
  linked : Segment h none l none
  first : list.first = entry l none
  last : list.last = exit none l
  count : list.count = l.length

variable {h : Heap κ (ListNode κ α)} {list : CList κ} {l m : List (κ × Option α)}
  {x : κ × Option α} {k : κ} {p : Option κ}

theorem represents_create (h : Heap κ (ListNode κ α)) : Represents h create [] :=
  ⟨List.nodup_nil, trivial, rfl, rfl, rfl⟩

namespace Represents

theorem first_none_iff (hr : Represents h list l) : list.first = none ↔ l = [] := by
  rw [hr.first, entry_eq_none_iff]

theorem last_none_iff (hr : Represents h list l) : list.last = none ↔ l = [] := by
  rw [hr.last, exit_eq_none_iff]

theorem not_mem_of_free (hr : Represents h list l) (hk : h k = none) : k ∉ keys l := by
  intro hmem
  obtain ⟨n, hn⟩ := hr.linked.allocated hmem
  rw [hk] at hn
  cases hn

/-- a list beside the changed one -/
theorem keep {h' : Heap κ (ListNode κ α)} {a b : List κ} (hr : Represents h list l)
    (hf : Heap.Frame h h' a b) (hd : ∀ k ∈ keys l, k ∉ a) : Represents h' list l where
  distinct := hr.distinct
  linked := hr.linked.congr fun k hk => by
    obtain ⟨n, hn⟩ := hr.linked.allocated hk
    rw [hn, hf.keeps hn (hd k hk)]
  first := hr.first
  last := hr.last
  count := hr.count

end Represents

/-! ## one lemma for each function -/

theorem Represents.push_spec (hr : Represents h list l) (hk : h k = none) (v : Option α) :
    ∃ h' list', list.push h (some k) v = .ok (h', list') ∧ Represents h' list' (l ++ [(k, v)]) ∧
      Heap.Frame h h' (keys l) (keys (l ++ [(k, v)])) := by
  have hkl : k ∉ keys l := hr.not_mem_of_free hk
  have hd : (keys (l ++ [(k, v)])).Nodup := by
    rw [keys_append, keys_cons, keys_nil, List.nodup_append]
    exact ⟨hr.distinct, List.nodup_singleton k, fun a ha b hb he => hkl (by simp_all)⟩
  have hcount : list.count + 1 = ((l ++ [(k, v)]).length : ℤ) := by
    rw [hr.count, List.length_append]
    simp
  have halloc : Heap.Frame h (h.write k (some ⟨none, none, v⟩)) (keys l) (keys (l ++ [(k, v)])) :=
    (Heap.Frame.alloc (keys l) _ hk).congr (fun _ => Iff.rfl) (fun i => by simp [or_comm])
  by_cases hl : l = []
  · obtain rfl := hl
    refine ⟨_, _, if_pos hr.last, ⟨hd, Segment.single h k none none v, rfl, rfl, hcount⟩, halloc⟩
  · have hlast : list.last ≠ none := fun he => hl (hr.last_none_iff.mp he)
    have hs1 : Segment (h.write k (some ⟨none, none, v⟩)) none l none := hr.linked.write_other hkl _
    obtain ⟨h2, hm2, hs2, ho2⟩ := hs1.modify_last hr.distinct hl (some k)
    have hnode : Segment h2 none [(k, v)] none :=
      (Segment.single h k none none v).congr fun i hi => ho2 i (by simp_all)
    obtain ⟨h3, hm3, hs3, ho3⟩ := hnode.modify_first (List.nodup_singleton k) (by simp) list.last
    rw [← hr.last] at hm2
    rw [entry_cons] at hm3
    have hs : Segment h3 none (l ++ [(k, v)]) none := by
      rw [segment_append, ← hr.last]
      exact ⟨hs2.congr fun i hi => ho3 i (by rintro hik; simp_all), hs3⟩
    refine ⟨h3, ⟨list.count + 1, list.first, some k⟩, ?_, ⟨hd, hs, ?_, by simp, hcount⟩, ?_⟩
    · rw [push]
      simp only [if_neg hlast, hm2]
      show (do let h ← h2.modify (some k) _; _) = _
      rw [hm3]
      rfl
    · rw [hr.first, entry_append]
      cases l with
      | nil => exact absurd rfl hl
      | cons y l => rfl
    · refine halloc.trans (Heap.Frame.of_others fun i hi => ?_)
      rw [keys_append, List.mem_append, not_or] at hi
      rw [ho3 i hi.2, ho2 i hi.1]

theorem Represents.unshift_spec (hr : Represents h list l) (hk : h k = none) (v : Option α) :
    ∃ h' list', list.unshift h (some k) v = .ok (h', list') ∧ Represents h' list' ((k, v) :: l) ∧
      Heap.Frame h h' (keys l) (keys ((k, v) :: l)) := by
  have hkl : k ∉ keys l := hr.not_mem_of_free hk
  have hd : (keys ((k, v) :: l)).Nodup := List.nodup_cons.mpr ⟨hkl, hr.distinct⟩
  have hcount : list.count + 1 = (((k, v) :: l).length : ℤ) := by
    rw [hr.count, List.length_cons]
    push_cast
    rfl
  have halloc : Heap.Frame h (h.write k (some ⟨none, none, v⟩)) (keys l) (keys ((k, v) :: l)) :=
    Heap.Frame.alloc (keys l) _ hk
  by_cases hl : l = []
  · obtain rfl := hl
    exact ⟨_, _, if_pos hr.first, ⟨hd, Segment.single h k none none v, rfl, rfl, hcount⟩, halloc⟩
  · have hfirst : list.first ≠ none := fun he => hl (hr.first_none_iff.mp he)
    obtain ⟨h2, hm2, hs2, ho2⟩ := (Segment.single h k none none v).modify_last
      (List.nodup_singleton k) (by simp) list.first
    have hs : Segment h2 none l none := (hr.linked.write_other hkl _).congr fun i hi =>
      ho2 i (by rintro hik; simp_all)
    obtain ⟨h3, hm3, hs3, ho3⟩ := hs.modify_first hr.distinct hl (some k)
    rw [exit_cons, exit_nil] at hm2
    rw [← hr.first] at hm3
    have hnode : Segment h3 none [(k, v)] list.first := hs2.congr fun i hi => ho3 i (by simp_all)
    refine ⟨h3, ⟨list.count + 1, some k, list.last⟩, ?_, ⟨hd, ?_, rfl, ?_, hcount⟩, ?_⟩
    · rw [unshift]
      simp only [if_neg hfirst, hm2]
      show (do let h ← h2.modify list.first _; _) = _
      rw [hm3]
      rfl
    · refine ⟨?_, hs3⟩
      rw [← hr.first]
      exact hnode.1
    · rw [hr.last]
      cases l with
      | nil => exact absurd rfl hl
      | cons y l => rfl
    · refine halloc.trans (Heap.Frame.of_others fun i hi => ?_)
      rw [keys_cons, List.mem_cons, not_or] at hi
      rw [ho3 i hi.2, ho2 i (by simpa using hi.1)]

/-- the nodes in front of `x` and behind it are linked past it, and `x` is not released yet -/
structure Unlinked (h : Heap κ (ListNode κ α)) (list : CList κ) (l : List (κ × Option α))
    (x : κ × Option α) (m : List (κ × Option α)) : Prop where
  linked : Segment h none (l ++ m) none
  node : ∃ n, h x.1 = some n ∧ n.value = x.2
  first : list.first = entry (l ++ m) none
  last : list.last = exit none (l ++ m)
  count : list.count = (l ++ x :: m).length

theorem distinct_unlink (hd : (keys (l ++ x :: m)).Nodup) :
    (keys (l ++ m)).Nodup ∧ x.1 ∉ keys (l ++ m) := by
  rw [keys_append, keys_cons] at hd
  rw [keys_append]
  exact (List.nodup_middle.mp hd |> List.nodup_cons.mp).symm

theorem Unlinked.release_spec (hu : Unlinked h list l x m) (hd : (keys (l ++ x :: m)).Nodup) :
    ∃ h' list', list.release h (some x.1) = .ok (h', list', x.2) ∧ Represents h' list' (l ++ m) ∧
      Heap.Frame h h' (keys (l ++ x :: m)) (keys (l ++ m)) := by
  obtain ⟨n, hn, hv⟩ := hu.node
  obtain ⟨hd', hx⟩ := distinct_unlink hd
  refine ⟨h.write x.1 none, { list with count := list.count - 1 }, ?_,
    ⟨hd', hu.linked.write_other hx _, hu.first, hu.last, ?_⟩, ?_⟩
  · rw [release, Heap.load_of_some hn, Heap.free_of_some hn, ← hv]
    rfl
  · show list.count - 1 = _
    rw [hu.count, List.length_append, List.length_append, List.length_cons]
    push_cast
    ring
  · exact (Heap.Frame.free h (keys (l ++ m))).congr (fun i => by simp; tauto) fun _ => Iff.rfl

theorem Represents.remove_unlinks (hr : Represents h list (l ++ x :: m)) :
    ∃ h1 list1, list.remove h (some x.1) = list1.release h1 (some x.1) ∧ Unlinked h1 list1 l x m ∧
      ∀ i ∉ keys (l ++ x :: m), h1 i = h i := by
  have hne : ¬ (list.first = none ∨ list.last = none) := by
    rw [hr.first_none_iff, hr.last_none_iff]
    simp
  have hfirst : some x.1 = list.first ↔ l = [] := by
    rw [hr.first]
    exact eq_entry_iff hr.distinct
  have hlast : some x.1 = list.last ↔ m = [] := by
    rw [hr.last]
    exact eq_exit_iff hr.distinct
  obtain ⟨hsl, hnode, hsm⟩ := (segment_append none l (x :: m) none).mp hr.linked
  have hdl : (keys l).Nodup := by
    have h' := hr.distinct
    rw [keys_append] at h'
    exact (List.nodup_append.mp h').1
  have hdm : (keys m).Nodup := by
    have h' := hr.distinct
    rw [keys_append, keys_cons] at h'
    exact (List.nodup_cons.mp (List.nodup_append.mp h').2.1).2
  have hxl : x.1 ∉ keys l := fun hmem =>
    (distinct_unlink hr.distinct).2 (by rw [keys_append]; exact List.mem_append_left _ hmem)
  have hxm : x.1 ∉ keys m := fun hmem =>
    (distinct_unlink hr.distinct).2 (by rw [keys_append]; exact List.mem_append_right _ hmem)
  have hdisj : ∀ i ∈ keys l, i ∉ keys m := by
    have h' := (distinct_unlink hr.distinct).1
    rw [keys_append] at h'
    exact fun i hi hm => (List.nodup_append.mp h').2.2 i hi i hm rfl
  have hload := Heap.load_of_some hnode
  rw [remove, if_neg hne, if_neg (by simp)]
  by_cases hl : l = []
  · obtain rfl := hl
    by_cases hm : m = []
    · -- the only node
      obtain rfl := hm
      rw [if_pos ⟨hfirst.mpr rfl, hlast.mpr rfl⟩]
      exact ⟨h, _, rfl, ⟨trivial, ⟨_, hnode, rfl⟩, rfl, rfl, hr.count⟩, fun _ _ => rfl⟩
    · -- the first of several
      obtain ⟨h1, hm1, hs1, ho1⟩ := hsm.modify_first hdm hm none
      have hnext : entry m none ≠ none := fun he => hm (entry_eq_none_iff.mp he)
      rw [if_neg (fun hc => hm (hlast.mp hc.2)), if_pos (hfirst.mpr rfl), hload]
      refine ⟨h1, { list with first := entry m none }, ?_, ⟨hs1, ?_, rfl, ?_, hr.count⟩, ?_⟩
      · show (if entry m none = none then _ else do let h ← h.modify (entry m none) _; _) = _
        rw [if_neg hnext, hm1]
        rfl
      · exact ⟨_, (ho1 x.1 hxm).trans hnode, rfl⟩
      · show list.last = _
        rw [hr.last]
        cases m with
        | nil => exact absurd rfl hm
        | cons y m => rfl
      · intro i hi
        exact ho1 i fun h => hi (List.mem_cons_of_mem _ h)
  · by_cases hm : m = []
    · -- the last of several
      obtain rfl := hm
      obtain ⟨h1, hm1, hs1, ho1⟩ := hsl.modify_last hdl hl none
      have hprev : exit none l ≠ none := fun he => hl (exit_eq_none_iff.mp he)
      rw [if_neg (fun hc => hl (hfirst.mp hc.1)), if_neg (fun hc => hl (hfirst.mp hc)),
        if_pos (hlast.mpr rfl), hload]
      refine ⟨h1, { list with last := exit none l }, ?_, ⟨?_, ?_, ?_, ?_, hr.count⟩, ?_⟩
      · show (if exit none l = none then _ else do let h ← h.modify (exit none l) _; _) = _
        rw [if_neg hprev, hm1]
        rfl
      · rwa [List.append_nil]
      · exact ⟨_, (ho1 x.1 hxl).trans hnode, rfl⟩
      · show list.first = _
        rw [hr.first, entry_append, List.append_nil]
        cases l with
        | nil => exact absurd rfl hl
        | cons y l => rfl
      · rw [List.append_nil]
      · intro i hi
        exact ho1 i fun h => hi (by rw [keys_append]; exact List.mem_append_left _ h)
    · -- between two others
      obtain ⟨h1, hm1, hs1, ho1⟩ := hsm.modify_first hdm hm (exit none l)
      have hsl1 : Segment h1 none l (some x.1) := hsl.congr fun i hi => ho1 i (hdisj i hi)
      obtain ⟨h2, hm2, hs2, ho2⟩ := hsl1.modify_last hdl hl (entry m none)
      rw [if_neg (fun hc => hl (hfirst.mp hc.1)), if_neg (fun hc => hl (hfirst.mp hc)),
        if_neg (fun hc => hm (hlast.mp hc)), hload]
      refine ⟨h2, list, ?_, ⟨?_, ?_, ?_, ?_, hr.count⟩, ?_⟩
      · show (h.modify (entry m none) _ >>= _) = _
        rw [hm1]
        show (h1.modify (exit none l) _ >>= _) = _
        rw [hm2]
        rfl
      · rw [segment_append]
        exact ⟨hs2, hs1.congr fun i hi => ho2 i fun hil => hdisj i hil hi⟩
      · exact ⟨_, ((ho2 x.1 hxl).trans (ho1 x.1 hxm)).trans hnode, rfl⟩
      · rw [hr.first, entry_append, entry_append]
        cases l with
        | nil => exact absurd rfl hl
        | cons y l => rfl
      · rw [hr.last, exit_append, exit_append]
        cases m with
        | nil => exact absurd rfl hm
        | cons y m => rfl
      · intro i hi
        rw [keys_append, List.mem_append, not_or, keys_cons, List.mem_cons, not_or] at hi
        rw [ho2 i hi.1, ho1 i hi.2.2]

/-- **`List_remove` of a node of the list takes it out and frees it.** -/
theorem Represents.remove_spec (hr : Represents h list (l ++ x :: m)) :
    ∃ h' list', list.remove h (some x.1) = .ok (h', list', x.2) ∧ Represents h' list' (l ++ m) ∧
      Heap.Frame h h' (keys (l ++ x :: m)) (keys (l ++ m)) := by
  obtain ⟨h1, list1, he, hu, ho⟩ := hr.remove_unlinks
  obtain ⟨h', list', hrel, hr', hf⟩ := hu.release_spec hr.distinct
  exact ⟨h', list', he.trans hrel, hr', (Heap.Frame.of_others ho).trans hf⟩

theorem Represents.pop_spec (hr : Represents h list l) :
    ∃ h' list', list.pop h = .ok (h', list', l.getLast?.bind Prod.snd) ∧
      Represents h' list' l.dropLast ∧ Heap.Frame h h' (keys l) (keys l.dropLast) := by
  by_cases hl : l = []
  · obtain rfl := hl
    exact ⟨h, list, if_pos hr.last, hr, Heap.Frame.refl h _⟩
  · obtain ⟨init, x, rfl⟩ : ∃ init x, l = init ++ [x] :=
      ⟨l.dropLast, l.getLast hl, (List.dropLast_append_getLast hl).symm⟩
    have hlast : list.last = some x.1 := by rw [hr.last, exit_append, exit_cons, exit_nil]
    have hs := hr.remove_spec
    rw [List.append_nil] at hs
    rw [pop, if_neg (by rw [hlast]; simp), hlast, List.dropLast_concat, List.getLast?_concat]
    exact hs

theorem Represents.shift_spec (hr : Represents h list l) :
    ∃ h' list', list.shift h = .ok (h', list', l.head?.bind Prod.snd) ∧
      Represents h' list' l.tail ∧ Heap.Frame h h' (keys l) (keys l.tail) := by
  cases l with
  | nil => exact ⟨h, list, if_pos hr.first, hr, Heap.Frame.refl h _⟩
  | cons x l =>
    rw [shift, if_neg (by rw [hr.first]; simp), hr.first]
    exact Represents.remove_spec (l := []) hr

/-! ## calls -/

/-- a call of one of the functions, with what `calloc` answers where it asks for memory -/
inductive Call (κ α : Type)
  | push (calloc : Option κ) (value : Option α)
  | unshift (calloc : Option κ) (value : Option α)
  | pop
  | shift
  | remove (node : Option κ)
  deriving DecidableEq, Repr

def run (list : CList κ) (h : Heap κ (ListNode κ α)) :
    Call κ α → Except Trap (Heap κ (ListNode κ α) × CList κ × Option α)
  | .push calloc v => (list.push h calloc v).map fun s => (s.1, s.2, none)
  | .unshift calloc v => (list.unshift h calloc v).map fun s => (s.1, s.2, none)
  | .pop => list.pop h
  | .shift => list.shift h
  | .remove node => list.remove h node

/-- one call after the other, with their results -/
def runAll : List (Call κ α) → CList κ → Heap κ (ListNode κ α) →
    Except Trap (Heap κ (ListNode κ α) × CList κ × List (Option α))
  | [], list, h => .ok (h, list, [])
  | c :: calls, list, h => do
    let s ← list.run h c
    let t ← runAll calls s.2.1 s.1
    .ok (t.1, t.2.1, s.2.2 :: t.2.2)

/-- what a call does to the list, and its result -/
def apply (l : List (κ × Option α)) : Call κ α → List (κ × Option α) × Option α
  | .push none _ => (l, none)
  | .push (some k) v => (l ++ [(k, v)], none)
  | .unshift none _ => (l, none)
  | .unshift (some k) v => ((k, v) :: l, none)
  | .pop => (l.dropLast, l.getLast?.bind Prod.snd)
  | .shift => (l.tail, l.head?.bind Prod.snd)
  | .remove none => (l, none)
  | .remove (some k) => (erase Prod.fst k l, (lookup Prod.fst k l).bind Prod.snd)

def applyAll : List (Call κ α) → List (κ × Option α) → List (κ × Option α) × List (Option α)
  | [], l => (l, [])
  | c :: calls, l =>
    ((applyAll calls (apply l c).1).1, (apply l c).2 :: (applyAll calls (apply l c).1).2)

/-- `calloc` gives a block that neither the list nor anybody else has, and a node to be removed is
one of the list -/
def Admissible (taken : κ → Prop) (l : List (κ × Option α)) : Call κ α → Prop
  | .push calloc _ => ∀ k, calloc = some k → k ∉ keys l ∧ ¬ taken k
  | .unshift calloc _ => ∀ k, calloc = some k → k ∉ keys l ∧ ¬ taken k
  | .remove node => ∀ k, node = some k → l = [] ∨ k ∈ keys l
  | _ => True

def AllAdmissible (taken : κ → Prop) : List (Call κ α) → List (κ × Option α) → Prop
  | [], _ => True
  | c :: calls, l => Admissible taken l c ∧ AllAdmissible taken calls (apply l c).1

theorem Represents.remove_null (hr : Represents h list l) (hnode : l = [] ∨ p = none) :
    list.remove h p = .ok (h, list, none) := by
  rcases hnode with rfl | rfl
  · exact if_pos (Or.inl hr.first)
  · rw [remove]
    split
    · rfl
    · rfl

/-- **A call does to memory what it does to the list.** -/
theorem Represents.run_spec {taken : κ → Prop} {c : Call κ α} (hr : Represents h list l)
    (hfree : ∀ k, k ∉ keys l → ¬ taken k → h k = none) (hc : Admissible taken l c) :
    ∃ h' list', list.run h c = .ok (h', list', (apply l c).2) ∧
      Represents h' list' (apply l c).1 ∧ Heap.Frame h h' (keys l) (keys (apply l c).1) := by
  cases c with
  | push calloc v =>
    cases calloc with
    | none => exact ⟨h, list, rfl, hr, Heap.Frame.refl h _⟩
    | some k =>
      obtain ⟨hkl, hk⟩ := hc k rfl
      obtain ⟨h', list', he, hrest⟩ := hr.push_spec (hfree k hkl hk) v
      exact ⟨h', list', by rw [run, he]; rfl, hrest⟩
  | unshift calloc v =>
    cases calloc with
    | none => exact ⟨h, list, rfl, hr, Heap.Frame.refl h _⟩
    | some k =>
      obtain ⟨hkl, hk⟩ := hc k rfl
      obtain ⟨h', list', he, hrest⟩ := hr.unshift_spec (hfree k hkl hk) v
      exact ⟨h', list', by rw [run, he]; rfl, hrest⟩
  | pop => exact hr.pop_spec
  | shift => exact hr.shift_spec
  | remove node =>
    cases node with
    | none => exact ⟨h, list, hr.remove_null (Or.inr rfl), hr, Heap.Frame.refl h _⟩
    | some k =>
      rcases hc k rfl with rfl | hk
      · exact ⟨h, list, hr.remove_null (Or.inl rfl), hr, Heap.Frame.refl h _⟩
      · obtain ⟨x, hx, rfl⟩ := List.mem_map.mp hk
        have hlookup : lookup Prod.fst x.1 l = some x :=
          (Unique.lookup_eq_some_iff hr.distinct).mpr ⟨hx, rfl⟩
        obtain ⟨before, after, rfl, _, herase⟩ := exists_append_of_lookup hlookup
        show ∃ h' list', list.remove h (some x.1) = .ok (h', list', _) ∧ _
        rw [apply, herase, hlookup]
        exact hr.remove_spec

/-- a sequence of calls, where `taken` are the blocks that stay with others all the time -/
theorem Represents.runAll_spec {taken : κ → Prop} {calls : List (Call κ α)}
    (hr : Represents h list l) (hfree : ∀ k, k ∉ keys l → ¬ taken k → h k = none)
    (hc : AllAdmissible taken calls l) :
    ∃ h' list', runAll calls list h = .ok (h', list', (applyAll calls l).2) ∧
      Represents h' list' (applyAll calls l).1 ∧
      Heap.Frame h h' (keys l) (keys (applyAll calls l).1) := by
  induction calls generalizing h list l with
  | nil => exact ⟨h, list, rfl, hr, Heap.Frame.refl h _⟩
  | cons c calls ih =>
    obtain ⟨h1, list1, he, hr1, hf1⟩ := hr.run_spec hfree hc.1
    have hfree1 : ∀ k, k ∉ keys (apply l c).1 → ¬ taken k → h1 k = none := by
      intro k hk ht
      rw [hf1.free_iff hk]
      by_cases hkl : k ∈ keys l
      · exact Or.inl hkl
      · exact Or.inr (hfree k hkl ht)
    obtain ⟨h2, list2, he2, hr2, hf2⟩ := ih hr1 hfree1 hc.2
    refine ⟨h2, list2, ?_, hr2, hf1.trans hf2⟩
    rw [runAll, he]
    show (runAll calls list1 h1 >>= _) = _
    rw [he2]
    rfl

/-- **Any sequence of calls does to memory what it does to the list.** -/
theorem list_refines {calls : List (Call κ α)} (hr : Represents h list l)
    (hc : AllAdmissible (fun k => k ∉ keys l ∧ h k ≠ none) calls l) :
    ∃ h' list', runAll calls list h = .ok (h', list', (applyAll calls l).2) ∧
      Represents h' list' (applyAll calls l).1 ∧
      Heap.Frame h h' (keys l) (keys (applyAll calls l).1) := by
  refine hr.runAll_spec ?_ hc
  intro k hk hn
  by_contra hne
  exact hn ⟨hk, hne⟩

theorem list_refines_five_calls :
    ∃ h' list', runAll [.push (some 0) (some 10), .unshift (some 1) (some 11), .remove (some 0),
        .pop, .pop] create (fun _ : ℕ => (none : Option (ListNode ℕ ℕ)))
        = .ok (h', list', [none, none, some 10, some 11, none]) ∧
      Represents h' list' [] ∧ Heap.Frame (fun _ => none) h' [] [] :=
  list_refines (represents_create _) (by simp [AllAdmissible, Admissible, apply])

/-- `Queue_send` -/
theorem Represents.send_spec {q : Queue α} (hr : Represents h list l)
    (hq : l.map Prod.snd = q.map some) (hk : h k = none) (a : α) :
    ∃ h' list' l', list.unshift h (some k) (some a) = .ok (h', list') ∧ Represents h' list' l' ∧
      l'.map Prod.snd = (q.send a).map some := by
  obtain ⟨h', list', he, hr', _⟩ := hr.unshift_spec hk (some a)
  refine ⟨h', list', _, he, hr', ?_⟩
  rw [List.map_cons, hq]
  rfl

/-- `Queue_recv` -/
theorem Represents.recv_spec {q : Queue α} (hr : Represents h list l)
    (hq : l.map Prod.snd = q.map some) :
    ∃ h' list' l', list.pop h = .ok (h', list', q.recv.map Prod.fst) ∧ Represents h' list' l' ∧
      l'.map Prod.snd = ((q.recv.map Prod.snd).getD []).map some := by
  obtain ⟨h', list', he, hr', _⟩ := hr.pop_spec
  have hv : l.getLast?.bind Prod.snd = q.recv.map Prod.fst := by
    have hlast : (l.map Prod.snd).getLast? = (q.map some).getLast? := by rw [hq]
    rw [List.getLast?_map, List.getLast?_map] at hlast
    cases hl : l.getLast? with
    | none =>
      rw [hl] at hlast
      simpa [Queue.recv] using hlast
    | some x =>
      rw [hl] at hlast
      obtain ⟨a, ha, hx⟩ := Option.map_eq_some_iff.mp hlast.symm
      simp [Queue.recv, ha, ← hx]
  refine ⟨h', list', _, by rw [he, hv], hr', ?_⟩
  rw [List.map_dropLast, hq, Queue.recv]
  cases hl : q.getLast? with
  | none => simp [List.getLast?_eq_none_iff.mp hl]
  | some a => simp [List.map_dropLast]

/-! ## loops over a list -/

/-- the values of the nodes `todo` are what is left to be freed -/
structure Clearing [DecidableEq α] (values : Heap α γ) (l todo : List (κ × Option α)) (vs : Heap α γ) : Prop where
  done : ∃ done, l = done ++ todo
  frame : Heap.Frame values vs (l.filterMap Prod.snd) (todo.filterMap Prod.snd)
  distinct : (todo.filterMap Prod.snd).Nodup
  allocated : ∀ a ∈ todo.filterMap Prod.snd, vs a ≠ none

theorem Clearing.step [DecidableEq α] {values vs : Heap α γ} {todo : List (κ × Option α)}
    (hc : Clearing values l (x :: todo) vs) :
    ∃ vs', vs.free x.2 = .ok vs' ∧ Clearing values l todo vs' := by
  obtain ⟨⟨done, rfl⟩, hf, hd, ha⟩ := hc
  have hdone : ∃ done', done ++ x :: todo = done' ++ todo := ⟨done ++ [x], by simp⟩
  obtain ⟨k, v⟩ := x
  cases v with
  | none => exact ⟨vs, rfl, hdone, hf, hd, ha⟩
  | some a =>
    have hsplit : ((k, some a) :: todo).filterMap Prod.snd = a :: todo.filterMap Prod.snd := rfl
    rw [hsplit] at hd ha hf
    obtain ⟨hat, hd'⟩ := List.nodup_cons.mp hd
    obtain ⟨g, hg⟩ := Option.ne_none_iff_exists'.mp (ha a List.mem_cons_self)
    refine ⟨_, Heap.free_of_some hg, hdone, hf.trans (Heap.Frame.free vs _), hd', ?_⟩
    intro b hb
    rw [Heap.write_of_ne _ fun he => hat (by rwa [← he])]
    exact ha b (List.mem_cons_of_mem a hb)

/-- **`List_clear` frees every value once.** -/
theorem Represents.clear_spec [DecidableEq α] {values : Heap α γ} {fuel : ℕ}
    (hr : Represents h list l) (hd : (l.filterMap Prod.snd).Nodup)
    (ha : ∀ a ∈ l.filterMap Prod.snd, values a ≠ none) (hn : l.length < fuel) :
    ∃ values', list.clear h values fuel = .ok values' ∧
      Heap.Frame values values' (l.filterMap Prod.snd) [] := by
  have hpass : ∀ x todo vs, Clearing values l (x :: todo) vs →
      Advances (Clearing values l) (fun r => ∃ vs, r = .ok (vs, false) ∧ Clearing values l [] vs)
        x todo (pass (fun _ => h) Node.next (freeValue h) x.1 vs) := by
    intro x todo vs hc
    obtain ⟨done, rfl⟩ := hc.done
    obtain ⟨vs', hfree, hc'⟩ := hc.step
    have hload := Heap.load_of_some hr.linked.node
    have hbody : freeValue h x.1 vs = .ok (vs', false) := by
      rw [freeValue, hload]
      show (vs.free x.2 >>= _) = _
      rw [hfree]
      rfl
    rw [Linked.pass, hbody]
    simp only [hload]
    exact .again vs' hc'
  obtain ⟨values', hrun, hc⟩ := iterate_rule hpass (fun vs h => ⟨vs, rfl, h⟩)
    ⟨⟨[], rfl⟩, Heap.Frame.refl _ _, hd, ha⟩ hn
  refine ⟨values', ?_, hc.frame⟩
  rw [clear, foreach, hr.first, hrun]
  rfl

/-- the nodes `todo` and the one in front of them are what is left to be freed -/
structure Destroying (h : Heap κ (ListNode κ α)) (l todo : List (κ × Option α))
    (h1 : Heap κ (ListNode κ α)) (before : Option κ) : Prop where
  done : ∃ done, l = done ++ todo ∧ before = exit none done
  linked : Segment h1 before todo none
  allocated : ∀ k, before = some k → h1 k ≠ none
  frame : Heap.Frame h h1 (keys l) (before.toList ++ keys todo)

def DestroyingFrom (h : Heap κ (ListNode κ α)) (l todo : List (κ × Option α))
    (h1 : Heap κ (ListNode κ α)) : Prop := ∃ before, Destroying h l todo h1 before

theorem Destroying.step {h1 : Heap κ (ListNode κ α)} {todo : List (κ × Option α)}
    (hd : (keys l).Nodup) (hs : Destroying h l (x :: todo) h1 p) :
    ∃ h2, freePrev x.1 h1 = .ok (h2, false) ∧ h2 x.1 = h1 x.1 ∧
      Destroying h l todo h2 (some x.1) := by
  obtain ⟨⟨done, rfl, hp⟩, ⟨hx, htodo⟩, halloc, hf⟩ := hs
  rw [keys_append, keys_cons, List.nodup_append] at hd
  have hload := Heap.load_of_some hx
  have hdone : ∃ done', done ++ x :: todo = done' ++ todo ∧ some x.1 = exit none done' :=
    ⟨done ++ [x], by simp, by simp⟩
  cases p with
  | none =>
    refine ⟨h1, ?_, rfl, hdone, htodo, ?_, hf⟩
    · rw [freePrev, hload]
      rfl
    · rintro k hk
      obtain rfl := Option.some.inj hk
      rw [hx]
      simp
  | some k =>
    have hk : ∀ i ∈ x.1 :: keys todo, i ≠ k := by
      rintro i hi rfl
      obtain ⟨j, hj, hej⟩ := exit_mem (p := none) (l := done) (by rintro rfl; cases hp)
      rw [← hp] at hej
      exact hd.2.2 j hj i hi (Option.some.inj hej).symm
    have ho : ∀ i ∈ x.1 :: keys todo, h1.write k none i = h1 i := fun i hi =>
      Heap.write_of_ne _ (hk i hi)
    obtain ⟨n, hkn⟩ := Option.ne_none_iff_exists'.mp (halloc k rfl)
    refine ⟨h1.write k none, ?_, ho x.1 List.mem_cons_self, hdone, ?_, ?_, ?_⟩
    · rw [freePrev, hload]
      show (h1.free (some k) >>= _) = _
      rw [Heap.free_of_some hkn]
      rfl
    · exact htodo.congr fun i hi => ho i (List.mem_cons_of_mem _ hi)
    · rintro i hi
      obtain rfl := Option.some.inj hi
      rw [ho x.1 List.mem_cons_self, hx]
      simp
    · exact hf.trans (Heap.Frame.free h1 _)

/-- **`List_destroy` frees every node once**, and reads none after that. -/
theorem Represents.destroy_spec {fuel : ℕ} (hr : Represents h list l) (hn : l.length < fuel) :
    ∃ h', list.destroy h fuel = .ok h' ∧ Heap.Frame h h' (keys l) [] := by
  have hpass : ∀ x todo h1, DestroyingFrom h l (x :: todo) h1 →
      Advances (DestroyingFrom h l) (fun r => ∃ h1, r = .ok (h1, false) ∧ DestroyingFrom h l [] h1)
        x todo (pass id Node.next freePrev x.1 h1) := by
    intro x todo h1 hex
    obtain ⟨p, hs⟩ := hex
    obtain ⟨h2, hbody, hsame, hs'⟩ := hs.step hr.distinct
    rw [Linked.pass, hbody]
    simp only [id, Heap.load_of_some (hsame.trans hs.linked.1)]
    exact .again h2 ⟨_, hs'⟩
  obtain ⟨h1, hrun, p, hs⟩ := iterate_rule hpass (fun h1 h => ⟨h1, rfl, h⟩)
    ⟨none, ⟨[], rfl, rfl⟩, hr.linked, by simp, Heap.Frame.refl _ _⟩ hn
  obtain ⟨done, hl, hp⟩ := hs.done
  obtain rfl : l = done := by rw [hl, List.append_nil]
  have hf : Heap.Frame h h1 (keys l) p.toList := by simpa using hs.frame
  rw [destroy, foreach, hr.first, hrun]
  show ∃ h', h1.free list.last = _ ∧ _
  rw [hr.last, ← hp]
  cases p with
  | none => exact ⟨h1, rfl, hf⟩
  | some k =>
    obtain ⟨n, hk⟩ := Option.ne_none_iff_exists'.mp (hs.allocated k rfl)
    exact ⟨_, Heap.free_of_some hk, hf.trans (Heap.Frame.free h1 [])⟩

theorem Represents.clearDestroy_spec [DecidableEq α] {values : Heap α γ} {fuel : ℕ}
    (hr : Represents h list l) (hd : (l.filterMap Prod.snd).Nodup)
    (ha : ∀ a ∈ l.filterMap Prod.snd, values a ≠ none) (hn : l.length < fuel) :
    ∃ h' values', list.clearDestroy h values fuel = .ok (h', values') ∧
      Heap.Frame h h' (keys l) [] ∧ Heap.Frame values values' (l.filterMap Prod.snd) [] := by
  obtain ⟨values', hclear, hfv⟩ := hr.clear_spec hd ha hn
  obtain ⟨h', hdestroy, hfh⟩ := hr.destroy_spec hn
  refine ⟨h', values', ?_, hfh, hfv⟩
  rw [clearDestroy, hclear]
  show (list.destroy h fuel >>= _) = _
  rw [hdestroy]
  rfl

/-- **After a list is cleared and destroyed, no block of it is allocated**, every other block is
as it was, and nothing has been freed twice. -/
theorem clearDestroy_frees [DecidableEq α] {values : Heap α γ} {fuel : ℕ}
    (hr : Represents h list l) (hd : (l.filterMap Prod.snd).Nodup)
    (ha : ∀ a ∈ l.filterMap Prod.snd, values a ≠ none) (hn : l.length < fuel) :
    list.clearDestroy h values fuel = .ok
      (fun k => if k ∈ keys l then none else h k,
       fun a => if a ∈ l.filterMap Prod.snd then none else values a) := by
  obtain ⟨h', values', hrun, hfh, hfv⟩ := hr.clearDestroy_spec hd ha hn
  have hh : h' = fun k => if k ∈ keys l then none else h k := by
    funext k
    exact hfh.others k List.not_mem_nil
  have hv : values' = fun a => if a ∈ l.filterMap Prod.snd then none else values a := by
    funext a
    exact hfv.others a List.not_mem_nil
  rw [hrun, hh, hv]

/-- the nodes 0 and 1 with the values at 5 and 6 -/
def twoNodes : Heap ℕ (ListNode ℕ ℕ) := fun k =>
  if k = 0 then some ⟨some 1, none, some 5⟩ else if k = 1 then some ⟨none, some 0, some 6⟩ else none

theorem clearDestroy_frees_two :
    (⟨2, some 0, some 1⟩ : CList ℕ).clearDestroy twoNodes (fun _ : ℕ => some true) 3
      = .ok (fun k => if k ∈ [0, 1] then none else twoNodes k,
          fun a => if a ∈ [5, 6] then none else some true) :=
  clearDestroy_frees (l := [(0, some 5), (1, some 6)])
    ⟨by decide, ⟨rfl, rfl, trivial⟩, rfl, rfl, rfl⟩ (by decide) (by simp) (by decide)

end CList
end MipStack

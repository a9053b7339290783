import Mathlib.Logic.Function.Basic

/-!
# Memory as a partial map from addresses to blocks

* `Heap κ ν`         the allocated blocks; a pointer is an `Option κ` with `none` for `NULL`;
* `Heap.load`, `.modify`, `.free`   fail on `NULL` and on an address without a block, except that
                     `NULL` can be freed;
* `Heap.Roomy`       however many addresses are left out, there is a free one;
* `Heap.Frame h h' old new`   the owner of the addresses `old` has changed the heap and owns `new`
                     afterwards: every other block is as before, every address given up is free.
-/

set_option linter.unusedSectionVars false

namespace Library

/-- what keeps a program from going on -/
inductive Trap
  | null
  /-- the address of a block that is not allocated, or not any more -/
  | dangling
  /-- a loop has not ended within the number of passes it was given -/
  | outOfFuel
  deriving DecidableEq, Repr

abbrev Heap (κ ν : Type) := κ → Option ν

namespace Heap
variable {κ ν : Type}

def load (h : Heap κ ν) : Option κ → Except Trap ν
  | none => .error .null
  | some k =>
    match h k with
    | none => .error .dangling
    | some v => .ok v

variable [DecidableEq κ]

def write (h : Heap κ ν) (k : κ) (v : Option ν) : Heap κ ν := fun i => if i = k then v else h i

def modify (h : Heap κ ν) (p : Option κ) (f : ν → ν) : Except Trap (Heap κ ν) :=
  match p, h.load p with
  | some k, .ok v => .ok (h.write k (some (f v)))
  | _, .error e => .error e
  | none, .ok _ => .error .null

def free (h : Heap κ ν) : Option κ → Except Trap (Heap κ ν)
  | none => .ok h
  | some k =>
    match h k with
    | none => .error .dangling
    | some _ => .ok (h.write k none)

variable {h h' h'' : Heap κ ν} {k i : κ} {v : ν}

@[simp] theorem load_null : h.load none = .error .null := rfl

@[simp] theorem free_null : h.free none = .ok h := rfl

@[simp] theorem write_self (v : Option ν) : h.write k v k = v := if_pos rfl

theorem write_of_ne (v : Option ν) (hi : i ≠ k) : h.write k v i = h i := if_neg hi

theorem load_of_some (hk : h k = some v) : h.load (some k) = .ok v := by simp [load, hk]

theorem load_of_none (hk : h k = none) : h.load (some k) = .error .dangling := by simp [load, hk]

theorem modify_of_some (f : ν → ν) (hk : h k = some v) :
    h.modify (some k) f = .ok (h.write k (some (f v))) := by
  simp [modify, load_of_some hk]

theorem free_of_some (hk : h k = some v) : h.free (some k) = .ok (h.write k none) := by
  simp [free, hk]

def Roomy (h : Heap κ ν) : Prop := ∀ l : List κ, ∃ k, k ∉ l ∧ h k = none

/-! ## changes by one owner -/

/-- blocks are taken from free addresses only, and whatever is not owned afterwards is as before -/
structure Frame (h h' : Heap κ ν) (old new : List κ) : Prop where
  fresh : ∀ k ∈ new, k ∉ old → h k = none
  others : ∀ k, k ∉ new → h' k = if k ∈ old then none else h k

namespace Frame
variable {a b c : List κ}

theorem refl (h : Heap κ ν) (a : List κ) : Frame h h a a where
  fresh _ hk hn := absurd hk hn
  others _ hk := (if_neg hk).symm

/-- what belongs to another owner stays -/
theorem keeps (hf : Frame h h' a b) (hk : h k = some v) (ha : k ∉ a) : h' k = some v := by
  have hb : k ∉ b := by
    intro hb
    rw [hf.fresh k hb ha] at hk
    cases hk
  rw [hf.others k hb, if_neg ha, hk]

theorem keeps_allocated (hf : Frame h h' a b) (hk : h k ≠ none) (ha : k ∉ a) : h' k ≠ none := by
  obtain ⟨v, hv⟩ := Option.ne_none_iff_exists'.mp hk
  rw [hf.keeps hv ha]
  simp

theorem free_iff (hf : Frame h h' a b) (hb : k ∉ b) : h' k = none ↔ k ∈ a ∨ h k = none := by
  rw [hf.others k hb]
  by_cases ha : k ∈ a
  · simp [ha]
  · simp [ha]

theorem roomy (hf : Frame h h' a b) (hr : h.Roomy) : h'.Roomy := by
  intro l
  obtain ⟨k, hk, hfree⟩ := hr (l ++ b)
  rw [List.mem_append, not_or] at hk
  exact ⟨k, hk.1, (hf.free_iff hk.2).mpr (Or.inr hfree)⟩

theorem trans (h1 : Frame h h' a b) (h2 : Frame h' h'' b c) : Frame h h'' a c where
  fresh k hc ha := by
    by_cases hb : k ∈ b
    · exact h1.fresh k hb ha
    · have hfree := h2.fresh k hc hb
      rw [h1.others k hb, if_neg ha] at hfree
      exact hfree
  others k hc := by
    rw [h2.others k hc]
    by_cases hb : k ∈ b
    · rw [if_pos hb]
      by_cases ha : k ∈ a
      · rw [if_pos ha]
      · rw [if_neg ha, h1.fresh k hb ha]
    · rw [if_neg hb, h1.others k hb]

/-- only the set of owned addresses counts -/
theorem congr {a' b' : List κ} (hf : Frame h h' a b) (ha : ∀ k, k ∈ a' ↔ k ∈ a)
    (hb : ∀ k, k ∈ b' ↔ k ∈ b) : Frame h h' a' b' where
  fresh k hk hn := hf.fresh k ((hb k).mp hk) fun h => hn ((ha k).mpr h)
  others k hk := by
    rw [hf.others k fun h => hk ((hb k).mpr h)]
    simp only [ha]

/-- the blocks of another owner beside the changed ones -/
theorem extend (c : List κ) (hf : Frame h h' a b) : Frame h h' (a ++ c) (b ++ c) where
  fresh k hb hn := by
    rcases List.mem_append.mp hb with hb | hb
    · exact hf.fresh k hb fun ha => hn (List.mem_append_left _ ha)
    · exact absurd (List.mem_append_right _ hb) hn
  others k hb := by
    have hkb : k ∉ b := fun h => hb (List.mem_append_left _ h)
    have hkc : k ∉ c := fun h => hb (List.mem_append_right _ h)
    rw [hf.others k hkb]
    simp [hkc]

theorem of_others (ho : ∀ k ∉ a, h' k = h k) : Frame h h' a a where
  fresh _ hk hn := absurd hk hn
  others k hk := by rw [if_neg hk, ho k hk]

theorem write (h : Heap κ ν) (a : List κ) (v : Option ν) (hk : k ∈ a) :
    Frame h (h.write k v) a a where
  fresh i hi hn := absurd hi hn
  others i hi := by
    have hne : i ≠ k := fun he => hi (by rwa [he])
    rw [if_neg hi, write_of_ne v hne]

/-- `calloc` gives the address `k` -/
theorem alloc (a : List κ) (v : ν) (hk : h k = none) :
    Frame h (h.write k (some v)) a (k :: a) where
  fresh i hi hn := by
    rcases List.mem_cons.mp hi with rfl | hi
    · exact hk
    · exact absurd hi hn
  others i hi := by
    rw [List.mem_cons, not_or] at hi
    rw [write_of_ne _ hi.1, if_neg hi.2]

theorem free (h : Heap κ ν) (a : List κ) : Frame h (h.write k none) (k :: a) a where
  fresh i hi hn := absurd (List.mem_cons_of_mem k hi) hn
  others i hi := by
    by_cases he : i = k
    · rw [he, write_self, if_pos List.mem_cons_self]
    · rw [write_of_ne _ he, if_neg (by simp [he, hi])]

end Frame
end Heap
end Library

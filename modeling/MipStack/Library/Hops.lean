import Mathlib.Data.Fintype.Card
import Mathlib.Data.Fintype.EquivFin
import Mathlib.Data.List.Chain

/-!
# Walks of a given length and hop distance

For a relation `R` (one link) and a set `T` of targets:

* `Hops R n x y`        a walk of exactly `n` links from `x` to `y`;
* `HopsTo R T n x`      a walk of exactly `n` links from `x` to a target;
* `HopDist R T n x`     `n` is the length of a shortest walk from `x` to a target;
* `HopDist.step`        a node at distance `n+1` has a neighbour at distance `n`;
* `exists_path_of_descends`   where every step along `R` lowers a cost, a target is reached on a path
                        without repetition that is no longer than the cost;
* `HopDist.lt_card`     if nodes can be told apart by labels from a finite type, a distance is
                        below the number of labels (the distances `0..n` are all attained).
-/

namespace Library

variable {ν : Type*}

def Hops (R : ν → ν → Prop) : ℕ → ν → ν → Prop
  | 0, x, y => x = y
  | n + 1, x, z => ∃ y, R x y ∧ Hops R n y z

def HopsTo (R : ν → ν → Prop) (T : ν → Prop) (n : ℕ) (x : ν) : Prop := ∃ z, Hops R n x z ∧ T z

def HopDist (R : ν → ν → Prop) (T : ν → Prop) (n : ℕ) (x : ν) : Prop :=
  HopsTo R T n x ∧ ∀ m, m < n → ¬ HopsTo R T m x

section
variable {R : ν → ν → Prop} {T : ν → Prop}

theorem hopsTo_zero {x : ν} : HopsTo R T 0 x ↔ T x := by
  constructor
  · intro hz
    obtain ⟨z, rfl, h⟩ := hz
    exact h
  · exact fun h => ⟨x, rfl, h⟩

theorem hopsTo_succ {n : ℕ} {x : ν} : HopsTo R T (n + 1) x ↔ ∃ y, R x y ∧ HopsTo R T n y := by
  constructor
  · intro h
    obtain ⟨z, ⟨y, hxy, hyz⟩, hz⟩ := h
    exact ⟨y, hxy, z, hyz, hz⟩
  · intro h
    obtain ⟨y, hxy, z, hyz, hz⟩ := h
    exact ⟨z, ⟨y, hxy, hyz⟩, hz⟩

theorem HopDist.le {n m : ℕ} {x : ν} (h : HopDist R T n x) (hm : HopsTo R T m x) : n ≤ m :=
  Nat.le_of_not_lt fun hlt => h.2 m hlt hm

theorem HopDist.unique {n m : ℕ} {x : ν} (h : HopDist R T n x) (h' : HopDist R T m x) : n = m :=
  Nat.le_antisymm (h.le h'.1) (h'.le h.1)

/-- a node with a walk to a target has a distance, at most the length of that walk -/
theorem HopsTo.dist {n : ℕ} {x : ν} (h : HopsTo R T n x) : ∃ m, m ≤ n ∧ HopDist R T m x := by
  classical
  have hex : ∃ m, HopsTo R T m x := ⟨n, h⟩
  exact ⟨Nat.find hex, Nat.find_min' hex h, Nat.find_spec hex, fun m hm => Nat.find_min hex hm⟩

theorem HopDist.step {n : ℕ} {x : ν} (h : HopDist R T (n + 1) x) :
    ∃ y, R x y ∧ HopDist R T n y := by
  obtain ⟨y, hxy, hy⟩ := hopsTo_succ.mp h.1
  refine ⟨y, hxy, hy, fun m hm hlt => ?_⟩
  exact h.2 (m + 1) (by omega) (hopsTo_succ.mpr ⟨y, hxy, hlt⟩)

theorem HopDist.below {n : ℕ} {x : ν} (h : HopDist R T n x) :
    ∀ m, m ≤ n → ∃ y, HopDist R T m y := by
  induction n generalizing x with
  | zero =>
    intro m hm
    obtain rfl : m = 0 := by omega
    exact ⟨x, h⟩
  | succ n ih =>
    intro m hm
    rcases Nat.lt_or_ge n m with hlt | hge
    · obtain rfl : m = n + 1 := by omega
      exact ⟨x, h⟩
    · obtain ⟨y, _, hy⟩ := h.step
      exact ih hy m hge

/-- **Distances are below the number of labels**, when every node carries a label and no label
is carried by two nodes. -/
theorem HopDist.lt_card {κ : Type*} [Fintype κ] {has : ν → κ → Prop}
    (hne : ∀ x, ∃ k, has x k) (hinj : ∀ x y k, has x k → has y k → x = y)
    {n : ℕ} {x : ν} (h : HopDist R T n x) : n < Fintype.card κ := by
  have hnode : ∀ m : Fin (n + 1), ∃ y, HopDist R T m y := fun m => h.below m (by omega)
  choose y hy using hnode
  choose lab hlab using fun m => hne (y m)
  have hlinj : Function.Injective lab := by
    intro a b hab
    have hyab : y a = y b := hinj _ _ _ (hlab a) (hab ▸ hlab b)
    have := (hy a).unique (hyab ▸ hy b)
    exact Fin.ext this
  have := Fintype.card_le_of_injective lab hlinj
  rw [Fintype.card_fin] at this
  omega

/-- **A cost that descends leads to a target**, and never back to a node already visited. -/
theorem exists_path_of_descends {cost : ν → ℕ → Prop}
    (hfun : ∀ x n m, cost x n → cost x m → n = m)
    (hdesc : ∀ x n, cost x n → T x ∨ ∃ y m, R x y ∧ m < n ∧ cost y m) (n : ℕ) :
    ∀ x, cost x n → ∃ path : List ν, path.head? = some x ∧ path.IsChain R ∧
      (∃ z, path.getLast? = some z ∧ T z) ∧ path.length ≤ n + 1 ∧ path.Nodup ∧
      ∀ y ∈ path, ∃ m, m ≤ n ∧ cost y m := by
  induction n using Nat.strong_induction_on with
  | _ n ih =>
    intro x hx
    rcases hdesc x n hx with hT | ⟨y, m, hR, hm, hy⟩
    · exact ⟨[x], rfl, List.isChain_singleton x, ⟨x, rfl, hT⟩, by simp, by simp,
        by simpa using ⟨n, le_rfl, hx⟩⟩
    · obtain ⟨path, hhead, hchain, ⟨z, hlast, hz⟩, hlen, hnodup, hcost⟩ := ih m hm y hy
      obtain ⟨rest, rfl⟩ : ∃ rest, path = y :: rest := by
        cases path with
        | nil => cases hhead
        | cons a rest => exact ⟨rest, by rw [Option.some.inj hhead]⟩
      refine ⟨x :: y :: rest, rfl, List.isChain_cons_cons.mpr ⟨hR, hchain⟩, ⟨z, ?_, hz⟩, ?_,
        List.nodup_cons.mpr ⟨fun hmem => ?_, hnodup⟩, fun w hw => ?_⟩
      · rw [List.getLast?_cons_cons]
        exact hlast
      · rw [List.length_cons]
        omega
      · -- the costs on the rest of the path are below the cost of `x`
        obtain ⟨k, hk, hxk⟩ := hcost x hmem
        have := hfun x n k hx hxk
        omega
      · rcases List.mem_cons.mp hw with rfl | hw
        · exact ⟨n, le_rfl, hx⟩
        · obtain ⟨k, hk, hwk⟩ := hcost w hw
          exact ⟨k, by omega, hwk⟩

end

end Library

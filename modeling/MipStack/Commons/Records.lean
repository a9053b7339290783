import MipStack.Commons.LinkedList
import Mathlib.Data.Nat.Find
import Mathlib.Algebra.Order.BigOperators.Group.List

/-!
# Lists of records in memory

The daemons keep lists of pointers to records: routes, connections.  A node of such a list and the
record it points to are two blocks.

* `Memory κ α γ`       nodes and records;
* `Cell`, `Stores`     a list of records with the addresses of their nodes and blocks;
* `Allocation`         what `calloc` gives, as long as memory does not run out;
* `Memory.Frame`       a change of the blocks of one list only, nodes and records;
* `scan`, `scan_rule`  a loop that reads the record of each node, by an invariant over the records
                       to come;
* `removeFirst`        the loop that removes and destroys the first record of some kind;
* `removeFirst_spec`   **it does to memory what `List.eraseP` does to the records.**
-/

set_option linter.unusedSectionVars false

namespace MipStack
open Library Library.Linked CList

structure Memory (κ α γ : Type) where
  nodes : Heap κ (ListNode κ α)
  records : Heap α γ

structure Cell (κ α γ : Type) where
  node : κ
  block : α
  record : γ
  deriving DecidableEq, Repr

/-- what `calloc` does at its successive calls, for nodes and for records: it gives a free block, or
`NULL` -/
structure Allocation (κ α γ : Type) where
  node : ℕ → Heap κ (ListNode κ α) → Option κ
  block : ℕ → Heap α γ → Option α

def Allocation.tail {κ α γ : Type} (alloc : Allocation κ α γ) : Allocation κ α γ :=
  ⟨fun i => alloc.node (i + 1), fun i => alloc.block (i + 1)⟩

/-- memory does not run out -/
structure Allocation.Lawful {κ α γ : Type} (alloc : Allocation κ α γ) : Prop where
  node : ∀ i h, Heap.Roomy h → ∃ k, alloc.node i h = some k ∧ h k = none
  block : ∀ i h, Heap.Roomy h → ∃ k, alloc.block i h = some k ∧ h k = none

theorem Allocation.Lawful.tail {κ α γ : Type} {alloc : Allocation κ α γ} (h : alloc.Lawful) :
    alloc.tail.Lawful := ⟨fun i => h.node (i + 1), fun i => h.block (i + 1)⟩

open Classical in
/-- the allocation that always gives the smallest free address -/
noncomputable def Allocation.smallest (γ : Type) : Allocation ℕ ℕ γ where
  node _ h := if hf : ∃ k, h k = none then some (Nat.find hf) else none
  block _ h := if hf : ∃ k, h k = none then some (Nat.find hf) else none

open Classical in
theorem Allocation.smallest_lawful (γ : Type) : (Allocation.smallest γ).Lawful where
  node _ h hr := by
    have hf : ∃ k, h k = none := (hr []).imp fun _ hk => hk.2
    exact ⟨Nat.find hf, dif_pos hf, Nat.find_spec hf⟩
  block _ h hr := by
    have hf : ∃ k, h k = none := (hr []).imp fun _ hk => hk.2
    exact ⟨Nat.find hf, dif_pos hf, Nat.find_spec hf⟩

structure Memory.Roomy {κ α γ : Type} (m : Memory κ α γ) : Prop where
  nodes : m.nodes.Roomy
  records : m.records.Roomy

/-- nothing is allocated -/
def Memory.empty (γ : Type) : Memory ℕ ℕ γ := ⟨fun _ => none, fun _ => none⟩

theorem Memory.roomy_empty (γ : Type) : (Memory.empty γ).Roomy where
  nodes l := ⟨l.sum + 1, fun h => absurd (List.le_sum_of_mem h) (by omega), rfl⟩
  records l := ⟨l.sum + 1, fun h => absurd (List.le_sum_of_mem h) (by omega), rfl⟩

variable {κ α γ : Type} [DecidableEq κ] [DecidableEq α]

def Cell.slot (c : Cell κ α γ) : κ × Option α := (c.node, some c.block)

/-- `cells` are the nodes of the list with the records they point to, no record twice -/
structure Stores (m : Memory κ α γ) (list : CList κ) (cells : List (Cell κ α γ)) : Prop where
  nodes : Represents m.nodes list (cells.map Cell.slot)
  distinct : (cells.map Cell.block).Nodup
  records : ∀ c ∈ cells, m.records c.block = some c.record

structure Memory.Frame (m m' : Memory κ α γ) (old new : List (Cell κ α γ)) : Prop where
  nodes : Heap.Frame m.nodes m'.nodes (old.map Cell.node) (new.map Cell.node)
  records : Heap.Frame m.records m'.records (old.map Cell.block) (new.map Cell.block)

variable {m m' m'' : Memory κ α γ} {list : CList κ} {cells a b d : List (Cell κ α γ)}
  {c : Cell κ α γ}

@[simp] theorem keys_map_slot (cells : List (Cell κ α γ)) :
    keys (cells.map Cell.slot) = cells.map Cell.node := by
  simp [keys, Cell.slot]

theorem Memory.Frame.refl (m : Memory κ α γ) (a : List (Cell κ α γ)) : m.Frame m a a :=
  ⟨Heap.Frame.refl _ _, Heap.Frame.refl _ _⟩

theorem Memory.Frame.trans (h1 : m.Frame m' a b) (h2 : m'.Frame m'' b d) : m.Frame m'' a d :=
  ⟨h1.nodes.trans h2.nodes, h1.records.trans h2.records⟩

theorem Memory.Frame.roomy (hf : m.Frame m' a b) (hr : m.Roomy) : m'.Roomy :=
  ⟨hf.nodes.roomy hr.nodes, hf.records.roomy hr.records⟩

theorem Memory.Frame.congr {a' b' : List (Cell κ α γ)} (hf : m.Frame m' a b)
    (ha : ∀ c, c ∈ a' ↔ c ∈ a) (hb : ∀ c, c ∈ b' ↔ c ∈ b) : m.Frame m' a' b' where
  nodes := hf.nodes.congr (fun k => by simp only [List.mem_map, ha])
    fun k => by simp only [List.mem_map, hb]
  records := hf.records.congr (fun k => by simp only [List.mem_map, ha])
    fun k => by simp only [List.mem_map, hb]

/-- a list of somebody else in the same memory -/
theorem Memory.Frame.extend (d : List (Cell κ α γ)) (hf : m.Frame m' a b) :
    m.Frame m' (a ++ d) (b ++ d) := by
  constructor
  · rw [List.map_append, List.map_append]
    exact hf.nodes.extend _
  · rw [List.map_append, List.map_append]
    exact hf.records.extend _

theorem stores_create (m : Memory κ α γ) : Stores m CList.create [] :=
  ⟨represents_create _, List.nodup_nil, fun _ h => absurd h List.not_mem_nil⟩

namespace Stores

/-- only the blocks of the list count -/
theorem congr_records (hs : Stores m list cells) {records : Heap α γ}
    (hrec : ∀ c ∈ cells, records c.block = m.records c.block) : Stores ⟨m.nodes, records⟩ list cells :=
  ⟨hs.nodes, hs.distinct, fun c hc => (hrec c hc).trans (hs.records c hc)⟩

theorem not_mem_of_free (hs : Stores m list cells) {block : α} (hb : m.records block = none) :
    block ∉ cells.map Cell.block := by
  intro hmem
  obtain ⟨e, he, rfl⟩ := List.mem_map.mp hmem
  rw [hs.records e he] at hb
  cases hb

theorem sublist (hs : Stores m list cells) {l : List (Cell κ α γ)} (hl : l.Sublist cells) :
    (l.map Cell.block).Nodup := hs.distinct.sublist (hl.map Cell.block)

theorem record_ne (hs : Stores m list (a ++ c :: b)) : ∀ e ∈ a ++ b, e.block ≠ c.block := by
  have hd := hs.distinct
  rw [List.map_append, List.map_cons] at hd
  have hc := (List.nodup_cons.mp (List.nodup_middle.mp hd)).1
  intro e he heq
  rw [← List.map_append, ← heq] at hc
  exact hc (List.mem_map_of_mem he)

theorem node_eq (hs : Stores m list (a ++ c :: b)) :
    m.nodes c.node = some ⟨entry (b.map Cell.slot) none, exit none (a.map Cell.slot),
      some c.block⟩ := by
  have hl := hs.nodes.linked
  rw [List.map_append, List.map_cons] at hl
  exact hl.node (x := c.slot)

theorem record_eq (hs : Stores m list (a ++ c :: b)) : m.records c.block = some c.record :=
  hs.records c (by simp)

/-- a new node for a record that is not in the list -/
theorem push (hs : Stores m list cells) (hnode : m.nodes c.node = none)
    (hrec : m.records c.block = some c.record) (hblock : c.block ∉ cells.map Cell.block) :
    ∃ h' list', list.push m.nodes (some c.node) (some c.block) = .ok (h', list') ∧
      Stores ⟨h', m.records⟩ list' (cells ++ [c]) ∧
      Heap.Frame m.nodes h' (cells.map Cell.node) ((cells ++ [c]).map Cell.node) := by
  obtain ⟨h', list', hpush, hr, hf⟩ := hs.nodes.push_spec hnode (some c.block)
  refine ⟨h', list', hpush, ⟨?_, ?_, ?_⟩, ?_⟩
  · rw [List.map_append]
    exact hr
  · rw [List.map_append, List.map_singleton, List.nodup_append]
    refine ⟨hs.distinct, List.nodup_singleton _, ?_⟩
    rintro i hi j hj rfl
    rw [List.mem_singleton.mp hj] at hi
    exact hblock hi
  · intro e he
    rcases List.mem_append.mp he with he | he
    · exact hs.records e he
    · rw [List.mem_singleton.mp he]
      exact hrec
  · rw [← keys_map_slot, ← keys_map_slot, List.map_append]
    exact hf

/-- a node and its record are released -/
theorem drop (hs : Stores m list (a ++ c :: b)) :
    ∃ h' list', list.remove m.nodes (some c.node) = .ok (h', list', some c.block) ∧
      m.records.free (some c.block) = .ok (m.records.write c.block none) ∧
      h' c.node = none ∧
      Stores ⟨h', m.records.write c.block none⟩ list' (a ++ b) ∧
      m.Frame ⟨h', m.records.write c.block none⟩ (a ++ c :: b) (a ++ b) := by
  have hr := hs.nodes
  rw [List.map_append, List.map_cons] at hr
  obtain ⟨h', list', hrem, hr', hf⟩ := Represents.remove_spec (x := c.slot) hr
  have hgone : c.node ∉ keys (a.map Cell.slot ++ b.map Cell.slot) :=
    (distinct_unlink (x := c.slot) hr.distinct).2
  refine ⟨h', list', hrem, Heap.free_of_some hs.record_eq, ?_, ⟨?_, ?_, ?_⟩, ?_, ?_⟩
  · rw [hf.others c.node hgone, if_pos (by simp [Cell.slot])]
  · rw [List.map_append]
    exact hr'
  · exact hs.sublist ((List.Sublist.refl a).append (List.sublist_cons_self c b))
  · intro e he
    have hmem : e ∈ a ++ c :: b := by
      rw [List.mem_append, List.mem_cons]
      exact (List.mem_append.mp he).imp_right Or.inr
    exact (Heap.write_of_ne _ (hs.record_ne e he)).trans (hs.records e hmem)
  · rw [← keys_map_slot, ← keys_map_slot, List.map_append, List.map_append, List.map_cons]
    exact hf
  · refine (Heap.Frame.free m.records ((a ++ b).map Cell.block)).congr (fun i => ?_) fun _ => Iff.rfl
    rw [List.map_append, List.map_append, List.map_cons, List.mem_append, List.mem_cons,
      List.mem_cons, List.mem_append]
    exact or_left_comm

/-- a record is changed in its place -/
theorem rewrite (hs : Stores m list (a ++ c :: b)) (record : γ) :
    Stores ⟨m.nodes, m.records.write c.block (some record)⟩ list (a ++ ⟨c.node, c.block, record⟩ :: b)
    where
  nodes := by
    have h := hs.nodes
    rw [List.map_append, List.map_cons] at h ⊢
    exact h
  distinct := by
    have h := hs.distinct
    rw [List.map_append, List.map_cons] at h ⊢
    exact h
  records e he := by
    rcases List.mem_append.mp he with he | he
    · have hmem : e ∈ a ++ b := List.mem_append_left _ he
      exact (Heap.write_of_ne _ (hs.record_ne e hmem)).trans (hs.records e (by simp [he]))
    · rcases List.mem_cons.mp he with rfl | he
      · exact Heap.write_self _
      · have hmem : e ∈ a ++ b := List.mem_append_right _ he
        exact (Heap.write_of_ne _ (hs.record_ne e hmem)).trans (hs.records e (by simp [he]))

theorem frame_rewrite (m : Memory κ α γ) (record : γ) :
    m.Frame ⟨m.nodes, m.records.write c.block (some record)⟩ (a ++ c :: b)
      (a ++ ⟨c.node, c.block, record⟩ :: b) := by
  constructor
  · rw [List.map_append, List.map_append, List.map_cons, List.map_cons]
    exact Heap.Frame.refl _ _
  · rw [List.map_append, List.map_append, List.map_cons, List.map_cons]
    exact Heap.Frame.write _ _ _ (by simp)

/-- a list beside the one that has been changed -/
theorem keep (hs : Stores m list cells) (hf : m.Frame m' a b)
    (hnodes : ∀ c ∈ cells, c.node ∉ a.map Cell.node)
    (hblocks : ∀ c ∈ cells, c.block ∉ a.map Cell.block) : Stores m' list cells where
  nodes := hs.nodes.keep hf.nodes (by
    rw [keys_map_slot]
    intro k hk
    obtain ⟨c, hc, rfl⟩ := List.mem_map.mp hk
    exact hnodes c hc)
  distinct := hs.distinct
  records c hc := hf.records.keeps (hs.records c hc) (hblocks c hc)

theorem node_ne_none (hs : Stores m list cells) (hc : c ∈ cells) : m.nodes c.node ≠ none := by
  obtain ⟨n, hn⟩ := hs.nodes.linked.allocated (k := c.node) (by
    rw [keys_map_slot]
    exact List.mem_map_of_mem hc)
  rw [hn]
  simp

theorem block_ne_none (hs : Stores m list cells) (hc : c ∈ cells) : m.records c.block ≠ none := by
  rw [hs.records c hc]
  simp

end Stores

/-- a record that has just been allocated and filled in, beside the ones of a list -/
theorem frame_alloc {block : α} (record : γ) (hb : m.records block = none) :
    Heap.Frame m.records (m.records.write block (some record)) (cells.map Cell.block)
      (cells.map Cell.block ++ [block]) :=
  (Heap.Frame.alloc (cells.map Cell.block) record hb).congr (fun _ => Iff.rfl) fun i => by
    rw [List.mem_append, List.mem_singleton, List.mem_cons]
    exact or_comm

/-- the same for the list -/
theorem Stores.alloc {block : α} (record : γ) (hs : Stores m list cells)
    (hb : m.records block = none) :
    Stores ⟨m.nodes, m.records.write block (some record)⟩ list cells :=
  hs.congr_records fun e he => Heap.write_of_ne _ fun heq =>
    hs.not_mem_of_free hb (List.mem_map.mpr ⟨e, he, heq⟩)

/-- two lists have no node and no block in common -/
structure Apart (a b : List (Cell κ α γ)) : Prop where
  nodes : ∀ c ∈ a, c.node ∉ b.map Cell.node
  blocks : ∀ c ∈ a, c.block ∉ b.map Cell.block

/-- nodes and blocks that somebody holds, whatever is in them -/
structure Allocated (m : Memory κ α γ) (d : List (Cell κ α γ)) : Prop where
  nodes : ∀ c ∈ d, m.nodes c.node ≠ none
  blocks : ∀ c ∈ d, m.records c.block ≠ none

theorem Stores.allocated (hs : Stores m list cells) : Allocated m cells :=
  ⟨fun _ hc => hs.node_ne_none hc, fun _ hc => hs.block_ne_none hc⟩

theorem Allocated.keep (hd : Allocated m d) (hf : m.Frame m' a b) (ha : Apart d a) :
    Allocated m' d where
  nodes c hc := hf.nodes.keeps_allocated (hd.nodes c hc) (ha.nodes c hc)
  blocks c hc := hf.records.keeps_allocated (hd.blocks c hc) (ha.blocks c hc)

/-- what somebody else holds is not given out -/
theorem Apart.change (ha : Apart d a) (hd : Allocated m d) (hf : m.Frame m' a b) : Apart d b where
  nodes c hc hb := hd.nodes c hc (hf.nodes.fresh _ hb (ha.nodes c hc))
  blocks c hc hb := hd.blocks c hc (hf.records.fresh _ hb (ha.blocks c hc))

theorem Apart.symm (ha : Apart a b) : Apart b a where
  nodes c hc hmem := by
    obtain ⟨e, he, heq⟩ := List.mem_map.mp hmem
    exact ha.nodes e he (List.mem_map.mpr ⟨c, hc, heq.symm⟩)
  blocks c hc hmem := by
    obtain ⟨e, he, heq⟩ := List.mem_map.mp hmem
    exact ha.blocks e he (List.mem_map.mpr ⟨c, hc, heq.symm⟩)

theorem Apart.nil (a : List (Cell κ α γ)) : Apart a [] := ⟨by simp, by simp⟩

theorem Apart.append_left (ha : Apart a d) (hb : Apart b d) : Apart (a ++ b) d where
  nodes c hc := (List.mem_append.mp hc).elim (ha.nodes c) (hb.nodes c)
  blocks c hc := (List.mem_append.mp hc).elim (ha.blocks c) (hb.blocks c)

theorem Allocated.append (ha : Allocated m a) (hb : Allocated m b) : Allocated m (a ++ b) where
  nodes c hc := (List.mem_append.mp hc).elim (ha.nodes c) (hb.nodes c)
  blocks c hc := (List.mem_append.mp hc).elim (ha.blocks c) (hb.blocks c)

/-! ## loops that read the records -/

section
variable {σ : Type} (mem : σ → Memory κ α γ) (missing : σ → Except Trap (σ × Bool))
  (act : κ → α → γ → σ → Except Trap (σ × Bool))

/-- the value of the node is read; `missing` is what happens where that is `NULL` -/
def scanBody (cur : κ) (s : σ) : Except Trap (σ × Bool) := do
  let n ← (mem s).nodes.load (some cur)
  match n.value with
  | none => missing s
  | some block => do
    let record ← (mem s).records.load (some block)
    act cur block record s

def scan (list : CList κ) (fuel : ℕ) (s : σ) : Except Trap (σ × Bool) :=
  list.foreach (fun s => (mem s).nodes) (scanBody mem missing act) fuel s

/-- what the body may do at the record `c`, in front of `rest`; going on after the node has been
freed is a fault -/
inductive Acts (I : List (Cell κ α γ) → σ → Prop) (P : Except Trap (σ × Bool) → Prop)
    (c : Cell κ α γ) (rest : List (Cell κ α γ)) : Except Trap (σ × Bool) → Prop
  | fault (f : Trap) (h : P (.error f)) : Acts I P c rest (.error f)
  | leave (s : σ) (h : P (.ok (s, true))) : Acts I P c rest (.ok (s, true))
  | again (s : σ) (n : ListNode κ α) (h : I rest s) (hn : (mem s).nodes c.node = some n)
      (hnext : n.next = entry (rest.map Cell.slot) none) : Acts I P c rest (.ok (s, false))
  | freed (s : σ) (hn : (mem s).nodes c.node = none) (h : P (.error .dangling)) :
      Acts I P c rest (.ok (s, false))

variable {mem missing act}

/-- **The loop over the records of a list**, by an invariant over the records to come. -/
theorem scan_rule {I : List (Cell κ α γ) → σ → Prop}
    {P : Except Trap (σ × Bool) → Prop}
    (hread : ∀ c rest s, I (c :: rest) s → ∃ p q, (mem s).nodes c.node = some ⟨p, q, some c.block⟩ ∧
      (mem s).records c.block = some c.record)
    (hact : ∀ c rest s, I (c :: rest) s → Acts mem I P c rest (act c.node c.block c.record s))
    (hend : ∀ s, I [] s → P (.ok (s, false))) {fuel : ℕ} {s : σ}
    (hfirst : list.first = entry (cells.map Cell.slot) none) (hI : I cells s)
    (hn : cells.length < fuel) : P (scan mem missing act list fuel s) := by
  have hpass : ∀ x todo s, (∃ c rest, x = c.slot ∧ todo = rest.map Cell.slot ∧ I (c :: rest) s) →
      Advances (fun todo s => ∃ rest : List (Cell κ α γ), todo = rest.map Cell.slot ∧ I rest s)
        P x todo (pass (fun s => (mem s).nodes) Node.next (scanBody mem missing act) x.1 s) := by
    rintro _ _ s ⟨c, rest, rfl, rfl, hI⟩
    obtain ⟨p, q, hnode, hrec⟩ := hread c rest s hI
    have hbody : scanBody mem missing act c.slot.1 s = act c.node c.block c.record s := by
      show ((mem s).nodes.load (some c.node) >>= _) = _
      rw [Heap.load_of_some hnode]
      show ((mem s).records.load (some c.block) >>= _) = _
      rw [Heap.load_of_some hrec]
      rfl
    rw [Linked.pass, hbody]
    have hacts := hact c rest s hI
    generalize act c.node c.block c.record s = r at hacts
    cases hacts with
    | fault f h => exact .fault f h
    | leave s' h => exact .leave s' h
    | again s' n h hn hnext =>
      have hload : (mem s').nodes.load (some c.slot.1) = .ok n := Heap.load_of_some hn
      simp only [hload, hnext]
      exact .again s' ⟨rest, rfl, h⟩
    | freed s' hn h =>
      have hload : (mem s').nodes.load (some c.slot.1) = .error .dangling := Heap.load_of_none hn
      simp only [hload]
      exact .fault .dangling h
  have hcons : ∀ x todo s, (∃ rest : List (Cell κ α γ), x :: todo = rest.map Cell.slot ∧ I rest s) →
      ∃ c rest, x = c.slot ∧ todo = rest.map Cell.slot ∧ I (c :: rest) s := by
    rintro x todo s ⟨rest, hrest, hI⟩
    cases rest with
    | nil => cases hrest
    | cons c rest =>
      obtain ⟨rfl, rfl⟩ := List.cons.inj hrest
      exact ⟨c, rest, rfl, rfl, hI⟩
  rw [scan, foreach, hfirst]
  refine iterate_rule (fun x todo s h => hpass x todo s (hcons x todo s h)) ?_ ⟨cells, rfl, hI⟩
    (by rwa [List.length_map])
  rintro s ⟨rest, hrest, hI⟩
  obtain rfl := List.map_eq_nil_iff.mp hrest.symm
  exact hend s hI

end

/-! ## remove the first record of some kind -/

/-- the record is found, its node removed and the record destroyed; the state is the return code so
far, the list and the memory -/
def removeRecord (test : γ → Bool) (cur : κ) (block : α) (record : γ)
    (s : ℤ × CList κ × Memory κ α γ) : Except Trap ((ℤ × CList κ × Memory κ α γ) × Bool) :=
  if test record then do
    let (nodes, list, _) ← s.2.1.remove s.2.2.nodes (some cur)
    let records ← s.2.2.records.free (some block)
    .ok ((1, list, ⟨nodes, records⟩), true)
  else .ok (s, false)

/-- return code 1 when there was such a record and 0 otherwise -/
def removeFirst (test : γ → Bool) (list : CList κ) (m : Memory κ α γ) (fuel : ℕ) :
    Except Trap (ℤ × CList κ × Memory κ α γ) :=
  (scan (fun s => s.2.2) (fun s => .ok ((-1, s.2), true)) (removeRecord test) list fuel
    (0, list, m)).map Prod.fst

/-- nothing has been found in front of `rest` -/
def Searching (test : γ → Bool) (list : CList κ) (m : Memory κ α γ) (cells rest : List (Cell κ α γ))
    (s : ℤ × CList κ × Memory κ α γ) : Prop :=
  s = (0, list, m) ∧ ∃ done, cells = done ++ rest ∧ ∀ e ∈ done, test e.record = false

structure Removed (test : γ → Bool) (m : Memory κ α γ) (cells : List (Cell κ α γ))
    (s : ℤ × CList κ × Memory κ α γ) : Prop where
  rc : s.1 = if cells.any fun c => test c.record then 1 else 0
  stores : Stores s.2.2 s.2.1 (cells.eraseP fun c => test c.record)
  frame : m.Frame s.2.2 cells (cells.eraseP fun c => test c.record)

theorem Searching.act {test : γ → Bool} {rest : List (Cell κ α γ)}
    {s : ℤ × CList κ × Memory κ α γ} (hs : Stores m list cells)
    (hsearch : Searching test list m cells (c :: rest) s) :
    Acts (fun s => s.2.2) (Searching test list m cells)
      (fun r => ∃ s leaves, r = .ok (s, leaves) ∧ Removed test m cells s) c rest
      (removeRecord test c.node c.block c.record s) := by
  obtain ⟨rfl, done, rfl, hdone⟩ := hsearch
  rw [removeRecord]
  by_cases ht : test c.record = true
  · obtain ⟨h', list', hrem, hfree, _, hs', hf⟩ := hs.drop
    have herase : (done ++ c :: rest).eraseP (fun c => test c.record) = done ++ rest := by
      rw [List.eraseP_append_right _ fun e he => by simp [hdone e he],
        List.eraseP_cons_of_pos (by exact ht)]
    rw [if_pos ht, hrem]
    show Acts _ _ _ c rest (m.records.free (some c.block) >>= _)
    rw [hfree]
    show Acts _ _ _ c rest (.ok ((1, list', Memory.mk h' (m.records.write c.block none)), true))
    refine .leave _ ⟨_, true, rfl, ?_, ?_, ?_⟩
    · rw [if_pos (by simp [ht])]
    · rw [herase]
      exact hs'
    · rw [herase]
      exact hf
  · rw [if_neg ht]
    refine .again _ _ ⟨rfl, done ++ [c], by simp, ?_⟩ hs.node_eq rfl
    intro e he
    rcases List.mem_append.mp he with he | he
    · exact hdone e he
    · rw [List.mem_singleton.mp he]
      simpa using ht

theorem Searching.removed {test : γ → Bool} {s : ℤ × CList κ × Memory κ α γ}
    (hs : Stores m list cells) (hsearch : Searching test list m cells [] s) :
    Removed test m cells s := by
  obtain ⟨rfl, done, hdone, hall⟩ := hsearch
  rw [List.append_nil] at hdone
  obtain rfl := hdone
  have hnone : cells.eraseP (fun c => test c.record) = cells :=
    List.eraseP_of_forall_not fun e he => by simp [hall e he]
  refine ⟨?_, ?_, ?_⟩
  · rw [if_neg]
    simp only [List.any_eq_true, not_exists, not_and]
    exact fun e he => by simp [hall e he]
  · rw [hnone]
    exact hs
  · rw [hnone]
    exact Memory.Frame.refl m _

/-- **`removeFirst` does to memory what `List.eraseP` does to the records.** -/
theorem removeFirst_spec (test : γ → Bool) {fuel : ℕ} (hs : Stores m list cells)
    (hn : cells.length < fuel) :
    ∃ s, removeFirst test list m fuel = .ok s ∧ Removed test m cells s := by
  have hread : ∀ c rest s, Searching test list m cells (c :: rest) s →
      ∃ p q, s.2.2.nodes c.node = some ⟨p, q, some c.block⟩ ∧
        s.2.2.records c.block = some c.record := by
    rintro c rest _ ⟨rfl, done, rfl, _⟩
    exact ⟨_, _, hs.node_eq, hs.record_eq⟩
  have hscan : ∃ s leaves, scan (fun s => s.2.2) (fun s => .ok ((-1, s.2), true))
      (removeRecord test) list fuel (0, list, m) = .ok (s, leaves) ∧ Removed test m cells s := by
    refine scan_rule hread (fun c rest s h => h.act hs) (fun s h => ?_) hs.nodes.first ?_ hn
    · exact ⟨s, false, rfl, h.removed hs⟩
    · exact ⟨rfl, [], rfl, by simp⟩
  obtain ⟨s, leaves, hrun, hremoved⟩ := hscan
  refine ⟨s, ?_, hremoved⟩
  rw [removeFirst, hrun]
  rfl

/-! ## change every record in its place -/

/-- two calls that fail alike, or give results that belong together -/
def Agree {ε ρ ρ' : Type} (R : ρ → ρ' → Prop) (r : Except ε ρ) (r' : Except ε ρ') : Prop :=
  (∃ f, r = .error f ∧ r' = .error f) ∨ ∃ x y, r = .ok x ∧ r' = .ok y ∧ R x y

theorem map_map_except {ε ρ ρ' ρ'' : Type} (r : Except ε ρ) (f : ρ → ρ') (g : ρ' → ρ'') :
    (r.map f).map g = r.map fun x => g (f x) := by
  cases r with
  | error e => rfl
  | ok x => rfl

theorem Agree.map_left {ε ρ ρ' ρ'' : Type} {R : ρ → ρ' → Prop} {R' : ρ'' → ρ' → Prop} {f : ρ → ρ''}
    {r : Except ε ρ} {r' : Except ε ρ'} (h : Agree R r r') (hf : ∀ x y, R x y → R' (f x) y) :
    Agree R' (r.map f) r' := by
  rcases h with ⟨e, rfl, rfl⟩ | ⟨x, y, rfl, rfl, hR⟩
  · exact Or.inl ⟨e, rfl, rfl⟩
  · exact Or.inr ⟨f x, y, rfl, rfl, hf x y hR⟩

theorem Agree.bind {ε ρ ρ' τ τ' : Type} {R : ρ → ρ' → Prop} {R' : τ → τ' → Prop}
    {f : ρ → Except ε τ} {g : ρ' → Except ε τ'} {r : Except ε ρ} {r' : Except ε ρ'}
    (h : Agree R r r') (hf : ∀ x y, r = .ok x → R x y → Agree R' (f x) (g y)) :
    Agree R' (r.bind f) (r'.bind g) := by
  rcases h with ⟨e, rfl, rfl⟩ | ⟨x, y, rfl, rfl, hR⟩
  · exact Or.inl ⟨e, rfl, rfl⟩
  · exact hf x y rfl hR

section
variable {ω ε : Type} (visit : γ → ω → Except ε (γ × ω × Bool))

/-- the records one after the other, with what has been gathered so far; a visit may end the loop -/
def visitAll : List γ → ω → Except ε (List γ × ω)
  | [], w => .ok ([], w)
  | g :: rest, w =>
    match visit g w with
    | .error f => .error f
    | .ok (g, w, true) => .ok (g :: rest, w)
    | .ok (g, w, false) => (visitAll rest w).map fun r => (g :: r.1, r.2)

variable {visit} in
theorem length_visitAll {l : List γ} {w : ω} {r : List γ × ω} (h : visitAll visit l w = .ok r) :
    r.1.length = l.length := by
  induction l generalizing w r with
  | nil => exact (Except.ok.inj h) ▸ rfl
  | cons g rest ih =>
    rw [visitAll] at h
    cases hvisit : visit g w with
    | error f =>
      rw [hvisit] at h
      cases h
    | ok x =>
      obtain ⟨g', w', left⟩ := x
      rw [hvisit] at h
      cases left with
      | true => exact (Except.ok.inj h) ▸ rfl
      | false =>
        dsimp only at h
        cases hrest : visitAll visit rest w' with
        | error f =>
          rw [hrest] at h
          cases h
        | ok u =>
          rw [hrest] at h
          obtain rfl := Except.ok.inj h
          exact congrArg (· + 1) (ih hrest)

/-- what is gathered, or the failure that ended the loop, and the memory -/
abbrev Visited (κ α γ ω ε : Type) := Except ε ω × Memory κ α γ

def visitRecord (w : ω) (block : α) (record : γ) (m : Memory κ α γ) :
    Except Trap (Visited κ α γ ω ε × Bool) :=
  match visit record w with
  | .error f => .ok ((.error f, m), true)
  | .ok r => (m.records.modify (some block) fun _ => r.1).map fun records =>
      ((.ok r.2.1, ⟨m.nodes, records⟩), r.2.2)

/-- the body of the loop; it is not run after a failure -/
def visitBody (_cur : κ) (block : α) (record : γ) (s : Visited κ α γ ω ε) :
    Except Trap (Visited κ α γ ω ε × Bool) :=
  match s.1 with
  | .error _ => .ok (s, true)
  | .ok w => visitRecord visit w block record s.2

/-- `missing` is what is gathered where the value of a node is `NULL` -/
def visitRecords (missing : ω) (list : CList κ) (m : Memory κ α γ) (w : ω) (fuel : ℕ) :
    Except Trap (Visited κ α γ ω ε) :=
  (scan Prod.snd (fun s => .ok ((.ok missing, s.2), true)) (visitBody visit) list fuel (.ok w, m)).map
    Prod.fst

variable {visit}

/-- what has been gathered, and the cells with their records, belong to the records `l` -/
def Gathered (m : Memory κ α γ) (list : CList κ) (cells : List (Cell κ α γ)) (l : List γ × ω)
    (s : ω × Memory κ α γ) : Prop :=
  s.1 = l.2 ∧ ∃ cells', cells'.map Cell.record = l.1 ∧ Stores s.2 list cells' ∧ m.Frame s.2 cells cells'

/-- in front of `rest`, with the records before that already changed -/
structure Visiting (visit : γ → ω → Except ε (γ × ω × Bool)) (m : Memory κ α γ) (list : CList κ)
    (cells : List (Cell κ α γ)) (w : ω) (done rest : List (Cell κ α γ)) (s : Visited κ α γ ω ε)
    (w' : ω) : Prop where
  gathered : s.1 = .ok w'
  stores : Stores s.2 list (done ++ rest)
  frame : m.Frame s.2 cells (done ++ rest)
  result : visitAll visit (cells.map Cell.record) w
    = (visitAll visit (rest.map Cell.record) w').map fun r => (done.map Cell.record ++ r.1, r.2)

theorem Visiting.act {w w' : ω} {done rest : List (Cell κ α γ)} {s : Visited κ α γ ω ε}
    (hv : Visiting visit m list cells w done (c :: rest) s w') :
    Acts Prod.snd (fun rest s => ∃ done w', Visiting visit m list cells w done rest s w')
      (fun r => ∃ s left, r = .ok (s, left) ∧ Agree (Gathered m list cells)
        (visitAll visit (cells.map Cell.record) w) (s.1.map fun w => (w, s.2)))
      c rest (visitBody visit c.node c.block c.record s) := by
  obtain ⟨outcome, m'⟩ := s
  obtain rfl : outcome = .ok w' := hv.gathered
  have hresult := hv.result
  rw [List.map_cons, visitAll] at hresult
  show Acts _ _ _ c rest (visitRecord visit w' c.block c.record m')
  cases hvisit : visit c.record w' with
  | error f =>
    rw [hvisit] at hresult
    rw [visitRecord, hvisit]
    exact .leave _ ⟨_, true, rfl, Or.inl ⟨f, hresult, rfl⟩⟩
  | ok r =>
    obtain ⟨record, w2, left⟩ := r
    rw [hvisit] at hresult
    have hmod : m'.records.modify (some c.block) (fun _ => record)
        = .ok (m'.records.write c.block (some record)) := Heap.modify_of_some _ hv.stores.record_eq
    have hs' := hv.stores.rewrite record
    have hf' := hv.frame.trans (Stores.frame_rewrite (a := done) (b := rest) (c := c) m' record)
    have hact : visitRecord visit w' c.block c.record m'
        = .ok ((.ok w2, ⟨m'.nodes, m'.records.write c.block (some record)⟩), left) := by
      rw [visitRecord, hvisit]
      simp only [hmod]
      rfl
    rw [hact]
    cases left with
    | true =>
      refine .leave _ ⟨_, true, rfl, Or.inr ⟨_, _, hresult, rfl, rfl, _, ?_, hs', hf'⟩⟩
      rw [List.map_append, List.map_cons]
    | false =>
      refine .again _ _ ⟨done ++ [⟨c.node, c.block, record⟩], w2, rfl, ?_, ?_, ?_⟩ hs'.node_eq rfl
      · rw [List.append_assoc]
        exact hs'
      · rw [List.append_assoc]
        exact hf'
      · rw [hresult]
        dsimp only
        cases visitAll visit (rest.map Cell.record) w2 with
        | error f => rfl
        | ok r =>
          have hmap : done.map Cell.record ++ record :: r.1
              = (done ++ [Cell.mk c.node c.block record]).map Cell.record ++ r.1 := by simp
          exact congrArg (fun l => Except.ok (l, r.2)) hmap

variable (visit) in
/-- **The loop over the nodes does to memory what `visitAll` does to the records.** -/
theorem visitRecords_spec (missing w : ω) {fuel : ℕ} (hs : Stores m list cells)
    (hn : cells.length < fuel) :
    ∃ s, visitRecords visit missing list m w fuel = .ok s ∧ Agree (Gathered m list cells)
      (visitAll visit (cells.map Cell.record) w) (s.1.map fun w => (w, s.2)) := by
  have hscan : ∃ s left, scan Prod.snd (fun s => .ok ((.ok missing, s.2), true)) (visitBody visit)
      list fuel (.ok w, m) = .ok (s, left) ∧ Agree (Gathered m list cells)
        (visitAll visit (cells.map Cell.record) w) (s.1.map fun w => (w, s.2)) := by
    refine scan_rule (I := fun rest s => ∃ done w', Visiting visit m list cells w done rest s w')
      (P := fun r => ∃ s left, r = .ok (s, left) ∧ Agree (Gathered m list cells)
        (visitAll visit (cells.map Cell.record) w) (s.1.map fun w => (w, s.2)))
      ?_ ?_ ?_ hs.nodes.first ⟨[], w, rfl, hs, Memory.Frame.refl m _, ?_⟩ hn
    · rintro c rest s ⟨done, w', hv⟩
      exact ⟨_, _, hv.stores.node_eq, hv.stores.record_eq⟩
    · rintro c rest s ⟨done, w', hv⟩
      exact hv.act
    · rintro ⟨outcome, m'⟩ ⟨done, w', hv⟩
      obtain rfl : outcome = .ok w' := hv.gathered
      refine ⟨_, false, rfl, Or.inr ⟨_, _, hv.result, rfl, rfl, done, ?_, ?_, ?_⟩⟩
      · exact (List.append_nil _).symm
      · have h := hv.stores
        rwa [List.append_nil] at h
      · have h := hv.frame
        rwa [List.append_nil] at h
    · cases visitAll visit (cells.map Cell.record) w with
      | error f => rfl
      | ok r => rfl
  obtain ⟨s, left, hrun, hagree⟩ := hscan
  refine ⟨s, ?_, hagree⟩
  rw [visitRecords, hrun]
  rfl

end
end MipStack

import Mathlib.Data.List.Nodup

/-!
# Lists as finite maps

A list of records, each with a key, is read as the finite map that sends a key to the first
record with that key.

* `lookup key k l`       the first record of `l` with key `k`;
* `Unique key l`         no two records of `l` share a key;
* `put key a l`          the record with the key of `a` is taken out, then `a` is added at the end;
* `exists_append_of_lookup`   `erase` takes out the record that `lookup` finds;
* `lookup_map`, `erase_map`, `put_map`   a function that keeps the keys commutes with all three;
* `map_put_perm`         where `put` replaces a record, it keeps the keys;
* `lookup_put`           `put` changes the map at the key of `a` only;
* `others key k l`       the records with another key than `k`, in their order: `erase` and `put` at
                         `k` keep them;
* `only key k l`         those with the key `k`: `erase` and `put` at `k` act on them alone;
* `assign key a l`       `a` takes the place of the first record with its key, or the end of the list;
* `lookup_assign`, `Unique.assign`, `Unique.lookup_filter`   the map after it, and after a filter;
* `lookup_eq_some_iff`   with unique keys, lookups and members are the same thing.
-/

set_option linter.unusedSectionVars false

namespace Library

variable {α κ : Type*} [DecidableEq κ] (key : α → κ)

def lookup (k : κ) (l : List α) : Option α := l.find? fun a => key a = k

def erase (k : κ) (l : List α) : List α := l.eraseP fun a => key a = k

def put (a : α) (l : List α) : List α := erase key (key a) l ++ [a]

def Unique (l : List α) : Prop := (l.map key).Nodup

def others (k : κ) (l : List α) : List α := l.filter fun a => key a ≠ k

def only (k : κ) (l : List α) : List α := l.filter fun a => key a = k

variable {key}

theorem unique_nil : Unique key ([] : List α) := List.nodup_nil

theorem Unique.sublist {l l' : List α} (h : Unique key l) (hs : l'.Sublist l) : Unique key l' :=
  List.Nodup.sublist (hs.map key) h

theorem Unique.eq_of_key {l : List α} (h : Unique key l) {a b : α} (ha : a ∈ l) (hb : b ∈ l)
    (hk : key a = key b) : a = b := List.inj_on_of_nodup_map h ha hb hk

theorem mem_of_lookup {k : κ} {l : List α} {a : α} (h : lookup key k l = some a) : a ∈ l :=
  List.mem_of_find?_eq_some h

theorem key_of_lookup {k : κ} {l : List α} {a : α} (h : lookup key k l = some a) : key a = k := by
  simpa using List.find?_some h

theorem lookup_eq_none_iff {k : κ} {l : List α} :
    lookup key k l = none ↔ ∀ a ∈ l, key a ≠ k := by
  simp [lookup]

/-- **`erase` takes out the record that `lookup` finds**, and no other. -/
theorem exists_append_of_lookup {k : κ} {l : List α} {a : α} (h : lookup key k l = some a) :
    ∃ before after, l = before ++ a :: after ∧ (∀ b ∈ before, key b ≠ k) ∧
      erase key k l = before ++ after := by
  obtain ⟨hk, before, after, rfl, hbefore⟩ := List.find?_eq_some_iff_append.mp h
  have hother : ∀ b ∈ before, key b ≠ k := fun b hb => by simpa using hbefore b hb
  refine ⟨before, after, rfl, hother, ?_⟩
  rw [erase, List.eraseP_append_right _ fun b hb => by simpa using hother b hb,
    List.eraseP_cons_of_pos (p := fun b => key b = k) hk]

theorem lookup_append_cons {k : κ} {a : α} {before after : List α} (hb : ∀ b ∈ before, key b ≠ k)
    (ha : key a = k) : lookup key k (before ++ a :: after) = some a := by
  rw [lookup, List.find?_append, List.find?_eq_none.mpr fun b h => by simpa using hb b h]
  simp [ha]

theorem erase_append_cons {k : κ} {a : α} {before after : List α} (hb : ∀ b ∈ before, key b ≠ k)
    (ha : key a = k) : erase key k (before ++ a :: after) = before ++ after := by
  rw [erase, List.eraseP_append_right _ fun b h => by simpa using hb b h,
    List.eraseP_cons_of_pos (p := fun b => key b = k) (by simpa using ha)]

theorem lookup_map {β : Type*} {key' : β → κ} {f : β → α} (h : ∀ b, key (f b) = key' b) (k : κ)
    (l : List β) : lookup key k (l.map f) = (lookup key' k l).map f := by
  have hkey : (fun a => decide (key a = k)) ∘ f = fun b => decide (key' b = k) := by
    funext b
    rw [Function.comp_apply, h]
  rw [lookup, List.find?_map, hkey, lookup]

theorem erase_map {β : Type*} {key' : β → κ} {f : β → α} (h : ∀ b, key (f b) = key' b) (k : κ)
    (l : List β) : erase key k (l.map f) = (erase key' k l).map f := by
  have hkey : (fun a => decide (key a = k)) ∘ f = fun b => decide (key' b = k) := by
    funext b
    rw [Function.comp_apply, h]
  rw [erase, List.eraseP_map, hkey, erase]

theorem put_map {β : Type*} {key' : β → κ} {f : β → α} (h : ∀ b, key (f b) = key' b) (b : β)
    (l : List β) : put key (f b) (l.map f) = (put key' b l).map f := by
  rw [put, put, List.map_append, List.map_singleton, h, erase_map h]

/-- where `put` replaces a record, it keeps the keys -/
theorem map_put_perm {a b : α} {l : List α} (h : lookup key (key a) l = some b) :
    ((put key a l).map key).Perm (l.map key) := by
  obtain ⟨before, after, rfl, _, herase⟩ := exists_append_of_lookup h
  rw [put, herase, List.append_assoc, List.map_append, List.map_append, List.map_append,
    List.map_singleton, List.map_cons, key_of_lookup h]
  exact (List.perm_append_singleton (key a) (after.map key)).append_left (before.map key)

theorem lookup_isSome_of_mem (key : α → κ) {l : List α} {a : α} (h : a ∈ l) :
    (lookup key (key a) l).isSome := by
  rw [← Option.ne_none_iff_isSome]
  intro hn
  exact lookup_eq_none_iff.mp hn a h rfl

theorem Unique.lookup_eq_some_iff {l : List α} (h : Unique key l) {k : κ} {a : α} :
    lookup key k l = some a ↔ a ∈ l ∧ key a = k := by
  constructor
  · exact fun hl => ⟨mem_of_lookup hl, key_of_lookup hl⟩
  · intro hmem
    obtain ⟨ha, rfl⟩ := hmem
    obtain ⟨b, hb⟩ := Option.isSome_iff_exists.mp (lookup_isSome_of_mem key ha)
    rw [hb, h.eq_of_key (mem_of_lookup hb) ha (key_of_lookup hb)]

theorem erase_sublist (key : α → κ) (k : κ) (l : List α) : (erase key k l).Sublist l := List.eraseP_sublist

theorem Unique.mem_erase {l : List α} (h : Unique key l) {k : κ} {a : α} :
    a ∈ erase key k l ↔ a ∈ l ∧ key a ≠ k := by
  induction l with
  | nil => simp [erase]
  | cons b l ih =>
    have hb := List.nodup_cons.mp h
    by_cases hk : key b = k
    · have hmem : ∀ c ∈ l, key c ≠ k := fun c hc hck =>
        hb.1 (by rw [hk, ← hck]; exact List.mem_map_of_mem hc)
      have he : erase key k (b :: l) = l := by simp [erase, hk]
      rw [he, List.mem_cons]
      constructor
      · exact fun ha => ⟨Or.inr ha, hmem a ha⟩
      · intro hmem
        rcases hmem with ⟨rfl | ha, hne⟩
        · exact absurd hk hne
        · exact ha
    · have he : erase key k (b :: l) = b :: erase key k l := by simp [erase, hk]
      rw [he, List.mem_cons, List.mem_cons, ih hb.2]
      constructor
      · intro hmem
        rcases hmem with rfl | ⟨ha, hne⟩
        · exact ⟨Or.inl rfl, hk⟩
        · exact ⟨Or.inr ha, hne⟩
      · intro hmem
        rcases hmem with ⟨rfl | ha, hne⟩
        · exact Or.inl rfl
        · exact Or.inr ⟨ha, hne⟩

theorem Unique.mem_put {l : List α} (h : Unique key l) {a x : α} :
    x ∈ put key a l ↔ x = a ∨ (x ∈ l ∧ key x ≠ key a) := by
  rw [put, List.mem_append, List.mem_singleton, h.mem_erase, or_comm]

theorem Unique.append_singleton {l : List α} (h : Unique key l) {a : α}
    (hother : ∀ b ∈ l, key b ≠ key a) : Unique key (l ++ [a]) := by
  show ((l ++ [a]).map key).Nodup
  rw [List.map_append, List.nodup_append]
  refine ⟨h, by simp, ?_⟩
  intro k hk k' hk'
  obtain ⟨x, hx, rfl⟩ := List.mem_map.mp hk
  obtain rfl : k' = key a := by simpa using hk'
  exact hother x hx

theorem Unique.put {l : List α} (h : Unique key l) (a : α) : Unique key (put key a l) :=
  (h.sublist (erase_sublist key (key a) l)).append_singleton fun _ hb => (h.mem_erase.mp hb).2

/-- **`put` changes the map at the key of the new record only.** -/
theorem Unique.lookup_put {l : List α} (h : Unique key l) (a : α) (k : κ) :
    lookup key k (Library.put key a l) = if k = key a then some a else lookup key k l := by
  split
  · rename_i hk
    exact (h.put a).lookup_eq_some_iff.mpr ⟨h.mem_put.mpr (Or.inl rfl), hk.symm⟩
  · rename_i hk
    ext x
    rw [(h.put a).lookup_eq_some_iff, h.lookup_eq_some_iff, h.mem_put]
    constructor
    · intro hmem
      rcases hmem with ⟨rfl | ⟨hx, _⟩, rfl⟩
      · exact absurd rfl hk
      · exact ⟨hx, rfl⟩
    · intro hmem
      obtain ⟨hx, rfl⟩ := hmem
      exact ⟨Or.inr ⟨hx, hk⟩, rfl⟩

/-! ## the records with other keys -/

theorem others_append (k : κ) (l l' : List α) :
    others key k (l ++ l') = others key k l ++ others key k l' := List.filter_append l l'

theorem others_erase (k : κ) (l : List α) : others key k (erase key k l) = others key k l := by
  induction l with
  | nil => rfl
  | cons b l ih =>
    by_cases hb : key b = k
    · rw [erase, List.eraseP_cons_of_pos (by simpa using hb), others, others,
        List.filter_cons_of_neg (by simpa using hb)]
    · rw [erase, List.eraseP_cons_of_neg (by simpa using hb), others, others,
        List.filter_cons_of_pos (by simpa using hb), List.filter_cons_of_pos (by simpa using hb)]
      exact congrArg _ ih

/-- **`put` keeps the records with other keys**, also where keys are not unique. -/
theorem others_put (a : α) (l : List α) : others key (key a) (put key a l) = others key (key a) l := by
  rw [put, others_append, others_erase, others, others, List.filter_singleton]
  simp

/-! ## the records with one key -/

theorem lookup_only (k : κ) (l : List α) : lookup key k (only key k l) = lookup key k l := by
  rw [lookup, only, List.find?_filter, lookup]
  simp only [decide_eq_true_eq, and_self]

theorem only_append (k : κ) (l l' : List α) :
    only key k (l ++ l') = only key k l ++ only key k l' := List.filter_append l l'

theorem only_map {β : Type*} {key' : β → κ} {f : β → α} (h : ∀ b, key (f b) = key' b) (k : κ)
    (l : List β) : only key k (l.map f) = (only key' k l).map f := by
  have hkey : (fun a => decide (key a = k)) ∘ f = fun b => decide (key' b = k) := by
    funext b
    rw [Function.comp_apply, h]
  rw [only, List.filter_map, hkey, only]

theorem only_cons (k : κ) (b : α) (l : List α) :
    only key k (b :: l) = if key b = k then b :: only key k l else only key k l := by
  rw [only, List.filter_cons]
  simp only [decide_eq_true_eq]
  rfl

theorem erase_cons (k : κ) (b : α) (l : List α) :
    erase key k (b :: l) = if key b = k then l else b :: erase key k l := by
  rw [erase, List.eraseP_cons]
  simp only [decide_eq_true_eq, cond_eq_ite]
  rfl

theorem only_erase (k : κ) (l : List α) :
    only key k (erase key k l) = erase key k (only key k l) := by
  induction l with
  | nil => rfl
  | cons b l ih =>
    rw [erase_cons, only_cons]
    by_cases hb : key b = k
    · rw [if_pos hb, if_pos hb, erase_cons, if_pos hb]
    · rw [if_neg hb, if_neg hb, only_cons, if_neg hb, ih]

theorem only_erase_of_ne {k k' : κ} (h : k ≠ k') (l : List α) :
    only key k (erase key k' l) = only key k l := by
  induction l with
  | nil => rfl
  | cons b l ih =>
    rw [erase_cons, only_cons]
    by_cases hb : key b = k'
    · have hne : ¬ key b = k := fun hk => h (hk.symm.trans hb)
      rw [if_pos hb, if_neg hne]
    · rw [if_neg hb, only_cons, ih]

theorem only_singleton (k : κ) (a : α) : only key k [a] = if key a = k then [a] else [] :=
  only_cons k a []

theorem only_put {k : κ} {a : α} (h : key a = k) (l : List α) :
    only key k (put key a l) = put key a (only key k l) := by
  rw [Library.put, only_append, h, only_erase, only_singleton, if_pos h, Library.put, h]

theorem only_put_of_ne {k : κ} {a : α} (h : k ≠ key a) (l : List α) :
    only key k (put key a l) = only key k l := by
  rw [Library.put, only_append, only_erase_of_ne h, only_singleton, if_neg h.symm, List.append_nil]

/-! ## assignment in place -/

variable (key) in
def assign (a : α) : List α → List α
  | [] => [a]
  | b :: l => if key b = key a then a :: l else b :: assign a l

/-- **`assign` changes the map at the key of the new record only.** -/
theorem lookup_assign (a : α) (l : List α) (k : κ) :
    lookup key k (assign key a l) = if k = key a then some a else lookup key k l := by
  induction l with
  | nil =>
    by_cases hk : k = key a
    · simp [assign, lookup, hk]
    · simp [assign, lookup, hk, Ne.symm hk]
  | cons b l ih =>
    rw [lookup, lookup] at *
    by_cases hb : key b = key a
    · rw [assign, if_pos hb, List.find?_cons, List.find?_cons, hb]
      by_cases hk : k = key a
      · simp [hk]
      · simp [hk, Ne.symm hk]
    · rw [assign, if_neg hb, List.find?_cons, List.find?_cons, ih]
      by_cases hk : k = key a
      · simp [hk, hb]
      · simp [hk]

theorem mem_assign {a x : α} {l : List α} (h : x ∈ assign key a l) : x = a ∨ x ∈ l := by
  induction l with
  | nil => exact Or.inl (List.mem_singleton.mp h)
  | cons b l ih =>
    rw [assign] at h
    split at h
    · exact (List.mem_cons.mp h).imp_right (List.mem_cons_of_mem b)
    · rcases List.mem_cons.mp h with rfl | h
      · exact Or.inr List.mem_cons_self
      · exact (ih h).imp_right (List.mem_cons_of_mem b)

theorem mem_assign_self (a : α) (l : List α) : a ∈ assign key a l := by
  induction l with
  | nil => exact List.mem_singleton_self a
  | cons b l ih =>
    rw [assign]
    split
    · exact List.mem_cons_self
    · exact List.mem_cons_of_mem b ih

theorem Unique.assign {l : List α} (h : Unique key l) (a : α) : Unique key (assign key a l) := by
  induction l with
  | nil => exact List.nodup_singleton _
  | cons b l ih =>
    obtain ⟨hb, hl⟩ := List.nodup_cons.mp h
    rw [Library.assign]
    split
    · rename_i hk
      show ((a :: l).map key).Nodup
      rw [List.map_cons, ← hk]
      exact h
    · rename_i hk
      refine List.nodup_cons.mpr ⟨fun hmem => ?_, ih hl⟩
      obtain ⟨x, hx, hkx⟩ := List.mem_map.mp hmem
      rcases mem_assign hx with rfl | hxl
      · exact hk hkx.symm
      · exact hb (hkx ▸ List.mem_map_of_mem hxl)

theorem Unique.mem_assign {l : List α} (h : Unique key l) {a x : α} :
    x ∈ Library.assign key a l ↔ x = a ∨ (x ∈ l ∧ key x ≠ key a) := by
  have hx : x ∈ Library.assign key a l ↔ lookup key (key x) (Library.assign key a l) = some x := by
    rw [(h.assign a).lookup_eq_some_iff, and_iff_left rfl]
  have hl : x ∈ l ↔ lookup key (key x) l = some x := by
    rw [h.lookup_eq_some_iff, and_iff_left rfl]
  rw [hx, lookup_assign, hl]
  split
  · rename_i hk
    rw [Option.some_inj, eq_comm]
    exact (or_iff_left fun hmem => hmem.2 hk).symm
  · rename_i hk
    rw [and_iff_left hk]
    refine (or_iff_right fun heq => hk ?_).symm
    rw [heq]

/-- where the record ends up -/
theorem assign_of_findIdx? {a : α} {l : List α} {pos : ℕ}
    (h : (l.findIdx? fun b => decide (key b = key a)) = some pos) : assign key a l = l.set pos a := by
  induction l generalizing pos with
  | nil => cases h
  | cons b l ih =>
    rw [List.findIdx?_cons] at h
    by_cases hb : key b = key a
    · rw [if_pos (by simpa using hb)] at h
      obtain rfl := Option.some.inj h
      rw [assign, if_pos hb, List.set_cons_zero]
    · rw [if_neg (by simpa using hb)] at h
      obtain ⟨n, hn, rfl⟩ := Option.map_eq_some_iff.mp h
      rw [assign, if_neg hb, List.set_cons_succ, ih hn]

theorem assign_of_findIdx?_none {a : α} {l : List α}
    (h : (l.findIdx? fun b => decide (key b = key a)) = none) : assign key a l = l ++ [a] := by
  induction l with
  | nil => rfl
  | cons b l ih =>
    obtain ⟨hb, hl⟩ := List.forall_mem_cons.mp (List.findIdx?_eq_none_iff.mp h)
    have hne : ¬ key b = key a := by simpa using hb
    rw [assign, if_neg hne, ih (List.findIdx?_eq_none_iff.mpr hl), List.cons_append]

/-- **A filter of the list filters the map**, where keys are unique. -/
theorem Unique.lookup_filter {l : List α} (h : Unique key l) (p : α → Bool) (k : κ) :
    lookup key k (l.filter p) = (lookup key k l).filter p := by
  ext x
  rw [(h.sublist List.filter_sublist).lookup_eq_some_iff, Option.filter_eq_some_iff,
    h.lookup_eq_some_iff, List.mem_filter]
  constructor
  · intro hx
    exact ⟨⟨hx.1.1, hx.2⟩, hx.1.2⟩
  · intro hx
    exact ⟨⟨hx.1.1, hx.2⟩, hx.1.2⟩

end Library

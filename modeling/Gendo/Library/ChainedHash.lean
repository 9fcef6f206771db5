import Mathlib.Data.List.Nodup
import Mathlib.Logic.Function.Basic
import Mathlib.Tactic.Common

/-!
# Hash tables with chaining

A table is a list of elements for each hash value. In a well-formed table every element is in the
list of its key's hash value, and no key occurs twice; then the table is a partial map from keys
(`lookup`). Adding an element behind its list sets its key (`lookup_add`), and taking an element
out of whatever list it is in clears its key (`lookup_remove`).
-/

namespace ChainedHash

variable {κ α : Type*} (hash : κ → ℕ) (key : α → κ)

/-- The element with a key, searched for in the list of the key. -/
def lookup [DecidableEq κ] (table : ℕ → List α) (k : κ) : Option α :=
  (table (hash k)).find? fun a => decide (key a = k)

/-- An element behind the others with its hash value. -/
def add (table : ℕ → List α) (a : α) : ℕ → List α :=
  Function.update table (hash (key a)) (table (hash (key a)) ++ [a])

/-- The elements that are not taken out. -/
def remove (p : α → Bool) (table : ℕ → List α) : ℕ → List α :=
  fun i => (table i).filter fun a => !p a

/-- Every element is where its key says, and no key occurs twice. -/
structure WellFormed (table : ℕ → List α) : Prop where
  bucket : ∀ i, ∀ a ∈ table i, hash (key a) = i
  nodup : ∀ i, ((table i).map key).Nodup

variable {hash key} {table : ℕ → List α} {a b : α} {k : κ} {i : ℕ}

theorem wellFormed_empty : WellFormed hash key fun _ => ([] : List α) :=
  ⟨fun _ _ h => absurd h List.not_mem_nil, fun _ => List.nodup_nil⟩

/-- Two elements of one list with the same key are one. -/
theorem WellFormed.eq_of_key (h : WellFormed hash key table) (ha : a ∈ table i) (hb : b ∈ table i)
    (heq : key a = key b) : a = b := List.inj_on_of_nodup_map (h.nodup i) ha hb heq

theorem mem_add : b ∈ add hash key table a i ↔ b ∈ table i ∨ b = a ∧ i = hash (key a) := by
  rw [add, Function.update_apply]
  split_ifs with hi
  · rw [hi, List.mem_append, List.mem_singleton]
    simp
  · simp [hi]

theorem mem_remove {p : α → Bool} : b ∈ remove p table i ↔ b ∈ table i ∧ p b = false := by
  rw [remove, List.mem_filter, Bool.not_eq_true']

theorem WellFormed.remove (h : WellFormed hash key table) (p : α → Bool) :
    WellFormed hash key (remove p table) := by
  refine ⟨fun i b hb => h.bucket i b (mem_remove.mp hb).1, fun i => ?_⟩
  exact (h.nodup i).sublist (List.filter_sublist.map key)

variable [DecidableEq κ]

/-- What is found is in the table, and what is in the table is found. -/
theorem WellFormed.lookup_eq_some_iff (h : WellFormed hash key table) :
    lookup hash key table k = some a ↔ a ∈ table (hash k) ∧ key a = k := by
  constructor
  · intro hfind
    have hkey := List.find?_some hfind
    exact ⟨List.mem_of_find?_eq_some hfind, of_decide_eq_true hkey⟩
  · rintro ⟨hmem, rfl⟩
    rcases hfind : lookup hash key table (key a) with _ | b
    · have hnone := List.find?_eq_none.mp hfind a hmem
      exact absurd (decide_eq_true rfl) hnone
    · have hkey := List.find?_some hfind
      rw [h.eq_of_key (List.mem_of_find?_eq_some hfind) hmem (of_decide_eq_true hkey)]

theorem WellFormed.add (h : WellFormed hash key table)
    (hnew : lookup hash key table (key a) = none) : WellFormed hash key (add hash key table a) := by
  refine ⟨fun i b hb => ?_, fun i => ?_⟩
  · rcases mem_add.mp hb with hold | ⟨rfl, rfl⟩
    · exact h.bucket i b hold
    · rfl
  · rw [ChainedHash.add, Function.update_apply]
    split_ifs
    · -- the key is not in its list yet
      rw [List.map_append, List.map_singleton, List.nodup_append_comm]
      refine List.nodup_cons.mpr ⟨fun hmem => ?_, h.nodup _⟩
      obtain ⟨b, hb, hkey⟩ := List.mem_map.mp hmem
      exact absurd (decide_eq_true hkey) (List.find?_eq_none.mp hnew b hb)
    · exact h.nodup i

/-- An element that is added is found under its key. -/
theorem WellFormed.lookup_add (h : WellFormed hash key table)
    (hnew : lookup hash key table (key a) = none) :
    lookup hash key (ChainedHash.add hash key table a) =
      Function.update (lookup hash key table) (key a) (some a) := by
  funext k
  rw [Function.update_apply]
  split_ifs with hk
  · rw [(h.add hnew).lookup_eq_some_iff]
    exact ⟨mem_add.mpr (.inr ⟨rfl, congrArg hash hk⟩), hk.symm⟩
  · ext b
    rw [(h.add hnew).lookup_eq_some_iff, h.lookup_eq_some_iff, mem_add]
    refine and_congr_left fun hkey => or_iff_left ?_
    rintro ⟨rfl, -⟩
    exact hk hkey.symm

/-- If one element is taken out, its key is not found any more. -/
theorem WellFormed.lookup_remove (h : WellFormed hash key table) {p : α → Bool}
    (ha : lookup hash key table (key a) = some a)
    (hp : ∀ i, ∀ b ∈ table i, p b = true ↔ b = a) :
    lookup hash key (ChainedHash.remove p table) =
      Function.update (lookup hash key table) (key a) none := by
  funext k
  rw [Function.update_apply]
  ext b
  have hsome : lookup hash key (ChainedHash.remove p table) k = some b ↔
      lookup hash key table k = some b ∧ b ≠ a := by
    rw [(h.remove p).lookup_eq_some_iff, h.lookup_eq_some_iff, mem_remove]
    constructor
    · rintro ⟨⟨hb, hpb⟩, hkey⟩
      refine ⟨⟨hb, hkey⟩, fun heq => ?_⟩
      rw [(hp _ b hb).mpr heq] at hpb
      cases hpb
    · rintro ⟨⟨hb, hkey⟩, hne⟩
      exact ⟨⟨hb, (Bool.not_eq_true _).mp fun hpb => hne ((hp _ b hb).mp hpb)⟩, hkey⟩
  rw [hsome]
  split_ifs with hk
  · -- under this key there was nothing else
    rw [hk, ha]
    simp [eq_comm]
  · refine and_iff_left_of_imp fun hb heq => hk ?_
    rw [← (h.lookup_eq_some_iff.mp hb).2, heq]

end ChainedHash

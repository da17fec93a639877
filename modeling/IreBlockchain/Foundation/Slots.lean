import Mathlib.Data.List.Nodup
import Mathlib.Data.List.Perm.Subperm

/-!
# Slots

Tables that are filled at distinct places, places that change their contents,
and the search for a place that is still free.
-/

namespace IreBlockchain.Foundation

variable {α β : Type}

/-! ## Writing at distinct places -/

def writeAll (table : List (Option β)) (writes : List (Nat × β)) :
    List (Option β) :=
  writes.foldl (fun table write => table.set write.1 (some write.2)) table

@[simp] theorem length_writeAll (table : List (Option β))
    (writes : List (Nat × β)) :
    (writeAll table writes).length = table.length := by
  induction writes generalizing table with
  | nil => rfl
  | cons write writes ih => exact (ih _).trans List.length_set

theorem getElem?_writeAll_of_not_mem (table : List (Option β))
    {writes : List (Nat × β)} {k : Nat} (h : k ∉ writes.map Prod.fst) :
    (writeAll table writes)[k]? = table[k]? := by
  induction writes generalizing table with
  | nil => rfl
  | cons write writes ih =>
      simp only [List.map_cons, List.mem_cons, not_or] at h
      exact (ih _ h.2).trans (List.getElem?_set_ne (Ne.symm h.1))

theorem getElem?_writeAll {table : List (Option β)} {writes : List (Nat × β)}
    {k : Nat} {v : β} (hkeys : (writes.map Prod.fst).Nodup)
    (h : (k, v) ∈ writes) (hk : k < table.length) :
    (writeAll table writes)[k]? = some (some v) := by
  induction writes generalizing table with
  | nil => cases h
  | cons write writes ih =>
      rw [List.map_cons, List.nodup_cons] at hkeys
      rcases List.mem_cons.mp h with rfl | hmem
      · have hrest := getElem?_writeAll_of_not_mem (table.set k (some v))
          hkeys.1
        exact hrest.trans (List.getElem?_set_self hk)
      · exact ih hkeys.2 hmem (by simpa using hk)

/-! ## Swapping -/

def swap (arr : List α) (i j : Nat) : List α :=
  if h : i < arr.length ∧ j < arr.length then
    (arr.set i (arr.get ⟨j, h.2⟩)).set j (arr.get ⟨i, h.1⟩)
  else arr

theorem swap_perm (arr : List α) (i j : Nat) : (swap arr i j).Perm arr := by
  unfold swap
  split
  next h => exact List.set_set_perm h.1 h.2
  next => exact .refl arr

/-! ## Probing -/

/-- From `idx` on, at most `tries` places around the ring: the first free one. -/
def probe (used : Nat → Bool) (size : Nat) : Nat → Nat → Option Nat
  | 0, _ => none
  | tries + 1, idx =>
      if used idx then probe used size tries ((idx + 1) % size) else some idx

variable {used : Nat → Bool} {size tries idx : Nat}

theorem probe_eq_some {found : Nat} (hidx : idx < size)
    (h : probe used size tries idx = some found) :
    used found = false ∧ found < size := by
  induction tries generalizing idx with
  | zero => cases h
  | succ tries ih =>
      unfold probe at h
      split at h
      next => exact ih (Nat.mod_lt _ (by omega)) h
      next hfree =>
        obtain rfl := Option.some.inj h
        exact ⟨by simpa using hfree, hidx⟩

theorem used_of_probe_eq_none (h : probe used size tries idx = none) :
    ∀ k < tries, idx < size → used ((idx + k) % size) = true := by
  induction tries generalizing idx with
  | zero => exact fun k hk => absurd hk (Nat.not_lt_zero k)
  | succ tries ih =>
      unfold probe at h
      split at h
      next hused =>
        intro k hk hidx
        cases k with
        | zero => rwa [Nat.add_zero, Nat.mod_eq_of_lt hidx]
        | succ k =>
            have hrest := ih h k (by omega) (Nat.mod_lt _ (by omega))
            rwa [Nat.mod_add_mod, Nat.add_assoc, Nat.add_comm 1 k] at hrest
      next => cases h

theorem probe_ne_none {free : Nat} (hfree : free < size)
    (hunused : used free = false) (hidx : idx < size) :
    probe used size size idx ≠ none := by
  intro h
  have hall := used_of_probe_eq_none h ((free + size - idx) % size)
    (Nat.mod_lt _ (by omega)) hidx
  have hround : (idx + (free + size - idx) % size) % size = free := by
    rw [Nat.add_mod_mod, show idx + (free + size - idx) = free + size by omega,
      Nat.add_mod_right, Nat.mod_eq_of_lt hfree]
  rw [hround, hunused] at hall
  contradiction

theorem exists_fresh {n : Nat} {name : Nat → α} {taken : List α}
    (hinj : ∀ i < n, ∀ j < n, name i = name j → i = j)
    (hlength : taken.length < n) : ∃ i < n, name i ∉ taken := by
  classical
  by_contra hnone
  have hall : ∀ i < n, name i ∈ taken := by
    intro i hi
    by_contra hi'
    exact hnone ⟨i, hi, hi'⟩
  have hnodup : ((List.range n).map name).Nodup := by
    apply List.nodup_range.map_on
    intro i hi j hj
    exact hinj i (List.mem_range.mp hi) j (List.mem_range.mp hj)
  have hsubset : (List.range n).map name ⊆ taken := by
    intro a ha
    obtain ⟨i, hi, rfl⟩ := List.mem_map.mp ha
    exact hall i (List.mem_range.mp hi)
  have hle := (hnodup.subperm hsubset).length_le
  simp only [List.length_map, List.length_range] at hle
  omega

end IreBlockchain.Foundation

import Mathlib.Order.Lattice
import Mathlib.Data.List.Basic

/-!
# Ordered key-value stores

A store lists its entries in strictly increasing order of keys, which is the
order an iterator visits them in.  Two entries never share a key.
-/

namespace IreBlockchain.Foundation

structure KVStore (Key Value : Type) [LinearOrder Key] where
  entries : List (Key × Value)
  sorted : entries.Pairwise fun a b => a.1 < b.1

namespace KVStore

variable {Key Value : Type} [LinearOrder Key]

def empty : KVStore Key Value := ⟨[], .nil⟩

def insertEntry (key : Key) (value : Value) :
    List (Key × Value) → List (Key × Value)
  | [] => [(key, value)]
  | entry :: rest =>
      if key < entry.1 then (key, value) :: entry :: rest
      else if key = entry.1 then (key, value) :: rest
      else entry :: insertEntry key value rest

theorem fst_of_mem_insertEntry {key : Key} {value : Value} {e : Key × Value}
    {entries : List (Key × Value)} (h : e ∈ insertEntry key value entries) :
    e = (key, value) ∨ e ∈ entries := by
  induction entries with
  | nil => simpa [insertEntry] using h
  | cons entry rest ih =>
      simp only [insertEntry] at h
      split at h
      · simpa using h
      · split at h <;> grind

theorem insertEntry_sorted (key : Key) (value : Value)
    {entries : List (Key × Value)}
    (hsorted : entries.Pairwise fun a b => a.1 < b.1) :
    (insertEntry key value entries).Pairwise fun a b => a.1 < b.1 := by
  induction entries with
  | nil => simp [insertEntry]
  | cons entry rest ih =>
      obtain ⟨hhead, hrest⟩ := List.pairwise_cons.mp hsorted
      simp only [insertEntry]
      split
      next hlt =>
        refine List.pairwise_cons.mpr ⟨?_, hsorted⟩
        intro e he
        rcases List.mem_cons.mp he with rfl | he
        · exact hlt
        · exact lt_trans hlt (hhead e he)
      next hnlt =>
        split
        next heq =>
          exact List.pairwise_cons.mpr
            ⟨fun e he => heq ▸ hhead e he, hrest⟩
        next hne =>
          refine List.pairwise_cons.mpr ⟨?_, ih hrest⟩
          intro e he
          rcases fst_of_mem_insertEntry he with rfl | he
          · exact lt_of_le_of_ne (not_lt.mp hnlt) (Ne.symm hne)
          · exact hhead e he

def get (s : KVStore Key Value) (key : Key) : Option Value :=
  (s.entries.find? fun e => e.1 = key).map Prod.snd

def set (s : KVStore Key Value) (key : Key) (value : Value) :
    KVStore Key Value :=
  ⟨insertEntry key value s.entries, insertEntry_sorted key value s.sorted⟩

/-- What an iterator over the keys in a range visits, in order. -/
def iterate (s : KVStore Key Value) (range : Key → Bool) :
    List (Key × Value) :=
  s.entries.filter fun e => range e.1

@[simp] theorem get_empty (key : Key) :
    (empty : KVStore Key Value).get key = none := rfl

theorem get_eq_some_iff {s : KVStore Key Value} {key : Key} {value : Value} :
    s.get key = some value ↔ (key, value) ∈ s.entries := by
  obtain ⟨entries, hsorted⟩ := s
  simp only [get]
  induction entries with
  | nil => simp
  | cons entry rest ih =>
      obtain ⟨hhead, hrest⟩ := List.pairwise_cons.mp hsorted
      by_cases heq : entry.1 = key
      · have hnot : (key, value) ∉ rest := fun hmem =>
          absurd (hhead _ hmem) (by simp [heq])
        simp [heq, hnot, Prod.ext_iff, eq_comm]
      · have hne : (key, value) ≠ entry := fun h => heq (by rw [← h])
        simp [heq, hne, ih hrest]

theorem get_set (s : KVStore Key Value) (key key' : Key) (value : Value) :
    (s.set key value).get key' =
      if key' = key then some value else s.get key' := by
  obtain ⟨entries, hsorted⟩ := s
  simp only [get, set]
  induction entries with
  | nil => by_cases h : key = key' <;> simp [insertEntry, h, eq_comm]
  | cons entry rest ih =>
      obtain ⟨hhead, hrest⟩ := List.pairwise_cons.mp hsorted
      have ih := ih hrest
      simp only [insertEntry]
      grind

@[simp] theorem get_set_self (s : KVStore Key Value) (key : Key)
    (value : Value) : (s.set key value).get key = some value := by
  simp [get_set]

theorem get_set_of_ne (s : KVStore Key Value) {key key' : Key} (value : Value)
    (h : key' ≠ key) : (s.set key value).get key' = s.get key' := by
  simp [get_set, h]

theorem mem_iterate_iff {s : KVStore Key Value} {range : Key → Bool}
    {key : Key} {value : Value} :
    (key, value) ∈ s.iterate range ↔
      s.get key = some value ∧ range key = true := by
  simp [iterate, get_eq_some_iff]

theorem insertEntry_insertEntry (key : Key) (value value' : Value)
    (entries : List (Key × Value)) :
    insertEntry key value' (insertEntry key value entries) =
      insertEntry key value' entries := by
  induction entries with
  | nil => simp [insertEntry]
  | cons entry rest ih =>
      simp only [insertEntry]
      split
      next hlt => simp [insertEntry]
      next hnlt =>
        split
        next heq => simp [insertEntry]
        next hne => simp [insertEntry, hnlt, hne, ih]

theorem filter_insertEntry {range : Key → Bool} {key : Key}
    (h : range key = false) (value : Value) (entries : List (Key × Value)) :
    (insertEntry key value entries).filter (fun e => range e.1) =
      entries.filter fun e => range e.1 := by
  induction entries with
  | nil => simp [insertEntry, h]
  | cons entry rest ih =>
      simp only [insertEntry]
      split
      next hlt => simp [h]
      next hnlt =>
        split
        next heq => simp [← heq, h]
        next hne => simp only [List.filter_cons, ih]

@[simp] theorem set_set (s : KVStore Key Value) (key : Key)
    (value value' : Value) :
    (s.set key value).set key value' = s.set key value' := by
  simp only [set, insertEntry_insertEntry]

theorem iterate_set {range : Key → Bool} {key : Key}
    (h : range key = false) (s : KVStore Key Value) (value : Value) :
    (s.set key value).iterate range = s.iterate range :=
  filter_insertEntry h value s.entries

end KVStore

end IreBlockchain.Foundation

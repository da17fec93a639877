import IreBlockchain.Foundation.KVStore
import Mathlib.Data.List.Lex

/-!
# Prefix stores

The part of a store whose keys begin with a stem, read under what is left of
its keys.  Keys are compared lexicographically, so cutting the stem off keeps
their order.
-/

namespace IreBlockchain.Foundation.KVStore

variable {α Value : Type} [LinearOrder α] {s : KVStore (List α) Value}
  {stem : List α}

def iterateUnder (s : KVStore (List α) Value) (stem : List α) :
    List (List α × Value) :=
  (s.iterate fun key => stem.isPrefixOf key).map fun entry =>
    (entry.1.drop stem.length, entry.2)

theorem append_lt_append_iff {key key' : List α} :
    stem ++ key < stem ++ key' ↔ key < key' := by
  constructor
  · intro h
    by_contra hnot
    rcases (not_lt.mp hnot).lt_or_eq with hlt | heq
    · exact lt_asymm h (List.append_left_lt hlt)
    · exact absurd h (by simp [heq])
  · exact List.append_left_lt

theorem mem_iterateUnder_iff {key : List α} {value : Value} :
    (key, value) ∈ s.iterateUnder stem ↔ s.get (stem ++ key) = some value := by
  simp only [iterateUnder, List.mem_map, Prod.mk.injEq, Prod.exists,
    mem_iterate_iff, List.isPrefixOf_iff_prefix]
  constructor
  · rintro ⟨_, _, ⟨hget, rest, rfl⟩, rfl, rfl⟩
    rwa [List.drop_left]
  · intro hget
    exact ⟨stem ++ key, value, ⟨hget, List.prefix_append stem key⟩,
      List.drop_left, rfl⟩

theorem iterateUnder_sorted :
    ((s.iterateUnder stem).map Prod.fst).Pairwise (· < ·) := by
  simp only [iterateUnder, List.map_map, List.pairwise_map, Function.comp]
  have hsorted : (s.iterate fun key => stem.isPrefixOf key).Pairwise
      fun a b => a.1 < b.1 := s.sorted.filter _
  refine hsorted.imp_of_mem ?_
  intro a b ha hb hlt
  obtain ⟨key, hkey⟩ : stem <+: a.1 :=
    List.isPrefixOf_iff_prefix.mp (mem_iterate_iff.mp ha).2
  obtain ⟨key', hkey'⟩ : stem <+: b.1 :=
    List.isPrefixOf_iff_prefix.mp (mem_iterate_iff.mp hb).2
  rw [← hkey, ← hkey', append_lt_append_iff] at hlt
  rwa [← hkey, ← hkey', List.drop_left, List.drop_left]

end IreBlockchain.Foundation.KVStore

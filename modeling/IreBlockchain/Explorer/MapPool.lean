import IreBlockchain.Foundation.WorkerPool
import Mathlib.Data.List.Perm.Lattice

/-!
# Fetching with a few workers

The market page and the wallet read the blocks of a window with a few workers
that share one cursor.  A worker runs up to its `await`, and goes on when the
call it made resolves.
-/

namespace IreBlockchain.Explorer

open IreBlockchain.Foundation

variable {α β : Type}

namespace MapPool

/-- What the workers share, and the calls of `fn` that they have made. -/
structure Progress (α β : Type) where
  i : Nat
  out : List (Option β)
  calls : List (α × Nat)
  inFlight : List Nat
  deriving DecidableEq

def worker (items : List α) (now : Progress α β) : Progress α β :=
  if h : now.i < items.length then
    { now with
      i := now.i + 1
      calls := now.calls ++ [(items[now.i], now.i)]
      inFlight := now.inFlight ++ [now.i] }
  else now

def workers (limit length : Nat) : Nat :=
  if min limit length = 0 then 1 else min limit length

def spawn (items : List α) : Nat → Progress α β
  | 0 => ⟨0, List.replicate items.length none, [], []⟩
  | n + 1 => worker items (spawn items n)

def resolve (items : List α) (now : Progress α β) (idx : Nat) (value : β) :
    Option (Progress α β) :=
  if idx ∈ now.inFlight then
    some (worker items
      { now with
        out := now.out.set idx (some value)
        inFlight := now.inFlight.erase idx })
  else none

def settle (items : List α) (now : Progress α β) :
    List (Nat × β) → Option (Progress α β)
  | [] => some now
  | (idx, value) :: order =>
      (resolve items now idx value).bind fun next => settle items next order

end MapPool

open MapPool

/-- `mapPool` up to the point where the calls of `order` have resolved. -/
def mapPool (items : List α) (limit : Nat) (order : List (Nat × β)) :
    Option (Progress α β) :=
  settle items (spawn items (workers limit items.length)) order

def MapPool.Progress.Returned (now : Progress α β) : Prop :=
  now.inFlight = []

namespace MapPool

/-! ## The pool behind the workers -/

def Progress.pool (length : Nat) (now : Progress α β) : Pool Nat :=
  ⟨List.range' now.i (length - now.i), now.inFlight⟩

variable {items : List α} {now next : Progress α β} {order : List (Nat × β)}
variable {idx limit n : Nat} {value : β}

theorem pool_worker (items : List α) (now : Progress α β) :
    (worker items now).pool items.length = (now.pool items.length).take := by
  by_cases h : now.i < items.length
  · obtain ⟨m, hm⟩ := Nat.exists_eq_add_of_lt h
    have hlen : items.length - now.i = m + 1 := by omega
    have hrest : items.length - (now.i + 1) = m := by omega
    simp [worker, h, Progress.pool, hlen, hrest, List.range'_succ, Pool.take]
  · have hlen : items.length - now.i = 0 := by omega
    simp [worker, h, Progress.pool, hlen, Pool.take]

theorem pool_spawn (items : List α) :
    ∀ n, (spawn items n : Progress α β).pool items.length =
      Pool.start n (List.range items.length)
  | 0 => by simp [spawn, Progress.pool, Pool.start, List.range_eq_range']
  | n + 1 => by rw [spawn, pool_worker, pool_spawn items n, Pool.start]

theorem resolve_eq_some (h : resolve items now idx value = some next) :
    idx ∈ now.inFlight ∧ next = worker items
      { now with
        out := now.out.set idx (some value)
        inFlight := now.inFlight.erase idx } := by
  unfold resolve at h
  split at h
  next hmem => exact ⟨hmem, (Option.some.inj h).symm⟩
  next => cases h

/-! ## What holds after any calls have resolved -/

structure Fetched (items : List α) (n : Nat) (done : List (Nat × β))
    (now : Progress α β) : Prop where
  left : ∃ front left, Pool.Left n (now.pool items.length) front left ∧
    (done.map Prod.fst ++ left).Perm (List.range items.length)
  i_le : now.i ≤ items.length
  calls_eq : now.calls = items.zipIdx.take now.i
  out_eq : now.out = (List.range items.length).map fun idx => done.lookup idx

theorem calls_worker (h : now.calls = items.zipIdx.take now.i) :
    (worker items now).calls = items.zipIdx.take (worker items now).i := by
  by_cases hlt : now.i < items.length
  · have htake := List.take_succ_eq_append_getElem
      (l := items.zipIdx) (by simpa using hlt)
    simp [worker, hlt, h, htake]
  · simp [worker, hlt, h]

theorem i_worker (h : now.i ≤ items.length) :
    (worker items now).i ≤ items.length := by
  unfold worker
  split
  next hlt => exact hlt
  next => exact h

@[simp] theorem out_worker (items : List α) (now : Progress α β) :
    (worker items now).out = now.out := by
  unfold worker
  split <;> rfl

theorem fetched_spawn (items : List α) (n : Nat) :
    Fetched items n [] (spawn items n : Progress α β) := by
  constructor
  · obtain ⟨front, hleft⟩ := Pool.left_start (List.range items.length) n
    rw [← pool_spawn (β := β)] at hleft
    exact ⟨front, _, hleft, .refl _⟩
  · induction n with
    | zero => exact Nat.zero_le _
    | succ n ih => exact i_worker ih
  · induction n with
    | zero => rfl
    | succ n ih => exact calls_worker ih
  · induction n with
    | zero => simp [spawn, List.map_const']
    | succ n ih => rw [spawn, out_worker, ih]

theorem pool_resolve (h : resolve items now idx value = some next) :
    (now.pool items.length).complete idx = some (next.pool items.length) := by
  obtain ⟨hmem, rfl⟩ := resolve_eq_some h
  rw [pool_worker]
  exact if_pos hmem

theorem Fetched.resolve {done : List (Nat × β)}
    (hnow : Fetched items n done now)
    (h : MapPool.resolve items now idx value = some next) :
    Fetched items n (done ++ [(idx, value)]) next := by
  obtain ⟨front, left, hleft, hperm⟩ := hnow.left
  obtain ⟨hmem, hnext⟩ := resolve_eq_some h
  have hidx : idx ∈ left := by
    rw [hleft.items_eq]
    exact List.mem_append_left _ (hleft.running.mem_iff.mp hmem)
  have hfresh : ∀ e ∈ done, e.1 ≠ idx := by
    rintro e he rfl
    have hnodup := hperm.nodup_iff.mpr List.nodup_range
    exact (List.nodup_append.mp hnodup).2.2 e.1
      (List.mem_map_of_mem he) e.1 hidx rfl
  constructor
  · obtain ⟨pool, front', hpool, hleft'⟩ := hleft.complete hmem
    obtain rfl := Option.some.inj (hpool.symm.trans (pool_resolve h))
    refine ⟨front', left.erase idx, hleft', ?_⟩
    have herase := (List.perm_cons_erase hidx).symm
    rw [List.map_append, List.append_assoc]
    exact (herase.append_left (done.map Prod.fst)).trans hperm
  · rw [hnext]
    exact i_worker hnow.i_le
  · rw [hnext]
    exact calls_worker hnow.calls_eq
  · have hlt : idx < items.length := by
      have := hperm.subset (List.mem_append_right _ hidx)
      exact List.mem_range.mp this
    have hnone : done.lookup idx = none := by
      rw [List.lookup_eq_none_iff]
      intro e he
      simpa using (hfresh e he).symm
    rw [hnext, out_worker, hnow.out_eq]
    apply List.ext_getElem
    · simp
    · intro k hk _
      by_cases hkey : idx = k
      · subst hkey
        simp [List.lookup_append, hnone]
      · have hne : (k == idx) = false := by simpa using Ne.symm hkey
        simp [hkey, List.lookup_append, List.lookup_cons, hne]

theorem Fetched.settle {done : List (Nat × β)} (hnow : Fetched items n done now)
    (h : MapPool.settle items now order = some next) :
    Fetched items n (done ++ order) next := by
  induction order generalizing done now with
  | nil =>
      obtain rfl := Option.some.inj h
      simpa using hnow
  | cons e order ih =>
      obtain ⟨idx, value⟩ := e
      obtain ⟨mid, hmid, hrest⟩ := Option.bind_eq_some_iff.mp h
      simpa using ih (hnow.resolve hmid) hrest

/-! ## What the state says -/

variable {done : List (Nat × β)}

theorem Fetched.inFlight_length_le (h : Fetched items n done now) :
    now.inFlight.length ≤ n ∧
      now.inFlight.length + done.length ≤ items.length := by
  obtain ⟨front, left, hleft, hperm⟩ := h.left
  have hrunning : now.inFlight.length = front.length := hleft.running.length_eq
  have hle := hleft.length_le
  have htotal := hperm.length_eq
  rw [hleft.items_eq] at htotal
  simp only [List.length_append, List.length_map, List.length_range] at htotal
  omega

theorem front_eq_nil {front left : List Nat}
    (h : Pool.Left n (now.pool items.length) front left)
    (hreturned : now.Returned) : front = [] := by
  apply List.length_eq_zero_iff.mp
  rw [← h.running.length_eq]
  exact congrArg List.length hreturned

theorem Fetched.returned_iff (h : Fetched items n done now) (hn : 0 < n) :
    now.Returned ↔ done.length = items.length := by
  obtain ⟨front, left, hleft, hperm⟩ := h.left
  have htotal := hperm.length_eq
  simp only [List.length_append, List.length_map, List.length_range] at htotal
  constructor
  · intro hreturned
    have hfront := front_eq_nil hleft hreturned
    have hwaiting : (now.pool items.length).waiting = [] := by
      by_contra hne
      have := hleft.full hne
      simp [hfront] at this
      omega
    have hnil : left = [] := by simp [hleft.items_eq, hfront, hwaiting]
    simp [hnil] at htotal
    exact htotal
  · intro hlength
    have := h.inFlight_length_le.2
    exact List.length_eq_zero_iff.mp (by omega)

theorem Fetched.keys_perm (h : Fetched items n done now)
    (hlength : done.length = items.length) :
    (done.map Prod.fst).Perm (List.range items.length) := by
  obtain ⟨front, left, -, hperm⟩ := h.left
  have htotal := hperm.length_eq
  simp only [List.length_append, List.length_map, List.length_range] at htotal
  have hnil : left = [] := List.length_eq_zero_iff.mp (by omega)
  simpa [hnil] using hperm

theorem Fetched.i_eq (h : Fetched items n done now) (hn : 0 < n)
    (hreturned : now.Returned) : now.i = items.length := by
  obtain ⟨front, left, hleft, hperm⟩ := h.left
  have hfront := front_eq_nil hleft hreturned
  by_contra hne
  have hle := h.i_le
  have hwaiting : (now.pool items.length).waiting ≠ [] := by
    simp [Progress.pool]
    omega
  have := hleft.full hwaiting
  simp [hfront] at this
  omega

theorem workers_pos (limit length : Nat) : 0 < workers limit length := by
  unfold workers
  split <;> omega

end MapPool

/--
In any order in which the calls resolve, at most `limit` of them and at most
one for each item are in flight, `fn` is called with the items one after the
other, and the workers return exactly when the calls for all items have
resolved: then each item has been passed to `fn` once, and `out` has at each
index what the call for the item there resolved to.
-/
theorem mapPool_maps_in_order {items : List α} {limit : Nat}
    {order : List (Nat × β)} {now : Progress α β} (hlimit : 1 ≤ limit)
    (h : mapPool items limit order = some now) :
    now.inFlight.length ≤ min limit items.length ∧
      now.calls = items.zipIdx.take now.i ∧
      order.length ≤ items.length ∧
      (now.Returned ↔ order.length = items.length) ∧
      (now.Returned → now.calls = items.zipIdx ∧
        (order.map Prod.fst).Perm (List.range items.length) ∧
        now.out = (List.range items.length).map fun i => order.lookup i) := by
  have hnow : Fetched items (workers limit items.length) order now := by
    simpa using (fetched_spawn items _).settle h
  have hpos := workers_pos limit items.length
  have hbound := hnow.inFlight_length_le
  refine ⟨?_, hnow.calls_eq, by omega, hnow.returned_iff hpos, ?_⟩
  · have hworkers : workers limit items.length ≤
        max 1 (min limit items.length) := by
      unfold workers
      split <;> omega
    omega
  · intro hreturned
    have hlength := (hnow.returned_iff hpos).mp hreturned
    refine ⟨?_, hnow.keys_perm hlength, hnow.out_eq⟩
    rw [hnow.calls_eq, hnow.i_eq hpos hreturned]
    exact List.take_of_length_le (by simp)

theorem mapPool_maps_in_order_sample :
    ∃ now, mapPool ['a', 'b', 'c'] 2 [(1, "B"), (2, "C"), (0, "A")] =
        some now ∧
      now.calls = [('a', 0), ('b', 1), ('c', 2)] ∧
      now.out = [some "A", some "B", some "C"] := by
  have hrun : mapPool ['a', 'b', 'c'] 2 [(1, "B"), (2, "C"), (0, "A")] =
      some ⟨3, [some "A", some "B", some "C"],
        [('a', 0), ('b', 1), ('c', 2)], []⟩ := by decide
  have hlaw := mapPool_maps_in_order (by decide) hrun
  exact ⟨_, hrun, (hlaw.2.2.2.2 rfl).1, (hlaw.2.2.2.2 rfl).2.2⟩

end IreBlockchain.Explorer

import Mathlib.Data.List.Perm.Subperm
import Mathlib.Data.List.Nodup

/-!
# Worker pools

A fixed number of workers share a list of items.  A worker waits for its item
and then takes the next one that nobody has taken.  What matters to those who
read the results as they come in is the order in which the items complete.
-/

namespace IreBlockchain.Foundation

variable {α : Type}

structure Pool (α : Type) where
  waiting : List α
  running : List α
  deriving DecidableEq

namespace Pool

def take : Pool α → Pool α
  | ⟨x :: waiting, running⟩ => ⟨waiting, running ++ [x]⟩
  | ⟨[], running⟩ => ⟨[], running⟩

def start : Nat → List α → Pool α
  | 0, items => ⟨items, []⟩
  | n + 1, items => (start n items).take

variable [DecidableEq α]

def complete (pool : Pool α) (x : α) : Option (Pool α) :=
  if x ∈ pool.running then some (take ⟨pool.waiting, pool.running.erase x⟩)
  else none

/-- The items complete in this order, and then all workers are done. -/
def Finishes (pool : Pool α) : List α → Prop
  | [] => pool.running = []
  | x :: order => ∃ next, pool.complete x = some next ∧ next.Finishes order

end Pool

/-- With `n` workers, one of the first `n` items that are left completes next. -/
inductive Completes [DecidableEq α] (n : Nat) : List α → List α → Prop
  | nil : Completes n [] []
  | cons {items order : List α} {x : α} (hx : x ∈ items.take n)
      (h : Completes n (items.erase x) order) : Completes n items (x :: order)

/-! ## What the workers of a pool do -/

namespace Pool

structure Left (n : Nat) (pool : Pool α) (front items : List α) : Prop where
  items_eq : items = front ++ pool.waiting
  running : pool.running.Perm front
  length_le : front.length ≤ n
  full : pool.waiting ≠ [] → front.length = n

theorem Left.take {n : Nat} {pool : Pool α} {front items : List α}
    (hitems : items = front ++ pool.waiting) (hrunning : pool.running.Perm front)
    (hlength : front.length < n)
    (hfull : pool.waiting ≠ [] → front.length + 1 = n) :
    ∃ front, Left n pool.take front items := by
  obtain ⟨waiting, running⟩ := pool
  cases waiting with
  | nil => exact ⟨front, hitems, hrunning, by omega, nofun⟩
  | cons x waiting =>
      have hlast : front.length + 1 = n := hfull (List.cons_ne_nil _ _)
      refine ⟨front ++ [x], by simpa [Pool.take] using hitems, ?_, ?_, ?_⟩
      · exact hrunning.append_right [x]
      · simp [hlast]
      · simp [hlast]

theorem left_start (items : List α) :
    ∀ n, ∃ front, Left n (start n items) front items
  | 0 => ⟨[], rfl, .nil, Nat.le_refl _, fun _ => rfl⟩
  | n + 1 => by
      obtain ⟨front, h⟩ := left_start items n
      have hle := h.length_le
      exact Left.take h.items_eq h.running (by omega)
        (fun hwaiting => congrArg (· + 1) (h.full hwaiting))

variable {n : Nat} {pool : Pool α} {front items order : List α}

theorem Left.mem_take_iff (h : Left n pool front items) {x : α} :
    x ∈ items.take n ↔ x ∈ pool.running := by
  rw [h.running.mem_iff, h.items_eq, List.take_append, List.mem_append,
    List.take_of_length_le h.length_le]
  constructor
  · rintro (hfront | hwaiting)
    · exact hfront
    · have hne : pool.waiting ≠ [] := by
        rintro hnil
        simp [hnil] at hwaiting
      simp [h.full hne] at hwaiting
  · exact Or.inl

variable [DecidableEq α]

theorem Left.complete (h : Left n pool front items) {x : α}
    (hx : x ∈ pool.running) :
    ∃ next front', pool.complete x = some next ∧
      Left n next front' (items.erase x) := by
  have hfront : x ∈ front := h.running.mem_iff.mp hx
  let freed : Pool α := ⟨pool.waiting, pool.running.erase x⟩
  have hitems : items.erase x = front.erase x ++ freed.waiting := by
    rw [h.items_eq, List.erase_append_left _ hfront]
  have hlength := List.length_erase_of_mem hfront
  have hpos := List.length_pos_of_mem hfront
  have hle := h.length_le
  have hrunning : freed.running.Perm (front.erase x) := h.running.erase x
  have hfull : freed.waiting ≠ [] → (front.erase x).length + 1 = n := by
    intro hwaiting
    have := h.full hwaiting
    omega
  obtain ⟨front', h'⟩ := Left.take hitems hrunning (by omega) hfull
  exact ⟨_, front', if_pos hx, h'⟩

theorem Left.finishes_iff (h : Left n pool front items) (hn : 0 < n) :
    pool.Finishes order ↔ Completes n items order := by
  induction order generalizing pool front items with
  | nil =>
      constructor
      · intro (hdone : pool.running = [])
        have hfront : front = [] := (hdone ▸ h.running).nil_eq.symm
        have hwaiting : pool.waiting = [] := by
          by_contra hne
          have := h.full hne
          simp [hfront] at this
          omega
        have hitems : items = [] := by simp [h.items_eq, hfront, hwaiting]
        rw [hitems]
        exact .nil
      · intro hcompletes
        cases hcompletes
        have hfront := (List.append_eq_nil_iff.mp h.items_eq.symm).1
        exact (hfront ▸ h.running).eq_nil
  | cons x order ih =>
      constructor
      · rintro ⟨next, hnext, hfinishes⟩
        have hx : x ∈ pool.running := by
          by_contra hx
          simp [Pool.complete, hx] at hnext
        obtain ⟨next', front', hnext', h'⟩ := h.complete hx
        obtain rfl := Option.some.inj (hnext'.symm.trans hnext)
        exact .cons (h.mem_take_iff.mpr hx) ((ih h').mp hfinishes)
      · rintro (_ | ⟨hx, hcompletes⟩)
        obtain ⟨next, front', hnext, h'⟩ := h.complete (h.mem_take_iff.mp hx)
        exact ⟨next, hnext, (ih h').mpr hcompletes⟩

theorem finishes_start_iff (hn : 0 < n) :
    (start n items).Finishes order ↔ Completes n items order := by
  obtain ⟨front, h⟩ := left_start items n
  exact h.finishes_iff hn

end Pool

/-! ## Orders of completion -/

section Completes

variable [DecidableEq α] {n : Nat} {items order : List α}

theorem Completes.perm (h : Completes n items order) : order.Perm items := by
  induction h with
  | nil => exact .nil
  | @cons items order x hx h ih =>
      have hmem : x ∈ items := List.mem_of_mem_take hx
      exact (ih.cons x).trans (List.perm_cons_erase hmem).symm

theorem completes_self (hn : 0 < n) : ∀ items : List α, Completes n items items
  | [] => .nil
  | x :: items => by
      apply Completes.cons
      · obtain ⟨m, rfl⟩ := Nat.exists_eq_add_of_lt hn
        simp
      · rw [List.erase_cons_head]
        exact completes_self hn items

theorem Completes.skip {kept rest : List α} {x : α} (hx : x ∉ kept)
    (hlength : kept.length < n) (h : Completes n (kept ++ rest) order) :
    Completes n (kept ++ x :: rest) (x :: order) := by
  apply Completes.cons
  · obtain ⟨m, rfl⟩ := Nat.exists_eq_add_of_lt hlength
    rw [List.take_append, List.mem_append]
    right
    simp [show kept.length + m + 1 - kept.length = m + 1 by omega]
  · rwa [List.erase_append_right _ hx, List.erase_cons_head]

theorem completes_keeping (q : α → Bool) {x : α} {after : List α}
    (hx : q x = true) :
    ∀ kept before : List α, (kept ++ (before ++ x :: after)).Nodup →
      (∀ y ∈ kept, q y = true) → (kept ++ before.filter q).length < n →
      ∃ order, Completes n (kept ++ (before ++ x :: after)) order ∧
        order.find? q = some x
  | kept, [], hnodup, hkept, hlength => by
      have hn : 0 < n := by omega
      have hnot : x ∉ kept := fun hmem =>
        (List.nodup_append.mp hnodup).2.2 x hmem x List.mem_cons_self rfl
      refine ⟨_, (completes_self hn (kept ++ after)).skip hnot
        (by simpa using hlength), ?_⟩
      exact List.find?_cons_of_pos hx
  | kept, y :: before, hnodup, hkept, hlength => by
      by_cases hy : q y = true
      · have hsplit : kept ++ (y :: before ++ x :: after) =
            kept ++ [y] ++ (before ++ x :: after) := by simp
        have hkept' : ∀ z ∈ kept ++ [y], q z = true := by
          intro z hz
          rcases List.mem_append.mp hz with hz | hz
          · exact hkept z hz
          · exact List.mem_singleton.mp hz ▸ hy
        rw [hsplit] at hnodup ⊢
        apply completes_keeping q hx (kept ++ [y]) before hnodup hkept'
        simpa [hy] using hlength
      · have hnot : y ∉ kept := fun hmem => hy (hkept y hmem)
        have hrest : (kept ++ (before ++ x :: after)).Nodup :=
          List.Nodup.sublist (List.Sublist.append_left
            (List.sublist_cons_self y _) kept) hnodup
        obtain ⟨order, horder, hfind⟩ := completes_keeping q hx kept before
          hrest hkept (by simpa [hy] using hlength)
        refine ⟨y :: order, ?_, ?_⟩
        · have hlength' : kept.length < n := by
            simp only [List.length_append] at hlength
            omega
          exact horder.skip hnot hlength'
        · rw [List.find?_cons_of_neg hy]
          exact hfind

theorem Completes.find?_mem {q : α → Bool} {x : α}
    (h : Completes n items order) (hfind : order.find? q = some x) :
    x ∈ (items.filter q).take n := by
  induction h with
  | nil => cases hfind
  | @cons items order y hy h ih =>
      by_cases hq : q y = true
      · rw [List.find?_cons_of_pos hq] at hfind
        obtain rfl := Option.some.inj hfind
        have hfront : y ∈ (items.take n).filter q := List.mem_filter.mpr ⟨hy, hq⟩
        have hbegins : (items.take n).filter q <+: items.filter q :=
          (List.take_prefix n items).filter q
        have hlength : ((items.take n).filter q).length ≤ n :=
          Nat.le_trans (List.length_filter_le _ _) (List.length_take_le _ _)
        exact (List.prefix_take_iff.mpr ⟨hbegins, hlength⟩).subset hfront
      · rw [List.find?_cons_of_neg hq] at hfind
        have hsame : (items.erase y).filter q = items.filter q := by
          obtain ⟨before, after, -, hitems, herase⟩ :=
            List.exists_erase_eq (List.mem_of_mem_take hy)
          rw [herase, hitems]
          simp [hq]
        rw [← hsame]
        exact ih hfind

/--
Which of the items with a property can be the first of them to complete: any of
the first `n`.
-/
theorem exists_completes_iff (hnodup : items.Nodup) {q : α → Bool} {x : α} :
    (∃ order, Completes n items order ∧ order.find? q = some x) ↔
      x ∈ (items.filter q).take n := by
  constructor
  · rintro ⟨order, horder, hfind⟩
    exact horder.find?_mem hfind
  · intro hx
    obtain ⟨hmem, hq⟩ := List.mem_filter.mp (List.mem_of_mem_take hx)
    obtain ⟨before, after, rfl⟩ := List.append_of_mem hmem
    have hlength : (before.filter q).length < n := by
      by_contra hle
      rw [List.filter_append, List.take_append_of_le_length
        (Nat.not_lt.mp hle)] at hx
      have hbefore := (List.mem_filter.mp (List.mem_of_mem_take hx)).1
      exact (List.nodup_append.mp hnodup).2.2 x hbefore x List.mem_cons_self rfl
    exact completes_keeping q hq [] before hnodup (by simp) hlength

end Completes

end IreBlockchain.Foundation

import Mathlib.Algebra.BigOperators.Finprod
import Mathlib.Algebra.BigOperators.Group.Finset.Basic
import Mathlib.Algebra.BigOperators.Pi
import Mathlib.Algebra.Order.BigOperators.Group.Finset
import Mathlib.Data.Fintype.BigOperators

/-!
# Ledgers of balances

A ledger assigns an amount to every account.  The operations below either move
an amount or refuse; the lemmas say what a move does to each account and that
it keeps the total.
-/

namespace IreBlockchain.Foundation

variable {Account : Type} [DecidableEq Account]

abbrev Balances (Account : Type) := Account → Nat

namespace Balances

def credit (b : Balances Account) (dst : Account) (value : Nat) :
    Balances Account :=
  Function.update b dst (b dst + value)

/-- Take `value` out of one account; an account cannot go below zero. -/
def debit? (b : Balances Account) (src : Account) (value : Nat) :
    Option (Balances Account) :=
  if b src < value then none
  else some (Function.update b src (b src - value))

def move? (b : Balances Account) (src dst : Account) (value : Nat) :
    Option (Balances Account) := do
  let debited ← b.debit? src value
  some (debited.credit dst value)

theorem credit_apply (b : Balances Account) (dst a : Account) (value : Nat) :
    b.credit dst value a = b a + if a = dst then value else 0 := by
  by_cases h : a = dst
  · subst h
    simp [credit]
  · simp [credit, h]

@[simp] theorem credit_self (b : Balances Account) (dst : Account)
    (value : Nat) : b.credit dst value dst = b dst + value := by
  simp [credit]

@[simp] theorem credit_zero (b : Balances Account) (dst : Account) :
    b.credit dst 0 = b := by
  simp [credit]

theorem debit?_eq_some_iff {b b' : Balances Account} {src : Account}
    {value : Nat} :
    b.debit? src value = some b' ↔
      value ≤ b src ∧ b' = Function.update b src (b src - value) := by
  unfold debit?
  by_cases h : b src < value
  · simp [h]
  · simp [h, Nat.not_lt.mp h, eq_comm]

theorem debit?_apply {b b' : Balances Account} {src : Account} {value : Nat}
    (h : b.debit? src value = some b') (a : Account) :
    b' a + (if a = src then value else 0) = b a := by
  obtain ⟨hle, rfl⟩ := debit?_eq_some_iff.mp h
  by_cases ha : a = src
  · subst ha
    simp
    omega
  · simp [ha]

theorem move?_eq_none_iff {b : Balances Account} {src dst : Account}
    {value : Nat} : b.move? src dst value = none ↔ b src < value := by
  by_cases h : b src < value
  · simp [move?, debit?, h]
  · simp [move?, debit?, h]

/-- What a move leaves on every account, the two ends included. -/
theorem move?_apply {b b' : Balances Account} {src dst : Account}
    {value : Nat} (h : b.move? src dst value = some b') (a : Account) :
    b' a + (if a = src then value else 0) =
      b a + (if a = dst then value else 0) := by
  simp only [move?, Option.bind_eq_bind, Option.bind_eq_some_iff,
    Option.some.injEq] at h
  obtain ⟨debited, hdebit, rfl⟩ := h
  have hd := debit?_apply hdebit a
  rw [credit_apply]
  omega

theorem move?_le {b b' : Balances Account} {src dst : Account} {value : Nat}
    (h : b.move? src dst value = some b') : value ≤ b src := by
  by_contra hlt
  rw [move?_eq_none_iff.mpr (Nat.lt_of_not_le hlt)] at h
  contradiction

theorem move?_of_le {b : Balances Account} {src : Account} {value : Nat}
    (dst : Account) (h : value ≤ b src) : ∃ b', b.move? src dst value = some b' := by
  cases hmove : b.move? src dst value with
  | none => exact absurd (move?_eq_none_iff.mp hmove) (Nat.not_lt.mpr h)
  | some b' => exact ⟨b', rfl⟩

@[simp] theorem move?_zero (b : Balances Account) (src dst : Account) :
    b.move? src dst 0 = some b := by
  simp [move?, debit?]

theorem move?_other {b b' : Balances Account} {src dst a : Account}
    {value : Nat} (h : b.move? src dst value = some b') (hsrc : a ≠ src)
    (hdst : a ≠ dst) : b' a = b a := by
  have := move?_apply h a
  simpa [hsrc, hdst] using this

theorem move?_src {b b' : Balances Account} {src dst : Account} {value : Nat}
    (h : b.move? src dst value = some b') (hne : src ≠ dst) :
    b' src + value = b src := by
  have := move?_apply h src
  simpa [hne] using this

theorem move?_dst {b b' : Balances Account} {src dst : Account} {value : Nat}
    (h : b.move? src dst value = some b') (hne : src ≠ dst) :
    b' dst = b dst + value := by
  have := move?_apply h dst
  simpa [hne.symm] using this

theorem move?_trans {b b₁ b₂ : Balances Account} {src dst : Account}
    {v₁ v₂ : Nat} (hne : src ≠ dst) (h₁ : b.move? src dst v₁ = some b₁)
    (h₂ : b₁.move? src dst v₂ = some b₂) :
    b.move? src dst (v₁ + v₂) = some b₂ := by
  have hle : v₁ + v₂ ≤ b src := by
    have := move?_src h₁ hne
    have := move?_le h₂
    omega
  obtain ⟨b', hb'⟩ := move?_of_le dst hle
  have : b' = b₂ := by
    funext a
    have e₁ := move?_apply h₁ a
    have e₂ := move?_apply h₂ a
    have e := move?_apply hb' a
    by_cases hs : a = src <;> by_cases hd : a = dst <;>
      simp [hs, hd, hne, hne.symm] at e₁ e₂ e ⊢ <;> grind
  rw [hb', this]

section Total

variable [Fintype Account]

theorem sum_credit (b : Balances Account) (dst : Account) (value : Nat) :
    ∑ a, b.credit dst value a = ∑ a, b a + value := by
  simp [credit_apply, Finset.sum_add_distrib]

theorem sum_move? {b b' : Balances Account} {src dst : Account} {value : Nat}
    (h : b.move? src dst value = some b') : ∑ a, b' a = ∑ a, b a := by
  have hall : ∑ a, (b' a + if a = src then value else 0) =
      ∑ a, (b a + if a = dst then value else 0) :=
    Finset.sum_congr rfl fun a _ => move?_apply h a
  simp only [Finset.sum_add_distrib, Finset.sum_ite_eq', Finset.mem_univ,
    if_true] at hall
  omega

omit [DecidableEq Account] in
theorem le_sum (b : Balances Account) (a : Account) : b a ≤ ∑ x, b x :=
  Finset.single_le_sum (f := b) (fun _ _ => Nat.zero_le _) (Finset.mem_univ a)

end Total

/-! ## Totals over any number of accounts -/

/-- Finitely many accounts hold something, and this is what they hold. -/
structure HoldTotal (b : Balances Account) (total : Nat) : Prop where
  finite : (Function.support b).Finite
  sum : ∑ᶠ a, b a = total

theorem finsum_credit {b : Balances Account}
    (h : (Function.support b).Finite) (dst : Account) (value : Nat) :
    ∑ᶠ a, (b a + if a = dst then value else 0) = ∑ᶠ a, b a + value := by
  have hsingle : (Function.support fun a : Account =>
      if a = dst then value else 0) ⊆ {dst} := by
    intro a ha
    by_contra hne
    exact ha (if_neg hne)
  rw [finsum_add_distrib h ((Set.finite_singleton dst).subset hsingle),
    finsum_eq_single _ dst fun a hne => if_neg hne, if_pos rfl]

theorem HoldTotal.flow {b b' : Balances Account} {total out into : Nat}
    {src dst : Account} (h : b.HoldTotal total)
    (hflow : ∀ a, b' a + (if a = src then out else 0) =
      b a + (if a = dst then into else 0)) :
    ∃ total', b'.HoldTotal total' ∧ total' + out = total + into := by
  have hfinite : (Function.support b').Finite := by
    refine (h.finite.union (Set.finite_singleton dst)).subset ?_
    intro a ha
    by_contra hnot
    rw [Set.mem_union, not_or] at hnot
    have hzero : b a = 0 := by simpa using hnot.1
    have hne : a ≠ dst := by simpa using hnot.2
    have hnow := hflow a
    rw [hzero, if_neg hne] at hnow
    have hpos : b' a ≠ 0 := ha
    omega
  refine ⟨∑ᶠ a, b' a, ⟨hfinite, rfl⟩, ?_⟩
  rw [← finsum_credit hfinite src out, finsum_congr hflow,
    finsum_credit h.finite, h.sum]

end Balances

end IreBlockchain.Foundation

import IreBlockchain.LiquidityToken.Conservation

/-!
# The arithmetic of fees

The contract puts no bound on its supply, and a fee is computed by way of a
product a hundred times the value.  Once the pair has accepted the tokens of
the launch the supply is small enough that neither this product nor any of the
subtractions leaves `uint256`.
-/

namespace IreBlockchain.LiquidityToken

open IreBlockchain.Foundation

def checkedSub (n m : Nat) : Option Nat :=
  if m ≤ n then some (n - m) else none

def splitFee (value : Nat) : Option (Nat × Nat) := do
  let product ← checked (value * feeBps)
  let fee := product / bps
  let rest ← checkedSub value fee
  some (fee, rest)

def splitHalf (amount : Nat) : Option (Nat × Nat) := do
  let half := amount / 2
  let rest ← checkedSub amount half
  some (half, rest)

variable (D : Deployment) (R : Router)

def payFee (s : State) (src dst : Address) (fee rest : Nat) : Option State :=
  if 0 < fee then do
    let s ← superUpdate s src D.self fee
    let fees ← checked (s.totalFeesCollected + fee)
    superUpdate { s with totalFeesCollected := fees } src dst rest
  else superUpdate s src dst rest

def liquifyHalves (s : State) (half rest : Nat) : Option State :=
  let s := { s with inSwap := true }
  match R.swapExactTokensForETHSupportingFeeOnTransferTokens s half with
  | none => some { s with inSwap := false }
  | some s =>
      let s := { s with swapped := s.swapped + half }
      let ethBal := s.ethBalance
      if ethBal = 0 then some { s with inSwap := false }
      else
        match R.addLiquidityETH { s with ethBalance := 0 } ethBal rest 0 0 with
        | none => some { s with inSwap := false }
        | some (s, t, e, _) => do
            let tokens ← checked (s.totalTokensToLiquidity + t)
            let eth ← checked (s.totalEthToLiquidity + e)
            some { s with
              totalTokensToLiquidity := tokens
              totalEthToLiquidity := eth
              inSwap := false }

variable {D R} {s : State} {src dst : Address} {value amount : Nat}

theorem checkedSub_of_le {n m : Nat} (h : m ≤ n) :
    checkedSub n m = some (n - m) :=
  if_pos h

theorem splitFee_eq (value : Nat) :
    splitFee value =
      (checked (value * feeBps)).map fun _ =>
        (value / 100, value - value / 100) := by
  have hle : value / 100 ≤ value := Nat.div_le_self value 100
  cases hproduct : checked (value * feeBps) with
  | none => simp [splitFee, hproduct]
  | some product =>
      obtain rfl := (checked_eq_some_iff.mp hproduct).2
      simp [splitFee, hproduct, fee_eq, checkedSub_of_le hle]

theorem chargeTrade_eq (s : State) (src dst : Address) (value : Nat) :
    chargeTrade D s src dst value =
      (splitFee value).bind fun parts => payFee D s src dst parts.1 parts.2 := by
  rw [splitFee_eq]
  cases hproduct : checked (value * feeBps) with
  | none => simp [chargeTrade, hproduct]
  | some product =>
      obtain rfl := (checked_eq_some_iff.mp hproduct).2
      simp only [chargeTrade, hproduct, payFee, fee_eq, Option.bind_eq_bind,
        Option.bind_some, Option.map_some]
      by_cases hfee : 0 < value / 100
      · simp only [if_pos hfee]
      · have hzero : value / 100 = 0 := by omega
        simp only [hzero, Nat.sub_zero]

theorem splitHalf_eq (amount : Nat) :
    splitHalf amount = some (amount / 2, amount - amount / 2) := by
  have hle : amount / 2 ≤ amount := Nat.div_le_self amount 2
  simp [splitHalf, checkedSub_of_le hle]

theorem liquifyAmount_eq (s : State) (amount : Nat) :
    liquifyAmount R s amount =
      (splitHalf amount).bind fun parts => liquifyHalves R s parts.1 parts.2 := by
  rw [splitHalf_eq]
  rfl

/-! ## After the launch -/

/-- No account holds more than ten ninths of what the pair can hold. -/
theorem Inv.balance_le (hinv : Inv D s) (hlaunched : s.launched = true)
    (a : Address) : 9 * s.balances a ≤ 10 * uint112Max := by
  have hsupply := hinv.capped hlaunched
  have htotal := Balances.le_sum s.balances a
  rw [hinv.total] at htotal
  omega

theorem splitFee_of_le_balance (hinv : Inv D s) (hlaunched : s.launched = true)
    (hvalue : value ≤ s.balances src) :
    splitFee value = some (value / 100, value - value / 100) := by
  have hbalance := hinv.balance_le hlaunched src
  have hbound : value * feeBps < uint256Size := by
    simp only [feeBps, uint256Size, uint112Max] at hbalance ⊢
    omega
  rw [splitFee_eq, checked_eq_some_iff.mpr ⟨hbound, rfl⟩]
  rfl

/--
Once the token is launched, no arithmetic on the value of an affordable
transfer leaves `uint256`: a trade always gets to paying its fee, whatever the
automatic liquidity has done before, and a liquidity add to its swap.
-/
theorem fee_arithmetic_never_reverts (hreach : Reachable D s)
    (hlaunched : s.launched = true) :
    (∀ (tx : Tx) (src dst : Address) (value : Nat),
      tx.transfers = some (src, dst, value) → value ≤ s.balances src →
        ∃ fee rest, splitFee value = some (fee, rest) ∧
          ∀ R now, updateTrade D R now src dst value =
            (if dst = D.pair then maybeLiquify D R now else some now).bind
              fun mid => payFee D mid src dst fee rest) ∧
    ∃ half rest, splitHalf s.swapThreshold = some (half, rest) ∧
      ∀ R now, liquifyAmount R now s.swapThreshold =
        liquifyHalves R now half rest := by
  constructor
  · intro tx src dst value htx hvalue
    have hsplit := splitFee_of_le_balance hreach.inv hlaunched hvalue
    refine ⟨_, _, hsplit, ?_⟩
    intro R now
    rw [updateTrade_eq]
    congr 1
    funext mid
    rw [chargeTrade_eq, hsplit]
    rfl
  · refine ⟨_, _, splitHalf_eq s.swapThreshold, ?_⟩
    intro R now
    rw [liquifyAmount_eq, splitHalf_eq]
    rfl

theorem fee_arithmetic_never_reverts_sample :
    ∃ s, Reachable sampleDeployment s ∧ s.launched = true ∧
      ∃ fee rest, splitFee (10 ^ 26) = some (fee, rest) := by
  obtain ⟨s₀, h⟩ : ∃ s₀, construct sampleDeployment Router.reverting (10 ^ 9) 0
      = some s₀ := Option.isSome_iff_exists.mp (by decide)
  have hstate := Option.some.inj h
  have hreach : Reachable sampleDeployment
      (run (step sampleDeployment) s₀ sampleTxs) :=
    ⟨_, _, s₀, sampleTxs, h, sampleTxs_external, rfl⟩
  have hlaunched : (run (step sampleDeployment) s₀ sampleTxs).launched = true := by
    subst hstate
    decide
  refine ⟨_, hreach, hlaunched, ?_⟩
  obtain ⟨fee, rest, hsplit, -⟩ := (fee_arithmetic_never_reverts hreach
    hlaunched).1 ⟨5, 0, .transfer 3 (10 ^ 26), .reverts, .reverts⟩ 5 3 (10 ^ 26)
    rfl (by subst hstate; decide)
  exact ⟨fee, rest, hsplit⟩

end IreBlockchain.LiquidityToken

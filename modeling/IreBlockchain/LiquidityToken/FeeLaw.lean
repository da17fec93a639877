import IreBlockchain.LiquidityToken.Conservation

/-!
# The fee law

Every trade of a third party pays one percent of its value to the contract, on
top of what an automatic liquidity step moves from the contract to the pair,
and every other transfer is free.  A transfer that the sender can afford and is
allowed to make does complete.
-/

namespace IreBlockchain.LiquidityToken

open IreBlockchain.Foundation

variable {D : Deployment} {s s' : State}

/-! ## Transfers that complete -/

def State.CountersFit (s : State) (replies : RouterReplies) (value : Nat) :
    Prop :=
  s.totalFeesCollected + value / 100 < uint256Size ∧
    match replies.add with
    | .reverts => True
    | .adds t e _ =>
        s.totalTokensToLiquidity + t < uint256Size ∧
          s.totalEthToLiquidity + e < uint256Size

instance (s : State) (value : Nat) :
    ∀ replies, Decidable (s.CountersFit replies value)
  | ⟨_, .reverts⟩ => inferInstanceAs (Decidable (_ ∧ True))
  | ⟨_, .adds _ _ _⟩ => inferInstanceAs (Decidable (_ ∧ _ ∧ _))

theorem liquifyAmount_isSome {replies : RouterReplies} {amount value : Nat}
    (hfit : s.CountersFit replies value) :
    ∃ s', liquifyAmount (uniswapV2 D replies) s amount = some s' := by
  simp only [liquifyAmount]
  split
  next => exact ⟨_, rfl⟩
  next s₁ hswap =>
    obtain ⟨b, a, e, -, -, rfl⟩ := swap_eq_some hswap
    split
    · exact ⟨_, rfl⟩
    · split
      next => exact ⟨_, rfl⟩
      next s₂ t eth liquidity hadd =>
        obtain ⟨⟨hreply, -⟩, b', a', -, -, rfl⟩ := addLiquidityETH_eq_some hadd
        simp only [State.CountersFit, hreply] at hfit
        simp [checked, hfit.2.1, hfit.2.2]

theorem maybeLiquify_isSome {replies : RouterReplies} {value : Nat}
    (hfit : s.CountersFit replies value) :
    ∃ s', maybeLiquify D (uniswapV2 D replies) s = some s' := by
  unfold maybeLiquify
  split
  · exact ⟨s, rfl⟩
  · exact liquifyAmount_isSome hfit

theorem superUpdate_isSome {src dst : Address} {value : Nat} (hsrc : src ≠ 0)
    (hdst : dst ≠ 0) (hvalue : value ≤ s.balances src) :
    ∃ s', superUpdate s src dst value = some s' := by
  rw [superUpdate_eq hsrc hdst]
  obtain ⟨b, hb⟩ := Balances.move?_of_le dst hvalue
  exact ⟨_, by rw [hb]; rfl⟩

theorem updateTrade_isSome {replies : RouterReplies} {src dst : Address}
    {value : Nat} (hsrc : src ≠ 0) (hdst : dst ≠ 0) (hne : src ≠ dst)
    (hself : src ≠ D.self) (hlock : s.inSwap = false)
    (hvalue : value ≤ s.balances src) (hbound : value * feeBps < uint256Size)
    (hfit : s.CountersFit replies value) :
    ∃ s', updateTrade D (uniswapV2 D replies) s src dst value = some s' := by
  obtain ⟨mid, hmid, hbal, hfees⟩ : ∃ mid,
      (if dst = D.pair then maybeLiquify D (uniswapV2 D replies) s
        else some s) = some mid ∧
      mid.balances src = s.balances src ∧
      mid.totalFeesCollected = s.totalFeesCollected := by
    by_cases hpair : dst = D.pair
    · obtain ⟨mid, hmid⟩ := maybeLiquify_isSome (D := D) hfit
      obtain ⟨taken, added, hliq, -⟩ := maybeLiquify_eq_some hlock hmid
      exact ⟨mid, by rw [if_pos hpair, hmid],
        hliq.balance_eq hself (hpair ▸ hne), hliq.fees⟩
    · exact ⟨s, by rw [if_neg hpair], rfl, rfl⟩
  have hchecked : checked (value * feeBps) = some (value * feeBps) :=
    checked_eq_some_iff.mpr ⟨hbound, rfl⟩
  simp only [updateTrade, hmid, hchecked, Option.bind_eq_bind,
    Option.bind_some, fee_eq]
  split
  · obtain ⟨s₁, hs₁⟩ := superUpdate_isSome hsrc D.self_ne_zero
      (show value / 100 ≤ mid.balances src by omega)
    obtain ⟨paid, hpaid, rfl⟩ := superUpdate_eq_some hsrc D.self_ne_zero hs₁
    have hleft := Balances.move?_src hpaid hself
    have hcount : checked (mid.totalFeesCollected + value / 100) =
        some (mid.totalFeesCollected + value / 100) :=
      checked_eq_some_iff.mpr ⟨by rw [hfees]; exact hfit.1, rfl⟩
    simp only [hs₁, hcount, Option.bind_some]
    exact superUpdate_isSome hsrc hdst (by simp only; omega)
  · exact superUpdate_isSome hsrc hdst (hbal ▸ hvalue)

/-- What a call needs besides the balance to make its transfer. -/
structure Tx.Permitted (tx : Tx) (s : State) (src dst : Address)
    (value : Nat) : Prop where
  src_ne_zero : src ≠ 0
  dst_ne_zero : dst ≠ 0
  no_ether : tx.value = 0
  allowed : tx.call = .transfer dst value ∨ s.Allows src tx.sender value
  fit : s.CountersFit tx.replies value

theorem update_isSome {replies : RouterReplies} {src dst : Address}
    {value : Nat} (hinv : Inv D s) (hsrc : src ≠ 0) (hdst : dst ≠ 0)
    (hne : src ≠ dst) (hself : src ≠ D.self)
    (hvalue : value ≤ s.balances src) (hfit : s.CountersFit replies value) :
    ∃ s', update D (uniswapV2 D replies) s src dst value = some s' := by
  simp only [update]
  split
  next hcharge =>
    have hsupply := hinv.capped hcharge.2.2
    have htotal := Balances.le_sum s.balances src
    rw [hinv.total] at htotal
    have hbound : value * feeBps < uint256Size := by
      simp only [feeBps, uint256Size, uint112Max] at hsupply ⊢
      omega
    exact updateTrade_isSome hsrc hdst hne hself hinv.unlocked hvalue hbound
      hfit
  next => exact superUpdate_isSome hsrc hdst (by simpa using hvalue)

theorem exec_isSome {tx : Tx} {src dst : Address} {value : Nat}
    (hinv : Inv D s) (htx : tx.transfers = some (src, dst, value))
    (hne : src ≠ dst) (hself : src ≠ D.self)
    (hvalue : value ≤ s.balances src)
    (hpermit : tx.Permitted s src dst value) :
    ∃ s', exec D s tx = some s' := by
  obtain ⟨hsrc, hdst, hether, hallowed, hfit⟩ := hpermit
  obtain ⟨sender, ethers, call, replies⟩ := tx
  cases call <;> simp only [Tx.transfers, Option.some.injEq, Prod.mk.injEq,
    reduceCtorEq] at htx
  case transfer =>
    obtain ⟨rfl, rfl, rfl⟩ := htx
    have hupdate := update_isSome hinv hsrc hdst hne hself hvalue hfit
    simpa [exec, transfer, transferFromTo, require_of hsrc, require_of hdst,
      require_of hether] using hupdate
  case transferFrom =>
    obtain ⟨rfl, rfl, rfl⟩ := htx
    obtain ⟨a, ha, hspend⟩ :=
      spendAllowance_of_allows (hallowed.resolve_left (by simp))
    have hupdate := update_isSome (s := { s with allowances := a })
      (hinv.of_allowances ha) hsrc hdst hne hself hvalue hfit
    simpa [exec, transferFrom, hspend, transferFromTo, require_of hsrc,
      require_of hdst, require_of hether] using hupdate

/-! ## The law -/

/--
The accounts and the books after a trade with the fee, when the automatic
liquidity of the call took `taken` tokens for ETH and `added` for the pool.
-/
structure Taxed (D : Deployment) (s s' : State) (src dst : Address)
    (value taken added : Nat) : Prop where
  sender : s'.balances src + value = s.balances src
  recipient : s'.balances dst =
    s.balances dst + (value - value / 100) + (taken + added)
  contract : s'.balances D.self + (taken + added) =
    s.balances D.self + value / 100
  fees : s'.totalFeesCollected = s.totalFeesCollected + value / 100
  swapped : s'.swapped = s.swapped + taken
  tokens : s'.totalTokensToLiquidity = s.totalTokensToLiquidity + added

theorem Charged.taxed {replies : RouterReplies} {src dst : Address}
    {value : Nat} {mid : State} {paid : Balances Address}
    (h : Charged D replies s s' src dst value mid paid)
    (hne : src ≠ dst) (hsrc : src ≠ D.self) (hdst : dst ≠ D.self) :
    ∃ taken added, AutoLiquidity D s replies dst taken added ∧
      Taxed D s s' src dst value taken added := by
  obtain ⟨taken, added, hliq, hauto⟩ := h.liquidity
  obtain ⟨b, hb, rfl⟩ := h.rest
  have hmidsrc : mid.balances src = s.balances src := by
    by_cases hpair : dst = D.pair
    · exact hliq.balance_eq hsrc (hpair ▸ hne)
    · simp [h.buy hpair]
  have hmiddst : mid.balances dst = s.balances dst + (taken + added) := by
    by_cases hpair : dst = D.pair
    · exact hpair ▸ Balances.move?_dst hliq.moved D.pair_ne_self.symm
    · obtain ⟨rfl, rfl⟩ := hauto.buy hpair
      simp [h.buy hpair]
  have hmidself := Balances.move?_src hliq.moved D.pair_ne_self.symm
  have hpaidsrc := Balances.move?_src h.fee hsrc
  have hpaidself := Balances.move?_dst h.fee hsrc
  have hpaiddst := Balances.move?_other h.fee hne.symm hdst
  have hbsrc := Balances.move?_src hb hne
  have hbdst := Balances.move?_dst hb hne
  have hbself := Balances.move?_other hb hsrc.symm hdst.symm
  refine ⟨taken, added, hauto, ?_, ?_, ?_, rfl, hliq.swapped, hliq.tokens⟩
  · show b src + value = _
    omega
  · show b dst = _
    omega
  · show b D.self + (taken + added) = _
    omega

/-- A transfer that pays no fee and touches nothing but the two accounts. -/
structure Untaxed (D : Deployment) (s s' : State) (src dst : Address)
    (value : Nat) : Prop where
  sender : s'.balances src + value = s.balances src
  recipient : s'.balances dst = s.balances dst + value
  contract : s'.balances D.self = s.balances D.self
  fees : s'.totalFeesCollected = s.totalFeesCollected

theorem exec_taxes {tx : Tx} {src dst : Address} {value : Nat}
    (hinv : Inv D s) (hlaunched : s.launched = true)
    (htx : tx.transfers = some (src, dst, value)) (hne : src ≠ dst)
    (hsrc : src ≠ D.self) (hdst : dst ≠ D.self) (hexec : exec D s tx = some s') :
    (src = D.pair ∨ dst = D.pair →
      ∃ taken added, AutoLiquidity D s tx.replies dst taken added ∧
        Taxed D s s' src dst value taken added) ∧
    (src ≠ D.pair → dst ≠ D.pair → Untaxed D s s' src dst value) := by
  obtain ⟨hsrc0, hdst0, -, a, ha, hupdate⟩ := exec_transfers htx hexec
  rcases update_eq_some hsrc0 hdst0 (hinv.of_allowances ha).unlocked hupdate with
    ⟨hcharges, mid, paid, hcharged⟩ | ⟨hfree, b, hmove, rfl⟩
  · refine ⟨?_, ?_⟩
    · intro _
      obtain ⟨taken, added, hauto, htaxed⟩ := hcharged.taxed hne hsrc hdst
      exact ⟨taken, added, ⟨hauto.parts, hauto.buy, hauto.below⟩,
        htaxed.sender, htaxed.recipient, htaxed.contract, htaxed.fees,
        htaxed.swapped, htaxed.tokens⟩
    · intro hsrcpair hdstpair
      exact absurd hcharges.1 (by simp [hsrcpair, hdstpair])
  · refine ⟨?_, ?_⟩
    · intro hpair
      exact absurd ⟨hpair, by simp [hinv.unlocked, hsrc, hdst], hlaunched⟩
        hfree
    · intro _ _
      refine ⟨Balances.move?_src hmove hne, Balances.move?_dst hmove hne,
        Balances.move?_other hmove hsrc.symm hdst.symm, ?_⟩
      simp [noteDonation_eq]

/--
The fee law.  A permitted transfer of no more than the sender holds completes;
and whenever a transfer between two accounts other than the contract completes,
a trade pays its hundredth part to the contract and any other transfer is free.
What an automatic liquidity step of the same call moves from the contract to
the pair is on the books, in two parts, and is nothing unless the trade is a
sell, the contract holds the threshold and the router swaps.
-/
theorem transfer_fee_law (hreach : Reachable D s) (hlaunched : s.launched = true)
    (tx : Tx) (src dst : Address) (value : Nat)
    (htx : tx.transfers = some (src, dst, value)) (hne : src ≠ dst)
    (hsrc : src ≠ D.self) (hdst : dst ≠ D.self)
    (hvalue : value ≤ s.balances src) :
    (tx.Permitted s src dst value → ∃ s', exec D s tx = some s') ∧
    ∀ s', exec D s tx = some s' →
      (src = D.pair ∨ dst = D.pair →
        ∃ taken added, AutoLiquidity D s tx.replies dst taken added ∧
          Taxed D s s' src dst value taken added) ∧
      (src ≠ D.pair → dst ≠ D.pair → Untaxed D s s' src dst value) :=
  ⟨exec_isSome hreach.inv htx hne hsrc hvalue,
    fun _ hexec => exec_taxes hreach.inv hlaunched htx hne hsrc hdst hexec⟩

theorem transfer_fee_law_sample :
    ∃ s s', Reachable sampleDeployment s ∧
      exec sampleDeployment s (sampleTxs.getLast (by decide)) = some s' ∧
      ∃ taken added, s'.balances 5 + 10 ^ 26 = s.balances 5 ∧
        s'.balances 3 = s.balances 3 + 99 * 10 ^ 24 + (taken + added) ∧
        s'.balances 1 + (taken + added) = s.balances 1 + 10 ^ 24 ∧
        s'.swapped = s.swapped + taken ∧
        s'.totalTokensToLiquidity = s.totalTokensToLiquidity + added := by
  obtain ⟨s₀, h⟩ : ∃ s₀, construct sampleDeployment Router.reverting (10 ^ 9) 0
      = some s₀ := Option.isSome_iff_exists.mp (by decide)
  have hstate := Option.some.inj h
  let s := run (step sampleDeployment) s₀ (sampleTxs.take 2)
  have hreach : Reachable sampleDeployment s :=
    ⟨10 ^ 9, 0, s₀, sampleTxs.take 2, h,
      fun tx htx => sampleTxs_external tx (List.mem_of_mem_take htx), rfl⟩
  obtain ⟨hcompletes, hlaw⟩ := transfer_fee_law hreach
    (by subst hstate; decide) (sampleTxs.getLast (by decide)) 5 3 (10 ^ 26)
    (by decide) (by decide) (by decide) (by decide)
    (by subst hstate; decide)
  obtain ⟨s', hexec⟩ := hcompletes ⟨by decide, by decide, by decide,
    .inl (by decide), by subst hstate; decide⟩
  obtain ⟨taken, added, -, htaxed⟩ := (hlaw s' hexec).1 (.inr (by decide))
  exact ⟨s, s', hreach, hexec, taken, added, htaxed.sender, htaxed.recipient,
    htaxed.contract, htaxed.swapped, htaxed.tokens⟩

end IreBlockchain.LiquidityToken

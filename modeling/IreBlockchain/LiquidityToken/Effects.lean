import IreBlockchain.LiquidityToken.Calls

/-!
# What a call that does not revert has done

One lemma for each function of the contract.  Everything later is proved from
these lemmas; nothing later unfolds the functions again.
-/

namespace IreBlockchain.LiquidityToken

open IreBlockchain.Foundation

variable {D : Deployment} {R : Router} {s s' : State}

@[simp] theorem require_eq_some_iff {p : Prop} [Decidable p] {u : Unit} :
    require p = some u ↔ p := by
  by_cases h : p <;> simp [require, h]

theorem require_of {p : Prop} [Decidable p] (h : p) : require p = some () :=
  require_eq_some_iff.mpr h

theorem require_of_not {p : Prop} [Decidable p] (h : ¬p) : require p = none :=
  if_neg h

@[simp] theorem checked_eq_some_iff {n m : Nat} :
    checked n = some m ↔ n < uint256Size ∧ n = m := by
  unfold checked
  split <;> simp_all

@[simp] theorem checked_eq_none_iff {n : Nat} :
    checked n = none ↔ uint256Size ≤ n := by
  simp [checked]

theorem fee_eq (value : Nat) : value * feeBps / bps = value / 100 := by
  simp only [feeBps, bps]
  omega

/-! ## Transfers of the base contract -/

theorem superUpdate_eq {src dst : Address} (hsrc : src ≠ 0) (hdst : dst ≠ 0)
    (value : Nat) :
    superUpdate s src dst value =
      (s.balances.move? src dst value).map
        fun b => { s with balances := b } := by
  simp only [superUpdate, hsrc, hdst, if_false, Balances.move?]
  cases s.balances.debit? src value <;> rfl

theorem superUpdate_mint {dst : Address} (hdst : dst ≠ 0) (value : Nat) :
    superUpdate s 0 dst value = some s' ↔
      s.totalSupply + value < uint256Size ∧
        s' = { s with
          totalSupply := s.totalSupply + value
          balances := s.balances.credit dst value } := by
  unfold superUpdate
  simp only [hdst, if_true, if_false, Option.bind_eq_bind,
    Option.bind_eq_some_iff, checked_eq_some_iff, Option.some.injEq]
  constructor
  · rintro ⟨_, ⟨hlt, rfl⟩, _, rfl, rfl⟩
    exact ⟨hlt, rfl⟩
  · rintro ⟨hlt, rfl⟩
    exact ⟨_, ⟨hlt, rfl⟩, _, rfl, rfl⟩

theorem superUpdate_eq_some {src dst : Address} (hsrc : src ≠ 0)
    (hdst : dst ≠ 0) {value : Nat}
    (h : superUpdate s src dst value = some s') :
    ∃ b, s.balances.move? src dst value = some b ∧
      s' = { s with balances := b } := by
  rw [superUpdate_eq hsrc hdst, Option.map_eq_some_iff] at h
  obtain ⟨b, hb, rfl⟩ := h
  exact ⟨b, hb, rfl⟩

def AllowancesLe (a b : Address → Address → Nat) : Prop :=
  ∀ owner spender, a owner spender ≤ b owner spender

theorem AllowancesLe.refl (a : Address → Address → Nat) : AllowancesLe a a :=
  fun _ _ => le_refl _

theorem AllowancesLe.trans {a b c : Address → Address → Nat}
    (hab : AllowancesLe a b) (hbc : AllowancesLe b c) : AllowancesLe a c :=
  fun owner spender => le_trans (hab owner spender) (hbc owner spender)

/-- The allowance covers the value, or is the maximum that is never spent. -/
def State.Allows (s : State) (owner spender : Address) (value : Nat) : Prop :=
  value ≤ s.allowances owner spender ∨
    uint256Size - 1 ≤ s.allowances owner spender

theorem spendAllowance_eq_some {owner spender : Address} {value : Nat}
    (h : spendAllowance s owner spender value = some s') :
    s.Allows owner spender value ∧
      ∃ a, AllowancesLe a s.allowances ∧ s' = { s with allowances := a } := by
  simp only [spendAllowance] at h
  split at h
  · simp only [Option.bind_eq_bind, Option.bind_eq_some_iff,
      require_eq_some_iff, Option.some.injEq] at h
    obtain ⟨-, hle, rfl⟩ := h
    refine ⟨.inl hle, _, ?_, rfl⟩
    intro o p
    by_cases ho : o = owner <;> by_cases hp : p = spender <;>
      simp [ho, hp]
  next hmax =>
    exact ⟨.inr (Nat.not_lt.mp hmax), s.allowances, .refl _,
      by simpa using h.symm⟩

theorem spendAllowance_of_allows {owner spender : Address} {value : Nat}
    (h : s.Allows owner spender value) :
    ∃ a, AllowancesLe a s.allowances ∧
      spendAllowance s owner spender value =
        some { s with allowances := a } := by
  obtain ⟨s', hspend⟩ : ∃ s', spendAllowance s owner spender value = some s' := by
    unfold spendAllowance
    by_cases hlt : s.allowances owner spender < uint256Size - 1
    · have hle : value ≤ s.allowances owner spender :=
        h.resolve_right (Nat.not_le.mpr hlt)
      simp [hlt, require_of hle]
    · simp [hlt]
  obtain ⟨-, a, ha, rfl⟩ := spendAllowance_eq_some hspend
  exact ⟨a, ha, hspend⟩

@[simp] theorem noteDonation_balances (src dst : Address) (value : Nat) :
    (s.noteDonation D src dst value).balances = s.balances := by
  unfold State.noteDonation
  split <;> rfl

theorem noteDonation_eq (src dst : Address) (value : Nat) :
    s.noteDonation D src dst value = { s with
      donated := s.donated +
        if s.launched ∧ dst = D.self ∧ src ≠ D.self then value else 0 } := by
  unfold State.noteDonation
  split <;> rfl

/-! ## The router -/

theorem pull_eq_some {value : Nat} (h : pull D s value = some s') :
    ∃ b a, s.balances.move? D.self D.pair value = some b ∧
      AllowancesLe a s.allowances ∧
      s' = { s with balances := b, allowances := a } := by
  simp only [pull, transferFrom, Option.bind_eq_bind,
    Option.bind_eq_some_iff, transferFromTo, require_eq_some_iff] at h
  obtain ⟨s₁, hspend, -, -, -, -, hupdate⟩ := h
  obtain ⟨-, a, ha, rfl⟩ := spendAllowance_eq_some hspend
  simp only [update, true_or, or_true, not_true, false_and, and_false,
    if_false] at hupdate
  obtain ⟨b, hmove, rfl⟩ :=
    superUpdate_eq_some D.self_ne_zero D.pair_ne_zero hupdate
  simp only [noteDonation_balances] at hmove
  refine ⟨b, a, hmove, ha, ?_⟩
  simp [noteDonation_eq]

/--
What a completed `_liquify` has done: `taken` tokens went to the pair for ETH
and `added` tokens for liquidity, each on its own book, and the lock is open.
-/
structure Liquified (D : Deployment) (s s' : State) (taken added : Nat) :
    Prop where
  moved : s.balances.move? D.self D.pair (taken + added) = some s'.balances
  swapped : s'.swapped = s.swapped + taken
  tokens : s'.totalTokensToLiquidity = s.totalTokensToLiquidity + added
  unlocked : s'.inSwap = false
  totalSupply : s'.totalSupply = s.totalSupply
  owner : s'.owner = s.owner
  launched : s'.launched = s.launched
  fees : s'.totalFeesCollected = s.totalFeesCollected
  donated : s'.donated = s.donated
  threshold : s'.swapThreshold = s.swapThreshold
  allowances : AllowancesLe s'.allowances s.allowances

theorem Liquified.rfl (h : s.inSwap = false) : Liquified D s s 0 0 :=
  ⟨by simp, Eq.refl _, Eq.refl _, h, Eq.refl _, Eq.refl _, Eq.refl _,
    Eq.refl _, Eq.refl _, Eq.refl _, .refl _⟩

theorem swap_eq_some {replies : RouterReplies} {amountIn : Nat}
    (h : (uniswapV2 D replies).swapExactTokensForETHSupportingFeeOnTransferTokens
      s amountIn = some s') :
    ∃ b a e, s.balances.move? D.self D.pair amountIn = some b ∧
      AllowancesLe a s.allowances ∧
      s' = { s with balances := b, allowances := a, ethBalance := e } := by
  simp only [uniswapV2] at h
  cases hreply : replies.swap with
  | reverts => simp [hreply] at h
  | swaps ethOut =>
      simp only [hreply, Option.bind_eq_bind, Option.bind_eq_some_iff,
        Option.some.injEq] at h
      obtain ⟨s₁, hpull, rfl⟩ := h
      obtain ⟨b, a, hmove, ha, rfl⟩ := pull_eq_some hpull
      exact ⟨b, a, _, hmove, ha, rfl⟩

theorem swap_ne_reverts {replies : RouterReplies} {amountIn : Nat}
    (h : (uniswapV2 D replies).swapExactTokensForETHSupportingFeeOnTransferTokens
      s amountIn = some s') : replies.swap ≠ .reverts := by
  intro hreverts
  simp [uniswapV2, hreverts] at h

theorem addLiquidityETH_eq_some {replies : RouterReplies}
    {value desired tokenMin ethMin t e liquidity : Nat}
    (h : (uniswapV2 D replies).addLiquidityETH s value desired tokenMin ethMin =
      some (s', t, e, liquidity)) :
    (replies.add = .adds t e liquidity ∧ tokenMin ≤ t ∧ t ≤ desired ∧
      ethMin ≤ e ∧ e ≤ value ∧ s'.balances D.pair ≤ uint112Max) ∧
    ∃ b a, s.balances.move? D.self D.pair t = some b ∧
      AllowancesLe a s.allowances ∧ s' = { s with
        balances := b
        allowances := a
        ethBalance := s.ethBalance + (value - e) } := by
  simp only [uniswapV2] at h
  cases hreply : replies.add with
  | reverts => simp [hreply] at h
  | adds amountToken amountETH amountLiquidity =>
      simp only [hreply, require_eq_some_iff, Option.bind_eq_bind,
        Option.bind_eq_some_iff, Option.some.injEq, Prod.mk.injEq] at h
      obtain ⟨-, htoken, -, heth, s₁, hpull, -, hcap, rfl, rfl, rfl, rfl⟩ := h
      obtain ⟨b, a, hmove, ha, rfl⟩ := pull_eq_some hpull
      exact ⟨⟨rfl, htoken.1, htoken.2, heth.1, heth.2, hcap⟩,
        b, a, hmove, ha, rfl⟩

/-- What of `amount` a `_liquify` can have moved, by what the router answered. -/
structure Liquidated (replies : RouterReplies) (amount taken added : Nat) :
    Prop where
  idle : replies.swap = .reverts → taken = 0 ∧ added = 0
  taken_eq : taken = 0 ∨ taken = amount / 2
  added_eq : added = 0 ∨ added ≤ amount - amount / 2 ∧
    ∃ eth liquidity, replies.add = .adds added eth liquidity

theorem Liquidated.zero {replies : RouterReplies} {amount : Nat} :
    Liquidated replies amount 0 0 :=
  ⟨fun _ => ⟨rfl, rfl⟩, .inl rfl, .inl rfl⟩

theorem liquifyAmount_eq_some {replies : RouterReplies} {amount : Nat}
    (h : liquifyAmount (uniswapV2 D replies) s amount = some s') :
    ∃ taken added, Liquified D s s' taken added ∧
      Liquidated replies amount taken added := by
  simp only [liquifyAmount] at h
  split at h
  next hswap =>
    simp only [Option.some.injEq] at h
    subst h
    exact ⟨0, 0,
      ⟨by simp, rfl, rfl, rfl, rfl, rfl, rfl, rfl, rfl, rfl, .refl _⟩,
      fun _ => ⟨rfl, rfl⟩, .inl rfl, .inl rfl⟩
  next s₁ hswap =>
    have hswaps := swap_ne_reverts hswap
    obtain ⟨b, a, e, hmove, ha, rfl⟩ := swap_eq_some hswap
    split at h
    · simp only [Option.some.injEq] at h
      subst h
      exact ⟨amount / 2, 0,
        ⟨by simpa using hmove, rfl, rfl, rfl, rfl, rfl, rfl, rfl, rfl, rfl,
          ha⟩,
        fun hreverts => absurd hreverts hswaps, .inr rfl, .inl rfl⟩
    · split at h
      next hadd =>
        simp only [Option.some.injEq] at h
        subst h
        exact ⟨amount / 2, 0,
          ⟨by simpa using hmove, rfl, rfl, rfl, rfl, rfl, rfl, rfl, rfl, rfl,
            ha⟩,
          fun hreverts => absurd hreverts hswaps, .inr rfl, .inl rfl⟩
      next s₂ t eth liquidity hadd =>
        obtain ⟨⟨hadds, -, hmax, -⟩, b', a', hmove', ha', rfl⟩ :=
          addLiquidityETH_eq_some hadd
        simp only [Option.bind_eq_bind, Option.bind_eq_some_iff,
          checked_eq_some_iff, Option.some.injEq] at h
        obtain ⟨_, ⟨-, rfl⟩, _, ⟨-, rfl⟩, rfl⟩ := h
        exact ⟨amount / 2, t,
          ⟨Balances.move?_trans D.pair_ne_self.symm hmove hmove',
            rfl, rfl, rfl, rfl, rfl, rfl, rfl, rfl, rfl, ha'.trans ha⟩,
          fun hreverts => absurd hreverts hswaps, .inr rfl,
          .inr ⟨hmax, _, _, hadds⟩⟩

theorem maybeLiquify_eq_some {replies : RouterReplies}
    (hlock : s.inSwap = false)
    (h : maybeLiquify D (uniswapV2 D replies) s = some s') :
    ∃ taken added, Liquified D s s' taken added ∧
      Liquidated replies s.swapThreshold taken added ∧
      (s.balances D.self < s.swapThreshold → taken = 0 ∧ added = 0) := by
  unfold maybeLiquify at h
  split at h
  next =>
    simp only [Option.some.injEq] at h
    subst h
    exact ⟨0, 0, .rfl hlock, .zero, fun _ => ⟨rfl, rfl⟩⟩
  next hreached =>
    obtain ⟨taken, added, hliq, hparts⟩ := liquifyAmount_eq_some h
    exact ⟨taken, added, hliq, hparts, fun hlt => absurd hlt hreached⟩

/-! ## Transfers of the token -/

def State.Charges (D : Deployment) (s : State) (src dst : Address) : Prop :=
  (src = D.pair ∨ dst = D.pair) ∧
    ¬(s.inSwap = true ∨ src = D.self ∨ dst = D.self) ∧ s.launched = true

/--
The automatic liquidity of a trade, which only a sell can trigger, and only when
the contract holds enough.
-/
structure AutoLiquidity (D : Deployment) (s : State) (replies : RouterReplies)
    (dst : Address) (taken added : Nat) : Prop where
  parts : Liquidated replies s.swapThreshold taken added
  buy : dst ≠ D.pair → taken = 0 ∧ added = 0
  below : s.balances D.self < s.swapThreshold → taken = 0 ∧ added = 0

/--
A charged trade: first the automatic liquidity, then the fee to the contract,
then the rest to the recipient.
-/
structure Charged (D : Deployment) (replies : RouterReplies) (s s' : State)
    (src dst : Address) (value : Nat) (mid : State) (paid : Balances Address) :
    Prop where
  liquidity : ∃ taken added, Liquified D s mid taken added ∧
    AutoLiquidity D s replies dst taken added
  buy : dst ≠ D.pair → mid = s
  fee : mid.balances.move? src D.self (value / 100) = some paid
  rest : ∃ b, paid.move? src dst (value - value / 100) = some b ∧
    s' = { mid with
      balances := b
      totalFeesCollected := s.totalFeesCollected + value / 100 }

theorem Charged.liquified {replies : RouterReplies} {src dst : Address}
    {value : Nat} {mid : State} {paid : Balances Address}
    (h : Charged D replies s s' src dst value mid paid) :
    ∃ taken added, Liquified D s mid taken added := by
  obtain ⟨taken, added, hliq, -⟩ := h.liquidity
  exact ⟨taken, added, hliq⟩

def chargeTrade (D : Deployment) (s : State) (src dst : Address)
    (value : Nat) : Option State := do
  let product ← checked (value * feeBps)
  let fee := product / bps
  if 0 < fee then do
    let s ← superUpdate s src D.self fee
    let fees ← checked (s.totalFeesCollected + fee)
    superUpdate { s with totalFeesCollected := fees } src dst (value - fee)
  else superUpdate s src dst value

theorem updateTrade_eq (src dst : Address) (value : Nat) :
    updateTrade D R s src dst value =
      (if dst = D.pair then maybeLiquify D R s else some s).bind
        fun s => chargeTrade D s src dst value := rfl

theorem chargeTrade_eq_some {src dst : Address} {value : Nat} (hsrc : src ≠ 0)
    (hdst : dst ≠ 0) (h : chargeTrade D s src dst value = some s') :
    ∃ paid b, s.balances.move? src D.self (value / 100) = some paid ∧
      paid.move? src dst (value - value / 100) = some b ∧
      s' = { s with
        balances := b
        totalFeesCollected := s.totalFeesCollected + value / 100 } := by
  simp only [chargeTrade, Option.bind_eq_bind, Option.bind_eq_some_iff,
    checked_eq_some_iff] at h
  obtain ⟨_, ⟨-, rfl⟩, h⟩ := h
  rw [fee_eq] at h
  split at h
  next =>
    simp only [Option.bind_eq_some_iff, checked_eq_some_iff] at h
    obtain ⟨s₁, hfee, _, ⟨-, rfl⟩, hrest⟩ := h
    obtain ⟨paid, hpaid, rfl⟩ :=
      superUpdate_eq_some hsrc D.self_ne_zero hfee
    obtain ⟨b, hb, rfl⟩ := superUpdate_eq_some hsrc hdst hrest
    exact ⟨paid, b, hpaid, hb, rfl⟩
  next hzero =>
    have hfee : value / 100 = 0 := by omega
    obtain ⟨b, hb, rfl⟩ := superUpdate_eq_some hsrc hdst h
    exact ⟨s.balances, b, by simp [hfee], by simpa [hfee] using hb,
      by simp [hfee]⟩

theorem updateTrade_eq_some {replies : RouterReplies} {src dst : Address}
    {value : Nat} (hsrc : src ≠ 0) (hdst : dst ≠ 0) (hlock : s.inSwap = false)
    (h : updateTrade D (uniswapV2 D replies) s src dst value = some s') :
    ∃ mid paid, Charged D replies s s' src dst value mid paid := by
  rw [updateTrade_eq, Option.bind_eq_some_iff] at h
  obtain ⟨mid, hmid, h⟩ := h
  have hliq : ∃ taken added, Liquified D s mid taken added ∧
      AutoLiquidity D s replies dst taken added := by
    split at hmid
    next hpair =>
      obtain ⟨taken, added, hliq, hparts, hbelow⟩ :=
        maybeLiquify_eq_some hlock hmid
      exact ⟨taken, added, hliq, hparts, fun hne => absurd hpair hne, hbelow⟩
    next =>
      simp only [Option.some.injEq] at hmid
      subst hmid
      exact ⟨0, 0, .rfl hlock, .zero, fun _ => ⟨rfl, rfl⟩, fun _ => ⟨rfl, rfl⟩⟩
  have hbuy : dst ≠ D.pair → mid = s := by
    intro hne
    simpa [hne] using hmid.symm
  have hfees : mid.totalFeesCollected = s.totalFeesCollected := by
    obtain ⟨_, _, hl, -⟩ := hliq
    exact hl.fees
  obtain ⟨paid, b, hpaid, hb, rfl⟩ := chargeTrade_eq_some hsrc hdst h
  exact ⟨mid, paid, hliq, hbuy, hpaid, b, hb, by rw [hfees]⟩

theorem update_eq_some {replies : RouterReplies} {src dst : Address}
    {value : Nat} (hsrc : src ≠ 0) (hdst : dst ≠ 0) (hlock : s.inSwap = false)
    (h : update D (uniswapV2 D replies) s src dst value = some s') :
    (s.Charges D src dst ∧
      ∃ mid paid, Charged D replies s s' src dst value mid paid) ∨
    (¬s.Charges D src dst ∧ ∃ b, s.balances.move? src dst value = some b ∧
      s' = { s.noteDonation D src dst value with balances := b }) := by
  simp only [update] at h
  split at h
  next hcharge =>
    exact .inl ⟨hcharge, updateTrade_eq_some hsrc hdst hlock h⟩
  next hfree =>
    obtain ⟨b, hb, rfl⟩ := superUpdate_eq_some hsrc hdst h
    rw [noteDonation_balances] at hb
    exact .inr ⟨hfree, b, hb, rfl⟩

/--
The transfer a call makes at top level: `transfer` and `transferFrom` both
reach `_update` with some allowances.
-/
def Tx.transfers (tx : Tx) : Option (Address × Address × Nat) :=
  match tx.call with
  | .transfer dst value => some (tx.sender, dst, value)
  | .transferFrom src dst value => some (src, dst, value)
  | _ => none

theorem exec_transfers {tx : Tx} {src dst : Address} {value : Nat}
    (htx : tx.transfers = some (src, dst, value))
    (h : exec D s tx = some s') :
    src ≠ 0 ∧ dst ≠ 0 ∧
      (tx.sender = src ∨ s.Allows src tx.sender value) ∧
      ∃ a, AllowancesLe a s.allowances ∧
        update D (uniswapV2 D tx.replies) { s with allowances := a }
          src dst value = some s' := by
  obtain ⟨sender, ethers, call, replies⟩ := tx
  cases call <;> simp only [Tx.transfers, Option.some.injEq, Prod.mk.injEq,
    reduceCtorEq] at htx
  case transfer =>
    obtain ⟨rfl, rfl, rfl⟩ := htx
    simp only [exec, transfer, transferFromTo, Option.bind_eq_bind,
      Option.bind_eq_some_iff, require_eq_some_iff] at h
    obtain ⟨-, -, -, hsrc, -, hdst, h⟩ := h
    exact ⟨hsrc, hdst, .inl rfl, s.allowances, .refl _, h⟩
  case transferFrom =>
    obtain ⟨rfl, rfl, rfl⟩ := htx
    simp only [exec, transferFrom, transferFromTo, Option.bind_eq_bind,
      Option.bind_eq_some_iff, require_eq_some_iff] at h
    obtain ⟨-, -, s₁, hspend, -, hsrc, -, hdst, h⟩ := h
    obtain ⟨hallows, a, ha, rfl⟩ := spendAllowance_eq_some hspend
    exact ⟨hsrc, hdst, .inr hallows, a, ha, h⟩

/-! ## The other calls -/

theorem launch_eq_some {replies : RouterReplies} {sender : Address}
    {value : Nat}
    (h : launch D (uniswapV2 D replies) s sender value = some s') :
    (sender = s.owner ∧ s.launched = false ∧ value ≠ 0) ∧
    s'.balances D.pair ≤ uint112Max ∧
    ∃ b a e, s.balances.move? D.self D.pair (s.balances D.self) = some b ∧
      AllowancesLe a s.allowances ∧ s' = { s with
        balances := b
        allowances := a
        ethBalance := e
        launched := true
        owner := 0 } := by
  simp only [launch, Option.bind_eq_bind, Option.bind_eq_some_iff,
    require_eq_some_iff] at h
  obtain ⟨-, hsender, -, hlaunched, -, hvalue, ⟨s₁, t, e, l⟩, hadd, h⟩ := h
  obtain ⟨⟨-, hmin, hmax, -, -, hcap⟩, b, a, hmove, ha, rfl⟩ :=
    addLiquidityETH_eq_some hadd
  have ht : t = s.balances D.self := le_antisymm hmax hmin
  simp only [renounceOwnership, Option.bind_eq_bind, Option.bind_eq_some_iff,
    require_eq_some_iff, Option.some.injEq] at h
  obtain ⟨-, -, rfl⟩ := h
  exact ⟨⟨hsender, hlaunched, hvalue⟩, hcap, b, a, _, ht ▸ hmove, ha, rfl⟩

theorem liquify_eq_some {replies : RouterReplies}
    (h : liquify D (uniswapV2 D replies) s = some s') :
    s.launched = true ∧ ∃ taken added, Liquified D s s' taken added := by
  simp only [liquify, Option.bind_eq_bind, Option.bind_eq_some_iff,
    require_eq_some_iff] at h
  obtain ⟨-, ⟨hlaunched, -⟩, -, -, h⟩ := h
  obtain ⟨taken, added, hliq, -⟩ := liquifyAmount_eq_some h
  exact ⟨hlaunched, taken, added, hliq⟩

/-- Everything a call that completes can be. -/
inductive Completed (D : Deployment) (s s' : State) (tx : Tx) : Prop
  | transfer {src dst : Address} {value : Nat} {a}
      (htx : tx.transfers = some (src, dst, value))
      (hallows : tx.sender = src ∨ s.Allows src tx.sender value)
      (ha : AllowancesLe a s.allowances) (hsrc : src ≠ 0) (hdst : dst ≠ 0)
      (h : update D (uniswapV2 D tx.replies) { s with allowances := a }
        src dst value = some s')
  | launch (htx : tx.call = .launch)
      (h : launch D (uniswapV2 D tx.replies) (receive s tx.value) tx.sender
        tx.value = some s')
  | liquify (htx : tx.call = .liquify)
      (h : liquify D (uniswapV2 D tx.replies) s = some s')
  | other {a o e} (htx : tx.transfers = none) (hlaunch : tx.call ≠ .launch)
      (h : s' = { s with allowances := a, owner := o, ethBalance := e })
      (ha : ∀ owner, owner ≠ tx.sender → a owner = s.allowances owner)
      (ho : o = s.owner ∨ tx.sender = s.owner)

theorem completed_of_exec {tx : Tx} (h : exec D s tx = some s') :
    Completed D s s' tx := by
  obtain ⟨sender, ethers, call, replies⟩ := tx
  cases call with
  | transfer dst value =>
      obtain ⟨hsrc, hdst, hallows, a, ha, h⟩ := exec_transfers rfl h
      exact .transfer rfl hallows ha hsrc hdst h
  | transferFrom src dst value =>
      obtain ⟨hsrc, hdst, hallows, a, ha, h⟩ := exec_transfers rfl h
      exact .transfer rfl hallows ha hsrc hdst h
  | approve spender value =>
      simp only [exec, approve, Option.bind_eq_bind, Option.bind_eq_some_iff,
        require_eq_some_iff, Option.some.injEq] at h
      obtain ⟨-, -, -, -, -, -, rfl⟩ := h
      exact .other rfl nofun rfl
        (fun owner hne => Function.update_of_ne hne _ _) (.inl rfl)
  | launch => exact .launch rfl (by simpa [exec] using h)
  | liquify =>
      simp only [exec, Option.bind_eq_bind, Option.bind_eq_some_iff,
        require_eq_some_iff] at h
      obtain ⟨-, -, h⟩ := h
      exact .liquify rfl h
  | transferOwnership newOwner =>
      simp only [exec, transferOwnership, Option.bind_eq_bind,
        Option.bind_eq_some_iff, require_eq_some_iff, Option.some.injEq] at h
      obtain ⟨-, -, -, hsender, -, -, rfl⟩ := h
      exact .other rfl nofun rfl (fun _ _ => rfl) (.inr hsender)
  | renounceOwnership =>
      simp only [exec, renounceOwnership, Option.bind_eq_bind,
        Option.bind_eq_some_iff, require_eq_some_iff, Option.some.injEq] at h
      obtain ⟨-, -, -, hsender, rfl⟩ := h
      exact .other rfl nofun rfl (fun _ _ => rfl) (.inr hsender)
  | receive =>
      simp only [exec, Option.some.injEq] at h
      subst h
      exact .other rfl nofun rfl (fun _ _ => rfl) (.inl rfl)

end IreBlockchain.LiquidityToken

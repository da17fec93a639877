import IreBlockchain.LiquidityToken.Effects

/-!
# Conservation of the token

`Inv` holds between two top-level calls of every run.  Before launch the
contract still holds at least nine tenths of the supply, so a launch the pair
accepts bounds the supply; after launch every token the contract holds is a
collected fee or a donation that no swap and no liquidity add has taken.
-/

namespace IreBlockchain.LiquidityToken

open IreBlockchain.Foundation

variable {D : Deployment} {s s' : State}

structure Inv (D : Deployment) (s : State) : Prop where
  total : ∑ a, s.balances a = s.totalSupply
  unlocked : s.inSwap = false
  pullers : ∀ spender, spender ≠ D.router → s.allowances D.self spender = 0
  fresh : s.launched = false →
    9 * s.totalSupply ≤ 10 * s.balances D.self ∧ s.donated = 0 ∧
      s.swapped = 0 ∧ s.totalTokensToLiquidity = 0 ∧ s.totalFeesCollected = 0
  books : s.launched = true →
    s.balances D.self + s.swapped + s.totalTokensToLiquidity =
      s.totalFeesCollected + s.donated
  capped : s.launched = true → 9 * s.totalSupply ≤ 10 * uint112Max

/-! ## The constructor -/

theorem mint_eq_some {R : Router} {account : Address} {value : Nat}
    (hlaunched : s.launched = false)
    (h : mint D R s account value = some s') :
    s' = { s with
      totalSupply := s.totalSupply + value
      balances := s.balances.credit account value } := by
  simp only [mint, Option.bind_eq_bind, Option.bind_eq_some_iff,
    require_eq_some_iff, update, hlaunched, Bool.false_eq_true, and_false,
    if_false, State.noteDonation, false_and] at h
  obtain ⟨-, haccount, h⟩ := h
  exact ((superUpdate_mint haccount value).mp h).2

theorem construct_eq_some {R : Router} {supply creatorBps : Nat}
    (h : construct D R supply creatorBps = some s) :
    ∃ total creatorAmt, 10 * creatorAmt ≤ total ∧
      s = { blank D total with
        totalSupply := total
        balances := (Balances.credit (fun _ => 0) D.deployer creatorAmt).credit
          D.self (total - creatorAmt)
        allowances := ((blank D total).allow D.self D.router
          (uint256Size - 1)).allowances } := by
  simp only [construct, constructorTotal, constructorShare,
    Option.bind_eq_bind, Option.bind_eq_some_iff, require_eq_some_iff,
    checked_eq_some_iff, Option.some.injEq] at h
  obtain ⟨-, hbps, total, -, creatorAmt, ⟨_, ⟨-, rfl⟩, hshare⟩, s₁, hcreator,
    s₂, hrest, rfl⟩ := h
  have hten : 10 * creatorAmt ≤ total := by
    rw [← hshare]
    have : total * creatorBps / bps ≤ total * 1000 / bps :=
      Nat.div_le_div_right (Nat.mul_le_mul_left _ hbps)
    simp only [bps] at this ⊢
    omega
  have hs₁ : s₁ = { blank D total with
      totalSupply := creatorAmt
      balances := Balances.credit (fun _ => 0) D.deployer creatorAmt } := by
    split at hcreator
    · have := mint_eq_some rfl hcreator
      simpa [blank] using this
    · have hzero : creatorAmt = 0 := by omega
      simp only [Option.some.injEq] at hcreator
      simp [← hcreator, hzero, blank]
  subst hs₁
  refine ⟨total, creatorAmt, hten, ?_⟩
  have hs₂ := mint_eq_some (by rfl) hrest
  subst hs₂
  have hsum : creatorAmt + (total - creatorAmt) = total := by omega
  simp [State.allow, hsum, blank]

theorem construct_inv {R : Router} {supply creatorBps : Nat}
    (h : construct D R supply creatorBps = some s) : Inv D s := by
  obtain ⟨total, creatorAmt, hten, rfl⟩ := construct_eq_some h
  refine ⟨?_, rfl, ?_, ?_, nofun, nofun⟩
  · simp only [Balances.sum_credit, Finset.sum_const_zero]
    omega
  · intro spender hne
    simp [State.allow, blank, hne]
  · intro _
    refine ⟨?_, rfl, rfl, rfl, rfl⟩
    simp only [Balances.credit_self]
    omega

/-! ## Steps -/

theorem Inv.of_allowances {a : Address → Address → Nat} (hinv : Inv D s)
    (ha : AllowancesLe a s.allowances) :
    Inv D { s with allowances := a } := by
  refine ⟨hinv.total, hinv.unlocked, ?_, hinv.fresh, hinv.books, hinv.capped⟩
  intro spender hne
  exact Nat.le_zero.mp (hinv.pullers spender hne ▸ ha D.self spender)

theorem Liquified.inv {taken added : Nat} (h : Liquified D s s' taken added)
    (hlaunched : s.launched = true) (hinv : Inv D s) : Inv D s' := by
  have hself := Balances.move?_src h.moved D.pair_ne_self.symm
  refine ⟨?_, h.unlocked, ?_, ?_, ?_, ?_⟩
  · rw [Balances.sum_move? h.moved, h.totalSupply]
    exact hinv.total
  · exact (hinv.of_allowances h.allowances).pullers
  · simp [h.launched, hlaunched]
  · intro _
    have := hinv.books hlaunched
    rw [h.swapped, h.tokens, h.fees, h.donated]
    omega
  · intro _
    rw [h.totalSupply]
    exact hinv.capped hlaunched

theorem Charged.inv {src dst : Address} {value : Nat} {mid : State}
    {paid : Balances Address} {replies : RouterReplies}
    (h : Charged D replies s s' src dst value mid paid)
    (hcharges : s.Charges D src dst) (hinv : Inv D s) : Inv D s' := by
  obtain ⟨-, hexempt, hlaunched⟩ := hcharges
  simp only [not_or] at hexempt
  obtain ⟨taken, added, hliq⟩ := h.liquified
  have hmid := hliq.inv hlaunched hinv
  have hmidlaunched : mid.launched = true := hliq.launched.trans hlaunched
  obtain ⟨b, hb, rfl⟩ := h.rest
  have hself : b D.self = mid.balances D.self + value / 100 := by
    rw [Balances.move?_other hb (Ne.symm hexempt.2.1) (Ne.symm hexempt.2.2)]
    exact Balances.move?_dst h.fee hexempt.2.1
  refine ⟨?_, hmid.unlocked, hmid.pullers, ?_, ?_, hmid.capped⟩
  · rw [Balances.sum_move? hb, Balances.sum_move? h.fee]
    exact hmid.total
  · simp [hmidlaunched]
  · intro _
    have := hmid.books hmidlaunched
    have hfees := hliq.fees
    simp only [hself]
    omega

theorem free_inv {src dst : Address} {value : Nat} {b : Balances Address}
    (hmove : s.balances.move? src dst value = some b)
    (hself : src = D.self → value = 0) (hinv : Inv D s) :
    Inv D { s.noteDonation D src dst value with balances := b } := by
  have hbal : b D.self = s.balances D.self +
      if dst = D.self ∧ src ≠ D.self then value else 0 := by
    have := Balances.move?_apply hmove D.self
    by_cases hsrc : src = D.self
    · simp [hself hsrc] at this ⊢
      omega
    · by_cases hdst : dst = D.self
      · simpa [hsrc, hdst, Ne.symm hsrc] using this
      · simpa [hsrc, hdst, Ne.symm hsrc, Ne.symm hdst] using this
  rw [noteDonation_eq]
  refine ⟨?_, hinv.unlocked, hinv.pullers, ?_, ?_, hinv.capped⟩
  · rw [Balances.sum_move? hmove]
    exact hinv.total
  · intro (hlaunched : s.launched = false)
    have := hinv.fresh hlaunched
    refine ⟨?_, by simp [hlaunched, this.2.1], this.2.2⟩
    simp only [hbal]
    omega
  · intro (hlaunched : s.launched = true)
    have := hinv.books hlaunched
    simp only [hbal, hlaunched, true_and]
    omega

theorem launch_inv {replies : RouterReplies} {sender : Address} {value : Nat}
    (h : launch D (uniswapV2 D replies) s sender value = some s')
    (hinv : Inv D s) : Inv D s' := by
  obtain ⟨⟨-, hlaunched, -⟩, hcap, b, a, e, hmove, ha, rfl⟩ :=
    launch_eq_some h
  obtain ⟨hheld, hdonated, hswapped, htokens, hfees⟩ := hinv.fresh hlaunched
  have hself := Balances.move?_src hmove D.pair_ne_self.symm
  have hpair := Balances.move?_dst hmove D.pair_ne_self.symm
  refine ⟨?_, hinv.unlocked, (hinv.of_allowances ha).pullers, nofun, ?_, ?_⟩
  · rw [Balances.sum_move? hmove]
    exact hinv.total
  · intro _
    simp only [hdonated, hswapped, htokens, hfees]
    omega
  · intro _
    simp only at hcap ⊢
    omega

theorem Inv.value_eq_zero {tx : Tx} {src dst : Address} {value : Nat}
    (hinv : Inv D s) (hext : tx.External D)
    (htx : tx.transfers = some (src, dst, value))
    (hallows : tx.sender = src ∨ s.Allows src tx.sender value)
    (hsrc : src = D.self) : value = 0 := by
  subst hsrc
  have hallow := hallows.resolve_left hext.sender_ne_self
  have hrouter : tx.sender ≠ D.router := by
    intro hrouter
    obtain ⟨sender, ethers, call, replies⟩ := tx
    cases call <;> simp only [Tx.transfers, Option.some.injEq, Prod.mk.injEq,
      reduceCtorEq] at htx
    case transfer => exact hext.sender_ne_self htx.1
    case transferFrom =>
      obtain ⟨rfl, rfl, rfl⟩ := htx
      exact hext.router_pulls_own_caller hrouter _ _ rfl
  have := hinv.pullers tx.sender hrouter
  simp only [State.Allows, this, uint256Size] at hallow
  omega

theorem exec_inv {tx : Tx} (hext : tx.External D) (hinv : Inv D s)
    (h : exec D s tx = some s') : Inv D s' := by
  cases completed_of_exec h with
  | @transfer src dst value a htx hallows ha hsrc hdst h =>
      have hinva := hinv.of_allowances ha
      rcases update_eq_some hsrc hdst hinva.unlocked h with
        ⟨hcharges, mid, paid, hcharged⟩ | ⟨-, b, hmove, rfl⟩
      · exact hcharged.inv hcharges hinva
      · exact free_inv hmove (hinv.value_eq_zero hext htx hallows) hinva
  | launch htx h =>
      have hreceive : Inv D (receive s tx.value) :=
        ⟨hinv.total, hinv.unlocked, hinv.pullers, hinv.fresh, hinv.books,
          hinv.capped⟩
      exact launch_inv h hreceive
  | liquify htx h =>
      obtain ⟨hlaunched, taken, added, hliq⟩ := liquify_eq_some h
      exact hliq.inv hlaunched hinv
  | other htx hlaunch h ha ho =>
      subst h
      refine ⟨hinv.total, hinv.unlocked, ?_, hinv.fresh, hinv.books,
        hinv.capped⟩
      intro spender hne
      simp only [ha D.self (Ne.symm hext.sender_ne_self)]
      exact hinv.pullers spender hne

theorem exec_totalSupply {tx : Tx} (hinv : Inv D s)
    (h : exec D s tx = some s') : s'.totalSupply = s.totalSupply := by
  cases completed_of_exec h with
  | @transfer src dst value a htx hallows ha hsrc hdst h =>
      have hinva := hinv.of_allowances ha
      rcases update_eq_some hsrc hdst hinva.unlocked h with
        ⟨-, mid, paid, hcharged⟩ | ⟨-, b, hmove, rfl⟩
      · obtain ⟨taken, added, hliq⟩ := hcharged.liquified
        obtain ⟨b, -, rfl⟩ := hcharged.rest
        exact hliq.totalSupply
      · simp [noteDonation_eq]
  | launch htx h =>
      obtain ⟨-, -, b, a, e, -, -, rfl⟩ := launch_eq_some h
      rfl
  | liquify htx h =>
      obtain ⟨-, taken, added, hliq⟩ := liquify_eq_some h
      exact hliq.totalSupply
  | other htx hlaunch h ha ho =>
      subst h
      rfl

/-! ## Who is paid -/

def Tx.received (tx : Tx) (a : Address) : Nat :=
  match tx.transfers with
  | some (_, dst, value) => if a = dst then value else 0
  | none => 0

theorem Liquified.balance_eq {taken added : Nat} {a : Address}
    (h : Liquified D s s' taken added) (hself : a ≠ D.self)
    (hpair : a ≠ D.pair) : s'.balances a = s.balances a :=
  Balances.move?_other h.moved hself hpair

theorem Charged.balance_le {src dst a : Address} {value : Nat} {mid : State}
    {paid : Balances Address} {replies : RouterReplies}
    (h : Charged D replies s s' src dst value mid paid)
    (hself : a ≠ D.self) (hpair : a ≠ D.pair) :
    s'.balances a ≤ s.balances a + if a = dst then value else 0 := by
  obtain ⟨taken, added, hliq⟩ := h.liquified
  obtain ⟨b, hb, rfl⟩ := h.rest
  have hmid := hliq.balance_eq hself hpair
  have hfee := Balances.move?_apply h.fee a
  have hrest := Balances.move?_apply hb a
  simp only [hself, if_false] at hfee
  show b a ≤ _
  by_cases hdst : a = dst
  · simp only [hdst, if_true] at hrest hfee hmid ⊢
    omega
  · simp only [hdst, if_false] at hrest ⊢
    omega

theorem exec_balance_le {tx : Tx} {a : Address} (hinv : Inv D s)
    (h : exec D s tx = some s') (hself : a ≠ D.self) (hpair : a ≠ D.pair) :
    s'.balances a ≤ s.balances a + tx.received a := by
  cases completed_of_exec h with
  | @transfer src dst value al htx hallows ha hsrc hdst h =>
      have hinva := hinv.of_allowances ha
      simp only [Tx.received, htx]
      rcases update_eq_some hsrc hdst hinva.unlocked h with
        ⟨-, mid, paid, hcharged⟩ | ⟨-, b, hmove, rfl⟩
      · exact hcharged.balance_le hself hpair
      · have := Balances.move?_apply hmove a
        simp only at this ⊢
        omega
  | launch htx h =>
      obtain ⟨-, -, b, al, e, hmove, -, rfl⟩ := launch_eq_some h
      have := Balances.move?_other hmove hself hpair
      exact le_trans (le_of_eq this) (Nat.le_add_right _ _)
  | liquify htx h =>
      obtain ⟨-, taken, added, hliq⟩ := liquify_eq_some h
      rw [hliq.balance_eq hself hpair]
      exact Nat.le_add_right _ _
  | other htx hlaunch h ha ho =>
      subst h
      exact Nat.le_add_right _ _

/-! ## Runs -/

theorem step_inv {tx : Tx} (hext : tx.External D) (hinv : Inv D s) :
    Inv D (step D s tx) := by
  unfold step
  cases h : exec D s tx with
  | none => exact hinv
  | some s' => exact exec_inv hext hinv h

theorem step_totalSupply (tx : Tx) (hinv : Inv D s) :
    (step D s tx).totalSupply = s.totalSupply := by
  unfold step
  cases h : exec D s tx with
  | none => rfl
  | some s' => exact exec_totalSupply hinv h

theorem run_inv {txs : List Tx} (hext : ∀ tx ∈ txs, tx.External D)
    (hinv : Inv D s) : Inv D (run (step D) s txs) := by
  induction txs generalizing s with
  | nil => exact hinv
  | cons tx txs ih =>
      have hstep := step_inv (hext tx (by simp)) hinv
      exact ih (fun t ht => hext t (by simp [ht])) hstep

theorem run_totalSupply {txs : List Tx} (hext : ∀ tx ∈ txs, tx.External D)
    (hinv : Inv D s) :
    (run (step D) s txs).totalSupply = s.totalSupply := by
  induction txs generalizing s with
  | nil => rfl
  | cons tx txs ih =>
      have hstep := step_inv (hext tx (by simp)) hinv
      rw [run_cons, ih (fun t ht => hext t (by simp [ht])) hstep,
        step_totalSupply tx hinv]

theorem Reachable.inv (h : Reachable D s) : Inv D s := by
  obtain ⟨supply, creatorBps, s₀, txs, hconstruct, hext, rfl⟩ := h
  exact run_inv hext (construct_inv hconstruct)

/--
Conservation.  The supply is the sum of the balances and never changes after
construction; from launch on the contract holds the fees it collected and the
tokens sent to it, less what fee swaps and liquidity adds have taken; and no
call pays an outsider anything beyond the transfer that the call itself makes,
so what leaves the contract goes to the pair.
-/
theorem run_conserves (supply creatorBps : Nat) (s₀ : State)
    (hconstruct : construct D Router.reverting supply creatorBps = some s₀)
    (txs : List Tx) (hext : ∀ tx ∈ txs, tx.External D) :
    let s := run (step D) s₀ txs
    s.totalSupply = s₀.totalSupply ∧
      ∑ a, s.balances a = s.totalSupply ∧
      (s.launched = true →
        (s.balances D.self : Int) =
          s.totalFeesCollected + s.donated - s.swapped -
            s.totalTokensToLiquidity) ∧
      ∀ tx a, a ≠ D.self → a ≠ D.pair →
        (step D s tx).balances a ≤ s.balances a + tx.received a := by
  intro s
  have hinv₀ := construct_inv hconstruct
  have hinv : Inv D s := run_inv hext hinv₀
  refine ⟨run_totalSupply hext hinv₀, hinv.total, ?_, ?_⟩
  · intro hlaunched
    have := hinv.books hlaunched
    omega
  · intro tx a hself hpair
    unfold step
    cases h : exec D s tx with
    | none => exact Nat.le_add_right _ _
    | some s' => exact exec_balance_le hinv h hself hpair

def sampleDeployment : Deployment where
  self := 1
  router := 2
  pair := 3
  deployer := 4
  self_ne_zero := by decide
  pair_ne_zero := by decide
  router_ne_zero := by decide
  deployer_ne_zero := by decide
  pair_ne_self := by decide
  deployer_ne_self := by decide
  deployer_ne_pair := by decide

def sampleTxs : List Tx :=
  [⟨4, 10 ^ 18, .launch, .reverts, .adds (10 ^ 27) (10 ^ 18) 1⟩,
   ⟨3, 0, .transfer 5 (5 * 10 ^ 26), .reverts, .reverts⟩,
   ⟨5, 0, .transfer 3 (10 ^ 26), .swaps 7, .adds (2 * 10 ^ 23) 7 1⟩]

theorem sampleTxs_external : ∀ tx ∈ sampleTxs, tx.External sampleDeployment := by
  intro tx htx
  simp only [sampleTxs, List.mem_cons, List.not_mem_nil, or_false] at htx
  rcases htx with rfl | rfl | rfl <;>
    exact ⟨by decide, by decide, by simp⟩

theorem run_conserves_sample :
    ∃ s₀, construct sampleDeployment Router.reverting (10 ^ 9) 0 = some s₀ ∧
      let s := run (step sampleDeployment) s₀ sampleTxs
      s.swapped = 25 * 10 ^ 22 ∧ s.totalSupply = s₀.totalSupply ∧
        (s.balances 1 : Int) = s.totalFeesCollected + s.donated - s.swapped -
          s.totalTokensToLiquidity := by
  obtain ⟨s₀, h⟩ : ∃ s₀, construct sampleDeployment Router.reverting (10 ^ 9) 0
      = some s₀ := Option.isSome_iff_exists.mp (by decide)
  obtain ⟨hsupply, -, hbooks, -⟩ :=
    run_conserves (10 ^ 9) 0 s₀ h sampleTxs sampleTxs_external
  have hstate := Option.some.inj h
  exact ⟨s₀, h, by subst hstate; decide, hsupply,
    hbooks (by subst hstate; decide)⟩

end IreBlockchain.LiquidityToken

import IreBlockchain.LiquidityToken.Conservation
import Mathlib.Data.Nat.Sqrt

/-!
# Launching on a pair that others have touched

The pair exists from the constructor on, so anyone may act on it before the
owner launches.  The pair and the router are parameters; `IsUniswapV2` says
what the token relies on.  A pair whose WETH was synced into its reserves has
one empty reserve for good, and no liquidity can be added to it.
-/

namespace IreBlockchain.LiquidityToken

open IreBlockchain.Foundation

structure Pool where
  tokenReserve : Nat
  wethReserve : Nat
  wethBalance : Nat
  liquiditySupply : Nat
  deriving DecidableEq, Repr

def Pool.fresh : Pool := ⟨0, 0, 0, 0⟩

structure Market where
  token : State
  pool : Pool

/-- Calls to the pair and the router's liquidity add. -/
structure PairContract where
  sync : Market → Option Market
  skim : Market → (dst : Address) → Option Market
  swap : Market → (amountTokenOut amountWETHOut : Nat) → (dst : Address) →
    Option Market
  mint : Market → (dst : Address) → Option Market
  burn : Market → (dst : Address) → Option Market
  addLiquidityETH : Market →
    (value amountTokenDesired amountTokenMin amountETHMin : Nat) → AddReply

/-- The product of the two deposits from which a first mint issues shares. -/
def minimumProduct : Nat := 1001 ^ 2

def Market.Accepts (D : Deployment) (m : Market) (token weth : Nat) : Prop :=
  m.token.balances D.pair + token ≤ uint112Max ∧
    m.pool.wethBalance + weth ≤ uint112Max ∧
    minimumProduct ≤ (m.token.balances D.pair + token) *
      (m.pool.wethBalance + weth)

instance (D : Deployment) (m : Market) (token weth : Nat) :
    Decidable (m.Accepts D token weth) :=
  inferInstanceAs (Decidable (_ ∧ _ ∧ _))

def Market.sync (D : Deployment) (m : Market) : Option Market := do
  require (m.token.balances D.pair ≤ uint112Max)
  require (m.pool.wethBalance ≤ uint112Max)
  some { m with
    pool := { m.pool with
      tokenReserve := m.token.balances D.pair
      wethReserve := m.pool.wethBalance } }

def Market.skim (D : Deployment) (m : Market) (dst : Address) :
    Option Market := do
  require (m.pool.tokenReserve ≤ m.token.balances D.pair)
  require (m.pool.wethReserve ≤ m.pool.wethBalance)
  let token ← transfer D Router.reverting m.token D.pair dst
    (m.token.balances D.pair - m.pool.tokenReserve)
  some
    { token
      pool := { m.pool with
        wethBalance :=
          if dst = D.pair then m.pool.wethBalance else m.pool.wethReserve } }

/-- What the token relies on in a Uniswap V2 pair before the first mint. -/
structure IsUniswapV2 (D : Deployment) (P : PairContract) : Prop where
  sync_eq : ∀ m, P.sync m = m.sync D
  skim_eq : ∀ m dst, m.token.launched = false → P.skim m dst = m.skim D dst
  swap_reverts : ∀ m tokenOut wethOut dst,
    m.pool.tokenReserve = 0 ∨ m.pool.wethReserve = 0 →
      P.swap m tokenOut wethOut dst = none
  /-- The first mint keeps back the minimum liquidity of 1000 shares. -/
  mint_reverts : ∀ m dst, m.pool.liquiditySupply = 0 →
    (m.token.balances D.pair - m.pool.tokenReserve) *
      (m.pool.wethBalance - m.pool.wethReserve) < minimumProduct →
      P.mint m dst = none
  burn_reverts : ∀ m dst, m.pool.liquiditySupply = 0 → P.burn m dst = none
  add_initial : ∀ m value desired tokenMin ethMin,
    m.pool.tokenReserve = 0 → m.pool.wethReserve = 0 →
      m.pool.liquiditySupply = 0 →
      P.addLiquidityETH m value desired tokenMin ethMin =
        if m.Accepts D desired value then
          .adds desired value
            (Nat.sqrt ((m.token.balances D.pair + desired) *
              (m.pool.wethBalance + value)) - 1000)
        else .reverts
  add_quote : ∀ m value desired tokenMin ethMin,
    m.pool.tokenReserve = 0 → m.pool.wethReserve ≠ 0 →
      P.addLiquidityETH m value desired tokenMin ethMin = .reverts

def PairContract.router (D : Deployment) (P : PairContract) (pool : Pool) :
    Router where
  swapExactTokensForETHSupportingFeeOnTransferTokens _ _ := none
  addLiquidityETH s value desired tokenMin ethMin :=
    (uniswapV2 D
      ⟨.reverts, P.addLiquidityETH ⟨s, pool⟩ value desired tokenMin ethMin⟩
      ).addLiquidityETH s value desired tokenMin ethMin

inductive PairAction where
  | sendWETH (value : Nat)
  | sync
  | skim (dst : Address)
  | swap (amountTokenOut amountWETHOut : Nat) (dst : Address)
  | mint (dst : Address)
  | burn (dst : Address)
  deriving DecidableEq, Repr

def PairContract.exec (P : PairContract) (m : Market) :
    PairAction → Option Market
  | .sendWETH value =>
      some { m with
        pool := { m.pool with wethBalance := m.pool.wethBalance + value } }
  | .sync => P.sync m
  | .skim dst => P.skim m dst
  | .swap tokenOut wethOut dst => P.swap m tokenOut wethOut dst
  | .mint dst => P.mint m dst
  | .burn dst => P.burn m dst

def PairContract.step (P : PairContract) (m : Market) (action : PairAction) :
    Market :=
  (P.exec m action).getD m

def PairContract.launch (D : Deployment) (P : PairContract) (m : Market)
    (value : Nat) : Option State :=
  LiquidityToken.launch D (P.router D m.pool) (receive m.token value)
    m.token.owner value

/-! ## The pair before launch -/

variable {D : Deployment} {P : PairContract} {s₀ : State} {m : Market}

/--
Before launch nobody has put tokens into the pair: its token reserve stays
empty, it has issued no shares, and the token has not been touched through it.
-/
structure Untouched (D : Deployment) (s₀ : State) (m : Market) : Prop where
  token : m.token = s₀
  unlaunched : s₀.launched = false
  empty : s₀.balances D.pair = 0
  tokenReserve : m.pool.tokenReserve = 0
  liquiditySupply : m.pool.liquiditySupply = 0
  covered : m.pool.wethReserve ≤ m.pool.wethBalance

theorem construct_untouched {R : Router} {supply creatorBps : Nat}
    (h : construct D R supply creatorBps = some s₀) :
    Untouched D s₀ ⟨s₀, .fresh⟩ := by
  obtain ⟨total, creatorAmt, -, rfl⟩ := construct_eq_some h
  refine ⟨rfl, rfl, ?_, rfl, rfl, le_refl _⟩
  simp [Balances.credit, D.pair_ne_self, D.deployer_ne_pair.symm]

theorem Untouched.skim_eq_some {dst : Address} {m' : Market}
    (hm : Untouched D s₀ m) (h : m.skim D dst = some m') :
    Untouched D s₀ m' ∧ m'.pool.wethReserve = m.pool.wethReserve := by
  obtain ⟨rfl, hlaunched, hempty, hreserve, hsupply, hcovered⟩ := hm
  simp only [Market.skim, transfer, transferFromTo, Option.bind_eq_bind,
    Option.bind_eq_some_iff, require_eq_some_iff, Option.some.injEq, hempty,
    Nat.zero_sub] at h
  obtain ⟨-, -, -, -, token, ⟨-, -, -, hdst, hupdate⟩, rfl⟩ := h
  simp only [update, hlaunched, Bool.false_eq_true, and_false, if_false]
    at hupdate
  obtain ⟨b, hb, rfl⟩ := superUpdate_eq_some D.pair_ne_zero hdst hupdate
  simp only [noteDonation_balances, Balances.move?_zero, Option.some.injEq]
    at hb
  subst hb
  refine ⟨⟨by simp [noteDonation_eq], hlaunched, hempty, hreserve, hsupply, ?_⟩,
    rfl⟩
  show m.pool.wethReserve ≤ if dst = D.pair then _ else _
  split
  · exact hcovered
  · exact le_refl _

/-- Syncing is harmless while the pair holds no WETH, or more than it can book. -/
def SyncHarmless (m : Market) (action : PairAction) : Prop :=
  action = .sync → m.pool.wethBalance = 0 ∨ uint112Max < m.pool.wethBalance

instance (m : Market) (action : PairAction) :
    Decidable (SyncHarmless m action) :=
  inferInstanceAs (Decidable (_ → _))

theorem step_untouched (hP : IsUniswapV2 D P) (hm : Untouched D s₀ m)
    (action : PairAction) :
    Untouched D s₀ (P.step m action) ∧
      ((P.step m action).pool.wethReserve = 0 ↔
        m.pool.wethReserve = 0 ∧ SyncHarmless m action) := by
  obtain ⟨htoken, hlaunched, hempty, hreserve, hsupply, hcovered⟩ := id hm
  cases action with
  | sendWETH value =>
      refine ⟨⟨htoken, hlaunched, hempty, hreserve, hsupply, ?_⟩, ?_⟩
      · exact le_trans hcovered (Nat.le_add_right _ _)
      · simp [PairContract.step, PairContract.exec, SyncHarmless]
  | sync =>
      have hnone : m.token.balances D.pair ≤ uint112Max := by
        rw [htoken, hempty]
        exact Nat.zero_le _
      by_cases hbound : m.pool.wethBalance ≤ uint112Max
      · simp only [PairContract.step, PairContract.exec, hP.sync_eq,
          Market.sync, require_of hnone, require_of hbound,
          Option.bind_eq_bind, Option.bind_some, Option.getD_some]
        refine ⟨⟨htoken, hlaunched, hempty, by simp [htoken, hempty], hsupply,
          le_refl _⟩, ?_⟩
        simp only [SyncHarmless, forall_const]
        omega
      · simp only [PairContract.step, PairContract.exec, hP.sync_eq,
          Market.sync, require_of hnone, require_of_not hbound,
          Option.bind_eq_bind, Option.bind_some, Option.bind_none,
          Option.getD_none, SyncHarmless, forall_const]
        exact ⟨hm, by omega⟩
  | skim dst =>
      have hskim := hP.skim_eq m dst (by rw [htoken]; exact hlaunched)
      simp only [PairContract.step, PairContract.exec, hskim]
      cases h : m.skim D dst with
      | none => simp [hm, SyncHarmless]
      | some m' =>
          obtain ⟨hm', hweth⟩ := hm.skim_eq_some h
          simp [hm', hweth, SyncHarmless]
  | swap tokenOut wethOut dst =>
      simp [PairContract.step, PairContract.exec,
        hP.swap_reverts m tokenOut wethOut dst (.inl hreserve), hm,
        SyncHarmless]
  | mint dst =>
      have hproduct : (m.token.balances D.pair - m.pool.tokenReserve) *
          (m.pool.wethBalance - m.pool.wethReserve) < minimumProduct := by
        rw [htoken, hempty, Nat.zero_sub, Nat.zero_mul]
        decide
      simp [PairContract.step, PairContract.exec,
        hP.mint_reverts m dst hsupply hproduct, hm, SyncHarmless]
  | burn dst =>
      simp [PairContract.step, PairContract.exec,
        hP.burn_reverts m dst hsupply, hm, SyncHarmless]

theorem run_untouched (hP : IsUniswapV2 D P) (hm : Untouched D s₀ m)
    (actions : List PairAction) :
    Untouched D s₀ (run P.step m actions) ∧
      ((run P.step m actions).pool.wethReserve = 0 ↔
        m.pool.wethReserve = 0 ∧ Guarded P.step SyncHarmless m actions) := by
  have hkept : ∀ m action, Untouched D s₀ m →
      Untouched D s₀ (P.step m action) :=
    fun _ action h => (step_untouched hP h action).1
  refine ⟨run_invariant hkept hm actions, ?_⟩
  exact run_iff_guarded (p := fun m : Market => m.pool.wethReserve = 0) hkept
    (fun _ action h => (step_untouched hP h action).2) hm actions

/-! ## The launch -/

theorem pull_isSome {s : State} {value : Nat}
    (hallows : s.allowances D.self D.router = uint256Size - 1)
    (hvalue : value ≤ s.balances D.self) :
    ∃ b, s.balances.move? D.self D.pair value = some b ∧
      pull D s value = some { s with balances := b } := by
  obtain ⟨b, hb⟩ := Balances.move?_of_le D.pair hvalue
  have hspend : spendAllowance s D.self D.router value = some s := by
    simp [spendAllowance, hallows]
  refine ⟨b, hb, ?_⟩
  simp [pull, transferFrom, transferFromTo, hspend, require_of D.self_ne_zero,
    require_of D.pair_ne_zero, update, noteDonation_eq, D.pair_ne_self,
    superUpdate_eq D.self_ne_zero D.pair_ne_zero, hb]

theorem launch_isSome {replies : RouterReplies} {s : State}
    {value liquidity : Nat} (hlaunched : s.launched = false)
    (hvalue : value ≠ 0)
    (hallows : s.allowances D.self D.router = uint256Size - 1)
    (hreply : replies.add = .adds (s.balances D.self) value liquidity)
    (hcap : s.balances D.pair + s.balances D.self ≤ uint112Max) :
    ∃ s', launch D (uniswapV2 D replies) s s.owner value = some s' := by
  obtain ⟨b, hb, hpull⟩ := pull_isSome
    (s := { s with launched := true, ethBalance := s.ethBalance - value })
    hallows (le_refl _)
  have hpair : b D.pair ≤ uint112Max := by
    rw [Balances.move?_dst hb D.pair_ne_self.symm]
    exact hcap
  simp only at hpull
  simp [launch, require_of hlaunched, require_of hvalue, uniswapV2, hreply,
    require_of, hpull, hpair, renounceOwnership, receive]

theorem Untouched.launch_iff (hP : IsUniswapV2 D P) (hm : Untouched D s₀ m)
    (hallows : s₀.allowances D.self D.router = uint256Size - 1) {value : Nat}
    (hvalue : 0 < value) :
    (∃ s', P.launch D m value = some s') ↔
      m.pool.wethReserve = 0 ∧ m.Accepts D (s₀.balances D.self) value := by
  obtain ⟨rfl, hlaunched, hempty, hreserve, hsupply, -⟩ := hm
  let asked : Market :=
    ⟨{ receive m.token value with
        launched := true
        ethBalance := (receive m.token value).ethBalance - value }, m.pool⟩
  let tokens := m.token.balances D.self
  have hanswer : P.launch D m value = launch D
      (uniswapV2 D ⟨.reverts, P.addLiquidityETH asked value tokens tokens value⟩)
      (receive m.token value) m.token.owner value := rfl
  have haccepts : asked.Accepts D tokens value ↔ m.Accepts D tokens value :=
    Iff.rfl
  rw [hanswer]
  by_cases hweth : m.pool.wethReserve = 0
  · rw [hP.add_initial asked value tokens tokens value hreserve hweth hsupply]
    by_cases hacc : m.Accepts D tokens value
    · rw [if_pos (haccepts.mpr hacc)]
      refine iff_of_true ?_ ⟨hweth, hacc⟩
      exact launch_isSome (s := receive m.token value) hlaunched
        (Nat.pos_iff_ne_zero.mp hvalue) hallows rfl hacc.1
    · rw [if_neg (fun h => hacc (haccepts.mp h))]
      refine iff_of_false ?_ (fun h => hacc h.2)
      rintro ⟨s', h⟩
      simp [launch, uniswapV2] at h
  · rw [hP.add_quote asked value tokens tokens value hreserve hweth]
    refine iff_of_false ?_ (fun h => hweth h.1)
    rintro ⟨s', h⟩
    simp [launch, uniswapV2] at h

/--
The launch after any sequence of outsiders' actions.  It goes through, and puts
every token of the contract into the pool, exactly when nobody called `sync`
while the pair held WETH it could book, and the first mint is one the pair
accepts.
-/
theorem launch_seeds_pool_iff (hP : IsUniswapV2 D P) (supply creatorBps : Nat)
    (hconstruct : construct D Router.reverting supply creatorBps = some s₀)
    (actions : List PairAction) (value : Nat) (hvalue : 0 < value) :
    let m := run P.step ⟨s₀, .fresh⟩ actions
    (∃ s', P.launch D m value = some s' ∧ s'.launched = true ∧
      s'.balances D.self = 0 ∧ s'.balances D.pair = s₀.balances D.self) ↔
    Guarded P.step SyncHarmless ⟨s₀, .fresh⟩ actions ∧
      s₀.balances D.self ≤ uint112Max ∧
      m.pool.wethBalance + value ≤ uint112Max ∧
      minimumProduct ≤ s₀.balances D.self * (m.pool.wethBalance + value) := by
  intro m
  obtain ⟨hm, hreserve⟩ := run_untouched hP (construct_untouched hconstruct)
    actions
  have hallows : s₀.allowances D.self D.router = uint256Size - 1 := by
    obtain ⟨total, creatorAmt, -, rfl⟩ := construct_eq_some hconstruct
    simp [State.allow]
  have hguard : m.pool.wethReserve = 0 ↔
      Guarded P.step SyncHarmless ⟨s₀, .fresh⟩ actions := by
    rw [hreserve]
    simp [Pool.fresh]
  have hseeds : ∀ s', P.launch D m value = some s' → s'.launched = true ∧
      s'.balances D.self = 0 ∧ s'.balances D.pair = s₀.balances D.self := by
    intro s' h
    obtain ⟨-, -, b, a, e, hmove, -, rfl⟩ := launch_eq_some h
    have hself := Balances.move?_src hmove D.pair_ne_self.symm
    have hpair := Balances.move?_dst hmove D.pair_ne_self.symm
    have htoken : (receive m.token value).balances = s₀.balances := by
      simp only [receive]
      rw [hm.token]
    rw [htoken] at hself hpair
    rw [hm.empty, Nat.zero_add] at hpair
    exact ⟨rfl, by show b D.self = 0; omega, hpair⟩
  have haccepts : m.Accepts D (s₀.balances D.self) value ↔
      s₀.balances D.self ≤ uint112Max ∧
        m.pool.wethBalance + value ≤ uint112Max ∧
        minimumProduct ≤
          s₀.balances D.self * (m.pool.wethBalance + value) := by
    simp only [Market.Accepts, hm.token, hm.empty, Nat.zero_add, m]
  rw [← hguard, ← haccepts, ← hm.launch_iff hP hallows hvalue]
  constructor
  · rintro ⟨s', h, -⟩
    exact ⟨s', h⟩
  · rintro ⟨s', h⟩
    exact ⟨s', h, hseeds s' h⟩

/-! ## A pair to run the launch on -/

/--
The pair's calls as far as they go without shares: a swap is refused when
either reserve is empty, and nobody gets past the first mint or a burn.
-/
def firstMintPair (D : Deployment) : PairContract where
  sync := Market.sync D
  skim := Market.skim D
  swap _ _ _ _ := none
  mint m _ :=
    let token := m.token.balances D.pair - m.pool.tokenReserve
    let weth := m.pool.wethBalance - m.pool.wethReserve
    let root := Nat.sqrt (token * weth)
    if 1000 < root then
      some { m with
        pool := ⟨m.token.balances D.pair, m.pool.wethBalance,
          m.pool.wethBalance, root⟩ }
    else none
  burn _ _ := none
  addLiquidityETH m value desired _ _ :=
    if m.pool.wethReserve = 0 ∧ m.Accepts D desired value then
      .adds desired value
        (Nat.sqrt ((m.token.balances D.pair + desired) *
          (m.pool.wethBalance + value)) - 1000)
    else .reverts

theorem firstMintPair_isUniswapV2 (D : Deployment) :
    IsUniswapV2 D (firstMintPair D) where
  sync_eq _ := rfl
  skim_eq _ _ _ := rfl
  swap_reverts _ _ _ _ _ := rfl
  mint_reverts m dst _ hproduct := by
    have : ¬1000 < Nat.sqrt ((m.token.balances D.pair - m.pool.tokenReserve) *
        (m.pool.wethBalance - m.pool.wethReserve)) := by
      rw [Nat.not_lt, ← Nat.lt_succ_iff, Nat.sqrt_lt']
      exact hproduct
    simp [firstMintPair, this]
  burn_reverts _ _ _ := rfl
  add_initial m value desired _ _ _ hweth _ := by
    simp [firstMintPair, hweth]
  add_quote m value desired _ _ _ hweth := by
    simp [firstMintPair, hweth]

/-- One wei of WETH and a `sync` keep the sample token from ever launching. -/
theorem launch_griefed :
    ¬∀ (P : PairContract) (D : Deployment) (supply creatorBps : Nat) (s₀ : State)
        (actions : List PairAction) (value : Nat),
      IsUniswapV2 D P →
      construct D Router.reverting supply creatorBps = some s₀ → 0 < value →
      ∃ s', P.launch D (run P.step ⟨s₀, .fresh⟩ actions) value = some s' ∧
        s'.balances D.self = 0 ∧
        s'.balances D.pair = s₀.balances D.self := by
  intro h
  obtain ⟨s₀, hconstruct⟩ : ∃ s₀, construct sampleDeployment Router.reverting
      (10 ^ 9) 0 = some s₀ := Option.isSome_iff_exists.mp (by decide)
  have hstate := Option.some.inj hconstruct
  obtain ⟨s', hlaunch, -⟩ := h (firstMintPair sampleDeployment) sampleDeployment
    (10 ^ 9) 0 s₀ [.sendWETH 1, .sync] (10 ^ 18)
    (firstMintPair_isUniswapV2 _) hconstruct (by decide)
  have hreverts : ((firstMintPair sampleDeployment).launch sampleDeployment
      (run (firstMintPair sampleDeployment).step ⟨s₀, .fresh⟩
        [.sendWETH 1, .sync]) (10 ^ 18)).isSome = false := by
    subst hstate
    decide
  rw [hlaunch] at hreverts
  contradiction

theorem launch_seeds_pool_iff_sample :
    ∃ s₀ s', construct sampleDeployment Router.reverting (10 ^ 9) 0 = some s₀ ∧
      (firstMintPair sampleDeployment).launch sampleDeployment
        (run (firstMintPair sampleDeployment).step ⟨s₀, .fresh⟩
          [.sync, .sendWETH 1, .mint 7]) (10 ^ 18) = some s' ∧
      s'.balances 1 = 0 ∧ s'.balances 3 = s₀.balances 1 := by
  obtain ⟨s₀, hconstruct⟩ : ∃ s₀, construct sampleDeployment Router.reverting
      (10 ^ 9) 0 = some s₀ := Option.isSome_iff_exists.mp (by decide)
  have hstate := Option.some.inj hconstruct
  obtain ⟨s', hlaunch, -, hself, hpair⟩ := (launch_seeds_pool_iff
    (firstMintPair_isUniswapV2 sampleDeployment) (10 ^ 9) 0 hconstruct
    [.sync, .sendWETH 1, .mint 7] (10 ^ 18) (by decide)).mpr
    (by subst hstate; decide)
  exact ⟨s₀, s', hconstruct, hlaunch, hself, hpair⟩

end IreBlockchain.LiquidityToken

import IreBlockchain.Foundation.Ledger

/-!
# The `LiquidityToken` contract

The functions of `LiquidityToken.sol` with the parts of OpenZeppelin's `ERC20`
and `Ownable` they inherit.  A function returns `none` when the call reverts.
The router the contract calls is a parameter: `Router` gives the effect of each
of the two calls on the token's own state, `none` again meaning a revert.
-/

namespace IreBlockchain.LiquidityToken

open IreBlockchain.Foundation

abbrev Address := Fin (2 ^ 160)

instance neZero_addresses : NeZero (2 ^ 160) := inferInstance

def feeBps : Nat := 100

def bps : Nat := 10000

def uint256Size : Nat := 2 ^ 256

def require (p : Prop) [Decidable p] : Option Unit :=
  if p then some () else none

/-- Solidity 0.8 arithmetic: a result outside `uint256` reverts. -/
def checked (n : Nat) : Option Nat :=
  if n < uint256Size then some n else none

/--
The addresses fixed at deployment.  A contract is never at the zero address,
the pair is another contract than the token, and the deployer exists before
either of them.
-/
structure Deployment where
  self : Address
  router : Address
  pair : Address
  deployer : Address
  self_ne_zero : self ≠ 0
  pair_ne_zero : pair ≠ 0
  router_ne_zero : router ≠ 0
  deployer_ne_zero : deployer ≠ 0
  pair_ne_self : pair ≠ self
  deployer_ne_self : deployer ≠ self
  deployer_ne_pair : deployer ≠ pair

structure State where
  balances : Balances Address
  allowances : Address → Address → Nat
  totalSupply : Nat
  owner : Address
  launched : Bool
  inSwap : Bool
  totalFeesCollected : Nat
  totalTokensToLiquidity : Nat
  totalEthToLiquidity : Nat
  swapThreshold : Nat
  ethBalance : Nat
  -- History variables, which no function reads: the tokens others sent to the
  -- contract since launch, and those that successful fee swaps took.
  donated : Nat
  swapped : Nat

/-- The two router functions the contract calls, as the token sees them. -/
structure Router where
  swapExactTokensForETHSupportingFeeOnTransferTokens :
    State → (amountIn : Nat) → Option State
  addLiquidityETH :
    State → (value amountTokenDesired amountTokenMin amountETHMin : Nat) →
      Option (State × Nat × Nat × Nat)

def Router.reverting : Router :=
  ⟨fun _ _ => none, fun _ _ _ _ _ => none⟩

/-! ## `ERC20` and `Ownable` -/

/-- `ERC20._update`, which mints from and burns to the zero address. -/
def superUpdate (s : State) (src dst : Address) (value : Nat) :
    Option State := do
  let s ←
    if src = 0 then do
      let supply ← checked (s.totalSupply + value)
      some { s with totalSupply := supply }
    else do
      let debited ← s.balances.debit? src value
      some { s with balances := debited }
  if dst = 0 then some { s with totalSupply := s.totalSupply - value }
  else some { s with balances := s.balances.credit dst value }

def State.allow (s : State) (owner spender : Address) (value : Nat) : State :=
  { s with
    allowances := Function.update s.allowances owner
      (Function.update (s.allowances owner) spender value) }

def approve (s : State) (sender spender : Address) (value : Nat) :
    Option State := do
  require (sender ≠ 0)
  require (spender ≠ 0)
  some (s.allow sender spender value)

/-- An allowance of `type(uint256).max` is not spent. -/
def spendAllowance (s : State) (owner spender : Address) (value : Nat) :
    Option State := do
  let currentAllowance := s.allowances owner spender
  if currentAllowance < uint256Size - 1 then
    require (value ≤ currentAllowance)
    some (s.allow owner spender (currentAllowance - value))
  else some s

def transferOwnership (s : State) (sender newOwner : Address) :
    Option State := do
  require (sender = s.owner)
  require (newOwner ≠ 0)
  some { s with owner := newOwner }

def renounceOwnership (s : State) (sender : Address) : Option State := do
  require (sender = s.owner)
  some { s with owner := 0 }

def receive (s : State) (value : Nat) : State :=
  { s with ethBalance := s.ethBalance + value }

/-! ## Fees and liquidity -/

variable (D : Deployment) (R : Router)

/--
`_liquify`.  Both early `return`s leave the body of the `lockSwap` modifier, so
the lock is released on every path.  A revert after the second call's success
branch is not caught.
-/
def liquifyAmount (s : State) (amount : Nat) : Option State :=
  let s := { s with inSwap := true }
  let half := amount / 2
  let rest := amount - half
  match R.swapExactTokensForETHSupportingFeeOnTransferTokens s half with
  | none => some { s with inSwap := false }
  | some s =>
      let s := { s with swapped := s.swapped + half }
      let ethBal := s.ethBalance
      if ethBal = 0 then some { s with inSwap := false }
      else
        match R.addLiquidityETH { s with ethBalance := 0 } ethBal rest 0 0 with
        | none => some { s with inSwap := false }
        | some (s, t, e, _) => do
            let tokens ← checked (s.totalTokensToLiquidity + t)
            let eth ← checked (s.totalEthToLiquidity + e)
            some { s with
              totalTokensToLiquidity := tokens
              totalEthToLiquidity := eth
              inSwap := false }

def maybeLiquify (s : State) : Option State :=
  if s.balances D.self < s.swapThreshold then some s
  else liquifyAmount R s s.swapThreshold

/-- Note in the history what others send to the launched contract. -/
def State.noteDonation (s : State) (src dst : Address) (value : Nat) : State :=
  if s.launched ∧ dst = D.self ∧ src ≠ D.self then
    { s with donated := s.donated + value }
  else s

/-- The part of `_update` that a trade which pays the fee goes through. -/
def updateTrade (s : State) (src dst : Address) (value : Nat) :
    Option State := do
  let s ← (if dst = D.pair then maybeLiquify D R s else some s)
  let product ← checked (value * feeBps)
  let fee := product / bps
  if 0 < fee then do
    let s ← superUpdate s src D.self fee
    let fees ← checked (s.totalFeesCollected + fee)
    superUpdate { s with totalFeesCollected := fees } src dst (value - fee)
  else superUpdate s src dst value

def update (s : State) (src dst : Address) (value : Nat) : Option State :=
  let isTrade := src = D.pair ∨ dst = D.pair
  let exempt := s.inSwap ∨ src = D.self ∨ dst = D.self
  if isTrade ∧ ¬exempt ∧ s.launched then updateTrade D R s src dst value
  else superUpdate (s.noteDonation D src dst value) src dst value

def transferFromTo (s : State) (src dst : Address) (value : Nat) :
    Option State := do
  require (src ≠ 0)
  require (dst ≠ 0)
  update D R s src dst value

def transfer (s : State) (sender dst : Address) (value : Nat) : Option State :=
  transferFromTo D R s sender dst value

def transferFrom (s : State) (sender src dst : Address) (value : Nat) :
    Option State := do
  let s ← spendAllowance s src sender value
  transferFromTo D R s src dst value

def mint (s : State) (account : Address) (value : Nat) : Option State := do
  require (account ≠ 0)
  update D R s 0 account value

def decimals : Nat := 18

def constructorTotal (supply : Nat) : Option Nat :=
  checked (supply * 10 ^ decimals)

def constructorShare (total creatorBps : Nat) : Option Nat := do
  let product ← checked (total * creatorBps)
  some (product / bps)

def blank (total : Nat) : State where
  balances _ := 0
  allowances _ _ := 0
  totalSupply := 0
  owner := D.deployer
  launched := false
  inSwap := false
  totalFeesCollected := 0
  totalTokensToLiquidity := 0
  totalEthToLiquidity := 0
  swapThreshold := total / 2000
  ethBalance := 0
  donated := 0
  swapped := 0

/-- The constructor; the pair it creates is in the deployment. -/
def construct (supply creatorBps : Nat) : Option State := do
  require (creatorBps ≤ 1000)
  let total ← constructorTotal supply
  let creatorAmt ← constructorShare total creatorBps
  let s := blank D total
  let s ← (if 0 < creatorAmt then mint D R s D.deployer creatorAmt else some s)
  let s ← mint D R s D.self (total - creatorAmt)
  some (s.allow D.self D.router (uint256Size - 1))

def launch (s : State) (sender : Address) (value : Nat) : Option State := do
  require (sender = s.owner)
  require (s.launched = false)
  require (value ≠ 0)
  let s := { s with launched := true }
  let tokens := s.balances D.self
  let (s, _, _, _) ←
    R.addLiquidityETH { s with ethBalance := s.ethBalance - value }
      value tokens tokens value
  renounceOwnership s sender

def liquify (s : State) : Option State := do
  require (s.launched ∧ ¬s.inSwap)
  require (s.swapThreshold ≤ s.balances D.self)
  liquifyAmount R s s.swapThreshold

end IreBlockchain.LiquidityToken

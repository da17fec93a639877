import IreBlockchain.Foundation.Runs
import IreBlockchain.LiquidityToken.Contract

/-!
# Runs of the token against a Uniswap V2 router

Each top-level call carries what the router does if the call reaches it: revert,
or succeed the way the V2 router does.  A successful swap pulls exactly the
tokens it was given into the pair and pays the contract some ETH; a successful
`addLiquidityETH` pulls the tokens it reports, at least the minimum and at most
the desired amount, keeps the ETH it reports and refunds the rest, and the pair
accepts no balance above `uint112`.  Both pull the tokens with the token's own
`transferFrom`.
-/

namespace IreBlockchain.LiquidityToken

open IreBlockchain.Foundation

inductive SwapReply where
  | reverts
  | swaps (ethOut : Nat)
  deriving DecidableEq, Repr

inductive AddReply where
  | reverts
  | adds (amountToken amountETH liquidity : Nat)
  deriving DecidableEq, Repr

structure RouterReplies where
  swap : SwapReply
  add : AddReply
  deriving DecidableEq, Repr

/-- The largest balance a V2 pair can hold in a reserve. -/
def uint112Max : Nat := 2 ^ 112 - 1

variable (D : Deployment)

/--
The tokens the router pulls move from the contract to the pair.  That transfer
is exempt, so the router the nested call would see is never consulted.
-/
def pull (s : State) (value : Nat) : Option State :=
  transferFrom D Router.reverting s D.router D.self D.pair value

def uniswapV2 (replies : RouterReplies) : Router where
  swapExactTokensForETHSupportingFeeOnTransferTokens s amountIn :=
    match replies.swap with
    | .reverts => none
    | .swaps ethOut => do
        let s ← pull D s amountIn
        some (receive s ethOut)
  addLiquidityETH s value amountTokenDesired amountTokenMin amountETHMin :=
    match replies.add with
    | .reverts => none
    | .adds amountToken amountETH liquidity => do
        require (amountTokenMin ≤ amountToken ∧
          amountToken ≤ amountTokenDesired)
        require (amountETHMin ≤ amountETH ∧ amountETH ≤ value)
        let s ← pull D s amountToken
        require (s.balances D.pair ≤ uint112Max)
        some (receive s (value - amountETH), amountToken, amountETH, liquidity)

inductive Call where
  | transfer (dst : Address) (value : Nat)
  | transferFrom (src dst : Address) (value : Nat)
  | approve (spender : Address) (value : Nat)
  | launch
  | liquify
  | transferOwnership (newOwner : Address)
  | renounceOwnership
  | receive
  deriving DecidableEq, Repr

structure Tx where
  sender : Address
  value : Nat
  call : Call
  replies : RouterReplies
  deriving DecidableEq, Repr

/--
Nobody signs for the zero address, the token does not call itself at top level,
and the router spends the contract's allowance only in a call of the contract's.
-/
structure Tx.External (tx : Tx) : Prop where
  sender_ne_zero : tx.sender ≠ 0
  sender_ne_self : tx.sender ≠ D.self
  router_pulls_own_caller : tx.sender = D.router → ∀ dst value,
    tx.call ≠ .transferFrom D.self dst value

def exec (s : State) (tx : Tx) : Option State :=
  let R := uniswapV2 D tx.replies
  match tx.call with
  | .transfer dst value => do
      require (tx.value = 0)
      transfer D R s tx.sender dst value
  | .transferFrom src dst value => do
      require (tx.value = 0)
      transferFrom D R s tx.sender src dst value
  | .approve spender value => do
      require (tx.value = 0)
      approve s tx.sender spender value
  | .launch => launch D R (receive s tx.value) tx.sender tx.value
  | .liquify => do
      require (tx.value = 0)
      liquify D R s
  | .transferOwnership newOwner => do
      require (tx.value = 0)
      transferOwnership s tx.sender newOwner
  | .renounceOwnership => do
      require (tx.value = 0)
      renounceOwnership s tx.sender
  | .receive => some (receive s tx.value)

/-- A reverted call leaves the state where it was. -/
def step (s : State) (tx : Tx) : State := (exec D s tx).getD s

/-- The states the deployed token can be in between two top-level calls. -/
def Reachable (s : State) : Prop :=
  ∃ supply creatorBps s₀ txs,
    construct D Router.reverting supply creatorBps = some s₀ ∧
      (∀ tx ∈ txs, tx.External D) ∧ s = run (step D) s₀ txs

end IreBlockchain.LiquidityToken

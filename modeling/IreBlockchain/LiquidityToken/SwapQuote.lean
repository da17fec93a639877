import IreBlockchain.Foundation.ConstantProduct
import IreBlockchain.LiquidityToken.Conservation

/-!
# The swap page's quote

The arithmetic of the site's `quote` and `swap`, and a trade of the router and
the pair, whose tokens move by the token's own transfers.  The page takes one
percent off the input of a sell and off the output of a buy; the token takes
its fee off what it transfers.
-/

namespace IreBlockchain.LiquidityToken

open IreBlockchain.Foundation

inductive Side where
  | buy
  | sell
  deriving DecidableEq, Repr

structure Reserves where
  eth : Nat
  token : Nat
  deriving DecidableEq, Repr

/-! ## The page -/

/-- Division of `BigInt`s, which throws on a zero divisor. -/
def divide (a b : Nat) : Option Nat :=
  if b = 0 then none else some (a / b)

/-- The router's quote ignores the token's fee, so a sell takes it off first. -/
def inAfterFee (side : Side) (amt : Nat) : Nat :=
  match side with
  | .buy => amt
  | .sell => amt * 99 / 100

structure Quote where
  out : Nat
  impactBps : Nat
  deriving DecidableEq, Repr

def Quote.impactBlocked (q : Quote) : Bool := 500 < q.impactBps

def spot (side : Side) (amt inAfter : Nat) (r : Reserves) : Option Nat :=
  match side with
  | .buy => divide (amt * r.token) r.eth
  | .sell => divide (inAfter * r.eth) r.token

def impactBps (spot amountOut : Nat) : Option Nat :=
  if amountOut < spot then divide ((spot - amountOut) * 10000) spot
  else some 0

/-- A buy is charged on what the pair pays out. -/
def quoteOut (side : Side) (amountOut : Nat) : Nat :=
  match side with
  | .buy => amountOut * 99 / 100
  | .sell => amountOut

def quoteReplies (side : Side) (amt inAfter amountOut : Nat) (r : Reserves) :
    Option Quote := do
  let spot ← spot side amt inAfter r
  let impact ← impactBps spot amountOut
  some ⟨quoteOut side amountOut, impact⟩

def minOut (out slip : Nat) : Nat := out * (100 - slip) / 100

/-! ## The router and the pair -/

def getAmountOut (amountIn reserveIn reserveOut : Nat) : Option Nat := do
  require (0 < amountIn)
  require (0 < reserveIn ∧ 0 < reserveOut)
  let amountInWithFee ← checked (amountIn * 997)
  let numerator ← checked (amountInWithFee * reserveOut)
  let scaled ← checked (reserveIn * 1000)
  let denominator ← checked (scaled + amountInWithFee)
  some (numerator / denominator)

def getAmountsOut (side : Side) (amountIn : Nat) (r : Reserves) : Option Nat :=
  match side with
  | .buy => getAmountOut amountIn r.eth r.token
  | .sell => getAmountOut amountIn r.token r.eth

/-- `quote` on a pool that does not change while it runs. -/
def quote (side : Side) (amt : Nat) (r : Reserves) : Option Quote := do
  let amountOut ← getAmountsOut side (inAfterFee side amt) r
  quoteReplies side amt (inAfterFee side amt) amountOut r

variable (D : Deployment)

/-- What the router sends to the pair is ETH, which arrives in full. -/
def swapExactETHForTokensSupportingFeeOnTransferTokens
    (replies : RouterReplies) (s : State) (r : Reserves)
    (value amountOutMin : Nat) (dst : Address) : Option (State × Nat) := do
  let amountOutput ← getAmountOut value r.eth r.token
  let s' ← exec D s ⟨D.pair, 0, .transfer dst amountOutput, replies⟩
  let received := s'.balances dst - s.balances dst
  require (amountOutMin ≤ received)
  some (s', received)

/-- The pair is paid for what its balance of the token has gained. -/
def swapExactTokensForETHSupportingFeeOnTransferTokens
    (replies : RouterReplies) (s : State) (r : Reserves)
    (amountIn amountOutMin : Nat) (sender : Address) :
    Option (State × Nat) := do
  let s' ← exec D s ⟨D.router, 0, .transferFrom sender D.pair amountIn, replies⟩
  let amountInput := s'.balances D.pair - s.balances D.pair
  let amountOutput ← getAmountOut amountInput r.token r.eth
  require (amountOutMin ≤ amountOutput)
  some (s', amountOutput)

def trade (replies : RouterReplies) (s : State) (r : Reserves) (me : Address)
    (side : Side) (amt amountOutMin : Nat) : Option (State × Nat) :=
  match side with
  | .buy =>
      swapExactETHForTokensSupportingFeeOnTransferTokens D replies s r amt
        amountOutMin me
  | .sell =>
      swapExactTokensForETHSupportingFeeOnTransferTokens D replies s r amt
        amountOutMin me

variable {D} {s s' : State} {r : Reserves} {me : Address}
  {replies : RouterReplies} {amt amountIn amountIn' out out' received : Nat}

theorem getAmountOut_eq_some {reserveIn reserveOut : Nat}
    (h : getAmountOut amountIn reserveIn reserveOut = some out) :
    0 < reserveIn ∧
      out = swapOut (reserveIn * 1000) reserveOut (amountIn * 997) := by
  simp only [getAmountOut, Option.bind_eq_bind, Option.bind_eq_some_iff,
    require_eq_some_iff, checked_eq_some_iff, Option.some.injEq] at h
  obtain ⟨-, -, -, ⟨hin, -⟩, _, ⟨-, rfl⟩, _, ⟨-, rfl⟩, _, ⟨-, rfl⟩, _, ⟨-, rfl⟩,
    rfl⟩ := h
  exact ⟨hin, rfl⟩

theorem getAmountOut_mono {reserveIn reserveOut : Nat}
    (hle : amountIn ≤ amountIn')
    (h : getAmountOut amountIn reserveIn reserveOut = some out)
    (h' : getAmountOut amountIn' reserveIn reserveOut = some out') :
    out ≤ out' := by
  obtain ⟨hin, rfl⟩ := getAmountOut_eq_some h
  obtain ⟨-, rfl⟩ := getAmountOut_eq_some h'
  exact swapOut_mono (by omega) (Nat.mul_le_mul_right _ hle)

theorem quoteReplies_out {side : Side} {inAfter amountOut : Nat} {q : Quote}
    (h : quoteReplies side amt inAfter amountOut r = some q) :
    q.out = quoteOut side amountOut := by
  simp only [quoteReplies, Option.bind_eq_bind, Option.bind_eq_some_iff,
    Option.some.injEq] at h
  obtain ⟨_, -, _, -, rfl⟩ := h
  rfl

theorem minOut_le (out slip : Nat) : minOut out slip ≤ out := by
  unfold minOut
  have : out * (100 - slip) ≤ out * 100 :=
    Nat.mul_le_mul_left _ (Nat.sub_le _ _)
  omega

/-! ## What a trade pays -/

theorem exec_receives {tx : Tx} {src dst : Address} {value : Nat}
    (hinv : Inv D s) (htx : tx.transfers = some (src, dst, value))
    (htrade : src = D.pair ∨ dst = D.pair) (hne : src ≠ dst)
    (hsrc : src ≠ D.self) (hdst : dst ≠ D.self)
    (hbelow : dst = D.pair → s.balances D.self < s.swapThreshold)
    (h : exec D s tx = some s') :
    s'.balances dst = s.balances dst +
      (value - if s.launched then value / 100 else 0) := by
  obtain ⟨hsrc0, hdst0, -, a, ha, hupdate⟩ := exec_transfers htx h
  have hexempt : ¬(s.inSwap = true ∨ src = D.self ∨ dst = D.self) := by
    simp [hinv.unlocked, hsrc, hdst]
  cases hlaunched : s.launched with
  | true =>
      have hcharges : (src = D.pair ∨ dst = D.pair) ∧
          ¬(s.inSwap = true ∨ src = D.self ∨ dst = D.self) ∧
          s.launched = true := ⟨htrade, hexempt, hlaunched⟩
      have hidle : (if dst = D.pair then
            maybeLiquify D (uniswapV2 D tx.replies) { s with allowances := a }
          else some { s with allowances := a }) =
          some { s with allowances := a } := by
        split
        next hpair => exact if_pos (hbelow hpair)
        next => rfl
      simp only [update] at hupdate
      rw [if_pos hcharges, updateTrade_eq, hidle, Option.bind_some] at hupdate
      obtain ⟨paid, b, hpaid, hb, rfl⟩ := chargeTrade_eq_some hsrc0 hdst0 hupdate
      have hfee := Balances.move?_other hpaid hne.symm hdst
      have hrest := Balances.move?_dst hb hne
      simp only [hfee] at hrest
      simpa using hrest
  | false =>
      have hfree : ¬((src = D.pair ∨ dst = D.pair) ∧
          ¬(s.inSwap = true ∨ src = D.self ∨ dst = D.self) ∧
          s.launched = true) := by simp [hlaunched]
      simp only [update] at hupdate
      rw [if_neg hfree] at hupdate
      obtain ⟨b, hb, rfl⟩ := superUpdate_eq_some hsrc0 hdst0 hupdate
      rw [noteDonation_balances] at hb
      simpa using Balances.move?_dst hb hne

theorem trade_buy_eq_some {amountOutMin : Nat} :
    trade D replies s r me .buy amt amountOutMin = some (s', received) ↔
      ∃ amountOutput, getAmountOut amt r.eth r.token = some amountOutput ∧
        exec D s ⟨D.pair, 0, .transfer me amountOutput, replies⟩ = some s' ∧
        received = s'.balances me - s.balances me ∧
        amountOutMin ≤ received := by
  simp only [trade, swapExactETHForTokensSupportingFeeOnTransferTokens,
    Option.bind_eq_bind, Option.bind_eq_some_iff, require_eq_some_iff,
    Option.some.injEq, Prod.mk.injEq]
  constructor
  · rintro ⟨amountOutput, hout, _, hexec, -, hmin, rfl, rfl⟩
    exact ⟨amountOutput, hout, hexec, rfl, hmin⟩
  · rintro ⟨amountOutput, hout, hexec, rfl, hmin⟩
    exact ⟨amountOutput, hout, s', hexec, (), hmin, rfl, rfl⟩

theorem trade_sell_eq_some {amountOutMin : Nat} :
    trade D replies s r me .sell amt amountOutMin = some (s', received) ↔
      exec D s ⟨D.router, 0, .transferFrom me D.pair amt, replies⟩ = some s' ∧
        getAmountOut (s'.balances D.pair - s.balances D.pair) r.token r.eth =
          some received ∧
        amountOutMin ≤ received := by
  simp only [trade, swapExactTokensForETHSupportingFeeOnTransferTokens,
    Option.bind_eq_bind, Option.bind_eq_some_iff, require_eq_some_iff,
    Option.some.injEq, Prod.mk.injEq]
  constructor
  · rintro ⟨_, hexec, _, hout, -, hmin, rfl, rfl⟩
    exact ⟨hexec, hout, hmin⟩
  · rintro ⟨hexec, hout, hmin⟩
    exact ⟨s', hexec, received, hout, (), hmin, rfl, rfl⟩

theorem quote_eq_some {side : Side} {q : Quote} (h : quote side amt r = some q) :
    ∃ amountOut, getAmountsOut side (inAfterFee side amt) r = some amountOut ∧
      q.out = quoteOut side amountOut := by
  simp only [quote, Option.bind_eq_bind, Option.bind_eq_some_iff] at h
  obtain ⟨amountOut, hout, h⟩ := h
  exact ⟨amountOut, hout, quoteReplies_out h⟩

theorem buy_pays_quote (hinv : Inv D s) (hself : me ≠ D.self)
    (hpair : me ≠ D.pair) {q : Quote} (hquote : quote .buy amt r = some q)
    (h : trade D replies s r me .buy amt 0 = some (s', received)) :
    q.out ≤ received ∧ (s.launched = true → received ≤ q.out + 1) := by
  obtain ⟨amountOut, hout, hq⟩ := quote_eq_some hquote
  obtain ⟨amountOutput, hpaid, hexec, rfl, -⟩ := trade_buy_eq_some.mp h
  obtain rfl : amountOut = amountOutput :=
    Option.some.inj (hout.symm.trans hpaid)
  have hreceives := exec_receives hinv rfl (.inl rfl) hpair.symm
    D.pair_ne_self hself (fun hdst => absurd hdst hpair) hexec
  simp only [quoteOut] at hq
  rw [hreceives, hq]
  cases s.launched with
  | true =>
      simp only [if_true]
      omega
  | false =>
      simp only [Bool.false_eq_true, if_false, false_implies, and_true]
      omega

theorem sell_pays_quote (hinv : Inv D s) (hself : me ≠ D.self)
    (hpair : me ≠ D.pair) {q : Quote} (hquote : quote .sell amt r = some q)
    (hbelow : s.balances D.self < s.swapThreshold)
    (h : trade D replies s r me .sell amt 0 = some (s', received)) :
    q.out ≤ received := by
  obtain ⟨amountOut, hout, hq⟩ := quote_eq_some hquote
  obtain ⟨hexec, hpaid, -⟩ := trade_sell_eq_some.mp h
  have hreceives := exec_receives hinv rfl (.inr rfl) hpair hself
    D.pair_ne_self (fun _ => hbelow) hexec
  have hinput : amt * 99 / 100 ≤ s'.balances D.pair - s.balances D.pair := by
    rw [hreceives]
    split <;> omega
  rw [hq]
  exact getAmountOut_mono hinput hout hpaid

theorem trade_of_le {side : Side} {amountOutMin : Nat}
    (hmin : amountOutMin ≤ received)
    (h : trade D replies s r me side amt 0 = some (s', received)) :
    trade D replies s r me side amt amountOutMin = some (s', received) := by
  cases side with
  | buy =>
      obtain ⟨amountOutput, hout, hexec, heq, -⟩ := trade_buy_eq_some.mp h
      exact trade_buy_eq_some.mpr ⟨amountOutput, hout, hexec, heq, hmin⟩
  | sell =>
      obtain ⟨hexec, hout, -⟩ := trade_sell_eq_some.mp h
      exact trade_sell_eq_some.mpr ⟨hexec, hout, hmin⟩

/--
The quote matches the contract.  On unchanged reserves a trade pays the user at
least what the page quoted for it, so it goes through with the minimum that the
page submits for any slippage; a buy that is charged the fee pays at most one
base unit more.
-/
theorem trade_pays_quote (hreach : Reachable D s) (hself : me ≠ D.self)
    (hpair : me ≠ D.pair) (r : Reserves) (replies : RouterReplies)
    (side : Side) (amt : Nat) (q : Quote) (hquote : quote side amt r = some q)
    (hbelow : side = .sell → s.balances D.self < s.swapThreshold)
    (s' : State) (received : Nat)
    (htrade : trade D replies s r me side amt 0 = some (s', received)) :
    q.out ≤ received ∧
      (∀ slip ≤ 100, minOut q.out slip ≤ received ∧
        trade D replies s r me side amt (minOut q.out slip) =
          some (s', received)) ∧
      (side = .buy → s.launched = true → received ≤ q.out + 1) := by
  have hle : q.out ≤ received := by
    cases side with
    | buy => exact (buy_pays_quote hreach.inv hself hpair hquote htrade).1
    | sell =>
        exact sell_pays_quote hreach.inv hself hpair hquote (hbelow rfl) htrade
  refine ⟨hle, ?_, ?_⟩
  · intro slip _
    have hmin := le_trans (minOut_le q.out slip) hle
    exact ⟨hmin, trade_of_le hmin htrade⟩
  · rintro rfl hlaunched
    exact (buy_pays_quote hreach.inv hself hpair hquote htrade).2 hlaunched

def sampleReserves : Reserves := ⟨10 ^ 18, 10 ^ 27⟩

theorem trade_pays_quote_sample :
    ∃ s q s' received, Reachable sampleDeployment s ∧
      quote .buy (10 ^ 16) sampleReserves = some q ∧
      trade sampleDeployment ⟨.reverts, .reverts⟩ s sampleReserves 5 .buy
        (10 ^ 16) (minOut q.out 3) = some (s', received) ∧
      q.out ≤ received ∧ received ≤ q.out + 1 := by
  obtain ⟨s₀, h⟩ : ∃ s₀, construct sampleDeployment Router.reverting (10 ^ 9) 0
      = some s₀ := Option.isSome_iff_exists.mp (by decide)
  have hstate := Option.some.inj h
  let s := run (step sampleDeployment) s₀ (sampleTxs.take 1)
  have hreach : Reachable sampleDeployment s :=
    ⟨10 ^ 9, 0, s₀, sampleTxs.take 1, h,
      fun tx htx => sampleTxs_external tx (List.mem_of_mem_take htx), rfl⟩
  obtain ⟨q, hquote⟩ : ∃ q, quote .buy (10 ^ 16) sampleReserves = some q :=
    Option.isSome_iff_exists.mp (by decide)
  obtain ⟨⟨s', received⟩, htrade⟩ : ∃ result,
      trade sampleDeployment ⟨.reverts, .reverts⟩ s sampleReserves 5 .buy
        (10 ^ 16) 0 = some result :=
    Option.isSome_iff_exists.mp (by subst hstate; decide)
  obtain ⟨hle, hmin, hclose⟩ := trade_pays_quote hreach (by decide) (by decide)
    sampleReserves ⟨.reverts, .reverts⟩ .buy (10 ^ 16) q hquote nofun s' received
    htrade
  exact ⟨s, q, s', received, hreach, hquote, (hmin 3 (by decide)).2, hle,
    hclose rfl (by subst hstate; decide)⟩

end IreBlockchain.LiquidityToken

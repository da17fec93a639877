import IreBlockchain.LiquidityToken.Conservation

/-!
# Reentrant calls

A router is foreign code.  Before it returns or reverts it can call the token,
and so can whatever it calls.  Here the token is a machine with a call stack:
it runs up to a call of the router, and from its reply on.
-/

namespace IreBlockchain.LiquidityToken.Reentrancy

open IreBlockchain.Foundation

/-- What `_liquify` returns to. -/
inductive Continuation where
  | liquify
  | sell (src dst : Address) (value : Nat)
  deriving DecidableEq, Repr

inductive Point where
  | swapping (amount : Nat) (next : Continuation)
  | adding (next : Continuation)
  | launching (sender : Address)
  deriving DecidableEq, Repr

inductive RouterCall where
  | swapExactTokensForETHSupportingFeeOnTransferTokens (amountIn : Nat)
  | addLiquidityETH
      (value amountTokenDesired amountTokenMin amountETHMin : Nat)
  deriving DecidableEq, Repr

def RouterCall.value : RouterCall → Nat
  | .swapExactTokensForETHSupportingFeeOnTransferTokens _ => 0
  | .addLiquidityETH value _ _ _ => value

inductive Outcome where
  | done (s : State)
  | reverted
  | calls (s : State) (request : RouterCall) (point : Point)

def Outcome.ofOption : Option State → Outcome
  | some s => .done s
  | none => .reverted

/--
How a call of the router ends for the token: with data, if the token can decode
it, or with too little gas left for the token to go on.
-/
inductive Reply where
  | reverts
  | returns (data : Option (Nat × Nat × Nat))
  | exhausts
  deriving DecidableEq, Repr

/--
Foreign code on the call stack.  It restores `before` when it reverts; the token
restores `entry` when the call reverts in which it waits.
-/
inductive Frame where
  | foreign (before : State)
  | router (request : RouterCall) (point : Point) (entry before : State)

structure Config where
  state : State
  stack : List Frame

inductive Move where
  | call (sender : Address) (value : Nat) (call : Call)
  | enter
  | reply (reply : Reply)
  deriving DecidableEq, Repr

/-! ## The token -/

section Token

variable (D : Deployment)

def Continuation.resume (s : State) : Continuation → Option State
  | .liquify => some s
  | .sell src dst value => chargeTrade D s src dst value

def unlock (s : State) (next : Continuation) : Outcome :=
  .ofOption (next.resume D { s with inSwap := false })

def liquifyAmount (s : State) (amount : Nat) (next : Continuation) : Outcome :=
  .calls { s with inSwap := true }
    (.swapExactTokensForETHSupportingFeeOnTransferTokens (amount / 2))
    (.swapping amount next)

def update (s : State) (src dst : Address) (value : Nat) : Outcome :=
  let isTrade := src = D.pair ∨ dst = D.pair
  let exempt := s.inSwap ∨ src = D.self ∨ dst = D.self
  if isTrade ∧ ¬exempt ∧ s.launched then
    if dst = D.pair ∧ ¬ s.balances D.self < s.swapThreshold then
      liquifyAmount s s.swapThreshold (.sell src dst value)
    else .ofOption (chargeTrade D s src dst value)
  else .ofOption (superUpdate (s.noteDonation D src dst value) src dst value)

def transferFromTo (s : State) (src dst : Address) (value : Nat) : Outcome :=
  if src ≠ 0 ∧ dst ≠ 0 then update D s src dst value else .reverted

def launch (s : State) (sender : Address) (value : Nat) : Outcome :=
  if sender = s.owner ∧ s.launched = false ∧ value ≠ 0 then
    .calls { s with launched := true }
      (.addLiquidityETH value (s.balances D.self) (s.balances D.self) value)
      (.launching sender)
  else .reverted

def liquify (s : State) : Outcome :=
  if s.launched ∧ ¬s.inSwap ∧ s.swapThreshold ≤ s.balances D.self then
    liquifyAmount s s.swapThreshold .liquify
  else .reverted

def exec (s : State) (sender : Address) (value : Nat) (call : Call) : Outcome :=
  match call with
  | .transfer dst amount =>
      if value = 0 then transferFromTo D s sender dst amount else .reverted
  | .transferFrom src dst amount =>
      if value = 0 then
        match spendAllowance s src sender amount with
        | some s => transferFromTo D s src dst amount
        | none => .reverted
      else .reverted
  | .launch => launch D (receive s value) sender value
  | .liquify => if value = 0 then liquify D s else .reverted
  | other => .ofOption (LiquidityToken.exec D s
      ⟨sender, value, other, .reverts, .reverts⟩)

def Point.resume (before s : State) : Point → Reply → Outcome
  | _, .exhausts => .reverted
  | .swapping _ next, .reverts => unlock D before next
  | .swapping amount next, .returns _ =>
      let s := { s with swapped := s.swapped + amount / 2 }
      if s.ethBalance = 0 then unlock D s next
      else
        .calls s (.addLiquidityETH s.ethBalance (amount - amount / 2) 0 0)
          (.adding next)
  | .adding next, .reverts => unlock D before next
  | .adding _, .returns none => .reverted
  | .adding next, .returns (some (t, e, _)) =>
      match checked (s.totalTokensToLiquidity + t),
        checked (s.totalEthToLiquidity + e) with
      | some tokens, some eth =>
          unlock D { s with
            totalTokensToLiquidity := tokens
            totalEthToLiquidity := eth } next
      | _, _ => .reverted
  | .launching _, .reverts => .reverted
  | .launching _, .returns none => .reverted
  | .launching sender, .returns (some _) =>
      .ofOption (renounceOwnership s sender)

end Token

/-! ## The machine -/

def called (before : State) (request : RouterCall) : State :=
  { before with ethBalance := before.ethBalance - request.value }

/-- Go on from an outcome of the token, called over the rest of the stack. -/
def settle (entry : State) (rest : List Frame) : Outcome → Config
  | .done s => ⟨s, rest⟩
  | .reverted => ⟨entry, rest⟩
  | .calls before request point =>
      ⟨called before request, .router request point entry before :: rest⟩

def step (D : Deployment) (c : Config) : Move → Config
  | .call sender value call =>
      settle c.state c.stack (exec D c.state sender value call)
  | .enter => ⟨c.state, .foreign c.state :: c.stack⟩
  | .reply reply =>
      match c.stack, reply with
      | [], _ => c
      | .foreign _ :: rest, .returns _ => ⟨c.state, rest⟩
      | .foreign before :: rest, _ => ⟨before, rest⟩
      | .router _ point entry before :: rest, reply =>
          settle entry rest (point.resume D before c.state reply)

theorem step_reply_router {D : Deployment} {c : Config} {request : RouterCall}
    {point : Point} {entry before : State} {rest : List Frame} {reply : Reply}
    (h : c.stack = .router request point entry before :: rest) :
    step D c (.reply reply) =
      settle entry rest (point.resume D before c.state reply) := by
  simp only [step, h]

@[simp] theorem settle_ofOption (entry : State) (rest : List Frame)
    (result : Option State) :
    settle entry rest (.ofOption result) = ⟨result.getD entry, rest⟩ := by
  cases result <;> rfl

/-! ## Activations of `_liquify` -/

def Point.next? : Point → Option Continuation
  | .swapping _ next => some next
  | .adding next => some next
  | .launching _ => none

def Frame.liquifies : Frame → Bool
  | .foreign _ => false
  | .router _ point _ _ => point.next?.isSome

def activations (stack : List Frame) : Nat := stack.countP Frame.liquifies

/-- The lock is taken exactly while an activation is on the stack. -/
def Locks (stack : List Frame) (s : State) : Prop :=
  activations stack = s.inSwap.toNat

/-- Every state that a frame can restore has the lock of the stack it is for. -/
def Restores : List Frame → Prop
  | [] => True
  | .foreign before :: rest => Locks rest before ∧ Restores rest
  | .router request point entry before :: rest =>
      Locks (.router request point entry before :: rest) before ∧
        Locks rest entry ∧ Restores rest

structure Inv (c : Config) : Prop where
  lock : Locks c.stack c.state
  frames : Restores c.stack

def Outcome.Locks (stack : List Frame) : Outcome → Prop
  | .done s => Reentrancy.Locks stack s
  | .reverted => True
  | .calls before request point => ∀ entry,
      Reentrancy.Locks (.router request point entry before :: stack) before

variable {D : Deployment} {s s' : State} {stack rest : List Frame}

theorem activations_foreign (before : State) :
    activations (.foreign before :: rest) = activations rest :=
  List.countP_cons_of_neg (by simp [Frame.liquifies])

theorem activations_router (request : RouterCall) (point : Point)
    (entry before : State) :
    activations (.router request point entry before :: rest) =
      activations rest + if point.next?.isSome then 1 else 0 := by
  rw [activations, List.countP_cons]
  rfl

/-! ## The lock in the token's code -/

theorem superUpdate_inSwap {src dst : Address} {value : Nat}
    (h : superUpdate s src dst value = some s') : s'.inSwap = s.inSwap := by
  unfold superUpdate at h
  by_cases hsrc : src = 0
  · simp only [hsrc, if_true, Option.bind_eq_bind, Option.bind_eq_some_iff,
      Option.some.injEq, exists_eq_left'] at h
    obtain ⟨supply, -, h⟩ := h
    split at h
    all_goals
      obtain rfl := Option.some.inj h
      rfl
  · simp only [hsrc, if_false, Option.bind_eq_bind, Option.bind_eq_some_iff,
      Option.some.injEq, exists_eq_left'] at h
    obtain ⟨debited, -, h⟩ := h
    split at h
    all_goals
      obtain rfl := Option.some.inj h
      rfl

theorem chargeTrade_inSwap {src dst : Address} {value : Nat}
    (h : chargeTrade D s src dst value = some s') : s'.inSwap = s.inSwap := by
  simp only [chargeTrade, Option.bind_eq_bind, Option.bind_eq_some_iff] at h
  obtain ⟨product, -, h⟩ := h
  split at h
  · simp only [Option.bind_eq_some_iff] at h
    obtain ⟨s₁, hfee, fees, -, hrest⟩ := h
    have hpaid : s₁.inSwap = s.inSwap := superUpdate_inSwap hfee
    exact (superUpdate_inSwap hrest :).trans hpaid
  · exact superUpdate_inSwap h

theorem noteDonation_inSwap (src dst : Address) (value : Nat) :
    (s.noteDonation D src dst value).inSwap = s.inSwap := by
  unfold State.noteDonation
  split <;> rfl

theorem locks_ofOption {result : Option State}
    (h : ∀ s', result = some s' → s'.inSwap = s.inSwap)
    (hlock : Locks stack s) : (Outcome.ofOption result).Locks stack := by
  cases result with
  | none => trivial
  | some s' =>
      change activations stack = s'.inSwap.toNat
      rw [h s' rfl]
      exact hlock

theorem resume_inSwap {next : Continuation}
    (h : next.resume D s = some s') : s'.inSwap = s.inSwap := by
  cases next with
  | liquify => exact congrArg State.inSwap (Option.some.inj h).symm
  | sell src dst value => exact chargeTrade_inSwap h

theorem locks_unlock (next : Continuation)
    (hlock : activations stack + 1 = s.inSwap.toNat) :
    (unlock D s next).Locks stack := by
  have hle := Bool.toNat_le s.inSwap
  have hnone : activations stack = 0 := by omega
  have hopen : Locks stack { s with inSwap := false } := hnone
  exact locks_ofOption (fun _ h => resume_inSwap h) hopen

theorem locks_liquifyAmount (amount : Nat) (next : Continuation)
    (hfree : s.inSwap = false) (hlock : Locks stack s) :
    (liquifyAmount s amount next).Locks stack := by
  intro entry
  rw [Locks, hfree] at hlock
  rw [Locks, activations_router, hlock]
  rfl

theorem locks_update (src dst : Address) (value : Nat)
    (hlock : Locks stack s) : (update D s src dst value).Locks stack := by
  simp only [update]
  split
  next htrade =>
    have hfree : s.inSwap = false := by
      have hexempt := htrade.2.1
      rw [not_or, Bool.not_eq_true] at hexempt
      exact hexempt.1
    split
    · exact locks_liquifyAmount _ _ hfree hlock
    · exact locks_ofOption (fun _ h => chargeTrade_inSwap h) hlock
  next =>
    apply locks_ofOption ?_ hlock
    intro s' h
    exact (superUpdate_inSwap h).trans (noteDonation_inSwap src dst value)

theorem locks_transferFromTo (src dst : Address) (value : Nat)
    (hlock : Locks stack s) :
    (transferFromTo D s src dst value).Locks stack := by
  unfold transferFromTo
  split
  · exact locks_update src dst value hlock
  · trivial

theorem locks_launch (sender : Address) (value : Nat) (hlock : Locks stack s) :
    (launch D s sender value).Locks stack := by
  unfold launch
  split
  · intro entry
    rw [Locks, activations_router]
    exact hlock
  · trivial

theorem locks_liquify (hlock : Locks stack s) :
    (liquify D s).Locks stack := by
  unfold liquify
  split
  next hready =>
    exact locks_liquifyAmount _ _ (Bool.eq_false_iff.mpr hready.2.1) hlock
  next => trivial

theorem locks_exec (sender : Address) (value : Nat) (call : Call)
    (hlock : Locks stack s) : (exec D s sender value call).Locks stack := by
  cases call with
  | transfer dst amount =>
      simp only [exec]
      split
      · exact locks_transferFromTo sender dst amount hlock
      · trivial
  | transferFrom src dst amount =>
      simp only [exec]
      split
      · split
        next s' hspend =>
          obtain ⟨-, a, -, rfl⟩ := spendAllowance_eq_some hspend
          exact locks_transferFromTo src dst amount hlock
        next => trivial
      · trivial
  | launch => exact locks_launch sender value hlock
  | liquify =>
      simp only [exec]
      split
      · exact locks_liquify hlock
      · trivial
  | _ =>
      simp only [exec]
      apply locks_ofOption ?_ hlock
      intro s' h
      cases completed_of_exec h with
      | other htx hlaunch h => rw [h]
      | transfer htx => cases htx
      | launch htx => cases htx
      | liquify htx => cases htx

theorem locks_pointResume {request : RouterCall} {point : Point}
    {entry before : State} (reply : Reply)
    (hlock : Locks (.router request point entry before :: rest) s)
    (hbefore : Locks (.router request point entry before :: rest) before) :
    (point.resume D before s reply).Locks rest := by
  rw [Locks, activations_router] at hlock hbefore
  cases point with
  | swapping amount next =>
      cases reply with
      | exhausts => trivial
      | reverts => exact locks_unlock next hbefore
      | returns data =>
          simp only [Point.resume]
          split
          · exact locks_unlock next hlock
          · intro entry
            rw [Locks, activations_router]
            exact hlock
  | adding next =>
      cases reply with
      | exhausts => trivial
      | reverts => exact locks_unlock next hbefore
      | returns data =>
          cases data with
          | none => trivial
          | some data =>
              simp only [Point.resume]
              split
              · exact locks_unlock next hlock
              · trivial
  | launching sender =>
      cases reply with
      | exhausts => trivial
      | reverts => trivial
      | returns data =>
          cases data with
          | none => trivial
          | some data =>
              apply locks_ofOption ?_ hlock
              intro s' h
              simp only [renounceOwnership, Option.bind_eq_bind,
                Option.bind_eq_some_iff, Option.some.injEq] at h
              obtain ⟨-, -, rfl⟩ := h
              rfl

/-! ## A Uniswap V2 router

The calls of `LiquidityToken.exec` are runs of the machine: what `uniswapV2`
does to the token is what a router does that calls it back.
-/

def Follows (D : Deployment) (outcome : Outcome) (result : Option State) :
    Prop :=
  ∃ moves, ∀ entry rest,
    run (step D) (settle entry rest outcome) moves =
      ⟨result.getD entry, rest⟩

theorem follows_ofOption (result : Option State) :
    Follows D (.ofOption result) result :=
  ⟨[], fun entry rest => settle_ofOption entry rest result⟩

theorem follows_reverted : Follows D .reverted none := follows_ofOption none

theorem Follows.calls {before : State} {request : RouterCall} {point : Point}
    {result : Option State} {moves : List Move} (reply : Reply)
    (hmoves : ∀ stack,
      run (step D) ⟨called before request, stack⟩ moves = ⟨s', stack⟩)
    (h : Follows D (point.resume D before s' reply) result) :
    Follows D (.calls before request point) result := by
  obtain ⟨later, hlater⟩ := h
  refine ⟨moves ++ .reply reply :: later, fun entry rest => ?_⟩
  rw [run_append]
  simp only [settle, hmoves, run_cons]
  exact hlater entry rest

theorem Follows.reverts {before : State} {request : RouterCall} {point : Point}
    {result : Option State}
    (h : Follows D (point.resume D before (called before request) .reverts)
      result) : Follows D (.calls before request point) result :=
  Follows.calls .reverts (fun _ => run_nil _ _) h

theorem update_exempt (dst : Address) (value : Nat) :
    update D s D.self dst value =
      .ofOption (LiquidityToken.update D Router.reverting s D.self dst value) := by
  simp [update, LiquidityToken.update]

theorem run_pull {value : Nat} (h : pull D s value = some s')
    (stack : List Frame) :
    step D ⟨s, stack⟩ (.call D.router 0 (.transferFrom D.self D.pair value)) =
      ⟨s', stack⟩ := by
  simp only [pull, transferFrom, Option.bind_eq_bind,
    Option.bind_eq_some_iff, LiquidityToken.transferFromTo,
    require_eq_some_iff] at h
  obtain ⟨s₁, hspend, -, -, -, -, hupdate⟩ := h
  simp [step, exec, hspend, transferFromTo, D.self_ne_zero, D.pair_ne_zero,
    update_exempt, hupdate]

theorem run_swap {replies : RouterReplies} {amountIn : Nat}
    (h : (uniswapV2 D replies).swapExactTokensForETHSupportingFeeOnTransferTokens
      s amountIn = some s') :
    ∃ moves, ∀ stack, run (step D) ⟨s, stack⟩ moves = ⟨s', stack⟩ := by
  simp only [uniswapV2] at h
  cases hreply : replies.swap with
  | reverts => simp [hreply] at h
  | swaps ethOut =>
      simp only [hreply, Option.bind_eq_bind, Option.bind_eq_some_iff,
        Option.some.injEq] at h
      obtain ⟨s₁, hpull, rfl⟩ := h
      refine ⟨[.call D.router 0 (.transferFrom D.self D.pair amountIn),
        .call D.router ethOut .receive], fun stack => ?_⟩
      rw [run_cons, run_pull hpull]
      rfl

theorem run_add {replies : RouterReplies}
    {value desired tokenMin ethMin t e liquidity : Nat}
    (h : (uniswapV2 D replies).addLiquidityETH s value desired tokenMin ethMin =
      some (s', t, e, liquidity)) :
    ∃ moves, ∀ stack, run (step D) ⟨s, stack⟩ moves = ⟨s', stack⟩ := by
  simp only [uniswapV2] at h
  cases hreply : replies.add with
  | reverts => simp [hreply] at h
  | adds amountToken amountETH liquidity' =>
      simp only [hreply, Option.bind_eq_bind, Option.bind_eq_some_iff,
        Option.some.injEq, Prod.mk.injEq] at h
      obtain ⟨-, -, -, -, s₁, hpull, -, -, rfl, -, -, -⟩ := h
      refine ⟨[.call D.router 0 (.transferFrom D.self D.pair amountToken),
        .call D.router (value - amountETH) .receive], fun stack => ?_⟩
      rw [run_cons, run_pull hpull]
      rfl

theorem follows_adding (before : State) (next : Continuation)
    (t e liquidity : Nat) :
    Follows D
      ((Point.adding next).resume D before s (.returns (some (t, e, liquidity))))
      (do
        let tokens ← checked (s.totalTokensToLiquidity + t)
        let eth ← checked (s.totalEthToLiquidity + e)
        next.resume D { s with
          totalTokensToLiquidity := tokens
          totalEthToLiquidity := eth
          inSwap := false }) := by
  simp only [Point.resume]
  cases checked (s.totalTokensToLiquidity + t) with
  | none => exact follows_reverted
  | some tokens =>
      cases checked (s.totalEthToLiquidity + e) with
      | none => exact follows_reverted
      | some eth => exact follows_ofOption _

theorem follows_liquifyAmount (replies : RouterReplies) (s : State)
    (amount : Nat) (next : Continuation) :
    Follows D (liquifyAmount s amount next)
      ((LiquidityToken.liquifyAmount (uniswapV2 D replies) s amount).bind
        (next.resume D)) := by
  unfold liquifyAmount LiquidityToken.liquifyAmount
  cases hswap : (uniswapV2 D
      replies).swapExactTokensForETHSupportingFeeOnTransferTokens
      { s with inSwap := true } (amount / 2) with
  | none =>
      simp only [hswap, Option.bind_some]
      exact Follows.reverts (follows_ofOption _)
  | some s₁ =>
      simp only [hswap]
      obtain ⟨moves, hmoves⟩ := run_swap hswap
      refine Follows.calls (.returns none) hmoves ?_
      simp only [Point.resume]
      split
      · exact follows_ofOption _
      · cases hadd : (uniswapV2 D replies).addLiquidityETH
          { s₁ with swapped := s₁.swapped + amount / 2, ethBalance := 0 }
          s₁.ethBalance (amount - amount / 2) 0 0 with
        | none =>
            simp only [Option.bind_some]
            exact Follows.reverts (follows_ofOption _)
        | some reply =>
            obtain ⟨s₂, t, e, liquidity⟩ := reply
            obtain ⟨moves, hmoves⟩ := run_add hadd
            rw [← Nat.sub_self s₁.ethBalance] at hmoves
            refine Follows.calls (.returns (some (t, e, liquidity))) hmoves ?_
            simp only [Option.bind_eq_bind, Option.bind_assoc, Option.bind_some]
            exact follows_adding _ next t e liquidity

theorem follows_update (replies : RouterReplies) (s : State)
    (src dst : Address) (value : Nat) :
    Follows D (update D s src dst value)
      (LiquidityToken.update D (uniswapV2 D replies) s src dst value) := by
  simp only [update, LiquidityToken.update]
  split
  · rw [updateTrade_eq]
    by_cases hsell : dst = D.pair
    · by_cases hbelow : s.balances D.self < s.swapThreshold
      · simp only [hsell, hbelow, maybeLiquify, not_true, and_false, if_false,
          if_true, Option.bind_some]
        exact follows_ofOption _
      · simp only [hsell, hbelow, maybeLiquify, not_false_eq_true, and_self,
          if_true, if_false]
        exact follows_liquifyAmount replies s _ (.sell src D.pair value)
    · simp only [hsell, false_and, if_false, Option.bind_some]
      exact follows_ofOption _
  · exact follows_ofOption _

theorem follows_transferFromTo (replies : RouterReplies) (s : State)
    (src dst : Address) (value : Nat) :
    Follows D (transferFromTo D s src dst value)
      (LiquidityToken.transferFromTo D (uniswapV2 D replies) s src dst
        value) := by
  unfold transferFromTo LiquidityToken.transferFromTo
  by_cases hsrc : src = 0
  · simp only [hsrc, ne_eq, not_true, false_and, if_false]
    exact follows_reverted
  · by_cases hdst : dst = 0
    · simp only [hdst, ne_eq, not_true, and_false, if_false, hsrc,
        require_of (p := ¬False) not_false]
      exact follows_reverted
    · simp only [hsrc, hdst, ne_eq, not_false_eq_true, and_self, if_true]
      exact follows_update replies s src dst value

theorem follows_liquify (replies : RouterReplies) (s : State) :
    Follows D (liquify D s)
      (LiquidityToken.liquify D (uniswapV2 D replies) s) := by
  unfold liquify LiquidityToken.liquify
  by_cases hready : s.launched ∧ ¬s.inSwap
  · by_cases hle : s.swapThreshold ≤ s.balances D.self
    · have hif : s.launched ∧ ¬s.inSwap ∧ s.swapThreshold ≤ s.balances D.self :=
        ⟨hready.1, hready.2, hle⟩
      rw [if_pos hif, require_of hready, require_of hle]
      simpa [Continuation.resume] using
        follows_liquifyAmount replies s s.swapThreshold .liquify
    · rw [if_neg (fun h => hle h.2.2), require_of hready, require_of_not hle]
      exact follows_reverted
  · rw [if_neg (fun h => hready ⟨h.1, h.2.1⟩), require_of_not hready]
    exact follows_reverted

theorem follows_launch (replies : RouterReplies) (s : State)
    (sender : Address) (value : Nat) :
    Follows D (launch D s sender value)
      (LiquidityToken.launch D (uniswapV2 D replies) s sender value) := by
  unfold launch LiquidityToken.launch
  by_cases howner : sender = s.owner
  · by_cases hlaunched : s.launched = false
    · by_cases hvalue : value ≠ 0
      · rw [if_pos ⟨howner, hlaunched, hvalue⟩, require_of howner,
          require_of hlaunched, require_of hvalue]
        simp only [Option.bind_eq_bind, Option.bind_some]
        cases hadd : (uniswapV2 D replies).addLiquidityETH
          { s with launched := true, ethBalance := s.ethBalance - value }
          value (s.balances D.self) (s.balances D.self) value with
        | none => exact Follows.reverts follows_reverted
        | some reply =>
            obtain ⟨s₁, t, e, liquidity⟩ := reply
            obtain ⟨moves, hmoves⟩ := run_add hadd
            exact Follows.calls (.returns (some (t, e, liquidity))) hmoves
              (follows_ofOption _)
      · rw [if_neg (fun h => hvalue h.2.2), require_of howner,
          require_of hlaunched, require_of_not hvalue]
        exact follows_reverted
    · rw [if_neg (fun h => hlaunched h.2.1), require_of howner,
        require_of_not hlaunched]
      exact follows_reverted
  · rw [if_neg (fun h => howner h.1), require_of_not howner]
    exact follows_reverted

theorem follows_exec (s : State) (tx : Tx) :
    Follows D (exec D s tx.sender tx.value tx.call)
      (LiquidityToken.exec D s tx) := by
  obtain ⟨sender, value, call, replies⟩ := tx
  cases call with
  | transfer dst amount =>
      by_cases hvalue : value = 0
      · simp only [exec, LiquidityToken.exec, hvalue, if_true]
        exact follows_transferFromTo replies s sender dst amount
      · simp only [exec, LiquidityToken.exec, hvalue, if_false]
        exact follows_reverted
  | transferFrom src dst amount =>
      by_cases hvalue : value = 0
      · simp only [exec, LiquidityToken.exec, hvalue, if_true, transferFrom]
        cases spendAllowance s src sender amount with
        | none => exact follows_reverted
        | some s₁ => exact follows_transferFromTo replies s₁ src dst amount
      · simp only [exec, LiquidityToken.exec, hvalue, if_false]
        exact follows_reverted
  | launch => exact follows_launch replies (receive s value) sender value
  | liquify =>
      by_cases hvalue : value = 0
      · simp only [exec, LiquidityToken.exec, hvalue, if_true]
        exact follows_liquify replies s
      · simp only [exec, LiquidityToken.exec, hvalue, if_false]
        exact follows_reverted
  | _ =>
      simp only [exec]
      exact follows_ofOption _

theorem step_refined (s : State) (tx : Tx) : ∃ moves,
    run (step D) ⟨s, []⟩ (.call tx.sender tx.value tx.call :: moves) =
      ⟨LiquidityToken.step D s tx, []⟩ := by
  obtain ⟨moves, hmoves⟩ := follows_exec s tx
  exact ⟨moves, hmoves s []⟩

/-! ## Runs -/

theorem resume_reverts {point : Point} {next : Continuation} {before : State}
    (h : point.next? = some next) :
    point.resume D before s .reverts = unlock D before next := by
  cases point <;> cases h <;> rfl

theorem inv_settle {entry : State} {outcome : Outcome}
    (hentry : Locks rest entry) (hrest : Restores rest)
    (h : outcome.Locks rest) : Inv (settle entry rest outcome) := by
  cases outcome with
  | done s => exact ⟨h, hrest⟩
  | reverted => exact ⟨hentry, hrest⟩
  | calls before request point => exact ⟨h entry, h entry, hentry, hrest⟩

theorem step_inv {c : Config} (hinv : Inv c) (move : Move) :
    Inv (step D c move) := by
  obtain ⟨s, stack⟩ := c
  obtain ⟨hlock, hframes⟩ := hinv
  cases move with
  | call sender value call =>
      exact inv_settle hlock hframes (locks_exec sender value call hlock)
  | enter =>
      refine ⟨?_, hlock, hframes⟩
      rw [step, Locks, activations_foreign]
      exact hlock
  | reply reply =>
      cases stack with
      | nil => exact ⟨hlock, hframes⟩
      | cons frame rest =>
          cases frame with
          | foreign before =>
              cases reply with
              | exhausts => exact ⟨hframes.1, hframes.2⟩
              | reverts => exact ⟨hframes.1, hframes.2⟩
              | returns data =>
                  rw [Locks, activations_foreign] at hlock
                  exact ⟨hlock, hframes.2⟩
          | router request point entry before =>
              obtain ⟨hbefore, hentry, hrest⟩ := hframes
              exact inv_settle hentry hrest
                (locks_pointResume reply hlock hbefore)

theorem run_inv (hfree : s.inSwap = false) (moves : List Move) :
    Inv (run (step D) ⟨s, []⟩ moves) := by
  have hinit : Inv ⟨s, []⟩ := ⟨by rw [Locks, hfree]; rfl, trivial⟩
  exact run_invariant (fun (c : Config) move (hinv : Inv c) =>
    step_inv hinv move) hinit moves

theorem settle_suffix {entry caller before : State} {base : List Frame}
    {outcome : Outcome} {request : RouterCall} {point : Point}
    (h : .router request point entry before :: rest <:+
      (settle caller base outcome).stack) :
    .router request point entry before :: rest <:+ base ∨
      settle caller base outcome =
        ⟨called before request, .router request point entry before :: rest⟩ := by
  cases outcome with
  | done s => exact .inl h
  | reverted => exact .inl h
  | calls before' request' point' =>
      rcases List.suffix_cons_iff.mp h with heq | hbase
      · injection heq with hframe hrest
        injection hframe
        subst_vars
        exact .inr rfl
      · exact .inl hbase

theorem step_suffix {c : Config} {move : Move} {entry before : State}
    {request : RouterCall} {point : Point}
    (h : .router request point entry before :: rest <:+
      (step D c move).stack) :
    .router request point entry before :: rest <:+ c.stack ∨
      step D c move =
        ⟨called before request, .router request point entry before :: rest⟩ := by
  obtain ⟨s, stack⟩ := c
  cases move with
  | call sender value call => exact settle_suffix h
  | enter =>
      rcases List.suffix_cons_iff.mp h with heq | hstack
      · injection heq with hframe
        cases hframe
      · exact .inl hstack
  | reply reply =>
      cases stack with
      | nil => exact .inl h
      | cons frame rest' =>
          cases frame with
          | foreign before =>
              cases reply with
              | exhausts => exact .inl (h.trans (List.suffix_cons _ _))
              | reverts => exact .inl (h.trans (List.suffix_cons _ _))
              | returns data => exact .inl (h.trans (List.suffix_cons _ _))
          | router request point entry before =>
              exact (settle_suffix h).imp_left
                fun h => h.trans (List.suffix_cons _ _)

theorem run_called (s : State) (moves : List Move) {entry before : State}
    {request : RouterCall} {point : Point}
    (h : .router request point entry before :: rest <:+
      (run (step D) ⟨s, []⟩ moves).stack) :
    ∃ earlier later, moves = earlier ++ later ∧
      run (step D) ⟨s, []⟩ earlier =
        ⟨called before request, .router request point entry before :: rest⟩ := by
  induction moves using List.reverseRecOn with
  | nil => exact absurd (List.suffix_nil.mp h) (List.cons_ne_nil _ _)
  | append_singleton moves move ih =>
      rw [run_append] at h
      rcases step_suffix h with hearlier | hpushed
      · obtain ⟨earlier, later, rfl, hrun⟩ := ih hearlier
        exact ⟨earlier, later ++ [move], List.append_assoc _ _ _, hrun⟩
      · refine ⟨moves ++ [move], [], (List.append_nil _).symm, ?_⟩
        rw [run_append]
        exact hpushed

/--
The lock, whatever routers and other foreign code do.  It is open when no call
is left, an activation of `_liquify` is on the call stack exactly while it is
taken, and there is never a second one.  When the call of the router reverts for
which `_liquify` waits, the token goes on from the state in which it made that
call, with the lock open.
-/
theorem run_lock (supply creatorBps : Nat) (s₀ : State)
    (hconstruct : construct D Router.reverting supply creatorBps = some s₀)
    (moves : List Move) :
    let c := run (step D) ⟨s₀, []⟩ moves
    (c.stack = [] → c.state.inSwap = false) ∧
      activations c.stack ≤ 1 ∧
      (c.state.inSwap = true ↔ activations c.stack = 1) ∧
      ∀ request point entry before rest next,
        c.stack = .router request point entry before :: rest →
        point.next? = some next →
        step D c (.reply .reverts) = settle entry rest
            (.ofOption (next.resume D { before with inSwap := false })) ∧
          (step D c (.reply .reverts)).state.inSwap = false ∧
          ∃ earlier later, moves = earlier ++ later ∧
            run (step D) ⟨s₀, []⟩ earlier =
              ⟨called before request, c.stack⟩ := by
  intro c
  obtain ⟨total, creatorAmt, -, hs₀⟩ := construct_eq_some hconstruct
  have hfree : s₀.inSwap = false := by rw [hs₀]; rfl
  have hinv : Inv c := run_inv hfree moves
  have hlock : activations c.stack = c.state.inSwap.toNat := hinv.lock
  have hle := Bool.toNat_le c.state.inSwap
  refine ⟨?_, by omega, ?_, ?_⟩
  · intro hstack
    rw [hstack] at hlock
    exact Bool.toNat_eq_zero.mp hlock.symm
  · rw [hlock, Bool.toNat_eq_one]
  · intro request point entry before rest next hstack hnext
    have hstep : step D c (.reply .reverts) = settle entry rest
        (.ofOption (next.resume D { before with inSwap := false })) := by
      rw [step_reply_router hstack, resume_reverts hnext, unlock]
    have hnone : activations rest = 0 := by
      rw [hstack, activations_router, hnext] at hlock
      simp only [Option.isSome_some, if_true] at hlock
      omega
    refine ⟨hstep, ?_, ?_⟩
    · have hafter : Inv (step D c (.reply .reverts)) := step_inv hinv _
      have hopen := hafter.lock
      rw [hstep, settle_ofOption] at hopen ⊢
      exact Bool.toNat_eq_zero.mp (hopen.symm.trans hnone)
    · rw [hstack]
      exact run_called s₀ moves (hstack ▸ List.suffix_rfl)

def sampleMoves : List Move :=
  [.call 4 (10 ^ 18) .launch, .call 2 0 (.transferFrom 1 3 (10 ^ 27)),
   .reply (.returns (some (10 ^ 27, 10 ^ 18, 1))),
   .call 3 0 (.transfer 5 (5 * 10 ^ 26)), .call 5 0 (.transfer 3 (10 ^ 26)),
   .enter, .call 5 0 .liquify, .call 2 0 (.transferFrom 1 3 (25 * 10 ^ 22)),
   .reply (.returns none), .reply .reverts]

theorem run_lock_sample :
    ∃ s₀, construct sampleDeployment Router.reverting (10 ^ 9) 0 = some s₀ ∧
      let during := run (step sampleDeployment) ⟨s₀, []⟩ (sampleMoves.take 8)
      let after := run (step sampleDeployment) ⟨s₀, []⟩ sampleMoves
      during.state.inSwap = true ∧ activations during.stack = 1 ∧
        after.state.inSwap = false ∧ after.state.balances 5 = 395 * 10 ^ 24 := by
  obtain ⟨s₀, h⟩ : ∃ s₀, construct sampleDeployment Router.reverting (10 ^ 9) 0
      = some s₀ := Option.isSome_iff_exists.mp (by decide)
  have hstate := Option.some.inj h
  have hduring := run_lock (10 ^ 9) 0 s₀ h (sampleMoves.take 8)
  have hafter := run_lock (10 ^ 9) 0 s₀ h sampleMoves
  have hcount : activations (run (step sampleDeployment) ⟨s₀, []⟩
      (sampleMoves.take 8)).stack = 1 := by
    subst hstate
    decide
  refine ⟨s₀, h, hduring.2.2.1.mpr hcount, hcount, hafter.1 ?_, ?_⟩
  · apply List.eq_nil_of_length_eq_zero
    subst hstate
    decide
  · subst hstate
    decide

end IreBlockchain.LiquidityToken.Reentrancy

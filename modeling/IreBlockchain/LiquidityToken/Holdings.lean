import IreBlockchain.LiquidityToken.Sells

/-!
# What a holder can lose

A holder who makes no calls can lose tokens only to those it has approved, and
never more of them than its allowances go down by.  Neither fees, nor the
automatic liquidity, nor the owner reach beyond that.
-/

namespace IreBlockchain.LiquidityToken

open IreBlockchain.Foundation

variable {D : Deployment} {s s' : State} {txs : List Tx} {holder : Address}

/-- What all spenders together may still take, unlimited allowances aside. -/
def State.allowed (s : State) (holder : Address) : Nat :=
  ∑ spender, s.allowances holder spender

structure Kept (holder : Address) (s s' : State) : Prop where
  allowances : ∀ spender,
    s'.allowances holder spender ≤ s.allowances holder spender
  balance : s.balances holder + s'.allowed holder ≤
    s'.balances holder + s.allowed holder

theorem Kept.refl (holder : Address) (s : State) : Kept holder s s :=
  ⟨fun _ => le_refl _, le_refl _⟩

theorem Kept.trans {s'' : State} (h : Kept holder s s')
    (h' : Kept holder s' s'') : Kept holder s s'' := by
  constructor
  · exact fun spender => le_trans (h'.allowances spender) (h.allowances spender)
  · have hfirst := h.balance
    have hsecond := h'.balance
    omega

theorem allowed_le (holder : Address)
    (h : AllowancesLe s'.allowances s.allowances) :
    s'.allowed holder ≤ s.allowed holder :=
  Finset.sum_le_sum fun spender _ => h holder spender

theorem Kept.of_le (hallowances : AllowancesLe s'.allowances s.allowances)
    (hbalance : s.balances holder ≤ s'.balances holder) :
    Kept holder s s' := by
  constructor
  · exact hallowances holder
  · have hallowed := allowed_le holder hallowances
    omega

theorem move?_le_add {b b' : Balances Address} {src dst : Address}
    {value : Nat} (h : b.move? src dst value = some b') (holder : Address) :
    b holder ≤ b' holder + if holder = src then value else 0 := by
  have happly := Balances.move?_apply h holder
  omega

/-! ## Transfers -/

theorem Liquified.kept {taken added : Nat}
    (h : Liquified D s s' taken added) (hself : holder ≠ D.self) :
    Kept holder s s' := by
  apply Kept.of_le h.allowances
  have hmoved := move?_le_add h.moved holder
  rw [if_neg hself] at hmoved
  exact hmoved

theorem Charged.loss_le {src dst : Address} {value : Nat} {mid : State}
    {paid : Balances Address} {replies : RouterReplies}
    (h : Charged D replies s s' src dst value mid paid)
    (hself : holder ≠ D.self) :
    s.balances holder ≤
      s'.balances holder + if holder = src then value else 0 := by
  obtain ⟨taken, added, hliquified⟩ := h.liquified
  obtain ⟨b, hb, rfl⟩ := h.rest
  have hmid := move?_le_add hliquified.moved holder
  have hfee := move?_le_add h.fee holder
  have hrest := move?_le_add hb holder
  rw [if_neg hself] at hmid
  change s.balances holder ≤ b holder + _
  by_cases hsrc : holder = src
  · rw [if_pos hsrc] at hfee hrest ⊢
    omega
  · rw [if_neg hsrc] at hfee hrest ⊢
    omega

theorem update_loss_le {replies : RouterReplies} {src dst : Address}
    {value : Nat} (h : update D (uniswapV2 D replies) s src dst value = some s')
    (hsrc : src ≠ 0) (hdst : dst ≠ 0) (hlock : s.inSwap = false)
    (hself : holder ≠ D.self) :
    AllowancesLe s'.allowances s.allowances ∧ s.balances holder ≤
      s'.balances holder + if holder = src then value else 0 := by
  rcases update_eq_some hsrc hdst hlock h with
    ⟨-, mid, paid, hcharged⟩ | ⟨-, b, hmove, rfl⟩
  · refine ⟨?_, hcharged.loss_le hself⟩
    obtain ⟨taken, added, hliquified⟩ := hcharged.liquified
    obtain ⟨b, -, rfl⟩ := hcharged.rest
    exact hliquified.allowances
  · refine ⟨?_, move?_le_add hmove holder⟩
    rw [noteDonation_eq]
    exact .refl _

theorem allowed_allow {owner spender : Address} {value : Nat}
    (hle : value ≤ s.allowances owner spender) :
    (s.allow owner spender (s.allowances owner spender - value)).allowed holder +
      (if holder = owner then value else 0) = s.allowed holder := by
  unfold State.allowed State.allow
  by_cases howner : holder = owner
  · subst howner
    have hback : s.allowances holder =
        Balances.credit (Function.update (s.allowances holder) spender
          (s.allowances holder spender - value)) spender value := by
      funext other
      rw [Balances.credit_apply]
      by_cases hother : other = spender
      · subst hother
        simp
        omega
      · simp [hother]
    have hsum : s.allowed holder = _ :=
      (congrArg (fun b : Balances Address => ∑ other, b other) hback).trans
        (Balances.sum_credit _ spender value)
    rw [State.allowed] at hsum
    rw [hsum, if_pos rfl]
    simp
  · simp [howner]

theorem spendAllowance_allowed {owner spender : Address} {value : Nat}
    (h : spendAllowance s owner spender value = some s')
    (hfinite : holder = owner → s.allowances owner spender < uint256Size - 1) :
    AllowancesLe s'.allowances s.allowances ∧
      s'.allowed holder + (if holder = owner then value else 0) =
        s.allowed holder := by
  obtain ⟨-, a, ha, hstate⟩ := spendAllowance_eq_some h
  refine ⟨by rw [hstate]; exact ha, ?_⟩
  simp only [spendAllowance] at h
  split at h
  next =>
    simp only [Option.bind_eq_bind, Option.bind_eq_some_iff,
      require_eq_some_iff, Option.some.injEq] at h
    obtain ⟨-, hle, rfl⟩ := h
    exact allowed_allow hle
  next hmax =>
    cases h
    have howner : holder ≠ owner := fun heq => hmax (hfinite heq)
    rw [if_neg howner, Nat.add_zero]

/-- The holder does not call, and has no unlimited allowance for who does. -/
structure Idle (s : State) (holder : Address) (tx : Tx) : Prop where
  sender_ne : tx.sender ≠ holder
  finite : s.allowances holder tx.sender < uint256Size - 1

theorem transfer_kept {tx : Tx} {src dst : Address} {value : Nat}
    (hlock : s.inSwap = false) (hself : holder ≠ D.self)
    (htx : tx.transfers = some (src, dst, value)) (hsrc : holder ≠ src)
    (h : exec D s tx = some s') : Kept holder s s' := by
  obtain ⟨hsrc₀, hdst, -, a, ha, hupdate⟩ := exec_transfers htx h
  obtain ⟨hallowances, hloss⟩ := update_loss_le hupdate hsrc₀ hdst hlock hself
  rw [if_neg hsrc] at hloss
  exact .of_le (hallowances.trans ha) hloss

theorem transferFrom_kept {sender dst : Address} {value : Nat}
    {replies : RouterReplies} (hlock : s.inSwap = false)
    (hself : holder ≠ D.self)
    (hfinite : s.allowances holder sender < uint256Size - 1)
    (h : transferFrom D (uniswapV2 D replies) s sender holder dst value =
      some s') : Kept holder s s' := by
  simp only [transferFrom, Option.bind_eq_bind, Option.bind_eq_some_iff,
    transferFromTo, require_eq_some_iff] at h
  obtain ⟨s₁, hspend, -, hsrc, -, hdst, hupdate⟩ := h
  obtain ⟨hspent, hallowed⟩ := spendAllowance_allowed hspend fun _ => hfinite
  obtain ⟨-, a, -, rfl⟩ := spendAllowance_eq_some hspend
  obtain ⟨hallowances, hloss⟩ := update_loss_le hupdate hsrc hdst hlock hself
  rw [if_pos rfl] at hallowed hloss
  constructor
  · exact (hallowances.trans hspent) holder
  · have hle := allowed_le holder hallowances
    change s.balances holder ≤ _ at hloss
    omega

theorem exec_kept {tx : Tx} (hlock : s.inSwap = false)
    (hself : holder ≠ D.self) (hidle : Idle s holder tx)
    (h : exec D s tx = some s') : Kept holder s s' := by
  cases completed_of_exec h with
  | @transfer src dst value a htx hallows ha hsrc hdst hupdate =>
      by_cases hholder : holder = src
      · obtain ⟨sender, ethers, call, replies⟩ := tx
        subst hholder
        cases call <;> simp only [Tx.transfers, Option.some.injEq,
          Prod.mk.injEq, reduceCtorEq] at htx
        case transfer => exact absurd htx.1 hidle.sender_ne
        case transferFrom =>
          obtain ⟨rfl, rfl, rfl⟩ := htx
          simp only [exec, Option.bind_eq_bind, Option.bind_eq_some_iff] at h
          obtain ⟨-, -, h⟩ := h
          exact transferFrom_kept hlock hself hidle.finite h
      · exact transfer_kept hlock hself htx hholder h
  | launch htx h =>
      obtain ⟨-, -, b, a, e, hmove, ha, rfl⟩ := launch_eq_some h
      apply Kept.of_le ha
      have hmoved := move?_le_add hmove holder
      rwa [if_neg hself] at hmoved
  | liquify htx h =>
      obtain ⟨-, taken, added, hliquified⟩ := liquify_eq_some h
      exact hliquified.kept hself
  | other htx hlaunch h ha ho =>
      subst h
      have hsame := ha holder (Ne.symm hidle.sender_ne)
      constructor
      · intro spender
        exact le_of_eq (congrFun hsame spender)
      · simp only [State.allowed, hsame]
        exact le_refl _

/-! ## Runs -/

theorem step_kept {tx : Tx} (hlock : s.inSwap = false)
    (hself : holder ≠ D.self) (hidle : Idle s holder tx) :
    Kept holder s (step D s tx) := by
  unfold step
  cases h : exec D s tx with
  | none => exact .refl holder s
  | some s' => exact exec_kept hlock hself hidle h

theorem run_kept (hinv : Inv D s) (hself : holder ≠ D.self)
    (hext : ∀ tx ∈ txs, tx.External D) (hidle : ∀ tx ∈ txs, Idle s holder tx) :
    Kept holder s (run (step D) s txs) := by
  induction txs generalizing s with
  | nil => exact .refl holder s
  | cons tx txs ih =>
      have hstep : Kept holder s (step D s tx) :=
        step_kept hinv.unlocked hself (hidle tx List.mem_cons_self)
      have hlater : ∀ later ∈ txs, Idle (step D s tx) holder later := by
        intro later hlater
        have h := hidle later (List.mem_cons_of_mem tx hlater)
        exact ⟨h.sender_ne, lt_of_le_of_lt (hstep.allowances _) h.finite⟩
      exact hstep.trans (ih (step_inv (hext tx List.mem_cons_self) hinv)
        (fun later h => hext later (List.mem_cons_of_mem tx h)) hlater)

/--
Whatever others do with the token, and whatever the router answers, a holder
who makes no calls loses no more than its allowances go down by.
-/
theorem idle_holder_keeps (hreach : Reachable D s)
    (hself : holder ≠ D.self) (hext : ∀ tx ∈ txs, tx.External D)
    (hidle : ∀ tx ∈ txs, Idle s holder tx) :
    (∀ spender, (run (step D) s txs).allowances holder spender ≤
      s.allowances holder spender) ∧
    s.balances holder ≤ (run (step D) s txs).balances holder +
      ∑ spender, (s.allowances holder spender -
        (run (step D) s txs).allowances holder spender) := by
  have hkept := run_kept hreach.inv hself hext hidle
  refine ⟨hkept.allowances, ?_⟩
  have hbalance := hkept.balance
  rw [State.allowed, State.allowed] at hbalance
  rw [Finset.sum_tsub_distrib _ fun spender _ => hkept.allowances spender]
  omega

theorem idle_holder_keeps_sample :
    ∃ s, Reachable sampleDeployment s ∧
      let txs : List Tx :=
        [⟨6, 0, .transferFrom 5 3 30, .reverts, .reverts⟩,
          ⟨6, 0, .transferFrom 5 7 20, .reverts, .reverts⟩]
      let final := run (step sampleDeployment) s txs
      s.allowances 5 6 = 40 ∧ final.balances 5 + 30 = s.balances 5 ∧
        s.balances 5 ≤ final.balances 5 + ∑ spender,
          (s.allowances 5 spender - final.allowances 5 spender) := by
  obtain ⟨s₀, h⟩ : ∃ s₀, construct sampleDeployment Router.reverting (10 ^ 9) 0
      = some s₀ := Option.isSome_iff_exists.mp (by decide)
  have hstate := Option.some.inj h
  let earlier : List Tx := sampleTxs.take 2 ++
    [⟨5, 0, .approve 6 40, .reverts, .reverts⟩]
  let s := run (step sampleDeployment) s₀ earlier
  have hearlier : ∀ tx ∈ earlier, tx.External sampleDeployment := by
    intro tx htx
    cases List.mem_append.mp htx with
    | inl htx => exact sampleTxs_external tx (List.mem_of_mem_take htx)
    | inr htx =>
        rw [List.mem_singleton.mp htx]
        exact ⟨by decide, by decide, by simp⟩
  have hreach : Reachable sampleDeployment s :=
    ⟨10 ^ 9, 0, s₀, earlier, h, hearlier, rfl⟩
  have hallowance : s.allowances 5 6 = 40 := by
    subst hstate
    decide +kernel
  refine ⟨s, hreach, hallowance, by subst hstate; decide +kernel, ?_⟩
  apply (idle_holder_keeps hreach (by decide) _ _).2
  · intro tx htx
    simp only [List.mem_cons, List.not_mem_nil, or_false] at htx
    rcases htx with rfl | rfl
    · exact ⟨by decide, by decide, by simp; decide⟩
    · exact ⟨by decide, by decide, by simp; decide⟩
  · intro tx htx
    simp only [List.mem_cons, List.not_mem_nil, or_false] at htx
    rcases htx with rfl | rfl
    · exact ⟨by decide, by rw [hallowance]; decide⟩
    · exact ⟨by decide, by rw [hallowance]; decide⟩

end IreBlockchain.LiquidityToken

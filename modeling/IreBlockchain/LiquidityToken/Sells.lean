import IreBlockchain.LiquidityToken.FeeLaw
import IreBlockchain.LiquidityToken.Ownership

/-!
# A sell is never blocked

Whatever the router did during earlier sells, and whatever it does during this
one, a holder can sell what it holds.
-/

namespace IreBlockchain.LiquidityToken

open IreBlockchain.Foundation

variable {D : Deployment} {s s' : State} {txs : List Tx}

/-! ## Runs from a launched state -/

theorem Reachable.run (hreach : Reachable D s)
    (hext : ∀ tx ∈ txs, tx.External D) : Reachable D (run (step D) s txs) := by
  obtain ⟨supply, creatorBps, s₀, earlier, hinit, hearlier, rfl⟩ := hreach
  refine ⟨supply, creatorBps, s₀, earlier ++ txs, hinit, ?_, ?_⟩
  · intro tx htx
    cases List.mem_append.mp htx with
    | inl hmem => exact hearlier tx hmem
    | inr hmem => exact hext tx hmem
  · rw [run_append]

theorem step_stays_launched (tx : Tx) (hlock : s.inSwap = false)
    (hlaunched : s.launched = true) : (step D s tx).launched = true := by
  have hcount := step_launched (D := D) tx hlock
  rw [hlaunched] at hcount
  cases hnow : (step D s tx).launched with
  | true => rfl
  | false =>
      rw [hnow, Bool.toNat_true, Bool.toNat_false] at hcount
      omega

theorem run_stays_launched (hext : ∀ tx ∈ txs, tx.External D)
    (hinv : Inv D s) (hlaunched : s.launched = true) :
    (run (step D) s txs).launched = true := by
  induction txs generalizing s with
  | nil => exact hlaunched
  | cons tx txs ih =>
      have htx : tx.External D := hext tx List.mem_cons_self
      exact ih (fun tx htx => hext tx (List.mem_cons_of_mem _ htx))
        (step_inv htx hinv) (step_stays_launched tx hinv.unlocked hlaunched)

/-! ## Sells -/

def sell (D : Deployment) (holder : Address) (value : Nat)
    (replies : RouterReplies) : Tx :=
  ⟨holder, 0, .transfer D.pair value, replies⟩

structure Holder (D : Deployment) (holder : Address) : Prop where
  ne_zero : holder ≠ 0
  ne_self : holder ≠ D.self
  ne_pair : holder ≠ D.pair

theorem sell_external {holder : Address} (hholder : Holder D holder)
    (value : Nat) (replies : RouterReplies) :
    (sell D holder value replies).External D where
  sender_ne_zero := hholder.ne_zero
  sender_ne_self := hholder.ne_self
  router_pulls_own_caller := nofun

theorem sell_completes (hreach : Reachable D s) (hlaunched : s.launched = true)
    {holder : Address} (hholder : Holder D holder) {value : Nat}
    (hvalue : value ≤ s.balances holder) {replies : RouterReplies}
    (hfit : s.CountersFit replies value) :
    ∃ s', exec D s (sell D holder value replies) = some s' ∧
      s'.balances holder + value = s.balances holder := by
  have hpermitted : (sell D holder value replies).Permitted s holder D.pair
      value :=
    ⟨hholder.ne_zero, D.pair_ne_zero, rfl, .inl rfl, hfit⟩
  obtain ⟨s', hexec⟩ := exec_isSome hreach.inv rfl hholder.ne_pair
    hholder.ne_self hvalue hpermitted
  obtain ⟨taken, added, -, htaxed⟩ := (exec_taxes hreach.inv hlaunched rfl
    hholder.ne_pair hholder.ne_self D.pair_ne_self hexec).1 (.inr rfl)
  exact ⟨s', hexec, htaxed.sender⟩

/--
After any calls to the launched token, whatever the router answered during
each of them, a holder's sell does not revert and takes exactly what is sold
from the holder.
-/
theorem run_sell_completes (hreach : Reachable D s)
    (hlaunched : s.launched = true) (hext : ∀ tx ∈ txs, tx.External D)
    (holder : Address) (hholder : Holder D holder) (value : Nat)
    (hvalue : value ≤ (run (step D) s txs).balances holder)
    (replies : RouterReplies)
    (hfit : (run (step D) s txs).CountersFit replies value) :
    ∃ s', exec D (run (step D) s txs) (sell D holder value replies) =
        some s' ∧
      s'.balances holder + value = (run (step D) s txs).balances holder :=
  sell_completes (hreach.run hext)
    (run_stays_launched hext hreach.inv hlaunched) hholder hvalue hfit

theorem run_sell_completes_sample :
    ∃ s s', Reachable sampleDeployment s ∧
      exec sampleDeployment s
        (sell sampleDeployment 5 (10 ^ 26) ⟨.swaps 7, .adds 0 14 1⟩) =
          some s' ∧
      s.ethBalance = 7 ∧ s'.balances 5 + 10 ^ 26 = s.balances 5 := by
  obtain ⟨s₀, h⟩ : ∃ s₀, construct sampleDeployment Router.reverting (10 ^ 9) 0
      = some s₀ := Option.isSome_iff_exists.mp (by decide)
  have hstate := Option.some.inj h
  let s := run (step sampleDeployment) s₀ (sampleTxs.take 2)
  let txs := [sell sampleDeployment 5 (10 ^ 26) ⟨.reverts, .reverts⟩,
    sell sampleDeployment 5 (10 ^ 26) ⟨.swaps 7, .reverts⟩]
  have hreach : Reachable sampleDeployment s :=
    ⟨10 ^ 9, 0, s₀, sampleTxs.take 2, h,
      fun tx htx => sampleTxs_external tx (List.mem_of_mem_take htx), rfl⟩
  have hholder : Holder sampleDeployment 5 :=
    ⟨by decide, by decide, by decide⟩
  have hext : ∀ tx ∈ txs, tx.External sampleDeployment := by
    intro tx htx
    simp only [txs, List.mem_cons, List.not_mem_nil, or_false] at htx
    rcases htx with rfl | rfl <;> exact sell_external hholder _ _
  obtain ⟨s', hexec, hdebit⟩ := run_sell_completes hreach
    (by subst hstate; decide) hext 5 hholder (10 ^ 26)
    (by subst hstate; decide) ⟨.swaps 7, .adds 0 14 1⟩
    (by subst hstate; decide)
  exact ⟨_, s', hreach.run hext, hexec, by subst hstate; decide, hdebit⟩

end IreBlockchain.LiquidityToken

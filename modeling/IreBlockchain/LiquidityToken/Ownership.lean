import IreBlockchain.LiquidityToken.Conservation

/-!
# One launch, then no owner

`launched` counts the launches that did not revert: it is never reset, and a
launch needs it unset.  The same call gives up the ownership.
-/

namespace IreBlockchain.LiquidityToken

open IreBlockchain.Foundation

variable {D : Deployment} {s s' : State} {txs : List Tx}

def Call.onlyOwner : Call → Bool
  | .launch | .transferOwnership _ | .renounceOwnership => true
  | _ => false

def Launches (D : Deployment) (s : State) (tx : Tx) : Prop :=
  tx.call = .launch ∧ (exec D s tx).isSome

instance (s : State) (tx : Tx) : Decidable (Launches D s tx) :=
  inferInstanceAs (Decidable (_ ∧ _))

def launches (D : Deployment) : State → List Tx → Nat
  | _, [] => 0
  | s, tx :: txs =>
      (if Launches D s tx then 1 else 0) + launches D (step D s tx) txs

/-! ## Steps -/

theorem exec_launched {tx : Tx} (hlock : s.inSwap = false)
    (h : exec D s tx = some s') :
    s'.launched.toNat = s.launched.toNat +
      if tx.call = .launch then 1 else 0 := by
  cases completed_of_exec h with
  | @transfer src dst value a htx hallows ha hsrc hdst h =>
      have hcall : tx.call ≠ .launch := by
        intro hcall
        simp [Tx.transfers, hcall] at htx
      have hlocka : ({ s with allowances := a } : State).inSwap = false := hlock
      rcases update_eq_some hsrc hdst hlocka h with
        ⟨-, mid, paid, hcharged⟩ | ⟨-, b, -, rfl⟩
      · obtain ⟨taken, added, hliq⟩ := hcharged.liquified
        obtain ⟨b, -, rfl⟩ := hcharged.rest
        have hmid : mid.launched = s.launched := hliq.launched
        simp [hcall, hmid]
      · simp [hcall, noteDonation_eq]
  | launch htx h =>
      obtain ⟨⟨-, hlaunched, -⟩, -, b, a, e, -, -, rfl⟩ := launch_eq_some h
      have hfresh : s.launched = false := hlaunched
      simp [htx, hfresh]
  | liquify htx h =>
      obtain ⟨-, taken, added, hliq⟩ := liquify_eq_some h
      simp [htx, hliq.launched]
  | other htx hlaunch h =>
      subst h
      simp [hlaunch]

theorem step_launched (tx : Tx) (hlock : s.inSwap = false) :
    (step D s tx).launched.toNat =
      s.launched.toNat + if Launches D s tx then 1 else 0 := by
  obtain h | ⟨s', h⟩ := Option.eq_none_or_eq_some (exec D s tx)
  · simp [step, Launches, h]
  · simpa [step, Launches, h] using exec_launched hlock h

theorem exec_owner {tx : Tx} (hext : tx.External D) (hlock : s.inSwap = false)
    (howner : s.owner = 0) (h : exec D s tx = some s') : s'.owner = 0 := by
  cases completed_of_exec h with
  | @transfer src dst value a htx hallows ha hsrc hdst h =>
      have hlocka : ({ s with allowances := a } : State).inSwap = false := hlock
      rcases update_eq_some hsrc hdst hlocka h with
        ⟨-, mid, paid, hcharged⟩ | ⟨-, b, -, rfl⟩
      · obtain ⟨taken, added, hliq⟩ := hcharged.liquified
        obtain ⟨b, -, rfl⟩ := hcharged.rest
        exact hliq.owner.trans howner
      · simpa [noteDonation_eq] using howner
  | launch htx h =>
      obtain ⟨-, -, b, a, e, -, -, rfl⟩ := launch_eq_some h
      rfl
  | liquify htx h =>
      obtain ⟨-, taken, added, hliq⟩ := liquify_eq_some h
      exact hliq.owner.trans howner
  | other htx hlaunch h ha ho =>
      subst h
      have hsender : tx.sender ≠ s.owner := howner ▸ hext.sender_ne_zero
      exact (ho.resolve_right hsender).trans howner

theorem step_owner {tx : Tx} (hext : tx.External D) (hlock : s.inSwap = false)
    (h : s.launched = true → s.owner = 0) :
    (step D s tx).launched = true → (step D s tx).owner = 0 := by
  unfold step
  cases hexec : exec D s tx with
  | none => exact h
  | some s' =>
      intro (hlaunched : s'.launched = true)
      by_cases hbefore : s.launched = true
      · exact exec_owner hext hlock (h hbefore) hexec
      · have hcount := exec_launched hlock hexec
        by_cases hcall : tx.call = .launch
        · cases completed_of_exec hexec with
          | launch htx h =>
              obtain ⟨-, -, b, a, e, -, -, rfl⟩ := launch_eq_some h
              rfl
          | transfer htx => simp [Tx.transfers, hcall] at htx
          | liquify htx => simp [hcall] at htx
          | other htx hlaunch => exact absurd hcall hlaunch
        · simp [hcall, hlaunched, hbefore] at hcount

theorem exec_onlyOwner {tx : Tx} (hcall : tx.call.onlyOwner = true)
    (h : exec D s tx = some s') : tx.sender = s.owner := by
  cases hkind : tx.call with
  | launch =>
      simp only [exec, hkind] at h
      exact (launch_eq_some h).1.1
  | transferOwnership newOwner =>
      simp only [exec, hkind, transferOwnership, Option.bind_eq_bind,
        Option.bind_eq_some_iff, require_eq_some_iff] at h
      obtain ⟨-, -, -, hsender, -⟩ := h
      exact hsender
  | renounceOwnership =>
      simp only [exec, hkind, renounceOwnership, Option.bind_eq_bind,
        Option.bind_eq_some_iff, require_eq_some_iff] at h
      obtain ⟨-, -, -, hsender, -⟩ := h
      exact hsender
  | _ =>
      rw [hkind] at hcall
      exact absurd hcall Bool.false_ne_true

theorem exec_unlaunched {tx : Tx} (hext : tx.External D) (hinv : Inv D s)
    (hlaunched : s.launched = false) (hcall : tx.call ≠ .launch)
    (h : exec D s tx = some s') :
    s.balances D.self ≤ s'.balances D.self ∧
      ∀ src dst value, tx.transfers = some (src, dst, value) →
        s.balances.move? src dst value = some s'.balances := by
  cases completed_of_exec h with
  | @transfer src dst value a htx hallows ha hsrc hdst h =>
      have hfree : ¬({ s with allowances := a } : State).Charges D src dst := by
        intro hcharges
        exact Bool.false_ne_true (hlaunched.symm.trans hcharges.2.2)
      obtain ⟨-, b, hmove, rfl⟩ :=
        (update_eq_some hsrc hdst (hinv.of_allowances ha).unlocked
          h).resolve_left
          fun hcharged => hfree hcharged.1
      refine ⟨?_, ?_⟩
      · have hself := hinv.value_eq_zero hext htx hallows
        have := Balances.move?_apply hmove D.self
        by_cases hsrcself : src = D.self
        · simp only [hself hsrcself, ite_self] at this ⊢
          omega
        · simp only [Ne.symm hsrcself, if_false] at this ⊢
          omega
      · intro src' dst' value' htx'
        rw [htx] at htx'
        obtain ⟨rfl, rfl, rfl⟩ := htx'
        exact hmove
  | launch htx => exact absurd htx hcall
  | liquify htx h =>
      obtain ⟨hl, -⟩ := liquify_eq_some h
      exact absurd (hlaunched.symm.trans hl) Bool.false_ne_true
  | other htx hlaunch h =>
      subst h
      exact ⟨le_refl _, by simp [htx]⟩

/-! ## Runs -/

theorem launches_add (hext : ∀ tx ∈ txs, tx.External D) (hinv : Inv D s) :
    (run (step D) s txs).launched.toNat =
      s.launched.toNat + launches D s txs := by
  induction txs generalizing s with
  | nil => rfl
  | cons tx txs ih =>
      have hstep := step_inv (hext tx (by simp)) hinv
      rw [run_cons, ih (fun t ht => hext t (by simp [ht])) hstep,
        step_launched tx hinv.unlocked, launches, Nat.add_assoc]

theorem run_owner (hext : ∀ tx ∈ txs, tx.External D) (hinv : Inv D s)
    (h : s.launched = true → s.owner = 0) :
    (run (step D) s txs).launched = true →
      (run (step D) s txs).owner = 0 := by
  induction txs generalizing s with
  | nil => exact h
  | cons tx txs ih =>
      have htx := hext tx (by simp)
      exact ih (fun t ht => hext t (by simp [ht])) (step_inv htx hinv)
        (step_owner htx hinv.unlocked h)

/--
One launch, then no owner.  At most one launch of a run does not revert.  After
it the owner is the zero address, whatever follows, and no function for the
owner succeeds again.  Before it no fee has been charged, and a call that is no
launch takes no tokens from the contract and moves what it transfers in full.
-/
theorem run_launches_once (supply creatorBps : Nat) (s₀ : State)
    (hconstruct : construct D Router.reverting supply creatorBps = some s₀)
    (txs : List Tx) (hext : ∀ tx ∈ txs, tx.External D) :
    let s := run (step D) s₀ txs
    launches D s₀ txs ≤ 1 ∧
      (launches D s₀ txs = 1 → ∀ later, (∀ tx ∈ later, tx.External D) →
        let s := run (step D) s later
        s.owner = 0 ∧ ∀ tx, tx.External D → tx.call.onlyOwner = true →
          exec D s tx = none) ∧
      (launches D s₀ txs = 0 → s.totalFeesCollected = 0 ∧
        ∀ tx s', tx.External D → tx.call ≠ .launch → exec D s tx = some s' →
          s'.totalFeesCollected = 0 ∧
          s.balances D.self ≤ s'.balances D.self ∧
          ∀ src dst value, tx.transfers = some (src, dst, value) →
            s.balances.move? src dst value = some s'.balances) := by
  intro s
  have hinv₀ := construct_inv hconstruct
  have hinv : Inv D s := run_inv hext hinv₀
  obtain ⟨total, creatorAmt, -, hs₀⟩ := construct_eq_some hconstruct
  have hfresh : s₀.launched = false := by rw [hs₀]; rfl
  have hcount : s.launched.toNat = launches D s₀ txs := by
    rw [launches_add hext hinv₀, hfresh]
    exact Nat.zero_add _
  refine ⟨hcount ▸ Bool.toNat_le _, ?_, ?_⟩
  · intro hone later hlater
    have hlaunched : s.launched = true := by
      rw [hone] at hcount
      exact Bool.toNat_eq_one.mp hcount
    have howner : s.owner = 0 :=
      run_owner hext hinv₀ (by simp [hfresh]) hlaunched
    have hkept := launches_add hlater hinv
    have hstill : (run (step D) s later).launched = true := by
      rw [hlaunched] at hkept
      have := Bool.toNat_le (run (step D) s later).launched
      exact Bool.toNat_eq_one.mp (by simp at hkept; omega)
    have hzero := run_owner hlater hinv (fun _ => howner) hstill
    refine ⟨hzero, fun tx htx hcall => ?_⟩
    by_contra hsome
    obtain ⟨s', h⟩ := Option.ne_none_iff_exists'.mp hsome
    exact htx.sender_ne_zero ((exec_onlyOwner hcall h).trans hzero)
  · intro hzero
    have hunlaunched : s.launched = false :=
      Bool.toNat_eq_zero.mp (hcount.trans hzero)
    refine ⟨(hinv.fresh hunlaunched).2.2.2.2, ?_⟩
    intro tx s' htx hcall h
    have hafter := exec_inv htx hinv h
    have hstill : s'.launched = false := by
      have := exec_launched hinv.unlocked h
      rw [hunlaunched, if_neg hcall] at this
      exact Bool.toNat_eq_zero.mp this
    exact ⟨(hafter.fresh hstill).2.2.2.2,
      exec_unlaunched htx hinv hunlaunched hcall h⟩

def launchTxs : List Tx :=
  [⟨5, 10 ^ 18, .launch, .reverts, .adds (10 ^ 27) (10 ^ 18) 1⟩,
   ⟨4, 0, .transferOwnership 5, .reverts, .reverts⟩,
   ⟨5, 10 ^ 18, .launch, .reverts, .reverts⟩,
   ⟨5, 10 ^ 18, .launch, .reverts, .adds (10 ^ 27) (10 ^ 18) 1⟩,
   ⟨5, 10 ^ 18, .launch, .reverts, .adds (10 ^ 27) (10 ^ 18) 1⟩]

theorem launchTxs_external : ∀ tx ∈ launchTxs, tx.External sampleDeployment := by
  intro tx htx
  simp only [launchTxs, List.mem_cons, List.not_mem_nil, or_false] at htx
  rcases htx with rfl | rfl | rfl | rfl | rfl <;>
    exact ⟨by decide, by decide, by simp⟩

theorem run_launches_once_sample :
    ∃ s₀, construct sampleDeployment Router.reverting (10 ^ 9) 0 = some s₀ ∧
      launches sampleDeployment s₀ launchTxs = 1 ∧
      (run (step sampleDeployment) s₀ launchTxs).owner = 0 := by
  obtain ⟨s₀, h⟩ : ∃ s₀, construct sampleDeployment Router.reverting (10 ^ 9) 0
      = some s₀ := Option.isSome_iff_exists.mp (by decide)
  obtain ⟨-, hafter, -⟩ :=
    run_launches_once (10 ^ 9) 0 s₀ h launchTxs launchTxs_external
  have hstate := Option.some.inj h
  have hone : launches sampleDeployment s₀ launchTxs = 1 := by
    subst hstate
    decide
  exact ⟨s₀, h, hone, (hafter hone [] (by simp)).1⟩

end IreBlockchain.LiquidityToken

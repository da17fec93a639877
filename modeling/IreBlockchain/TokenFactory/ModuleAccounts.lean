import IreBlockchain.TokenFactory.Supply

/-!
# Module accounts and the admin of a denom

A forced transfer is checked against every module account of the app, a burn
only against those that may not receive funds.  The module accounts in between
can be funded by a mint and emptied by a burn.
-/

namespace IreBlockchain.TokenFactory

open IreBlockchain.Foundation

/-- The module accounts that `blockAccAddrs` leaves out. -/
def payableModules : List Text :=
  ["gov".toList, "transfer".toList, "interchainaccounts".toList]

theorem payable_or_blocked {name : Text}
    (h : name ∈ moduleAccPerms.map Prod.fst) :
    name ∈ payableModules ∨ name ∈ blockAccAddrs := by
  revert h
  revert name
  decide

theorem payable_moduleAccPerms {name : Text} (h : name ∈ payableModules) :
    name ∈ moduleAccPerms.map Prod.fst := by
  revert h
  revert name
  decide

variable {Account Bank BankGenesis : Type} [DecidableEq Account]
  {sdk : Sdk Account Bank BankGenesis} {capabilities : List Text}
  {s s' : State Bank}

def ModulesKept (sdk : Sdk Account Bank BankGenesis) (b b' : Bank) : Prop :=
  ∀ name ∈ moduleAccPerms.map Prod.fst, ∀ denom,
    sdk.bankKeeper.balance b (sdk.moduleAddress name) denom ≤
      sdk.bankKeeper.balance b' (sdk.moduleAddress name) denom

def BurnsFromModule (sdk : Sdk Account Bank BankGenesis) (msg : MsgBurn) : Prop :=
  0 < msg.amount.amount ∧ ∃ name ∈ payableModules,
    sdk.codec.accAddressFromBech32 msg.target = .ok (sdk.moduleAddress name)

theorem blockedAddr_of_mem {name : Text} (h : name ∈ blockAccAddrs) :
    (sdk.keeperWith capabilities).blockedAddr (sdk.moduleAddress name) =
      true := by
  simp only [Keeper.blockedAddr, List.any_eq_true, decide_eq_true_eq]
  exact ⟨name, h, rfl⟩

theorem burn_modulesKept_iff (hsdk : sdk.Lawful) {msg : MsgBurn}
    (h : (sdk.keeperWith capabilities).handleBurn s msg = .ok s') :
    ModulesKept sdk s.bank s'.bank ↔ ¬BurnsFromModule sdk msg := by
  obtain ⟨account, coins, bank, hacted, hburned, rfl⟩ :=
    handleBurn_eq_ok hsdk.bank h
  have hbalance := hburned.balance
  have hamount := newCoins_eq_ok hacted.single
  constructor
  · rintro hkept ⟨hpos, name, hname, hdecode⟩
    obtain rfl := Except.ok.inj (hdecode.symm.trans hacted.decoded)
    have hle : sdk.bankKeeper.balance s.bank (sdk.moduleAddress name)
        msg.amount.denom ≤ sdk.bankKeeper.balance bank (sdk.moduleAddress name)
          msg.amount.denom :=
      hkept name (payable_moduleAccPerms hname) msg.amount.denom
    have heq := hbalance (sdk.moduleAddress name) msg.amount.denom
    rw [if_pos rfl, hamount, if_pos rfl] at heq
    simp only [Sdk.keeperWith] at heq
    omega
  · intro hnot name hname denom
    have heq := hbalance (sdk.moduleAddress name) denom
    simp only [Sdk.keeperWith] at heq
    by_cases haccount : sdk.moduleAddress name = account
    · -- The account is not blocked, so it is a payable one.
      subst haccount
      rcases payable_or_blocked hname with hpayable | hblocked
      · have hzero : msg.amount.amount.toNat = 0 := by
          by_contra hne
          exact hnot ⟨by omega, name, hpayable, hacted.decoded⟩
        rw [hamount, hzero] at heq
        simp only [ite_self] at heq
        exact le_of_eq heq.symm
      · have := hacted.unblocked
        rw [blockedAddr_of_mem hblocked] at this
        contradiction
    · rw [if_neg haccount] at heq
      exact le_of_eq heq.symm

theorem forceTransfer_modulesKept (hsdk : sdk.Lawful) {msg : MsgForceTransfer}
    (h : (sdk.keeperWith capabilities).handleForceTransfer s msg = .ok s') :
    ModulesKept sdk s.bank s'.bank := by
  obtain ⟨-, src, dst, coins, bank, -, hperm, -, -, hsent, rfl⟩ :=
    handleForceTransfer_eq_ok hsdk.bank h
  intro name hname denom
  obtain ⟨entry, hentry, rfl⟩ := List.mem_map.mp hname
  have heq := hsent.balance (sdk.moduleAddress entry.1) denom
  have hne : sdk.moduleAddress entry.1 ≠ src := hperm entry hentry
  rw [if_neg hne] at heq
  exact Nat.le.intro heq.symm

/--
Whatever capabilities are enabled, an accepted `Burn` or `ForceTransfer` takes
nothing from a module account of the app, unless it is a burn from one of the
three that the bank may pay.
-/
theorem admin_modulesKept_iff (hsdk : sdk.Lawful) (s s' : State Bank) (tx : Tx)
    (hadmin : (∃ msg, tx.msg = .burn msg) ∨ ∃ msg, tx.msg = .forceTransfer msg)
    (h : (sdk.keeperWith capabilities).handle s tx = .ok s') :
    ModulesKept sdk s.bank s'.bank ↔
      ∀ msg, tx.msg = .burn msg → ¬BurnsFromModule sdk msg := by
  obtain ⟨msg, gas⟩ := tx
  rcases hadmin with ⟨burn, rfl⟩ | ⟨transfer, rfl⟩
  · rw [burn_modulesKept_iff hsdk h]
    simp
  · exact iff_of_true (forceTransfer_modulesKept hsdk h) nofun

/-! ## The governance account on the sample bank -/

def sampleGov : Text := "ire10d07y265gmmuvt4z0w9aw880jnsr700jwqysrg".toList

def sampleDenom : Text :=
  "factory/ire1pchh7j8cr9mndj7d0rfw2pq2lv7gyt67sy0ugm/abc".toList

def sampleFunding : List Tx :=
  [⟨.createDenom ⟨sampleUser, "abc".toList⟩, 2000000⟩,
    ⟨.mint ⟨sampleUser, ⟨sampleDenom, 5⟩, sampleGov⟩, 0⟩]

def sampleBurn : Tx := ⟨.burn ⟨sampleUser, ⟨sampleDenom, 5⟩, sampleGov⟩, 0⟩

theorem sampleFunding_reachable : sampleSdk.keeper.Reachable
    (run sampleSdk.keeper.deliver sampleState sampleFunding) :=
  ⟨⟨sampleState.bank, defaultGenesis⟩, sampleState, sampleFunding, rfl, rfl⟩

theorem sampleBurn_taken :
    let s := run sampleSdk.keeper.deliver sampleState sampleFunding
    let gov := sampleSdk.moduleAddress "gov".toList
    (sampleSdk.keeper.handle s sampleBurn).isOk = true ∧
      ¬ sampleSdk.bankKeeper.balance s.bank gov sampleDenom ≤
        sampleSdk.bankKeeper.balance (sampleSdk.keeper.deliver s sampleBurn).bank gov
          sampleDenom := by
  decide +kernel

theorem burn_empties_governance :
    ¬∀ (Account Bank BankGenesis : Type) [DecidableEq Account]
        (sdk : Sdk Account Bank BankGenesis) (s s' : State Bank) (tx : Tx),
      sdk.Lawful → sdk.keeper.Reachable s → (∃ msg, tx.msg = .burn msg) →
        sdk.keeper.handle s tx = .ok s' → ModulesKept sdk s.bank s'.bank := by
  intro h
  obtain ⟨hok, htaken⟩ := sampleBurn_taken
  exact htaken (h (Fin 11) _ _ sampleSdk _ _ sampleBurn sampleSdk_lawful
    sampleFunding_reachable ⟨_, rfl⟩ (handle_eq_deliver hok) "gov".toList (by decide)
    sampleDenom)

theorem admin_modulesKept_iff_sample :
    let s := run sampleSdk.keeper.deliver sampleState
      [⟨.createDenom ⟨sampleUser, "abc".toList⟩, 2000000⟩,
        ⟨.mint ⟨sampleUser, ⟨sampleDenom, 5⟩, []⟩, 0⟩]
    ModulesKept sampleSdk s.bank (sampleSdk.keeper.deliver s
      ⟨.burn ⟨sampleUser, ⟨sampleDenom, 5⟩, []⟩, 0⟩).bank := by
  intro s
  refine (admin_modulesKept_iff sampleSdk_lawful s _
    ⟨.burn ⟨sampleUser, ⟨sampleDenom, 5⟩, []⟩, 0⟩ (.inl ⟨_, rfl⟩)
    (handle_eq_deliver (by decide +kernel))).mpr ?_
  rintro msg htx ⟨-, name, hname, hdecode⟩
  obtain rfl := Msg.burn.inj htx
  revert hdecode
  revert name
  decide +kernel

end IreBlockchain.TokenFactory

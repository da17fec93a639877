import IreBlockchain.Foundation.Ledger
import IreBlockchain.TokenFactory.ModuleAccounts

/-!
# Supply accounting

Minting and burning pass through the account of the module, and so does a fee
that is burned.  Nobody else can pay it, so it is empty after every message, and
the supply of a denom is what was minted of it less what was burned.
-/

namespace IreBlockchain.TokenFactory

open IreBlockchain.Foundation

variable {Account Bank BankGenesis : Type} [DecidableEq Account]

def distributionName : Text := "distribution".toList

/-- `FundCommunityPool` sends the coins to the account of `x/distribution`. -/
structure Sdk.FundsPool (sdk : Sdk Account Bank BankGenesis) : Prop where
  sent : ∀ b b' coins payer, sdk.fundCommunityPool b coins payer = .ok b' →
    sdk.bankKeeper.Sent b b' payer (sdk.moduleAddress distributionName) coins
  apart : sdk.moduleAddress distributionName ≠ sdk.moduleAddress moduleName

/-! ## Messages and bank sends -/

inductive Event (Account : Type)
  | message (tx : Tx)
  | bankSend (src dst : Account) (coins : Coins)

namespace Keeper

variable (k : Keeper Account Bank BankGenesis)

/-- `MsgSend` of `x/bank`, which does not pay a blocked account. -/
def bankSend (s : State Bank) (src dst : Account) (coins : Coins) :
    Result (State Bank) := do
  ensure (k.blockedAddr dst = false)
    (.plain "is not allowed to receive funds".toList)
  let bank ← k.bankKeeper.sendCoins s.bank src dst coins
  return { s with bank }

def transition (s : State Bank) : Event Account → State Bank
  | .message tx => k.deliver s tx
  | .bankSend src dst coins =>
      match k.bankSend s src dst coins with
      | .ok s' => s'
      | .error _ => s

def accepts (s : State Bank) (tx : Tx) : Bool := (k.handle s tx).isOk

def minted (denom : Text) (s : State Bank) : Event Account → Nat
  | .message tx =>
      match tx.msg with
      | .mint msg =>
          if k.accepts s tx ∧ msg.amount.denom = denom then
            msg.amount.amount.toNat
          else 0
      | _ => 0
  | .bankSend _ _ _ => 0

def burned (denom : Text) (s : State Bank) : Event Account → Nat
  | .message tx =>
      match tx.msg with
      | .burn msg =>
          if k.accepts s tx ∧ msg.amount.denom = denom then
            msg.amount.amount.toNat
          else 0
      | .createDenom _ =>
          if k.accepts s tx ∧ isCapabilityEnabled k.enabledCapabilities
              enableCommunityPoolFeeFunding = false then
            (getParams s.store).denomCreationFee.amountOf denom
          else 0
      | _ => 0
  | .bankSend _ _ _ => 0

end Keeper

/-! ## Books -/

variable {sdk : Sdk Account Bank BankGenesis} {b b' : Bank}

def ModuleEmpty (sdk : Sdk Account Bank BankGenesis) (b : Bank) : Prop :=
  ∀ denom,
    sdk.bankKeeper.balance b (sdk.moduleAddress moduleName) denom = 0

def SupplyHeld (sdk : Sdk Account Bank BankGenesis) (b : Bank) : Prop :=
  ∀ denom, Balances.HoldTotal (fun a => sdk.bankKeeper.balance b a denom)
    (sdk.bankKeeper.supply b denom)

structure Booked (sdk : Sdk Account Bank BankGenesis) (b b' : Bank)
    (minted burned : Text → Nat) : Prop where
  supply : ∀ denom, sdk.bankKeeper.supply b' denom + burned denom =
    sdk.bankKeeper.supply b denom + minted denom
  held : SupplyHeld sdk b → SupplyHeld sdk b'
  module : ModuleEmpty sdk b → ModuleEmpty sdk b'

omit [DecidableEq Account] in
theorem booked_of_same
    (hbalance : sdk.bankKeeper.balance b' = sdk.bankKeeper.balance b)
    (hsupply : sdk.bankKeeper.supply b' = sdk.bankKeeper.supply b) :
    Booked sdk b b' (fun _ => 0) (fun _ => 0) := by
  constructor
  · intro denom
    rw [hsupply]
  · intro hheld denom
    rw [hbalance, hsupply]
    exact hheld denom
  · intro hempty denom
    rw [hbalance]
    exact hempty denom

theorem booked_of_flow {minted burned : Text → Nat} (src dst : Account)
    (out into : Text → Nat)
    (hflow : ∀ account denom, sdk.bankKeeper.balance b' account denom +
        (if account = src then out denom else 0) =
      sdk.bankKeeper.balance b account denom +
        (if account = dst then into denom else 0))
    (hsupply : ∀ denom, sdk.bankKeeper.supply b' denom + burned denom =
      sdk.bankKeeper.supply b denom + minted denom)
    (hnet : ∀ denom, into denom + burned denom = out denom + minted denom)
    (hdst : sdk.moduleAddress moduleName = dst → ∀ denom, into denom = 0) :
    Booked sdk b b' minted burned := by
  refine ⟨hsupply, ?_, ?_⟩
  · intro hheld denom
    obtain ⟨total, htotal, hchange⟩ :=
      (hheld denom).flow fun account => hflow account denom
    have hbooks := hsupply denom
    have hsame := hnet denom
    have heq : total = sdk.bankKeeper.supply b' denom := by omega
    exact heq ▸ htotal
  · intro hempty denom
    have hmodule := hflow (sdk.moduleAddress moduleName) denom
    rw [hempty denom] at hmodule
    by_cases hne : sdk.moduleAddress moduleName = dst
    · rw [hdst hne denom, ite_self] at hmodule
      omega
    · rw [if_neg hne] at hmodule
      omega

theorem booked_of_sent {src dst : Account} {coins : Coins}
    (h : sdk.bankKeeper.Sent b b' src dst coins)
    (hdst : sdk.moduleAddress moduleName ≠ dst) :
    Booked sdk b b' (fun _ => 0) (fun _ => 0) :=
  booked_of_flow src dst coins.amountOf coins.amountOf h.balance
    (fun denom => by rw [h.supply]) (fun _ => rfl)
    fun heq => absurd heq hdst

theorem booked_of_minted {account : Account} {coins : Coins}
    (h : sdk.bankKeeper.Minted b b' account coins)
    (haccount : sdk.moduleAddress moduleName ≠ account) :
    Booked sdk b b' coins.amountOf (fun _ => 0) :=
  booked_of_flow account account (fun _ => 0) coins.amountOf
    (fun other denom => by rw [ite_self, h.balance other denom, Nat.add_zero])
    h.supply (fun denom => by rw [Nat.zero_add, Nat.add_zero])
    fun heq => absurd heq haccount

theorem booked_of_burned {account : Account} {coins : Coins}
    (h : sdk.bankKeeper.Burned b b' account coins) :
    Booked sdk b b' (fun _ => 0) coins.amountOf :=
  booked_of_flow account account coins.amountOf (fun _ => 0)
    (fun other denom => by rw [ite_self, h.balance other denom, Nat.add_zero])
    h.supply (fun denom => by rw [Nat.zero_add, Nat.add_zero]) fun _ _ => rfl

/-! ## Events -/

variable {capabilities : List Text} {s s' : State Bank}

theorem module_ne_of_unblocked {account : Account}
    (h : (sdk.keeperWith capabilities).blockedAddr account = false) :
    sdk.moduleAddress moduleName ≠ account := by
  have hlisted : moduleName ∈ blockAccAddrs := by decide
  rintro rfl
  exact Bool.false_ne_true (h.symm.trans (blockedAddr_of_mem hlisted))

theorem booked_of_createDenom (hsdk : sdk.Lawful) (hpool : sdk.FundsPool)
    {msg : MsgCreateDenom} {gas : Nat} {response : Text}
    (h : (sdk.keeperWith capabilities).handleCreateDenom s msg gas =
      .ok (s', response)) :
    Booked sdk s.bank s'.bank (fun _ => 0) fun denom =>
      if isCapabilityEnabled capabilities enableCommunityPoolFeeFunding = false
        then (getParams s.store).denomCreationFee.amountOf denom else 0 := by
  obtain ⟨creator, s₁, hcreator, -, -, hcharge, hcreate⟩ :=
    handleCreateDenom_charged h
  obtain ⟨-, hpaid⟩ := chargeForCreateDenom_cases (k := sdk.keeperWith
    capabilities) hsdk.bank hcreator hcharge
  obtain ⟨-, rfl⟩ := createDenomAfterValidation_eq_ok hcreate
  have hbalance := hsdk.bank.setBalance s₁.bank (Keeper.denomMetaData response)
  have hsupply := hsdk.bank.setSupply s₁.bank (Keeper.denomMetaData response)
  suffices hfee : Booked sdk s.bank s₁.bank (fun _ => 0) fun denom =>
      if isCapabilityEnabled capabilities enableCommunityPoolFeeFunding = false
        then (getParams s.store).denomCreationFee.amountOf denom else 0 by
    have hset : Booked sdk s₁.bank _ (fun _ => 0) fun _ => 0 :=
      booked_of_same hbalance hsupply
    refine ⟨fun denom => ?_, hset.held ∘ hfee.held, hset.module ∘ hfee.module⟩
    exact (congrArg (· + _) (congrFun hsupply denom)).trans
      (hfee.supply denom)
  rcases hpaid with ⟨hnone, hsame⟩ | ⟨henabled, hfund⟩ | ⟨hdisabled, hburned⟩
  · have hzero : (fun denom => if isCapabilityEnabled capabilities
        enableCommunityPoolFeeFunding = false then
          (getParams s.store).denomCreationFee.amountOf denom else 0) =
        fun _ => 0 := by
      simp [hnone]
    rw [hsame, hzero]
    exact booked_of_same rfl rfl
  · have henabled : isCapabilityEnabled capabilities
        enableCommunityPoolFeeFunding = true := henabled
    simp only [henabled, Bool.true_eq_false, if_false]
    exact booked_of_sent (hpool.sent _ _ _ _ hfund) hpool.apart.symm
  · have hdisabled : isCapabilityEnabled capabilities
        enableCommunityPoolFeeFunding = false := hdisabled
    simp only [hdisabled, if_true]
    exact booked_of_burned hburned

theorem booked_of_handle (hsdk : sdk.Lawful) (hpool : sdk.FundsPool) {tx : Tx}
    (h : (sdk.keeperWith capabilities).handle s tx = .ok s') :
    Booked sdk s.bank s'.bank
      (fun denom => (sdk.keeperWith capabilities).minted denom s (.message tx))
      (fun denom =>
        (sdk.keeperWith capabilities).burned denom s (.message tx)) := by
  have haccepts : (sdk.keeperWith capabilities).accepts s tx = true := by
    rw [Keeper.accepts, h]
    rfl
  obtain ⟨msg, gas⟩ := tx
  cases msg with
  | createDenom msg =>
      obtain ⟨⟨s₂, response⟩, hhandle, rfl⟩ := map_eq_ok_iff.mp h
      simp only [Keeper.minted, Keeper.burned, haccepts, true_and]
      exact booked_of_createDenom hsdk hpool hhandle
  | mint msg =>
      obtain ⟨account, coins, bank, hacted, hminted, rfl⟩ :=
        handleMint_eq_ok (k := sdk.keeperWith capabilities) hsdk.bank h
      simp only [Keeper.minted, Keeper.burned, haccepts, true_and,
        ← newCoins_eq_ok hacted.single]
      exact booked_of_minted hminted (module_ne_of_unblocked hacted.unblocked)
  | burn msg =>
      obtain ⟨account, coins, bank, hacted, hburned, rfl⟩ :=
        handleBurn_eq_ok (k := sdk.keeperWith capabilities) hsdk.bank h
      simp only [Keeper.minted, Keeper.burned, haccepts, true_and,
        ← newCoins_eq_ok hacted.single]
      exact booked_of_burned hburned
  | forceTransfer msg =>
      obtain ⟨-, src, dst, coins, bank, -, -, hblocked, -, hsent, rfl⟩ :=
        handleForceTransfer_eq_ok (k := sdk.keeperWith capabilities) hsdk.bank h
      exact booked_of_sent hsent (module_ne_of_unblocked hblocked)
  | changeAdmin msg =>
      obtain ⟨-, store, -, rfl⟩ := handleChangeAdmin_eq_ok h
      exact booked_of_same rfl rfl
  | setDenomMetadata msg =>
      obtain ⟨-, -, rfl⟩ := handleSetDenomMetadata_eq_ok h
      exact booked_of_same (hsdk.bank.setBalance s.bank msg.metadata)
        (hsdk.bank.setSupply s.bank msg.metadata)
  | updateParams msg =>
      obtain ⟨-, store, -, rfl⟩ := handleUpdateParams_eq_ok h
      exact booked_of_same rfl rfl

theorem booked_of_transition (hsdk : sdk.Lawful) (hpool : sdk.FundsPool)
    (s : State Bank) (event : Event Account) :
    Booked sdk s.bank ((sdk.keeperWith capabilities).transition s event).bank
      (fun denom => (sdk.keeperWith capabilities).minted denom s event)
      (fun denom => (sdk.keeperWith capabilities).burned denom s event) := by
  cases event with
  | message tx =>
      cases h : (sdk.keeperWith capabilities).handle s tx with
      | ok s' =>
          have hnext : (sdk.keeperWith capabilities).transition s
              (.message tx) = s' := by
            simp only [Keeper.transition, Keeper.deliver, h]
          rw [hnext]
          exact booked_of_handle hsdk hpool h
      | error e =>
          have hnext : (sdk.keeperWith capabilities).transition s
              (.message tx) = s := by
            simp only [Keeper.transition, Keeper.deliver, h]
          have hrejects : (sdk.keeperWith capabilities).accepts s tx =
              false := by
            rw [Keeper.accepts, h]
            rfl
          rw [hnext]
          have hsame : Booked sdk s.bank s.bank (fun _ => 0) fun _ => 0 :=
            booked_of_same rfl rfl
          obtain ⟨msg, gas⟩ := tx
          cases msg <;>
            simpa [Keeper.minted, Keeper.burned, hrejects] using hsame
  | bankSend src dst coins =>
      simp only [Keeper.transition]
      split
      next s' h =>
        simp only [Keeper.bankSend, bind_eq_ok_iff, ensure_eq_ok_iff] at h
        obtain ⟨-, hblocked, bank, hsend, h⟩ := h
        obtain rfl := Except.ok.inj h
        exact booked_of_sent (hsdk.bank.sent _ _ _ _ _ hsend)
          (module_ne_of_unblocked hblocked)
      next => exact booked_of_same rfl rfl

/-! ## Runs -/

/--
After any run of messages and bank sends, whatever capabilities are enabled, the
account of the module is empty, the supply of a denom has grown by what was
minted and fallen by what was burned, and it is what all accounts hold.
-/
theorem run_supplyAccounted (hsdk : sdk.Lawful) (hpool : sdk.FundsPool)
    (s : State Bank) (hempty : ModuleEmpty sdk s.bank)
    (hheld : SupplyHeld sdk s.bank) (events : List (Event Account)) :
    let k := sdk.keeperWith capabilities
    let final := run k.transition s events
    ModuleEmpty sdk final.bank ∧
      (∀ denom, (sdk.bankKeeper.supply final.bank denom : Int) =
        sdk.bankKeeper.supply s.bank denom +
          runSum k.transition (k.minted denom) s events -
          runSum k.transition (k.burned denom) s events) ∧
      SupplyHeld sdk final.bank := by
  intro k final
  have hbooked : ∀ s event, Booked sdk s.bank (k.transition s event).bank
      (fun denom => k.minted denom s event)
      (fun denom => k.burned denom s event) :=
    booked_of_transition hsdk hpool
  have hstep : ∀ s event, ModuleEmpty sdk s.bank ∧ SupplyHeld sdk s.bank →
      ModuleEmpty sdk (k.transition s event).bank ∧
        SupplyHeld sdk (k.transition s event).bank := fun s event h =>
    ⟨(hbooked s event).module h.1, (hbooked s event).held h.2⟩
  have hkept := run_invariant hstep ⟨hempty, hheld⟩ events
  refine ⟨hkept.1, ?_, hkept.2⟩
  intro denom
  let supply (s : State Bank) : Nat := sdk.bankKeeper.supply s.bank denom
  have hsupply : ∀ s event,
      supply (k.transition s event) + k.burned denom s event =
        supply s + k.minted denom s event :=
    fun s event => (hbooked s event).supply denom
  have hsum : supply final + runSum k.transition (k.burned denom) s events =
      supply s + runSum k.transition (k.minted denom) s events :=
    run_balance hsupply s events
  change (supply final : Int) = supply s + _ - _
  omega

/-! ## A run on the sample bank -/

theorem sampleSdk_fundsPool : sampleSdk.FundsPool where
  sent b b' coins payer h := by
    have haddress : sampleSdk.moduleAddress distributionName = 1 := by decide
    rw [haddress]
    exact LedgerBank.keeper_lawful.sent _ _ _ _ _ h
  apart := by decide

theorem sampleSdk_supplyHeld (b : LedgerBank (Fin 11)) :
    SupplyHeld sampleSdk b :=
  fun _ => ⟨Set.toFinite _, finsum_eq_sum_of_fintype _⟩

def sampleEvents : List (Event (Fin 11)) :=
  [.message ⟨.createDenom ⟨sampleUser, "abc".toList⟩, 2000000⟩,
    .message ⟨.mint ⟨sampleUser, ⟨sampleDenom, 5⟩, []⟩, 0⟩,
    .bankSend 10 9 [⟨sampleDenom, 5⟩],
    .message ⟨.burn ⟨sampleUser, ⟨sampleDenom, 2⟩, []⟩, 0⟩]

theorem run_supplyAccounted_sample :
    let final := run sampleSdk.keeper.transition sampleState sampleEvents
    ModuleEmpty sampleSdk final.bank ∧
      (∀ denom, (sampleSdk.bankKeeper.supply final.bank denom : Int) =
        sampleSdk.bankKeeper.supply sampleState.bank denom +
          runSum sampleSdk.keeper.transition (sampleSdk.keeper.minted denom)
            sampleState sampleEvents -
          runSum sampleSdk.keeper.transition (sampleSdk.keeper.burned denom)
            sampleState sampleEvents) ∧
      SupplyHeld sampleSdk final.bank := by
  have hempty : ModuleEmpty sampleSdk sampleState.bank := by
    intro denom
    have haddress : sampleSdk.moduleAddress moduleName = 9 := by decide
    have hne : ¬((9 : Fin 11) = 10 ∧ denom = defaultBondDenom) :=
      fun h => absurd h.1 (by decide)
    rw [haddress]
    change (if (9 : Fin 11) = 10 ∧ denom = defaultBondDenom then 20000000
      else 0) = 0
    exact if_neg hne
  exact run_supplyAccounted sampleSdk_lawful sampleSdk_fundsPool sampleState
    hempty (sampleSdk_supplyHeld _) sampleEvents

end IreBlockchain.TokenFactory

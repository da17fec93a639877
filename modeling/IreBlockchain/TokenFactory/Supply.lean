import IreBlockchain.TokenFactory.Effects
import IreBlockchain.TokenFactory.Keys
import IreBlockchain.TokenFactory.LedgerBank

/-!
# The supply of the native denom

No message mints the native denom, so its supply can only fall, and it falls
with every accepted `CreateDenom` that pays a fee in it: the app does not fund
the community pool, and the fee is burned.
-/

namespace IreBlockchain.TokenFactory

open IreBlockchain.Foundation

def FeeValid {Bank : Type} (s : State Bank) : Prop :=
  (getParams s.store).denomCreationFee.validate = true

variable {Account Bank BankGenesis : Type}
  {sdk : Sdk Account Bank BankGenesis} {s s' : State Bank}

theorem pool_not_enabled : isCapabilityEnabled tokenfactoryCapabilities
    enableCommunityPoolFeeFunding = false := by decide

theorem moduleName_burns : sdk.keeper.hasPermission moduleName burner = true := by
  show moduleAccPerms.any _ = true
  decide

variable [DecidableEq Account]

theorem deliver_feeValid (hsdk : sdk.Lawful) (tx : Tx) (hvalid : FeeValid s) :
    FeeValid (sdk.keeper.deliver s tx) := by
  unfold FeeValid at hvalid ⊢
  have hstored := deliver_stored (k := sdk.keeper) hsdk.bank pool_not_enabled s tx
  generalize (sdk.keeper.deliver s tx).store = store at hstored ⊢
  cases hstored with
  | kept => exact hvalid
  | created hadmin hfactory => simpa using hvalid
  | authority hadmin => simpa using hvalid
  | params hparams => simpa [Params.validate] using hparams

/-! ## The supply -/

def Sdk.nativeSupply (sdk : Sdk Account Bank BankGenesis) (s : State Bank) : Nat :=
  sdk.bankKeeper.supply s.bank defaultBondDenom

/--
A `CreateDenom` that passes its checks while the fee holds some of the native
denom, from a sender whom the bank lets pay that fee and with the gas for it.
-/
structure ChargesNative (sdk : Sdk Account Bank BankGenesis) (s : State Bank)
    (gas : Nat) (msg : MsgCreateDenom) : Prop where
  fee : 0 <
    (getParams s.store).denomCreationFee.amountOf defaultBondDenom
  basic : msg.validateBasic sdk.codec = .ok ()
  valid : ∃ denom,
    sdk.keeper.validateCreateDenom s msg.sender msg.subdenom = .ok denom
  gas : (getParams s.store).denomCreationGasConsume ≤ gas
  pays : ∃ payer bank,
    sdk.codec.accAddressFromBech32 msg.sender = .ok payer ∧
    sdk.keeper.sendCoinsFromAccountToModule s.bank payer moduleName
      (getParams s.store).denomCreationFee = .ok bank

/-- The message does not burn any of the native denom as a fee. -/
def SparesNative (sdk : Sdk Account Bank BankGenesis) (s : State Bank)
    (tx : Tx) : Prop :=
  ∀ msg, tx.msg = .createDenom msg → ¬ChargesNative sdk s tx.gas msg

theorem Coins.ne_nil_of_amountOf {coins : Coins} {denom : Text}
    (h : 0 < coins.amountOf denom) : coins ≠ [] := by
  rintro rfl
  simp at h

theorem burnCoins_of_sent (hsdk : sdk.Lawful) {b mid : Bank} {src : Account}
    {coins : Coins} (hvalid : coins.validate = true)
    (hsend : sdk.bankKeeper.sendCoins b src (sdk.moduleAddress moduleName)
      coins = .ok mid) :
    ∃ b', sdk.keeper.burnCoins mid moduleName coins = .ok b' := by
  have hsent := hsdk.bank.sent _ _ _ _ _ hsend
  obtain ⟨b', hburn⟩ := hsdk.bank.burns mid (sdk.moduleAddress moduleName)
    coins hvalid hsent.held
  refine ⟨b', ?_⟩
  rw [Keeper.burnCoins, ensure_of moduleName_burns, ok_bind]
  exact hburn

theorem ChargesNative.handle_isOk (hsdk : sdk.Lawful) (hvalid : FeeValid s)
    {gas : Nat} {msg : MsgCreateDenom} (h : ChargesNative sdk s gas msg) :
    ∃ result, sdk.keeper.handleCreateDenom s msg gas = .ok result := by
  obtain ⟨hfee, hbasic, ⟨denom, hdenom⟩, hgas, payer, mid, hpayer, hsend⟩ := h
  obtain ⟨bank, hburns⟩ := burnCoins_of_sent hsdk hvalid hsend
  have hcharge : sdk.keeper.chargeForCreateDenom s msg.sender gas =
      .ok { s with bank } := by
    have hdecode : sdk.keeper.codec.decodeOr .plain msg.sender = .ok payer :=
      AddressCodec.decodeOr_eq_ok_iff.mpr hpayer
    have hpool : isCapabilityEnabled sdk.keeper.enabledCapabilities
      enableCommunityPoolFeeFunding = false := pool_not_enabled
    simp only [Keeper.chargeForCreateDenom,
      if_pos (Coins.ne_nil_of_amountOf hfee), hdecode, hpool, hsend, hburns,
      ensure_of hgas, Bool.false_eq_true, if_false, ok_bind]
    rfl
  have hauthority : (⟨msg.sender⟩ : DenomAuthorityMetadata).validate
      sdk.keeper.codec = .ok () :=
    DenomAuthorityMetadata.validate_of_decode hpayer
  have hbasic' : msg.validateBasic sdk.keeper.codec = .ok () := hbasic
  simp only [Keeper.handleCreateDenom, Keeper.createDenom, hbasic', hdenom,
    hcharge, Keeper.createDenomAfterValidation, Keeper.setAuthorityMetadata,
    hauthority, ok_bind]
  exact ⟨_, rfl⟩

omit [DecidableEq Account] in
theorem chargesNative_of_handle {gas : Nat} {msg : MsgCreateDenom}
    {result : State Bank × Text}
    (h : sdk.keeper.handleCreateDenom s msg gas = .ok result)
    (hfee : 0 <
      (getParams s.store).denomCreationFee.amountOf defaultBondDenom) :
    ChargesNative sdk s gas msg := by
  simp only [Keeper.handleCreateDenom, Keeper.createDenom,
    Keeper.chargeForCreateDenom, bind_eq_ok_iff,
    if_pos (Coins.ne_nil_of_amountOf hfee), ensure_eq_ok_iff] at h
  obtain ⟨_, hbasic, denom, hdenom, s₁, ⟨s₂, ⟨payer, hpayer, hpaid⟩, -, hgas,
    -⟩, -⟩ := h
  have hpool : isCapabilityEnabled sdk.keeper.enabledCapabilities
    enableCommunityPoolFeeFunding = false := pool_not_enabled
  simp only [hpool, Bool.false_eq_true, if_false, bind_eq_ok_iff] at hpaid
  obtain ⟨bank, hsend, -⟩ := hpaid
  exact ⟨hfee, hbasic, ⟨denom, hdenom⟩, hgas, payer, bank,
    AddressCodec.decodeOr_eq_ok_iff.mp hpayer, hsend⟩

theorem Acted.amountOf_native {k : Keeper Account Bank BankGenesis}
    {sender target : Text} {amount : Coin} {account : Account} {coins : Coins}
    (h : Acted k s sender target amount account coins) :
    coins.amountOf defaultBondDenom = 0 := by
  obtain ⟨parts, hparts⟩ := h.factory
  rw [newCoins_eq_ok h.single, if_neg]
  intro heq
  rw [heq] at hparts
  exact deconstructDenom_native _ _ hparts

def nativeFee (s : State Bank) (tx : Tx) : Nat :=
  match tx.msg with
  | .createDenom _ =>
      (getParams s.store).denomCreationFee.amountOf defaultBondDenom
  | _ => 0

theorem handle_nativeSupply (hsdk : sdk.Lawful) {tx : Tx}
    (h : sdk.keeper.handle s tx = .ok s') :
    sdk.nativeSupply s' + nativeFee s tx = sdk.nativeSupply s := by
  obtain ⟨msg, gas⟩ := tx
  cases msg with
  | createDenom msg =>
      obtain ⟨⟨s₂, response⟩, hhandle, rfl⟩ := map_eq_ok_iff.mp h
      obtain ⟨creator, bank, hcreated⟩ :=
        handleCreateDenom_eq_ok hsdk.bank pool_not_enabled hhandle
      obtain rfl := hcreated.state_eq
      have hburned := hcreated.fee.supply defaultBondDenom
      have hset := congrFun (hsdk.bank.setSupply bank
        (Keeper.denomMetaData response)) defaultBondDenom
      exact (congrArg (· + _) hset).trans hburned
  | mint msg =>
      obtain ⟨account, coins, bank, hacted, hminted, rfl⟩ :=
        handleMint_eq_ok hsdk.bank h
      have hsupply := hminted.supply defaultBondDenom
      rw [hacted.amountOf_native] at hsupply
      exact hsupply
  | burn msg =>
      obtain ⟨account, coins, bank, hacted, hburned, rfl⟩ :=
        handleBurn_eq_ok hsdk.bank h
      have hsupply := hburned.supply defaultBondDenom
      rw [hacted.amountOf_native] at hsupply
      exact hsupply
  | forceTransfer msg =>
      obtain ⟨-, _, _, _, bank, -, -, -, -, hsent, rfl⟩ :=
        handleForceTransfer_eq_ok hsdk.bank h
      exact congrFun hsent.supply defaultBondDenom
  | changeAdmin msg =>
      obtain ⟨-, store, -, rfl⟩ := handleChangeAdmin_eq_ok h
      rfl
  | setDenomMetadata msg =>
      obtain ⟨-, -, rfl⟩ := handleSetDenomMetadata_eq_ok h
      exact congrFun (hsdk.bank.setSupply s.bank msg.metadata) defaultBondDenom
  | updateParams msg =>
      obtain ⟨-, store, -, rfl⟩ := handleUpdateParams_eq_ok h
      rfl

theorem deliver_nativeSupply (hsdk : sdk.Lawful) (tx : Tx) (hvalid : FeeValid s) :
    sdk.nativeSupply (sdk.keeper.deliver s tx) ≤ sdk.nativeSupply s ∧
      (sdk.nativeSupply (sdk.keeper.deliver s tx) = sdk.nativeSupply s ↔
        SparesNative sdk s tx) := by
  unfold Keeper.deliver
  cases h : sdk.keeper.handle s tx with
  | error e =>
      refine ⟨le_refl _, iff_of_true rfl ?_⟩
      intro msg htx hcharges
      obtain ⟨result, hresult⟩ := hcharges.handle_isOk hsdk hvalid
      have hok : sdk.keeper.handle s tx = .ok result.1 := by
        simp only [Keeper.handle, htx]
        exact map_eq_ok_iff.mpr ⟨result, hresult, rfl⟩
      rw [h] at hok
      cases hok
  | ok s' =>
      have hsupply := handle_nativeSupply hsdk h
      refine ⟨Nat.le.intro hsupply, ?_⟩
      constructor
      · intro heq msg htx hcharges
        have hfee := hcharges.fee
        simp only [nativeFee, htx] at hsupply
        simp only at heq
        omega
      · intro hspares
        have hzero : nativeFee s tx = 0 := by
          by_contra hpos
          obtain ⟨msg, gas⟩ := tx
          cases msg with
          | createDenom msg =>
              obtain ⟨result, hresult, -⟩ := map_eq_ok_iff.mp h
              exact hspares msg rfl
                (chargesNative_of_handle hresult (Nat.pos_of_ne_zero hpos))
          | _ => exact hpos rfl
        rw [hzero] at hsupply
        exact hsupply

/--
The native supply over a run of messages, from the default parameters: it stays
what it was exactly when no message of the run burns any of it as a fee.
-/
theorem run_nativeSupply_iff (hsdk : sdk.Lawful) (s : State Bank)
    (hparams : getParams s.store = defaultParams) (txs : List Tx) :
    sdk.nativeSupply (run sdk.keeper.deliver s txs) = sdk.nativeSupply s ↔
      Guarded sdk.keeper.deliver (SparesNative sdk) s txs := by
  have hvalid : FeeValid s := by
    rw [FeeValid, hparams]
    decide
  rw [run_measure_eq_iff (fun s tx h => deliver_feeValid hsdk tx h)
    (fun s tx h => (deliver_nativeSupply hsdk tx h).1) hvalid]
  exact Guarded.congr (fun s tx h => deliver_feeValid hsdk tx h)
    (fun s tx h => (deliver_nativeSupply hsdk tx h).2) hvalid txs

/-! ## A run on the sample bank -/

def sampleUser : Text :=
  "ire1pchh7j8cr9mndj7d0rfw2pq2lv7gyt67sy0ugm".toList

def sampleState : State (LedgerBank (Fin 11)) where
  bank :=
    { balances account denom :=
        if account = 10 ∧ denom = defaultBondDenom then 20000000 else 0
      metadata _ := none }
  store := KVStore.empty.set paramsKey (.params defaultParams)

theorem run_nativeSupply_falls :
    ¬∀ (Account Bank BankGenesis : Type) [DecidableEq Account]
        (sdk : Sdk Account Bank BankGenesis) (s : State Bank) (txs : List Tx),
      sdk.Lawful → getParams s.store = defaultParams →
        sdk.nativeSupply (run sdk.keeper.deliver s txs) = sdk.nativeSupply s := by
  intro h
  have hrun := h (Fin 11) _ _ sampleSdk sampleState
    [⟨.createDenom ⟨sampleUser, "abc".toList⟩, 2000000⟩] sampleSdk_lawful
    (by decide)
  have hfalls : sampleSdk.nativeSupply (run sampleSdk.keeper.deliver sampleState
      [⟨.createDenom ⟨sampleUser, "abc".toList⟩, 2000000⟩]) = 10000000 := by
    decide +kernel
  have hstart : sampleSdk.nativeSupply sampleState = 20000000 := by
    decide +kernel
  rw [hfalls, hstart] at hrun
  contradiction

theorem run_nativeSupply_iff_sample :
    sampleSdk.nativeSupply (run sampleSdk.keeper.deliver sampleState
      [⟨.createDenom ⟨sampleUser, "abc".toList⟩, 1999999⟩]) =
      sampleSdk.nativeSupply sampleState := by
  refine (run_nativeSupply_iff sampleSdk_lawful sampleState (by decide)
    [⟨.createDenom ⟨sampleUser, "abc".toList⟩, 1999999⟩]).mpr ⟨?_, trivial⟩
  intro msg htx hcharges
  have hgas := hcharges.gas
  have hparams : getParams sampleState.store = defaultParams := by decide
  rw [hparams] at hgas
  contradiction

end IreBlockchain.TokenFactory

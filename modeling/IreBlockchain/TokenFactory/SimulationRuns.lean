import IreBlockchain.TokenFactory.ModuleAccounts
import IreBlockchain.TokenFactory.Simulation

/-!
# Runs of the simulation

The SDK takes a fee from the account of an operation and delivers its message.
An operation whose message fails stops the simulation.
-/

namespace IreBlockchain.TokenFactory

open IreBlockchain.Foundation

variable {Account Bank BankGenesis : Type} [DecidableEq Account]

/-! ## Delivery by the SDK -/

def feeCollectorName : Text := "fee_collector".toList

/-- What the SDK promises of accounts whose coins may be locked in part. -/
structure Simulable (sdk : Sdk Account Bank BankGenesis)
    (spendable : Bank → Account → Text → Nat) : Prop where
  sends : ∀ b src dst (coins : Coins), coins.validate = true →
    (∀ denom, coins.amountOf denom ≤ spendable b src denom) →
      ∃ b', sdk.bankKeeper.sendCoins b src dst coins = .ok b'
  sent : ∀ b b' src dst coins, src ≠ dst →
    sdk.bankKeeper.sendCoins b src dst coins = .ok b' → ∀ denom,
      spendable b' src denom + coins.amountOf denom = spendable b src denom
  /-- A supply has at most 256 bits. -/
  mints : ∀ b module (coins : Coins), coins.validate = true →
    (∀ denom, sdk.bankKeeper.supply b denom + coins.amountOf denom < 2 ^ 256) →
      ∃ b', sdk.bankKeeper.mintCoins b module coins = .ok b'
  minted : ∀ b b' module coins,
    sdk.bankKeeper.mintCoins b module coins = .ok b' → ∀ denom,
      coins.amountOf denom ≤ spendable b' module denom
  describes : ∀ (denom description name symbol : Text),
    denomFormat denom = true → (∃ c ∈ name, isSpace c = false) →
      (∃ c ∈ symbol, isSpace c = false) →
      sdk.bankKeeper.validateMetadata ⟨description, [⟨denom, 0, []⟩], denom,
        denom, name, symbol, [], []⟩ = .ok ()

structure SimulationAccounts (sdk : Sdk Account Bank BankGenesis)
    (accs : List Account) : Prop where
  string_length_le : ∀ account ∈ accs,
    (sdk.codec.string account).length ≤ maxCreatorLength
  not_module : ∀ account ∈ accs, ∀ entry ∈ moduleAccPerms,
    sdk.moduleAddress entry.1 ≠ account

/--
`GenAndDeliverTxWithRandFees` has found room for the coins that the message
spends, and has taken a fee from the rest.
-/
inductive Charged (sdk : Sdk Account Bank BankGenesis)
    (spendable : Bank → Account → Text → Nat) (b : Bank)
    (input : OperationInput Account) : Bank → Prop
  | free
      (hroom : ∀ denom, input.coinsSpentInMsg.amountOf denom ≤
        spendable b input.simAccount denom) :
      Charged sdk spendable b input b
  | fee {b' : Bank} {fees : Coins}
      (hroom : ∀ denom, input.coinsSpentInMsg.amountOf denom +
        fees.amountOf denom ≤ spendable b input.simAccount denom)
      (hsend : sdk.bankKeeper.sendCoins b input.simAccount
        (sdk.moduleAddress feeCollectorName) fees = .ok b') :
      Charged sdk spendable b input b'

/-- The states of a simulation of the app, whatever its other modules do. -/
inductive Simulated (sdk : Sdk Account Bank BankGenesis)
    (spendable : Bank → Account → Text → Nat) (accs : List Account) :
    State Bank → Prop
  | start {genesis : AppGenesis BankGenesis} {s : State Bank}
      (hgenesis : genesis.tokenfactory = defaultGenesis)
      (hinit : sdk.keeper.initChain genesis = .ok s) :
      Simulated sdk spendable accs s
  | others {s : State Bank} {bank : Bank}
      (hs : Simulated sdk spendable accs s)
      (hmetadata : ∀ denom, sdk.bankKeeper.getDenomMetaData bank denom = none →
        sdk.bankKeeper.getDenomMetaData s.bank denom = none) :
      Simulated sdk spendable accs { s with bank }
  | operation {s s' : State Bank} {op : Operation} {d : Draws accs}
      {input : OperationInput Account} {bank : Bank} {gas : Nat}
      (hs : Simulated sdk spendable accs s)
      (hdrawn : sdk.keeper.simulate d s op = .ok (some input))
      (hcharged : Charged sdk spendable s.bank input bank)
      (hhandle : sdk.keeper.handle { s with bank } ⟨input.msg, gas⟩ = .ok s') :
      Simulated sdk spendable accs s'

variable {k : Keeper Account Bank BankGenesis} {accs : List Account}
  {d : Draws accs} {s s' : State Bank}

/-! ## The fee of the transaction -/

section Fee

variable {bank : Bank}

omit [DecidableEq Account] in
theorem Managed.frame {denom : Text} {admin : Account}
    (h : Managed k accs s denom admin)
    (hmetadata : ∀ denom, k.bankKeeper.getDenomMetaData bank denom = none →
      k.bankKeeper.getDenomMetaData s.bank denom = none) :
    Managed k accs { s with bank } denom admin :=
  ⟨h.admin_mem, h.authority, fun hnone => h.described (hmetadata denom hnone),
    h.factory⟩

omit [DecidableEq Account] in
theorem Governed.frame (h : Governed k accs s)
    (hmetadata : ∀ denom, k.bankKeeper.getDenomMetaData bank denom = none →
      k.bankKeeper.getDenomMetaData s.bank denom = none) :
    Governed k accs { s with bank } := by
  obtain ⟨⟨registry, hrepresents, hadmins⟩, hparams⟩ := h
  exact ⟨⟨registry, hrepresents.frame (fun _ => rfl) (fun _ _ => rfl) hmetadata
    hrepresents.wellFormed, hadmins⟩, hparams⟩

omit [DecidableEq Account] in
theorem Prepared.frame {input : OperationInput Account}
    (h : Prepared k accs s input)
    (hmetadata : ∀ denom, k.bankKeeper.getDenomMetaData bank denom = none →
      k.bankKeeper.getDenomMetaData s.bank denom = none) :
    Prepared k accs { s with bank } input := by
  cases h with
  | createDenom hmem => exact .createDenom hmem
  | mint h hpos hle => exact .mint (h.frame hmetadata) hpos hle
  | burn h hpos => exact .burn (h.frame hmetadata) hpos
  | changeAdmin h hmem => exact .changeAdmin (h.frame hmetadata) hmem
  | setDenomMetadata h => exact .setDenomMetadata (h.frame hmetadata)

variable {sdk : Sdk Account Bank BankGenesis}
  {spendable : Bank → Account → Text → Nat} {b : Bank}
  {input : OperationInput Account}

omit [DecidableEq Account] in
theorem Prepared.simAccount_mem (h : Prepared k accs s input) :
    input.simAccount ∈ accs := by
  cases h with
  | createDenom hmem => exact hmem
  | mint h => exact h.admin_mem
  | burn h => exact h.admin_mem
  | changeAdmin h => exact h.admin_mem
  | setDenomMetadata h => exact h.admin_mem

theorem Charged.metadata (hsdk : sdk.Lawful)
    (h : Charged sdk spendable b input bank) (denom : Text)
    (hnone : sdk.bankKeeper.getDenomMetaData bank denom = none) :
    sdk.bankKeeper.getDenomMetaData b denom = none := by
  cases h with
  | free => exact hnone
  | fee hroom hsend => rwa [← (hsdk.bank.sent _ _ _ _ _ hsend).metadata]

omit [DecidableEq Account] in
theorem Charged.room (hbank : Simulable sdk spendable)
    (haccs : SimulationAccounts sdk accs) (hmem : input.simAccount ∈ accs)
    (h : Charged sdk spendable b input bank) (denom : Text) :
    input.coinsSpentInMsg.amountOf denom ≤
      spendable bank input.simAccount denom := by
  cases h with
  | free hroom => exact hroom denom
  | fee hroom hsend =>
      have hcollector : input.simAccount ≠
          sdk.moduleAddress feeCollectorName :=
        (haccs.not_module _ hmem (feeCollectorName, []) (by decide)).symm
      have hleft := hbank.sent _ _ _ _ _ hcollector hsend denom
      have hall := hroom denom
      omega

end Fee

/-! ## Delivery of what was prepared -/

section Delivery

variable {sdk : Sdk Account Bank BankGenesis}
  {spendable : Bank → Account → Text → Nat}
  {input : OperationInput Account} {gas : Nat}

omit [DecidableEq Account] in
theorem Prepared.validateBasic (hcodec : sdk.codec.Bech32)
    (hbank : Simulable sdk spendable) (haccs : SimulationAccounts sdk accs)
    (h : Prepared sdk.keeper accs s input) :
    sdk.keeper.validateBasic input.msg = .ok () := by
  have hdecode (failure : Text → Failure) (account : Account) :
      sdk.keeper.codec.decodeOr failure (sdk.keeper.codec.string account) =
        .ok account :=
    AddressCodec.decodeOr_eq_ok_iff.mpr (hcodec.decode_string account)
  have hamount {denom : Text} {admin : Account} {amount : Nat}
      (h : Managed sdk.keeper accs s denom admin) (hpos : 0 < amount) :
      (⟨denom, amount⟩ : Coin).isValid = true ∧
        (⟨denom, amount⟩ : Coin).amount ≠ 0 := by
    refine ⟨?_, ?_⟩
    · simp [Coin.isValid, h.format]
    · dsimp only
      omega
  cases h with
  | @createDenom account subdenom hmem =>
      have hnamed := getTokenDenom_drawn hcodec
        (haccs.string_length_le account hmem) subdenom
      simp only [Keeper.validateBasic, MsgCreateDenom.validateBasic,
        bind_eq_ok_iff, mapError_eq_ok_iff]
      exact ⟨account, hdecode _ account, _, hnamed, rfl⟩
  | @mint denom admin amount h hpos hle =>
      simp only [Keeper.validateBasic, MsgMint.validateBasic,
        AddressCodec.decodeAs, bind_eq_ok_iff, ensure_eq_ok_iff]
      exact ⟨admin, hdecode _ admin, (), rfl, hamount h hpos⟩
  | @burn denom admin amount h hpos =>
      simp only [Keeper.validateBasic, MsgBurn.validateBasic,
        AddressCodec.decodeAs, bind_eq_ok_iff, ensure_eq_ok_iff]
      exact ⟨admin, hdecode _ admin, (), hamount h hpos, rfl⟩
  | @changeAdmin denom admin newAdmin h hmem =>
      obtain ⟨parts, hparts⟩ := h.factory
      simp only [Keeper.validateBasic, MsgChangeAdmin.validateBasic,
        AddressCodec.decodeAs, bind_eq_ok_iff]
      exact ⟨admin, hdecode _ admin, newAdmin, hdecode _ newAdmin, parts,
        hparts, rfl⟩
  | @setDenomMetadata denom admin description name symbol h =>
      obtain ⟨parts, hparts⟩ := h.factory
      have hvalid := hbank.describes denom description.text name.text
        symbol.text h.format name.exists_not_isSpace symbol.exists_not_isSpace
      simp only [Keeper.validateBasic, MsgSetDenomMetadata.validateBasic,
        AddressCodec.decodeAs, bind_eq_ok_iff]
      exact ⟨admin, hdecode _ admin, (), hvalid, parts, hparts, rfl⟩

omit [DecidableEq Account] in
theorem Managed.authorize {denom : Text} {admin : Account}
    (h : Managed k accs s denom admin) :
    Keeper.authorize s denom (k.codec.string admin) = .ok () := by
  rw [Keeper.authorize, h.authority, ok_bind]
  exact ensure_of rfl

theorem SimulationAccounts.unblocked (h : SimulationAccounts sdk accs)
    {account : Account} (hmem : account ∈ accs) :
    sdk.keeper.blockedAddr account = false := by
  have hlisted : ∀ name ∈ blockAccAddrs, name ∈ moduleAccPerms.map Prod.fst := by
    decide
  rw [Keeper.blockedAddr, List.any_eq_false]
  intro name hname heq
  obtain ⟨entry, hentry, rfl⟩ := List.mem_map.mp (hlisted name hname)
  exact h.not_module account hmem entry hentry (of_decide_eq_true heq)

theorem handleMint_isOk (hcodec : sdk.codec.Bech32)
    (hbank : Simulable sdk spendable) (haccs : SimulationAccounts sdk accs)
    {denom : Text} {admin : Account} {amount : Nat}
    (h : Managed sdk.keeper accs s denom admin) (hpos : 0 < amount)
    (hle : amount ≤ maxSimulatedMint)
    (hsupply : ∀ denom,
      sdk.bankKeeper.supply s.bank denom + maxSimulatedMint < 2 ^ 256) :
    ∃ s', sdk.keeper.handleMint s
      ⟨sdk.keeper.codec.string admin, ⟨denom, amount⟩, []⟩ = .ok s' := by
  obtain ⟨metadata, hmetadata⟩ := Option.ne_none_iff_exists'.mp h.described
  obtain ⟨parts, hparts⟩ := h.factory
  have hvalid := validate_singleton h.format hpos
  have hamount (d : Text) :
      Coins.amountOf [⟨denom, amount⟩] d ≤ maxSimulatedMint := by
    rw [newCoins_eq_ok (newCoins_of h.format hpos)]
    dsimp only
    split <;> omega
  obtain ⟨mid, hmint⟩ := hbank.mints s.bank (sdk.moduleAddress moduleName)
    [⟨denom, amount⟩] hvalid fun d => by
      have hd := hamount d
      have hroom := hsupply d
      omega
  obtain ⟨bank, hsend⟩ := hbank.sends mid (sdk.moduleAddress moduleName) admin
    [⟨denom, amount⟩] hvalid (hbank.minted _ _ _ _ hmint)
  have hmints : sdk.keeper.hasPermission moduleName minter = true := by
    show moduleAccPerms.any _ = true
    decide
  have hunblocked := haccs.unblocked h.admin_mem
  refine ⟨{ s with bank }, ?_⟩
  simp only [Keeper.handleMint, Keeper.mintTo, Keeper.mintCoins,
    Keeper.sendCoinsFromModuleToAccount, bind_eq_ok_iff, ensure_eq_ok_iff,
    AddressCodec.decodeOr_eq_ok_iff]
  refine ⟨(), ?_, (), h.authorize, bank, ?_, rfl⟩
  · rw [hmetadata]
    rfl
  · exact ⟨parts, hparts, _, newCoins_of h.format hpos, mid,
      ⟨(), hmints, hmint⟩, admin, hcodec.decode_string admin, (), hunblocked,
      (), hunblocked, hsend⟩

theorem handleBurn_isOk (hsdk : sdk.Lawful) (hcodec : sdk.codec.Bech32)
    (hbank : Simulable sdk spendable) (haccs : SimulationAccounts sdk accs)
    {denom : Text} {admin : Account} {amount : Nat}
    (h : Managed sdk.keeper accs s denom admin) (hpos : 0 < amount)
    (hroom : ∀ d, Coins.amountOf [⟨denom, amount⟩] d ≤
      spendable s.bank admin d) :
    ∃ s', sdk.keeper.handleBurn s
      ⟨sdk.keeper.codec.string admin, ⟨denom, amount⟩, []⟩ = .ok s' := by
  obtain ⟨parts, hparts⟩ := h.factory
  have hvalid := validate_singleton h.format hpos
  obtain ⟨mid, hsend⟩ := hbank.sends s.bank admin
    (sdk.moduleAddress moduleName) [⟨denom, amount⟩] hvalid hroom
  obtain ⟨bank, hburn⟩ := burnCoins_of_sent hsdk hvalid hsend
  refine ⟨{ s with bank }, ?_⟩
  simp only [Keeper.handleBurn, Keeper.burnFrom,
    Keeper.sendCoinsFromAccountToModule, bind_eq_ok_iff, ensure_eq_ok_iff,
    AddressCodec.decodeOr_eq_ok_iff]
  exact ⟨(), h.authorize, (), .inl trivial, bank, ⟨parts, hparts, admin,
    hcodec.decode_string admin, (), haccs.unblocked h.admin_mem, _,
    newCoins_of h.format hpos, mid, hsend, hburn⟩, rfl⟩

omit [DecidableEq Account] in
theorem handleChangeAdmin_isOk (hcodec : sdk.codec.Bech32) {denom : Text}
    {admin : Account} (h : Managed sdk.keeper accs s denom admin)
    (newAdmin : Account) :
    ∃ s', sdk.keeper.handleChangeAdmin s ⟨sdk.keeper.codec.string admin, denom,
      sdk.keeper.codec.string newAdmin⟩ = .ok s' := by
  have hdecode : sdk.keeper.codec.accAddressFromBech32
      (sdk.keeper.codec.string newAdmin) = .ok newAdmin :=
    hcodec.decode_string newAdmin
  simp only [Keeper.handleChangeAdmin, Keeper.setAdmin,
    Keeper.setAuthorityMetadata, bind_eq_ok_iff]
  exact ⟨_, (), h.authorize, _,
    ⟨(), DenomAuthorityMetadata.validate_of_decode hdecode, rfl⟩, rfl⟩

omit [DecidableEq Account] in
theorem handleSetDenomMetadata_isOk {admin : Account} {metadata : Metadata}
    (h : Managed sdk.keeper accs s metadata.base admin)
    (hvalid : sdk.bankKeeper.validateMetadata metadata = .ok ()) :
    ∃ s', sdk.keeper.handleSetDenomMetadata s
      ⟨sdk.keeper.codec.string admin, metadata⟩ = .ok s' := by
  have henabled : isCapabilityEnabled sdk.keeper.enabledCapabilities
      enableSetMetadata = true := by
    show isCapabilityEnabled tokenfactoryCapabilities _ = true
    decide
  simp only [Keeper.handleSetDenomMetadata, bind_eq_ok_iff, ensure_eq_ok_iff]
  exact ⟨_, (), henabled, (), hvalid, (), h.authorize, rfl⟩

theorem handleCreateDenom_cases (hsdk : sdk.Lawful) (hcodec : sdk.codec.Bech32)
    (hbank : Simulable sdk spendable) (haccs : SimulationAccounts sdk accs)
    (hparams : getParams s.store = defaultParams) {account : Account}
    (hmem : account ∈ accs) (subdenom : RandString)
    (hgas : defaultParams.denomCreationGasConsume ≤ gas)
    (hroom : ∀ d, (getParams s.store).denomCreationFee.amountOf d ≤
      spendable s.bank account d) :
    (∃ result, sdk.keeper.handleCreateDenom s
        ⟨sdk.keeper.codec.string account, subdenom.text⟩ gas = .ok result) ∨
      sdk.keeper.handleCreateDenom s
        ⟨sdk.keeper.codec.string account, subdenom.text⟩ gas =
          .error (.registered .errDenomExists) := by
  have hnamed : getTokenDenom (sdk.keeper.codec.string account) subdenom.text =
      .ok (factoryDenom (sdk.keeper.codec.string account) subdenom.text) :=
    getTokenDenom_drawn hcodec (haccs.string_length_le account hmem) subdenom
  have hbasic : MsgCreateDenom.validateBasic sdk.keeper.codec
      ⟨sdk.keeper.codec.string account, subdenom.text⟩ = .ok () :=
    Prepared.validateBasic hcodec hbank haccs
      (.createDenom hmem : Prepared sdk.keeper accs s
        ⟨.createDenom ⟨_, subdenom.text⟩, _, _⟩)
  by_cases hexists : sdk.keeper.bankKeeper.getDenomMetaData s.bank
      (factoryDenom (sdk.keeper.codec.string account) subdenom.text) = none
  · left
    have hvalid : FeeValid s := by
      rw [FeeValid, hparams]
      decide
    obtain ⟨mid, hsend⟩ := hbank.sends s.bank account
      (sdk.moduleAddress moduleName) _ hvalid hroom
    have hfresh : sdk.keeper.validateCreateDenom s
        (sdk.keeper.codec.string account) subdenom.text =
          .ok (factoryDenom (sdk.keeper.codec.string account) subdenom.text) := by
      rw [Keeper.validateCreateDenom, hnamed, ok_bind, ensure_of hexists]
      rfl
    refine ChargesNative.handle_isOk hsdk hvalid ⟨?_, hbasic, ⟨_, hfresh⟩, ?_,
      account, mid, hcodec.decode_string account, hsend⟩
    · rw [hparams]
      decide
    · rwa [hparams]
  · right
    have hfound : ensure (sdk.keeper.bankKeeper.getDenomMetaData s.bank
        (factoryDenom (sdk.keeper.codec.string account) subdenom.text) = none)
        (Failure.registered .errDenomExists) =
          .error (.registered .errDenomExists) := if_neg hexists
    simp only [Keeper.handleCreateDenom, hbasic, ok_bind, Keeper.createDenom,
      Keeper.validateCreateDenom, hnamed, hfound]
    rfl

end Delivery

/-! ## Runs -/

section Runs

variable {sdk : Sdk Account Bank BankGenesis}
  {spendable : Bank → Account → Text → Nat}
  {input : OperationInput Account} {gas : Nat}

/-- A prepared message is accepted, or creates a denom that is there already. -/
def Delivered (k : Keeper Account Bank BankGenesis) (s : State Bank) (tx : Tx) :
    Prop :=
  k.Accepts s tx ∨
    ((∃ msg, tx.msg = .createDenom msg) ∧
      k.validateBasic tx.msg = .ok () ∧
      k.handle s tx = .error (.registered .errDenomExists))

theorem delivered_of_handle {tx : Tx} (hvalid : k.validateBasic tx.msg = .ok ())
    (h : ∃ s', k.handle s tx = .ok s') : Delivered k s tx := by
  obtain ⟨s', h⟩ := h
  refine .inl ⟨hvalid, ?_⟩
  rw [h]
  rfl

theorem Prepared.delivered (hsdk : sdk.Lawful) (hcodec : sdk.codec.Bech32)
    (hbank : Simulable sdk spendable) (haccs : SimulationAccounts sdk accs)
    (hparams : getParams s.store = defaultParams)
    (hroom : ∀ denom, input.coinsSpentInMsg.amountOf denom ≤
      spendable s.bank input.simAccount denom)
    (hgas : defaultParams.denomCreationGasConsume ≤ gas)
    (hsupply : ∀ denom,
      sdk.bankKeeper.supply s.bank denom + maxSimulatedMint < 2 ^ 256)
    (h : Prepared sdk.keeper accs s input) :
    Delivered sdk.keeper s ⟨input.msg, gas⟩ := by
  have hvalid := h.validateBasic hcodec hbank haccs
  cases h with
  | @createDenom account subdenom hmem =>
      rcases handleCreateDenom_cases hsdk hcodec hbank haccs hparams hmem
        subdenom hgas hroom with ⟨result, hresult⟩ | hexists
      · refine delivered_of_handle hvalid ⟨result.1, ?_⟩
        simp only [Keeper.handle, hresult]
        rfl
      · refine .inr ⟨⟨_, rfl⟩, hvalid, ?_⟩
        simp only [Keeper.handle, hexists]
        rfl
  | mint h hpos hle =>
      exact delivered_of_handle hvalid
        (handleMint_isOk hcodec hbank haccs h hpos hle hsupply)
  | burn h hpos =>
      exact delivered_of_handle hvalid
        (handleBurn_isOk hsdk hcodec hbank haccs h hpos hroom)
  | @changeAdmin denom admin newAdmin h hmem =>
      exact delivered_of_handle hvalid (handleChangeAdmin_isOk hcodec h newAdmin)
  | @setDenomMetadata denom admin description name symbol h =>
      exact delivered_of_handle hvalid (handleSetDenomMetadata_isOk h
        (hbank.describes denom description.text name.text symbol.text h.format
          name.exists_not_isSpace symbol.exists_not_isSpace))

theorem Governed.handle (hsdk : sdk.Lawful) (hcodec : sdk.codec.Bech32)
    (hbank : Simulable sdk spendable) (haccs : SimulationAccounts sdk accs)
    (hgoverned : Governed sdk.keeper accs s)
    (h : Prepared sdk.keeper accs s input)
    (hhandle : sdk.keeper.handle s ⟨input.msg, gas⟩ = .ok s') :
    Governed sdk.keeper accs s' := by
  have hvalid := h.validateBasic hcodec hbank haccs
  obtain ⟨⟨registry, hrepresents, hadmins⟩, hparams⟩ := hgoverned
  have hafter := hrepresents.handle hsdk.bank pool_not_enabled hcodec hvalid
    hhandle
  have hwritten := handle_written (k := sdk.keeper) hsdk.bank pool_not_enabled hhandle
  refine ⟨⟨_, hafter, ?_⟩, ?_⟩
  · intro denom entry hentry
    cases h with
    | @createDenom account subdenom hmem =>
        rw [Registry.after_createDenom, Registry.register_apply] at hentry
        split at hentry
        next =>
          obtain rfl := Option.some.inj hentry
          exact ⟨account, hmem, rfl⟩
        next => exact hadmins denom entry hentry
    | @changeAdmin changed admin newAdmin h hmem =>
        simp only [Registry.after, Registry.assign, Function.update_apply]
          at hentry
        split at hentry
        next =>
          obtain ⟨old, -, rfl⟩ := Option.map_eq_some_iff.mp hentry
          exact ⟨newAdmin, hmem, rfl⟩
        next => exact hadmins denom entry hentry
    | mint => exact hadmins denom entry hentry
    | burn => exact hadmins denom entry hentry
    | setDenomMetadata => exact hadmins denom entry hentry
  · rw [← hparams]
    generalize hmsg : input.msg = msg at hwritten
    cases hwritten with
    | created hdecode hnamed hfresh hadmin hstore =>
        rw [hstore]
        simp
    | adminChanged hsender hadmin hstate =>
        rw [hstate]
        simp
    | paramsSet => cases h <;> cases hmsg
    | kept hcreate hchange hstore => rw [hstore]

theorem Simulated.governed (hsdk : sdk.Lawful) (hcodec : sdk.codec.Bech32)
    (hbank : Simulable sdk spendable) (haccs : SimulationAccounts sdk accs)
    (h : Simulated sdk spendable accs s) : Governed sdk.keeper accs s := by
  induction h with
  | @start genesis s hgenesis hinit =>
      rw [initChain_eq] at hinit
      obtain ⟨hrepresents, -, hparams⟩ :=
        represents_initGenesis (k := sdk.keeper) hsdk.bank hcodec hinit
      rw [hgenesis] at hrepresents hparams
      exact ⟨⟨_, hrepresents, fun _ _ hentry => by cases hentry⟩, hparams⟩
  | others hs hmetadata ih => exact ih.frame hmetadata
  | operation hs hdrawn hcharged hhandle ih =>
      have hmetadata := hcharged.metadata hsdk
      rcases ih.prepares hcodec _ with hnone | ⟨input, hinput, hprepared⟩
      · cases hdrawn.symm.trans hnone
      · obtain rfl := Option.some.inj (Except.ok.inj (hdrawn.symm.trans hinput))
        exact (ih.frame hmetadata).handle hsdk hcodec hbank haccs
          (hprepared.frame hmetadata) hhandle

end Runs

/--
No operation of a simulation panics, wherever the simulation has come to.  What
it prepares, once the transaction has paid its fee, is accepted, unless it
creates a denom that is there already.
-/
theorem simulation_delivers {sdk : Sdk Account Bank BankGenesis}
    {spendable : Bank → Account → Text → Nat} (hsdk : sdk.Lawful)
    (hcodec : sdk.codec.Bech32) (hbank : Simulable sdk spendable)
    (haccs : SimulationAccounts sdk accs) (s : State Bank)
    (hs : Simulated sdk spendable accs s) (op : Operation) (d : Draws accs) :
    ∃ drawn, sdk.keeper.simulate d s op = .ok drawn ∧
      ∀ input bank gas, drawn = some input →
        Charged sdk spendable s.bank input bank →
        defaultParams.denomCreationGasConsume ≤ gas →
        (∀ denom,
          sdk.bankKeeper.supply bank denom + maxSimulatedMint < 2 ^ 256) →
        Delivered sdk.keeper { s with bank } ⟨input.msg, gas⟩ := by
  have hgoverned := hs.governed hsdk hcodec hbank haccs
  rcases hgoverned.prepares (d := d) hcodec op with
    hnone | ⟨input, hinput, hprepared⟩
  · exact ⟨none, hnone, fun _ _ _ h => by cases h⟩
  · refine ⟨some input, hinput, ?_⟩
    rintro _ bank gas hsome hcharged hgas hsupply
    obtain rfl := Option.some.inj hsome
    have hprepared' := hprepared.frame (hcharged.metadata hsdk)
    exact hprepared'.delivered hsdk hcodec hbank haccs hgoverned.params
      (hcharged.room hbank haccs hprepared.simAccount_mem) hgas hsupply

/-! ## A simulation on the sample bank -/

theorem LedgerBank.sendCoins_isOk {b : LedgerBank (Fin 11)} {src : Fin 11}
    (dst : Fin 11) {coins : Coins} (hvalid : coins.validate = true)
    (hheld : ∀ denom, coins.amountOf denom ≤ b.balances src denom) :
    ∃ b', b.sendCoins src dst coins = .ok b' := by
  have hcovered : coins.coveredBy (b.balances src) = true :=
    Coins.coveredBy_iff.mpr hheld
  simp only [LedgerBank.sendCoins, LedgerBank.take,
    ensure_of (And.intro hvalid hcovered), ok_bind]
  exact ⟨_, rfl⟩

theorem spelledSdk_simulable : Simulable spelledSdk LedgerBank.balances where
  sends _ _ dst _ hvalid hheld := LedgerBank.sendCoins_isOk dst hvalid hheld
  sent b b' src dst coins hne hsend denom := by
    have hmoved := (spelledSdk_lawful.bank.sent b b' src dst coins hsend).balance
      src denom
    rw [if_pos rfl, if_neg hne] at hmoved
    exact hmoved
  mints b module coins _ _ := ⟨b.add module coins, rfl⟩
  minted b b' module coins hmint denom := by
    have hadded := (spelledSdk_lawful.bank.minted b b' module coins hmint).balance
      module denom
    rw [if_pos rfl] at hadded
    exact le_of_le_of_eq (Nat.le_add_left _ _) hadded.symm
  describes denom description name symbol hformat hname hsymbol := by
    obtain ⟨c, hname, -⟩ := hname
    obtain ⟨c', hsymbol, -⟩ := hsymbol
    refine ensure_of ⟨hformat, List.ne_nil_of_mem hname,
      List.ne_nil_of_mem hsymbol, hformat, ?_, ?_, ?_⟩ <;> simp

theorem sampleUser_simulated : SimulationAccounts spelledSdk [10] where
  string_length_le := by decide +kernel
  not_module := by decide +kernel

def sampleRandString : RandString := ⟨"abcdefghij".toList, by decide, by decide⟩

def sampleDraws : Draws [(10 : Fin 11)] where
  account := 10
  account_mem := by simp
  newAdmin := 10
  newAdmin_mem := by simp
  intn _ := 0
  intn_lt _ h := h
  positiveInt _ := 1
  positiveInt_pos _ _ := Nat.one_pos
  positiveInt_le _ h := h
  subdenom := sampleRandString
  description := sampleRandString
  name := sampleRandString
  symbol := sampleRandString

theorem simulation_delivers_sample :
    ∃ drawn, spelledSdk.keeper.simulate sampleDraws sampleState .createDenom =
        .ok drawn ∧
      ∀ input bank gas, drawn = some input →
        Charged spelledSdk LedgerBank.balances sampleState.bank input bank →
        defaultParams.denomCreationGasConsume ≤ gas →
        (∀ denom, bank.supply denom + maxSimulatedMint < 2 ^ 256) →
        Delivered spelledSdk.keeper { sampleState with bank }
          ⟨input.msg, gas⟩ := by
  let genesis : AppGenesis (LedgerBank (Fin 11)) :=
    ⟨sampleState.bank, defaultGenesis⟩
  have hinit : spelledSdk.keeper.initChain genesis = .ok sampleState := rfl
  exact simulation_delivers spelledSdk_lawful bothSpellings_bech32
    spelledSdk_simulable sampleUser_simulated sampleState (.start rfl hinit)
    .createDenom sampleDraws

end IreBlockchain.TokenFactory

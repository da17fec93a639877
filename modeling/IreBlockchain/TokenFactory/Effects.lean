import IreBlockchain.TokenFactory.Genesis
import IreBlockchain.TokenFactory.Denoms

/-!
# What a message that is not rolled back has done

One lemma for each function of the keeper.  Later proofs use these lemmas and
the laws of the bank, and unfold nothing.
-/

namespace IreBlockchain.TokenFactory

open IreBlockchain.Foundation

variable {Account Bank BankGenesis : Type}

/-! ## Coins and denoms -/

theorem newCoins_eq_ok {coin : Coin} {coins : Coins}
    (h : newCoins coin = .ok coins) (denom : Text) :
    coins.amountOf denom =
      if coin.denom = denom then coin.amount.toNat else 0 := by
  simp only [newCoins, bind_eq_ok_iff, ensure_eq_ok_iff] at h
  obtain ⟨-, -, h⟩ := h
  obtain rfl := Except.ok.inj h
  split
  next hzero => simp [hzero]
  next => simp [Coins.amountOf]

theorem DenomAuthorityMetadata.validate_of_decode {codec : AddressCodec Account}
    {admin : Text} {account : Account}
    (h : codec.accAddressFromBech32 admin = .ok account) :
    (⟨admin⟩ : DenomAuthorityMetadata).validate codec = .ok () := by
  have hdecode : codec.decodeOr .plain admin = .ok account :=
    AddressCodec.decodeOr_eq_ok_iff.mpr h
  simp only [DenomAuthorityMetadata.validate, hdecode, ok_bind]
  split <;> rfl

/-! ## The store -/

theorem setParams_eq_ok {store store' : Store} {params : Params}
    (h : setParams store params = .ok store') :
    params.validate = .ok () ∧ store' = store.set paramsKey (.params params) := by
  simp only [setParams, bind_eq_ok_iff] at h
  obtain ⟨_, hvalid, h⟩ := h
  exact ⟨hvalid, (Except.ok.inj h).symm⟩

variable {k : Keeper Account Bank BankGenesis} {s s' : State Bank}

theorem setAuthorityMetadata_eq_ok {store store' : Store} {denom : Text}
    {metadata : DenomAuthorityMetadata}
    (h : k.setAuthorityMetadata store denom metadata = .ok store') :
    metadata.validate k.codec = .ok () ∧
      store' = store.set (authorityKey denom) (.authority metadata) := by
  simp only [Keeper.setAuthorityMetadata, bind_eq_ok_iff] at h
  obtain ⟨_, hvalid, h⟩ := h
  exact ⟨hvalid, (Except.ok.inj h).symm⟩

theorem createDenomAfterValidation_eq_ok {creatorAddr denom : Text}
    (h : k.createDenomAfterValidation s creatorAddr denom = .ok s') :
    (⟨creatorAddr⟩ : DenomAuthorityMetadata).validate k.codec = .ok () ∧
      s' = ⟨k.bankKeeper.setDenomMetaData s.bank (Keeper.denomMetaData denom),
        addDenomFromCreator
          (s.store.set (authorityKey denom) (.authority ⟨creatorAddr⟩))
          creatorAddr denom⟩ := by
  simp only [Keeper.createDenomAfterValidation, bind_eq_ok_iff] at h
  obtain ⟨store, hstore, h⟩ := h
  obtain ⟨hvalid, rfl⟩ := setAuthorityMetadata_eq_ok hstore
  exact ⟨hvalid, (Except.ok.inj h).symm⟩

theorem authorize_eq_ok {denom sender : Text} {u : Unit}
    (h : Keeper.authorize s denom sender = .ok u) :
    getAuthorityMetadata s.store denom = .ok ⟨sender⟩ := by
  simp only [Keeper.authorize, bind_eq_ok_iff, ensure_eq_ok_iff] at h
  obtain ⟨metadata, hmetadata, rfl⟩ := h
  exact hmetadata

/-! ## The bank -/

variable [DecidableEq Account]

theorem burnCoins_eq_ok (hbank : k.bankKeeper.Lawful) {b b' : Bank}
    {module : Text} {coins : Coins} (h : k.burnCoins b module coins = .ok b') :
    k.bankKeeper.Burned b b' (k.moduleAddress module) coins := by
  simp only [Keeper.burnCoins, bind_eq_ok_iff] at h
  obtain ⟨-, -, h⟩ := h
  exact hbank.burned _ _ _ _ h

theorem chargeForCreateDenom_cases (hbank : k.bankKeeper.Lawful)
    {creatorAddr : Text} {gas : Nat} {creator : Account}
    (hcreator : k.codec.accAddressFromBech32 creatorAddr = .ok creator)
    (h : k.chargeForCreateDenom s creatorAddr gas = .ok s') :
    s'.store = s.store ∧
      ((getParams s.store).denomCreationFee = [] ∧ s'.bank = s.bank ∨
        isCapabilityEnabled k.enabledCapabilities
            enableCommunityPoolFeeFunding = true ∧
          k.fundCommunityPool s.bank (getParams s.store).denomCreationFee
            creator = .ok s'.bank ∨
        isCapabilityEnabled k.enabledCapabilities
            enableCommunityPoolFeeFunding = false ∧
          k.bankKeeper.Burned s.bank s'.bank creator
            (getParams s.store).denomCreationFee) := by
  simp only [Keeper.chargeForCreateDenom, bind_eq_ok_iff] at h
  obtain ⟨s₁, hcharge, -, -, h⟩ := h
  obtain rfl := Except.ok.inj h
  split at hcharge
  next hfee =>
    simp only [bind_eq_ok_iff, AddressCodec.decodeOr_eq_ok_iff] at hcharge
    obtain ⟨payer, hpayer, hcharge⟩ := hcharge
    obtain rfl := Except.ok.inj (hpayer.symm.trans hcreator)
    split at hcharge
    next hpool =>
      simp only [bind_eq_ok_iff] at hcharge
      obtain ⟨bank, hfund, hcharge⟩ := hcharge
      obtain rfl := Except.ok.inj hcharge
      exact ⟨rfl, .inr (.inl ⟨hpool, hfund⟩)⟩
    next hpool =>
      simp only [bind_eq_ok_iff] at hcharge
      obtain ⟨mid, hsend, bank, hburn, hcharge⟩ := hcharge
      obtain rfl := Except.ok.inj hcharge
      exact ⟨rfl, .inr (.inr ⟨Bool.eq_false_iff.mpr hpool,
        (hbank.sent _ _ _ _ _ hsend).burned (burnCoins_eq_ok hbank hburn)⟩)⟩
  next hfee =>
    obtain rfl := Except.ok.inj hcharge
    exact ⟨rfl, .inl ⟨not_not.mp hfee, rfl⟩⟩

theorem chargeForCreateDenom_eq_ok (hbank : k.bankKeeper.Lawful)
    (hpool : isCapabilityEnabled k.enabledCapabilities
      enableCommunityPoolFeeFunding = false)
    {creatorAddr : Text} {gas : Nat} {creator : Account}
    (hcreator : k.codec.accAddressFromBech32 creatorAddr = .ok creator)
    (h : k.chargeForCreateDenom s creatorAddr gas = .ok s') :
    s'.store = s.store ∧
      k.bankKeeper.Burned s.bank s'.bank creator
        (getParams s.store).denomCreationFee := by
  obtain ⟨hstore, hcases⟩ := chargeForCreateDenom_cases hbank hcreator h
  refine ⟨hstore, ?_⟩
  rcases hcases with ⟨hfee, hsame⟩ | ⟨henabled, -⟩ | ⟨-, hburned⟩
  · rw [hfee, hsame]
    exact .nil
  · rw [hpool] at henabled
    contradiction
  · exact hburned

theorem mintTo_eq_ok (hbank : k.bankKeeper.Lawful) {b b' : Bank} {amount : Coin}
    {target : Text} (h : k.mintTo b amount target = .ok b') :
    (∃ parts, deconstructDenom k.codec amount.denom = .ok parts) ∧
    ∃ addr coins, k.codec.accAddressFromBech32 target = .ok addr ∧
      k.blockedAddr addr = false ∧ newCoins amount = .ok coins ∧
      k.bankKeeper.Minted b b' addr coins := by
  simp only [Keeper.mintTo, Keeper.mintCoins, Keeper.sendCoinsFromModuleToAccount,
    bind_eq_ok_iff, ensure_eq_ok_iff, AddressCodec.decodeOr_eq_ok_iff] at h
  obtain ⟨parts, hparts, coins, hcoins, mid, ⟨-, -, hmint⟩, addr, haddr, -,
    hblocked, -, -, hsend⟩ := h
  exact ⟨⟨parts, hparts⟩, addr, coins, haddr, hblocked, hcoins,
    (hbank.minted _ _ _ _ hmint).sent (hbank.sent _ _ _ _ _ hsend)⟩

theorem burnFrom_eq_ok (hbank : k.bankKeeper.Lawful) {b b' : Bank} {amount : Coin}
    {target : Text} (h : k.burnFrom b amount target = .ok b') :
    (∃ parts, deconstructDenom k.codec amount.denom = .ok parts) ∧
    ∃ addr coins, k.codec.accAddressFromBech32 target = .ok addr ∧
      k.blockedAddr addr = false ∧ newCoins amount = .ok coins ∧
      k.bankKeeper.Burned b b' addr coins := by
  simp only [Keeper.burnFrom, Keeper.sendCoinsFromAccountToModule,
    bind_eq_ok_iff, ensure_eq_ok_iff, AddressCodec.decodeOr_eq_ok_iff] at h
  obtain ⟨parts, hparts, addr, haddr, -, hblocked, coins, hcoins, mid, hsend,
    hburn⟩ := h
  exact ⟨⟨parts, hparts⟩, addr, coins, haddr, hblocked, hcoins,
    (hbank.sent _ _ _ _ _ hsend).burned (burnCoins_eq_ok hbank hburn)⟩

theorem forceTransfer_eq_ok (hbank : k.bankKeeper.Lawful) {b b' : Bank}
    {amount : Coin} {fromAddr toAddr : Text}
    (h : k.forceTransfer b amount fromAddr toAddr = .ok b') :
    (∃ parts, deconstructDenom k.codec amount.denom = .ok parts) ∧
    ∃ src dst coins, k.codec.accAddressFromBech32 fromAddr = .ok src ∧
      (∀ entry ∈ k.permAddrs, k.moduleAddress entry.1 ≠ src) ∧
      k.blockedAddr dst = false ∧ newCoins amount = .ok coins ∧
      k.bankKeeper.Sent b b' src dst coins := by
  simp only [Keeper.forceTransfer, bind_eq_ok_iff, ensure_eq_ok_iff,
    AddressCodec.decodeOr_eq_ok_iff] at h
  obtain ⟨parts, hparts, src, hsrc, -, hperm, dst, -, -, hblocked, coins, hcoins,
    hsend⟩ := h
  exact ⟨⟨parts, hparts⟩, src, dst, coins, hsrc, hperm, hblocked, hcoins,
    hbank.sent _ _ _ _ _ hsend⟩

/-! ## Messages -/

/-- What an accepted `CreateDenom` has paid and created. -/
structure Created (k : Keeper Account Bank BankGenesis) (s s' : State Bank)
    (msg : MsgCreateDenom) (denom : Text) (creator : Account) (bank : Bank) :
    Prop where
  decoded : k.codec.accAddressFromBech32 msg.sender = .ok creator
  named : getTokenDenom msg.sender msg.subdenom = .ok denom
  fresh : k.bankKeeper.getDenomMetaData s.bank denom = none
  fee : k.bankKeeper.Burned s.bank bank creator
    (getParams s.store).denomCreationFee
  create : k.createDenomAfterValidation ⟨bank, s.store⟩ msg.sender denom = .ok s'

omit [DecidableEq Account] in
theorem handleCreateDenom_charged {msg : MsgCreateDenom} {gas : Nat}
    {response : Text} (h : k.handleCreateDenom s msg gas = .ok (s', response)) :
    ∃ creator s₁, k.codec.accAddressFromBech32 msg.sender = .ok creator ∧
      getTokenDenom msg.sender msg.subdenom = .ok response ∧
      k.bankKeeper.getDenomMetaData s.bank response = none ∧
      k.chargeForCreateDenom s msg.sender gas = .ok s₁ ∧
      k.createDenomAfterValidation s₁ msg.sender response = .ok s' := by
  simp only [Keeper.handleCreateDenom, MsgCreateDenom.validateBasic,
    Keeper.createDenom, Keeper.validateCreateDenom, bind_eq_ok_iff,
    ensure_eq_ok_iff, AddressCodec.decodeOr_eq_ok_iff] at h
  obtain ⟨_, ⟨creator, hcreator, -⟩, denom, ⟨denom', hdenom, -, hnew, hret⟩,
    s₁, hcharge, s₂, hcreate, hret'⟩ := h
  obtain rfl := Except.ok.inj hret
  obtain ⟨rfl, rfl⟩ := Prod.mk.inj (Except.ok.inj hret')
  exact ⟨creator, s₁, hcreator, hdenom, hnew, hcharge, hcreate⟩

theorem handleCreateDenom_eq_ok (hbank : k.bankKeeper.Lawful)
    (hpool : isCapabilityEnabled k.enabledCapabilities
      enableCommunityPoolFeeFunding = false)
    {msg : MsgCreateDenom} {gas : Nat} {response : Text}
    (h : k.handleCreateDenom s msg gas = .ok (s', response)) :
    ∃ creator bank, Created k s s' msg response creator bank := by
  obtain ⟨creator, ⟨bank, store⟩, hcreator, hdenom, hnew, hcharge, hcreate⟩ :=
    handleCreateDenom_charged h
  obtain ⟨hstore, hfee⟩ :=
    chargeForCreateDenom_eq_ok hbank hpool hcreator hcharge
  obtain rfl : store = s.store := hstore
  exact ⟨creator, bank, hcreator, hdenom, hnew, hfee, hcreate⟩

structure Acted (k : Keeper Account Bank BankGenesis) (s : State Bank)
    (sender target : Text) (amount : Coin) (account : Account)
    (coins : Coins) : Prop where
  admin : getAuthorityMetadata s.store amount.denom = .ok ⟨sender⟩
  factory : ∃ parts, deconstructDenom k.codec amount.denom = .ok parts
  decoded : k.codec.accAddressFromBech32 target = .ok account
  unblocked : k.blockedAddr account = false
  single : newCoins amount = .ok coins

theorem handleMint_eq_ok (hbank : k.bankKeeper.Lawful) {msg : MsgMint}
    (h : k.handleMint s msg = .ok s') :
    ∃ account coins bank,
      Acted k s msg.sender msg.target msg.amount account coins ∧
      k.bankKeeper.Minted s.bank bank account coins ∧ s' = { s with bank } := by
  simp only [Keeper.handleMint, bind_eq_ok_iff, ensure_eq_ok_iff] at h
  obtain ⟨-, -, _, hadmin, bank, hmint, h⟩ := h
  obtain ⟨hfactory, account, coins, haccount, hblocked, hcoins, hminted⟩ :=
    mintTo_eq_ok hbank hmint
  exact ⟨account, coins, bank,
    ⟨authorize_eq_ok hadmin, hfactory, haccount, hblocked, hcoins⟩, hminted,
    (Except.ok.inj h).symm⟩

theorem handleBurn_eq_ok (hbank : k.bankKeeper.Lawful) {msg : MsgBurn}
    (h : k.handleBurn s msg = .ok s') :
    ∃ account coins bank,
      Acted k s msg.sender msg.target msg.amount account coins ∧
      k.bankKeeper.Burned s.bank bank account coins ∧ s' = { s with bank } := by
  simp only [Keeper.handleBurn, bind_eq_ok_iff, ensure_eq_ok_iff] at h
  obtain ⟨_, hadmin, -, -, bank, hburn, h⟩ := h
  obtain ⟨hfactory, account, coins, haccount, hblocked, hcoins, hburned⟩ :=
    burnFrom_eq_ok hbank hburn
  exact ⟨account, coins, bank,
    ⟨authorize_eq_ok hadmin, hfactory, haccount, hblocked, hcoins⟩, hburned,
    (Except.ok.inj h).symm⟩

theorem handleForceTransfer_eq_ok (hbank : k.bankKeeper.Lawful)
    {msg : MsgForceTransfer} (h : k.handleForceTransfer s msg = .ok s') :
    (∃ parts, deconstructDenom k.codec msg.amount.denom = .ok parts) ∧
    ∃ src dst coins bank,
      k.codec.accAddressFromBech32 msg.transferFromAddress = .ok src ∧
      (∀ entry ∈ k.permAddrs, k.moduleAddress entry.1 ≠ src) ∧
      k.blockedAddr dst = false ∧ newCoins msg.amount = .ok coins ∧
      k.bankKeeper.Sent s.bank bank src dst coins ∧ s' = { s with bank } := by
  simp only [Keeper.handleForceTransfer, bind_eq_ok_iff, ensure_eq_ok_iff] at h
  obtain ⟨-, -, -, -, bank, hsend, h⟩ := h
  obtain ⟨hfactory, src, dst, coins, hsrc, hperm, hblocked, hcoins, hsent⟩ :=
    forceTransfer_eq_ok hbank hsend
  exact ⟨hfactory, src, dst, coins, bank, hsrc, hperm, hblocked, hcoins,
    hsent, (Except.ok.inj h).symm⟩

theorem handleForceTransfer_admin {msg : MsgForceTransfer}
    (h : k.handleForceTransfer s msg = .ok s') :
    getAuthorityMetadata s.store msg.amount.denom = .ok ⟨msg.sender⟩ := by
  simp only [Keeper.handleForceTransfer, bind_eq_ok_iff] at h
  obtain ⟨-, -, _, hadmin, -⟩ := h
  exact authorize_eq_ok hadmin

omit [DecidableEq Account] in
theorem handleChangeAdmin_eq_ok {msg : MsgChangeAdmin}
    (h : k.handleChangeAdmin s msg = .ok s') :
    getAuthorityMetadata s.store msg.denom = .ok ⟨msg.sender⟩ ∧
    ∃ store, k.setAuthorityMetadata s.store msg.denom ⟨msg.newAdmin⟩ =
      .ok store ∧ s' = { s with store } := by
  simp only [Keeper.handleChangeAdmin, Keeper.setAdmin, bind_eq_ok_iff] at h
  obtain ⟨_, hadmin, store, hset, h⟩ := h
  exact ⟨authorize_eq_ok hadmin, store, hset, (Except.ok.inj h).symm⟩

omit [DecidableEq Account] in
theorem handleSetDenomMetadata_eq_ok {msg : MsgSetDenomMetadata}
    (h : k.handleSetDenomMetadata s msg = .ok s') :
    getAuthorityMetadata s.store msg.metadata.base = .ok ⟨msg.sender⟩ ∧
      k.bankKeeper.validateMetadata msg.metadata = .ok () ∧
      s' = { s with
        bank := k.bankKeeper.setDenomMetaData s.bank msg.metadata } := by
  simp only [Keeper.handleSetDenomMetadata, bind_eq_ok_iff] at h
  obtain ⟨-, -, _, hvalid, _, hadmin, h⟩ := h
  exact ⟨authorize_eq_ok hadmin, hvalid, (Except.ok.inj h).symm⟩

omit [DecidableEq Account] in
theorem handleUpdateParams_eq_ok {msg : MsgUpdateParams}
    (h : k.handleUpdateParams s msg = .ok s') :
    msg.authority = k.authority ∧
    ∃ store, setParams s.store msg.params = .ok store ∧ s' = { s with store } := by
  simp only [Keeper.handleUpdateParams, bind_eq_ok_iff, ensure_eq_ok_iff] at h
  obtain ⟨-, hauthority, store, hset, h⟩ := h
  exact ⟨hauthority.symm, store, hset, (Except.ok.inj h).symm⟩

theorem handle_eq_deliver {tx : Tx}
    (h : (k.handle s tx).isOk = true) :
    k.handle s tx = .ok (k.deliver s tx) := by
  unfold Keeper.deliver
  cases hhandle : k.handle s tx with
  | ok s' => rfl
  | error e => simp [hhandle, Except.isOk, Except.toBool] at h

theorem Created.state_eq {msg : MsgCreateDenom} {denom : Text}
    {creator : Account} {bank : Bank}
    (h : Created k s s' msg denom creator bank) :
    s' = ⟨k.bankKeeper.setDenomMetaData bank (Keeper.denomMetaData denom),
      addDenomFromCreator
        (s.store.set (authorityKey denom) (.authority ⟨msg.sender⟩))
        msg.sender denom⟩ :=
  (createDenomAfterValidation_eq_ok h.create).2

/-- Everything an accepted message can do, apart from moving coins. -/
inductive Written (k : Keeper Account Bank BankGenesis) (s s' : State Bank) :
    Msg → Prop
  | created {msg : MsgCreateDenom} {denom : Text} {creator : Account}
      (hdecode : k.codec.accAddressFromBech32 msg.sender = .ok creator)
      (hnamed : getTokenDenom msg.sender msg.subdenom = .ok denom)
      (hfresh : k.bankKeeper.getDenomMetaData s.bank denom = none)
      (hadmin : (⟨msg.sender⟩ : DenomAuthorityMetadata).validate k.codec =
        .ok ())
      (hstore : s'.store = addDenomFromCreator
        (s.store.set (authorityKey denom) (.authority ⟨msg.sender⟩))
        msg.sender denom)
      (hmetadata : ∀ d, k.bankKeeper.getDenomMetaData s'.bank d =
        if d = denom then some (Keeper.denomMetaData denom)
        else k.bankKeeper.getDenomMetaData s.bank d) :
      Written k s s' (.createDenom msg)
  | adminChanged {msg : MsgChangeAdmin}
      (hsender : getAuthorityMetadata s.store msg.denom = .ok ⟨msg.sender⟩)
      (hadmin : (⟨msg.newAdmin⟩ : DenomAuthorityMetadata).validate k.codec =
        .ok ())
      (hstate : s' = { s with
        store := s.store.set (authorityKey msg.denom)
          (.authority ⟨msg.newAdmin⟩) }) :
      Written k s s' (.changeAdmin msg)
  | paramsSet {msg : MsgUpdateParams} (hparams : msg.params.validate = .ok ())
      (hstate : s' = { s with
        store := s.store.set paramsKey (.params msg.params) }) :
      Written k s s' (.updateParams msg)
  | kept {msg : Msg} (hcreate : ∀ m, msg ≠ .createDenom m)
      (hchange : ∀ m, msg ≠ .changeAdmin m) (hstore : s'.store = s.store)
      (hmetadata : ∀ d, k.bankKeeper.getDenomMetaData s'.bank d = none →
        k.bankKeeper.getDenomMetaData s.bank d = none) :
      Written k s s' msg

theorem handle_written (hbank : k.bankKeeper.Lawful)
    (hpool : isCapabilityEnabled k.enabledCapabilities
      enableCommunityPoolFeeFunding = false) {tx : Tx}
    (h : k.handle s tx = .ok s') : Written k s s' tx.msg := by
  obtain ⟨msg, gas⟩ := tx
  have hsame {bank : Bank} (hmetadata : k.bankKeeper.getDenomMetaData bank =
      k.bankKeeper.getDenomMetaData s.bank) (d : Text)
      (hnone : k.bankKeeper.getDenomMetaData bank d = none) :
      k.bankKeeper.getDenomMetaData s.bank d = none := by
    rwa [← hmetadata]
  cases msg with
  | createDenom msg =>
      obtain ⟨⟨s₂, denom⟩, hhandle, rfl⟩ := map_eq_ok_iff.mp h
      obtain ⟨creator, bank, hcreated⟩ :=
        handleCreateDenom_eq_ok hbank hpool hhandle
      have hadmin := (createDenomAfterValidation_eq_ok hcreated.create).1
      obtain rfl := hcreated.state_eq
      refine .created hcreated.decoded hcreated.named hcreated.fresh hadmin
        rfl fun d => ?_
      rw [← hcreated.fee.metadata, hbank.getSet]
      rfl
  | mint msg =>
      obtain ⟨_, _, bank, -, hminted, rfl⟩ := handleMint_eq_ok hbank h
      exact .kept nofun nofun rfl (hsame hminted.metadata)
  | burn msg =>
      obtain ⟨_, _, bank, -, hburned, rfl⟩ := handleBurn_eq_ok hbank h
      exact .kept nofun nofun rfl (hsame hburned.metadata)
  | forceTransfer msg =>
      obtain ⟨-, _, _, _, bank, -, -, -, -, hsent, rfl⟩ :=
        handleForceTransfer_eq_ok hbank h
      exact .kept nofun nofun rfl (hsame hsent.metadata)
  | changeAdmin msg =>
      obtain ⟨hsender, store, hset, rfl⟩ := handleChangeAdmin_eq_ok h
      obtain ⟨hadmin, rfl⟩ := setAuthorityMetadata_eq_ok hset
      exact .adminChanged hsender hadmin rfl
  | setDenomMetadata msg =>
      obtain ⟨-, -, rfl⟩ := handleSetDenomMetadata_eq_ok h
      refine .kept nofun nofun rfl fun d hnone => ?_
      rw [hbank.getSet] at hnone
      split at hnone
      · cases hnone
      · exact hnone
  | updateParams msg =>
      obtain ⟨-, store, hset, rfl⟩ := handleUpdateParams_eq_ok h
      obtain ⟨hparams, rfl⟩ := setParams_eq_ok hset
      exact .paramsSet hparams rfl

/-- Everything a message can do to the store. -/
inductive Stored (k : Keeper Account Bank BankGenesis) (store : Store) :
    Store → Prop
  | kept : Stored k store store
  | created {sender denom : Text}
      (hadmin : (⟨sender⟩ : DenomAuthorityMetadata).validate k.codec = .ok ())
      (hfactory : ∃ parts, deconstructDenom k.codec denom = .ok parts) :
      Stored k store (addDenomFromCreator
        (store.set (authorityKey denom) (.authority ⟨sender⟩)) sender denom)
  | authority {denom : Text} {metadata : DenomAuthorityMetadata}
      (hadmin : metadata.validate k.codec = .ok ()) :
      Stored k store (store.set (authorityKey denom) (.authority metadata))
  | params {params : Params} (hparams : params.validate = .ok ()) :
      Stored k store (store.set paramsKey (.params params))

theorem deliver_stored (hbank : k.bankKeeper.Lawful)
    (hpool : isCapabilityEnabled k.enabledCapabilities
      enableCommunityPoolFeeFunding = false) (s : State Bank) (tx : Tx) :
    Stored k s.store (k.deliver s tx).store := by
  unfold Keeper.deliver
  cases h : k.handle s tx with
  | error e => exact .kept
  | ok s' =>
      have hwritten := handle_written hbank hpool h
      generalize tx.msg = msg at hwritten
      cases hwritten with
      | created hdecode hnamed hfresh hadmin hstore =>
          have hfactory := deconstructDenom_of_getTokenDenom hdecode hnamed
          exact hstore ▸ .created hadmin ⟨_, hfactory⟩
      | adminChanged hsender hadmin hstate =>
          exact hstate ▸ .authority hadmin
      | paramsSet hparams hstate => exact hstate ▸ .params hparams
      | kept _ _ hstore => exact hstore ▸ .kept

end IreBlockchain.TokenFactory

import IreBlockchain.TokenFactory.ByteStore

/-!
# Runs over the store in bytes

What a genesis and the accepted messages write, made in bytes.  The bytes that a
run leaves are those of the typed store.
-/

namespace IreBlockchain.TokenFactory.Pb

open IreBlockchain.Foundation IreBlockchain.Foundation.Wire

/-! ## The writes -/

section Writes

variable (ext : External) (coinOf : Coin → ext.Coin)
  {Account Bank BankGenesis : Type}

def createDenomAfterValidation (store : ByteStore) (creatorAddr denom : Text) :
    Option ByteStore := do
  let store ← setAuthorityMetadata store (utf8 denom)
    (encodeMetadata ⟨creatorAddr⟩)
  return addDenomFromCreator store (utf8 creatorAddr) (utf8 denom)

def initGenesisDenom (codec : AddressCodec Account) (store : ByteStore)
    (genDenom : TokenFactory.GenesisDenom) : Option ByteStore :=
  match deconstructDenom codec genDenom.denom with
  | .error _ => none
  | .ok (creator, _) => do
      let store ← createDenomAfterValidation store creator genDenom.denom
      setAuthorityMetadata store (utf8 genDenom.denom)
        (encodeMetadata genDenom.authorityMetadata)

def initGenesis (codec : AddressCodec Account)
    (genState : TokenFactory.GenesisState) : Option ByteStore := do
  let store ← setParams ext .empty (encodeParams ext coinOf genState.params)
  genState.factoryDenoms.foldlM (initGenesisDenom codec) store

/-- The writes of an accepted message. -/
def writeMsg (store : ByteStore) : Msg → Option ByteStore
  | .createDenom msg =>
      match getTokenDenom msg.sender msg.subdenom with
      | .error _ => none
      | .ok denom => createDenomAfterValidation store msg.sender denom
  | .changeAdmin msg =>
      setAuthorityMetadata store (utf8 msg.denom) (encodeMetadata ⟨msg.newAdmin⟩)
  | .updateParams msg =>
      setParams ext store (encodeParams ext coinOf msg.params)
  | .mint _ | .burn _ | .forceTransfer _ | .setDenomMetadata _ => some store

variable [DecidableEq Account]

/-- A message that is refused, or that fails, writes nothing. -/
def deliverBytes (k : Keeper Account Bank BankGenesis)
    (chain : State Bank × ByteStore) (tx : Tx) :
    Option (State Bank × ByteStore) :=
  match k.validateBasic tx.msg, k.handle chain.1 tx with
  | .ok _, .ok s => do
      let store ← writeMsg ext coinOf chain.2 tx.msg
      return (s, store)
  | _, _ => some chain

end Writes

/-! ## The bytes of the typed store -/

variable {ext : External} {coinOf : Coin → ext.Coin}
  {Account Bank BankGenesis : Type} [DecidableEq Account]
  {k : Keeper Account Bank BankGenesis} {s s' : State Bank}

theorem createDenomAfterValidation_encodeStore {bank : Bank} {store : Store}
    {creatorAddr denom : Text}
    (h : k.createDenomAfterValidation ⟨bank, store⟩ creatorAddr denom = .ok s') :
    createDenomAfterValidation (encodeStore ext coinOf store) creatorAddr denom =
      some (encodeStore ext coinOf s'.store) := by
  simp only [Keeper.createDenomAfterValidation, bind_eq_ok_iff] at h
  obtain ⟨stored, hset, hret⟩ := h
  obtain rfl := Except.ok.inj hret
  rw [createDenomAfterValidation, setAuthorityMetadata_encodeStore ext coinOf hset,
    Option.bind_eq_bind, Option.bind_some, addDenomFromCreator_encodeStore]
  rfl

theorem initGenesisDenom_encodeStore {genDenom : TokenFactory.GenesisDenom}
    (h : k.initGenesisDenom s genDenom = .ok s') :
    initGenesisDenom k.codec (encodeStore ext coinOf s.store) genDenom =
      some (encodeStore ext coinOf s'.store) := by
  simp only [Keeper.initGenesisDenom, bind_eq_ok_iff] at h
  obtain ⟨parts, hparts, s₁, hcreate, store, hset, hret⟩ := h
  obtain rfl := Except.ok.inj hret
  rw [initGenesisDenom, hparts]
  dsimp only
  rw [createDenomAfterValidation_encodeStore hcreate, Option.bind_eq_bind,
    Option.bind_some]
  exact setAuthorityMetadata_encodeStore ext coinOf hset

theorem foldlM_initGenesisDenom_encodeStore
    {genDenoms : List TokenFactory.GenesisDenom}
    (h : genDenoms.foldlM k.initGenesisDenom s = .ok s') :
    genDenoms.foldlM (initGenesisDenom k.codec) (encodeStore ext coinOf s.store) =
      some (encodeStore ext coinOf s'.store) := by
  induction genDenoms generalizing s with
  | nil =>
      obtain rfl := Except.ok.inj h
      rfl
  | cons genDenom genDenoms ih =>
      rw [List.foldlM_cons, bind_eq_ok_iff] at h
      obtain ⟨s₁, hstep, hrest⟩ := h
      rw [List.foldlM_cons, initGenesisDenom_encodeStore hstep]
      exact ih hrest

theorem initGenesis_encodeStore {bank : Bank} {genState : TokenFactory.GenesisState}
    (h : k.initGenesis ⟨bank, .empty⟩ genState = .ok s') :
    initGenesis ext coinOf k.codec genState =
      some (encodeStore ext coinOf s'.store) := by
  simp only [Keeper.initGenesis, bind_eq_ok_iff] at h
  obtain ⟨store, hset, hfold⟩ := h
  have hempty : encodeStore ext coinOf .empty = .empty := rfl
  rw [initGenesis, ← hempty, setParams_encodeStore ext coinOf hset]
  exact foldlM_initGenesisDenom_encodeStore hfold

theorem writeMsg_encodeStore (hbank : k.bankKeeper.Lawful)
    (hpool : isCapabilityEnabled k.enabledCapabilities
      enableCommunityPoolFeeFunding = false) {tx : Tx}
    (h : k.handle s tx = .ok s') :
    writeMsg ext coinOf (encodeStore ext coinOf s.store) tx.msg =
      some (encodeStore ext coinOf s'.store) := by
  obtain ⟨msg, gas⟩ := tx
  cases msg with
  | createDenom msg =>
      obtain ⟨⟨s₂, denom⟩, hhandle, rfl⟩ := map_eq_ok_iff.mp h
      obtain ⟨creator, bank, hcreated⟩ :=
        handleCreateDenom_eq_ok hbank hpool hhandle
      rw [writeMsg, hcreated.named]
      exact createDenomAfterValidation_encodeStore hcreated.create
  | changeAdmin msg =>
      obtain ⟨-, store, hset, rfl⟩ := handleChangeAdmin_eq_ok h
      exact setAuthorityMetadata_encodeStore ext coinOf hset
  | updateParams msg =>
      obtain ⟨-, store, hset, rfl⟩ := handleUpdateParams_eq_ok h
      exact setParams_encodeStore ext coinOf hset
  | mint msg =>
      obtain ⟨_, _, bank, -, -, rfl⟩ := handleMint_eq_ok hbank h
      rfl
  | burn msg =>
      obtain ⟨_, _, bank, -, -, rfl⟩ := handleBurn_eq_ok hbank h
      rfl
  | forceTransfer msg =>
      obtain ⟨-, _, _, _, bank, -, -, -, -, -, rfl⟩ :=
        handleForceTransfer_eq_ok hbank h
      rfl
  | setDenomMetadata msg =>
      obtain ⟨-, -, rfl⟩ := handleSetDenomMetadata_eq_ok h
      rfl

theorem deliverBytes_encodeStore (hbank : k.bankKeeper.Lawful)
    (hpool : isCapabilityEnabled k.enabledCapabilities
      enableCommunityPoolFeeFunding = false) (s : State Bank) (tx : Tx) :
    deliverBytes ext coinOf k (s, encodeStore ext coinOf s.store) tx =
      some (k.deliverTx s tx,
        encodeStore ext coinOf (k.deliverTx s tx).store) := by
  unfold deliverBytes Keeper.deliverTx Keeper.deliver
  cases hvalid : k.validateBasic tx.msg with
  | error e => rfl
  | ok u =>
      cases hhandle : k.handle s tx with
      | error e => rfl
      | ok s' =>
          dsimp only
          rw [writeMsg_encodeStore hbank hpool hhandle]
          rfl

/-- A run over the bytes goes through, and is the run over the typed store. -/
theorem run_encodeStore (hbank : k.bankKeeper.Lawful)
    (hpool : isCapabilityEnabled k.enabledCapabilities
      enableCommunityPoolFeeFunding = false) (s : State Bank) (txs : List Tx) :
    txs.foldlM (deliverBytes ext coinOf k) (s, encodeStore ext coinOf s.store) =
      some (run k.deliverTx s txs,
        encodeStore ext coinOf (run k.deliverTx s txs).store) := by
  induction txs generalizing s with
  | nil => rfl
  | cons tx txs ih =>
      rw [List.foldlM_cons, deliverBytes_encodeStore hbank hpool]
      exact ih (k.deliverTx s tx)

end IreBlockchain.TokenFactory.Pb

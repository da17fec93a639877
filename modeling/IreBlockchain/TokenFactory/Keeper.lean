import IreBlockchain.Foundation.PrefixStore
import IreBlockchain.TokenFactory.Bank

/-!
# The keeper of `x/tokenfactory`

The module's store, the creation of denoms and the bank actions of a denom's
admin.  Every function takes the state and returns the next one or a failure.
-/

namespace IreBlockchain.TokenFactory

open IreBlockchain.Foundation

/-- What the module stores, each kind under keys of its own. -/
inductive StoreValue where
  | params (params : Params)
  | authority (metadata : DenomAuthorityMetadata)
  | denom (denom : Text)
  deriving DecidableEq, Repr

abbrev Store := KVStore Text StoreValue

structure State (Bank : Type) where
  bank : Bank
  store : Store

structure Keeper (Account Bank BankGenesis : Type) where
  codec : AddressCodec Account
  bankKeeper : BankKeeper Account Bank BankGenesis
  moduleAddress : Text → Account
  fundCommunityPool : Bank → Coins → Account → Result Bank
  permAddrs : List (Text × List Text)
  blockedAddrs : List Text
  enabledCapabilities : List Text
  authority : Text

/-! ## Keys -/

def moduleName : Text := "tokenfactory".toList

def minter : Text := "minter".toList

def burner : Text := "burner".toList

def paramsKey : Text := [Char.ofNat 0]

def keySeparator : Text := "|".toList

def denomAuthorityMetadataKey : Text := "authoritymetadata".toList

def denomsPrefixKey : Text := "denoms".toList

def creatorPrefixKey : Text := "creator".toList

def getDenomPrefixStore (denom : Text) : Text :=
  join keySeparator [denomsPrefixKey, denom, []]

def getCreatorPrefix (creator : Text) : Text :=
  join keySeparator [creatorPrefixKey, creator, []]

def getCreatorsPrefix : Text :=
  join keySeparator [creatorPrefixKey, []]

def authorityKey (denom : Text) : Text :=
  getDenomPrefixStore denom ++ denomAuthorityMetadataKey

def creatorKey (creator denom : Text) : Text :=
  getCreatorPrefix creator ++ denom

/-! ## Store -/

/-- An absent value reads as the zero value. -/
def getParams (store : Store) : Params :=
  match store.get paramsKey with
  | some (.params params) => params
  | _ => ⟨[], 0⟩

def setParams (store : Store) (params : Params) : Result Store := do
  params.validate
  return store.set paramsKey (.params params)

def getAuthorityMetadata (store : Store) (denom : Text) :
    Result DenomAuthorityMetadata :=
  match store.get (authorityKey denom) with
  | none => .ok ⟨[]⟩
  | some (.authority metadata) => .ok metadata
  | some _ => .error (.plain "unmarshal".toList)

def addDenomFromCreator (store : Store) (creator denom : Text) : Store :=
  store.set (creatorKey creator denom) (.denom denom)

def getAllDenoms (store : Store) : List Text :=
  (store.iterate fun key => getCreatorsPrefix.isPrefixOf key).filterMap
    fun entry =>
      match entry.2 with
      | .denom denom => some denom
      | _ => none

def getDenomsFromCreator (store : Store) (creator : Text) : List Text :=
  (store.iterateUnder (getCreatorPrefix creator)).map Prod.fst

/-- The loop of `GetDenomsFromAdmin` over every denom of the index. -/
def getDenomsFromAdmin (store : Store) (admin : Text) : Result (List Text) :=
  (getAllDenoms store).foldlM (fun denoms denom => do
    let metadata ← getAuthorityMetadata store denom
    return if metadata.admin = admin then denoms ++ [denom] else denoms) []

variable {Account Bank BankGenesis : Type} [DecidableEq Account]

namespace Keeper

variable (k : Keeper Account Bank BankGenesis)

def setAuthorityMetadata (store : Store) (denom : Text)
    (metadata : DenomAuthorityMetadata) : Result Store := do
  metadata.validate k.codec
  return store.set (authorityKey denom) (.authority metadata)

def setAdmin (store : Store) (denom admin : Text) : Result Store :=
  k.setAuthorityMetadata store denom ⟨admin⟩

/-! ## Calls to the bank -/

def blockedAddr (account : Account) : Bool :=
  k.blockedAddrs.any fun name => k.moduleAddress name = account

def hasPermission (module permission : Text) : Bool :=
  k.permAddrs.any fun entry => entry.1 = module && entry.2.contains permission

def sendCoinsFromAccountToModule (b : Bank) (src : Account) (module : Text)
    (coins : Coins) : Result Bank :=
  k.bankKeeper.sendCoins b src (k.moduleAddress module) coins

def sendCoinsFromModuleToAccount (b : Bank) (module : Text) (dst : Account)
    (coins : Coins) : Result Bank := do
  ensure (k.blockedAddr dst = false)
    (.plain "is not allowed to receive funds".toList)
  k.bankKeeper.sendCoins b (k.moduleAddress module) dst coins

/-- The bank panics when the module may not mint. -/
def mintCoins (b : Bank) (module : Text) (coins : Coins) : Result Bank := do
  ensure (k.hasPermission module minter = true)
    (.panic "does not have permissions to mint tokens".toList)
  k.bankKeeper.mintCoins b (k.moduleAddress module) coins

def burnCoins (b : Bank) (module : Text) (coins : Coins) : Result Bank := do
  ensure (k.hasPermission module burner = true)
    (.panic "does not have permissions to burn tokens".toList)
  k.bankKeeper.burnCoins b (k.moduleAddress module) coins

/-! ## Creating denoms -/

def denomMetaData (denom : Text) : Metadata where
  description := []
  denomUnits := [⟨denom, 0, []⟩]
  base := denom
  display := denom
  name := denom
  symbol := denom
  uri := []
  uriHash := []

def createDenomAfterValidation (s : State Bank) (creatorAddr denom : Text) :
    Result (State Bank) := do
  let bank := k.bankKeeper.setDenomMetaData s.bank (denomMetaData denom)
  let store ← k.setAuthorityMetadata s.store denom ⟨creatorAddr⟩
  return ⟨bank, addDenomFromCreator store creatorAddr denom⟩

def validateCreateDenom (s : State Bank) (creatorAddr subdenom : Text) :
    Result Text := do
  let denom ← getTokenDenom creatorAddr subdenom
  ensure (k.bankKeeper.getDenomMetaData s.bank denom = none)
    (.registered .errDenomExists)
  return denom

/-- Without community pool funding the fee is burned. -/
def chargeForCreateDenom (s : State Bank) (creatorAddr : Text) (gas : Nat) :
    Result (State Bank) := do
  let params := getParams s.store
  let s ← (if params.denomCreationFee ≠ [] then do
      let accAddr ← k.codec.decodeOr .plain creatorAddr
      if isCapabilityEnabled k.enabledCapabilities
          enableCommunityPoolFeeFunding then do
        let bank ← k.fundCommunityPool s.bank params.denomCreationFee accAddr
        return { s with bank }
      else do
        let bank ← k.sendCoinsFromAccountToModule s.bank accAddr moduleName
          params.denomCreationFee
        let bank ← k.burnCoins bank moduleName params.denomCreationFee
        return { s with bank }
    else return s)
  -- Consuming more gas than is left panics.
  ensure (params.denomCreationGasConsume ≤ gas)
    (.panic "consume denom creation gas".toList)
  return s

def createDenom (s : State Bank) (creatorAddr subdenom : Text) (gas : Nat) :
    Result (State Bank × Text) := do
  let denom ← k.validateCreateDenom s creatorAddr subdenom
  let s ← k.chargeForCreateDenom s creatorAddr gas
  let s ← k.createDenomAfterValidation s creatorAddr denom
  return (s, denom)

/-! ## Bank actions -/

def mintTo (b : Bank) (amount : Coin) (mintTo : Text) : Result Bank := do
  let _ ← deconstructDenom k.codec amount.denom
  let coins ← newCoins amount
  let b ← k.mintCoins b moduleName coins
  let addr ← k.codec.decodeOr .plain mintTo
  ensure (k.blockedAddr addr = false)
    (.plain ("failed to mint to blocked address: ".toList ++ k.codec.string addr))
  k.sendCoinsFromModuleToAccount b moduleName addr coins

def burnFrom (b : Bank) (amount : Coin) (burnFrom : Text) : Result Bank := do
  let _ ← deconstructDenom k.codec amount.denom
  let addr ← k.codec.decodeOr .plain burnFrom
  ensure (k.blockedAddr addr = false)
    (.plain
      ("failed to burn from blocked address: ".toList ++ k.codec.string addr))
  let coins ← newCoins amount
  let b ← k.sendCoinsFromAccountToModule b addr moduleName coins
  k.burnCoins b moduleName coins

/-- `x/auth` creates the account of a listed module, so it is always found. -/
def forceTransfer (b : Bank) (amount : Coin) (fromAddr toAddr : Text) :
    Result Bank := do
  let _ ← deconstructDenom k.codec amount.denom
  let fromSdkAddr ← k.codec.decodeOr .plain fromAddr
  ensure (∀ entry ∈ k.permAddrs, k.moduleAddress entry.1 ≠ fromSdkAddr)
    (.plain "send from module acc not available".toList)
  let toSdkAddr ← k.codec.decodeOr .plain toAddr
  ensure (k.blockedAddr toSdkAddr = false)
    (.plain ("failed to force transfer to blocked address: ".toList ++
      k.codec.string toSdkAddr))
  let coins ← newCoins amount
  k.bankKeeper.sendCoins b fromSdkAddr toSdkAddr coins

end Keeper

end IreBlockchain.TokenFactory

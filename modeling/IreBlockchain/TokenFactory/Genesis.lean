import IreBlockchain.TokenFactory.MsgServer

/-!
# Genesis of `x/tokenfactory` and of the app

The module exports its parameters and the denoms of the creator index with
their admins; an import creates each denom again.  The app imports its modules
in the order of `app_config.go`, the bank before the token factory.
-/

namespace IreBlockchain.TokenFactory

open IreBlockchain.Foundation

structure GenesisDenom where
  denom : Text
  authorityMetadata : DenomAuthorityMetadata
  deriving DecidableEq, Repr

structure GenesisState where
  params : Params
  factoryDenoms : List GenesisDenom
  deriving DecidableEq, Repr

def defaultGenesis : GenesisState := ⟨defaultParams, []⟩

variable {Account Bank BankGenesis : Type} [DecidableEq Account]

namespace Keeper

variable (k : Keeper Account Bank BankGenesis)

def initGenesisDenom (s : State Bank) (genDenom : GenesisDenom) :
    Result (State Bank) := do
  let (creator, _) ← deconstructDenom k.codec genDenom.denom
  let s ← k.createDenomAfterValidation s creator genDenom.denom
  let store ← k.setAuthorityMetadata s.store genDenom.denom
    genDenom.authorityMetadata
  return { s with store }

/-- Every failure panics. -/
def initGenesis (s : State Bank) (genState : GenesisState) :
    Result (State Bank) := do
  let store ← setParams s.store genState.params
  genState.factoryDenoms.foldlM k.initGenesisDenom { s with store }

def exportGenesis (store : Store) : Result GenesisState := do
  let genDenoms ← (getAllDenoms store).mapM fun denom => do
    let authorityMetadata ← getAuthorityMetadata store denom
    return ⟨denom, authorityMetadata⟩
  return ⟨getParams store, genDenoms⟩

end Keeper

/-! ## The app -/

def initGenesisOrder : List Text :=
  ["consensus", "auth", "bank", "distribution", "staking", "slashing", "gov",
    "mint", "genutil", "evidence", "authz", "feegrant", "vesting", "nft",
    "group", "upgrade", "circuit", "epochs", "ibc", "transfer",
    "interchainaccounts", "tokenfactory"].map String.toList

def bankModuleName : Text := "bank".toList

/-- The two parts of the app's genesis that hold denoms. -/
structure AppGenesis (BankGenesis : Type) where
  bank : BankGenesis
  tokenfactory : GenesisState

namespace Keeper

variable (k : Keeper Account Bank BankGenesis)

/-- The other modules touch neither denom metadata nor the module's store. -/
def initModule (genesis : AppGenesis BankGenesis) (s : State Bank)
    (module : Text) : Result (State Bank) :=
  if module = bankModuleName then
    .ok { s with bank := k.bankKeeper.initGenesis s.bank genesis.bank }
  else if module = moduleName then k.initGenesis s genesis.tokenfactory
  else .ok s

def initChain (genesis : AppGenesis BankGenesis) : Result (State Bank) :=
  initGenesisOrder.foldlM (k.initModule genesis) ⟨k.bankKeeper.empty, .empty⟩

def exportApp (s : State Bank) : Result (AppGenesis BankGenesis) := do
  let tokenfactory ← exportGenesis s.store
  return ⟨k.bankKeeper.exportGenesis s.bank, tokenfactory⟩

end Keeper

def moduleAccPerms : List (Text × List Text) :=
  [("fee_collector".toList, []),
    ("distribution".toList, []),
    ("mint".toList, [minter]),
    ("bonded_tokens_pool".toList, [burner, "staking".toList]),
    ("not_bonded_tokens_pool".toList, [burner, "staking".toList]),
    ("gov".toList, [burner]),
    ("nft".toList, []),
    ("transfer".toList, [minter, burner]),
    ("interchainaccounts".toList, []),
    (moduleName, [minter, burner])]

def blockAccAddrs : List Text :=
  ["fee_collector", "distribution", "mint", "bonded_tokens_pool",
    "not_bonded_tokens_pool", "nft", "tokenfactory"].map String.toList

def tokenfactoryCapabilities : List Text :=
  [enableSetMetadata, enableBurnFrom]

structure Sdk (Account Bank BankGenesis : Type) where
  codec : AddressCodec Account
  bankKeeper : BankKeeper Account Bank BankGenesis
  moduleAddress : Text → Account
  fundCommunityPool : Bank → Coins → Account → Result Bank

structure Sdk.Lawful (sdk : Sdk Account Bank BankGenesis) : Prop where
  codec : sdk.codec.Lawful
  bank : sdk.bankKeeper.Lawful

def Sdk.keeperWith (sdk : Sdk Account Bank BankGenesis)
    (enabledCapabilities : List Text) : Keeper Account Bank BankGenesis where
  codec := sdk.codec
  bankKeeper := sdk.bankKeeper
  moduleAddress := sdk.moduleAddress
  fundCommunityPool := sdk.fundCommunityPool
  permAddrs := moduleAccPerms
  blockedAddrs := blockAccAddrs
  enabledCapabilities := enabledCapabilities
  authority := sdk.codec.string (sdk.moduleAddress "gov".toList)

/-- The keeper that `registerTokenFactoryModule` builds. -/
def Sdk.keeper (sdk : Sdk Account Bank BankGenesis) :
    Keeper Account Bank BankGenesis :=
  sdk.keeperWith tokenfactoryCapabilities

/-- The states of a chain that was started from some genesis. -/
def Keeper.Reachable (k : Keeper Account Bank BankGenesis) (s : State Bank) :
    Prop :=
  ∃ genesis s₀ txs, k.initChain genesis = .ok s₀ ∧ s = run k.deliver s₀ txs

end IreBlockchain.TokenFactory

import IreBlockchain.Foundation.Runs
import IreBlockchain.TokenFactory.Keeper

/-!
# The message server of `x/tokenfactory`

One handler for each message.  A message that fails, by an error or by a panic,
is rolled back.
-/

namespace IreBlockchain.TokenFactory

open IreBlockchain.Foundation

structure MsgCreateDenom where
  sender : Text
  subdenom : Text
  deriving DecidableEq, Repr

structure MsgMint where
  sender : Text
  amount : Coin
  mintToAddress : Text
  deriving DecidableEq, Repr

structure MsgBurn where
  sender : Text
  amount : Coin
  burnFromAddress : Text
  deriving DecidableEq, Repr

structure MsgForceTransfer where
  sender : Text
  amount : Coin
  transferFromAddress : Text
  transferToAddress : Text
  deriving DecidableEq, Repr

structure MsgChangeAdmin where
  sender : Text
  denom : Text
  newAdmin : Text
  deriving DecidableEq, Repr

structure MsgSetDenomMetadata where
  sender : Text
  metadata : Metadata
  deriving DecidableEq, Repr

structure MsgUpdateParams where
  authority : Text
  params : Params
  deriving DecidableEq, Repr

inductive Msg where
  | createDenom (msg : MsgCreateDenom)
  | mint (msg : MsgMint)
  | burn (msg : MsgBurn)
  | forceTransfer (msg : MsgForceTransfer)
  | changeAdmin (msg : MsgChangeAdmin)
  | setDenomMetadata (msg : MsgSetDenomMetadata)
  | updateParams (msg : MsgUpdateParams)
  deriving DecidableEq, Repr

def Msg.sender : Msg → Text
  | .createDenom msg => msg.sender
  | .mint msg => msg.sender
  | .burn msg => msg.sender
  | .forceTransfer msg => msg.sender
  | .changeAdmin msg => msg.sender
  | .setDenomMetadata msg => msg.sender
  | .updateParams msg => msg.authority

structure Tx where
  msg : Msg
  gas : Nat
  deriving DecidableEq, Repr

/-- The address a mint goes to, the sender's own by default. -/
def MsgMint.target (msg : MsgMint) : Text :=
  if msg.mintToAddress = [] then msg.sender else msg.mintToAddress

def MsgBurn.target (msg : MsgBurn) : Text :=
  if msg.burnFromAddress = [] then msg.sender else msg.burnFromAddress

variable {Account Bank BankGenesis : Type} [DecidableEq Account]

def MsgCreateDenom.validateBasic (codec : AddressCodec Account)
    (msg : MsgCreateDenom) : Result Unit := do
  let _ ← codec.decodeOr
    (fun e => .wrapped .errInvalidAddress
      ("Invalid sender address (".toList ++ e ++ ")".toList)) msg.sender
  let _ ← (getTokenDenom msg.sender msg.subdenom).mapError
    fun e => .wrapped .errInvalidDenom e.text
  return ()

namespace Keeper

variable (k : Keeper Account Bank BankGenesis)

def handleCreateDenom (s : State Bank) (msg : MsgCreateDenom) (gas : Nat) :
    Result (State Bank × Text) := do
  msg.validateBasic k.codec
  k.createDenom s msg.sender msg.subdenom gas

def authorize (s : State Bank) (denom sender : Text) : Result Unit := do
  let authorityMetadata ← getAuthorityMetadata s.store denom
  ensure (sender = authorityMetadata.admin) (.registered .errUnauthorized)

def handleMint (s : State Bank) (msg : MsgMint) : Result (State Bank) := do
  ensure ((k.bankKeeper.getDenomMetaData s.bank msg.amount.denom).isSome = true)
    (.wrapped .errDenomDoesNotExist ("denom: ".toList ++ msg.amount.denom))
  authorize s msg.amount.denom msg.sender
  let bank ← k.mintTo s.bank msg.amount msg.target
  return { s with bank }

def handleBurn (s : State Bank) (msg : MsgBurn) : Result (State Bank) := do
  authorize s msg.amount.denom msg.sender
  ensure (msg.burnFromAddress = [] ∨
      isCapabilityEnabled k.enabledCapabilities enableBurnFrom = true)
    (.registered .errCapabilityNotEnabled)
  let bank ← k.burnFrom s.bank msg.amount msg.target
  return { s with bank }

def handleForceTransfer (s : State Bank) (msg : MsgForceTransfer) :
    Result (State Bank) := do
  ensure (isCapabilityEnabled k.enabledCapabilities enableForceTransfer = true)
    (.registered .errCapabilityNotEnabled)
  authorize s msg.amount.denom msg.sender
  let bank ← k.forceTransfer s.bank msg.amount msg.transferFromAddress
    msg.transferToAddress
  return { s with bank }

def handleChangeAdmin (s : State Bank) (msg : MsgChangeAdmin) :
    Result (State Bank) := do
  authorize s msg.denom msg.sender
  let store ← k.setAdmin s.store msg.denom msg.newAdmin
  return { s with store }

/-- Neither the handler nor the bank compares the base with a factory denom. -/
def handleSetDenomMetadata (s : State Bank) (msg : MsgSetDenomMetadata) :
    Result (State Bank) := do
  ensure (isCapabilityEnabled k.enabledCapabilities enableSetMetadata = true)
    (.registered .errCapabilityNotEnabled)
  k.bankKeeper.validateMetadata msg.metadata
  authorize s msg.metadata.base msg.sender
  return { s with bank := k.bankKeeper.setDenomMetaData s.bank msg.metadata }

def handleUpdateParams (s : State Bank) (req : MsgUpdateParams) :
    Result (State Bank) := do
  ensure (k.authority = req.authority)
    (.wrapped .errInvalidSigner ("invalid authority; expected ".toList ++
      k.authority ++ ", got ".toList ++ req.authority))
  let store ← setParams s.store req.params
  return { s with store }

def handle (s : State Bank) (tx : Tx) : Result (State Bank) :=
  match tx.msg with
  | .createDenom msg => Prod.fst <$> k.handleCreateDenom s msg tx.gas
  | .mint msg => k.handleMint s msg
  | .burn msg => k.handleBurn s msg
  | .forceTransfer msg => k.handleForceTransfer s msg
  | .changeAdmin msg => k.handleChangeAdmin s msg
  | .setDenomMetadata msg => k.handleSetDenomMetadata s msg
  | .updateParams msg => k.handleUpdateParams s msg

/-- Deliver a message; a failed one leaves the state where it was. -/
def deliver (s : State Bank) (tx : Tx) : State Bank :=
  match k.handle s tx with
  | .ok s' => s'
  | .error _ => s

end Keeper

end IreBlockchain.TokenFactory

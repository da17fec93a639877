import IreBlockchain.Foundation.Results
import IreBlockchain.Foundation.Text

/-!
# Types of `x/tokenfactory`

Errors, coins, denoms, parameters and metadata.  Addresses are texts; what they
stand for is decided by an `AddressCodec`, which belongs to the SDK.
-/

namespace IreBlockchain.TokenFactory

open IreBlockchain.Foundation

/-- The errors the module registers, and the SDK errors it wraps. -/
inductive Sentinel where
  | errDenomExists
  | errUnauthorized
  | errInvalidDenom
  | errInvalidCreator
  | errInvalidAuthorityMetadata
  | errInvalidGenesis
  | errSubdenomTooLong
  | errCreatorTooLong
  | errDenomDoesNotExist
  | errCapabilityNotEnabled
  | errInvalidAddress
  | errInvalidCoins
  | errInvalidSigner
  deriving DecidableEq, Repr

def Sentinel.description : Sentinel → Text
  | .errDenomExists =>
      "attempting to create a denom that already exists (has bank metadata)".toList
  | .errUnauthorized => "unauthorized account".toList
  | .errInvalidDenom => "invalid denom".toList
  | .errInvalidCreator => "invalid creator".toList
  | .errInvalidAuthorityMetadata => "invalid authority metadata".toList
  | .errInvalidGenesis => "invalid genesis".toList
  | .errSubdenomTooLong => "subdenom too long, max length is 44 bytes".toList
  | .errCreatorTooLong => "creator too long, max length is 75 bytes".toList
  | .errDenomDoesNotExist => "denom does not exist".toList
  | .errCapabilityNotEnabled =>
      "this capability is not enabled on chain".toList
  | .errInvalidAddress => "invalid address".toList
  | .errInvalidCoins => "invalid coins".toList
  | .errInvalidSigner =>
      "expected gov account as only signer for proposal message".toList

/-- How a call can fail; a panic is recovered and rolled back like an error. -/
inductive Failure where
  | registered (error : Sentinel)
  | wrapped (error : Sentinel) (context : Text)
  | plain (text : Text)
  | panic (text : Text)
  deriving DecidableEq, Repr

def Failure.text : Failure → Text
  | .registered error => error.description
  | .wrapped error context => context ++ ": ".toList ++ error.description
  | .plain text => text
  | .panic text => text

abbrev Result := Except Failure

/-! ## Coins -/

structure Coin where
  denom : Text
  amount : Int
  deriving DecidableEq, Repr

abbrev Coins := List Coin

def Coins.amountOf (coins : Coins) (denom : Text) : Nat :=
  (coins.map fun coin => if coin.denom = denom then coin.amount.toNat else 0).sum

@[simp] theorem Coins.amountOf_nil (denom : Text) :
    Coins.amountOf [] denom = 0 := rfl

/-- The SDK's denom format, `[a-zA-Z][a-zA-Z0-9/:._-]{2,127}`. -/
def denomFormat : Text → Bool
  | [] => false
  | first :: rest =>
      first.isAlpha && decide (2 ≤ rest.length) && decide (rest.length ≤ 127) &&
        rest.all fun c => c.isAlphanum || "/:._-".toList.contains c

def validateDenom (denom : Text) : Result Unit :=
  ensure (denomFormat denom = true)
    (.plain ("invalid denom: ".toList ++ denom))

/-- `sdk.NewCoins` of one coin: it panics on an invalid coin and drops zero. -/
def newCoins (coin : Coin) : Result Coins := do
  ensure (denomFormat coin.denom = true ∧ 0 ≤ coin.amount)
    (.panic ("invalid coin ".toList ++ coin.denom))
  return if coin.amount = 0 then [] else [coin]

/-- `Coins.Validate`: positive amounts in strictly increasing denoms. -/
def Coins.validate (coins : Coins) : Bool :=
  coins.all (fun coin => denomFormat coin.denom && decide (0 < coin.amount)) &&
    decide (coins.Pairwise fun a b => a.denom < b.denom)

/-! ## Addresses and denoms -/

structure AddressCodec (Account : Type) where
  accAddressFromBech32 : Text → Except Text Account
  string : Account → Text

structure AddressCodec.Lawful {Account : Type} (codec : AddressCodec Account) :
    Prop where
  decode_string : ∀ account, codec.accAddressFromBech32 (codec.string account) =
    .ok account

variable {Account : Type} (codec : AddressCodec Account)

def AddressCodec.decodeOr (failure : Text → Failure) (address : Text) :
    Result Account :=
  (codec.accAddressFromBech32 address).mapError failure

def moduleDenomPrefix : Text := "factory".toList

def maxSubdenomLength : Nat := 44

def maxHrpLength : Nat := 16

def maxCreatorLength : Nat := 59 + maxHrpLength

def getTokenDenom (creator subdenom : Text) : Result Text := do
  ensure (byteLength subdenom ≤ maxSubdenomLength) (.registered .errSubdenomTooLong)
  ensure (byteLength creator ≤ maxCreatorLength) (.registered .errCreatorTooLong)
  ensure ('/' ∉ creator) (.registered .errInvalidCreator)
  let denom := join ['/'] [moduleDenomPrefix, creator, subdenom]
  validateDenom denom
  return denom

/-- The creator, decoded and spelled again, and the subdenom. -/
def deconstructDenom (denom : Text) : Result (Text × Text) := do
  validateDenom denom
  match denom.splitOn '/' with
  | factory :: creator :: subdenom :: rest =>
      ensure (factory = moduleDenomPrefix)
        (.wrapped .errInvalidDenom
          ("denom prefix is incorrect. Is: ".toList ++ factory ++
            ".  Should be: ".toList ++ moduleDenomPrefix))
      let creatorAddr ← codec.decodeOr
        (fun e => .wrapped .errInvalidDenom
          ("Invalid creator address (".toList ++ e ++ ")".toList)) creator
      return (codec.string creatorAddr, join ['/'] (subdenom :: rest))
  | _ =>
      .error (.wrapped .errInvalidDenom
        ("not enough parts of denom ".toList ++ denom))

/-! ## Parameters and metadata -/

structure Params where
  denomCreationFee : Coins
  denomCreationGasConsume : Nat
  deriving DecidableEq, Repr

def defaultBondDenom : Text := "uire".toList

def defaultParams : Params where
  denomCreationFee := [⟨defaultBondDenom, 10000000⟩]
  denomCreationGasConsume := 2000000

def Params.validate (p : Params) : Result Unit :=
  ensure (p.denomCreationFee.validate = true)
    (.plain "invalid denom creation fee".toList)

structure DenomAuthorityMetadata where
  admin : Text
  deriving DecidableEq, Repr

def DenomAuthorityMetadata.validate (metadata : DenomAuthorityMetadata) :
    Result Unit :=
  if metadata.admin ≠ [] then do
    let _ ← codec.decodeOr .plain metadata.admin
    return ()
  else return ()

structure DenomUnit where
  denom : Text
  exponent : Nat
  aliases : List Text
  deriving DecidableEq, Repr

structure Metadata where
  description : Text
  denomUnits : List DenomUnit
  base : Text
  display : Text
  name : Text
  symbol : Text
  uri : Text
  uriHash : Text
  deriving DecidableEq, Repr

def enableSetMetadata : Text := "enable_metadata".toList

def enableForceTransfer : Text := "enable_force_transfer".toList

def enableBurnFrom : Text := "enable_burn_from".toList

def enableCommunityPoolFeeFunding : Text :=
  "enable_community_pool_fee_funding".toList

def isCapabilityEnabled (enabledCapabilities : List Text) (capability : Text) :
    Bool :=
  enabledCapabilities.contains capability

end IreBlockchain.TokenFactory

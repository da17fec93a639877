import IreBlockchain.TokenFactory.Effects

/-!
# Stateless checks

`ValidateBasic` of every message and `Validate` of a genesis.  The app runs
`ValidateBasic` before it hands a message to its handler.
-/

namespace IreBlockchain.TokenFactory

open IreBlockchain.Foundation

/-- `Coin.IsValid`; an amount may be zero. -/
def Coin.isValid (coin : Coin) : Bool :=
  denomFormat coin.denom && decide (0 ≤ coin.amount)

def Coin.string (coin : Coin) : Text :=
  (toString coin.amount).toList ++ coin.denom

variable {Account Bank BankGenesis : Type}

section Messages

variable (codec : AddressCodec Account)

def AddressCodec.decodeAs (what address : Text) : Result Account :=
  codec.decodeOr
    (fun e => .wrapped .errInvalidAddress
      ("Invalid ".toList ++ what ++ " (".toList ++ e ++ ")".toList)) address

def AddressCodec.checkOptional (what address : Text) : Result Unit :=
  if address ≠ [] then do
    let _ ← codec.decodeAs what address
    return ()
  else return ()

def MsgMint.validateBasic (msg : MsgMint) : Result Unit := do
  let _ ← codec.decodeAs "sender address".toList msg.sender
  codec.checkOptional "mint to address".toList msg.mintToAddress
  ensure (msg.amount.isValid = true ∧ msg.amount.amount ≠ 0)
    (.wrapped .errInvalidCoins msg.amount.string)

/-- The amount is checked before the address to burn from. -/
def MsgBurn.validateBasic (msg : MsgBurn) : Result Unit := do
  let _ ← codec.decodeAs "sender address".toList msg.sender
  ensure (msg.amount.isValid = true ∧ msg.amount.amount ≠ 0)
    (.wrapped .errInvalidCoins msg.amount.string)
  codec.checkOptional "burn from address".toList msg.burnFromAddress

/-- A forced transfer of nothing is valid. -/
def MsgForceTransfer.validateBasic (msg : MsgForceTransfer) : Result Unit := do
  let _ ← codec.decodeAs "sender address".toList msg.sender
  let _ ← codec.decodeAs "from address".toList msg.transferFromAddress
  let _ ← codec.decodeAs "to address".toList msg.transferToAddress
  ensure (msg.amount.isValid = true)
    (.wrapped .errInvalidCoins msg.amount.string)

def MsgChangeAdmin.validateBasic (msg : MsgChangeAdmin) : Result Unit := do
  let _ ← codec.decodeAs "sender address".toList msg.sender
  let _ ← codec.decodeAs "address".toList msg.newAdmin
  let _ ← deconstructDenom codec msg.denom
  return ()

def MsgSetDenomMetadata.validateBasic (validate : Metadata → Result Unit)
    (msg : MsgSetDenomMetadata) : Result Unit := do
  let _ ← codec.decodeAs "sender address".toList msg.sender
  validate msg.metadata
  let _ ← deconstructDenom codec msg.metadata.base
  return ()

def MsgUpdateParams.validateBasic (msg : MsgUpdateParams) : Result Unit := do
  let _ ← codec.decodeOr
    (fun e => .plain ("invalid authority address: ".toList ++ e)) msg.authority
  msg.params.validate

end Messages

/-! ## Genesis -/

section Genesis

variable (codec : AddressCodec Account)

def checkGenesisAdmin (admin : Text) : Result Unit :=
  if admin ≠ [] then do
    let _ ← codec.decodeOr
      (fun e => .wrapped .errInvalidAuthorityMetadata
        ("Invalid admin address (".toList ++ e ++ ")".toList)) admin
    return ()
  else return ()

def validateFactoryDenoms (seenDenoms : List Text) :
    List GenesisDenom → Result Unit
  | [] => .ok ()
  | genDenom :: rest => do
      ensure (genDenom.denom ∉ seenDenoms)
        (.wrapped .errInvalidGenesis
          ("duplicate denom: ".toList ++ genDenom.denom))
      let _ ← deconstructDenom codec genDenom.denom
      checkGenesisAdmin codec genDenom.authorityMetadata.admin
      validateFactoryDenoms (genDenom.denom :: seenDenoms) rest

def GenesisState.validate (gs : GenesisState) : Result Unit := do
  gs.params.validate
  validateFactoryDenoms codec [] gs.factoryDenoms

end Genesis

/-! ## Delivery -/

variable (k : Keeper Account Bank BankGenesis)

def Keeper.validateBasic : Msg → Result Unit
  | .createDenom msg => msg.validateBasic k.codec
  | .mint msg => msg.validateBasic k.codec
  | .burn msg => msg.validateBasic k.codec
  | .forceTransfer msg => msg.validateBasic k.codec
  | .changeAdmin msg => msg.validateBasic k.codec
  | .setDenomMetadata msg =>
      msg.validateBasic k.codec k.bankKeeper.validateMetadata
  | .updateParams msg => msg.validateBasic k.codec

variable {k}

theorem validateBasic_sender {msg : Msg} (h : k.validateBasic msg = .ok ()) :
    ∃ account, k.codec.accAddressFromBech32 msg.sender = .ok account := by
  cases msg <;>
    simp only [Keeper.validateBasic, MsgCreateDenom.validateBasic,
      MsgMint.validateBasic, MsgBurn.validateBasic,
      MsgForceTransfer.validateBasic, MsgChangeAdmin.validateBasic,
      MsgSetDenomMetadata.validateBasic, MsgUpdateParams.validateBasic,
      AddressCodec.decodeAs, bind_eq_ok_iff,
      AddressCodec.decodeOr_eq_ok_iff] at h <;>
    obtain ⟨account, haccount, -⟩ := h <;>
    exact ⟨account, haccount⟩

theorem validateBasic_changeAdmin {msg : MsgChangeAdmin}
    (h : k.validateBasic (.changeAdmin msg) = .ok ()) :
    (∃ account, k.codec.accAddressFromBech32 msg.newAdmin = .ok account) ∧
      ∃ parts, deconstructDenom k.codec msg.denom = .ok parts := by
  simp only [Keeper.validateBasic, MsgChangeAdmin.validateBasic,
    AddressCodec.decodeAs, bind_eq_ok_iff,
    AddressCodec.decodeOr_eq_ok_iff] at h
  obtain ⟨-, -, account, haccount, parts, hparts, -⟩ := h
  exact ⟨⟨account, haccount⟩, parts, hparts⟩

variable [DecidableEq Account] {s : State Bank}

/-- A message that fails its check never reaches its handler. -/
def Keeper.deliverTx (k : Keeper Account Bank BankGenesis) (s : State Bank)
    (tx : Tx) : State Bank :=
  match k.validateBasic tx.msg with
  | .ok _ => k.deliver s tx
  | .error _ => s

def Keeper.Accepts (k : Keeper Account Bank BankGenesis) (s : State Bank)
    (tx : Tx) : Prop :=
  k.validateBasic tx.msg = .ok () ∧ (k.handle s tx).isOk = true

theorem deliverTx_cases (k : Keeper Account Bank BankGenesis) (s : State Bank)
    (tx : Tx) :
    (¬k.Accepts s tx ∧ k.deliverTx s tx = s) ∨
      (k.Accepts s tx ∧ k.handle s tx = .ok (k.deliverTx s tx)) := by
  unfold Keeper.Accepts Keeper.deliverTx Keeper.deliver
  cases hvalid : k.validateBasic tx.msg with
  | error e => exact .inl ⟨by simp, rfl⟩
  | ok u =>
      cases hhandle : k.handle s tx with
      | error e => exact .inl ⟨by simp [Except.isOk, Except.toBool], rfl⟩
      | ok s' => exact .inr ⟨⟨rfl, rfl⟩, rfl⟩

theorem accepts_createDenom {msg : MsgCreateDenom} {gas : Nat}
    (h : (k.handle s ⟨.createDenom msg, gas⟩).isOk = true) :
    k.Accepts s ⟨.createDenom msg, gas⟩ := by
  refine ⟨?_, h⟩
  obtain ⟨result, hresult, -⟩ := map_eq_ok_iff.mp (handle_eq_deliver h)
  simp only [Keeper.handleCreateDenom, bind_eq_ok_iff] at hresult
  obtain ⟨_, hvalid, -⟩ := hresult
  exact hvalid

end IreBlockchain.TokenFactory

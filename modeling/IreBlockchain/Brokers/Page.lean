import IreBlockchain.Brokers.Records
import IreBlockchain.Foundation.EventLoop

/-!
# The brokers page

The handlers of the page as scripts: each `await` of the source is one, and a
promise that nobody awaits is a callback.  What the page draws is left out.
-/

namespace IreBlockchain.Brokers

open IreBlockchain.Foundation

inductive DeskStatus
  | working
  | ready
  deriving DecidableEq

structure Payment where
  txHash : Text
  sender : Text
  deriving DecidableEq

/--
The variables of the page and the parts of local storage it keeps.  `verified`
is a history of successful verifications that no handler reads.
-/
structure Page where
  address : Option Text
  chainId : Option Nat
  id : Option Nat
  minted : Option Nat
  box : Bool
  activations : KVStore Text Record
  working : KVStore Text DeskStatus
  verified : List Payment

namespace Page

def storageAddress (page : Page) : Text :=
  page.address.getD "unsigned".toList

def activation (page : Page) (id : Nat) : Option Record :=
  page.activations.get (activationStorageKey page.storageAddress id)

def isActivated (page : Page) (id : Nat) : Bool :=
  page.address.isSome &&
    (page.activation id).any activationRecordIsConfirmed

def workingRecord (page : Page) (id : Nat) : Option DeskStatus :=
  page.working.get (workingStorageKey page.storageAddress id)

def writeActivation (page : Page) (address : Text) (rec : Record) (id : Nat) :
    Page :=
  { page with
    activations :=
      page.activations.set (activationStorageKey address id) rec }

def writeWorking (page : Page) (id : Nat) (status : DeskStatus) : Page :=
  { page with
    working := page.working.set (workingStorageKey page.storageAddress id)
      status }

def confirmPayment (page : Page) (payment : Payment) : Page :=
  { page with verified := payment :: page.verified }

def reload (page : Page) : Page :=
  { page with
    address := none, chainId := none, id := none, minted := none
    box := false }

def blank : Page :=
  ⟨none, none, none, none, false, .empty, .empty, []⟩

end Page

/-! ## Requests and callbacks -/

inductive Caller
  | onActivate
  | recoverActivationFromTx
  | refreshActivation
  deriving DecidableEq

inductive Request
  | accounts
  | requestAccounts
  | chainId
  | switchEthereumChain
  | addEthereumChain
  | totalSupply
  | ownerOf (id : Nat)
  | sendTransaction (sender : Text)
  /-- The polling of `waitForReceipt`, which reads no variable of the page. -/
  | waitForReceipt (txHash : Text)
  | payment (caller : Caller) (txHash expectedFrom : Text) (expectedId : Nat)
  | desk (id : Nat)
  deriving DecidableEq

abbrev Request.Reply : Request → Type
  | .accounts => List Text
  | .requestAccounts => List Text
  | .chainId => Option Nat
  | .switchEthereumChain => Unit
  | .addEthereumChain => Unit
  | .totalSupply => Option Nat
  | .ownerOf _ => Option Text
  | .sendTransaction _ => Text
  | .waitForReceipt _ => Unit
  | .payment _ _ _ _ => Option Receipt × Option Transaction
  | .desk _ => Bool

inductive Callback
  | connected
  | minted
  | paymentVerified (id : Nat) (rec : Record)
  | deskStarted (id : Nat) (prev : Option Nat)

abbrev interface : Interface where
  State := Page
  Request := Request
  Reply := Request.Reply
  Callback := Callback
  Error := Error

abbrev Code := Script interface

open Script

def fail {α : Type} (message : String) : Code α := .throw (newError message)

def require (p : Prop) [Decidable p] (message : String) : Code Unit :=
  if p then pure () else fail message

def ask (q : Request) : Code q.Reply := request (S := interface) q

/-! ## Activation state -/

def enterDesk (id : Nat) : Code (Option Nat) := do
  let page ← state
  modify fun page => { page with id := some id }
  return page.id

def leaveDesk (id : Nat) (prev : Option Nat) (pass : Except Error Bool) :
    Code Unit := do
  match pass with
  | .ok quoted =>
      modify fun page =>
        page.writeWorking id (if quoted then .working else .ready)
  | .error _ => pure ()
  modify fun page =>
    if prev ≠ none ∧ prev ≠ some id then { page with id := prev } else page
  ofExcept (pass.map fun _ => ())

def startAgentDesk (id : Nat) : Code Unit := do
  let page ← state
  if page.isActivated id then
    let prev ← enterDesk id
    .await (.desk id) (leaveDesk id prev)

def refreshActivation : Code Unit := do
  let page ← state
  match page.box, page.id, page.address with
  | true, some id, some _ =>
      match page.activation id with
      | none => pure ()
      | some rec =>
          if activationRecordIsConfirmed rec then
            if page.workingRecord id ≠ some .working then
              let prev ← enterDesk id
              start (.deskStarted id prev)
          else if rec.txHash ≠ [] then
            start (.paymentVerified id rec)
  | _, _, _ => pure ()

def refreshSelected : Code Unit := do
  let page ← state
  if page.id ≠ none then refreshActivation

/-! ## The wallet -/

def unrecognizedChain (err : Error) : Bool :=
  err.code = some 4902 || err.code = some (-32603) ||
    occurs "unrecognized chain".toList (lower err.message)

def ensureChain : Code Unit := do
  let current ← ask .chainId
  modify fun page => { page with chainId := current }
  if current ≠ some Config.chainId then
    (ask .switchEthereumChain).handle fun err =>
      if unrecognizedChain err then ask .addEthereumChain
      else .throw ⟨none,
        "Switch wallet network to Robinhood Chain (ETH, chainId 4663). ".toList
          ++ err.message⟩
    let chain ← ask .chainId
    modify fun page => { page with chainId := chain }
    require (chain = some Config.chainId)
      "Still not on Robinhood Chain. In MetaMask/Rabby choose Robinhood Chain (4663) with native ETH, then retry Activate."

def connectWallet : Code Unit := do
  let accounts ← ask .requestAccounts
  modify fun page => { page with address := firstAccount accounts }
  ensureChain
  refreshSelected

def connectedAddress : Code (Option Text) := do
  let page ← state
  if page.address = none then
    connectWallet
    let page ← state
    return page.address
  else return page.address

def connectFirst : String := "Connect a wallet first."

def requireOwner (id : Nat) : Code Text := do
  let page ← state
  require (page.address ≠ none) connectFirst
  let own ← ask (.ownerOf id)
  let page ← state
  match own with
  | none =>
      .throw ⟨none,
        "Cannot verify on-chain owner for Crypto Broker #".toList ++ decimal id
          ++ ".".toList
          ++ (match page.minted with
            | some minted =>
                " On-chain totalSupply is ".toList ++ decimal minted
                  ++ ".".toList
            | none => [])
          ++ " The connected wallet must own this token (ownerOf). No local activation was saved.".toList⟩
  | some own =>
      if sameAddr own (page.address.getD []) then return own
      else
        .throw ⟨none,
          "Connected wallet ".toList ++ shortAddr (page.address.getD [])
            ++ " does not own Crypto Broker #".toList ++ decimal id
            ++ " (on-chain owner ".toList ++ shortAddr own
            ++ "). Only the owner can activate or sign a live intent. No local activation was saved.".toList⟩

/-- The end of `verifyActivationPayment`, once both replies are there. -/
def acceptPayment (txHash expectedFrom : Text) (expectedId : Nat)
    (reply : Option Receipt × Option Transaction) : Code Bool := do
  let ok ← ofExcept
    (activationPayment reply.1 reply.2 expectedFrom expectedId)
  match ok, reply.2 with
  | true, some tx =>
      modify (·.confirmPayment ⟨txHash, tx.sender⟩)
      return true
  | _, _ => return ok

def verifyActivationPayment (caller : Caller) (txHash expectedFrom : Text)
    (expectedId : Nat) : Code Bool := do
  let reply ← ask (.payment caller txHash expectedFrom expectedId)
  acceptPayment txHash expectedFrom expectedId reply

/-! ## The three ways to an activation -/

def paymentRecord (address : Text) (id : Nat) (txHash : Text)
    (confirmed : Bool) : Record where
  address := address
  id := id
  txHash := txHash
  confirmed := confirmed
  feeWei := Config.activationFeeWei
  feeRecipient := Config.activationFeeRecipient

def isTxHash (txHash : Text) : Bool :=
  "0x".toList <+: txHash && txHash.length = 66 &&
    (txHash.drop 2).all fun c =>
      isDigit c || ('a' ≤ c && c ≤ 'f') || ('A' ≤ c && c ≤ 'F')

/-- The end of `recoverActivationFromTx`, from the payment on. -/
def recoverPayment (txHash : Text) (id : Nat) : Code Unit := do
  let page ← state
  let ok ← verifyActivationPayment .recoverActivationFromTx txHash
    (page.address.getD []) id
  require ok
    "Tx not found or not confirmed yet on Robinhood Chain. Wait and retry."
  let page ← state
  if txHashAlreadyUsed page.activations txHash id then
    fail "This tx hash was already used for another token id. Each activation needs its own 0.001 ETH payment."
  else
    let rec' := paymentRecord (page.address.getD []) id txHash true
    modify fun page =>
      { page.writeActivation page.storageAddress rec' id with id := some id }
    (startAgentDesk id).handle fun _ => pure ()
    refreshActivation

def recoverId (rawId : Option Text) (id : Option Nat) : Option Nat :=
  match rawId with
  | some raw => parseId raw
  | none => id

def recoverActivationFromTx (rawHash : Text) (rawId : Option Text) :
    Code Unit := do
  match ← connectedAddress with
  | none => pure ()
  | some _ =>
  ensureChain
  let txHash := trim rawHash
  require (isTxHash txHash)
    "Paste a full tx hash (0x… 66 chars) from Robinhood Chain Blockscout."
  let page ← state
  match recoverId rawId page.id with
  | none => fail "Enter the token id this payment was for (1–5000)."
  | some id =>
  let _ ← requireOwner id
  recoverPayment txHash id

/-- The end of `onActivate`, from the receipt on. -/
def activatePayment (activationAddress txHash : Text) (activationId : Nat) :
    Code Unit := do
  let _ ← verifyActivationPayment .onActivate txHash activationAddress
    activationId
  let page ← state
  if txHashAlreadyUsed page.activations txHash activationId then
    fail "This tx hash was already used to activate another agent. Pay a fresh 0.001 ETH for this token."
  else
    modify (·.writeActivation activationAddress
      (paymentRecord activationAddress activationId txHash true) activationId)
    (startAgentDesk activationId).handle fun _ => pure ()
    refreshActivation

def onActivate (approved : Bool) : Code Unit := do
  let page ← state
  if page.id = none then return
  match ← connectedAddress with
  | none => pure ()
  | some _ =>
  ensureChain
  let page ← state
  match page.address, page.id with
  | none, _ => fail connectFirst
  | some _, none =>
      fail "Cannot verify on-chain owner for Crypto Broker #null."
  | some activationAddress, some activationId =>
  let _ ← requireOwner activationId
  let page ← state
  if page.isActivated activationId then
    refreshActivation
  else if approved then
    let accounts ← ask .accounts
    require (sameAddr (accounts.headD []) activationAddress)
      "The connected wallet changed. Verify ownership again before paying."
    let txHash ← ask (.sendTransaction activationAddress)
    modify (·.writeActivation activationAddress
      (paymentRecord activationAddress activationId txHash false) activationId)
    refreshActivation
    ask (.waitForReceipt txHash)
    activatePayment activationAddress txHash activationId

/-- What `refreshActivation` does with the payment of a pending record. -/
def onPaymentVerified (id : Nat) (rec : Record)
    (reply : Except Error (Option Receipt × Option Transaction)) :
    Code Unit := do
  let reply ← ofExcept reply
  let confirmed ← acceptPayment rec.txHash rec.address rec.id reply
  if confirmed then
    modify fun page =>
      page.writeActivation page.storageAddress { rec with confirmed := true }
        id
    refreshActivation

/-! ## Events -/

def openConsole (id : Nat) : Code Unit := do
  modify fun page => { page with id := some id }
  refreshActivation
  let page ← state
  if page.isActivated id then
    let prev ← enterDesk id
    start (.deskStarted id prev)

def route (id : Option Nat) : Code Unit := do
  match id with
  | some id => openConsole id
  | none => modify fun page => { page with id := none }

inductive Event
  | load (box : Bool) (id : Option Nat)
  | navigate (id : Option Nat)
  | accountsChanged (accounts : List Text)
  | chainChanged (chainId : Option Nat)
  | connectWallet
  | onActivate (approved : Bool)
  | recoverActivationFromTx (rawHash : Text) (rawId : Option Text)

def handler : Event → Code Unit
  | .load box id => do
      modify fun page => { page.reload with box := box }
      route id
      start .minted
      start .connected
  | .navigate id => route id
  | .accountsChanged accounts => do
      modify fun page => { page with address := firstAccount accounts }
      refreshSelected
  | .chainChanged chainId =>
      modify fun page => { page with chainId := chainId }
  | .connectWallet => connectWallet
  | .onActivate approved => onActivate approved
  | .recoverActivationFromTx rawHash rawId =>
      recoverActivationFromTx rawHash rawId

def callback : Callback → Task interface
  | .connected => ⟨.accounts, fun reply => do
      let accounts ← ofExcept reply
      modify fun page => { page with address := firstAccount accounts }
      let chainId ← ask .chainId
      modify fun page => { page with chainId := chainId }
      refreshSelected⟩
  | .minted => ⟨.totalSupply, fun reply => do
      match reply with
      | .ok (some n) => modify fun page => { page with minted := some n }
      | _ => pure ()⟩
  | .paymentVerified id rec =>
      ⟨.payment .refreshActivation rec.txHash rec.address rec.id,
        onPaymentVerified id rec⟩
  | .deskStarted id prev => ⟨.desk id, fun pass => do
      leaveDesk id prev pass
      refreshActivation⟩

def page : EventLoop interface Event where
  handler := handler
  callback := callback
  unload := Page.reload

/-! ## A wallet to run the page with -/

def alice : Text := "0xa11ce00000000000000000000000000000000001".toList

def feeHash : Text := "0x".toList ++ List.replicate 64 'a'

def aliceAnswers : (q : Request) → Except Error q.Reply
  | .accounts => .ok [alice]
  | .requestAccounts => .ok [alice]
  | .chainId => .ok (some Config.chainId)
  | .switchEthereumChain => .ok ()
  | .addEthereumChain => .ok ()
  | .totalSupply => .ok (some Config.collectionSize)
  | .ownerOf _ => .ok (some alice)
  | .sendTransaction _ => .ok feeHash
  | .waitForReceipt _ => .ok ()
  | .payment _ _ _ _ => .ok (some ⟨"0x1".toList⟩,
      some ⟨alice, Config.activationFeeRecipient, Config.activationFeeWei,
        "0x".toList, []⟩)
  | .desk _ => .ok true

/-- Replies to the tasks at the given places, one after the other. -/
def replies (indices : List Nat) : List (Step interface Event) :=
  indices.map fun index => .deliver index aliceAnswers

def payForOne : List (Step interface Event) :=
  [.fire (.load true (some 1))] ++ replies [1, 1] ++
    [.fire (.onActivate true)] ++ replies [1, 1, 1, 1]

end IreBlockchain.Brokers

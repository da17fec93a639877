import IreBlockchain.Explorer.WalletRows
import IreBlockchain.Foundation.EventLoop

/-!
# The wallet page

The handlers of the wallet as scripts.  Ticks and submissions of the form look
up balances on their own, and every reply goes into the same variable.
-/

namespace IreBlockchain.Explorer.Wallet

open IreBlockchain.Foundation

/-- What `renderBalance` puts on the page; there is a dash for no number. -/
structure Render where
  address : Text
  online : Bool
  number : Option Text
  note : Text
  deriving DecidableEq

/--
The variables of the page.  `renders` and `returned` are histories that no
handler reads: what was drawn, and which balance came back for which address.
-/
structure Page where
  online : Bool
  height : Option Nat
  catchingUp : Bool
  address : Text
  balance : Option Text
  balanceError : Text
  txs : List Row
  windowMin : Option Nat
  renders : List Render
  returned : List (Text × Text)

namespace Page

def blank : Page where
  online := false
  height := none
  catchingUp := false
  address := []
  balance := none
  balanceError := []
  txs := []
  windowMin := none
  renders := []
  returned := []

def balanceView (page : Page) : Option Text × Text :=
  if page.address = [] then (none, "Enter an ire1 address".toList)
  else if ¬ page.online then (page.balance, "OFFLINE".toList)
  else if page.balanceError ≠ [] then (none, page.balanceError)
  else
    match page.balance with
    | none => (none, "Looking up uire…".toList)
    | some balance => (some balance, "IRE · uire on ire-1".toList)

def renderBalance (page : Page) : Page :=
  { page with
    renders := ⟨page.address, page.online, page.balanceView.1,
      page.balanceView.2⟩ :: page.renders }

def setBalance (page : Page) (balance : Option Text) (balanceError : Text) :
    Page :=
  { page with balance := balance, balanceError := balanceError }

def setAddress (page : Page) (addr : Text) : Page :=
  { page with address := trim addr }

def receiveBalance (page : Page) (addr amount : Text) : Page :=
  { page.setBalance (some amount) [] with
    returned := (addr, amount) :: page.returned }

end Page

/-! ## Requests -/

structure Status where
  latestBlockHeight : Nat
  catchingUp : Bool

inductive Caller
  | tick
  | submit
  deriving DecidableEq

inductive Request
  | status
  | unconfirmedTxs
  /-- The pool of `loadBlock` calls. -/
  | blocks (minH height : Nat)
  | balance (caller : Caller) (addr : Text)
  deriving DecidableEq

/-- A balance that is missing in the reply of the bank is `none`. -/
abbrev Request.Reply : Request → Type
  | .status => Status
  | .unconfirmedTxs => List Bytes
  | .blocks _ _ => List Block
  | .balance _ _ => Option Text

inductive Callback
  | tick

abbrev interface : Interface where
  State := Page
  Request := Request
  Reply := Request.Reply
  Callback := Callback
  Error := Unit

abbrev Code := Script interface

open Script

def ask (q : Request) : Code q.Reply := request (S := interface) q

/-! ## Handlers -/

def notAnAddress : Text := "Not an ire1 account address.".toList

def amountOf (reply : Option Text) : Text :=
  (reply.filter (· ≠ [])).getD "0".toList

def lookupBalance (caller : Caller) (addr : Text) : Code Unit :=
  if addr = [] ∨ ¬ isIreAddr addr then
    modify (·.setBalance none (if addr = [] then [] else notAnAddress))
  else
    Script.handle (do
      let reply ← ask (.balance caller addr)
      modify (·.receiveBalance addr (amountOf reply)))
      fun _ => modify (·.setBalance none "Balance unavailable.".toList)

def blockWindow : Nat := 50

section Tick

variable (fmt : NumberFormat) (sha256Hex : Bytes → Text)

/-- What a tick does once it has the blocks and the mempool. -/
def showTick (status : Status) (minH : Nat) (rawPending : List Bytes)
    (blocks : List Block) : Code Unit := do
  let page ← state
  let txs := rows fmt sha256Hex page.address blocks rawPending
  if page.address ≠ [] ∧ isIreAddr page.address then
    lookupBalance .tick page.address
  modify fun page =>
    { page with
      online := true, height := some status.latestBlockHeight
      catchingUp := status.catchingUp, windowMin := some minH, txs := txs }
  modify (·.renderBalance)

def scan (reply : Except Unit Status) : Code Unit := do
  let status ← ofExcept reply
  let height := status.latestBlockHeight
  if height < 1 then .throw ()
  else
    let minH := max 1 (height + 1 - blockWindow)
    let rawPending ← ask .unconfirmedTxs
    let blocks ← ask (.blocks minH height)
    showTick fmt sha256Hex status minH rawPending blocks

def goOffline : Code Unit := do
  modify fun page => { page with online := false, txs := [] }
  modify (·.renderBalance)

def tickScan (reply : Except Unit Status) : Code Unit :=
  (scan fmt sha256Hex reply).handle fun _ => goOffline

def tick : Code Unit := .await .status (tickScan fmt sha256Hex)

def submit (value : Text) : Code Unit := do
  let addr := trim value
  modify (·.setAddress addr)
  if addr ≠ [] ∧ ¬ isIreAddr addr then
    modify fun page => { page.setBalance none notAnAddress with txs := [] }
    modify (·.renderBalance)
  else
    let page ← state
    lookupBalance .submit page.address
    tick fmt sha256Hex

inductive Event
  | load (saved query : Text)
  | interval
  | submit (value : Text)

def handler : Event → Code Unit
  | .load saved query => do
      modify fun _ => if saved = [] then .blank else Page.blank.setAddress saved
      start .tick
      modify fun page =>
        if trim query = [] then page else page.setAddress (trim query)
  | .interval => tick fmt sha256Hex
  | .submit value => submit fmt sha256Hex value

def callback : Callback → Task interface
  | .tick => ⟨.status, tickScan fmt sha256Hex⟩

def page : EventLoop interface Event where
  handler := handler fmt sha256Hex
  callback := callback fmt sha256Hex
  unload := fun _ => .blank

end Tick

end IreBlockchain.Explorer.Wallet

import IreBlockchain.Brokers.Page
import IreBlockchain.Foundation.Interpretation

/-!
# The desk of the brokers page

The tickets that the page makes of public quotes, and the intents in which the
owner signs them.  What the page does besides runs as in `Brokers.Page`, with
the desk where that asks for a pass of it.
-/

namespace IreBlockchain.Brokers.Desk

open IreBlockchain.Foundation

structure Skill where
  skillId : Text
  name : Text
  desk : Text
  role : Text
  action : Text
  pair : Text
  venue : Text
  timeframe : Text
  risk : Text
  does : Text
  deriving DecidableEq

structure Quote where
  value : Text
  label : Text
  source : Text
  kind : Text
  deriving DecidableEq

structure Ticket where
  tokenId : Option Nat
  skillId : Text
  broker : Text
  role : Text
  action : Text
  desk : Text
  pair : Text
  venue : Text
  timeframe : Text
  risk : Text
  mark : Quote
  job : Text
  deriving DecidableEq

structure Intent where
  tokenId : Nat
  skillId : Text
  desk : Text
  pair : Text
  action : Text
  role : Text
  venue : Text
  timeframe : Text
  risk : Text
  owner : Option Text
  ticket : Option Ticket
  deriving DecidableEq

/--
The page with its desk.  `shownFor` and `signed` are histories that no handler
reads: the token that a ticket was last drawn for, and what the wallet was asked
to sign.
-/
structure Console extends Page where
  lastTicket : Option Ticket
  shownFor : Option Nat
  tickets : KVStore Text Ticket
  paper : KVStore Text (List Quote)
  signed : List Intent

def storageKey (kind : String) (address : Text) (id : Nat) : Text :=
  "crypto-brokers:".toList ++ kind.toList ++ ':' :: lower address ++
    ':' :: decimal id

def markOf (quote : Quote) : Quote :=
  { quote with label := if quote.label = [] then quote.value else quote.label }

namespace Console

def blank : Console :=
  { Page.blank with
    lastTicket := none, shownFor := none, tickets := .empty, paper := .empty
    signed := [] }

def storedTicket (console : Console) (id : Nat) : Option Ticket :=
  console.tickets.get (storageKey "ticket" console.storageAddress id)

def quotes (console : Console) (id : Nat) : List Quote :=
  (console.paper.get (storageKey "paper" console.storageAddress id)).getD []

def addQuote (console : Console) (id : Nat) (quote : Quote) : Console :=
  { console with
    paper := console.paper.set
      (storageKey "paper" console.storageAddress id)
      ((markOf quote :: console.quotes id).take 40) }

/-- The token is the one that is selected now. -/
def buildBrokerTicket (console : Console) (skill : Skill) (quote : Quote) :
    Ticket where
  tokenId := console.id
  skillId := skill.skillId
  broker := skill.name
  role := skill.role
  action := skill.action
  desk := skill.desk
  pair := skill.pair
  venue := skill.venue
  timeframe := skill.timeframe
  risk := skill.risk
  mark := markOf quote
  job := skill.does

def writeTicket (console : Console) (id : Nat) (ticket : Ticket) : Console :=
  { console with
    tickets := console.tickets.set
      (storageKey "ticket" console.storageAddress id) ticket }

def renderBrokerTicket (console : Console) (id : Nat)
    (ticket : Option Ticket) : Console :=
  { console with lastTicket := ticket, shownFor := some id }

def makeTicket (console : Console) (id : Nat) (skill : Skill) (quote : Quote) :
    Console :=
  let ticket := console.buildBrokerTicket skill quote
  (console.writeTicket id ticket).renderBrokerTicket id (some ticket)

def buildSkillIntent (console : Console) (skill : Skill) (id : Nat) :
    Intent where
  tokenId := id
  skillId := skill.skillId
  desk := skill.desk
  pair := skill.pair
  action := skill.action
  role := skill.role
  venue := skill.venue
  timeframe := skill.timeframe
  risk := skill.risk
  owner := console.address
  ticket := console.lastTicket.or (console.storedTicket id)

end Console

/-! ## Requests -/

/-- Who waits for a quote: a signature is for the given token. -/
inductive Run
  | onPaper
  | startAgentDesk
  | runBrokerDesk
  | onLive (id : Nat)
  deriving DecidableEq

inductive Request
  | page (live : Bool) (q : Brokers.Request)
  | fetchSkillQuote (run : Run) (id : Nat) (skill : Skill)
  | personalSign (address : Option Text) (order : Intent)
  | turn
  deriving DecidableEq

abbrev Request.Reply : Request → Type
  | .page _ q => q.Reply
  | .fetchSkillQuote _ _ _ => Quote
  | .personalSign _ _ => Text
  | .turn => Unit

abbrev interface : Interface where
  State := Console
  Request := Request
  Reply := Request.Reply
  Callback := Callback
  Error := Error

abbrev Code := Script interface

open Script

def ask (q : Request) : Code q.Reply := request (S := interface) q

/-! ## Quotes and tickets -/

section Desk

variable (skillFor : Nat → Option Skill)

def paperPass (id : Nat) (skill : Skill) : Except Error Quote → Code Unit
  | .ok quote => do
      modify (·.addQuote id quote)
      modify (·.makeTicket id skill quote)
  | .error _ => pure ()

def onPaper : Code Unit := do
  let console ← state
  match console.id with
  | none => pure ()
  | some id =>
  match skillFor id with
  | none => pure ()
  | some skill =>
  .await (.fetchSkillQuote .onPaper id skill) (paperPass id skill)

def deskTicket (id : Nat) (skill : Skill) : Code Unit := do
  let console ← state
  match (console.quotes id).head? with
  | none => modify (·.renderBrokerTicket id none)
  | some last => modify (·.makeTicket id skill last)

def deskPass (id : Nat) (skill : Skill) (reply : Except Error Quote) :
    Code Unit := do
  paperPass id skill reply
  deskTicket id skill

def runBrokerDesk (run : Run) : Code Unit := do
  let console ← state
  match console.id with
  | none => pure ()
  | some id =>
  match skillFor id with
  | none => pure ()
  | some skill =>
  .await (.fetchSkillQuote run id skill) (deskPass id skill)

def quoted (id : Nat) : Code Bool := do
  let console ← state
  return console.quotes id ≠ []

/-- The page without a desk, where a pass of the desk is the desk at work. -/
def interpretation (live : Bool) :
    Interpretation Brokers.interface interface where
  read := Console.toPage
  write page console := { console with toPage := page }
  request
    | .desk id => attempt do
        runBrokerDesk skillFor .startAgentDesk
        quoted id
    | q => .await (.page live q) .done
  fork callback := start (S := interface) callback
  error := id

def lift {α : Type} (script : Brokers.Code α) : Code α :=
  (interpretation skillFor false).lift script

def liftLive {α : Type} (script : Brokers.Code α) : Code α :=
  (interpretation skillFor true).lift script

/-! ## Signatures -/

def personalSign (order : Intent) : Code Text := do
  let console ← state
  liftLive skillFor (require (console.address ≠ none) "Connect a wallet first")
  liftLive skillFor ensureChain
  modify fun console => { console with signed := order :: console.signed }
  let console ← state
  (ask (.personalSign console.address order)).handle fun _ => do
    let console ← state
    ask (.personalSign console.address order)

def signTicket (id : Nat) (skill : Skill) : Code Unit := do
  let console ← state
  if console.lastTicket = none then runBrokerDesk skillFor (.onLive id)
  let console ← state
  let _ ← personalSign skillFor (console.buildSkillIntent skill id)

def onLive : Code Unit := do
  let console ← state
  match console.id with
  | none => pure ()
  | some id =>
  match skillFor id with
  | none => pure ()
  | some skill =>
  match ← liftLive skillFor connectedAddress with
  | none => pure ()
  | some _ =>
  let _ ← liftLive skillFor (requireOwner id)
  let console ← state
  liftLive skillFor (require (console.isActivated id)
    "Activate this Broker Agent with the 0.001 ETH fee before signing a live intent.")
  signTicket skillFor id skill

/-! ## The handlers that draw a ticket -/

def renderStored (id : Nat) : Code Unit :=
  modify fun console => console.renderBrokerTicket id (console.storedTicket id)

def openConsole (id : Nat) : Code Unit := do
  modify fun console => { console with id := some id }
  lift skillFor refreshActivation
  renderStored id
  let console ← state
  if console.isActivated id then
    let prev ← lift skillFor (enterDesk id)
    start (.deskStarted id prev)

def route (id : Option Nat) : Code Unit := do
  match id with
  | some id => openConsole skillFor id
  | none => modify fun console => { console with id := none }

def recoverActivationFromTx (rawHash : Text) (rawId : Option Text) :
    Code Unit := do
  match ← lift skillFor connectedAddress with
  | none => pure ()
  | some _ =>
  lift skillFor ensureChain
  let txHash := trim rawHash
  lift skillFor (require (isTxHash txHash)
    "Paste a full tx hash (0x… 66 chars) from Robinhood Chain Blockscout.")
  let console ← state
  match recoverId rawId console.id with
  | none =>
      lift skillFor (fail "Enter the token id this payment was for (1–5000).")
  | some id =>
  let _ ← lift skillFor (requireOwner id)
  lift skillFor (recoverPayment txHash id)
  renderStored id

/-! ## Events -/

inductive Event
  | page (event : Brokers.Event)
  | runBrokerDesk
  | onPaper
  | onLive

def handler : Event → Code Unit
  | .page (.load box id) => do
      modify fun console =>
        { console with
          toPage := { console.toPage.reload with box := box }
          lastTicket := none, shownFor := none }
      route skillFor id
      start .minted
      start .connected
  | .page (.navigate id) => route skillFor id
  | .page (.recoverActivationFromTx rawHash rawId) =>
      recoverActivationFromTx skillFor rawHash rawId
  | .page event => lift skillFor (Brokers.handler event)
  | .runBrokerDesk => runBrokerDesk skillFor .runBrokerDesk
  | .onPaper => onPaper skillFor
  | .onLive => onLive skillFor

def afterDesk (id : Nat) (prev : Option Nat) : Code Unit := do
  let quoted ← quoted id
  lift skillFor (leaveDesk id prev (.ok quoted))
  lift skillFor refreshActivation

def callback : Callback → Task interface
  | .deskStarted id prev =>
      match skillFor id with
      | some skill => ⟨.fetchSkillQuote .startAgentDesk id skill, fun reply => do
          deskPass id skill reply
          afterDesk skillFor id prev⟩
      | none => ⟨.turn, fun _ => afterDesk skillFor id prev⟩
  | other => ⟨.page false (Brokers.callback other).request, fun reply =>
      lift skillFor ((Brokers.callback other).resume reply)⟩

def page : EventLoop interface Event where
  handler := handler skillFor
  callback := callback skillFor
  unload console :=
    { console with
      toPage := console.toPage.reload, lastTicket := none, shownFor := none }

end Desk

end IreBlockchain.Brokers.Desk

import IreBlockchain.Foundation.Ledger
import IreBlockchain.Foundation.Results
import IreBlockchain.Foundation.Runs
import IreBlockchain.Foundation.Text

/-!
# The fixed-supply CW20 contract

`ire-cw20` strips the minter from the message that instantiates it and hands
everything else to `cw20-base`.  That contract is a parameter; `Lawful` is what
its documentation says of minters and of the supply.
-/

namespace IreBlockchain.IreCw20

open IreBlockchain.Foundation

/-! ## Messages of `cw20-base` -/

structure Cw20Coin where
  address : Text
  amount : Nat
  deriving DecidableEq, Repr

structure MinterResponse where
  minter : Text
  cap : Option Nat
  deriving DecidableEq, Repr

inductive EmbeddedLogo where
  | svg (data : Bytes)
  | png (data : Bytes)
  deriving DecidableEq, Repr

inductive Logo where
  | url (url : Text)
  | embedded (logo : EmbeddedLogo)
  deriving DecidableEq, Repr

structure InstantiateMarketingInfo where
  project : Option Text
  description : Option Text
  marketing : Option Text
  logo : Option Logo
  deriving DecidableEq, Repr

structure InstantiateMsg where
  name : Text
  symbol : Text
  decimals : UInt8
  initialBalances : List Cw20Coin
  mint : Option MinterResponse
  marketing : Option InstantiateMarketingInfo
  deriving DecidableEq, Repr

def InstantiateMsg.initialSupply (msg : InstantiateMsg) : Nat :=
  (msg.initialBalances.map Cw20Coin.amount).sum

inductive Expiration where
  | atHeight (height : Nat)
  | atTime (nanos : Nat)
  | never
  deriving DecidableEq, Repr

inductive ExecuteMsg where
  | transfer (recipient : Text) (amount : Nat)
  | burn (amount : Nat)
  | send (contract : Text) (amount : Nat) (msg : Bytes)
  | increaseAllowance (spender : Text) (amount : Nat)
      (expires : Option Expiration)
  | decreaseAllowance (spender : Text) (amount : Nat)
      (expires : Option Expiration)
  | transferFrom (owner recipient : Text) (amount : Nat)
  | sendFrom (owner contract : Text) (amount : Nat) (msg : Bytes)
  | burnFrom (owner : Text) (amount : Nat)
  | mint (recipient : Text) (amount : Nat)
  | updateMinter (newMinter : Option Text)
  | updateMarketing (project description marketing : Option Text)
  | uploadLogo (logo : Logo)
  deriving DecidableEq, Repr

def ExecuteMsg.needsMinter : ExecuteMsg → Bool
  | .mint _ _ | .updateMinter _ => true
  | _ => false

structure Coin where
  denom : Text
  amount : Nat
  deriving DecidableEq, Repr

structure MessageInfo where
  sender : Text
  funds : List Coin
  deriving DecidableEq, Repr

/-! ## The contract it wraps -/

/-- The entry points of `cw20-base`, and what it keeps about the token. -/
structure Cw20Base (Storage Env Response ContractError : Type) where
  instantiate : Storage → Env → MessageInfo → InstantiateMsg →
    Except ContractError (Storage × Response)
  execute : Storage → Env → MessageInfo → ExecuteMsg →
    Except ContractError (Storage × Response)
  minter : Storage → Option MinterResponse
  totalSupply : Storage → Nat

variable {Storage Env Response ContractError : Type}

/--
Instantiation stores the minter it is given and hands out the initial balances.
Only the stored minter can mint or name another one, and the other messages
move tokens or burn them.
-/
structure Cw20Base.Lawful
    (base : Cw20Base Storage Env Response ContractError) : Prop where
  stores : ∀ deps env info msg deps' response,
    base.instantiate deps env info msg = .ok (deps', response) →
    base.minter deps' = msg.mint
  supplies : ∀ deps env info msg deps' response,
    base.instantiate deps env info msg = .ok (deps', response) →
    base.totalSupply deps' = msg.initialSupply
  authorized : ∀ deps env info (msg : ExecuteMsg) deps' response,
    base.execute deps env info msg = .ok (deps', response) →
    msg.needsMinter = true →
    (base.minter deps).map MinterResponse.minter = some info.sender
  keepsMinter : ∀ deps env info (msg : ExecuteMsg) deps' response,
    base.execute deps env info msg = .ok (deps', response) →
    msg.needsMinter = false → base.minter deps' = base.minter deps
  conserves : ∀ deps env info (msg : ExecuteMsg) deps' response,
    base.execute deps env info msg = .ok (deps', response) →
    msg.needsMinter = false → base.totalSupply deps' ≤ base.totalSupply deps

/-! ## The entry points -/

section Contract

variable (base : Cw20Base Storage Env Response ContractError)

/-- Whatever minter is asked for, the contract never has one. -/
def instantiate (deps : Storage) (env : Env) (info : MessageInfo)
    (msg : InstantiateMsg) : Except ContractError (Storage × Response) :=
  base.instantiate deps env info { msg with mint := none }

def execute (deps : Storage) (env : Env) (info : MessageInfo)
    (msg : ExecuteMsg) : Except ContractError (Storage × Response) :=
  base.execute deps env info msg

structure Call (Env : Type) where
  env : Env
  info : MessageInfo
  msg : ExecuteMsg

def deliver (deps : Storage) (call : Call Env) : Storage :=
  match execute base deps call.env call.info call.msg with
  | .ok (deps', _) => deps'
  | .error _ => deps

end Contract

/-! ## The supply never grows -/

variable {base : Cw20Base Storage Env Response ContractError}
  {deps deps' : Storage} {env : Env} {info : MessageInfo}
  {response : Response}

structure FixedSupply (base : Cw20Base Storage Env Response ContractError)
    (bound : Nat) (deps : Storage) : Prop where
  noMinter : base.minter deps = none
  bounded : base.totalSupply deps ≤ bound

theorem fixedSupply_instantiate (hbase : base.Lawful) {msg : InstantiateMsg}
    (h : instantiate base deps env info msg = .ok (deps', response)) :
    FixedSupply base msg.initialSupply deps' where
  noMinter := hbase.stores _ _ _ _ _ _ h
  bounded := by
    have hsupply := hbase.supplies deps env info { msg with mint := none } _ _ h
    exact Nat.le_of_eq hsupply

theorem needsMinter_of_execute (hbase : base.Lawful)
    (hnone : base.minter deps = none) {msg : ExecuteMsg}
    (h : execute base deps env info msg = .ok (deps', response)) :
    msg.needsMinter = false := by
  cases hneeds : msg.needsMinter with
  | false => rfl
  | true =>
      have hsender := hbase.authorized _ _ _ _ _ _ h hneeds
      rw [hnone] at hsender
      contradiction

theorem fixedSupply_execute (hbase : base.Lawful) {bound : Nat}
    (hfixed : FixedSupply base bound deps) {msg : ExecuteMsg}
    (h : execute base deps env info msg = .ok (deps', response)) :
    FixedSupply base bound deps' := by
  have hneeds := needsMinter_of_execute hbase hfixed.noMinter h
  constructor
  · rw [hbase.keepsMinter _ _ _ _ _ _ h hneeds, hfixed.noMinter]
  · exact (hbase.conserves _ _ _ _ _ _ h hneeds).trans hfixed.bounded

theorem fixedSupply_deliver (hbase : base.Lawful) {bound : Nat}
    (deps : Storage) (call : Call Env) (hfixed : FixedSupply base bound deps) :
    FixedSupply base bound (deliver base deps call) := by
  unfold deliver
  split
  next h => exact fixedSupply_execute hbase hfixed h
  next => exact hfixed

/--
Whatever minter the accepted message asked for, and whatever is called
afterwards and by whom, the contract has no minter and its supply stays within
the sum of the initial balances.
-/
theorem run_fixedSupply (hbase : base.Lawful) {msg : InstantiateMsg}
    (haccepted : instantiate base deps env info msg = .ok (deps', response))
    (calls : List (Call Env)) :
    base.minter (run (deliver base) deps' calls) = none ∧
      base.totalSupply (run (deliver base) deps' calls) ≤
        msg.initialSupply := by
  have hfixed : FixedSupply base msg.initialSupply
      (run (deliver base) deps' calls) :=
    run_invariant (fixedSupply_deliver hbase)
      (fixedSupply_instantiate hbase haccepted) calls
  exact ⟨hfixed.noMinter, hfixed.bounded⟩

/-! ## A token that meets the laws -/

structure SampleToken where
  balances : Balances Text
  totalSupply : Nat
  mint : Option MinterResponse

namespace SampleToken

def createAccounts (coins : List Cw20Coin) : Balances Text :=
  coins.foldl (fun balances coin => balances.credit coin.address coin.amount)
    fun _ => 0

def instantiate (msg : InstantiateMsg) : SampleToken :=
  ⟨createAccounts msg.initialBalances, msg.initialSupply, msg.mint⟩

def authorize (token : SampleToken) (info : MessageInfo) :
    Except Text MinterResponse :=
  match token.mint with
  | none => .error "Unauthorized".toList
  | some data =>
      if data.minter = info.sender then .ok data
      else .error "Unauthorized".toList

def transfer (token : SampleToken) (sender recipient : Text) (amount : Nat) :
    Except Text SampleToken :=
  match token.balances.move? sender recipient amount with
  | none => .error "Overflow".toList
  | some balances => .ok { token with balances }

/-- Tokens move, burn and are minted; the sample grants no allowances. -/
def execute (token : SampleToken) (info : MessageInfo) :
    ExecuteMsg → Except Text SampleToken
  | .transfer recipient amount => token.transfer info.sender recipient amount
  | .send contract amount _ => token.transfer info.sender contract amount
  | .burn amount =>
      match token.balances.debit? info.sender amount with
      | none => .error "Overflow".toList
      | some balances =>
          .ok { token with balances, totalSupply := token.totalSupply - amount }
  | .mint recipient amount => do
      let data ← token.authorize info
      let totalSupply := token.totalSupply + amount
      ensure (totalSupply ≤ data.cap.getD (2 ^ 128 - 1))
        "Minting cannot exceed the cap".toList
      return { token with
        balances := token.balances.credit recipient amount, totalSupply }
  | .updateMinter newMinter => do
      let data ← token.authorize info
      return { token with
        mint := newMinter.map fun minter => { data with minter } }
  | _ => .error "No allowance for this account".toList

theorem authorize_eq_ok {token : SampleToken} {info : MessageInfo}
    {data : MinterResponse} (h : token.authorize info = .ok data) :
    token.mint.map MinterResponse.minter = some info.sender := by
  unfold authorize at h
  split at h
  next => cases h
  next stored hstored =>
    split at h
    next hminter => rw [hstored, Option.map_some, hminter]
    next => cases h

theorem transfer_eq_ok {token token' : SampleToken} {sender recipient : Text}
    {amount : Nat} (h : token.transfer sender recipient amount = .ok token') :
    token'.mint = token.mint ∧ token'.totalSupply = token.totalSupply := by
  unfold transfer at h
  split at h
  next => cases h
  next => cases h; exact ⟨rfl, rfl⟩

theorem execute_eq_ok {token token' : SampleToken} {info : MessageInfo}
    {msg : ExecuteMsg} (h : token.execute info msg = .ok token')
    (hneeds : msg.needsMinter = false) :
    token'.mint = token.mint ∧ token'.totalSupply ≤ token.totalSupply := by
  cases msg with
  | transfer recipient amount =>
      obtain ⟨hmint, hsupply⟩ := transfer_eq_ok h
      exact ⟨hmint, Nat.le_of_eq hsupply⟩
  | send contract amount msg =>
      obtain ⟨hmint, hsupply⟩ := transfer_eq_ok h
      exact ⟨hmint, Nat.le_of_eq hsupply⟩
  | burn amount =>
      simp only [execute] at h
      split at h
      next => cases h
      next => cases h; exact ⟨rfl, Nat.sub_le _ _⟩
  | mint => contradiction
  | updateMinter => contradiction
  | increaseAllowance => cases h
  | decreaseAllowance => cases h
  | transferFrom => cases h
  | sendFrom => cases h
  | burnFrom => cases h
  | updateMarketing => cases h
  | uploadLogo => cases h

def contract : Cw20Base SampleToken Unit Unit Text where
  instantiate _ _ _ msg := .ok (instantiate msg, ())
  execute token _ info msg := (·, ()) <$> token.execute info msg
  minter := mint
  totalSupply := totalSupply

theorem contract_lawful : contract.Lawful where
  stores _ _ _ _ _ _ h := by
    cases h
    rfl
  supplies _ _ _ _ _ _ h := by
    cases h
    rfl
  authorized token _ info msg _ _ h hneeds := by
    obtain ⟨_, hexecute, -⟩ := map_eq_ok_iff.mp h
    cases msg with
    | mint recipient amount =>
        obtain ⟨data, hdata, -⟩ := bind_eq_ok_iff.mp hexecute
        exact authorize_eq_ok hdata
    | updateMinter newMinter =>
        obtain ⟨data, hdata, -⟩ := bind_eq_ok_iff.mp hexecute
        exact authorize_eq_ok hdata
    | _ => contradiction
  keepsMinter token _ info msg _ _ h hneeds := by
    obtain ⟨_, hexecute, heq⟩ := map_eq_ok_iff.mp h
    cases heq
    exact (execute_eq_ok hexecute hneeds).1
  conserves token _ info msg _ _ h hneeds := by
    obtain ⟨_, hexecute, heq⟩ := map_eq_ok_iff.mp h
    cases heq
    exact (execute_eq_ok hexecute hneeds).2

end SampleToken

def sampleMsg : InstantiateMsg where
  name := "Ire".toList
  symbol := "IRE".toList
  decimals := 6
  initialBalances := [⟨"holder1".toList, 1000000000000000000⟩]
  mint := some ⟨"creator".toList, none⟩
  marketing := none

def sampleCalls : List (Call Unit) :=
  [⟨(), ⟨"creator".toList, []⟩, .mint "creator".toList 5⟩,
    ⟨(), ⟨"holder1".toList, []⟩, .transfer "holder2".toList 7⟩,
    ⟨(), ⟨"holder2".toList, []⟩, .burn 3⟩]

theorem run_fixedSupply_sample :
    let final := run (deliver SampleToken.contract)
      (SampleToken.instantiate { sampleMsg with mint := none }) sampleCalls
    SampleToken.contract.minter final = none ∧
      SampleToken.contract.totalSupply final ≤ sampleMsg.initialSupply := by
  have haccepted : instantiate SampleToken.contract
      (SampleToken.instantiate sampleMsg) () ⟨"creator".toList, []⟩ sampleMsg =
      .ok (SampleToken.instantiate { sampleMsg with mint := none }, ()) := rfl
  exact run_fixedSupply SampleToken.contract_lawful haccepted sampleCalls

end IreBlockchain.IreCw20

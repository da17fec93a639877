import IreBlockchain.TokenFactory.Supply

/-!
# Isolation of funds

A denom without an authority record reads as one with an empty admin, which no
sender is.  So messages cannot raise its supply, and an account pays only the
fees of its own messages and what the admin of a denom takes of that denom.
-/

namespace IreBlockchain.TokenFactory

open IreBlockchain.Foundation

/-! ## Authority records -/

section Records

variable {Bank : Type}

def Unclaimed (s : State Bank) (denom : Text) : Prop :=
  s.store.get (authorityKey denom) = none

def RecordedAdmin (s : State Bank) (denom admin : Text) : Prop :=
  s.store.get (authorityKey denom) = some (.authority ⟨admin⟩)

theorem recordedAdmin_of_admin {s : State Bank} {denom sender : Text}
    (hsender : sender ≠ [])
    (h : getAuthorityMetadata s.store denom = .ok ⟨sender⟩) :
    RecordedAdmin s denom sender := by
  rw [RecordedAdmin]
  unfold getAuthorityMetadata at h
  split at h
  next =>
    cases h
    exact absurd rfl hsender
  next metadata hget =>
    cases h
    exact hget
  next => cases h

theorem Unclaimed.ne_of_recordedAdmin {s : State Bank}
    {denom other admin : Text} (h : Unclaimed s denom)
    (hadmin : RecordedAdmin s other admin) : other ≠ denom := by
  rintro rfl
  rw [Unclaimed, hadmin] at h
  cases h

end Records

variable {Account Bank BankGenesis : Type} [DecidableEq Account]
  {sdk : Sdk Account Bank BankGenesis} {s s' : State Bank}

theorem Unclaimed.of_deliver (hsdk : sdk.Lawful) {tx : Tx} {denom : Text}
    (h : Unclaimed (sdk.keeper.deliver s tx) denom) : Unclaimed s denom := by
  unfold Unclaimed at h ⊢
  have hstored := deliver_stored (k := sdk.keeper) hsdk.bank pool_not_enabled s tx
  generalize (sdk.keeper.deliver s tx).store = store at hstored h
  have hset {store : Store} {key : Text} {value : StoreValue}
      (h : (store.set key value).get (authorityKey denom) = none) :
      store.get (authorityKey denom) = none := by
    rw [KVStore.get_set] at h
    split at h
    next => cases h
    next => exact h
  cases hstored with
  | kept => exact h
  | created hadmin hfactory => exact hset (hset h)
  | authority hadmin => exact hset h
  | params hparams => exact hset h

theorem run_unclaimed (hsdk : sdk.Lawful) (s : State Bank) (txs : List Tx)
    {denom : Text} (h : Unclaimed (run sdk.keeper.deliver s txs) denom) :
    Unclaimed s denom := by
  induction txs generalizing s with
  | nil => exact h
  | cons tx txs ih => exact (ih (sdk.keeper.deliver s tx) h).of_deliver hsdk

/-! ## What one message may take -/

/-- Why a message may take some of a denom from an account. -/
inductive MayTake (sdk : Sdk Account Bank BankGenesis) (s s' : State Bank)
    (tx : Tx) (account : Account) (denom : Text) : Prop
  | fee (msg : MsgCreateDenom) (htx : tx.msg = .createDenom msg)
      (hsender : sdk.codec.accAddressFromBech32 msg.sender = .ok account)
      (hfee : sdk.bankKeeper.balance s'.bank account denom +
          (getParams s.store).denomCreationFee.amountOf denom =
        sdk.bankKeeper.balance s.bank account denom)
  | burn (msg : MsgBurn) (htx : tx.msg = .burn msg)
      (hdenom : msg.amount.denom = denom)
      (hadmin : RecordedAdmin s denom msg.sender)
  | forceTransfer (msg : MsgForceTransfer) (htx : tx.msg = .forceTransfer msg)
      (hdenom : msg.amount.denom = denom)
      (hadmin : RecordedAdmin s denom msg.sender)

structure Isolated (sdk : Sdk Account Bank BankGenesis) (s s' : State Bank)
    (tx : Tx) : Prop where
  supply : ∀ denom, Unclaimed s denom →
    sdk.bankKeeper.supply s'.bank denom ≤ sdk.bankKeeper.supply s.bank denom
  taken : ∀ account denom, sdk.bankKeeper.balance s'.bank account denom <
      sdk.bankKeeper.balance s.bank account denom →
    MayTake sdk s s' tx account denom

omit [DecidableEq Account] in
theorem isolated_of_books {tx : Tx}
    (hbalance : sdk.bankKeeper.balance s'.bank = sdk.bankKeeper.balance s.bank)
    (hsupply : sdk.bankKeeper.supply s'.bank = sdk.bankKeeper.supply s.bank) :
    Isolated sdk s s' tx := by
  constructor
  · intro denom _
    rw [hsupply]
  · intro account denom hlt
    rw [hbalance] at hlt
    exact absurd hlt (lt_irrefl _)

theorem amountOf_other {coin : Coin} {coins : Coins}
    (h : newCoins coin = .ok coins) {denom : Text} (hne : coin.denom ≠ denom) :
    coins.amountOf denom = 0 := by
  rw [newCoins_eq_ok h, if_neg hne]

theorem isolated_of_createDenom (hsdk : sdk.Lawful) {msg : MsgCreateDenom}
    {gas : Nat} (h : sdk.keeper.handle s ⟨.createDenom msg, gas⟩ = .ok s') :
    Isolated sdk s s' ⟨.createDenom msg, gas⟩ := by
  obtain ⟨⟨s₂, response⟩, hhandle, rfl⟩ := map_eq_ok_iff.mp h
  obtain ⟨creator, bank, hcreated⟩ :=
    handleCreateDenom_eq_ok hsdk.bank pool_not_enabled hhandle
  obtain rfl := hcreated.state_eq
  have hbalance := hsdk.bank.setBalance bank (Keeper.denomMetaData response)
  have hsupply := hsdk.bank.setSupply bank (Keeper.denomMetaData response)
  have hburned : sdk.bankKeeper.Burned s.bank bank creator
      (getParams s.store).denomCreationFee := hcreated.fee
  constructor
  · intro denom _
    have hfee := hburned.supply denom
    change sdk.bankKeeper.supply (sdk.bankKeeper.setDenomMetaData bank _) denom ≤ _
    rw [hsupply]
    omega
  · intro account denom hlt
    have hfee := hburned.balance account denom
    change sdk.bankKeeper.balance (sdk.bankKeeper.setDenomMetaData bank _)
      account denom < _ at hlt
    rw [hbalance] at hlt
    by_cases haccount : account = creator
    · subst haccount
      rw [if_pos rfl] at hfee
      refine .fee msg rfl hcreated.decoded ?_
      change sdk.bankKeeper.balance (sdk.bankKeeper.setDenomMetaData bank _)
        account denom + _ = _
      rw [hbalance]
      exact hfee
    · rw [if_neg haccount] at hfee
      omega

theorem isolated_of_mint (hsdk : sdk.Lawful) {msg : MsgMint} {gas : Nat}
    (hsender : msg.sender ≠ [])
    (h : sdk.keeper.handle s ⟨.mint msg, gas⟩ = .ok s') :
    Isolated sdk s s' ⟨.mint msg, gas⟩ := by
  obtain ⟨account, coins, bank, hacted, hminted, rfl⟩ :=
    handleMint_eq_ok hsdk.bank h
  have hadmin := recordedAdmin_of_admin hsender hacted.admin
  have hminted : sdk.bankKeeper.Minted s.bank bank account coins := hminted
  constructor
  · intro denom hunclaimed
    have hsupply := hminted.supply denom
    rw [amountOf_other hacted.single (hunclaimed.ne_of_recordedAdmin hadmin)]
      at hsupply
    exact le_of_eq hsupply
  · intro other denom hlt
    have hbalance := hminted.balance other denom
    dsimp only at hlt
    omega

theorem isolated_of_burn (hsdk : sdk.Lawful) {msg : MsgBurn} {gas : Nat}
    (hsender : msg.sender ≠ [])
    (h : sdk.keeper.handle s ⟨.burn msg, gas⟩ = .ok s') :
    Isolated sdk s s' ⟨.burn msg, gas⟩ := by
  obtain ⟨account, coins, bank, hacted, hburned, rfl⟩ :=
    handleBurn_eq_ok hsdk.bank h
  have hadmin := recordedAdmin_of_admin hsender hacted.admin
  have hburned : sdk.bankKeeper.Burned s.bank bank account coins := hburned
  constructor
  · intro denom _
    have hsupply := hburned.supply denom
    dsimp only
    omega
  · intro other denom hlt
    have hbalance := hburned.balance other denom
    by_cases hdenom : msg.amount.denom = denom
    · exact .burn msg rfl hdenom (hdenom ▸ hadmin)
    · rw [amountOf_other hacted.single hdenom, ite_self] at hbalance
      exact absurd hlt (not_lt.mpr (le_of_eq hbalance.symm))

theorem isolated_of_forceTransfer (hsdk : sdk.Lawful)
    {msg : MsgForceTransfer} {gas : Nat} (hsender : msg.sender ≠ [])
    (h : sdk.keeper.handle s ⟨.forceTransfer msg, gas⟩ = .ok s') :
    Isolated sdk s s' ⟨.forceTransfer msg, gas⟩ := by
  have hadmin := recordedAdmin_of_admin hsender (handleForceTransfer_admin h)
  obtain ⟨-, src, dst, coins, bank, -, -, -, hsingle, hsent, rfl⟩ :=
    handleForceTransfer_eq_ok hsdk.bank h
  have hsent : sdk.bankKeeper.Sent s.bank bank src dst coins := hsent
  constructor
  · intro denom _
    exact le_of_eq (congrFun hsent.supply denom)
  · intro other denom hlt
    have hbalance := hsent.balance other denom
    by_cases hdenom : msg.amount.denom = denom
    · exact .forceTransfer msg rfl hdenom (hdenom ▸ hadmin)
    · rw [amountOf_other hsingle hdenom, ite_self, ite_self] at hbalance
      exact absurd hlt (not_lt.mpr (le_of_eq hbalance.symm))

theorem handle_isolated (hsdk : sdk.Lawful) {tx : Tx}
    (hsender : tx.msg.sender ≠ []) (h : sdk.keeper.handle s tx = .ok s') :
    Isolated sdk s s' tx := by
  obtain ⟨msg, gas⟩ := tx
  cases msg with
  | createDenom msg => exact isolated_of_createDenom hsdk h
  | mint msg => exact isolated_of_mint hsdk hsender h
  | burn msg => exact isolated_of_burn hsdk hsender h
  | forceTransfer msg => exact isolated_of_forceTransfer hsdk hsender h
  | changeAdmin msg =>
      obtain ⟨-, store, -, rfl⟩ := handleChangeAdmin_eq_ok h
      exact isolated_of_books rfl rfl
  | setDenomMetadata msg =>
      obtain ⟨-, -, rfl⟩ := handleSetDenomMetadata_eq_ok h
      exact isolated_of_books (hsdk.bank.setBalance s.bank msg.metadata)
        (hsdk.bank.setSupply s.bank msg.metadata)
  | updateParams msg =>
      obtain ⟨-, store, -, rfl⟩ := handleUpdateParams_eq_ok h
      exact isolated_of_books rfl rfl

theorem deliver_isolated (hsdk : sdk.Lawful) (s : State Bank) {tx : Tx}
    (hsender : tx.msg.sender ≠ []) :
    Isolated sdk s (sdk.keeper.deliver s tx) tx := by
  unfold Keeper.deliver
  cases h : sdk.keeper.handle s tx with
  | error e => exact isolated_of_books rfl rfl
  | ok s' => exact handle_isolated hsdk hsender h

/-! ## Runs -/

/--
In every run of messages with senders, each message raises no supply of a denom
without a record and takes from an account only what it may; over the whole
run, no denom that is still without a record has more supply than before.
-/
theorem run_isolated (hsdk : sdk.Lawful) (s : State Bank) (txs : List Tx)
    (hsenders : ∀ tx ∈ txs, tx.msg.sender ≠ []) :
    Guarded sdk.keeper.deliver
        (fun s tx => Isolated sdk s (sdk.keeper.deliver s tx) tx) s txs ∧
      ∀ denom, Unclaimed (run sdk.keeper.deliver s txs) denom →
        sdk.bankKeeper.supply (run sdk.keeper.deliver s txs).bank denom ≤
          sdk.bankKeeper.supply s.bank denom := by
  induction txs generalizing s with
  | nil => exact ⟨trivial, fun _ _ => le_refl _⟩
  | cons tx txs ih =>
      have hstep := deliver_isolated hsdk s (hsenders tx List.mem_cons_self)
      obtain ⟨hsteps, hsupply⟩ := ih (sdk.keeper.deliver s tx)
        fun other hother => hsenders other (List.mem_cons_of_mem tx hother)
      refine ⟨⟨hstep, hsteps⟩, ?_⟩
      intro denom hunclaimed
      have hearlier : Unclaimed (sdk.keeper.deliver s tx) denom :=
        run_unclaimed hsdk _ txs hunclaimed
      exact (hsupply denom hunclaimed).trans
        (hstep.supply denom (hearlier.of_deliver hsdk))

def isolationTxs : List Tx :=
  [⟨.createDenom ⟨sampleUser, "abc".toList⟩, 2000000⟩,
    ⟨.mint ⟨sampleUser, ⟨defaultBondDenom, 5⟩, []⟩, 0⟩]

theorem run_isolated_sample :
    sampleSdk.bankKeeper.supply
        (run sampleSdk.keeper.deliver sampleState isolationTxs).bank
        defaultBondDenom ≤
      sampleSdk.bankKeeper.supply sampleState.bank defaultBondDenom :=
  (run_isolated sampleSdk_lawful sampleState isolationTxs
    (by decide)).2 defaultBondDenom
    (by rw [Unclaimed]; decide +kernel)

end IreBlockchain.TokenFactory

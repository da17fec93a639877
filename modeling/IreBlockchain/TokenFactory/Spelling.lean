import IreBlockchain.TokenFactory.Bech32
import IreBlockchain.TokenFactory.ModuleAccounts
import IreBlockchain.TokenFactory.ValidateBasic

/-!
# The admin of a denom and the spelling of its address

Every check of an address decodes it, but the admin of a denom is stored as it
was written and compared with the sender letter by letter.
-/

namespace IreBlockchain.TokenFactory

open IreBlockchain.Foundation

/-- The denom whose admin the handler of a message asks for. -/
def Msg.governed : Msg → Option Text
  | .createDenom _ => none
  | .mint msg => some msg.amount.denom
  | .burn msg => some msg.amount.denom
  | .forceTransfer msg => some msg.amount.denom
  | .changeAdmin msg => some msg.denom
  | .setDenomMetadata msg => some msg.metadata.base
  | .updateParams _ => none

def Msg.withSender (sender : Text) : Msg → Msg
  | .createDenom msg => .createDenom { msg with sender }
  | .mint msg => .mint { msg with sender }
  | .burn msg => .burn { msg with sender }
  | .forceTransfer msg => .forceTransfer { msg with sender }
  | .changeAdmin msg => .changeAdmin { msg with sender }
  | .setDenomMetadata msg => .setDenomMetadata { msg with sender }
  | .updateParams msg => .updateParams { msg with authority := sender }

@[simp] theorem Msg.sender_withSender (msg : Msg) (sender : Text) :
    (msg.withSender sender).sender = sender := by
  cases msg <;> rfl

@[simp] theorem Msg.governed_withSender (msg : Msg) (sender : Text) :
    (msg.withSender sender).governed = msg.governed := by
  cases msg <;> rfl

variable {Account Bank BankGenesis : Type} {k : Keeper Account Bank BankGenesis}
  {codec : AddressCodec Account} {s s' : State Bank} {account : Account}

def Authorizes (s : State Bank) (msg : Msg) : Prop :=
  ∃ denom, msg.governed = some denom ∧
    Keeper.authorize s denom msg.sender = .ok ()

/-! ## The admin as an account -/

/-- The stored admin of the denom is some spelling of the account's address. -/
def Administers (codec : AddressCodec Account) (s : State Bank)
    (account : Account) (denom : Text) : Prop :=
  ∃ admin, getAuthorityMetadata s.store denom = .ok ⟨admin⟩ ∧
    codec.accAddressFromBech32 admin = .ok account

/-- Two spellings of an account's address are as good as one another. -/
def FollowsAccount (codec : AddressCodec Account) (s : State Bank) : Prop :=
  ∀ (msg : Msg) (denom a b : Text) (account : Account),
    msg.governed = some denom → codec.accAddressFromBech32 a = .ok account →
      codec.accAddressFromBech32 b = .ok account →
        (Authorizes s (msg.withSender a) ↔ Authorizes s (msg.withSender b))

theorem authorize_eq_ok_iff {denom sender : Text} :
    Keeper.authorize s denom sender = .ok () ↔
      getAuthorityMetadata s.store denom = .ok ⟨sender⟩ := by
  refine ⟨authorize_eq_ok, fun h => ?_⟩
  rw [Keeper.authorize, h, ok_bind]
  exact ensure_of rfl

theorem authorizes_withSender_iff {msg : Msg} {denom sender : Text}
    (h : msg.governed = some denom) :
    Authorizes s (msg.withSender sender) ↔
      getAuthorityMetadata s.store denom = .ok ⟨sender⟩ := by
  simp [Authorizes, h, authorize_eq_ok_iff]

theorem authorizes_iff_iff (hcodec : codec.Bech32) {msg : Msg}
    {denom a b : Text} (hgoverned : msg.governed = some denom)
    (ha : codec.accAddressFromBech32 a = .ok account)
    (hb : codec.accAddressFromBech32 b = .ok account) :
    (Authorizes s (msg.withSender a) ↔ Authorizes s (msg.withSender b)) ↔
      a = b ∨ ¬Administers codec s account denom := by
  rw [authorizes_withSender_iff hgoverned, authorizes_withSender_iff hgoverned]
  constructor
  · intro hsame
    by_contra hnot
    obtain ⟨hne, admin, hadmin, hdecode⟩ := by
      simpa only [not_or, not_not] using hnot
    have hboth : getAuthorityMetadata s.store denom = .ok ⟨a⟩ ∧
        getAuthorityMetadata s.store denom = .ok ⟨b⟩ := by
      rcases hcodec.eq_or_eq hne ha hb hdecode with rfl | rfl
      · exact ⟨hadmin, hsame.mp hadmin⟩
      · exact ⟨hsame.mpr hadmin, hadmin⟩
    have heq := Except.ok.inj (hboth.1.symm.trans hboth.2)
    exact hne (DenomAuthorityMetadata.mk.inj heq)
  · rintro (rfl | hnot)
    · rfl
    · exact iff_of_false (fun h => hnot ⟨a, h, ha⟩) (fun h => hnot ⟨b, h, hb⟩)

theorem followsAccount_iff (hcodec : codec.Bech32) :
    FollowsAccount codec s ↔
      ∀ account denom, ¬Administers codec s account denom := by
  constructor
  · intro h account denom
    let msg : Msg := .burn ⟨[], ⟨denom, 0⟩, []⟩
    have hsame := h msg denom _ _ account rfl (hcodec.decode_upper account)
      (hcodec.decode_string account)
    have hor := (authorizes_iff_iff hcodec rfl (hcodec.decode_upper account)
      (hcodec.decode_string account)).mp hsame
    exact hor.resolve_left (hcodec.upper_ne account)
  · intro h msg denom a b account hgoverned ha hb
    exact (authorizes_iff_iff hcodec hgoverned ha hb).mpr (.inr (h account denom))

theorem changeAdmin_authorize_iff {msg : MsgChangeAdmin} {sender : Text}
    (h : k.handleChangeAdmin s msg = .ok s') :
    Keeper.authorize s' msg.denom sender = .ok () ↔ msg.newAdmin = sender := by
  obtain ⟨-, store, hset, rfl⟩ := handleChangeAdmin_eq_ok h
  obtain ⟨-, rfl⟩ := setAuthorityMetadata_eq_ok hset
  simp [authorize_eq_ok_iff, getAuthorityMetadata]

variable [DecidableEq Account]

/-! ## Where a handler looks at its sender -/

namespace Keeper

variable (k)

def precheck (s : State Bank) : Msg → Result Unit
  | .mint msg =>
      ensure ((k.bankKeeper.getDenomMetaData s.bank
          msg.amount.denom).isSome = true)
        (.wrapped .errDenomDoesNotExist ("denom: ".toList ++ msg.amount.denom))
  | .forceTransfer _ =>
      ensure (isCapabilityEnabled k.enabledCapabilities
          enableForceTransfer = true)
        (.registered .errCapabilityNotEnabled)
  | .setDenomMetadata msg => do
      ensure (isCapabilityEnabled k.enabledCapabilities enableSetMetadata = true)
        (.registered .errCapabilityNotEnabled)
      k.bankKeeper.validateMetadata msg.metadata
  | _ => .ok ()

def act (s : State Bank) : Msg → Result (State Bank)
  | .mint msg => do
      let bank ← k.mintTo s.bank msg.amount msg.target
      return { s with bank }
  | .burn msg => do
      ensure (msg.burnFromAddress = [] ∨
          isCapabilityEnabled k.enabledCapabilities enableBurnFrom = true)
        (.registered .errCapabilityNotEnabled)
      let bank ← k.burnFrom s.bank msg.amount msg.target
      return { s with bank }
  | .forceTransfer msg => do
      let bank ← k.forceTransfer s.bank msg.amount msg.transferFromAddress
        msg.transferToAddress
      return { s with bank }
  | .changeAdmin msg => do
      let store ← k.setAdmin s.store msg.denom msg.newAdmin
      return { s with store }
  | .setDenomMetadata msg =>
      return { s with bank := k.bankKeeper.setDenomMetaData s.bank msg.metadata }
  | _ => .ok s

end Keeper

theorem handle_governed {msg : Msg} {denom : Text} {gas : Nat}
    (h : msg.governed = some denom) :
    k.handle s ⟨msg, gas⟩ = (do
      k.precheck s msg
      Keeper.authorize s denom msg.sender
      k.act s msg) := by
  cases msg with
  | createDenom => cases h
  | updateParams => cases h
  | setDenomMetadata msg =>
      cases h
      simp only [Keeper.handle, Keeper.handleSetDenomMetadata, Keeper.precheck,
        Keeper.act, Msg.sender, bind_assoc]
  | mint => cases h; rfl
  | burn => cases h; rfl
  | forceTransfer => cases h; rfl
  | changeAdmin => cases h; rfl

theorem handle_unauthorized {msg : Msg} {denom : Text} {gas : Nat}
    (hgoverned : msg.governed = some denom) (h : ¬Authorizes s msg) :
    (k.handle s ⟨msg, gas⟩).isOk = false := by
  cases hhandle : k.handle s ⟨msg, gas⟩ with
  | error e => rfl
  | ok s' =>
      rw [handle_governed hgoverned] at hhandle
      simp only [bind_eq_ok_iff] at hhandle
      obtain ⟨-, -, _, hauthorize, -⟩ := hhandle
      exact absurd ⟨denom, hgoverned, hauthorize⟩ h

/-! ## Runs -/

variable {sdk : Sdk Account Bank BankGenesis}

def Administered (codec : AddressCodec Account) (s : State Bank) : Prop :=
  ∃ account denom, Administers codec s account denom

def CreatesDenom (k : Keeper Account Bank BankGenesis) (s : State Bank)
    (tx : Tx) : Prop :=
  (∃ msg, tx.msg = .createDenom msg) ∧ k.Accepts s tx

theorem deliverTx_administered_iff (hsdk : sdk.Lawful) (s : State Bank)
    (tx : Tx) :
    Administered sdk.codec (sdk.keeper.deliverTx s tx) ↔
      Administered sdk.codec s ∨ CreatesDenom sdk.keeper s tx := by
  rcases deliverTx_cases sdk.keeper s tx with ⟨hnot, heq⟩ | ⟨haccept, hhandle⟩
  · rw [heq, CreatesDenom]
    simp [hnot]
  · have hvalid := haccept.1
    have hwritten := handle_written hsdk.bank pool_not_enabled hhandle
    generalize sdk.keeper.deliverTx s tx = s' at hwritten
    generalize hmsg : tx.msg = msg at hwritten hvalid
    cases hwritten with
    | @created msg denom creator hdecode hnamed hfresh hadmin hstore =>
        refine iff_of_true ⟨creator, denom, msg.sender, ?_, hdecode⟩
          (.inr ⟨⟨msg, hmsg⟩, haccept⟩)
        simp [getAuthorityMetadata, hstore]
    | @adminChanged msg hsender hadmin hstate =>
        obtain ⟨account, haccount⟩ := validateBasic_sender hvalid
        obtain ⟨⟨next, hnext⟩, -⟩ := validateBasic_changeAdmin hvalid
        refine iff_of_true ⟨next, msg.denom, msg.newAdmin, ?_, hnext⟩
          (.inl ⟨account, msg.denom, msg.sender, hsender, haccount⟩)
        simp [getAuthorityMetadata, hstate]
    | paramsSet hparams hstate =>
        simp [Administered, Administers, getAuthorityMetadata, hstate,
          CreatesDenom, hmsg]
    | kept hcreate hchange hstore =>
        simp [Administered, Administers, getAuthorityMetadata, hstore,
          CreatesDenom, hmsg, hcreate]

theorem run_followsAccount_iff (hsdk : sdk.Lawful) (hcodec : sdk.codec.Bech32)
    (s : State Bank) (txs : List Tx) :
    FollowsAccount sdk.codec (run sdk.keeper.deliverTx s txs) ↔
      FollowsAccount sdk.codec s ∧
        Guarded sdk.keeper.deliverTx
          (fun s tx => ¬CreatesDenom sdk.keeper s tx) s txs := by
  let any (_ : State Bank) := True
  have hstep (s : State Bank) (tx : Tx) (_ : any s) :
      FollowsAccount sdk.codec (sdk.keeper.deliverTx s tx) ↔
        FollowsAccount sdk.codec s ∧ ¬CreatesDenom sdk.keeper s tx := by
    have hiff := not_congr (deliverTx_administered_iff hsdk s tx)
    simpa [followsAccount_iff hcodec, Administered] using hiff
  have hany : ∀ s tx, any s → any (sdk.keeper.deliverTx s tx) := fun _ _ => id
  exact run_iff_guarded hany hstep (show any s from trivial) txs

/--
Two spellings of an account are authorized alike exactly when they are the same
text or the account does not administer the denom.  A change of admin leaves
the denom to the ordinary spelling of an account exactly when it was made in
it.  So authority follows accounts at the end of a run exactly when it did at
its start and no denom was created since.
-/
theorem authority_spelling_iff (hsdk : sdk.Lawful)
    (hcodec : sdk.codec.Bech32) :
    (∀ (s : State Bank) (msg : Msg) (denom a b : Text) (account : Account),
      msg.governed = some denom →
      sdk.codec.accAddressFromBech32 a = .ok account →
      sdk.codec.accAddressFromBech32 b = .ok account →
        ((Authorizes s (msg.withSender a) ↔ Authorizes s (msg.withSender b)) ↔
          a = b ∨ ¬Administers sdk.codec s account denom)) ∧
    (∀ (s s' : State Bank) (msg : MsgChangeAdmin) (account : Account),
      sdk.codec.accAddressFromBech32 msg.newAdmin = .ok account →
      sdk.keeper.handleChangeAdmin s msg = .ok s' →
        (Keeper.authorize s' msg.denom (sdk.codec.string account) = .ok () ↔
          msg.newAdmin = sdk.codec.string account)) ∧
    ∀ (s : State Bank) (txs : List Tx),
      FollowsAccount sdk.codec (run sdk.keeper.deliverTx s txs) ↔
        FollowsAccount sdk.codec s ∧
          Guarded sdk.keeper.deliverTx
            (fun s tx => ¬CreatesDenom sdk.keeper s tx) s txs :=
  ⟨fun _ _ _ _ _ _ => authorizes_iff_iff hcodec,
    fun _ _ _ _ _ => changeAdmin_authorize_iff,
    run_followsAccount_iff hsdk hcodec⟩

/-! ## An admin written in upper case -/

def spelledUser : Text := spelledSdk.codec.string 10

def respelled : State (LedgerBank (Fin 11)) :=
  run spelledSdk.keeper.deliverTx sampleState
    [⟨.createDenom ⟨spelledUser, "abc".toList⟩, 2000000⟩,
      ⟨.changeAdmin ⟨spelledUser, sampleDenom, upper spelledUser⟩, 0⟩]

theorem respelled_admin : getAuthorityMetadata respelled.store sampleDenom =
    .ok ⟨upper spelledUser⟩ := by decide +kernel

theorem ordinary_spelling_refused :
    ¬∀ (Account Bank BankGenesis : Type) [DecidableEq Account]
        (sdk : Sdk Account Bank BankGenesis) (genesis : AppGenesis BankGenesis)
        (s₀ : State Bank) (txs : List Tx),
      sdk.Lawful → sdk.codec.Bech32 → sdk.keeper.initChain genesis = .ok s₀ →
        FollowsAccount sdk.codec (run sdk.keeper.deliverTx s₀ txs) := by
  intro h
  have hfollows : FollowsAccount spelledSdk.codec respelled :=
    h (Fin 11) _ _ spelledSdk ⟨sampleState.bank, defaultGenesis⟩ sampleState _
      spelledSdk_lawful bothSpellings_bech32 rfl
  let msg : Msg := .mint ⟨[], ⟨sampleDenom, 5⟩, []⟩
  have hsame := hfollows msg sampleDenom _ _ 10 rfl
    (bothSpellings_bech32.decode_upper 10)
    (bothSpellings_bech32.decode_string 10)
  rw [authorizes_withSender_iff rfl, authorizes_withSender_iff rfl] at hsame
  have heq := Except.ok.inj (respelled_admin.symm.trans
    (hsame.mp respelled_admin))
  exact bothSpellings_bech32.upper_ne 10 (DenomAuthorityMetadata.mk.inj heq)

theorem authority_spelling_iff_sample :
    let msg : Msg := .mint ⟨[], ⟨sampleDenom, 5⟩, []⟩
    Authorizes respelled (msg.withSender (upper (spelledSdk.codec.string 5))) ↔
      Authorizes respelled (msg.withSender (spelledSdk.codec.string 5)) := by
  refine ((authority_spelling_iff spelledSdk_lawful bothSpellings_bech32).1
    respelled _ sampleDenom _ _ 5 rfl (bothSpellings_bech32.decode_upper 5)
    (bothSpellings_bech32.decode_string 5)).mpr (.inr ?_)
  rintro ⟨admin, hadmin, hdecode⟩
  obtain rfl := DenomAuthorityMetadata.mk.inj
    (Except.ok.inj (respelled_admin.symm.trans hadmin))
  have huser := bothSpellings_bech32.decode_upper 10
  exact absurd (Except.ok.inj (huser.symm.trans hdecode)) (by decide)

end IreBlockchain.TokenFactory

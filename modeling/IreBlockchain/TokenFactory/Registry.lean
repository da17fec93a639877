import IreBlockchain.TokenFactory.Bech32
import IreBlockchain.TokenFactory.GenesisMetadata
import IreBlockchain.TokenFactory.ValidateBasic

/-!
# The registry of factory denoms

What the module keeps, seen from outside: who created each denom, and who
administers it now.  The store holds the two halves under different keys and
the bank holds a third record; every message writes all of them alike.
-/

namespace IreBlockchain.TokenFactory

open IreBlockchain.Foundation

/-! ## The abstract registry -/

structure Registration where
  creator : Text
  admin : Text
  deriving DecidableEq, Repr

abbrev Registry := Text → Option Registration

namespace Registry

def creatorOf (registry : Registry) (denom : Text) : Option Text :=
  (registry denom).map Registration.creator

/-- An unknown denom reads as one with an empty admin. -/
def adminOf (registry : Registry) (denom : Text) : Text :=
  ((registry denom).map Registration.admin).getD []

def register (registry : Registry) (denom : Text) (entry : Registration) :
    Registry :=
  Function.update registry denom (some entry)

def assign (registry : Registry) (denom admin : Text) : Registry :=
  Function.update registry denom
    ((registry denom).map fun entry => { entry with admin })

def after (registry : Registry) : Msg → Registry
  | .createDenom msg =>
      registry.register
        (moduleDenomPrefix ++ '/' :: (msg.sender ++ '/' :: msg.subdenom))
        ⟨msg.sender, msg.sender⟩
  | .changeAdmin msg => registry.assign msg.denom msg.newAdmin
  | _ => registry

variable (registry : Registry) (denom : Text)

theorem after_createDenom (msg : MsgCreateDenom) :
    registry.after (.createDenom msg) =
      registry.register (factoryDenom msg.sender msg.subdenom)
        ⟨msg.sender, msg.sender⟩ := rfl

theorem register_apply (entry : Registration) (other : Text) :
    registry.register denom entry other =
      if other = denom then some entry else registry other :=
  Function.update_apply registry denom (some entry) other

theorem creatorOf_register (entry : Registration) (other : Text) :
    (registry.register denom entry).creatorOf other =
      if other = denom then some entry.creator else registry.creatorOf other := by
  simp only [creatorOf, register_apply]
  split <;> rfl

theorem assign_register (creator admin admin' : Text) :
    (registry.register denom ⟨creator, admin⟩).assign denom admin' =
      registry.register denom ⟨creator, admin'⟩ := by
  simp [assign, register]

@[simp] theorem creatorOf_assign (admin : Text) :
    (registry.assign denom admin).creatorOf = registry.creatorOf := by
  funext other
  simp only [creatorOf, assign, Function.update_apply]
  split
  next heq =>
    subst heq
    cases registry other <;> rfl
  next => rfl

end Registry

/-! ## How the state represents it -/

variable {Account Bank BankGenesis : Type}

/-- The authority records, the creator index and the metadata agree on it. -/
structure Represents (k : Keeper Account Bank BankGenesis) (s : State Bank)
    (registry : Registry) : Prop where
  authority : ∀ denom, s.store.get (authorityKey denom) =
    (registry denom).map fun entry => .authority ⟨entry.admin⟩
  index : ∀ creator denom, s.store.get (creatorKey creator denom) =
    if registry.creatorOf denom = some creator then some (.denom denom)
    else none
  described : ∀ denom, k.bankKeeper.getDenomMetaData s.bank denom = none →
    registry denom = none
  spelled : ∀ denom creator, registry.creatorOf denom = some creator →
    ∃ account subdenom,
      deconstructDenom k.codec denom = .ok (k.codec.string account, subdenom) ∧
        k.codec.accAddressFromBech32 creator = .ok account
  wellFormed : WellFormed k.codec s.store

theorem denomFormat_separator {denom : Text} (h : denomFormat denom = true) :
    '|' ∉ denom := by
  cases denom with
  | nil => simp
  | cons first rest =>
      simp only [denomFormat, Bool.and_eq_true, List.all_eq_true] at h
      obtain ⟨⟨⟨hfirst, -⟩, -⟩, hrest⟩ := h
      intro hmem
      rcases List.mem_cons.mp hmem with rfl | hmem
      · exact absurd hfirst (by decide)
      · exact absurd (hrest _ hmem) (by decide)

theorem deconstructDenom_separator {codec : AddressCodec Account}
    {denom : Text} {parts : Text × Text}
    (h : deconstructDenom codec denom = .ok parts) : '|' ∉ denom := by
  simp only [deconstructDenom, validateDenom, bind_eq_ok_iff,
    ensure_eq_ok_iff] at h
  obtain ⟨-, hformat, -⟩ := h
  exact denomFormat_separator hformat

variable {k : Keeper Account Bank BankGenesis} {s s' : State Bank}
  {registry : Registry}

theorem represents_empty (bank : Bank) :
    Represents k ⟨bank, .empty⟩ (fun _ => none) where
  authority _ := rfl
  index _ _ := rfl
  described _ _ := rfl
  spelled _ _ h := by cases h
  wellFormed := wellFormed_empty

theorem Represents.creatorOf_eq_some_iff (h : Represents k s registry)
    {creator denom : Text} : registry.creatorOf denom = some creator ↔
      (s.store.get (creatorKey creator denom)).isSome = true := by
  rw [h.index]
  split <;> simp_all

theorem Represents.register (hcodec : k.codec.Bech32)
    (h : Represents k s registry) {creator denom subdenom : Text}
    {account : Account}
    (hdecode : k.codec.accAddressFromBech32 creator = .ok account)
    (hparts : deconstructDenom k.codec denom =
      .ok (k.codec.string account, subdenom))
    (hsame : ∀ other, registry.creatorOf denom = some other → other = creator)
    (hstore : s'.store = addDenomFromCreator
      (s.store.set (authorityKey denom) (.authority ⟨creator⟩)) creator denom)
    (hmetadata : ∀ d, k.bankKeeper.getDenomMetaData s'.bank d = none →
      d ≠ denom ∧ k.bankKeeper.getDenomMetaData s.bank d = none) :
    Represents k s' (registry.register denom ⟨creator, creator⟩) := by
  have hadmin := DenomAuthorityMetadata.validate_of_decode hdecode
  refine ⟨?_, ?_, ?_, ?_, ?_⟩
  · intro d
    rw [hstore, get_authorityKey_addDenomFromCreator,
      get_authorityKey_setAuthority, Registry.register_apply, h.authority]
    split <;> rfl
  · intro c d
    rw [hstore, get_creatorKey_addDenomFromCreator _
        (hcodec.separator_not_mem hdecode) (deconstructDenom_separator hparts),
      get_creatorKey_setAuthority, h.index, Registry.creatorOf_register]
    by_cases hdenom : d = denom
    · subst hdenom
      by_cases hcreator : c = creator
      · simp [hcreator]
      · have hother : registry.creatorOf d ≠ some c :=
          fun heq => hcreator (hsame c heq)
        simp [hcreator, Ne.symm hcreator, hother]
    · simp [hdenom]
  · intro d hnone
    obtain ⟨hne, hnone⟩ := hmetadata d hnone
    rw [Registry.register_apply, if_neg hne]
    exact h.described d hnone
  · intro d c hd
    rw [Registry.creatorOf_register] at hd
    split at hd
    next heq =>
      obtain rfl := Option.some.inj hd
      exact heq ▸ ⟨account, subdenom, hparts, hdecode⟩
    next => exact h.spelled d c hd
  · rw [hstore]
    exact (h.wellFormed.set (.authority rfl hadmin)).set
      (.denom rfl ⟨_, hparts⟩)

theorem Represents.assign (h : Represents k s registry)
    {denom admin : Text} {entry : Registration}
    (hknown : registry denom = some entry)
    (hadmin : (⟨admin⟩ : DenomAuthorityMetadata).validate k.codec = .ok ()) :
    Represents k { s with
      store := s.store.set (authorityKey denom) (.authority ⟨admin⟩) }
      (registry.assign denom admin) := by
  refine ⟨?_, ?_, ?_, ?_, h.wellFormed.set (.authority rfl hadmin)⟩
  · intro d
    dsimp only
    rw [get_authorityKey_setAuthority, Registry.assign, Function.update_apply,
      h.authority, hknown]
    split <;> rfl
  · intro c d
    dsimp only
    rw [get_creatorKey_setAuthority, Registry.creatorOf_assign, h.index]
  · intro d hnone
    have hother := h.described d hnone
    have hne : d ≠ denom := by
      rintro rfl
      rw [hknown] at hother
      cases hother
    rwa [Registry.assign, Function.update_of_ne hne]
  · intro d c hd
    rw [Registry.creatorOf_assign] at hd
    exact h.spelled d c hd

theorem Represents.frame (h : Represents k s registry)
    (hauthority : ∀ denom,
      s'.store.get (authorityKey denom) = s.store.get (authorityKey denom))
    (hindex : ∀ creator denom, s'.store.get (creatorKey creator denom) =
      s.store.get (creatorKey creator denom))
    (hmetadata : ∀ d, k.bankKeeper.getDenomMetaData s'.bank d = none →
      k.bankKeeper.getDenomMetaData s.bank d = none)
    (hstore : WellFormed k.codec s'.store) : Represents k s' registry where
  authority denom := (hauthority denom).trans (h.authority denom)
  index creator denom := (hindex creator denom).trans (h.index creator denom)
  described denom hnone := h.described denom (hmetadata denom hnone)
  spelled := h.spelled
  wellFormed := hstore

/-! ## Genesis -/

def canonicalCreator (codec : AddressCodec Account) (denom : Text) : Text :=
  match deconstructDenom codec denom with
  | .ok (creator, _) => creator
  | .error _ => []

/-- Every creator is known by the spelling that an import finds. -/
def Registry.Canonical (codec : AddressCodec Account) (registry : Registry) :
    Prop :=
  ∀ denom creator, registry.creatorOf denom = some creator →
    creator = canonicalCreator codec denom

def Registry.restore (codec : AddressCodec Account) (registry : Registry)
    (genDenom : GenesisDenom) : Registry :=
  registry.register genDenom.denom
    ⟨canonicalCreator codec genDenom.denom, genDenom.authorityMetadata.admin⟩

def GenesisState.restored (codec : AddressCodec Account)
    (genState : GenesisState) : Registry :=
  genState.factoryDenoms.foldl (Registry.restore codec) fun _ => none

theorem Registry.Canonical.restore {codec : AddressCodec Account}
    (h : registry.Canonical codec) (genDenom : GenesisDenom) :
    (registry.restore codec genDenom).Canonical codec := by
  intro denom creator hdenom
  rw [Registry.restore, Registry.creatorOf_register] at hdenom
  split at hdenom
  next heq => exact heq ▸ (Option.some.inj hdenom).symm
  next => exact h denom creator hdenom

theorem Registry.canonical_register_iff {codec : AddressCodec Account}
    {denom : Text} (hfresh : registry.creatorOf denom = none)
    (entry : Registration) :
    (registry.register denom entry).Canonical codec ↔
      registry.Canonical codec ∧
        entry.creator = canonicalCreator codec denom := by
  constructor
  · intro h
    refine ⟨fun other creator hother => ?_, ?_⟩
    · refine h other creator ?_
      rw [creatorOf_register, if_neg, hother]
      rintro rfl
      rw [hfresh] at hother
      cases hother
    · exact h denom entry.creator (by rw [creatorOf_register, if_pos rfl])
  · rintro ⟨hrest, hentry⟩ other creator hother
    rw [creatorOf_register] at hother
    split at hother
    next heq => exact heq ▸ (Option.some.inj hother).symm.trans hentry
    next => exact hrest other creator hother

variable [DecidableEq Account]

theorem Represents.initGenesisDenom (hbank : k.bankKeeper.Lawful)
    (hcodec : k.codec.Bech32) (h : Represents k s registry)
    (hcanonical : registry.Canonical k.codec) {genDenom : GenesisDenom}
    (hstep : k.initGenesisDenom s genDenom = .ok s') :
    Represents k s' (registry.restore k.codec genDenom) := by
  simp only [Keeper.initGenesisDenom, bind_eq_ok_iff] at hstep
  obtain ⟨⟨creator, subdenom⟩, hparts, s₁, hcreate, store, hset, hret⟩ := hstep
  obtain rfl := Except.ok.inj hret
  obtain ⟨hadmin, rfl⟩ := setAuthorityMetadata_eq_ok hset
  have hcreator : canonicalCreator k.codec genDenom.denom = creator := by
    rw [canonicalCreator, hparts]
  obtain ⟨account, rfl⟩ := deconstructDenom_creator hparts
  have hcreated : Represents k s₁ (registry.register genDenom.denom
      ⟨k.codec.string account, k.codec.string account⟩) := by
    obtain ⟨-, rfl⟩ := createDenomAfterValidation_eq_ok hcreate
    refine h.register hcodec (hcodec.decode_string account) hparts ?_ rfl ?_
    · intro other hother
      exact (hcanonical _ _ hother).trans hcreator
    · intro d hnone
      dsimp only at hnone
      rw [hbank.getSet] at hnone
      split at hnone
      next => cases hnone
      next hne => exact ⟨hne, hnone⟩
  have hknown : registry.register genDenom.denom
      ⟨k.codec.string account, k.codec.string account⟩ genDenom.denom =
        some ⟨k.codec.string account, k.codec.string account⟩ := by
    simp [Registry.register_apply]
  have hassigned := hcreated.assign hknown hadmin
  rwa [Registry.assign_register, ← hcreator] at hassigned

theorem Represents.foldlM_initGenesisDenom (hbank : k.bankKeeper.Lawful)
    (hcodec : k.codec.Bech32) {genDenoms : List GenesisDenom}
    (h : Represents k s registry) (hcanonical : registry.Canonical k.codec)
    (hfold : genDenoms.foldlM k.initGenesisDenom s = .ok s') :
    Represents k s' (genDenoms.foldl (Registry.restore k.codec) registry) ∧
      (genDenoms.foldl (Registry.restore k.codec) registry).Canonical
        k.codec := by
  induction genDenoms generalizing s registry with
  | nil =>
      obtain rfl := Except.ok.inj hfold
      exact ⟨h, hcanonical⟩
  | cons genDenom genDenoms ih =>
      rw [List.foldlM_cons, bind_eq_ok_iff] at hfold
      obtain ⟨s₁, hstep, hrest⟩ := hfold
      exact ih (h.initGenesisDenom hbank hcodec hcanonical hstep)
        (hcanonical.restore genDenom) hrest

theorem represents_initGenesis (hbank : k.bankKeeper.Lawful)
    (hcodec : k.codec.Bech32) {bank : Bank} {genState : GenesisState}
    (h : k.initGenesis ⟨bank, .empty⟩ genState = .ok s') :
    Represents k s' (genState.restored k.codec) ∧
      (genState.restored k.codec).Canonical k.codec ∧
      getParams s'.store = genState.params := by
  simp only [Keeper.initGenesis, bind_eq_ok_iff] at h
  obtain ⟨store, hset, hfold⟩ := h
  obtain ⟨hparams, rfl⟩ := setParams_eq_ok hset
  have hstart : Represents k
      ⟨bank, KVStore.empty.set paramsKey (.params genState.params)⟩
      (fun _ => none) :=
    (represents_empty bank).frame (fun _ => get_authorityKey_setParams _ _ _)
      (fun _ _ => get_creatorKey_setParams _ _ _ _) (fun _ => id)
      (wellFormed_empty.set (.params rfl hparams))
  obtain ⟨hrepresents, hcanonical⟩ := hstart.foldlM_initGenesisDenom hbank
    hcodec (fun _ _ h => by cases h) hfold
  refine ⟨hrepresents, hcanonical, ?_⟩
  refine foldlM_invariant
    (fun s : State Bank => getParams s.store = genState.params) ?_
    (getParams_setParams _ _) hfold
  intro s genDenom s' hinv hstep
  simp only [Keeper.initGenesisDenom, bind_eq_ok_iff] at hstep
  obtain ⟨parts, -, s₁, hcreate, store, hset, hret⟩ := hstep
  obtain rfl := Except.ok.inj hret
  obtain ⟨-, rfl⟩ := createDenomAfterValidation_eq_ok hcreate
  obtain ⟨-, rfl⟩ := setAuthorityMetadata_eq_ok hset
  simpa using hinv

/-! ## Messages -/

theorem Represents.handle (hbank : k.bankKeeper.Lawful)
    (hpool : isCapabilityEnabled k.enabledCapabilities
      enableCommunityPoolFeeFunding = false) (hcodec : k.codec.Bech32)
    (h : Represents k s registry) {tx : Tx}
    (hvalid : k.validateBasic tx.msg = .ok ())
    (hhandle : k.handle s tx = .ok s') :
    Represents k s' (registry.after tx.msg) := by
  have hwritten := handle_written hbank hpool hhandle
  generalize tx.msg = msg at hwritten hvalid
  cases hwritten with
  | @created msg denom creator hdecode hnamed hfresh hadmin hstore hmetadata =>
      have hparts := deconstructDenom_of_getTokenDenom hdecode hnamed
      obtain ⟨-, -, -, -, rfl⟩ := getTokenDenom_eq_ok_iff.mp hnamed
      have hnone := h.described _ hfresh
      rw [Registry.after_createDenom]
      refine h.register hcodec hdecode hparts ?_ hstore ?_
      · intro other hother
        rw [Registry.creatorOf, hnone] at hother
        cases hother
      · intro d hd
        rw [hmetadata] at hd
        split at hd
        next => cases hd
        next hne => exact ⟨hne, hd⟩
  | @adminChanged msg hsender hadmin hstate =>
      obtain ⟨account, haccount⟩ := validateBasic_sender hvalid
      have hknown : ∃ entry, registry msg.denom = some entry := by
        refine Option.ne_none_iff_exists'.mp fun hnone => ?_
        rw [getAuthorityMetadata, h.authority, hnone] at hsender
        exact hcodec.ne_nil haccount
          (DenomAuthorityMetadata.mk.inj (Except.ok.inj hsender)).symm
      obtain ⟨entry, hknown⟩ := hknown
      exact hstate ▸ h.assign hknown hadmin
  | paramsSet hparams hstate =>
      subst hstate
      exact h.frame (fun _ => get_authorityKey_setParams _ _ _)
        (fun _ _ => get_creatorKey_setParams _ _ _ _) (fun _ => id)
        (h.wellFormed.set (.params rfl hparams))
  | kept hcreate hchange hstore hmetadata =>
      have hafter : registry.after msg = registry := by
        cases msg with
        | createDenom msg => exact absurd rfl (hcreate msg)
        | changeAdmin msg => exact absurd rfl (hchange msg)
        | _ => rfl
      rw [hafter]
      exact h.frame (fun _ => by rw [hstore]) (fun _ _ => by rw [hstore])
        hmetadata (hstore ▸ h.wellFormed)

variable {sdk : Sdk Account Bank BankGenesis}

theorem initChain_represents (hsdk : sdk.Lawful) (hcodec : sdk.codec.Bech32)
    {genesis : AppGenesis BankGenesis}
    (h : sdk.keeper.initChain genesis = .ok s) :
    Represents sdk.keeper s (genesis.tokenfactory.restored sdk.codec) ∧
      (genesis.tokenfactory.restored sdk.codec).Canonical sdk.codec := by
  rw [initChain_eq] at h
  obtain ⟨hrepresents, hcanonical, -⟩ :=
    represents_initGenesis (k := sdk.keeper) hsdk.bank hcodec h
  exact ⟨hrepresents, hcanonical⟩

theorem deliverTx_represents (hsdk : sdk.Lawful) (hcodec : sdk.codec.Bech32)
    (s : State Bank) (tx : Tx) (h : ∃ registry, Represents sdk.keeper s registry) :
    ∃ registry, Represents sdk.keeper (sdk.keeper.deliverTx s tx) registry := by
  obtain ⟨registry, h⟩ := h
  rcases deliverTx_cases sdk.keeper s tx with ⟨-, heq⟩ | ⟨haccept, hhandle⟩
  · exact ⟨registry, by rwa [heq]⟩
  · exact ⟨registry.after tx.msg,
      h.handle hsdk.bank pool_not_enabled hcodec haccept.1 hhandle⟩

theorem run_represents (hsdk : sdk.Lawful) (hcodec : sdk.codec.Bech32)
    {genesis : AppGenesis BankGenesis} {s₀ : State Bank}
    (hinit : sdk.keeper.initChain genesis = .ok s₀) (txs : List Tx) :
    ∃ registry,
      Represents sdk.keeper (run sdk.keeper.deliverTx s₀ txs) registry := by
  have hkept : ∀ (s : State Bank) tx,
      (∃ registry, Represents sdk.keeper s registry) →
        ∃ registry, Represents sdk.keeper (sdk.keeper.deliverTx s tx) registry :=
    deliverTx_represents hsdk hcodec
  exact run_invariant hkept ⟨_, (initChain_represents hsdk hcodec hinit).1⟩ txs

end IreBlockchain.TokenFactory

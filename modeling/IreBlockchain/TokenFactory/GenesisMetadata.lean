import IreBlockchain.TokenFactory.ModuleAccounts

/-!
# Export and import of denom metadata

Every entry of a reachable store fits its key, so a genesis can be exported and
imported again.  The import creates each factory denom anew, which writes the
default metadata over what the bank had imported before.
-/

namespace IreBlockchain.TokenFactory

open IreBlockchain.Foundation

variable {Account Bank BankGenesis : Type}

/-! ## Well-formed stores -/

inductive Fits (codec : AddressCodec Account) (key : Text) : StoreValue → Prop
  | params {params : Params} (hkey : key = paramsKey)
      (h : params.validate = .ok ()) : Fits codec key (.params params)
  | authority {denom : Text} {metadata : DenomAuthorityMetadata}
      (hkey : key = authorityKey denom) (h : metadata.validate codec = .ok ()) :
      Fits codec key (.authority metadata)
  | denom {creator denom : Text} (hkey : key = creatorKey creator denom)
      (h : ∃ parts, deconstructDenom codec denom = .ok parts) :
      Fits codec key (.denom denom)

def WellFormed (codec : AddressCodec Account) (store : Store) : Prop :=
  ∀ key value, store.get key = some value → Fits codec key value

variable {codec : AddressCodec Account} {store : Store}

theorem wellFormed_empty : WellFormed codec KVStore.empty := by
  intro key value h
  simp at h

theorem WellFormed.set {key : Text} {value : StoreValue}
    (hstore : WellFormed codec store) (hfits : Fits codec key value) :
    WellFormed codec (store.set key value) := by
  intro key' value' h
  rw [KVStore.get_set] at h
  split at h
  next heq =>
    obtain rfl := Option.some.inj h
    exact heq ▸ hfits
  next => exact hstore key' value' h

theorem WellFormed.authority (hstore : WellFormed codec store) (denom : Text) :
    ∃ metadata, getAuthorityMetadata store denom = .ok metadata ∧
      metadata.validate codec = .ok () := by
  unfold getAuthorityMetadata
  cases h : store.get (authorityKey denom) with
  | none => exact ⟨⟨[]⟩, rfl, rfl⟩
  | some value =>
      cases hstore _ _ h with
      | params hkey => exact absurd hkey (authorityKey_ne_paramsKey denom)
      | authority hkey hvalid => exact ⟨_, rfl, hvalid⟩
      | denom hkey => exact absurd hkey (authorityKey_ne_creatorKey _ _ _)

theorem WellFormed.params (hstore : WellFormed codec store) :
    (getParams store).validate = .ok () := by
  unfold getParams
  cases h : store.get paramsKey with
  | none => rfl
  | some value =>
      cases hstore _ _ h with
      | params hkey hvalid => exact hvalid
      | authority => rfl
      | denom => rfl

theorem WellFormed.denom (hstore : WellFormed codec store) {denom : Text}
    (h : denom ∈ getAllDenoms store) :
    ∃ parts, deconstructDenom codec denom = .ok parts := by
  simp only [getAllDenoms, List.mem_filterMap] at h
  obtain ⟨⟨key, value⟩, hmem, hvalue⟩ := h
  cases value with
  | denom d =>
      obtain rfl := Option.some.inj hvalue
      cases hstore _ _ (KVStore.mem_iterate_iff.mp hmem).1 with
      | denom hkey hfactory => exact hfactory
  | params => contradiction
  | authority => contradiction

/-! ## Runs keep the store well formed -/

variable [DecidableEq Account] {k : Keeper Account Bank BankGenesis}
  {sdk : Sdk Account Bank BankGenesis} {s s' : State Bank}

omit [DecidableEq Account] in
theorem createDenomAfterValidation_wellFormed {creatorAddr denom : Text}
    (hfactory : ∃ parts, deconstructDenom k.codec denom = .ok parts)
    (hstore : WellFormed k.codec s.store)
    (h : k.createDenomAfterValidation s creatorAddr denom = .ok s') :
    WellFormed k.codec s'.store := by
  obtain ⟨hadmin, rfl⟩ := createDenomAfterValidation_eq_ok h
  exact (hstore.set (.authority rfl hadmin)).set (.denom rfl hfactory)

omit [DecidableEq Account] in
theorem initGenesisDenom_wellFormed {genDenom : GenesisDenom}
    (hstore : WellFormed k.codec s.store)
    (h : k.initGenesisDenom s genDenom = .ok s') :
    WellFormed k.codec s'.store := by
  simp only [Keeper.initGenesisDenom, bind_eq_ok_iff] at h
  obtain ⟨parts, hparts, s₁, hcreate, store, hset, h⟩ := h
  obtain rfl := Except.ok.inj h
  obtain ⟨hadmin, rfl⟩ := setAuthorityMetadata_eq_ok hset
  exact (createDenomAfterValidation_wellFormed ⟨parts, hparts⟩ hstore
    hcreate).set (.authority rfl hadmin)

omit [DecidableEq Account] in
theorem initGenesis_wellFormed {genState : GenesisState}
    (hstore : WellFormed k.codec s.store)
    (h : k.initGenesis s genState = .ok s') : WellFormed k.codec s'.store := by
  simp only [Keeper.initGenesis, bind_eq_ok_iff] at h
  obtain ⟨store, hset, h⟩ := h
  obtain ⟨hparams, rfl⟩ := setParams_eq_ok hset
  exact foldlM_invariant (fun s : State Bank => WellFormed k.codec s.store)
    (fun _ _ _ hinv hstep => initGenesisDenom_wellFormed hinv hstep)
    (hstore.set (.params rfl hparams)) h

omit [DecidableEq Account] in
theorem initChain_wellFormed {genesis : AppGenesis BankGenesis}
    (h : k.initChain genesis = .ok s) : WellFormed k.codec s.store := by
  refine foldlM_invariant (fun s : State Bank => WellFormed k.codec s.store)
    ?_ wellFormed_empty h
  intro s module s' hinv hmodule
  unfold Keeper.initModule at hmodule
  split at hmodule
  · obtain rfl := Except.ok.inj hmodule
    exact hinv
  · split at hmodule
    · exact initGenesis_wellFormed hinv hmodule
    · obtain rfl := Except.ok.inj hmodule
      exact hinv

theorem deliver_wellFormed (hsdk : sdk.Lawful) (s : State Bank) (tx : Tx)
    (hstore : WellFormed sdk.codec s.store) :
    WellFormed sdk.codec (sdk.keeper.deliver s tx).store := by
  have hstored := deliver_stored (k := sdk.keeper) hsdk.bank pool_not_enabled s tx
  generalize (sdk.keeper.deliver s tx).store = store at hstored ⊢
  cases hstored with
  | kept => exact hstore
  | created hadmin hfactory =>
      exact (hstore.set (.authority rfl hadmin)).set (.denom rfl hfactory)
  | authority hadmin => exact hstore.set (.authority rfl hadmin)
  | params hparams => exact hstore.set (.params rfl hparams)

theorem Keeper.Reachable.wellFormed (hsdk : sdk.Lawful)
    (h : sdk.keeper.Reachable s) : WellFormed sdk.codec s.store := by
  obtain ⟨genesis, s₀, txs, hinit, rfl⟩ := h
  have hkept : ∀ (s : State Bank) tx, WellFormed sdk.codec s.store →
      WellFormed sdk.codec (sdk.keeper.deliver s tx).store :=
    deliver_wellFormed hsdk
  exact run_invariant hkept (initChain_wellFormed hinit) txs

/-! ## Export and import -/

structure Importable (codec : AddressCodec Account) (genDenom : GenesisDenom) :
    Prop where
  factory : ∃ parts, deconstructDenom codec genDenom.denom = .ok parts
  admin : genDenom.authorityMetadata.validate codec = .ok ()

omit [DecidableEq Account] in
theorem exportGenesis_isOk (hstore : WellFormed codec store) :
    ∃ genState, Keeper.exportGenesis store = .ok genState ∧
      genState.params.validate = .ok () ∧
      genState.factoryDenoms.map GenesisDenom.denom = getAllDenoms store ∧
      ∀ genDenom ∈ genState.factoryDenoms, Importable codec genDenom := by
  obtain ⟨genDenoms, hmap, hall⟩ := mapM_isOk
    (f := fun denom => do
      let authorityMetadata ← getAuthorityMetadata store denom
      return (⟨denom, authorityMetadata⟩ : GenesisDenom))
    (p := fun denom genDenom =>
      genDenom.denom = denom ∧ Importable codec genDenom)
    (l := getAllDenoms store) (fun denom hdenom => by
      obtain ⟨metadata, hmetadata, hvalid⟩ := hstore.authority denom
      exact ⟨⟨denom, metadata⟩, by rw [hmetadata]; rfl, rfl,
        hstore.denom hdenom, hvalid⟩)
  refine ⟨⟨getParams store, genDenoms⟩, ?_, hstore.params, ?_, ?_⟩
  · simp only [Keeper.exportGenesis, hmap, ok_bind]
    rfl
  · clear hmap
    generalize getAllDenoms store = denoms at hall ⊢
    induction hall with
    | nil => rfl
    | cons hhead hrest ih => simp [hhead.1, ih]
  · clear hmap
    generalize getAllDenoms store = denoms at hall
    induction hall with
    | nil => simp
    | cons hhead hrest ih => simpa using ⟨hhead.2, ih⟩

omit [DecidableEq Account] in
theorem initGenesisDenom_isOk (hcodec : k.codec.Lawful)
    {genDenom : GenesisDenom} (h : Importable k.codec genDenom)
    (s : State Bank) :
    ∃ s', k.initGenesisDenom s genDenom = .ok s' ∧
      s'.bank = k.bankKeeper.setDenomMetaData s.bank
        (Keeper.denomMetaData genDenom.denom) := by
  obtain ⟨⟨creator, subdenom⟩, hparts⟩ := h.factory
  obtain ⟨account, rfl⟩ := deconstructDenom_creator hparts
  have hadmin := DenomAuthorityMetadata.validate_of_decode
    (hcodec.decode_string account)
  simp only [Keeper.initGenesisDenom, hparts, Keeper.createDenomAfterValidation,
    Keeper.setAuthorityMetadata, hadmin, h.admin, ok_bind]
  exact ⟨_, rfl, rfl⟩

theorem foldlM_initGenesisDenom (hcodec : k.codec.Lawful)
    (hbank : k.bankKeeper.Lawful) {genDenoms : List GenesisDenom}
    (h : ∀ genDenom ∈ genDenoms, Importable k.codec genDenom) (s : State Bank) :
    ∃ s', genDenoms.foldlM k.initGenesisDenom s = .ok s' ∧
      ∀ denom, k.bankKeeper.getDenomMetaData s'.bank denom =
        if denom ∈ genDenoms.map GenesisDenom.denom then
          some (Keeper.denomMetaData denom)
        else k.bankKeeper.getDenomMetaData s.bank denom := by
  induction genDenoms generalizing s with
  | nil => exact ⟨s, rfl, by simp⟩
  | cons genDenom genDenoms ih =>
      obtain ⟨s₁, hs₁, hset⟩ := initGenesisDenom_isOk hcodec (h genDenom (by simp)) s
      obtain ⟨s', hs', hmetadata⟩ := ih (fun g hg => h g (by simp [hg])) s₁
      refine ⟨s', by rw [List.foldlM_cons, hs₁, ok_bind, hs'], fun denom => ?_⟩
      rw [hmetadata denom, hset, hbank.getSet]
      by_cases hrest : denom ∈ genDenoms.map GenesisDenom.denom
      · simp [hrest]
      · by_cases hhead : denom = genDenom.denom
        · simp [hhead, Keeper.denomMetaData]
        · simp [hrest, hhead, Keeper.denomMetaData]

theorem initGenesis_isOk (hcodec : k.codec.Lawful)
    (hbank : k.bankKeeper.Lawful) {genState : GenesisState}
    (hparams : genState.params.validate = .ok ())
    (h : ∀ genDenom ∈ genState.factoryDenoms, Importable k.codec genDenom)
    (s : State Bank) :
    ∃ s', k.initGenesis s genState = .ok s' ∧
      ∀ denom, k.bankKeeper.getDenomMetaData s'.bank denom =
        if denom ∈ genState.factoryDenoms.map GenesisDenom.denom then
          some (Keeper.denomMetaData denom)
        else k.bankKeeper.getDenomMetaData s.bank denom := by
  obtain ⟨s', hs', hmetadata⟩ := foldlM_initGenesisDenom hcodec hbank h
    { s with store := s.store.set paramsKey (.params genState.params) }
  refine ⟨s', ?_, hmetadata⟩
  simp only [Keeper.initGenesis, setParams, hparams, ok_bind]
  exact hs'

omit [DecidableEq Account] in
theorem initChain_eq (genesis : AppGenesis BankGenesis) :
    k.initChain genesis = k.initGenesis
      ⟨k.bankKeeper.initGenesis k.bankKeeper.empty genesis.bank, .empty⟩
      genesis.tokenfactory := by
  have hothers : ∀ (s : State Bank) module,
      module ≠ bankModuleName → module ≠ moduleName →
        k.initModule genesis s module = .ok s := by
    intro s module hbank htokens
    simp [Keeper.initModule, hbank, htokens]
  have horder : initGenesisOrder =
      initGenesisOrder.take 2 ++ bankModuleName ::
        ((initGenesisOrder.drop 3).take 18 ++ [moduleName]) := by decide
  have hbefore : ∀ module ∈ initGenesisOrder.take 2,
      module ≠ bankModuleName ∧ module ≠ moduleName := by decide
  have hbetween : ∀ module ∈ (initGenesisOrder.drop 3).take 18,
      module ≠ bankModuleName ∧ module ≠ moduleName := by decide
  rw [Keeper.initChain, horder, List.foldlM_append,
    foldlM_eq_of_forall fun m hm =>
      hothers _ m (hbefore m hm).1 (hbefore m hm).2,
    ok_bind, List.foldlM_cons, Keeper.initModule, if_pos rfl, ok_bind,
    List.foldlM_append, foldlM_eq_of_forall fun m hm =>
      hothers _ m (hbetween m hm).1 (hbetween m hm).2,
    ok_bind, List.foldlM_cons, Keeper.initModule, if_neg (by decide),
    if_pos rfl]
  cases k.initGenesis _ genesis.tokenfactory <;> rfl

theorem Keeper.Reachable.roundTrip (hsdk : sdk.Lawful)
    (h : sdk.keeper.Reachable s) :
    ∃ genesis s', sdk.keeper.exportApp s = .ok genesis ∧
      sdk.keeper.initChain genesis = .ok s' ∧
      ∀ denom, sdk.bankKeeper.getDenomMetaData s'.bank denom =
        if denom ∈ getAllDenoms s.store then some (Keeper.denomMetaData denom)
        else sdk.bankKeeper.getDenomMetaData s.bank denom := by
  obtain ⟨genState, hexport, hparams, hdenoms, himport⟩ :=
    exportGenesis_isOk (h.wellFormed hsdk)
  let genesis : AppGenesis BankGenesis :=
    ⟨sdk.bankKeeper.exportGenesis s.bank, genState⟩
  obtain ⟨s', hs', hmetadata⟩ := initGenesis_isOk (k := sdk.keeper) hsdk.codec
    hsdk.bank hparams himport
    ⟨sdk.bankKeeper.initGenesis sdk.bankKeeper.empty genesis.bank, .empty⟩
  refine ⟨genesis, s', ?_, ?_, ?_⟩
  · simp only [Keeper.exportApp, hexport, ok_bind]
    rfl
  · rw [initChain_eq]
    exact hs'
  · intro denom
    have hbank := congrFun (hsdk.bank.roundTrip s.bank) denom
    rw [← hdenoms, ← hbank]
    exact hmetadata denom

/--
An export and import gives every denom its metadata back exactly when every
factory denom still has the metadata it was created with.
-/
theorem roundTrip_metadata_iff (hsdk : sdk.Lawful) (s : State Bank)
    (hreach : sdk.keeper.Reachable s) :
    (∃ genesis s', sdk.keeper.exportApp s = .ok genesis ∧
      sdk.keeper.initChain genesis = .ok s' ∧
      ∀ denom, sdk.bankKeeper.getDenomMetaData s'.bank denom =
        sdk.bankKeeper.getDenomMetaData s.bank denom) ↔
    ∀ denom ∈ getAllDenoms s.store,
      sdk.bankKeeper.getDenomMetaData s.bank denom =
        some (Keeper.denomMetaData denom) := by
  obtain ⟨genesis, s', hexport, himport, hmetadata⟩ := hreach.roundTrip hsdk
  constructor
  · rintro ⟨genesis', s'', hexport', himport', hsame⟩ denom hdenom
    obtain rfl := Except.ok.inj (hexport.symm.trans hexport')
    obtain rfl := Except.ok.inj (himport.symm.trans himport')
    rw [← hsame, hmetadata, if_pos hdenom]
  · intro hdefault
    refine ⟨genesis, s', hexport, himport, fun denom => ?_⟩
    rw [hmetadata]
    split
    next hdenom => exact (hdefault denom hdenom).symm
    next => rfl

/-! ## Custom metadata on the sample bank -/

def sampleMetadata : Metadata where
  description := []
  denomUnits := [⟨sampleDenom, 0, []⟩, ⟨"abc".toList, 6, []⟩]
  base := sampleDenom
  display := "abc".toList
  name := "Abc".toList
  symbol := "ABC".toList
  uri := []
  uriHash := []

def sampleEdit (edits : Bool) : State (LedgerBank (Fin 11)) :=
  run sampleSdk.keeper.deliver sampleState
    (⟨.createDenom ⟨sampleUser, "abc".toList⟩, 2000000⟩ ::
      if edits then [⟨.setDenomMetadata ⟨sampleUser, sampleMetadata⟩, 0⟩]
      else [])

theorem sampleEdit_reachable (edits : Bool) :
    sampleSdk.keeper.Reachable (sampleEdit edits) :=
  ⟨⟨sampleState.bank, defaultGenesis⟩, sampleState, _, rfl, rfl⟩

theorem roundTrip_loses_metadata :
    ¬∀ (Account Bank BankGenesis : Type) [DecidableEq Account]
        (sdk : Sdk Account Bank BankGenesis) (s : State Bank),
      sdk.Lawful → sdk.keeper.Reachable s →
        ∃ genesis s', sdk.keeper.exportApp s = .ok genesis ∧
          sdk.keeper.initChain genesis = .ok s' ∧
          ∀ denom, sdk.bankKeeper.getDenomMetaData s'.bank denom =
            sdk.bankKeeper.getDenomMetaData s.bank denom := by
  intro h
  obtain ⟨genesis', s'', hexport', himport', hsame⟩ := h (Fin 11) _ _ sampleSdk
    (sampleEdit true) sampleSdk_lawful (sampleEdit_reachable true)
  obtain ⟨genesis, s', hexport, himport, hmetadata⟩ :=
    (sampleEdit_reachable true).roundTrip sampleSdk_lawful
  obtain rfl := Except.ok.inj (hexport.symm.trans hexport')
  obtain rfl := Except.ok.inj (himport.symm.trans himport')
  obtain ⟨hlisted, hedited⟩ : sampleDenom ∈ getAllDenoms (sampleEdit true).store ∧
      sampleSdk.bankKeeper.getDenomMetaData (sampleEdit true).bank sampleDenom =
        some sampleMetadata := by decide +kernel
  have hlost := hsame sampleDenom
  rw [hmetadata, if_pos hlisted, hedited] at hlost
  have hunits : some 1 = some 2 :=
    congrArg (Option.map fun m : Metadata => m.denomUnits.length) hlost
  exact absurd hunits (by decide)

theorem roundTrip_metadata_iff_sample :
    ∃ genesis s', sampleSdk.keeper.exportApp (sampleEdit false) = .ok genesis ∧
      sampleSdk.keeper.initChain genesis = .ok s' ∧
      ∀ denom, sampleSdk.bankKeeper.getDenomMetaData s'.bank denom =
        sampleSdk.bankKeeper.getDenomMetaData (sampleEdit false).bank denom :=
  (roundTrip_metadata_iff sampleSdk_lawful (sampleEdit false)
    (sampleEdit_reachable false)).mpr (by decide +kernel)

end IreBlockchain.TokenFactory

import IreBlockchain.TokenFactory.Indices

/-!
# Export and import of the module's store

An import derives the creator of a denom from the denom and spells it in lower
case, while `CreateDenom` indexes the denom under its sender as it was written.
-/

namespace IreBlockchain.TokenFactory

open IreBlockchain.Foundation

structure SameModule (store store' : Store) : Prop where
  params : getParams store' = getParams store
  admin : ∀ denom,
    getAuthorityMetadata store' denom = getAuthorityMetadata store denom
  fromCreator : ∀ creator,
    getDenomsFromCreator store' creator = getDenomsFromCreator store creator

variable {Account Bank BankGenesis : Type} {k : Keeper Account Bank BankGenesis}
  {s s' : State Bank} {registry : Registry}

/-- What the module exports can be imported into any empty store, and is back. -/
def StoreRoundTrips (k : Keeper Account Bank BankGenesis) (s : State Bank) :
    Prop :=
  ∃ genState, Keeper.exportGenesis s.store = .ok genState ∧
    ∀ bank, ∃ s', k.initGenesis ⟨bank, .empty⟩ genState = .ok s' ∧
      SameModule s.store s'.store

/-! ## The exported registry -/

def Registry.exported (registry : Registry) (denom : Text) : GenesisDenom :=
  ⟨denom, ⟨registry.adminOf denom⟩⟩

theorem Represents.exportGenesis (h : Represents k s registry) :
    Keeper.exportGenesis s.store = .ok ⟨getParams s.store,
      (getAllDenoms s.store).map registry.exported⟩ := by
  have hread : (fun denom => do
      let authorityMetadata ← TokenFactory.getAuthorityMetadata s.store denom
      return (⟨denom, authorityMetadata⟩ : GenesisDenom)) =
      fun denom => (pure (registry.exported denom) : Result GenesisDenom) := by
    funext denom
    rw [h.getAuthorityMetadata]
    rfl
  rw [Keeper.exportGenesis, hread, List.mapM_pure]
  rfl

theorem foldl_restore_exported (codec : AddressCodec Account)
    (denoms : List Text) (start : Registry) (denom : Text) :
    (denoms.map registry.exported).foldl (Registry.restore codec) start denom =
      if denom ∈ denoms then
        some ⟨canonicalCreator codec denom, registry.adminOf denom⟩
      else start denom := by
  induction denoms generalizing start with
  | nil => rfl
  | cons first denoms ih =>
      rw [List.map_cons, List.foldl_cons, ih]
      by_cases hrest : denom ∈ denoms
      · simp [hrest]
      · by_cases hfirst : denom = first
        · simp [hfirst, Registry.restore, Registry.register_apply,
            Registry.exported]
        · simp [hrest, hfirst, Registry.restore, Registry.register_apply,
            Registry.exported]

theorem Represents.restored_exported (h : Represents k s registry)
    (codec : AddressCodec Account) (params : Params) (denom : Text) :
    (GenesisState.mk params
        ((getAllDenoms s.store).map registry.exported)).restored codec denom =
      (registry denom).map fun entry =>
        ⟨canonicalCreator codec denom, entry.admin⟩ := by
  rw [GenesisState.restored, foldl_restore_exported]
  have hmem : denom ∈ getAllDenoms s.store ↔ registry.creatorOf denom ≠ none :=
    h.mem_getAllDenoms
  rw [Registry.creatorOf] at hmem
  rw [Registry.adminOf]
  cases hentry : registry denom with
  | none => simp [hmem, hentry]
  | some entry => simp [hmem, hentry]

/-! ## One state -/

variable [DecidableEq Account]

theorem Represents.importGenesis (hbank : k.bankKeeper.Lawful)
    (hcodec : k.codec.Bech32) (h : Represents k s registry) (bank : Bank) :
    ∃ s' restored,
      k.initGenesis ⟨bank, .empty⟩ ⟨getParams s.store,
        (getAllDenoms s.store).map registry.exported⟩ = .ok s' ∧
      Represents k s' restored ∧ getParams s'.store = getParams s.store ∧
      (∀ denom, restored.adminOf denom = registry.adminOf denom) ∧
      ∀ denom, restored.creatorOf denom =
        (registry.creatorOf denom).map fun _ =>
          canonicalCreator k.codec denom := by
  obtain ⟨genState, hexport, hparams, -, himport⟩ :=
    exportGenesis_isOk h.wellFormed
  obtain rfl := Except.ok.inj (h.exportGenesis.symm.trans hexport)
  obtain ⟨s', hs', -⟩ := initGenesis_isOk (k := k) ⟨hcodec.decode_string⟩ hbank
    hparams himport ⟨bank, .empty⟩
  obtain ⟨hrepresents, -, hsame⟩ := represents_initGenesis hbank hcodec hs'
  refine ⟨s', _, hs', hrepresents, hsame, ?_, ?_⟩
  · intro denom
    rw [Registry.adminOf, h.restored_exported, Registry.adminOf, Option.map_map]
    rfl
  · intro denom
    rw [Registry.creatorOf, h.restored_exported, Registry.creatorOf,
      Option.map_map, Option.map_map]
    rfl

theorem Represents.storeRoundTrips_iff (hbank : k.bankKeeper.Lawful)
    (hcodec : k.codec.Bech32) (h : Represents k s registry) :
    StoreRoundTrips k s ↔ registry.Canonical k.codec := by
  constructor
  · rintro ⟨genState, hexport, himport⟩ denom creator hcreator
    obtain rfl := Except.ok.inj (h.exportGenesis.symm.trans hexport)
    obtain ⟨s', hs', hsame⟩ := himport s.bank
    obtain ⟨s'', restored, hs'', hrepresents, -, -, hcreators⟩ :=
      h.importGenesis hbank hcodec s.bank
    obtain rfl := Except.ok.inj (hs'.symm.trans hs'')
    have hlisted := h.mem_getDenomsFromCreator.mpr hcreator
    rw [← hsame.fromCreator, hrepresents.mem_getDenomsFromCreator, hcreators,
      hcreator] at hlisted
    exact (Option.some.inj hlisted).symm
  · intro hcanonical
    refine ⟨_, h.exportGenesis, fun bank => ?_⟩
    obtain ⟨s', restored, hs', hrepresents, hparams, hadmins, hcreators⟩ :=
      h.importGenesis hbank hcodec bank
    have hsame : restored.creatorOf = registry.creatorOf := by
      funext denom
      rw [hcreators]
      cases hcreator : registry.creatorOf denom with
      | none => rfl
      | some creator =>
          exact congrArg some (hcanonical denom creator hcreator).symm
    refine ⟨s', hs', hparams, ?_, ?_⟩
    · intro denom
      rw [hrepresents.getAuthorityMetadata, h.getAuthorityMetadata, hadmins]
    · intro creator
      refine (getDenomsFromCreator_sorted _ _).eq_of_mem_iff
        (getDenomsFromCreator_sorted _ _) fun denom => ?_
      rw [hrepresents.mem_getDenomsFromCreator, h.mem_getDenomsFromCreator,
        hsame]

/-! ## Runs -/

/-- An accepted `CreateDenom` is sent from the ordinary spelling of an address. -/
def CreatesCanonically (k : Keeper Account Bank BankGenesis) (s : State Bank)
    (tx : Tx) : Prop :=
  ∀ msg, tx.msg = .createDenom msg → k.Accepts s tx →
    ∃ account, msg.sender = k.codec.string account

theorem Represents.canonical_after_iff (hbank : k.bankKeeper.Lawful)
    (hpool : isCapabilityEnabled k.enabledCapabilities
      enableCommunityPoolFeeFunding = false) (hcodec : k.codec.Bech32)
    (h : Represents k s registry) {tx : Tx}
    (hhandle : k.handle s tx = .ok s') :
    (registry.after tx.msg).Canonical k.codec ↔ registry.Canonical k.codec ∧
      ∀ msg, tx.msg = .createDenom msg →
        ∃ account, msg.sender = k.codec.string account := by
  have hwritten := handle_written hbank hpool hhandle
  generalize tx.msg = msg at hwritten
  cases hwritten with
  | @created msg denom creator hdecode hnamed hfresh =>
      have hparts := deconstructDenom_of_getTokenDenom hdecode hnamed
      obtain ⟨-, -, -, -, rfl⟩ := getTokenDenom_eq_ok_iff.mp hnamed
      have hnone := congrArg (Option.map Registration.creator)
        (h.described _ hfresh)
      rw [Registry.after_createDenom, Registry.canonical_register_iff hnone,
        canonicalCreator, hparts]
      refine and_congr_right fun _ => ?_
      constructor
      · intro hspelled other hother
        cases hother
        exact ⟨creator, hspelled⟩
      · intro hspelled
        obtain ⟨account, haccount⟩ := hspelled msg rfl
        have hother := hcodec.decode_string account
        rw [← haccount, hdecode] at hother
        rw [haccount, Except.ok.inj hother]
  | @adminChanged msg =>
      simp [Registry.after, Registry.Canonical]
  | paramsSet => simp [Registry.after]
  | @kept msg hcreate hchange =>
      cases msg with
      | createDenom msg => exact absurd rfl (hcreate msg)
      | changeAdmin msg => exact absurd rfl (hchange msg)
      | _ => simp [Registry.after]

variable {sdk : Sdk Account Bank BankGenesis}

theorem deliverTx_storeRoundTrips_iff (hsdk : sdk.Lawful)
    (hcodec : sdk.codec.Bech32) (s : State Bank) (tx : Tx)
    (h : ∃ registry, Represents sdk.keeper s registry) :
    StoreRoundTrips sdk.keeper (sdk.keeper.deliverTx s tx) ↔
      StoreRoundTrips sdk.keeper s ∧ CreatesCanonically sdk.keeper s tx := by
  obtain ⟨registry, h⟩ := h
  rcases deliverTx_cases sdk.keeper s tx with ⟨hnot, heq⟩ | ⟨haccept, hhandle⟩
  · rw [heq]
    exact (and_iff_left fun _ _ haccept => absurd haccept hnot).symm
  · have hnext := h.handle hsdk.bank pool_not_enabled hcodec haccept.1 hhandle
    rw [hnext.storeRoundTrips_iff hsdk.bank hcodec,
      h.storeRoundTrips_iff hsdk.bank hcodec,
      h.canonical_after_iff hsdk.bank pool_not_enabled hcodec hhandle]
    simp only [CreatesCanonically, haccept, true_implies]

/--
At the end of a run from a genesis, the module's store can be exported and
imported without loss exactly when every denom of the run was created from the
ordinary spelling of an address.
-/
theorem run_storeRoundTrips_iff (hsdk : sdk.Lawful)
    (hcodec : sdk.codec.Bech32) (genesis : AppGenesis BankGenesis)
    (s₀ : State Bank) (hinit : sdk.keeper.initChain genesis = .ok s₀)
    (txs : List Tx) :
    StoreRoundTrips sdk.keeper (run sdk.keeper.deliverTx s₀ txs) ↔
      Guarded sdk.keeper.deliverTx (CreatesCanonically sdk.keeper) s₀ txs := by
  obtain ⟨hrepresents, hcanonical⟩ := initChain_represents hsdk hcodec hinit
  have hstart : StoreRoundTrips sdk.keeper s₀ :=
    (hrepresents.storeRoundTrips_iff hsdk.bank hcodec).mpr hcanonical
  rw [run_iff_guarded (deliverTx_represents hsdk hcodec)
    (deliverTx_storeRoundTrips_iff hsdk hcodec) ⟨_, hrepresents⟩]
  exact and_iff_right hstart

/-! ## A creator written in upper case -/

def sampleCreate (sender : Text) : Tx :=
  ⟨.createDenom ⟨sender, "abc".toList⟩, 2000000⟩

theorem upper_case_creator_lost :
    ¬∀ (Account Bank BankGenesis : Type) [DecidableEq Account]
        (sdk : Sdk Account Bank BankGenesis) (genesis : AppGenesis BankGenesis)
        (s₀ : State Bank) (txs : List Tx),
      sdk.Lawful → sdk.codec.Bech32 → sdk.keeper.initChain genesis = .ok s₀ →
        StoreRoundTrips sdk.keeper (run sdk.keeper.deliverTx s₀ txs) := by
  intro h
  let genesis : AppGenesis (LedgerBank (Fin 11)) :=
    ⟨sampleState.bank, defaultGenesis⟩
  have hinit : spelledSdk.keeper.initChain genesis = .ok sampleState := rfl
  let tx := sampleCreate (upper (spelledSdk.codec.string 10))
  have hround := h (Fin 11) _ _ spelledSdk genesis sampleState [tx]
    spelledSdk_lawful bothSpellings_bech32 hinit
  rw [run_cons, run_nil] at hround
  have hrepresents := (initChain_represents spelledSdk_lawful
    bothSpellings_bech32 hinit).1
  have haccept : spelledSdk.keeper.Accepts sampleState tx :=
    accepts_createDenom (by decide +kernel)
  obtain ⟨account, haccount⟩ := ((deliverTx_storeRoundTrips_iff
    spelledSdk_lawful bothSpellings_bech32 sampleState tx
    ⟨_, hrepresents⟩).mp hround).2 _ rfl haccept
  exact bothSpellings_bech32.upper_ne_string 10 account haccount

theorem run_storeRoundTrips_iff_sample :
    StoreRoundTrips spelledSdk.keeper (run spelledSdk.keeper.deliverTx
      sampleState [sampleCreate (spelledSdk.codec.string 10)]) := by
  refine (run_storeRoundTrips_iff spelledSdk_lawful bothSpellings_bech32
    ⟨sampleState.bank, defaultGenesis⟩ sampleState rfl _).mpr ⟨?_, trivial⟩
  intro msg hmsg _
  obtain rfl := Msg.createDenom.inj hmsg
  exact ⟨10, rfl⟩

end IreBlockchain.TokenFactory

import IreBlockchain.TokenFactory.StoreRoundTrip

/-!
# Restarting the chain

A chain that is restarted from its own export, over and over, with any messages
in between.  Every export is a genesis that passes its validation, and no denom
is lost.
-/

namespace IreBlockchain.TokenFactory

open IreBlockchain.Foundation

variable {Account Bank BankGenesis : Type}

/-! ## A valid export -/

section Validation

variable {codec : AddressCodec Account}

theorem checkGenesisAdmin_of_validate {metadata : DenomAuthorityMetadata}
    (h : metadata.validate codec = .ok ()) :
    checkGenesisAdmin codec metadata.admin = .ok () := by
  unfold checkGenesisAdmin
  unfold DenomAuthorityMetadata.validate at h
  split at h
  next hadmin =>
    simp only [bind_eq_ok_iff, AddressCodec.decodeOr_eq_ok_iff] at h
    obtain ⟨account, haccount, -⟩ := h
    rw [if_pos hadmin, bind_eq_ok_iff]
    exact ⟨account, AddressCodec.decodeOr_eq_ok_iff.mpr haccount, rfl⟩
  next hadmin => rw [if_neg hadmin]; rfl

theorem validateFactoryDenoms_eq_ok {genDenoms : List GenesisDenom}
    (hnodup : (genDenoms.map GenesisDenom.denom).Nodup)
    (himport : ∀ genDenom ∈ genDenoms, Importable codec genDenom)
    {seenDenoms : List Text}
    (hseen : ∀ genDenom ∈ genDenoms, genDenom.denom ∉ seenDenoms) :
    validateFactoryDenoms codec seenDenoms genDenoms = .ok () := by
  induction genDenoms generalizing seenDenoms with
  | nil => rfl
  | cons genDenom genDenoms ih =>
      rw [List.map_cons, List.nodup_cons] at hnodup
      obtain ⟨⟨parts, hparts⟩, hadmin⟩ := himport genDenom List.mem_cons_self
      have hrest : validateFactoryDenoms codec (genDenom.denom :: seenDenoms)
          genDenoms = .ok () := by
        apply ih hnodup.2
        · exact fun other hother =>
            himport other (List.mem_cons_of_mem genDenom hother)
        · intro other hother hmem
          cases List.mem_cons.mp hmem with
          | inl heq =>
              exact hnodup.1 (heq ▸ List.mem_map_of_mem hother)
          | inr hmem =>
              exact hseen other (List.mem_cons_of_mem genDenom hother) hmem
      rw [validateFactoryDenoms, ensure_of (hseen genDenom List.mem_cons_self),
        hparts, checkGenesisAdmin_of_validate hadmin]
      exact hrest

end Validation

variable {k : Keeper Account Bank BankGenesis} {s s' : State Bank}
  {registry : Registry}

theorem Represents.validate_exported (h : Represents k s registry) :
    (GenesisState.mk (getParams s.store)
      ((getAllDenoms s.store).map registry.exported)).validate k.codec =
        .ok () := by
  obtain ⟨genState, hexport, hparams, hdenoms, himport⟩ :=
    exportGenesis_isOk h.wellFormed
  obtain rfl := Except.ok.inj (h.exportGenesis.symm.trans hexport)
  have hvalid : validateFactoryDenoms k.codec []
      ((getAllDenoms s.store).map registry.exported) = .ok () := by
    apply validateFactoryDenoms_eq_ok _ himport (by simp)
    rw [hdenoms]
    exact h.getAllDenoms_nodup
  rw [GenesisState.validate, hparams]
  exact hvalid

/-! ## Denoms that stay -/

theorem Registry.creatorOf_after {denom : Text} (msg : Msg)
    (h : registry.creatorOf denom ≠ none) :
    (registry.after msg).creatorOf denom ≠ none := by
  cases msg with
  | createDenom msg =>
      rw [Registry.after_createDenom, Registry.creatorOf_register]
      split
      next => simp
      next => exact h
  | changeAdmin msg =>
      rw [Registry.after, Registry.creatorOf_assign]
      exact h
  | _ => exact h

theorem Registry.creatorOf_restore {codec : AddressCodec Account}
    {genDenom : GenesisDenom} {denom : Text}
    (h : denom = genDenom.denom ∨ registry.creatorOf denom ≠ none) :
    (registry.restore codec genDenom).creatorOf denom ≠ none := by
  rw [Registry.restore, Registry.creatorOf_register]
  split
  next => simp
  next hne => exact h.resolve_left hne

theorem Registry.creatorOf_foldl_restore {codec : AddressCodec Account}
    {genDenoms : List GenesisDenom} {denom : Text}
    (h : denom ∈ genDenoms.map GenesisDenom.denom ∨
      registry.creatorOf denom ≠ none) :
    (genDenoms.foldl (Registry.restore codec) registry).creatorOf denom ≠
      none := by
  induction genDenoms generalizing registry with
  | nil => exact h.resolve_left (by simp)
  | cons genDenom genDenoms ih =>
      rw [List.foldl_cons]
      apply ih
      rw [List.map_cons, List.mem_cons] at h
      rcases h with (h | h) | h
      · exact .inr (Registry.creatorOf_restore (.inl h))
      · exact .inl h
      · exact .inr (Registry.creatorOf_restore (.inr h))

def Registered (store : Store) (denom : Text) : Prop :=
  ∃ creator, denom ∈ getDenomsFromCreator store creator

theorem Represents.registered_iff (h : Represents k s registry)
    {denom : Text} :
    Registered s.store denom ↔ registry.creatorOf denom ≠ none := by
  simp only [Registered, h.mem_getDenomsFromCreator, Option.ne_none_iff_exists']

variable [DecidableEq Account] {sdk : Sdk Account Bank BankGenesis}

theorem run_keeps_denoms (hsdk : sdk.Lawful) (hcodec : sdk.codec.Bech32)
    (h : Represents sdk.keeper s registry) (txs : List Tx) :
    ∃ registry', Represents sdk.keeper (run sdk.keeper.deliverTx s txs)
        registry' ∧
      ∀ denom, registry.creatorOf denom ≠ none →
        registry'.creatorOf denom ≠ none := by
  induction txs generalizing s registry with
  | nil => exact ⟨registry, h, fun _ h => h⟩
  | cons tx txs ih =>
      rcases deliverTx_cases sdk.keeper s tx with
        ⟨-, hsame⟩ | ⟨haccept, hhandle⟩
      · rw [run_cons, hsame]
        exact ih h
      · have hafter := h.handle hsdk.bank pool_not_enabled hcodec haccept.1
          hhandle
        obtain ⟨registry', hrun, hkept⟩ := ih hafter
        exact ⟨registry', hrun, fun denom hdenom =>
          hkept denom (registry.creatorOf_after tx.msg hdenom)⟩

/-! ## Restarts -/

def Keeper.restart (k : Keeper Account Bank BankGenesis)
    (genesis : AppGenesis BankGenesis) (txs : List Tx) :
    Result (AppGenesis BankGenesis) := do
  let s ← k.initChain genesis
  k.exportApp (run k.deliverTx s txs)

def AppGenesis.denoms (genesis : AppGenesis BankGenesis) : List Text :=
  genesis.tokenfactory.factoryDenoms.map GenesisDenom.denom

/-- The denom is in the genesis or is registered after some of the messages. -/
inductive Appears (k : Keeper Account Bank BankGenesis) (denom : Text) :
    AppGenesis BankGenesis → List (List Tx) → Prop
  | inGenesis {genesis : AppGenesis BankGenesis} {epochs : List (List Tx)}
      (h : denom ∈ genesis.denoms) : Appears k denom genesis epochs
  | registered {genesis : AppGenesis BankGenesis} {s : State Bank}
      {done rest : List Tx} {epochs : List (List Tx)}
      (hinit : k.initChain genesis = .ok s)
      (h : Registered (run k.deliverTx s done).store denom) :
      Appears k denom genesis ((done ++ rest) :: epochs)
  | restarted {genesis next : AppGenesis BankGenesis} {txs : List Tx}
      {epochs : List (List Tx)} (hnext : k.restart genesis txs = .ok next)
      (h : Appears k denom next epochs) : Appears k denom genesis (txs :: epochs)

structure Restarted (k : Keeper Account Bank BankGenesis)
    (genesis : AppGenesis BankGenesis) (txs : List Tx)
    (next : AppGenesis BankGenesis) : Prop where
  restart : k.restart genesis txs = .ok next
  valid : next.tokenfactory.validate k.codec = .ok ()
  kept : ∀ denom ∈ genesis.denoms, denom ∈ next.denoms
  exported : ∀ s, k.initChain genesis = .ok s → ∀ done rest, txs = done ++ rest →
    ∀ denom, Registered (run k.deliverTx s done).store denom →
      denom ∈ next.denoms

theorem restart_valid (hsdk : sdk.Lawful) (hcodec : sdk.codec.Bech32)
    {genesis : AppGenesis BankGenesis}
    (hvalid : genesis.tokenfactory.validate sdk.codec = .ok ())
    (txs : List Tx) : ∃ next, Restarted sdk.keeper genesis txs next := by
  obtain ⟨s₀, hinit⟩ := initChain_isOk hsdk hvalid
  obtain ⟨hstart, -⟩ := initChain_represents hsdk hcodec hinit
  obtain ⟨registry, hrun, hkept⟩ := run_keeps_denoms hsdk hcodec hstart txs
  let s := run sdk.keeper.deliverTx s₀ txs
  let next : AppGenesis BankGenesis :=
    ⟨sdk.bankKeeper.exportGenesis s.bank, getParams s.store,
      (getAllDenoms s.store).map registry.exported⟩
  have hlisted {denom : Text} (h : registry.creatorOf denom ≠ none) :
      denom ∈ next.denoms := by
    rw [AppGenesis.denoms, List.map_map]
    exact List.mem_map.mpr ⟨denom, hrun.mem_getAllDenoms.mpr h, rfl⟩
  refine ⟨next, ?_, hrun.validate_exported, ?_, ?_⟩
  · rw [Keeper.restart, hinit, ok_bind, Keeper.exportApp, hrun.exportGenesis]
    rfl
  · intro denom hdenom
    exact hlisted (hkept denom (Registry.creatorOf_foldl_restore (.inl hdenom)))
  · rintro s₁ hinit' done rest rfl denom hdenom
    obtain rfl := Except.ok.inj (hinit.symm.trans hinit')
    obtain ⟨registry₁, hdone, -⟩ := run_keeps_denoms hsdk hcodec hstart done
    obtain ⟨registry₂, hrest, hkept⟩ := run_keeps_denoms hsdk hcodec hdone rest
    rw [← run_append] at hrest
    have hcreator := hkept denom (hdone.registered_iff.mp hdenom)
    exact hlisted (hrun.registered_iff.mp (hrest.registered_iff.mpr hcreator))

/--
A chain that was started from a valid genesis can be exported and restarted as
often as wanted, with any messages in between: every export is valid, and has
all the denoms that were registered at any time before it.
-/
theorem restarts_valid (hsdk : sdk.Lawful) (hcodec : sdk.codec.Bech32)
    (genesis : AppGenesis BankGenesis)
    (hvalid : genesis.tokenfactory.validate sdk.codec = .ok ())
    (epochs : List (List Tx)) :
    ∃ genesis', epochs.foldlM sdk.keeper.restart genesis = .ok genesis' ∧
      genesis'.tokenfactory.validate sdk.codec = .ok () ∧
      ∀ denom, Appears sdk.keeper denom genesis epochs →
        denom ∈ genesis'.denoms := by
  induction epochs generalizing genesis with
  | nil =>
      refine ⟨genesis, rfl, hvalid, ?_⟩
      rintro denom ⟨hdenom⟩
      exact hdenom
  | cons txs epochs ih =>
      obtain ⟨next, hnext⟩ := restart_valid hsdk hcodec hvalid txs
      obtain ⟨last, hlast, hvalidLast, hall⟩ := ih next hnext.valid
      refine ⟨last, ?_, hvalidLast, ?_⟩
      · rw [List.foldlM_cons, hnext.restart, ok_bind]
        exact hlast
      · intro denom happears
        apply hall
        generalize hepochs : txs :: epochs = all at happears
        cases happears with
        | inGenesis hdenom => exact .inGenesis (hnext.kept denom hdenom)
        | registered hinit hdenom =>
            cases hepochs
            exact .inGenesis (hnext.exported _ hinit _ _ rfl denom hdenom)
        | restarted hother hlater =>
            cases hepochs
            obtain rfl := Except.ok.inj (hnext.restart.symm.trans hother)
            exact hlater

def createdDenom : Text := "factory/".toList ++ sampleUser ++ "/xyz".toList

theorem appears_createdDenom : Appears spelledSdk.keeper createdDenom
    sampleGenesis [[⟨.createDenom ⟨sampleUser, "xyz".toList⟩, 2000000⟩], []] := by
  have hvalid : sampleGenesis.tokenfactory.validate spelledSdk.codec = .ok () := by
    decide +kernel
  obtain ⟨s, hinit⟩ := initChain_isOk spelledSdk_lawful hvalid
  have hall : (spelledSdk.keeper.initChain sampleGenesis).toOption.all
      (fun s => createdDenom ∈ getDenomsFromCreator
        (run spelledSdk.keeper.deliverTx s
          [⟨.createDenom ⟨sampleUser, "xyz".toList⟩, 2000000⟩]).store
        sampleUser) = true := by
    decide +kernel
  rw [hinit] at hall
  rw [← List.append_nil [_]]
  exact .registered hinit ⟨sampleUser, of_decide_eq_true hall⟩

theorem restarts_valid_sample :
    ∃ genesis', [[⟨.createDenom ⟨sampleUser, "xyz".toList⟩, 2000000⟩], []].foldlM
        spelledSdk.keeper.restart sampleGenesis = .ok genesis' ∧
      genesis'.tokenfactory.validate spelledSdk.codec = .ok () ∧
      createdDenom ∈ genesis'.denoms := by
  obtain ⟨genesis', hrun, hvalid, hall⟩ := restarts_valid spelledSdk_lawful
    bothSpellings_bech32 sampleGenesis (by decide +kernel)
    [[⟨.createDenom ⟨sampleUser, "xyz".toList⟩, 2000000⟩], []]
  exact ⟨genesis', hrun, hvalid, hall createdDenom appears_createdDenom⟩

end IreBlockchain.TokenFactory

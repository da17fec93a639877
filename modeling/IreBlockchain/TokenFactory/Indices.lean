import IreBlockchain.TokenFactory.Isolation
import IreBlockchain.TokenFactory.Registry

/-!
# The indices of the factory denoms

The queries by creator and by admin read different parts of the store, by
prefixes of concatenated keys.  On the states of a chain they answer for one
registry.
-/

namespace IreBlockchain.TokenFactory

open IreBlockchain.Foundation

def Indexed {Bank : Type} (s : State Bank) (creator denom : Text) : Prop :=
  s.store.get (creatorKey creator denom) = some (.denom denom)

theorem mem_getDenomsFromCreator_iff {store : Store} {creator denom : Text} :
    denom ∈ getDenomsFromCreator store creator ↔
      (store.get (creatorKey creator denom)).isSome = true := by
  simp only [getDenomsFromCreator, List.mem_map, Prod.exists,
    KVStore.mem_iterateUnder_iff, Option.isSome_iff_exists]
  constructor
  · rintro ⟨_, value, hget, rfl⟩
    exact ⟨value, hget⟩
  · rintro ⟨value, hget⟩
    exact ⟨denom, value, hget, rfl⟩

theorem getDenomsFromCreator_sorted (store : Store) (creator : Text) :
    (getDenomsFromCreator store creator).Pairwise (· < ·) :=
  KVStore.iterateUnder_sorted

variable {Account Bank BankGenesis : Type} {k : Keeper Account Bank BankGenesis}
  {s : State Bank} {registry : Registry}

namespace Represents

theorem indexed_iff (h : Represents k s registry) {creator denom : Text} :
    Indexed s creator denom ↔ registry.creatorOf denom = some creator := by
  rw [Indexed, h.index]
  split <;> simp_all

theorem unclaimed_iff (h : Represents k s registry) {denom : Text} :
    Unclaimed s denom ↔ registry.creatorOf denom = none := by
  rw [Unclaimed, h.authority]
  simp [Registry.creatorOf]

theorem recordedAdmin_iff (h : Represents k s registry) {denom admin : Text} :
    RecordedAdmin s denom admin ↔
      registry.adminOf denom = admin ∧ registry.creatorOf denom ≠ none := by
  rw [RecordedAdmin, h.authority, Registry.adminOf, Registry.creatorOf]
  cases registry denom <;> simp

theorem mem_getDenomsFromCreator (h : Represents k s registry)
    {creator denom : Text} : denom ∈ getDenomsFromCreator s.store creator ↔
      registry.creatorOf denom = some creator :=
  mem_getDenomsFromCreator_iff.trans h.creatorOf_eq_some_iff.symm

/-! ## All denoms -/

theorem creator_of_entry (h : Represents k s registry) {key denom : Text}
    (hget : s.store.get key = some (.denom denom)) :
    ∃ creator, key = creatorKey creator denom ∧
      registry.creatorOf denom = some creator := by
  cases h.wellFormed _ _ hget with
  | @denom creator _ hkey _ =>
      subst hkey
      exact ⟨creator, rfl, h.indexed_iff.mp hget⟩

theorem mem_getAllDenoms (h : Represents k s registry) {denom : Text} :
    denom ∈ getAllDenoms s.store ↔ registry.creatorOf denom ≠ none := by
  simp only [getAllDenoms, List.mem_filterMap, Prod.exists,
    KVStore.mem_iterate_iff]
  constructor
  · rintro ⟨key, value, ⟨hget, -⟩, hvalue⟩
    cases value with
    | denom d =>
        obtain rfl := Option.some.inj hvalue
        obtain ⟨creator, -, hcreator⟩ := h.creator_of_entry hget
        simp [hcreator]
    | params => cases hvalue
    | authority => cases hvalue
  · intro hknown
    obtain ⟨creator, hcreator⟩ := Option.ne_none_iff_exists'.mp hknown
    refine ⟨creatorKey creator denom, .denom denom,
      ⟨h.indexed_iff.mpr hcreator, ?_⟩, rfl⟩
    rw [creatorKey_eq, List.isPrefixOf_iff_prefix]
    exact List.prefix_append _ _

theorem getAllDenoms_nodup (h : Represents k s registry) :
    (getAllDenoms s.store).Nodup := by
  have hsorted : (s.store.iterate fun key =>
      getCreatorsPrefix.isPrefixOf key).Pairwise fun a b => a.1 < b.1 :=
    s.store.sorted.filter _
  rw [List.Nodup, getAllDenoms, List.pairwise_filterMap]
  refine hsorted.imp_of_mem ?_
  rintro ⟨key, value⟩ ⟨key', value'⟩ hmem hmem' hlt d hd d' hd' rfl
  have hget := (KVStore.mem_iterate_iff.mp hmem).1
  have hget' := (KVStore.mem_iterate_iff.mp hmem').1
  cases value with
  | denom =>
      cases value' with
      | denom =>
          obtain rfl := Option.some.inj hd
          obtain rfl := Option.some.inj hd'
          obtain ⟨creator, rfl, hcreator⟩ := h.creator_of_entry hget
          obtain ⟨creator', rfl, hcreator'⟩ := h.creator_of_entry hget'
          obtain rfl := Option.some.inj (hcreator.symm.trans hcreator')
          exact lt_irrefl _ hlt
      | params => cases hd'
      | authority => cases hd'
  | params => cases hd
  | authority => cases hd

/-! ## Denoms by admin -/

theorem getAuthorityMetadata (h : Represents k s registry) (denom : Text) :
    TokenFactory.getAuthorityMetadata s.store denom =
      .ok ⟨registry.adminOf denom⟩ := by
  rw [TokenFactory.getAuthorityMetadata, h.authority, Registry.adminOf]
  cases registry denom <;> rfl

theorem getDenomsFromAdmin (h : Represents k s registry) (admin : Text) :
    TokenFactory.getDenomsFromAdmin s.store admin =
      .ok ((getAllDenoms s.store).filter (registry.adminOf · = admin)) := by
  refine foldlM_collect (p := fun denom => registry.adminOf denom = admin)
    (fun denoms denom _ => ?_) []
  rw [h.getAuthorityMetadata, ok_bind]
  rfl

end Represents

/-! ## Agreement -/

structure IndicesAgree (bank : BankKeeper Account Bank BankGenesis)
    (s : State Bank) : Prop where
  recorded_iff : ∀ denom, ¬Unclaimed s denom ↔ ∃ creator, Indexed s creator denom
  oneCreator : ∀ denom creator creator', Indexed s creator denom →
    Indexed s creator' denom → creator = creator'
  described : ∀ denom, ¬Unclaimed s denom →
    ∃ metadata, bank.getDenomMetaData s.bank denom = some metadata
  fromCreator : ∀ creator,
    (getDenomsFromCreator s.store creator).Pairwise (· < ·) ∧
      ∀ denom, denom ∈ getDenomsFromCreator s.store creator ↔
        Indexed s creator denom
  fromAdmin : ∀ admin, ∃ denoms,
    getDenomsFromAdmin s.store admin = .ok denoms ∧ denoms.Nodup ∧
      ∀ denom, denom ∈ denoms ↔ RecordedAdmin s denom admin

theorem Represents.indicesAgree (h : Represents k s registry) :
    IndicesAgree k.bankKeeper s where
  recorded_iff denom := by
    simp only [h.unclaimed_iff, h.indexed_iff, Option.ne_none_iff_exists',
      ← ne_eq]
  oneCreator denom creator creator' hindexed hindexed' := by
    rw [h.indexed_iff] at hindexed hindexed'
    exact Option.some.inj (hindexed.symm.trans hindexed')
  described denom hclaimed := by
    refine Option.ne_none_iff_exists'.mp fun hnone => hclaimed ?_
    rw [h.unclaimed_iff, Registry.creatorOf, h.described denom hnone]
    rfl
  fromCreator creator :=
    ⟨getDenomsFromCreator_sorted s.store creator, fun _ =>
      h.mem_getDenomsFromCreator.trans h.indexed_iff.symm⟩
  fromAdmin admin := by
    refine ⟨_, h.getDenomsFromAdmin admin, h.getAllDenoms_nodup.filter _, ?_⟩
    intro denom
    rw [List.mem_filter, h.mem_getAllDenoms, h.recordedAdmin_iff,
      decide_eq_true_eq, and_comm]

/-! ## Valid genesis -/

section Genesis

variable {codec : AddressCodec Account}

theorem checkGenesisAdmin_eq_ok {admin : Text} {u : Unit}
    (h : checkGenesisAdmin codec admin = .ok u) :
    (⟨admin⟩ : DenomAuthorityMetadata).validate codec = .ok () := by
  unfold checkGenesisAdmin at h
  split at h
  next =>
    simp only [bind_eq_ok_iff, AddressCodec.decodeOr_eq_ok_iff] at h
    obtain ⟨account, haccount, -⟩ := h
    exact DenomAuthorityMetadata.validate_of_decode haccount
  next hempty =>
    rw [DenomAuthorityMetadata.validate, if_neg hempty]
    rfl

theorem validateFactoryDenoms_importable {seenDenoms : List Text}
    {genDenoms : List GenesisDenom} {u : Unit}
    (h : validateFactoryDenoms codec seenDenoms genDenoms = .ok u) :
    ∀ genDenom ∈ genDenoms, Importable codec genDenom := by
  induction genDenoms generalizing seenDenoms with
  | nil => simp
  | cons genDenom genDenoms ih =>
      simp only [validateFactoryDenoms, bind_eq_ok_iff] at h
      obtain ⟨-, -, parts, hparts, _, hadmin, hrest⟩ := h
      intro other hother
      rcases List.mem_cons.mp hother with rfl | hother
      · exact ⟨⟨parts, hparts⟩, checkGenesisAdmin_eq_ok hadmin⟩
      · exact ih hrest other hother

end Genesis

variable [DecidableEq Account] {sdk : Sdk Account Bank BankGenesis}

theorem initChain_isOk (hsdk : sdk.Lawful) {genesis : AppGenesis BankGenesis}
    (hvalid : genesis.tokenfactory.validate sdk.codec = .ok ()) :
    ∃ s₀, sdk.keeper.initChain genesis = .ok s₀ := by
  simp only [GenesisState.validate, bind_eq_ok_iff] at hvalid
  obtain ⟨_, hparams, hdenoms⟩ := hvalid
  obtain ⟨s₀, hs₀, -⟩ := initGenesis_isOk (k := sdk.keeper) hsdk.codec hsdk.bank
    hparams (validateFactoryDenoms_importable hdenoms)
    ⟨sdk.bankKeeper.initGenesis sdk.bankKeeper.empty genesis.bank, .empty⟩
  exact ⟨s₀, (initChain_eq genesis).trans hs₀⟩

/--
A valid genesis starts the chain, and after any run of messages the authority
records, the creator index and the metadata agree, and the queries by creator
and by admin are exact.
-/
theorem run_indicesAgree (hsdk : sdk.Lawful) (hcodec : sdk.codec.Bech32)
    (genesis : AppGenesis BankGenesis)
    (hvalid : genesis.tokenfactory.validate sdk.codec = .ok ()) (txs : List Tx) :
    ∃ s₀, sdk.keeper.initChain genesis = .ok s₀ ∧
      IndicesAgree sdk.bankKeeper (run sdk.keeper.deliverTx s₀ txs) := by
  obtain ⟨s₀, hinit⟩ := initChain_isOk hsdk hvalid
  obtain ⟨registry, hrepresents⟩ := run_represents hsdk hcodec hinit txs
  exact ⟨s₀, hinit, hrepresents.indicesAgree⟩

def sampleGenesis : AppGenesis (LedgerBank (Fin 11)) where
  bank := sampleState.bank
  tokenfactory := ⟨defaultParams, [⟨sampleDenom, ⟨[]⟩⟩]⟩

theorem run_indicesAgree_sample :
    ∃ s₀, spelledSdk.keeper.initChain sampleGenesis = .ok s₀ ∧
      IndicesAgree spelledSdk.bankKeeper (run spelledSdk.keeper.deliverTx s₀
        [⟨.createDenom ⟨sampleUser, "xyz".toList⟩, 2000000⟩]) :=
  run_indicesAgree spelledSdk_lawful bothSpellings_bech32 sampleGenesis
    (by decide +kernel) _

end IreBlockchain.TokenFactory

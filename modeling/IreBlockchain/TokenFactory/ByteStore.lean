import IreBlockchain.Foundation.EncodedStore
import IreBlockchain.TokenFactory.Generated
import IreBlockchain.TokenFactory.Indices

/-!
# The store of the module in bytes

The chain keeps the module's store as keys and values in bytes.  The reads and
the writes of the keeper over it are those of the typed store, encoded.
-/

namespace IreBlockchain.TokenFactory.Pb

open IreBlockchain.Foundation IreBlockchain.Foundation.Wire

abbrev ByteStore := KVStore Bytes Bytes

/-! ## Keys -/

def joinKey (parts : List Bytes) : Bytes :=
  (utf8 keySeparator).intercalate parts

def paramsKey : Bytes := [0]

def getDenomPrefixStore (denom : Bytes) : Bytes :=
  joinKey [utf8 denomsPrefixKey, denom, []]

def getCreatorPrefix (creator : Bytes) : Bytes :=
  joinKey [utf8 creatorPrefixKey, creator, []]

def getCreatorsPrefix : Bytes := joinKey [utf8 creatorPrefixKey, []]

/-! ## Reads and writes -/

section Keeper

variable (ext : External)

/-- `MustUnmarshal` panics on the error. -/
def getParams (store : ByteStore) : Except Error (Params ext) :=
  match store.get paramsKey with
  | none => .ok (Params.message ext).zero
  | some bz => (Params.message ext).unmarshal (Params.message ext).zero bz

def setParams (store : ByteStore) (params : Params ext) : Option ByteStore := do
  let bz ← (Params.message ext).codec.marshal params
  return store.set paramsKey bz

/-- An absent value is unmarshalled from no bytes. -/
def getAuthorityMetadata (store : ByteStore) (denom : Bytes) :
    Except Error DenomAuthorityMetadata :=
  let bz := store.get (getDenomPrefixStore denom ++
    utf8 denomAuthorityMetadataKey)
  DenomAuthorityMetadata.message.unmarshal DenomAuthorityMetadata.message.zero
    (bz.getD [])

def setAuthorityMetadata (store : ByteStore) (denom : Bytes)
    (metadata : DenomAuthorityMetadata) : Option ByteStore := do
  let bz ← DenomAuthorityMetadata.message.codec.marshal metadata
  return store.set
    (getDenomPrefixStore denom ++ utf8 denomAuthorityMetadataKey) bz

def addDenomFromCreator (store : ByteStore) (creator denom : Bytes) :
    ByteStore :=
  store.set (getCreatorPrefix creator ++ denom) denom

def getDenomsFromCreator (store : ByteStore) (creator : Bytes) : List Bytes :=
  (store.iterateUnder (getCreatorPrefix creator)).map Prod.fst

def getAllDenoms (store : ByteStore) : List Bytes :=
  (store.iterateUnder getCreatorsPrefix).map Prod.snd

def getDenomsFromAdmin (store : ByteStore) (admin : Bytes) :
    Except Error (List Bytes) :=
  (getAllDenoms store).foldlM (fun denoms denom => do
    let metadata ← getAuthorityMetadata store denom
    return if metadata.admin = admin then denoms ++ [denom] else denoms) []

end Keeper

/-! ## Encoding the typed store -/

section Encoding

variable (ext : External) (coinOf : Coin → ext.Coin)

def encodeParams (params : TokenFactory.Params) : Params ext where
  denomCreationFee := params.denomCreationFee.map coinOf
  denomCreationGasConsume := UInt64.ofNat params.denomCreationGasConsume

def encodeMetadata (metadata : TokenFactory.DenomAuthorityMetadata) :
    DenomAuthorityMetadata :=
  ⟨utf8 metadata.admin⟩

def encodeValue : StoreValue → Bytes
  | .params params =>
      (Params.message ext).marshalToSizedBuffer (encodeParams ext coinOf params)
  | .authority metadata =>
      DenomAuthorityMetadata.message.marshalToSizedBuffer
        (encodeMetadata metadata)
  | .denom denom => utf8 denom

def encodeStore (store : Store) : ByteStore :=
  store.encode utf8 utf8_strictMono (encodeValue ext coinOf)

def StoreFits (store : Store) : Prop :=
  ∀ key value, store.get key = some value →
    (encodeValue ext coinOf value).length < 2 ^ 63

/-! ### Keys -/

theorem utf8_join (parts : List Text) :
    utf8 (join keySeparator parts) = joinKey (parts.map utf8) := by
  unfold join joinKey
  induction parts with
  | nil => rfl
  | cons part parts ih =>
      cases parts with
      | nil => simp [List.intercalate]
      | cons part' parts =>
          simp only [List.map_cons] at ih
          simp only [List.map_cons, List.intercalate_cons_cons, utf8_append, ih]

theorem utf8_authorityKey (denom : Text) :
    utf8 (authorityKey denom) = getDenomPrefixStore (utf8 denom) ++
      utf8 denomAuthorityMetadataKey := by
  unfold authorityKey TokenFactory.getDenomPrefixStore
  rw [utf8_append, utf8_join]
  rfl

theorem utf8_getCreatorPrefix (creator : Text) :
    utf8 (TokenFactory.getCreatorPrefix creator) =
      getCreatorPrefix (utf8 creator) := by
  unfold TokenFactory.getCreatorPrefix
  rw [utf8_join]
  rfl

theorem utf8_getCreatorsPrefix :
    utf8 TokenFactory.getCreatorsPrefix = getCreatorsPrefix := by
  unfold TokenFactory.getCreatorsPrefix
  rw [utf8_join]
  rfl

theorem utf8_paramsKey : utf8 TokenFactory.paramsKey = paramsKey := by
  decide +kernel

/-! ### Writes -/

theorem setParams_encodeStore {store store' : Store}
    {params : TokenFactory.Params}
    (h : TokenFactory.setParams store params = .ok store') :
    setParams ext (encodeStore ext coinOf store)
      (encodeParams ext coinOf params) =
        some (encodeStore ext coinOf store') := by
  obtain ⟨-, rfl⟩ := setParams_eq_ok h
  unfold setParams encodeStore
  rw [Codec.marshal_eq, KVStore.set_encode, utf8_paramsKey]
  rfl

theorem setAuthorityMetadata_encodeStore {Account Bank BankGenesis : Type}
    [DecidableEq Account] {k : Keeper Account Bank BankGenesis}
    {store store' : Store} {denom : Text}
    {metadata : TokenFactory.DenomAuthorityMetadata}
    (h : k.setAuthorityMetadata store denom metadata = .ok store') :
    setAuthorityMetadata (encodeStore ext coinOf store) (utf8 denom)
      (encodeMetadata metadata) = some (encodeStore ext coinOf store') := by
  obtain ⟨-, rfl⟩ := setAuthorityMetadata_eq_ok h
  unfold setAuthorityMetadata encodeStore
  rw [Codec.marshal_eq, KVStore.set_encode, utf8_authorityKey]
  rfl

theorem addDenomFromCreator_encodeStore (store : Store)
    (creator denom : Text) :
    addDenomFromCreator (encodeStore ext coinOf store) (utf8 creator)
      (utf8 denom) =
        encodeStore ext coinOf
          (TokenFactory.addDenomFromCreator store creator denom) := by
  unfold addDenomFromCreator TokenFactory.addDenomFromCreator encodeStore
  rw [KVStore.set_encode, creatorKey, utf8_append, utf8_getCreatorPrefix]
  rfl

/-! ### Reads -/

variable {ext coinOf}

theorem getParams_encodeStore {Account : Type} {codec : AddressCodec Account}
    {store : Store} (hstore : WellFormed codec store)
    (hfits : StoreFits ext coinOf store) :
    getParams ext (encodeStore ext coinOf store) =
      .ok (encodeParams ext coinOf (TokenFactory.getParams store)) := by
  unfold getParams TokenFactory.getParams encodeStore
  rw [← utf8_paramsKey, KVStore.get_encode]
  cases hvalue : store.get TokenFactory.paramsKey with
  | none => rfl
  | some value =>
      have hlength := hfits _ _ hvalue
      cases hstore _ _ hvalue with
      | params =>
          simp only [encodeValue] at hlength
          rw [Message.length_marshalToSizedBuffer] at hlength
          exact (Params.message ext).codec.unmarshal_marshalToSizedBuffer _
            hlength
      | authority hkey =>
          exact absurd hkey.symm (authorityKey_ne_paramsKey _)
      | denom hkey => exact absurd hkey.symm (creatorKey_ne_paramsKey _ _)

theorem getAuthorityMetadata_encodeStore {Account : Type}
    {codec : AddressCodec Account} {store : Store}
    (hstore : WellFormed codec store) (hfits : StoreFits ext coinOf store)
    {denom : Text} {metadata : TokenFactory.DenomAuthorityMetadata}
    (h : TokenFactory.getAuthorityMetadata store denom = .ok metadata) :
    getAuthorityMetadata (encodeStore ext coinOf store) (utf8 denom) =
      .ok (encodeMetadata metadata) := by
  unfold TokenFactory.getAuthorityMetadata at h
  unfold getAuthorityMetadata encodeStore
  rw [← utf8_authorityKey, KVStore.get_encode]
  cases hvalue : store.get (authorityKey denom) with
  | none =>
      rw [hvalue] at h
      obtain rfl := Except.ok.inj h
      rfl
  | some value =>
      have hlength := hfits _ _ hvalue
      cases hstore _ _ hvalue with
      | params hkey => exact absurd hkey (authorityKey_ne_paramsKey _)
      | authority =>
          rw [hvalue] at h
          obtain rfl := Except.ok.inj h
          simp only [encodeValue] at hlength
          rw [Message.length_marshalToSizedBuffer] at hlength
          exact DenomAuthorityMetadata.message.codec
            |>.unmarshal_marshalToSizedBuffer _ hlength
      | denom hkey => exact absurd hkey (authorityKey_ne_creatorKey _ _ _)

theorem getDenomsFromCreator_encodeStore (store : Store) (creator : Text) :
    getDenomsFromCreator (encodeStore ext coinOf store) (utf8 creator) =
      (TokenFactory.getDenomsFromCreator store creator).map utf8 := by
  unfold getDenomsFromCreator TokenFactory.getDenomsFromCreator encodeStore
  rw [← utf8_getCreatorPrefix, KVStore.iterateUnder_encode, List.map_map,
    List.map_map]
  rfl

theorem getAllDenoms_encodeStore {Account : Type}
    {codec : AddressCodec Account} {store : Store}
    (hstore : WellFormed codec store) :
    getAllDenoms (encodeStore ext coinOf store) =
      (TokenFactory.getAllDenoms store).map utf8 := by
  unfold getAllDenoms TokenFactory.getAllDenoms encodeStore
  rw [← utf8_getCreatorsPrefix, KVStore.iterateUnder_encode, List.map_map]
  unfold KVStore.iterateUnder
  rw [List.map_map, List.map_filterMap, ← List.filterMap_eq_map]
  apply List.filterMap_congr
  intro entry hentry
  obtain ⟨key, value⟩ := entry
  obtain ⟨hget, hprefix⟩ := KVStore.mem_iterate_iff.mp hentry
  cases hstore _ _ hget with
  | params hkey =>
      rw [hkey] at hprefix
      exact absurd hprefix (by decide +kernel)
  | authority hkey =>
      rw [hkey, List.isPrefixOf_iff_prefix] at hprefix
      obtain ⟨rest, hrest⟩ := hprefix
      have hhead : some 'c' = some 'd' := congrArg List.head? hrest
      contradiction
  | denom => rfl

theorem getDenomsFromAdmin_encodeStore {Account : Type}
    {codec : AddressCodec Account} {store : Store}
    (hstore : WellFormed codec store) (hfits : StoreFits ext coinOf store)
    {admin : Text} {denoms : List Text}
    (h : TokenFactory.getDenomsFromAdmin store admin = .ok denoms) :
    getDenomsFromAdmin (encodeStore ext coinOf store) (utf8 admin) =
      .ok (denoms.map utf8) := by
  have hstep : ∀ (l kept kept' : List Text),
      l.foldlM (fun denoms denom => do
        let metadata ← TokenFactory.getAuthorityMetadata store denom
        return if metadata.admin = admin then denoms ++ [denom] else denoms)
        kept = .ok kept' →
      (l.map utf8).foldlM (fun denoms denom => do
        let metadata ← getAuthorityMetadata (encodeStore ext coinOf store) denom
        return if metadata.admin = utf8 admin then denoms ++ [denom]
          else denoms) (kept.map utf8) =
        (.ok (kept'.map utf8) : Except Error (List Bytes)) := by
    intro l
    induction l with
    | nil =>
        intro kept kept' h
        obtain rfl := Except.ok.inj h
        rfl
    | cons denom l ih =>
        intro kept kept' h
        rw [List.foldlM_cons, bind_eq_ok_iff] at h
        obtain ⟨mid, hmid, hrest⟩ := h
        obtain ⟨metadata, hmetadata, hkept⟩ := bind_eq_ok_iff.mp hmid
        obtain rfl := Except.ok.inj hkept
        have hread := getAuthorityMetadata_encodeStore hstore hfits hmetadata
        have hrest := ih _ _ hrest
        rw [List.map_cons, List.foldlM_cons, hread, ok_bind]
        rw [← hrest]
        simp only [encodeMetadata, utf8_strictMono.injective.eq_iff, pure, Except.pure,
          ok_bind]
        split
        · rw [List.map_append, List.map_singleton]
        · rfl
  unfold getDenomsFromAdmin
  rw [getAllDenoms_encodeStore hstore]
  exact hstep _ [] _ h

end Encoding

end IreBlockchain.TokenFactory.Pb

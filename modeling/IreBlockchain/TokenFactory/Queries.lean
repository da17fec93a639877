import IreBlockchain.TokenFactory.ByteKeeper

/-!
# Queries over the wire

A client sends the bytes of a request.  The node decodes them, reads the bytes
that a run has left in the module's store and sends the bytes of a response,
which the client decodes.
-/

namespace IreBlockchain.TokenFactory.Pb

open IreBlockchain.Foundation IreBlockchain.Foundation.Wire

/-! ## Calls -/

section Calls

variable {M Req Res : Type}

/-- A message that a slice has room for. -/
def Sendable (d : Message M) (m : M) : Prop := d.size m < 2 ^ 63

def send (d : Message M) (m : M) : Except Error Bytes :=
  match d.codec.marshal m with
  | some dAtA => .ok dAtA
  | none => .error (.other "index out of range".toList)

variable (req : Message Req) (res : Message Res)

def serve (handler : Req → Except Error Res) (data : Bytes) :
    Except Error Bytes := do
  let request ← req.unmarshal req.zero data
  let response ← handler request
  send res response

def call (handler : Req → Except Error Res) (request : Req) :
    Except Error Res := do
  let data ← send req request
  let reply ← serve req res handler data
  res.unmarshal res.zero reply

variable {req res}

theorem send_eq (d : Message M) (m : M) :
    send d m = .ok (d.marshalToSizedBuffer m) := by
  unfold send
  rw [Codec.marshal_eq]
  rfl

theorem unmarshal_of_sendable {d : Message M} {m : M} (h : Sendable d m) :
    d.unmarshal d.zero (d.marshalToSizedBuffer m) = .ok m :=
  d.codec.unmarshal_marshalToSizedBuffer m h

theorem call_eq_ok {handler : Req → Except Error Res} {request : Req}
    {response : Res} (hrequest : Sendable req request)
    (hhandler : handler request = .ok response)
    (hresponse : Sendable res response) :
    call req res handler request = .ok response := by
  unfold call serve
  rw [send_eq, ok_bind, unmarshal_of_sendable hrequest, ok_bind, hhandler,
    ok_bind, send_eq, ok_bind, unmarshal_of_sendable hresponse]

end Calls

/-! ## The query server -/

namespace QueryServer

variable (ext : External) (store : ByteStore)

def params (_ : QueryParamsRequest) :
    Except Error (QueryParamsResponse ext) := do
  let params ← getParams ext store
  return ⟨params⟩

def denomAuthorityMetadata (req : QueryDenomAuthorityMetadataRequest) :
    Except Error QueryDenomAuthorityMetadataResponse := do
  let authorityMetadata ← getAuthorityMetadata store req.denom
  return ⟨authorityMetadata⟩

def denomsFromCreator (req : QueryDenomsFromCreatorRequest) :
    Except Error QueryDenomsFromCreatorResponse :=
  return ⟨getDenomsFromCreator store req.creator⟩

def denomsFromAdmin (req : QueryDenomsFromAdminRequest) :
    Except Error QueryDenomsFromAdminResponse := do
  let denoms ← getDenomsFromAdmin store req.admin
  return ⟨denoms⟩

end QueryServer

/-! ## Answers -/

/--
Every query over the bytes of the store is answered by what the keeper reads
in the typed store, as long as the messages are no longer than slices can be.
-/
structure Answers (ext : External) (coinOf : Coin → ext.Coin) (store : Store) :
    Prop where
  params :
    let response : QueryParamsResponse ext :=
      ⟨encodeParams ext coinOf (TokenFactory.getParams store)⟩
    Sendable (QueryParamsResponse.message ext) response →
      call QueryParamsRequest.message (QueryParamsResponse.message ext)
        (QueryServer.params ext (encodeStore ext coinOf store)) ⟨⟩ =
          .ok response
  denomAuthorityMetadata : ∀ denom, ∃ metadata,
    TokenFactory.getAuthorityMetadata store denom = .ok metadata ∧
      let request : QueryDenomAuthorityMetadataRequest := ⟨utf8 denom⟩
      let response : QueryDenomAuthorityMetadataResponse :=
        ⟨encodeMetadata metadata⟩
      Sendable QueryDenomAuthorityMetadataRequest.message request →
        Sendable QueryDenomAuthorityMetadataResponse.message response →
        call QueryDenomAuthorityMetadataRequest.message
          QueryDenomAuthorityMetadataResponse.message
          (QueryServer.denomAuthorityMetadata (encodeStore ext coinOf store))
          request = .ok response
  denomsFromCreator : ∀ creator,
    let request : QueryDenomsFromCreatorRequest := ⟨utf8 creator⟩
    let response : QueryDenomsFromCreatorResponse :=
      ⟨(TokenFactory.getDenomsFromCreator store creator).map utf8⟩
    Sendable QueryDenomsFromCreatorRequest.message request →
      Sendable QueryDenomsFromCreatorResponse.message response →
      call QueryDenomsFromCreatorRequest.message
        QueryDenomsFromCreatorResponse.message
        (QueryServer.denomsFromCreator (encodeStore ext coinOf store))
        request = .ok response
  denomsFromAdmin : ∀ admin, ∃ denoms,
    TokenFactory.getDenomsFromAdmin store admin = .ok denoms ∧
      let request : QueryDenomsFromAdminRequest := ⟨utf8 admin⟩
      let response : QueryDenomsFromAdminResponse := ⟨denoms.map utf8⟩
      Sendable QueryDenomsFromAdminRequest.message request →
        Sendable QueryDenomsFromAdminResponse.message response →
        call QueryDenomsFromAdminRequest.message
          QueryDenomsFromAdminResponse.message
          (QueryServer.denomsFromAdmin (encodeStore ext coinOf store))
          request = .ok response

variable {ext : External} {coinOf : Coin → ext.Coin}
  {Account Bank BankGenesis : Type}

theorem Represents.answers {k : Keeper Account Bank BankGenesis}
    {s : State Bank} {registry : Registry} (h : Represents k s registry)
    (hfits : StoreFits ext coinOf s.store) : Answers ext coinOf s.store where
  params := by
    intro response hresponse
    have hread := getParams_encodeStore h.wellFormed hfits
    apply call_eq_ok _ _ hresponse
    · exact Nat.two_pow_pos 63
    · simp only [QueryServer.params, hread]
      rfl
  denomAuthorityMetadata denom := by
    have htyped := h.getAuthorityMetadata denom
    have hread := getAuthorityMetadata_encodeStore h.wellFormed hfits htyped
    refine ⟨_, htyped, ?_⟩
    intro request response hrequest hresponse
    apply call_eq_ok hrequest _ hresponse
    simp only [QueryServer.denomAuthorityMetadata, request, hread]
    rfl
  denomsFromCreator creator := by
    intro request response hrequest hresponse
    apply call_eq_ok hrequest _ hresponse
    simp only [QueryServer.denomsFromCreator, request,
      getDenomsFromCreator_encodeStore]
    rfl
  denomsFromAdmin admin := by
    have htyped := h.getDenomsFromAdmin admin
    have hread := getDenomsFromAdmin_encodeStore h.wellFormed hfits htyped
    refine ⟨_, htyped, ?_⟩
    intro request response hrequest hresponse
    apply call_eq_ok hrequest _ hresponse
    simp only [QueryServer.denomsFromAdmin, request, hread]
    rfl

variable [DecidableEq Account] {sdk : Sdk Account Bank BankGenesis}

/--
A valid genesis starts the chain, and the writes that it and any run of messages
make in bytes leave the bytes of the module's state.  A client that asks over
the wire is told what that state is.
-/
theorem run_answers (hsdk : sdk.Lawful) (hcodec : sdk.codec.Bech32)
    (genesis : AppGenesis BankGenesis)
    (hvalid : genesis.tokenfactory.validate sdk.codec = .ok ()) (txs : List Tx) :
    ∃ s₀ store₀, sdk.keeper.initChain genesis = .ok s₀ ∧
      initGenesis ext coinOf sdk.codec genesis.tokenfactory = some store₀ ∧
      let s := run sdk.keeper.deliverTx s₀ txs
      txs.foldlM (deliverBytes ext coinOf sdk.keeper) (s₀, store₀) =
          some (s, encodeStore ext coinOf s.store) ∧
        (StoreFits ext coinOf s.store → Answers ext coinOf s.store) := by
  obtain ⟨s₀, hinit⟩ := initChain_isOk hsdk hvalid
  obtain ⟨registry, hrepresents⟩ := run_represents hsdk hcodec hinit txs
  have hgenesis := hinit
  rw [initChain_eq] at hgenesis
  exact ⟨s₀, encodeStore ext coinOf s₀.store, hinit,
    initGenesis_encodeStore hgenesis,
    run_encodeStore hsdk.bank pool_not_enabled s₀ txs,
    Represents.answers hrepresents⟩

/-! ## A sample -/

def sampleCoinOf (coin : Coin) : SampleCoin :=
  ⟨utf8 coin.denom, utf8 (decimal coin.amount.toNat)⟩

def sampleCreation : List Tx :=
  [⟨.createDenom ⟨sampleUser, "xyz".toList⟩, 2000000⟩]

theorem storeFits_sample {s₀ : State (LedgerBank (Fin 11))}
    (h : spelledSdk.keeper.initChain sampleGenesis = .ok s₀) :
    StoreFits sampleExternal sampleCoinOf
      (run spelledSdk.keeper.deliverTx s₀ sampleCreation).store := by
  have hall : (spelledSdk.keeper.initChain sampleGenesis).toOption.all
      (fun s₀ => (run spelledSdk.keeper.deliverTx s₀
        sampleCreation).store.entries.all fun entry =>
          decide ((encodeValue sampleExternal sampleCoinOf entry.2).length <
            2 ^ 63)) = true := by
    decide +kernel
  rw [h] at hall
  intro key value hget
  have hmem := KVStore.get_eq_some_iff.mp hget
  exact of_decide_eq_true (List.all_eq_true.mp hall _ hmem)

theorem run_answers_sample :
    ∃ s₀ store₀, spelledSdk.keeper.initChain sampleGenesis = .ok s₀ ∧
      initGenesis sampleExternal sampleCoinOf spelledSdk.codec
        sampleGenesis.tokenfactory = some store₀ ∧
      let s := run spelledSdk.keeper.deliverTx s₀ sampleCreation
      sampleCreation.foldlM
          (deliverBytes sampleExternal sampleCoinOf spelledSdk.keeper)
          (s₀, store₀) =
            some (s, encodeStore sampleExternal sampleCoinOf s.store) ∧
        Answers sampleExternal sampleCoinOf s.store := by
  obtain ⟨s₀, store₀, hinit, hgenesis, hrun, hanswers⟩ :=
    run_answers spelledSdk_lawful bothSpellings_bech32 sampleGenesis
      (by decide +kernel) sampleCreation
  exact ⟨s₀, store₀, hinit, hgenesis, hrun, hanswers (storeFits_sample hinit)⟩

end IreBlockchain.TokenFactory.Pb

import IreBlockchain.Foundation.Messages

/-!
# The message types of `x/tokenfactory` on the wire

The types that the protobuf compiler generated, with their fields in the order
of the numbers.  A string is any list of bytes here, as it is for Go.
-/

namespace IreBlockchain.TokenFactory.Pb

open IreBlockchain.Foundation IreBlockchain.Foundation.Wire

/-- The types of the SDK that fields are of, with the code generated for them. -/
structure External where
  Coin : Type
  coin : Codec Coin
  Metadata : Type
  metadata : Codec Metadata

variable (ext : External)

/-! ## What is stored -/

structure DenomAuthorityMetadata where
  admin : Bytes

def DenomAuthorityMetadata.message : Message DenomAuthorityMetadata where
  name := "DenomAuthorityMetadata".toList
  zero := ⟨[]⟩
  fields := [
    .string 1 "Admin"
      { get := (·.admin), set := fun m v => { m with admin := v } }]
  complete _ := ⟨rfl, rfl⟩

structure Params where
  denomCreationFee : List ext.Coin
  denomCreationGasConsume : UInt64

def Params.message : Message (Params ext) where
  name := "Params".toList
  zero := ⟨[], 0⟩
  fields := [
    .repeated 1 "DenomCreationFee" ext.coin
      { get := (·.denomCreationFee),
        set := fun m v => { m with denomCreationFee := v } },
    .uint64 2 "DenomCreationGasConsume"
      { get := (·.denomCreationGasConsume),
        set := fun m v => { m with denomCreationGasConsume := v } }]
  complete _ := ⟨rfl, rfl, rfl⟩

structure GenesisDenom where
  denom : Bytes
  authorityMetadata : DenomAuthorityMetadata

def GenesisDenom.message : Message GenesisDenom where
  name := "GenesisDenom".toList
  zero := ⟨[], DenomAuthorityMetadata.message.zero⟩
  fields := [
    .string 1 "Denom"
      { get := (·.denom), set := fun m v => { m with denom := v } },
    .message 2 "AuthorityMetadata" DenomAuthorityMetadata.message.codec
      { get := (·.authorityMetadata),
        set := fun m v => { m with authorityMetadata := v } }]
  complete _ := ⟨rfl, rfl, rfl⟩

structure GenesisState where
  params : Params ext
  factoryDenoms : List GenesisDenom

def GenesisState.message : Message (GenesisState ext) where
  name := "GenesisState".toList
  zero := ⟨(Params.message ext).zero, []⟩
  fields := [
    .message 1 "Params" (Params.message ext).codec
      { get := (·.params), set := fun m v => { m with params := v } },
    .repeated 2 "FactoryDenoms" GenesisDenom.message.codec
      { get := (·.factoryDenoms),
        set := fun m v => { m with factoryDenoms := v } }]
  complete _ := ⟨rfl, rfl, rfl⟩

/-! ## Queries -/

structure QueryParamsRequest

def QueryParamsRequest.message : Message QueryParamsRequest :=
  .empty "QueryParamsRequest" ⟨⟩

structure QueryParamsResponse where
  params : Params ext

def QueryParamsResponse.message : Message (QueryParamsResponse ext) where
  name := "QueryParamsResponse".toList
  zero := ⟨(Params.message ext).zero⟩
  fields := [
    .message 1 "Params" (Params.message ext).codec
      { get := (·.params), set := fun m v => { m with params := v } }]
  complete _ := ⟨rfl, rfl⟩

structure QueryDenomAuthorityMetadataRequest where
  denom : Bytes

def QueryDenomAuthorityMetadataRequest.message :
    Message QueryDenomAuthorityMetadataRequest where
  name := "QueryDenomAuthorityMetadataRequest".toList
  zero := ⟨[]⟩
  fields := [
    .string 1 "Denom"
      { get := (·.denom), set := fun m v => { m with denom := v } }]
  complete _ := ⟨rfl, rfl⟩

structure QueryDenomAuthorityMetadataResponse where
  authorityMetadata : DenomAuthorityMetadata

def QueryDenomAuthorityMetadataResponse.message :
    Message QueryDenomAuthorityMetadataResponse where
  name := "QueryDenomAuthorityMetadataResponse".toList
  zero := ⟨DenomAuthorityMetadata.message.zero⟩
  fields := [
    .message 1 "AuthorityMetadata" DenomAuthorityMetadata.message.codec
      { get := (·.authorityMetadata),
        set := fun m v => { m with authorityMetadata := v } }]
  complete _ := ⟨rfl, rfl⟩

structure QueryDenomsFromCreatorRequest where
  creator : Bytes

def QueryDenomsFromCreatorRequest.message :
    Message QueryDenomsFromCreatorRequest where
  name := "QueryDenomsFromCreatorRequest".toList
  zero := ⟨[]⟩
  fields := [
    .string 1 "Creator"
      { get := (·.creator), set := fun m v => { m with creator := v } }]
  complete _ := ⟨rfl, rfl⟩

structure QueryDenomsFromCreatorResponse where
  denoms : List Bytes

def QueryDenomsFromCreatorResponse.message :
    Message QueryDenomsFromCreatorResponse where
  name := "QueryDenomsFromCreatorResponse".toList
  zero := ⟨[]⟩
  fields := [
    .repeated 1 "Denoms" stringCodec
      { get := (·.denoms), set := fun m v => { m with denoms := v } }]
  complete _ := ⟨rfl, rfl⟩

structure QueryDenomsFromAdminRequest where
  admin : Bytes

def QueryDenomsFromAdminRequest.message :
    Message QueryDenomsFromAdminRequest where
  name := "QueryDenomsFromAdminRequest".toList
  zero := ⟨[]⟩
  fields := [
    .string 1 "Admin"
      { get := (·.admin), set := fun m v => { m with admin := v } }]
  complete _ := ⟨rfl, rfl⟩

structure QueryDenomsFromAdminResponse where
  denoms : List Bytes

def QueryDenomsFromAdminResponse.message :
    Message QueryDenomsFromAdminResponse where
  name := "QueryDenomsFromAdminResponse".toList
  zero := ⟨[]⟩
  fields := [
    .repeated 1 "Denoms" stringCodec
      { get := (·.denoms), set := fun m v => { m with denoms := v } }]
  complete _ := ⟨rfl, rfl⟩

/-! ## Transactions -/

structure MsgCreateDenom where
  sender : Bytes
  subdenom : Bytes

def MsgCreateDenom.message : Message MsgCreateDenom where
  name := "MsgCreateDenom".toList
  zero := ⟨[], []⟩
  fields := [
    .string 1 "Sender"
      { get := (·.sender), set := fun m v => { m with sender := v } },
    .string 2 "Subdenom"
      { get := (·.subdenom), set := fun m v => { m with subdenom := v } }]
  complete _ := ⟨rfl, rfl, rfl⟩

structure MsgCreateDenomResponse where
  newTokenDenom : Bytes

def MsgCreateDenomResponse.message : Message MsgCreateDenomResponse where
  name := "MsgCreateDenomResponse".toList
  zero := ⟨[]⟩
  fields := [
    .string 1 "NewTokenDenom"
      { get := (·.newTokenDenom),
        set := fun m v => { m with newTokenDenom := v } }]
  complete _ := ⟨rfl, rfl⟩

structure MsgMint where
  sender : Bytes
  amount : ext.Coin
  mintToAddress : Bytes

def MsgMint.message : Message (MsgMint ext) where
  name := "MsgMint".toList
  zero := ⟨[], ext.coin.zero, []⟩
  fields := [
    .string 1 "Sender"
      { get := (·.sender), set := fun m v => { m with sender := v } },
    .message 2 "Amount" ext.coin
      { get := (·.amount), set := fun m v => { m with amount := v } },
    .string 3 "MintToAddress"
      { get := (·.mintToAddress),
        set := fun m v => { m with mintToAddress := v } }]
  complete _ := ⟨rfl, rfl, rfl, rfl⟩

structure MsgMintResponse

def MsgMintResponse.message : Message MsgMintResponse :=
  .empty "MsgMintResponse" ⟨⟩

structure MsgBurn where
  sender : Bytes
  amount : ext.Coin
  burnFromAddress : Bytes

def MsgBurn.message : Message (MsgBurn ext) where
  name := "MsgBurn".toList
  zero := ⟨[], ext.coin.zero, []⟩
  fields := [
    .string 1 "Sender"
      { get := (·.sender), set := fun m v => { m with sender := v } },
    .message 2 "Amount" ext.coin
      { get := (·.amount), set := fun m v => { m with amount := v } },
    .string 3 "BurnFromAddress"
      { get := (·.burnFromAddress),
        set := fun m v => { m with burnFromAddress := v } }]
  complete _ := ⟨rfl, rfl, rfl, rfl⟩

structure MsgBurnResponse

def MsgBurnResponse.message : Message MsgBurnResponse :=
  .empty "MsgBurnResponse" ⟨⟩

structure MsgChangeAdmin where
  sender : Bytes
  denom : Bytes
  newAdmin : Bytes

def MsgChangeAdmin.message : Message MsgChangeAdmin where
  name := "MsgChangeAdmin".toList
  zero := ⟨[], [], []⟩
  fields := [
    .string 1 "Sender"
      { get := (·.sender), set := fun m v => { m with sender := v } },
    .string 2 "Denom"
      { get := (·.denom), set := fun m v => { m with denom := v } },
    .string 3 "NewAdmin"
      { get := (·.newAdmin), set := fun m v => { m with newAdmin := v } }]
  complete _ := ⟨rfl, rfl, rfl, rfl⟩

structure MsgChangeAdminResponse

def MsgChangeAdminResponse.message : Message MsgChangeAdminResponse :=
  .empty "MsgChangeAdminResponse" ⟨⟩

structure MsgSetDenomMetadata where
  sender : Bytes
  metadata : ext.Metadata

def MsgSetDenomMetadata.message : Message (MsgSetDenomMetadata ext) where
  name := "MsgSetDenomMetadata".toList
  zero := ⟨[], ext.metadata.zero⟩
  fields := [
    .string 1 "Sender"
      { get := (·.sender), set := fun m v => { m with sender := v } },
    .message 2 "Metadata" ext.metadata
      { get := (·.metadata), set := fun m v => { m with metadata := v } }]
  complete _ := ⟨rfl, rfl, rfl⟩

structure MsgSetDenomMetadataResponse

def MsgSetDenomMetadataResponse.message : Message MsgSetDenomMetadataResponse :=
  .empty "MsgSetDenomMetadataResponse" ⟨⟩

structure MsgForceTransfer where
  sender : Bytes
  amount : ext.Coin
  transferFromAddress : Bytes
  transferToAddress : Bytes

def MsgForceTransfer.message : Message (MsgForceTransfer ext) where
  name := "MsgForceTransfer".toList
  zero := ⟨[], ext.coin.zero, [], []⟩
  fields := [
    .string 1 "Sender"
      { get := (·.sender), set := fun m v => { m with sender := v } },
    .message 2 "Amount" ext.coin
      { get := (·.amount), set := fun m v => { m with amount := v } },
    .string 3 "TransferFromAddress"
      { get := (·.transferFromAddress),
        set := fun m v => { m with transferFromAddress := v } },
    .string 4 "TransferToAddress"
      { get := (·.transferToAddress),
        set := fun m v => { m with transferToAddress := v } }]
  complete _ := ⟨rfl, rfl, rfl, rfl, rfl⟩

structure MsgForceTransferResponse

def MsgForceTransferResponse.message : Message MsgForceTransferResponse :=
  .empty "MsgForceTransferResponse" ⟨⟩

structure MsgUpdateParams where
  authority : Bytes
  params : Params ext

def MsgUpdateParams.message : Message (MsgUpdateParams ext) where
  name := "MsgUpdateParams".toList
  zero := ⟨[], (Params.message ext).zero⟩
  fields := [
    .string 1 "Authority"
      { get := (·.authority), set := fun m v => { m with authority := v } },
    .message 2 "Params" (Params.message ext).codec
      { get := (·.params), set := fun m v => { m with params := v } }]
  complete _ := ⟨rfl, rfl, rfl⟩

structure MsgUpdateParamsResponse

def MsgUpdateParamsResponse.message : Message MsgUpdateParamsResponse :=
  .empty "MsgUpdateParamsResponse" ⟨⟩

/-! ## All of them -/

inductive MessageType
  | denomAuthorityMetadata
  | params
  | genesisDenom
  | genesisState
  | queryParamsRequest
  | queryParamsResponse
  | queryDenomAuthorityMetadataRequest
  | queryDenomAuthorityMetadataResponse
  | queryDenomsFromCreatorRequest
  | queryDenomsFromCreatorResponse
  | queryDenomsFromAdminRequest
  | queryDenomsFromAdminResponse
  | msgCreateDenom
  | msgCreateDenomResponse
  | msgMint
  | msgMintResponse
  | msgBurn
  | msgBurnResponse
  | msgChangeAdmin
  | msgChangeAdminResponse
  | msgSetDenomMetadata
  | msgSetDenomMetadataResponse
  | msgForceTransfer
  | msgForceTransferResponse
  | msgUpdateParams
  | msgUpdateParamsResponse

namespace MessageType

abbrev Value : MessageType → Type
  | denomAuthorityMetadata => Pb.DenomAuthorityMetadata
  | params => Pb.Params ext
  | genesisDenom => Pb.GenesisDenom
  | genesisState => Pb.GenesisState ext
  | queryParamsRequest => Pb.QueryParamsRequest
  | queryParamsResponse => Pb.QueryParamsResponse ext
  | queryDenomAuthorityMetadataRequest => Pb.QueryDenomAuthorityMetadataRequest
  | queryDenomAuthorityMetadataResponse => Pb.QueryDenomAuthorityMetadataResponse
  | queryDenomsFromCreatorRequest => Pb.QueryDenomsFromCreatorRequest
  | queryDenomsFromCreatorResponse => Pb.QueryDenomsFromCreatorResponse
  | queryDenomsFromAdminRequest => Pb.QueryDenomsFromAdminRequest
  | queryDenomsFromAdminResponse => Pb.QueryDenomsFromAdminResponse
  | msgCreateDenom => Pb.MsgCreateDenom
  | msgCreateDenomResponse => Pb.MsgCreateDenomResponse
  | msgMint => Pb.MsgMint ext
  | msgMintResponse => Pb.MsgMintResponse
  | msgBurn => Pb.MsgBurn ext
  | msgBurnResponse => Pb.MsgBurnResponse
  | msgChangeAdmin => Pb.MsgChangeAdmin
  | msgChangeAdminResponse => Pb.MsgChangeAdminResponse
  | msgSetDenomMetadata => Pb.MsgSetDenomMetadata ext
  | msgSetDenomMetadataResponse => Pb.MsgSetDenomMetadataResponse
  | msgForceTransfer => Pb.MsgForceTransfer ext
  | msgForceTransferResponse => Pb.MsgForceTransferResponse
  | msgUpdateParams => Pb.MsgUpdateParams ext
  | msgUpdateParamsResponse => Pb.MsgUpdateParamsResponse

def message : (t : MessageType) → Message (t.Value ext)
  | denomAuthorityMetadata => Pb.DenomAuthorityMetadata.message
  | params => Pb.Params.message ext
  | genesisDenom => Pb.GenesisDenom.message
  | genesisState => Pb.GenesisState.message ext
  | queryParamsRequest => Pb.QueryParamsRequest.message
  | queryParamsResponse => Pb.QueryParamsResponse.message ext
  | queryDenomAuthorityMetadataRequest =>
      Pb.QueryDenomAuthorityMetadataRequest.message
  | queryDenomAuthorityMetadataResponse =>
      Pb.QueryDenomAuthorityMetadataResponse.message
  | queryDenomsFromCreatorRequest => Pb.QueryDenomsFromCreatorRequest.message
  | queryDenomsFromCreatorResponse => Pb.QueryDenomsFromCreatorResponse.message
  | queryDenomsFromAdminRequest => Pb.QueryDenomsFromAdminRequest.message
  | queryDenomsFromAdminResponse => Pb.QueryDenomsFromAdminResponse.message
  | msgCreateDenom => Pb.MsgCreateDenom.message
  | msgCreateDenomResponse => Pb.MsgCreateDenomResponse.message
  | msgMint => Pb.MsgMint.message ext
  | msgMintResponse => Pb.MsgMintResponse.message
  | msgBurn => Pb.MsgBurn.message ext
  | msgBurnResponse => Pb.MsgBurnResponse.message
  | msgChangeAdmin => Pb.MsgChangeAdmin.message
  | msgChangeAdminResponse => Pb.MsgChangeAdminResponse.message
  | msgSetDenomMetadata => Pb.MsgSetDenomMetadata.message ext
  | msgSetDenomMetadataResponse => Pb.MsgSetDenomMetadataResponse.message
  | msgForceTransfer => Pb.MsgForceTransfer.message ext
  | msgForceTransferResponse => Pb.MsgForceTransferResponse.message
  | msgUpdateParams => Pb.MsgUpdateParams.message ext
  | msgUpdateParamsResponse => Pb.MsgUpdateParamsResponse.message

end MessageType

/--
Every message is marshalled into exactly as many bytes as its size says, and
read back from them, also where fields of other versions stand in between.
-/
theorem messages_read_back (t : MessageType) (m : t.Value ext) :
    let d := t.message ext
    d.codec.marshal m = some (d.marshalToSizedBuffer m) ∧
      (d.marshalToSizedBuffer m).length = d.size m ∧
      (d.size m < 2 ^ 63 →
        d.unmarshal d.zero (d.marshalToSizedBuffer m) = .ok m) ∧
      ∀ items : List (Item (t.Value ext)), (∀ item ∈ items, d.Admits item) →
        items.filter Item.isKnown = d.items m →
        (items.flatMap Item.write).length < 2 ^ 63 →
        d.unmarshal d.zero (items.flatMap Item.write) = .ok m := by
  intro d
  refine ⟨Codec.marshal_eq _ m, ?_, ?_, ?_⟩
  · exact d.length_marshalToSizedBuffer m
  · intro hsize
    exact d.codec.unmarshal_marshalToSizedBuffer m hsize
  · intro items hitems hknown hlength
    exact d.unmarshal_of_items hitems hknown hlength

/-! ## A sample of the SDK's types -/

structure SampleCoin where
  denom : Bytes
  amount : Bytes
  deriving DecidableEq

def SampleCoin.message : Message SampleCoin where
  name := "Coin".toList
  zero := ⟨[], []⟩
  fields := [
    .string 1 "Denom"
      { get := (·.denom), set := fun m v => { m with denom := v } },
    .string 2 "Amount"
      { get := (·.amount), set := fun m v => { m with amount := v } }]
  complete _ := ⟨rfl, rfl, rfl⟩

structure SampleMetadata where
  base : Bytes
  deriving DecidableEq

def SampleMetadata.message : Message SampleMetadata where
  name := "Metadata".toList
  zero := ⟨[]⟩
  fields := [
    .string 3 "Base" { get := (·.base), set := fun m v => { m with base := v } }]
  complete _ := ⟨rfl, rfl⟩

def sampleExternal : External where
  Coin := SampleCoin
  coin := SampleCoin.message.codec
  Metadata := SampleMetadata
  metadata := SampleMetadata.message.codec

def sampleMint : MsgMint sampleExternal where
  sender := utf8 "ire1alice".toList
  amount := ⟨utf8 "uire".toList, utf8 "25".toList⟩
  mintToAddress := utf8 "ire1bob".toList

def sampleUnknown : Unknown :=
  .group 9 [.varint 1 300, .lengthDelimited 2 []] 9

theorem messages_read_back_sample :
    (MsgMint.message sampleExternal).unmarshal
        (MsgMint.message sampleExternal).zero
        (sampleUnknown.write ++
          (MsgMint.message sampleExternal).marshalToSizedBuffer sampleMint) =
      .ok sampleMint := by
  let d := MsgMint.message sampleExternal
  have hread := (messages_read_back sampleExternal .msgMint sampleMint).2.2.2
    (.unknown sampleUnknown :: d.items sampleMint)
  have hbytes : (Item.unknown sampleUnknown :: d.items sampleMint).flatMap
      Item.write =
        sampleUnknown.write ++ d.marshalToSizedBuffer sampleMint := by
    rw [List.flatMap_cons, d.marshalToSizedBuffer_eq]
    rfl
  rw [← hbytes]
  apply hread
  · intro item hitem
    cases List.mem_cons.mp hitem with
    | inl heq =>
        rw [heq]
        refine ⟨by decide, by decide, ?_⟩
        simp [MessageType.message, MsgMint.message, sampleUnknown,
          Unknown.number]
    | inr hmem => exact d.admits_items item hmem
  · exact d.filter_items sampleMint
  · exact of_decide_eq_true rfl

end IreBlockchain.TokenFactory.Pb

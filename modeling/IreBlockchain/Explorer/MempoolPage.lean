import Mathlib.Data.List.Sort
import IreBlockchain.Explorer.BlockWindow
import IreBlockchain.Explorer.Mempool
import IreBlockchain.Explorer.RawTransactions
import IreBlockchain.Foundation.EventLoop
import IreBlockchain.Foundation.Results

/-!
# The mempool page

The handlers of the page as scripts.  Ticks may overlap, and a click looks its
transaction up while they run.  Whatever order the replies of an honest node
come in, the page shows blocks of the chain, and the panel shows what was
clicked and names no block that does not hold it.
-/

namespace IreBlockchain.Explorer.Mempool

open IreBlockchain.Foundation

/-! ## What the page keeps -/

structure Rpc where
  height : Option Text
  code : Option Nat
  deriving DecidableEq

/-- An object for a transaction; its `serial` tells it from its copies. -/
structure TxRef where
  serial : Nat
  tx : DecodedTx
  blockHeight : Option Nat

structure PageBlock where
  height : Nat
  time : Text
  blockHash : Option Text
  txs : List DecodedTx
  fresh : Bool

inductive Entry
  | tx (ref : TxRef)
  | block (block : PageBlock)

def Entry.hash : Entry → Option Text
  | .tx ref => some ref.tx.hash
  | .block shown => shown.blockHash

inductive Detail
  | tx (ref : TxRef) (rpc : Option Rpc)
  | block (block : PageBlock)

/-- The block after `Status`; without one the panel says `Mempool`. -/
def Detail.blockNamed : Detail → Option Text
  | .tx ref rpc =>
      match ref.blockHeight with
      | some (height + 1) => some (decimal (height + 1))
      | _ => (rpc.bind (·.height)).filter (· ≠ [])
  | .block _ => none

structure Cube where
  tx : DecodedTx
  enter : Bool
  on : Bool

structure DrawnBlock where
  block : PageBlock
  cubes : List Cube
  on : Bool

/--
The variables of the page, and what it has drawn.  What `enrichTx` has written
is in `rpc`, the latest first.  `clicked` is a history that no handler reads:
the hash of what was clicked last.
-/
structure Page where
  online : Bool
  height : Option Nat
  catchingUp : Bool
  unconfirmed : List TxRef
  blocks : List PageBlock
  supply : Option Text
  validators : Nat
  pendingTotal : Option Nat
  seenPending : List Text
  selected : Option Entry
  nextSerial : Nat
  rpc : List ((Text × Nat) × Rpc)
  well : List Cube
  drawn : List DrawnBlock
  detail : Option Detail
  clicked : Option (Option Text)

namespace Page

def blank : Page where
  online := false
  height := none
  catchingUp := false
  unconfirmed := []
  blocks := []
  supply := none
  validators := 0
  pendingTotal := none
  seenPending := []
  selected := none
  nextSerial := 0
  rpc := []
  well := []
  drawn := []
  detail := none
  clicked := none

def rpcOf (page : Page) (ref : TxRef) : Option Rpc :=
  page.rpc.lookup (ref.tx.hash, ref.serial)

def contents (page : Page) : Entry → Detail
  | .tx ref => .tx ref (page.rpcOf ref)
  | .block block => .block block

def selectedHash (page : Page) : Option (Option Text) :=
  page.selected.map Entry.hash

def cubeButton (page : Page) (tx : DecodedTx) (enter : Bool) : Cube :=
  ⟨tx, enter, page.selectedHash = some (some tx.hash)⟩

def renderWell (page : Page) : Page :=
  { page with
    well := page.unconfirmed.map fun ref =>
      page.cubeButton ref.tx (ref.tx.hash ∉ page.seenPending) }

def marksBlock (page : Page) (block : PageBlock) : Bool :=
  match page.selected with
  | some (.tx ref) => ref.blockHeight = some block.height && ref.tx.hash = []
  | _ => false

def renderBlocks (page : Page) : Page :=
  { page with
    drawn := page.blocks.map fun block =>
      ⟨block, (block.txs.take 16).map fun tx => page.cubeButton tx false,
        page.marksBlock block⟩
    blocks := page.blocks.map fun block => { block with fresh := false } }

def showDetail (page : Page) (entry : Entry) : Page :=
  { page with selected := some entry, detail := some (page.contents entry) }

def findTx (page : Page) (hash : Text) : Option TxRef :=
  match page.unconfirmed.find? (·.tx.hash = hash) with
  | some ref => some ref
  | none => page.blocks.findSome? fun block =>
      (block.txs.find? (·.hash = hash)).map fun tx =>
        ⟨page.nextSerial, tx, some block.height⟩

def enrich (page : Page) (ref : TxRef) (rpc : Rpc) : Page :=
  { page with rpc := ((ref.tx.hash, ref.serial), rpc) :: page.rpc }

end Page

/-! ## Requests -/

structure Status where
  latestBlockHeight : Nat
  catchingUp : Bool

structure Facts where
  nTxs : Option Nat
  rawPending : List Text
  supply : Option Text
  validators : Nat

structure BlockReply where
  height : Nat
  time : Text
  blockHash : Option Text
  rawTxs : List Text
  deriving DecidableEq

inductive Request
  | status
  | facts
  | blockchain (minH height : Nat)
  | block (height : Nat)
  /-- The digests of the browser, which take their time as well. -/
  | digests
  | tx (hash : Text)

abbrev Request.Reply : Request → Type
  | .status => Status
  | .facts => Facts
  | .blockchain _ _ => List Nat
  | .block _ => BlockReply
  | .digests => Unit
  | .tx _ => Rpc

abbrev interface : Interface where
  State := Page
  Request := Request
  Reply := Request.Reply
  Callback := Empty
  Error := Unit

abbrev Code := Script interface

open Script

def ask (q : Request) : Code q.Reply := request (S := interface) q

/-! ## Handlers -/

section Handlers

variable (sha256Hex : Bytes → Text)

def decodeAll (raws : List Text) : Code (List DecodedTx) :=
  match raws.mapM bytesFromRpcTx with
  | none => .throw ()
  | some bytes => do
      ask .digests
      return bytes.map (decodeTx sha256Hex)

def loadBlock (height : Nat) : Code PageBlock := do
  let data ← ask (.block height)
  let txs ← decodeAll sha256Hex data.rawTxs
  return ⟨data.height, data.time, data.blockHash, txs, false⟩

def collect (previous : List PageBlock) :
    List Nat → List PageBlock → Code (List PageBlock)
  | [], blocks => pure blocks
  | h :: rest, blocks =>
      match (previous.filter (·.height = h)).getLast? with
      | some cached =>
          collect previous rest (blocks ++ [{ cached with fresh := false }])
      | none => do
          let block ← loadBlock sha256Hex h
          let page ← state
          collect previous rest
            (blocks ++ [{ block with fresh := page.height.any (· < h) }])

def refsFrom (serial : Nat) (txs : List DecodedTx) : List TxRef :=
  txs.zipIdx.map fun (tx, i) => ⟨serial + i, tx, none⟩

def publish (status : Status) (facts : Facts) (unconfirmed : List DecodedTx)
    (blocks : List PageBlock) (page : Page) : Page :=
  { page with
    online := true
    height := some status.latestBlockHeight
    catchingUp := status.catchingUp
    unconfirmed := refsFrom page.nextSerial unconfirmed
    nextSerial := page.nextSerial + unconfirmed.length
    blocks := blocks
    supply := facts.supply
    validators := facts.validators
    pendingTotal := some (facts.nTxs.getD unconfirmed.length) }

def blockWindow : Nat := 10

def scan (reply : Except Unit Status) : Code Unit := do
  let status ← ofExcept reply
  let height := status.latestBlockHeight
  if height < 1 then .throw ()
  else
    let facts ← ask .facts
    let unconfirmed ← decodeAll sha256Hex facts.rawPending
    let metas ← ask (.blockchain (minHeight blockWindow height) height)
    let page ← state
    let blocks ← collect sha256Hex page.blocks
      (metas.insertionSort (· ≥ ·)) []
    modify (publish status facts unconfirmed blocks)
    modify (·.renderWell)
    modify (·.renderBlocks)
    modify fun page => { page with seenPending := unconfirmed.map (·.hash) }

def goOffline : Code Unit := do
  modify fun page => { page with online := false }
  modify (·.renderWell)
  modify (·.renderBlocks)

def tick : Code Unit :=
  .await .status fun reply => (scan sha256Hex reply).handle fun _ => goOffline

def refresh (ref : TxRef) : Code Unit := do
  let page ← state
  if page.selectedHash = some (some ref.tx.hash) then
    modify (·.showDetail (.tx ref))

def clickCube (hash : Text) : Code Unit := do
  let page ← state
  match page.findTx hash with
  | none => return
  | some ref =>
      modify fun page =>
        { page.showDetail (.tx ref) with
          nextSerial := page.nextSerial + 1, clicked := some (some hash) }
      .await (.tx ref.tx.hash) fun reply => do
        match reply with
        | .ok rpc => modify (·.enrich ref rpc)
        | .error _ => pure ()
        refresh ref

def clickBlock (height : Nat) : Code Unit := do
  let page ← state
  match page.blocks.find? (·.height = height) with
  | none => return
  | some block =>
      modify fun page =>
        { page.showDetail (.block block) with clicked := some block.blockHash }

inductive Event
  | interval
  | cube (hash : Text)
  | block (height : Nat)

def page : EventLoop interface Event where
  handler
    | .interval => tick sha256Hex
    | .cube hash => clickCube hash
    | .block height => clickBlock height
  callback := Empty.elim
  unload := fun _ => .blank

end Handlers

/-! ## An honest node -/

def BlockReply.Holds (sha256Hex : Bytes → Text) (block : BlockReply)
    (hash : Text) : Prop :=
  ∃ raw ∈ block.rawTxs, ∃ bytes,
    bytesFromRpcTx raw = some bytes ∧ sha256Hex bytes = hash

/-- What the node has under every height, and under the hash of a transaction. -/
structure Chain (sha256Hex : Bytes → Text) where
  block : Nat → BlockReply
  height_eq : ∀ h, (block h).height = h
  result : Text → Option Rpc
  mined : ∀ hash rpc, result hash = some rpc →
    ∃ h, rpc.height = some (decimal h) ∧ (block h).Holds sha256Hex hash

section Honest

variable (sha256Hex : Bytes → Text) (chain : Chain sha256Hex)

structure FromChain (block : PageBlock) : Prop where
  txs : ∃ bytes, (chain.block block.height).rawTxs.mapM bytesFromRpcTx =
      some bytes ∧ block.txs = bytes.map (decodeTx sha256Hex)
  time : block.time = (chain.block block.height).time
  blockHash : block.blockHash = (chain.block block.height).blockHash

structure Windowed (height : Nat) (blocks : List PageBlock) : Prop where
  ordered : (blocks.map (·.height)).Pairwise (· > ·)
  inWindow : ∀ block ∈ blocks, InWindow blockWindow height block.height

/-- A copy of a transaction in a block is in that block of the chain. -/
def Placed : Entry → Prop
  | .tx ref => ∀ h, ref.blockHeight = some h →
      (chain.block h).Holds sha256Hex ref.tx.hash
  | .block _ => True

/-- What is true of the page between two of its segments. -/
structure Sound (page : Page) : Prop where
  fromChain : ∀ block ∈ page.blocks, FromChain sha256Hex chain block
  settled : ∀ block ∈ page.blocks, block.fresh = false
  windowed : ∀ height, page.height = some height →
    Windowed height page.blocks
  empty : page.height = none → page.blocks = []
  drawn : page.drawn.map (fun shown => { shown.block with fresh := false }) =
    page.blocks
  well : page.well.map (·.tx) = page.unconfirmed.map (·.tx)
  seen : page.seenPending = page.unconfirmed.map (·.tx.hash)
  detail : page.detail = page.selected.map page.contents
  clicked : page.selectedHash = page.clicked
  pending : ∀ ref ∈ page.unconfirmed, ref.blockHeight = none
  placed : ∀ entry, page.selected = some entry → Placed sha256Hex chain entry
  known : ∀ entry ∈ page.rpc, chain.result entry.1.1 = some entry.2

/--
Blocks and results come from the chain, and the metas list some of the range
asked for.
-/
def Honest : (q : Request) → Except Unit q.Reply → Prop
  | .block h, .ok reply => reply = chain.block h
  | .tx hash, .ok reply => chain.result hash = some reply
  | .blockchain minH height, .ok heights =>
      heights.Nodup ∧ ∀ h ∈ heights, minH ≤ h ∧ h ≤ height
  | _, _ => True

def honest : Rely interface where
  inv := Sound sha256Hex chain
  allowed q _ reply := Honest sha256Hex chain q reply

/-! ## What the handlers do to the page -/

variable {sha256Hex : Bytes → Text} {chain : Chain sha256Hex}

theorem sound_blank : Sound sha256Hex chain .blank where
  fromChain := by simp [Page.blank]
  settled := by simp [Page.blank]
  windowed := by simp [Page.blank]
  empty := by simp [Page.blank]
  drawn := by simp [Page.blank]
  well := by simp [Page.blank]
  seen := by simp [Page.blank]
  detail := by simp [Page.blank]
  clicked := by simp [Page.blank, Page.selectedHash]
  pending := by simp [Page.blank]
  placed := by simp [Page.blank]
  known := by simp [Page.blank]

theorem FromChain.settle {block : PageBlock}
    (h : FromChain sha256Hex chain block) (fresh : Bool) :
    FromChain sha256Hex chain { block with fresh := fresh } :=
  ⟨h.txs, h.time, h.blockHash⟩

theorem FromChain.holds {block : PageBlock}
    (h : FromChain sha256Hex chain block) {tx : DecodedTx}
    (htx : tx ∈ block.txs) :
    (chain.block block.height).Holds sha256Hex tx.hash := by
  obtain ⟨bytes, hbytes, htxs⟩ := h.txs
  rw [htxs] at htx
  obtain ⟨b, hb, rfl⟩ := List.mem_map.mp htx
  obtain ⟨raw, hraw, hread⟩ := exists_of_mem_mapM hbytes hb
  exact ⟨raw, hraw, b, hread, rfl⟩

theorem map_tx_refsFrom (serial : Nat) (txs : List DecodedTx) :
    (refsFrom serial txs).map (·.tx) = txs := by
  rw [refsFrom, List.map_map]
  exact List.zipIdx_map_fst 0 txs

theorem blockHeight_of_mem_refsFrom {serial : Nat} {txs : List DecodedTx}
    {ref : TxRef} (h : ref ∈ refsFrom serial txs) : ref.blockHeight = none := by
  obtain ⟨⟨tx, i⟩, -, rfl⟩ := List.mem_map.mp h
  rfl

def Page.afterTick (page : Page) (status : Status) (facts : Facts)
    (unconfirmed : List DecodedTx) (blocks : List PageBlock) : Page :=
  { (publish status facts unconfirmed blocks page).renderWell.renderBlocks with
    seenPending := unconfirmed.map (·.hash) }

theorem Sound.afterTick {page : Page} (h : Sound sha256Hex chain page)
    {status : Status} {facts : Facts} {unconfirmed : List DecodedTx}
    {blocks : List PageBlock}
    (hblocks : ∀ block ∈ blocks, FromChain sha256Hex chain block)
    (hwindowed : Windowed status.latestBlockHeight blocks) :
    Sound sha256Hex chain
      (page.afterTick status facts unconfirmed blocks) where
  fromChain := by
    simp only [Page.afterTick, publish, Page.renderWell, Page.renderBlocks,
      List.forall_mem_map]
    exact fun block hblock => (hblocks block hblock).settle false
  settled := by
    simp [Page.afterTick, publish, Page.renderWell, Page.renderBlocks]
  windowed := by
    rintro height hheight
    cases hheight
    constructor
    · simpa [Page.afterTick, publish, Page.renderWell, Page.renderBlocks,
        Function.comp_def] using hwindowed.ordered
    · simpa [Page.afterTick, publish, Page.renderWell, Page.renderBlocks]
        using hwindowed.inWindow
  empty := by
    simp [Page.afterTick, publish, Page.renderWell, Page.renderBlocks]
  drawn := by
    simp [Page.afterTick, publish, Page.renderWell, Page.renderBlocks,
      Function.comp_def]
  well := by
    simp [Page.afterTick, publish, Page.renderWell, Page.renderBlocks,
      Page.cubeButton, Function.comp_def]
  seen := by
    have hrefs := congrArg (List.map (·.hash))
      (map_tx_refsFrom page.nextSerial unconfirmed)
    rw [List.map_map] at hrefs
    exact hrefs.symm
  detail := h.detail
  clicked := h.clicked
  pending := fun _ hmem => blockHeight_of_mem_refsFrom hmem
  placed := h.placed
  known := h.known

theorem Sound.goOffline {page : Page} (h : Sound sha256Hex chain page) :
    Sound sha256Hex chain
      ({ page with online := false } : Page).renderWell.renderBlocks := by
  have hblocks : page.blocks.map (fun block => { block with fresh := false }) =
      page.blocks := by
    nth_rewrite 2 [← List.map_id page.blocks]
    apply List.map_congr_left
    intro block hblock
    rw [← h.settled block hblock]
    rfl
  constructor
  case drawn =>
    simp [Page.renderWell, Page.renderBlocks, Function.comp_def]
  case well =>
    simp [Page.renderWell, Page.renderBlocks, Page.cubeButton,
      Function.comp_def]
  case seen => exact h.seen
  case detail => exact h.detail
  case clicked => exact h.clicked
  case pending => exact h.pending
  case placed => exact h.placed
  case known => exact h.known
  all_goals simp only [Page.renderWell, Page.renderBlocks, hblocks]
  · exact h.fromChain
  · exact h.settled
  · exact h.windowed
  · exact h.empty

theorem Sound.showDetail {page : Page} (h : Sound sha256Hex chain page)
    (entry : Entry) (serial : Nat)
    (hplaced : Placed sha256Hex chain entry) :
    Sound sha256Hex chain { page.showDetail entry with
      nextSerial := serial, clicked := some entry.hash } where
  fromChain := h.fromChain
  settled := h.settled
  windowed := h.windowed
  empty := h.empty
  drawn := h.drawn
  well := h.well
  seen := h.seen
  detail := by cases entry <;> rfl
  clicked := rfl
  pending := h.pending
  placed := by
    rintro _ ⟨⟩
    exact hplaced
  known := h.known

theorem contents_enrich (page : Page) (ref : TxRef) (rpc : Rpc) {entry : Entry}
    (h : entry.hash ≠ some ref.tx.hash) :
    (page.enrich ref rpc).contents entry = page.contents entry := by
  cases entry with
  | block block => rfl
  | tx other =>
      have hkey : ((other.tx.hash, other.serial) ==
          (ref.tx.hash, ref.serial)) = false := by
        rw [beq_eq_false_iff_ne]
        intro heq
        exact h (congrArg some (congrArg Prod.fst heq))
      simp [Page.contents, Page.rpcOf, Page.enrich, List.lookup_cons, hkey]

def Page.afterReply (page : Page) (ref : TxRef) : Page :=
  if page.selectedHash = some (some ref.tx.hash) then
    page.showDetail (.tx ref)
  else page

theorem Sound.afterReply {page : Page} (h : Sound sha256Hex chain page)
    {ref : TxRef} (hplaced : Placed sha256Hex chain (.tx ref)) :
    Sound sha256Hex chain (page.afterReply ref) := by
  rw [Page.afterReply]
  split
  next hshown =>
    have hclicked := h.clicked
    rw [hshown] at hclicked
    have hshow := h.showDetail (.tx ref) page.nextSerial hplaced
    rw [Entry.hash, hclicked] at hshow
    exact hshow
  next => exact h

theorem Sound.enrich {page : Page} (h : Sound sha256Hex chain page)
    {ref : TxRef} {rpc : Rpc} (hplaced : Placed sha256Hex chain (.tx ref))
    (hresult : chain.result ref.tx.hash = some rpc) :
    Sound sha256Hex chain ((page.enrich ref rpc).afterReply ref) := by
  have hhash : (page.enrich ref rpc).selectedHash = page.selectedHash := rfl
  have hknown : ∀ entry ∈ (page.enrich ref rpc).rpc,
      chain.result entry.1.1 = some entry.2 :=
    List.forall_mem_cons.mpr ⟨hresult, h.known⟩
  rw [Page.afterReply, hhash]
  split
  next hshown =>
    have hclicked := h.clicked
    rw [hshown] at hclicked
    exact { fromChain := h.fromChain, settled := h.settled
            windowed := h.windowed, empty := h.empty, drawn := h.drawn
            well := h.well, seen := h.seen, detail := rfl
            clicked := hclicked, pending := h.pending
            placed := by
              rintro _ ⟨⟩
              exact hplaced
            known := hknown }
  next hother =>
    refine { fromChain := h.fromChain, settled := h.settled
             windowed := h.windowed, empty := h.empty, drawn := h.drawn
             well := h.well, seen := h.seen, detail := ?_
             clicked := h.clicked, pending := h.pending
             placed := h.placed, known := hknown }
    have hdetail := h.detail
    rw [Page.selectedHash] at hother
    change page.detail = page.selected.map (page.enrich ref rpc).contents
    cases hselected : page.selected with
    | none =>
        rw [hselected] at hdetail
        exact hdetail
    | some entry =>
        rw [hselected] at hdetail hother
        have hne : entry.hash ≠ some ref.tx.hash := by simpa using hother
        rw [Option.map_some, contents_enrich page ref rpc hne]
        exact hdetail

/-! ## The handlers -/

theorem keeps_decodeAll {page : Page} (h : Sound sha256Hex chain page)
    (raws : List Text) :
    (honest sha256Hex chain).Keeps (decodeAll sha256Hex raws)
      (fun txs page => Sound sha256Hex chain page ∧
        ∃ bytes, raws.mapM bytesFromRpcTx = some bytes ∧
          txs = bytes.map (decodeTx sha256Hex))
      (fun _ page => Sound sha256Hex chain page) page := by
  rw [decodeAll]
  split
  next => exact h
  next bytes hbytes =>
    rw [Rely.keeps_bind]
    apply Rely.keeps_request h
    · intro page' _ h' _
      exact ⟨h', bytes, hbytes, rfl⟩
    · exact fun _ _ h' => h'

theorem keeps_loadBlock {page : Page} (h : Sound sha256Hex chain page)
    (height : Nat) :
    (honest sha256Hex chain).Keeps (loadBlock sha256Hex height)
      (fun block page => Sound sha256Hex chain page ∧
        FromChain sha256Hex chain block ∧ block.height = height)
      (fun _ page => Sound sha256Hex chain page) page := by
  rw [loadBlock, Rely.keeps_bind]
  apply Rely.keeps_request h
  · intro page' reply h' hreply
    have hreply : reply = chain.block height := hreply
    have hheight : reply.height = height := by
      rw [hreply, chain.height_eq]
    rw [Rely.keeps_bind]
    refine (keeps_decodeAll h' reply.rawTxs).mono ?_ (fun _ _ h => h)
    rintro txs page'' ⟨h'', bytes, hbytes, rfl⟩
    have hsame : chain.block reply.height = reply := by rw [hheight, ← hreply]
    refine ⟨h'', ⟨⟨bytes, ?_, rfl⟩, ?_, ?_⟩, hheight⟩
    · rw [hsame]
      exact hbytes
    · rw [hsame]
    · rw [hsame]
  · exact fun _ _ h' => h'

/-- The loop keeps the chain's blocks, under the heights that it was given. -/
theorem keeps_collect {previous : List PageBlock}
    (hprevious : ∀ block ∈ previous, FromChain sha256Hex chain block)
    (heights : List Nat) {blocks : List PageBlock}
    (hblocks : ∀ block ∈ blocks, FromChain sha256Hex chain block)
    {page : Page} (h : Sound sha256Hex chain page) :
    (honest sha256Hex chain).Keeps (collect sha256Hex previous heights blocks)
      (fun result page => Sound sha256Hex chain page ∧
        (∀ block ∈ result, FromChain sha256Hex chain block) ∧
        result.map (·.height) = blocks.map (·.height) ++ heights)
      (fun _ page => Sound sha256Hex chain page) page := by
  induction heights generalizing blocks page with
  | nil => exact ⟨h, hblocks, by simp⟩
  | cons height rest ih =>
      have hnext {block : PageBlock} (hblock : FromChain sha256Hex chain block)
          (hheight : block.height = height) {page : Page}
          (h : Sound sha256Hex chain page) :
          (honest sha256Hex chain).Keeps
            (collect sha256Hex previous rest (blocks ++ [block]))
            (fun result page => Sound sha256Hex chain page ∧
              (∀ block ∈ result, FromChain sha256Hex chain block) ∧
              result.map (·.height) = blocks.map (·.height) ++ height :: rest)
            (fun _ page => Sound sha256Hex chain page) page := by
        have hpush := List.forall_mem_append.mpr
          ⟨hblocks, List.forall_mem_singleton.mpr hblock⟩
        have hrest := ih hpush h
        simpa [hheight] using hrest
      rw [collect]
      split
      next cached hcached =>
        have hmem := List.mem_filter.mp (List.mem_of_getLast? hcached)
        exact hnext ((hprevious cached hmem.1).settle false)
          (of_decide_eq_true hmem.2) h
      next =>
        rw [Rely.keeps_bind]
        refine (keeps_loadBlock h height).mono ?_ (fun _ _ h => h)
        rintro block page' ⟨h', hblock, hheight⟩
        rw [Rely.keeps_bind, Rely.keeps_state]
        exact hnext (hblock.settle (page'.height.any (· < height))) hheight h'

theorem windowed_of_heights {height : Nat} {metas : List Nat}
    {blocks : List PageBlock} (hnodup : metas.Nodup)
    (hrange : ∀ h ∈ metas, minHeight blockWindow height ≤ h ∧ h ≤ height)
    (h : blocks.map (·.height) = metas.insertionSort (· ≥ ·)) :
    Windowed height blocks := by
  have hperm : (metas.insertionSort (· ≥ ·)).Perm metas :=
    List.perm_insertionSort _ _
  constructor
  · rw [h]
    have hsorted := List.pairwise_insertionSort (· ≥ ·) metas
    exact hsorted.imp₂ (fun a b hge hne => by omega) (hperm.nodup_iff.mpr hnodup)
  · intro block hblock
    have hmem : block.height ∈ blocks.map (·.height) :=
      List.mem_map_of_mem hblock
    rw [h, hperm.mem_iff] at hmem
    exact hrange _ hmem

theorem quiet_goOffline : (honest sha256Hex chain).Quiet goOffline :=
  fun _ h => h.goOffline

theorem keeps_scan (reply : Except Unit Status) :
    (honest sha256Hex chain).Quiet (scan sha256Hex reply) := by
  intro page h
  rw [scan, Rely.keeps_bind, Rely.keeps_ofExcept]
  refine ⟨?_, fun _ _ => h⟩
  rintro status rfl
  dsimp only
  split
  next => exact h
  next =>
    rw [Rely.keeps_bind]
    apply Rely.keeps_request h _ (fun _ _ h => h)
    intro page facts h _
    rw [Rely.keeps_bind]
    refine (keeps_decodeAll h facts.rawPending).mono ?_ (fun _ _ h => h)
    rintro unconfirmed page ⟨h, -⟩
    rw [Rely.keeps_bind]
    apply Rely.keeps_request h _ (fun _ _ h => h)
    rintro page metas h ⟨hnodup, hrange⟩
    rw [Rely.keeps_bind, Rely.keeps_state, Rely.keeps_bind]
    refine (keeps_collect h.fromChain _ (by simp) h).mono ?_ (fun _ _ h => h)
    rintro blocks page ⟨h, hblocks, hheights⟩
    exact h.afterTick hblocks (windowed_of_heights hnodup hrange hheights)

theorem quiet_tick : (honest sha256Hex chain).Quiet (tick sha256Hex) :=
  Rely.quiet_await fun reply =>
    (keeps_scan reply).handle fun _ => quiet_goOffline

theorem hash_of_findTx {page : Page} {hash : Text} {ref : TxRef}
    (h : page.findTx hash = some ref) : ref.tx.hash = hash := by
  rw [Page.findTx] at h
  split at h
  next found hfound =>
    cases h
    simpa using List.find?_some hfound
  next =>
    obtain ⟨block, -, h⟩ := List.exists_of_findSome?_eq_some h
    obtain ⟨tx, hfound, rfl⟩ := Option.map_eq_some_iff.mp h
    simpa using List.find?_some hfound

theorem Sound.placed_findTx {page : Page} (h : Sound sha256Hex chain page)
    {hash : Text} {ref : TxRef} (hfound : page.findTx hash = some ref) :
    Placed sha256Hex chain (.tx ref) := by
  intro height hheight
  rw [Page.findTx] at hfound
  split at hfound
  next found hpending =>
    cases hfound
    rw [h.pending ref (List.mem_of_find?_eq_some hpending)] at hheight
    cases hheight
  next =>
    obtain ⟨block, hblock, hfound⟩ := List.exists_of_findSome?_eq_some hfound
    obtain ⟨tx, htx, rfl⟩ := Option.map_eq_some_iff.mp hfound
    cases hheight
    exact (h.fromChain block hblock).holds (List.mem_of_find?_eq_some htx)

theorem keeps_refresh {page : Page} {ref : TxRef}
    (h : Sound sha256Hex chain (page.afterReply ref)) :
    (honest sha256Hex chain).Safe (refresh ref) page := by
  rw [Page.afterReply] at h
  rw [Rely.Safe, refresh, Rely.keeps_bind, Rely.keeps_state]
  split
  next hshown =>
    rw [if_pos hshown] at h
    exact h
  next hother =>
    rw [if_neg hother] at h
    exact h

theorem quiet_clickCube (hash : Text) :
    (honest sha256Hex chain).Quiet (clickCube hash) := by
  intro page h
  rw [clickCube, Rely.keeps_bind, Rely.keeps_state]
  split
  next => exact h
  next ref hfound =>
    have hhash := hash_of_findTx hfound
    have hplaced := h.placed_findTx hfound
    subst hhash
    rw [Rely.keeps_bind, Rely.keeps_modify]
    refine ⟨h.showDetail (.tx ref) (page.nextSerial + 1) hplaced, ?_⟩
    intro page reply h hreply
    cases reply with
    | ok rpc => exact keeps_refresh (h.enrich hplaced hreply)
    | error error => exact keeps_refresh (h.afterReply hplaced)

theorem quiet_clickBlock (height : Nat) :
    (honest sha256Hex chain).Quiet (clickBlock height) := by
  intro page h
  rw [clickBlock, Rely.keeps_bind, Rely.keeps_state]
  split
  next => exact h
  next block _ => exact h.showDetail (.block block) page.nextSerial trivial

theorem upheld : (honest sha256Hex chain).Upheld (page sha256Hex) where
  handler event := by
    cases event with
    | interval => exact quiet_tick
    | cube hash => exact quiet_clickCube hash
    | block height => exact quiet_clickBlock height
  callback callback := callback.elim
  unload _ _ := sound_blank

theorem Sound.result_of_rpcOf {page : Page} (h : Sound sha256Hex chain page)
    {ref : TxRef} {rpc : Rpc} (hrpc : page.rpcOf ref = some rpc) :
    chain.result ref.tx.hash = some rpc := by
  obtain ⟨before, after, hentries, -⟩ := List.lookup_eq_some_iff.mp hrpc
  have hmem : ((ref.tx.hash, ref.serial), rpc) ∈ page.rpc := by
    rw [hentries]
    exact List.mem_append_right _ (List.mem_cons_self ..)
  exact h.known _ hmem

theorem Sound.blockNamed {page : Page} (h : Sound sha256Hex chain page)
    {ref : TxRef} {rpc : Option Rpc} {named : Text}
    (hdetail : page.detail = some (.tx ref rpc))
    (hnamed : (Detail.tx ref rpc).blockNamed = some named) :
    ∃ height, named = decimal height ∧
      (chain.block height).Holds sha256Hex ref.tx.hash := by
  rw [h.detail, Option.map_eq_some_iff] at hdetail
  obtain ⟨entry, hselected, hcontents⟩ := hdetail
  cases entry with
  | block block => cases hcontents
  | tx _ =>
      cases hcontents
      rw [Detail.blockNamed] at hnamed
      split at hnamed
      next height hheight =>
        cases hnamed
        exact ⟨height + 1, rfl, h.placed _ hselected _ hheight⟩
      next =>
        obtain ⟨reply, hreply, hheight⟩ :=
          Option.bind_eq_some_iff.mp (Option.filter_eq_some_iff.mp hnamed).1
        obtain ⟨height, hmined, hholds⟩ :=
          chain.mined _ _ (h.result_of_rpcOf hreply)
        rw [hmined] at hheight
        cases hheight
        exact ⟨height, rfl, hholds⟩

end Honest

/-! ## A run with overlapping ticks -/

def sampleHash : Bytes → Text := fun _ => "ab".toList

def sampleChain : Chain sampleHash where
  block h := ⟨h, "noon".toList, none, if h = 2 then ["AQID".toList] else []⟩
  height_eq _ := rfl
  result hash :=
    if hash = "ab".toList then some ⟨some "2".toList, some 0⟩ else none
  mined hash rpc h := by
    split at h
    next hhash =>
      cases h
      subst hhash
      exact ⟨2, rfl, "AQID".toList, by decide, [1, 2, 3], by decide, rfl⟩
    next => cases h

def answers : (q : Request) → Except Unit q.Reply
  | .status => .ok ⟨3, false⟩
  | .facts => .ok ⟨none, ["AQID".toList], none, 1⟩
  | .blockchain _ _ => .ok [2, 3]
  | .block h => .ok (sampleChain.block h)
  | .digests => .ok ()
  | .tx _ => .ok ⟨some "2".toList, some 0⟩

instance decidableHonest (chain : Chain sampleHash) :
    (q : Request) → (reply : Except Unit q.Reply) →
      Decidable (Honest sampleHash chain q reply)
  | .block h, .ok reply =>
      inferInstanceAs (Decidable (reply = chain.block h))
  | .tx hash, .ok reply =>
      inferInstanceAs (Decidable (chain.result hash = some reply))
  | .blockchain minH height, .ok heights => inferInstanceAs
      (Decidable (heights.Nodup ∧ ∀ h ∈ heights, minH ≤ h ∧ h ≤ height))
  | .status, _ => .isTrue trivial
  | .facts, _ => .isTrue trivial
  | .digests, _ => .isTrue trivial
  | .tx _, .error _ => .isTrue trivial
  | .block _, .error _ => .isTrue trivial
  | .blockchain _ _, .error _ => .isTrue trivial

instance decidableAllowed (chain : Chain sampleHash) (q : Request) (page : Page)
    (reply : Except Unit q.Reply) :
    Decidable ((honest sampleHash chain).allowed q page reply) :=
  decidableHonest chain q reply

def overlapping : List (Step interface Event) :=
  .fire .interval :: .fire .interval ::
    (List.replicate 16 (.deliver 0 answers) ++
      .fire (.cube "ab".toList) :: List.replicate 2 (.deliver 0 answers))

end IreBlockchain.Explorer.Mempool

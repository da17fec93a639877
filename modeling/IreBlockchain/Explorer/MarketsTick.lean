import IreBlockchain.Explorer.BetMemos
import IreBlockchain.Explorer.Pledges

/-!
# A tick of the markets page

The events of the scanned blocks, then those of the mempool.  The two are
fetched at different moments, so a transaction can be in both.
-/

namespace IreBlockchain.Explorer

open IreBlockchain.Foundation

structure Block where
  height : Nat
  txs : List Bytes

section Tick

variable (fmt : NumberFormat) (letters : CaseMapping)
  (sha256Hex : Bytes → Text)

def loadBlock (b : Block) : List (BetEvent fmt) :=
  b.txs.flatMap fun raw => decodeBets fmt sha256Hex raw ⟨some b.height, false⟩

def scannedEvents (blocks : List Block) : List (BetEvent fmt) :=
  blocks.flatMap (loadBlock fmt sha256Hex)

def mempoolEvents (rawPending : List Bytes) : List (BetEvent fmt) :=
  rawPending.flatMap fun raw => decodeBets fmt sha256Hex raw ⟨none, true⟩

/-- The events of a tick, in the order of its scan. -/
def tickEvents (blocks : List Block) (rawPending : List Bytes) :
    List (BetEvent fmt) :=
  scannedEvents fmt sha256Hex blocks ++ mempoolEvents fmt sha256Hex rawPending

/-- The markets after a tick; there are none when `reconstruct` throws. -/
def tick (blocks : List Block) (rawPending : List Bytes) :
    List (Market fmt) :=
  (reconstruct letters (tickEvents fmt sha256Hex blocks rawPending)).getD []

end Tick

/-! ## Where the events come from -/

section Sources

variable (fmt : NumberFormat) (sha256Hex : Bytes → Text)

variable {fmt sha256Hex} in
theorem decodeBets_info {bytes : Bytes} {info : Meta} {ev : BetEvent fmt}
    (h : ev ∈ decodeBets fmt sha256Hex bytes info) :
    ev.pending = info.pending ∧ ev.height = info.height := by
  rw [decodeBets] at h
  split at h
  next => cases h
  next ins _ =>
    split at h
    next => cases h
    next body _ =>
      split at h
      next =>
        split at h
        next =>
          rw [List.mem_singleton] at h
          rw [h]
          exact ⟨rfl, rfl⟩
        next => cases h
      next => cases h

variable {fmt sha256Hex} in
theorem loadBlock_info {b : Block} {ev : BetEvent fmt}
    (h : ev ∈ loadBlock fmt sha256Hex b) :
    ev.pending = false ∧ ev.height = some b.height := by
  obtain ⟨_, _, hev⟩ := List.mem_flatMap.mp h
  exact decodeBets_info hev

theorem scannedEvents_pending (blocks : List Block) :
    ∀ ev ∈ scannedEvents fmt sha256Hex blocks, ev.pending = false := by
  intro ev hev
  obtain ⟨_, _, hev⟩ := List.mem_flatMap.mp hev
  exact (loadBlock_info hev).1

theorem mempoolEvents_pending (rawPending : List Bytes) :
    ∀ ev ∈ mempoolEvents fmt sha256Hex rawPending, ev.pending = true := by
  intro ev hev
  obtain ⟨_, _, hev⟩ := List.mem_flatMap.mp hev
  exact (decodeBets_info hev).1

end Sources

/-! ## Counting once -/

section Once

variable {fmt : NumberFormat}

def CountedOnce (events : List (BetEvent fmt)) (mk : Market fmt) : Prop :=
  ∃ chosen : List (BetEvent fmt), chosen.Sublist events ∧
    (chosen.map (·.hash)).Nodup ∧
    mk.yes = (tally chosen mk.id).yes ∧ mk.no = (tally chosen mk.id).no ∧
    mk.pendingYes = (tally chosen mk.id).pendingYes ∧
    mk.pendingNo = (tally chosen mk.id).pendingNo ∧
    mk.buys = (tally chosen mk.id).buys

def counted (events : List (BetEvent fmt)) (id : JsString) :
    List (BetEvent fmt) :=
  events.filter fun ev => Pledges id ev

theorem tally_counted (events : List (BetEvent fmt)) (id : JsString) :
    tally (counted events id) id = tally events id := by
  induction events with
  | nil => rfl
  | cons ev events ih =>
      have hcons : tally (ev :: events) id = tally [ev] id + tally events id :=
        tally_append [ev] events id
      rw [hcons, counted]
      by_cases hpledges : Pledges id ev
      · rw [List.filter_cons_of_pos (by simp [hpledges]),
          ← List.singleton_append, tally_append]
        exact congrArg _ ih
      · rw [List.filter_cons_of_neg (by simp [hpledges]),
          tally_of_not_pledges hpledges, Totals.zero_add]
        exact ih

theorem countedOnce_iff {events : List (BetEvent fmt)} {mk : Market fmt}
    (h : mk.totals = tally events mk.id) :
    CountedOnce events mk ↔ ((counted events mk.id).map (·.hash)).Nodup := by
  constructor
  · rintro ⟨chosen, hsub, hnodup, _, _, _, _, hbuys⟩
    have hcount : (counted chosen mk.id).length =
        (counted events mk.id).length :=
      hbuys.symm.trans (congrArg Totals.buys h)
    have heq : counted chosen mk.id = counted events mk.id :=
      (hsub.filter _).eq_of_length hcount
    rw [← heq]
    exact hnodup.sublist (List.filter_sublist.map _)
  · intro hnodup
    have hsame : tally (counted events mk.id) mk.id = mk.totals :=
      (tally_counted events mk.id).trans h.symm
    refine ⟨counted events mk.id, List.filter_sublist, hnodup, ?_⟩
    rw [hsame]
    exact ⟨rfl, rfl, rfl, rfl, rfl⟩

/-- Nothing that counts for a market is in the events twice. -/
structure NoOverlap (confirmed pending : List (BetEvent fmt)) : Prop where
  buys : ∀ id, OpenedIn (confirmed ++ pending) id →
    ((counted (confirmed ++ pending) id).map (·.hash)).Nodup
  opens : ∀ id, OpenedIn confirmed id → ¬ OpenedIn pending id

variable {letters : CaseMapping} {sha256Hex : Bytes → Text}

theorem pending_iff {confirmed pending : List (BetEvent fmt)}
    (hconfirmed : ∀ ev ∈ confirmed, ev.pending = false)
    (hpending : ∀ ev ∈ pending, ev.pending = true) {board : List (Market fmt)}
    (h : reconstruct letters (confirmed ++ pending) = some board)
    {mk : Market fmt} (hmem : mk ∈ board) :
    mk.pending = true ↔ OpenedIn pending mk.id := by
  obtain ⟨ev, o, done, hby, _, hrecord, rfl⟩ := (mem_reconstruct h).mp hmem
  have hshown : done.sorted.pending = ev.pending := recordAll_pending hrecord
  rw [hshown, ← openedBy_ne_none_iff]
  rw [openedBy_append] at hby
  cases hlast : openedBy pending done.sorted.id with
  | some last =>
      rw [hlast, Option.some_or] at hby
      cases hby
      have hev := hpending ev (openedBy_eq_some hlast).1
      simp [hev]
  | none =>
      rw [hlast, Option.none_or] at hby
      have hev := hconfirmed ev (openedBy_eq_some hby).1
      simp [hev]

theorem openedIn_append_left {confirmed : List (BetEvent fmt)} {id : JsString}
    (h : OpenedIn confirmed id) (pending : List (BetEvent fmt)) :
    OpenedIn (confirmed ++ pending) id := by
  obtain ⟨ev, hev, hopens⟩ := h
  exact ⟨ev, List.mem_append_left _ hev, hopens⟩

/--
Every hash is counted once, and no market of a block is shown as pending,
exactly if blocks and mempool do not overlap in what counts for a market.
-/
theorem tick_counts_once (fmt : NumberFormat) (letters : CaseMapping)
    (sha256Hex : Bytes → Text) (blocks : List Block)
    (rawPending : List Bytes) :
    (∀ mk ∈ tick fmt letters sha256Hex blocks rawPending,
      CountedOnce (tickEvents fmt sha256Hex blocks rawPending) mk ∧
      (OpenedIn (scannedEvents fmt sha256Hex blocks) mk.id →
        mk.pending = false)) ↔
    (Coercible (tickEvents fmt sha256Hex blocks rawPending) →
      NoOverlap (scannedEvents fmt sha256Hex blocks)
        (mempoolEvents fmt sha256Hex rawPending)) := by
  have hscanned := scannedEvents_pending fmt sha256Hex blocks
  have hmempool := mempoolEvents_pending fmt sha256Hex rawPending
  simp only [tick, tickEvents]
  generalize scannedEvents fmt sha256Hex blocks = confirmed at hscanned ⊢
  generalize mempoolEvents fmt sha256Hex rawPending = pending at hmempool ⊢
  by_cases hcoercible : Coercible (confirmed ++ pending)
  · obtain ⟨board, hboard⟩ : ∃ board,
        reconstruct letters (confirmed ++ pending) = some board :=
      reconstruct_isSome_iff.mpr hcoercible
    rw [hboard, Option.getD_some]
    constructor
    · intro h _
      constructor
      · intro id hid
        obtain ⟨mk, hmem, rfl⟩ := exists_shown hboard hid
        exact (countedOnce_iff (totals_of_mem hboard hmem)).mp (h mk hmem).1
      · intro id hconfirmed hopened
        obtain ⟨mk, hmem, rfl⟩ :=
          exists_shown hboard (openedIn_append_left hconfirmed pending)
        have hpending :=
          (pending_iff hscanned hmempool hboard hmem).mpr hopened
        rw [(h mk hmem).2 hconfirmed] at hpending
        cases hpending
    · intro h mk hmem
      have hnoOverlap := h hcoercible
      have hid := openedIn_of_mem hboard hmem
      refine ⟨(countedOnce_iff (totals_of_mem hboard hmem)).mpr
        (hnoOverlap.buys mk.id hid), ?_⟩
      intro hconfirmed
      rw [← Bool.not_eq_true, pending_iff hscanned hmempool hboard hmem]
      exact hnoOverlap.opens mk.id hconfirmed
  · rw [reconstruct_eq_none hcoercible]
    refine iff_of_true ?_ (fun h => absurd h hcoercible)
    intro mk hmem
    cases hmem

end Once

/-! ## A buy in a block and in the mempool -/

def rainSha : String :=
  "602482c9f86e36cd5af9944a1ffc63fc7d6508bf378185ff5b904f9fa5b8f8b6"

def rainBet (op : String)
    (members : List (JsString × Json literalFormat.Number)) : Bytes :=
  (sendTx selfPayment (betMemo literalFormat (.object
    (textMember "p" "ire-bet" :: textMember "op" op ::
      textMember "m" (rainSha ++ "i0") :: members)))).encode

def rainBuyTx : Bytes :=
  rainBet "buy" [textMember "s" "y", textMember "a" "1000000"]

def buySha (bytes : Bytes) : Text :=
  if bytes = rainTx.encode then rainSha.toList
  else
    "9f398e81c2f9831a587124eaa41cd6b602112997034cb657815f163facaa3374".toList

def rainBlocks : List Block := [⟨7, [rainTx.encode]⟩, ⟨8, [rainBuyTx]⟩]

theorem tick_counts_twice :
    ∃ mk ∈ tick literalFormat asciiLetters buySha rainBlocks
        [rainBuyTx],
      mk.yes = 2000000 ∧ mk.buys = 2 ∧
        ¬ CountedOnce (tickEvents literalFormat buySha rainBlocks
          [rainBuyTx]) mk := by
  have hboard : (reconstruct asciiLetters (tickEvents literalFormat buySha
      rainBlocks [rainBuyTx])).isSome = true := by decide +kernel
  have hmarket : (tick literalFormat asciiLetters buySha rainBlocks
      [rainBuyTx]).any (fun mk => mk.yes = 2000000 ∧ mk.buys = 2 ∧
        ¬ ((counted (tickEvents literalFormat buySha rainBlocks
          [rainBuyTx]) mk.id).map (·.hash)).Nodup) = true := by
    decide +kernel
  obtain ⟨board, hboard⟩ := Option.isSome_iff_exists.mp hboard
  obtain ⟨mk, hmem, hshown⟩ := List.any_eq_true.mp hmarket
  obtain ⟨hyes, hbuys, hnodup⟩ := of_decide_eq_true hshown
  refine ⟨mk, hmem, hyes, hbuys, ?_⟩
  rw [tick, hboard] at hmem
  rw [countedOnce_iff (totals_of_mem hboard hmem)]
  exact hnodup

end IreBlockchain.Explorer

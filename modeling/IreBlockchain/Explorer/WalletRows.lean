import IreBlockchain.Explorer.Wallet

/-!
# The transactions of a tick of the wallet

The rows of an address: what is pending, then what the scanned blocks hold.
The page asks for the blocks and not for their results, so a row says nothing
about what the chain made of its transaction.
-/

namespace IreBlockchain.Explorer.Wallet

open IreBlockchain.Foundation

structure Block where
  height : Nat
  time : Text
  txs : List Bytes

structure Row extends WalletTx where
  kind : Kind

section Rows

variable (fmt : NumberFormat) (sha256Hex : Bytes → Text)

def loadBlock (b : Block) : List WalletTx :=
  b.txs.map fun raw =>
    decodeTx sha256Hex raw ⟨some b.height, false, some b.time⟩

def confirmed (blocks : List Block) : List WalletTx :=
  (blocks.mergeSort fun a c => c.height ≤ a.height).flatMap
    (loadBlock sha256Hex)

def pendingOnly (seen : List WalletTx) (rawPending : List Bytes) :
    List WalletTx :=
  (rawPending.map fun raw =>
    decodeTx sha256Hex raw ⟨none, true, none⟩).filter
      fun tx => tx.hash ∉ seen.map (·.hash)

def toRow (viewer : Text) (tx : WalletTx) : Row :=
  { tx with kind := kindFor fmt tx viewer }

def rows (viewer : Text) (blocks : List Block) (rawPending : List Bytes) :
    List Row :=
  let confirmed := confirmed sha256Hex blocks
  let txs := pendingOnly sha256Hex confirmed rawPending ++ confirmed
  if viewer ≠ [] ∧ isIreAddr viewer = true then
    (txs.filter fun tx => involves tx viewer).map (toRow fmt viewer)
  else []

def confirmedRows (viewer : Text) (blocks : List Block)
    (rawPending : List Bytes) : List Row :=
  (rows fmt sha256Hex viewer blocks rawPending).filter fun row => !row.pending

theorem confirmed_pending {blocks : List Block} {tx : WalletTx}
    (h : tx ∈ confirmed sha256Hex blocks) : tx.pending = false := by
  obtain ⟨b, _, hmem⟩ := List.mem_flatMap.mp h
  obtain ⟨raw, _, rfl⟩ := List.mem_map.mp hmem
  rfl

theorem pendingOnly_pending {seen : List WalletTx} {rawPending : List Bytes}
    {tx : WalletTx} (h : tx ∈ pendingOnly sha256Hex seen rawPending) :
    tx.pending = true := by
  obtain ⟨raw, _, rfl⟩ := List.mem_map.mp (List.mem_filter.mp h).1
  rfl

theorem confirmedRows_eq (viewer : IreAddr) (blocks : List Block)
    (rawPending : List Bytes) :
    confirmedRows fmt sha256Hex viewer.text blocks rawPending =
      ((confirmed sha256Hex blocks).filter
        fun tx => involves tx viewer.text).map (toRow fmt viewer.text) := by
  have hviewer : viewer.text ≠ [] ∧ isIreAddr viewer.text = true :=
    ⟨viewer.text_ne_nil, viewer.isIreAddr_text⟩
  have hnone : (((pendingOnly sha256Hex (confirmed sha256Hex blocks)
      rawPending).filter fun tx => involves tx viewer.text).map
        (toRow fmt viewer.text)).filter (fun row => !row.pending) = [] := by
    rw [List.filter_eq_nil_iff]
    intro row hrow
    obtain ⟨tx, htx, rfl⟩ := List.mem_map.mp hrow
    have hpending := pendingOnly_pending sha256Hex (List.mem_filter.mp htx).1
    simp [toRow, hpending]
  have hall : (((confirmed sha256Hex blocks).filter
      fun tx => involves tx viewer.text).map
        (toRow fmt viewer.text)).filter (fun row => !row.pending) =
      ((confirmed sha256Hex blocks).filter
        fun tx => involves tx viewer.text).map (toRow fmt viewer.text) := by
    rw [List.filter_eq_self]
    intro row hrow
    obtain ⟨tx, htx, rfl⟩ := List.mem_map.mp hrow
    have hpending := confirmed_pending sha256Hex (List.mem_filter.mp htx).1
    simp [toRow, hpending]
  rw [confirmedRows, rows, if_pos hviewer, List.filter_append,
    List.map_append, List.filter_append, hnone, hall, List.nil_append]

end Rows

/-! ## What the chain made of the transactions -/

/-- A transaction in a block, with its result code and the uire it brought. -/
structure ExecutedTx where
  raw : Bytes
  code : Nat
  credited : Text → Nat

structure ExecutedBlock where
  height : Nat
  time : Text
  txs : List ExecutedTx

def ExecutedBlock.toBlock (b : ExecutedBlock) : Block :=
  ⟨b.height, b.time, b.txs.map (·.raw)⟩

def listedTxs (viewer : Text) (blocks : List ExecutedBlock) :
    List ExecutedTx :=
  ((blocks.mergeSort fun a c => c.height ≤ a.height).flatMap (·.txs)).filter
    fun e => viewer ∈ extractAddrs (asciiFromBytes e.raw)

def Executed (viewer : Text) (e : ExecutedTx) (row : Row) : Prop :=
  row.kind = .receive →
    e.code = 0 ∧ e.credited viewer = digitsValue row.amount

/--
What a block must hold for its rows to be right: no failed transaction that
looks like a payment to the viewer, and in each other one that does the amount
that it brought, where the first number at a `uire` stands.
-/
structure ReadRight (viewer : Text) (e : ExecutedTx) : Prop where
  failed : e.code ≠ 0 → OtherAddr (asciiFromBytes e.raw) viewer →
    ShownOtherwise (asciiFromBytes e.raw)
  brought : e.code = 0 → OtherAddr (asciiFromBytes e.raw) viewer →
    ¬ ShownOtherwise (asciiFromBytes e.raw) →
    ∃ digits, AmountIs (asciiFromBytes e.raw) digits ∧
      e.credited viewer = digitsValue digits

section Executed

variable (fmt : NumberFormat) (sha256Hex : Bytes → Text)

theorem involves_decodeTx (raw : Bytes) (info : TxMeta) (viewer : IreAddr) :
    involves (decodeTx sha256Hex raw info) viewer.text =
      decide (viewer.text ∈ extractAddrs (asciiFromBytes raw)) := by
  have hviewer := viewer.text_ne_nil
  rw [Bool.eq_iff_iff, decide_eq_true_eq]
  cases haddrs : extractAddrs (asciiFromBytes raw) with
  | nil => simp [involves, decodeTx, haddrs, hviewer.symm]
  | cons first more =>
      cases more with
      | nil =>
          simp only [involves, decodeTx, haddrs]
          grind
      | cons second more =>
          simp only [involves, decodeTx, haddrs]
          grind

theorem confirmed_listed (viewer : IreAddr) (blocks : List ExecutedBlock) :
    List.Forall₂ (fun e tx => ∃ info, tx = decodeTx sha256Hex e.raw info)
      (listedTxs viewer.text blocks)
      ((confirmed sha256Hex (blocks.map (·.toBlock))).filter
        fun tx => involves tx viewer.text) := by
  have hsort : (blocks.map (·.toBlock)).mergeSort
        (fun a c => decide (c.height ≤ a.height)) =
      (blocks.mergeSort fun a c => decide (c.height ≤ a.height)).map
        (·.toBlock) := by
    rw [List.map_mergeSort]
    intros
    rfl
  rw [confirmed, hsort, listedTxs, List.flatMap_map]
  generalize blocks.mergeSort (fun a c => decide (c.height ≤ a.height)) = l
  induction l with
  | nil => exact List.Forall₂.nil
  | cons b l ih =>
      rw [List.flatMap_cons, List.flatMap_cons, List.filter_append,
        List.filter_append]
      refine List.rel_append ?_ ih
      rw [loadBlock, ExecutedBlock.toBlock, List.map_map, List.filter_map,
        List.forall₂_map_right_iff]
      have hsame : ((fun tx => involves tx viewer.text) ∘
          (fun raw => decodeTx sha256Hex raw
            ⟨some b.height, false, some b.time⟩) ∘ ExecutedTx.raw) =
          fun e => decide (viewer.text ∈ extractAddrs (asciiFromBytes e.raw)) :=
        funext fun e => involves_decodeTx sha256Hex e.raw _ viewer
      rw [hsame, List.forall₂_same]
      intro e _
      exact ⟨_, rfl⟩

theorem mem_listedTxs {viewer : Text} {blocks : List ExecutedBlock}
    {e : ExecutedTx} :
    e ∈ listedTxs viewer blocks ↔ (∃ b ∈ blocks, e ∈ b.txs) ∧
      viewer ∈ extractAddrs (asciiFromBytes e.raw) := by
  simp [listedTxs]

theorem forall₂_iff_of_forall₂ {α β : Type} {Q R : α → β → Prop}
    {S : α → Prop} {l : List α} {m : List β} (h : List.Forall₂ Q l m)
    (hiff : ∀ a b, Q a b → (R a b ↔ S a)) :
    List.Forall₂ R l m ↔ ∀ a ∈ l, S a := by
  induction h with
  | nil => simp
  | cons hab _ ih => simp [hiff _ _ hab, ih]

theorem executed_toRow_iff (viewer : IreAddr) (e : ExecutedTx)
    (info : TxMeta) :
    Executed viewer.text e
        (toRow fmt viewer.text (decodeTx sha256Hex e.raw info)) ↔
      ReadRight viewer.text e := by
  have hkind := kindFor_decodeTx_iff fmt sha256Hex e.raw info viewer
  rw [Executed, toRow, hkind]
  constructor
  · intro h
    refine ⟨fun hcode hother => ?_, fun _ hother hplain =>
      ⟨_, extractUireAmount_eq_iff.mp rfl, (h ⟨hplain, hother⟩).2⟩⟩
    by_contra hplain
    exact hcode (h ⟨hplain, hother⟩).1
  · rintro ⟨hfailed, hbrought⟩ ⟨hplain, hother⟩
    have hcode : e.code = 0 := by
      by_contra hcode
      exact hplain (hfailed hcode hother)
    obtain ⟨digits, hdigits, hcredited⟩ := hbrought hcode hother hplain
    have hamount : extractUireAmount (asciiFromBytes e.raw) = digits :=
      extractUireAmount_eq_iff.mpr hdigits
    exact ⟨hcode, hcredited.trans (congrArg digitsValue hamount.symm)⟩

/--
Every payment in the confirmed rows was made exactly if no failed transaction
looks like a payment to the viewer, and each other one that does has brought
what stands behind the first `uire`.
-/
theorem confirmed_receives_executed (viewer : IreAddr)
    (blocks : List ExecutedBlock) (rawPending : List Bytes) :
    List.Forall₂ (Executed viewer.text) (listedTxs viewer.text blocks)
        (confirmedRows fmt sha256Hex viewer.text (blocks.map (·.toBlock))
          rawPending) ↔
      ∀ b ∈ blocks, ∀ e ∈ b.txs, ReadRight viewer.text e := by
  have hlisted : List.Forall₂ (Executed viewer.text)
        (listedTxs viewer.text blocks)
        (confirmedRows fmt sha256Hex viewer.text (blocks.map (·.toBlock))
          rawPending) ↔
      ∀ e ∈ listedTxs viewer.text blocks, ReadRight viewer.text e := by
    rw [confirmedRows_eq, List.forall₂_map_right_iff]
    apply forall₂_iff_of_forall₂ (confirmed_listed sha256Hex viewer blocks)
    rintro e tx ⟨info, rfl⟩
    exact executed_toRow_iff fmt sha256Hex viewer e info
  rw [hlisted]
  constructor
  · intro h b hb e he
    by_cases hspelt : viewer.text ∈ extractAddrs (asciiFromBytes e.raw)
    · exact h e (mem_listedTxs.mpr ⟨⟨b, hb, he⟩, hspelt⟩)
    · have hnone : ¬ OtherAddr (asciiFromBytes e.raw) viewer.text := by
        intro hother
        obtain ⟨first, more, haddrs, _⟩ := extractAddrs_of_otherAddr hother
        rw [haddrs] at hspelt
        exact hspelt (List.mem_cons_of_mem _ List.mem_cons_self)
      exact ⟨fun _ hother => absurd hother hnone,
        fun _ hother => absurd hother hnone⟩
  · intro h e he
    obtain ⟨⟨b, hb, hmem⟩, _⟩ := mem_listedTxs.mp he
    exact h b hb e hmem

end Executed

/-! ## A payment that failed -/

def failedPayment : ExecutedTx :=
  ⟨(sendTx payment []).encode, 5, fun _ => 0⟩

def failedBlock : ExecutedBlock :=
  ⟨7, "2026-01-01T00:00:00Z".toList, [failedPayment]⟩

theorem failed_payment_confirmed :
    (confirmedRows literalFormat (fun _ => []) addrB.text
      [failedBlock.toBlock] []).map (fun row => (row.kind, row.amount)) =
        [(.receive, "1".toList)] ∧
    ¬ List.Forall₂ (Executed addrB.text) (listedTxs addrB.text [failedBlock])
      (confirmedRows literalFormat (fun _ => []) addrB.text
        [failedBlock.toBlock] []) := by
  have hrows : (confirmedRows literalFormat (fun _ => []) addrB.text
      [failedBlock.toBlock] []).map (fun row => (row.kind, row.amount)) =
        [(.receive, "1".toList)] := by decide +kernel
  refine ⟨hrows, ?_⟩
  intro h
  obtain ⟨row, hrow, hshown⟩ := List.map_eq_singleton_iff.mp hrows
  rw [hrow, List.forall₂_cons_right_iff] at h
  obtain ⟨e, _, hexecuted, _, hlisted⟩ := h
  have hmem : e ∈ listedTxs addrB.text [failedBlock] := by
    rw [hlisted]
    exact List.mem_cons_self
  obtain ⟨⟨b, hb, he⟩, _⟩ := mem_listedTxs.mp hmem
  rw [List.mem_singleton.mp hb] at he
  rw [List.mem_singleton.mp he] at hexecuted
  have hcode := (hexecuted (congrArg Prod.fst hshown)).1
  exact absurd hcode (by decide)

end IreBlockchain.Explorer.Wallet

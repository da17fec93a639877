import IreBlockchain.Explorer.BlockWindow

/-!
# The order in which blocks are listed

The last resolve of the scan wins.  Heights come newest first from
`/rpc/blockchain`, and in ascending order when that lists none.
-/

namespace IreBlockchain.Explorer

open IreBlockchain.Foundation

theorem heightsToLoad_newestFirst (window height : Nat) :
    heightsToLoad window height ((windowHeights window height).reverse.map some) =
      (heightsToLoad window height []).reverse := by
  have hunlisted : heightsToLoad window height [] =
      windowHeights window height := rfl
  have hmetas : ((windowHeights window height).reverse.map some).filterMap id =
      (windowHeights window height).reverse := by
    rw [List.filterMap_map]
    exact List.filterMap_some
  have hall : (windowHeights window height).reverse.filter
      (InWindow window height ·) = (windowHeights window height).reverse := by
    rw [List.filter_eq_self]
    intro h hmem
    exact decide_eq_true (mem_windowHeights_iff.mp (List.mem_reverse.mp hmem))
  have hnodup : (windowHeights window height).reverse.Nodup := by
    rw [List.nodup_reverse]
    exact List.nodup_range.map fun a b h => by simpa using h
  rw [hunlisted, heightsToLoad]
  simp only [hmetas, hall, distinct_of_nodup hnodup]
  split
  next hnil =>
    rw [List.reverse_eq_nil_iff] at hnil
    rw [hnil]
    rfl
  next => rfl

section Resolutions

variable {fmt : NumberFormat} (letters : CaseMapping)

def Resolve.label (r : Resolve) : JsString :=
  if r.w ∈ yesWords then toJsString "Yes".toList
  else if r.w ∈ noWords then toJsString "No".toList
  else r.w

def Market.resolution (mk : Market fmt) : Option (JsString × Bool) :=
  mk.resolve.map fun r => (r.label, r.pending)

def resolution (board : List (Market fmt)) (id : JsString) :
    Option (Option (JsString × Bool)) :=
  (board.find? fun mk => mk.id = id).map Market.resolution

def winnerText (ev : BetEvent fmt) : JsString :=
  (textOr fmt (ev.body.get "w".toList)).getD []

def Resolves (id : JsString) (ev : BetEvent fmt) : Prop :=
  ev.op = toJsString "resolve".toList ∧ ev.named = id ∧ winnerText ev ≠ []

instance (id : JsString) (ev : BetEvent fmt) : Decidable (Resolves id ev) :=
  inferInstanceAs (Decidable (_ ∧ _ ∧ _))

def BetEvent.resolve (ev : BetEvent fmt) : Resolve :=
  ⟨letters.toLowerCase (winnerText ev), ev.id, ev.pending, ev.height⟩

def lastResolve (events : List (BetEvent fmt)) (id : JsString) :
    Option (BetEvent fmt) :=
  (events.filter fun ev => Resolves id ev).getLast?

theorem lastResolve_append (before after : List (BetEvent fmt))
    (id : JsString) : lastResolve (before ++ after) id =
      (lastResolve after id).or (lastResolve before id) := by
  rw [lastResolve, List.filter_append, List.getLast?_append]
  rfl

theorem lastResolve_singleton (ev : BetEvent fmt) (id : JsString) :
    lastResolve [ev] id = if Resolves id ev then some ev else none := by
  rw [lastResolve]
  split
  next h => simp [h]
  next h => simp [h]

theorem lastResolve_flatMap {α : Type} (blocks : List α)
    (load : α → List (BetEvent fmt)) (id : JsString) :
    lastResolve (blocks.flatMap load) id =
      blocks.reverse.findSome? fun b => lastResolve (load b) id := by
  rw [lastResolve, List.filter_flatMap, List.getLast?_flatMap]
  rfl

theorem lastResolve_eq_some {events : List (BetEvent fmt)} {id : JsString}
    {ev : BetEvent fmt} (h : lastResolve events id = some ev) :
    ev ∈ events ∧ Resolves id ev := by
  have hmem := List.mem_of_getLast? h
  rw [List.mem_filter] at hmem
  exact ⟨hmem.1, of_decide_eq_true hmem.2⟩

/-! ## What the second pass leaves -/

variable {letters}

theorem Recorded.resolve_eq {mk mk' : Market fmt} {ev : BetEvent fmt}
    {id : JsString} (h : Recorded letters mk ev mk') (hnamed : ev.named = id) :
    mk'.resolve =
      ((lastResolve [ev] id).map (·.resolve letters)).or mk.resolve := by
  rw [lastResolve_singleton]
  have hskip (hop : ev.op ≠ toJsString "resolve".toList) :
      ¬ Resolves id ev := fun hr => hop hr.1
  have hnil (text : JsString) : letters.toLowerCase text = [] ↔ text = [] := by
    rw [letters.toLowerCase_eq_iff text [] (by simp), List.map_eq_nil_iff]
  cases h with
  | buy hop =>
      rw [if_neg (hskip (ne_of_eq_of_ne hop ops_ne.1)), pledge_resolve]
      rfl
  | @resolve text hop htext hw =>
      have htextOf : winnerText ev = text := by
        rw [winnerText, htext, Option.getD_some]
      rw [if_pos ⟨hop, hnamed, htextOf ▸ mt (hnil text).mpr hw⟩,
        Option.map_some, BetEvent.resolve, htextOf]
      rfl
  | @unresolved text hop htext hw =>
      have htextOf : winnerText ev = text := by
        rw [winnerText, htext, Option.getD_some]
      rw [if_neg (fun hr => hr.2.2 (htextOf ▸ (hnil text).mp hw))]
      rfl
  | analyze hop =>
      rw [if_neg (hskip (ne_of_eq_of_ne hop ops_ne.2.2.symm))]
      rfl
  | other _ hresolve =>
      rw [if_neg (hskip hresolve)]
      rfl

theorem recordAll_resolve {events : List (BetEvent fmt)}
    {mk mk' : Market fmt} (h : mk.recordAll letters events = some mk') :
    mk'.resolve =
      ((lastResolve events mk.id).map (·.resolve letters)).or mk.resolve := by
  rw [Market.recordAll] at h
  generalize mk.id = id at h ⊢
  induction events generalizing mk with
  | nil =>
      cases h
      rfl
  | cons ev events ih =>
      rw [← List.singleton_append, lastResolve_append]
      by_cases hnamed : ev.named = id
      · rw [List.filter_cons_of_pos (by simp [hnamed]), List.foldlM_cons] at h
        obtain ⟨mid, hmid, hrest⟩ := Option.bind_eq_some_iff.mp h
        rw [ih hrest, (recorded_of_record hmid).resolve_eq hnamed,
          Option.map_or, Option.or_assoc]
      · rw [List.filter_cons_of_neg (by simp [hnamed])] at h
        rw [ih h, lastResolve_singleton, if_neg (fun hr => hnamed hr.2.1),
          Option.or_none]

theorem resolve_of_mem {events : List (BetEvent fmt)}
    {board : List (Market fmt)} (h : reconstruct letters events = some board)
    {mk : Market fmt} (hmem : mk ∈ board) :
    mk.resolve = (lastResolve events mk.id).map (·.resolve letters) := by
  obtain ⟨ev, o, done, _, _, hrecord, rfl⟩ := (mem_reconstruct h).mp hmem
  have hid : done.id = (ev.market o).id := recordAll_id hrecord
  have hresolve := recordAll_resolve hrecord
  rw [← hid] at hresolve
  exact hresolve.trans (Option.or_none)

theorem resolution_eq {events : List (BetEvent fmt)}
    {board : List (Market fmt)} (h : reconstruct letters events = some board)
    (id : JsString) :
    (OpenedIn events id → resolution board id =
      some ((lastResolve events id).map fun ev =>
        ((ev.resolve letters).label, ev.pending))) ∧
    (¬ OpenedIn events id → resolution board id = none) := by
  constructor
  · intro hid
    obtain ⟨mk, hmem, hmk, hfind⟩ := find_shown h hid
    rw [resolution, hfind, Option.map_some, Market.resolution,
      resolve_of_mem h hmem, hmk, Option.map_map]
    rfl
  · intro hid
    rw [resolution, find_unopened h hid]
    rfl

/-! ## The two orders -/

/-- A confirmed resolve is not replaced by one of the mempool alone. -/
def ConfirmedKept (confirmed : List (BetEvent fmt)) (mk : Market fmt) : Prop :=
  ∀ r, mk.resolve = some r → r.pending = true →
    (∃ ev ∈ confirmed, Resolves mk.id ev) → ∃ ev ∈ confirmed, ev.id = r.id

/--
The lowest and the highest block that resolve a market agree on the winner, and
the mempool resolves none of those that a block does.
-/
structure ResolvesAgree (letters : CaseMapping)
    (load : Block → List (BetEvent fmt)) (blocks : List Block)
    (pending : List (BetEvent fmt)) : Prop where
  agree : ∀ id, OpenedIn (blocks.flatMap load ++ pending) id →
    lastResolve pending id = none →
      (blocks.findSome? fun b => lastResolve (load b) id).map
          (fun ev => (ev.resolve letters).label) =
        (blocks.reverse.findSome? fun b => lastResolve (load b) id).map
          fun ev => (ev.resolve letters).label
  kept : ∀ id, OpenedIn (blocks.flatMap load ++ pending) id →
    ∀ last, lastResolve pending id = some last →
      (∃ ev ∈ blocks.flatMap load, Resolves id ev) →
        ∃ ev ∈ blocks.flatMap load, ev.id = last.id

theorem perm_reverse_flatMap {α β : Type} (blocks : List α)
    (load : α → List β) :
    (blocks.reverse.flatMap load).Perm (blocks.flatMap load) :=
  (List.reverse_perm blocks).flatMap_right load

theorem confirmedKept_iff {confirmed pending : List (BetEvent fmt)}
    (hconfirmed : ∀ ev ∈ confirmed, ev.pending = false)
    (hpending : ∀ ev ∈ pending, ev.pending = true) {board : List (Market fmt)}
    (h : reconstruct letters (confirmed ++ pending) = some board) :
    (∀ mk ∈ board, ConfirmedKept confirmed mk) ↔
      ∀ id, OpenedIn (confirmed ++ pending) id →
        ∀ last, lastResolve pending id = some last →
          (∃ ev ∈ confirmed, Resolves id ev) →
            ∃ ev ∈ confirmed, ev.id = last.id := by
  constructor
  · intro hkept id hid last hlast hresolved
    obtain ⟨mk, hmem, rfl⟩ := exists_shown h hid
    have hresolve : mk.resolve = some (last.resolve letters) := by
      rw [resolve_of_mem h hmem, lastResolve_append, hlast]
      rfl
    exact hkept mk hmem _ hresolve
      (hpending last (lastResolve_eq_some hlast).1) hresolved
  · intro hids mk hmem r hr hrPending hresolved
    rw [resolve_of_mem h hmem, lastResolve_append] at hr
    cases hlast : lastResolve pending mk.id with
    | some last =>
        rw [hlast, Option.some_or, Option.map_some, Option.some.injEq] at hr
        rw [← hr]
        exact hids mk.id (openedIn_of_mem h hmem) last hlast hresolved
    | none =>
        rw [hlast, Option.none_or] at hr
        obtain ⟨ev, hev, rfl⟩ := Option.map_eq_some_iff.mp hr
        have hfalse := hconfirmed ev (lastResolve_eq_some hev).1
        have htrue : ev.pending = true := hrPending
        rw [hfalse] at htrue
        cases htrue

theorem resolution_eq_iff {one other pending : List (BetEvent fmt)}
    (hone : ∀ ev ∈ one, ev.pending = false)
    (hother : ∀ ev ∈ other, ev.pending = false)
    {board board' : List (Market fmt)}
    (h : reconstruct letters (one ++ pending) = some board)
    (h' : reconstruct letters (other ++ pending) = some board')
    {id : JsString} (hid : OpenedIn (one ++ pending) id)
    (hid' : OpenedIn (other ++ pending) id) :
    resolution board id = resolution board' id ↔
      (lastResolve pending id = none →
        (lastResolve one id).map (fun ev => (ev.resolve letters).label) =
          (lastResolve other id).map fun ev => (ev.resolve letters).label) := by
  rw [(resolution_eq h id).1 hid, (resolution_eq h' id).1 hid',
    lastResolve_append, lastResolve_append]
  have hshown {events : List (BetEvent fmt)}
      (hevents : ∀ ev ∈ events, ev.pending = false) :
      (lastResolve events id).map
          (fun ev => ((ev.resolve letters).label, ev.pending)) =
        ((lastResolve events id).map fun ev =>
          (ev.resolve letters).label).map (·, false) := by
    cases hlast : lastResolve events id with
    | none => rfl
    | some ev =>
        rw [Option.map_some, Option.map_some, Option.map_some,
          hevents ev (lastResolve_eq_some hlast).1]
  cases lastResolve pending id with
  | some last => simp
  | none =>
      rw [Option.none_or, Option.none_or, hshown hone, hshown hother,
        Option.some.injEq]
      have hinj : Function.Injective fun label : JsString => (label, false) :=
        fun _ _ heq => congrArg Prod.fst heq
      rw [(Option.map_injective hinj).eq_iff]
      simp

/--
The board shows the same resolutions whether the blocks are listed upwards or
downwards, and no resolve of the mempool alone in place of a confirmed one,
exactly if the blocks agree on the winners and the mempool leaves them alone.
-/
theorem tick_order_free (fmt : NumberFormat) (letters : CaseMapping)
    (sha256Hex : Bytes → Text) (blocks : List Block)
    (rawPending : List Bytes) :
    ((∀ id, resolution (tick fmt letters sha256Hex blocks rawPending) id =
        resolution (tick fmt letters sha256Hex blocks.reverse rawPending) id) ∧
      (∀ mk ∈ tick fmt letters sha256Hex blocks rawPending,
        ConfirmedKept (scannedEvents fmt sha256Hex blocks) mk) ∧
      ∀ mk ∈ tick fmt letters sha256Hex blocks.reverse rawPending,
        ConfirmedKept (scannedEvents fmt sha256Hex blocks.reverse) mk) ↔
    (Coercible (tickEvents fmt sha256Hex blocks rawPending) →
      ResolvesAgree letters (loadBlock fmt sha256Hex) blocks
        (mempoolEvents fmt sha256Hex rawPending)) := by
  have hup := scannedEvents_pending fmt sha256Hex blocks
  have hdown := scannedEvents_pending fmt sha256Hex blocks.reverse
  have hmempool := mempoolEvents_pending fmt sha256Hex rawPending
  have hperm := perm_reverse_flatMap blocks (loadBlock fmt sha256Hex)
  simp only [tick, tickEvents, scannedEvents] at hup hdown ⊢
  generalize mempoolEvents fmt sha256Hex rawPending = pending at hmempool ⊢
  generalize loadBlock fmt sha256Hex = load at hup hdown hperm ⊢
  have hall := hperm.append_right pending
  by_cases hcoercible : Coercible (blocks.flatMap load ++ pending)
  · obtain ⟨board, hboard⟩ : ∃ board, reconstruct letters
        (blocks.flatMap load ++ pending) = some board :=
      reconstruct_isSome_iff.mpr hcoercible
    obtain ⟨board', hboard'⟩ : ∃ board, reconstruct letters
        (blocks.reverse.flatMap load ++ pending) = some board :=
      reconstruct_isSome_iff.mpr ((coercible_perm hall).mpr hcoercible)
    rw [hboard, hboard', Option.getD_some, Option.getD_some,
      confirmedKept_iff hup hmempool hboard]
    have hkept : (∀ mk ∈ board',
        ConfirmedKept (blocks.reverse.flatMap load) mk) ↔ _ :=
      confirmedKept_iff hdown hmempool hboard'
    simp only [hperm.mem_iff, openedIn_perm hall] at hkept
    rw [hkept, and_self]
    have hagree : ∀ id, OpenedIn (blocks.flatMap load ++ pending) id →
        (resolution board id = resolution board' id ↔ _) := fun id hid =>
      resolution_eq_iff hup hdown hboard hboard' hid
        ((openedIn_perm hall id).mpr hid)
    simp only [lastResolve_flatMap, List.reverse_reverse] at hagree
    constructor
    · rintro ⟨hsame, hids⟩ _
      exact ⟨fun id hid hnone => ((hagree id hid).mp (hsame id) hnone).symm,
        hids⟩
    · intro h
      obtain ⟨hwinners, hids⟩ := h hcoercible
      refine ⟨?_, hids⟩
      intro id
      by_cases hid : OpenedIn (blocks.flatMap load ++ pending) id
      · exact (hagree id hid).mpr fun hnone => (hwinners id hid hnone).symm
      · rw [(resolution_eq hboard id).2 hid,
          (resolution_eq hboard' id).2 (mt (openedIn_perm hall id).mp hid)]
  · rw [reconstruct_eq_none hcoercible,
      reconstruct_eq_none (mt (coercible_perm hall).mp hcoercible)]
    refine iff_of_true ⟨fun _ => rfl, ?_, ?_⟩ (fun h => absurd h hcoercible)
    · intro mk hmem
      cases hmem
    · intro mk hmem
      cases hmem

end Resolutions

/-! ## Two resolves of a market -/

def rainYesTx : Bytes := rainBet "resolve" [textMember "w" "y"]

def rainNoTx : Bytes := rainBet "resolve" [textMember "w" "n"]

def resolveSha (bytes : Bytes) : Text :=
  if bytes = rainTx.encode then rainSha.toList
  else if bytes = rainYesTx then
    "a298dd7a0d0f63727c5f89d3c32e31557cef097260398475fc3e29379c8bd781".toList
  else
    "1eba00f92c57699bea9d62949b8c47433ce235a96b2b7684800705049af350f7".toList

def resolvedBlocks : List Block :=
  [⟨7, [rainTx.encode]⟩, ⟨8, [rainYesTx]⟩, ⟨9, [rainNoTx]⟩]

theorem tick_order_matters :
    resolution (tick literalFormat asciiLetters resolveSha resolvedBlocks [])
        (toJsString (rainSha ++ "i0").toList) =
      some (some (toJsString "No".toList, false)) ∧
    resolution (tick literalFormat asciiLetters resolveSha
        resolvedBlocks.reverse []) (toJsString (rainSha ++ "i0").toList) =
      some (some (toJsString "Yes".toList, false)) ∧
    resolution (tick literalFormat asciiLetters resolveSha
        (resolvedBlocks.take 2) [rainNoTx])
        (toJsString (rainSha ++ "i0").toList) =
      some (some (toJsString "No".toList, true)) := by
  refine ⟨?_, ?_, ?_⟩
  · decide +kernel
  · decide +kernel
  · decide +kernel

end IreBlockchain.Explorer

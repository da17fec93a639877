import IreBlockchain.Explorer.Commands
import IreBlockchain.Explorer.MarketsTick
import IreBlockchain.Foundation.ByteTexts

/-!
# The commands of the markets page

The commands that a card of the board offers.  A buy that is copied from a card
and run in a shell puts a memo on the chain that the page counts, on the side
that was offered, for the market of the card and for no other.
-/

namespace IreBlockchain.Explorer

open IreBlockchain.Foundation
open IreBlockchain.Foundation.Shell

/-! ## Commands -/

section Offers

variable (fmt : NumberFormat)

def memoFor (obj : Json fmt.Number) : Text :=
  "IREINSCRIBE1 application/json ".toList ++ obj.stringify fmt

def cliSend (amount memo : Text) : Text :=
  join ['\n']
    ["ired tx bank send <from> <from> ".toList ++ amount ++ "uire \\".toList,
      "  --chain-id ire-1 \\".toList,
      "  --from <key> \\".toList,
      "  --gas-prices 0.001uire \\".toList,
      "  --memo '".toList ++ memo ++ "' \\".toList,
      "  --home \"$HOME/.ire\" \\".toList,
      "  --yes".toList]

def betObject (op : String) (members : List (JsString × Json fmt.Number)) :
    Json fmt.Number :=
  .object (member fmt "p" (constant fmt "ire-bet") ::
    member fmt "op" (constant fmt op) :: members)

def buyObject (id : JsString) (side : String) : Json fmt.Number :=
  betObject fmt "buy" [member fmt "m" (.string id),
    member fmt "s" (constant fmt side), member fmt "a" (constant fmt "1000000")]

def resolveObject (id : JsString) (w : String) : Json fmt.Number :=
  betObject fmt "resolve" [member fmt "m" (.string id),
    member fmt "w" (constant fmt w)]

def analyzeObject (id : JsString) : Json fmt.Number :=
  betObject fmt "analyze" [member fmt "m" (.string id),
    member fmt "y" (.number (fmt.ofText "65".toList)),
    member fmt "n" (.number (fmt.ofText "35".toList)),
    member fmt "note" (constant fmt "brief")]

def buyCli (id : JsString) (side : String) : Text :=
  cliSend "1000000".toList (memoFor fmt (buyObject fmt id side))

def resolveCli (id : JsString) (w : String) : Text :=
  cliSend "1".toList (memoFor fmt (resolveObject fmt id w))

def analyzeCli (id : JsString) : Text :=
  cliSend "1".toList (memoFor fmt (analyzeObject fmt id))

end Offers

def sha256Hex (digest : Bytes → Bytes) (bytes : Bytes) : Text :=
  hexText (digest bytes)

/-! ## What the shell reads -/

def sendBefore (amount : Text) : List Token :=
  [plain "ired", plain "tx", plain "bank", plain "send", redirect '<',
    plain "from", redirect '>', redirect '<', plain "from", redirect '>',
    .word (quoted .bare (amount ++ "uire".toList)), plain "--chain-id",
    plain "ire-1", plain "--from", redirect '<', plain "key", redirect '>',
    plain "--gas-prices", plain "0.001uire", plain "--memo"]

def sendMiddle : Text :=
  join ['\n']
    ["\\".toList, "  --chain-id ire-1 \\".toList, "  --from <key> \\".toList,
      "  --gas-prices 0.001uire \\".toList, "  --memo ".toList]

theorem cliSend_eq (amount memo : Text) :
    cliSend amount memo =
      "ired tx bank send <from> <from> ".toList ++
        ((amount ++ "uire".toList) ++ ' ' ::
          (sendMiddle ++ '\'' :: (memo ++ '\'' :: ' ' :: createTail))) := by
  have hlines (front back b c d front' back' e f : Text) :
      join ['\n'] [front ++ amount ++ back, b, c, d, front' ++ memo ++ back',
          e, f] =
        front ++ (amount ++ (join ['\n'] [back, b, c, d, front'] ++
          (memo ++ join ['\n'] [back', e, f]))) := by
    simp [join, List.intercalate]
  have hmiddle : join ['\n'] ["uire \\".toList, "  --chain-id ire-1 \\".toList,
      "  --from <key> \\".toList, "  --gas-prices 0.001uire \\".toList,
      "  --memo '".toList] = "uire".toList ++ ' ' :: (sendMiddle ++ ['\'']) := by
    decide
  have htail : join ['\n'] ["' \\".toList, "  --home \"$HOME/.ire\" \\".toList,
      "  --yes".toList] = '\'' :: ' ' :: createTail := by decide
  rw [cliSend, hlines, hmiddle, htail]
  simp

theorem trim_cliSend (amount memo : Text) :
    trim (cliSend amount memo) = cliSend amount memo := by
  obtain ⟨start, hstart⟩ : ∃ start,
      "ired tx bank send <from> <from> ".toList = 'i' :: start := by
    exact ⟨_, rfl⟩
  have htail : createTail = createTail.dropLast ++ ['s'] := by decide
  have hends : cliSend amount memo = 'i' :: (start ++
      ((amount ++ "uire".toList) ++ ' ' :: (sendMiddle ++ '\'' ::
        (memo ++ '\'' :: ' ' :: createTail.dropLast))) ++ ['s']) := by
    rw [cliSend_eq, hstart, htail]
    simp
  rw [hends]
  exact trim_of_ends (by decide) (by decide) _

theorem tokens_cliSend {amount memo : Text}
    (hamount : ∀ c ∈ amount, isOrdinary c = true) (hmemo : '\'' ∉ memo) :
    tokens (cliSend amount memo) = some (sendBefore amount ++
      .word (quoted .single memo) :: createAfter) := by
  have hstart : feed .blank "ired tx bank send <from> <from> ".toList =
      some ([plain "ired", plain "tx", plain "bank", plain "send",
        redirect '<', plain "from", redirect '>', redirect '<', plain "from",
        redirect '>'], .blank) := by decide
  have hmiddle : feed .blank sendMiddle =
      some ([plain "--chain-id", plain "ire-1", plain "--from", redirect '<',
        plain "key", redirect '>', plain "--gas-prices", plain "0.001uire",
        plain "--memo"], .blank) := by decide
  have htail : tokens createTail = some createAfter := by decide
  have hword : ∀ c ∈ amount ++ "uire".toList, isOrdinary c = true := by
    intro c hc
    cases List.mem_append.mp hc with
    | inl hc => exact hamount c hc
    | inr hc =>
        have hunit : "uire".toList.all isOrdinary = true := by decide
        exact List.all_eq_true.mp hunit c hc
  have hne : amount ++ "uire".toList ≠ [] :=
    List.append_ne_nil_of_right_ne_nil _ (by decide)
  rw [cliSend_eq]
  exact tokens_word hstart hne hword (tokens_singleQuoted hmiddle hmemo htail)

/-! ## Ids in JSON -/

/-- Printable characters that JSON writes as they are. -/
def IsBare (c : Char) : Prop := isPrintable c = true ∧ c ≠ '"' ∧ c ≠ '\\'

theorem quoteUnit_codeUnit {c : Char} (h : IsBare c) :
    codeUnits c = [UInt16.ofNat c.toNat] ∧
      isHighSurrogate (UInt16.ofNat c.toNat) = false ∧
      quoteUnit (UInt16.ofNat c.toNat) = [c] := by
  obtain ⟨hprint, hquote, hslash⟩ := h
  simp only [isPrintable, Bool.and_eq_true, decide_eq_true_eq] at hprint
  have hval : (UInt16.ofNat c.toNat).toNat = c.toNat := by
    rw [UInt16.toNat_ofNat']
    omega
  have hne {d : Char} (hd : c ≠ d) : c.toNat ≠ d.toNat :=
    fun heq => hd (Char.toNat_inj.mp heq)
  have hq : c.toNat ≠ 0x22 := hne hquote
  have hs : c.toNat ≠ 0x5c := hne hslash
  have hhigh : isHighSurrogate (UInt16.ofNat c.toNat) = false := by
    simp only [isHighSurrogate, hval, Bool.and_eq_false_iff,
      decide_eq_false_iff_not]
    omega
  have hlow : isLowSurrogate (UInt16.ofNat c.toNat) = false := by
    simp only [isLowSurrogate, hval, Bool.and_eq_false_iff,
      decide_eq_false_iff_not]
    omega
  refine ⟨if_pos (by omega), hhigh, ?_⟩
  have hshort : shortEscape (UInt16.ofNat c.toNat).toNat = none := by
    unfold shortEscape
    rw [hval]
    repeat rw [if_neg (by omega)]
  have hchar : Char.ofNat c.toNat = c := Char.ofNat_toNat c
  rw [quoteUnit, hshort]
  dsimp only
  rw [hhigh, hlow, hval, if_neg (by simp; omega), hchar]

theorem quote_toJsString {text : Text} (h : ∀ c ∈ text, IsBare c) :
    quote (toJsString text) = '"' :: text ++ ['"'] := by
  have hunits : quoteUnits (toJsString text) = text := by
    induction text with
    | nil => rfl
    | cons c text ih =>
        obtain ⟨hunit, hhigh, hquote⟩ :=
          quoteUnit_codeUnit (h c List.mem_cons_self)
        have hrest := ih fun d hd => h d (List.mem_cons_of_mem c hd)
        rw [toJsString, List.flatMap_cons, hunit, ← toJsString]
        cases htext : toJsString text with
        | nil =>
            rw [htext] at hrest
            simp only [List.singleton_append, quoteUnits, hquote, ← hrest]
        | cons v rest =>
            rw [htext] at hrest
            simp only [List.singleton_append, quoteUnits, hhigh,
              Bool.false_and, Bool.false_eq_true, if_false, hquote, hrest]
  rw [quote, hunits]

theorem isBare_of_isAddrChar {c : Char} (h : isAddrChar c = true) :
    IsBare c := by
  refine ⟨isPrintable_of_isAddrChar h, ?_, ?_⟩
  · rintro rfl
    exact absurd h (by decide)
  · rintro rfl
    exact absurd h (by decide)

def idText (digest : Bytes) : Text := hexText digest ++ "i0".toList

theorem isAddrChar_of_mem_idText {digest : Bytes} {c : Char}
    (h : c ∈ idText digest) : isAddrChar c = true := by
  have hdigit : ∀ d < 16, isAddrChar (Nat.digitChar d) = true := by decide
  cases List.mem_append.mp h with
  | inl h =>
      obtain ⟨b, -, hc⟩ := List.mem_flatMap.mp h
      have hb := b.toNat_lt
      simp only [List.mem_cons, List.not_mem_nil, or_false] at hc
      rcases hc with rfl | rfl
      · exact hdigit _ (by omega)
      · exact hdigit _ (by omega)
  | inr h =>
      have hend : "i0".toList.all isAddrChar = true := by decide
      exact List.all_eq_true.mp hend c h

theorem quote_idText (digest : Bytes) :
    quote (toJsString (idText digest)) = '"' :: idText digest ++ ['"'] :=
  quote_toJsString fun _ hc =>
    isBare_of_isAddrChar (isAddrChar_of_mem_idText hc)

theorem plain_id (digest : Bytes) : Plain (toJsString (idText digest)) := by
  have hmark : isPrintable '"' = true := by decide
  intro c hc
  rw [quote_idText] at hc
  simp only [List.cons_append, List.mem_cons, List.mem_append,
    List.not_mem_nil, or_false] at hc
  rcases hc with rfl | hc | rfl
  · exact hmark
  · exact isPrintable_of_isAddrChar (isAddrChar_of_mem_idText hc)
  · exact hmark

theorem trimString_of_no_space {s : JsString}
    (h : ∀ u ∈ s, isSpaceUnit u = false) : trimString s = s := by
  have hfront : s.dropWhile isSpaceUnit = s := by
    cases s with
    | nil => rfl
    | cons u s =>
        exact List.dropWhile_cons_of_neg (by simp [h u List.mem_cons_self])
  have hback : s.rdropWhile isSpaceUnit = s := by
    rw [List.rdropWhile_eq_self_iff]
    intro hne
    simp [h _ (List.getLast_mem hne)]
  rw [trimString, hfront, hback]

theorem trimString_id (digest : Bytes) :
    trimString (toJsString (idText digest)) = toJsString (idText digest) := by
  apply trimString_of_no_space
  intro u hu
  obtain ⟨c, hc, hu⟩ := List.mem_flatMap.mp hu
  have haddr := isAddrChar_of_mem_idText hc
  have hbounds := isAddrChar_iff.mp haddr
  rw [(quoteUnit_codeUnit (isBare_of_isAddrChar haddr)).1,
    List.mem_singleton] at hu
  have hval : (UInt16.ofNat c.toNat).toNat = c.toNat := by
    rw [UInt16.toNat_ofNat']
    omega
  rw [hu, isSpaceUnit, hval, Char.ofNat_toNat]
  simp only [isSpace, Bool.or_eq_false_iff, Bool.and_eq_false_iff,
    decide_eq_false_iff_not]
  omega

/-! ## The object of a buy -/

section Buys

variable {fmt : NumberFormat} (digest : Bytes)

theorem apostrophe_not_mem_id : 0x27 ∉ toJsString (idText digest) := by
  intro hmem
  obtain ⟨c, hc, hu⟩ := List.mem_flatMap.mp hmem
  have haddr := isAddrChar_of_mem_idText hc
  have hbounds := isAddrChar_iff.mp haddr
  rw [(quoteUnit_codeUnit (isBare_of_isAddrChar haddr)).1,
    List.mem_singleton] at hu
  have hval := congrArg UInt16.toNat hu
  rw [UInt16.toNat_ofNat'] at hval
  have hquote : (0x27 : UInt16).toNat = 39 := rfl
  omega

/-- The sides that a card offers. -/
def offeredSides : List String := ["y", "n"]

theorem wellFormed_buyObject (id : JsString) (side : String) :
    (buyObject fmt id side).WellFormed fmt := by
  have hkeys : [toJsString "p".toList, toJsString "op".toList,
      toJsString "m".toList, toJsString "s".toList,
      toJsString "a".toList].Nodup := by decide
  exact ⟨hkeys, trivial, trivial, trivial, trivial, trivial, trivial⟩

theorem isIreBet_buyObject (id : JsString) (side : String) :
    IsIreBet (buyObject fmt id side) := by
  exact ⟨rfl, _, rfl⟩

theorem plain_buyObject {side : String} (hside : side ∈ offeredSides) :
    PlainValue (buyObject fmt (toJsString (idText digest)) side) := by
  have hword : Plain (toJsString side.toList) := by
    simp only [offeredSides, List.mem_cons, List.not_mem_nil, or_false] at hside
    rcases hside with rfl | rfl <;> decide
  rw [buyObject, betObject, plainValue_object]
  simp only [List.forall_mem_cons, List.not_mem_nil, false_implies,
    implies_true, and_true, member]
  exact ⟨⟨by decide, plainValue_constant (by decide)⟩,
    ⟨by decide, plainValue_constant (by decide)⟩,
    ⟨by decide, plainValue_string.mpr (plain_id digest)⟩,
    ⟨by decide, plainValue_constant hword⟩,
    by decide, plainValue_constant (by decide)⟩

theorem apostrophe_not_mem_memoFor {side : String}
    (hside : side ∈ offeredSides) :
    '\'' ∉ memoFor fmt (buyObject fmt (toJsString (idText digest)) side) := by
  have hword : 0x27 ∉ toJsString side.toList := by
    simp only [offeredSides, List.mem_cons, List.not_mem_nil, or_false] at hside
    rcases hside with rfl | rfl <;> decide
  have hfront : '\'' ∉ "IREINSCRIBE1 application/json ".toList := by
    decide
  have hobject : '\'' ∉
      (buyObject fmt (toJsString (idText digest)) side).stringify fmt := by
    apply apostrophe_not_mem_object
    simp only [List.forall_mem_cons, List.not_mem_nil, false_implies,
      implies_true, and_true, member]
    exact ⟨⟨by decide, unquoted_string (by decide)⟩,
      ⟨by decide, unquoted_string (by decide)⟩,
      ⟨by decide, unquoted_string (apostrophe_not_mem_id digest)⟩,
      ⟨by decide, unquoted_string hword⟩,
      by decide, unquoted_string (by decide)⟩
  intro hmem
  cases List.mem_append.mp hmem with
  | inl h => exact hfront h
  | inr h => exact hobject h

def bought (side : String) (pending : Bool) : Totals where
  yes := if side = "y" then 1000000 else 0
  no := if side = "y" then 0 else 1000000
  buys := 1
  pendingYes := if pending ∧ side = "y" then 1000000 else 0
  pendingNo := if pending ∧ side ≠ "y" then 1000000 else 0
  pendingBuys := if pending then 1 else 0

structure IsBuy (ev : BetEvent fmt) (side : String) : Prop where
  op : ev.op = toJsString "buy".toList
  body : ev.body = buyObject fmt (toJsString (idText digest)) side

variable {digest} {ev : BetEvent fmt} {side : String}

theorem IsBuy.named (h : IsBuy digest ev side) :
    ev.named = toJsString (idText digest) := by
  rw [BetEvent.named, h.body]
  exact trimString_id digest

theorem IsBuy.tally (h : IsBuy digest ev side) (hside : side ∈ offeredSides)
    (id : JsString) :
    tally [ev] id = if id = toJsString (idText digest) then
      bought side ev.pending else 0 := by
  have hamount : amountOf ev = 1000000 := by
    rw [amountOf, h.body]
    have hdigits : @parseAmount fmt
        (some (.string (toJsString "1000000".toList))) = some 1000000 := by
      have hstring : stringOf fmt (.string (toJsString "1000000".toList)) =
          some (toJsString "1000000".toList) := rfl
      rw [parseAmount, hstring, Option.map_some]
      · decide
      · intro h
        cases h
    exact congrArg (Option.getD · 0) hdigits
  have hsideOf : sideOf ev = toJsString side.toList := by
    rw [sideOf, h.body]
    simp only [offeredSides, List.mem_cons, List.not_mem_nil, or_false] at hside
    rcases hside with rfl | rfl <;> rfl
  split
  next hid =>
    have hbacks (words : List JsString) :
        Backs words id ev ↔ toJsString side.toList ∈ words := by
      simp [Backs, h.op, h.named, hid, hsideOf]
    have hpledges : Pledges id ev := by
      refine ⟨(hbacks _).mpr ?_, by omega⟩
      simp only [offeredSides, List.mem_cons, List.not_mem_nil, or_false]
        at hside
      rcases hside with rfl | rfl <;> decide
    simp only [offeredSides, List.mem_cons, List.not_mem_nil, or_false] at hside
    rcases hside with rfl | rfl
    · have hyes : Backs yesWords id ev := (hbacks _).mpr (by decide)
      have hno : ¬ Backs noWords id ev := mt (hbacks _).mp (by decide)
      cases hpending : ev.pending <;>
        simp [Explorer.tally, pendingOnly, pledged, pledges, hpending, hyes,
          hno, hpledges, hamount, bought]
    · have hyes : ¬ Backs yesWords id ev := mt (hbacks _).mp (by decide)
      have hno : Backs noWords id ev := (hbacks _).mpr (by decide)
      cases hpending : ev.pending <;>
        simp [Explorer.tally, pendingOnly, pledged, pledges, hpending, hyes,
          hno, hpledges, hamount, bought]
  next hid =>
    apply tally_of_not_pledges
    intro hpledges
    exact hid (hpledges.1.2.1.symm.trans h.named)

theorem IsBuy.not_opens (h : IsBuy digest ev side) : ¬ Opens ev := by
  intro hopens
  have hop : toJsString "buy".toList = toJsString "open".toList :=
    h.op.symm.trans hopens.1
  exact absurd hop (by decide)

theorem IsBuy.not_recordBroken (h : IsBuy digest ev side) :
    ¬ RecordBroken ev := by
  have hstring (s : JsString) :
      ¬ Broken (some (.string s : Json fmt.Number)) := by
    rw [broken_some_iff]
    simp [stringOf]
  obtain ⟨hresolve, hanalyze, -⟩ := ops_ne
  unfold RecordBroken
  rw [h.op, h.body]
  simp only [hresolve, hanalyze, false_and, or_false, true_and, not_or]
  exact ⟨hstring _, hstring _⟩

theorem IsBuy.openedIn (h : IsBuy digest ev side)
    (before after : List (BetEvent fmt)) (id : JsString) :
    OpenedIn (before ++ ev :: after) id ↔ OpenedIn (before ++ after) id := by
  have hskip : openedBy (ev :: after) id = openedBy after id := by
    unfold openedBy
    rw [List.filter_cons_of_neg (by simp [h.not_opens])]
  rw [← openedBy_ne_none_iff, ← openedBy_ne_none_iff, openedBy_append,
    openedBy_append, hskip]

theorem IsBuy.coercible (h : IsBuy digest ev side)
    (before after : List (BetEvent fmt)) :
    Coercible (before ++ ev :: after) ↔ Coercible (before ++ after) := by
  constructor
  · exact fun hc => hc.of_subset fun other hother => by
      simp only [List.mem_append, List.mem_cons] at hother ⊢
      exact hother.imp_right .inr
  · intro hc
    constructor
    · intro other hother hopens
      simp only [List.mem_append, List.mem_cons] at hother
      rcases hother with hother | rfl | hother
      · exact hc.opens other (List.mem_append_left _ hother) hopens
      · exact absurd hopens h.not_opens
      · exact hc.opens other (List.mem_append_right _ hother) hopens
    · intro other hother hopened
      simp only [List.mem_append, List.mem_cons] at hother
      have hopened := (h.openedIn before after _).mp hopened
      rcases hother with hother | rfl | hother
      · exact hc.records other (List.mem_append_left _ hother) hopened
      · exact h.not_recordBroken
      · exact hc.records other (List.mem_append_right _ hother) hopened

theorem IsBuy.totals (h : IsBuy digest ev side) (hside : side ∈ offeredSides)
    (letters : CaseMapping) (before after : List (BetEvent fmt))
    (id : JsString) :
    totals letters (before ++ ev :: after) id =
      (totals letters (before ++ after) id).map fun t =>
        if id = toJsString (idText digest) then t + bought side ev.pending
        else t := by
  by_cases hshown : Coercible (before ++ after) ∧ OpenedIn (before ++ after) id
  · have hcoercible := (h.coercible before after).mpr hshown.1
    have hopened := (h.openedIn before after id).mpr hshown.2
    have hlast : (before ++ ev :: after).Perm (before ++ after ++ [ev]) :=
      List.perm_middle.trans (List.perm_append_singleton ev _).symm
    rw [(totals_eq id).1 hcoercible hopened, (totals_eq id).1 hshown.1 hshown.2,
      Option.map_some, tally_perm hlast, tally_append, h.tally hside]
    split
    next => rfl
    next => rfl
  · have hnone : ¬ (Coercible (before ++ ev :: after) ∧
        OpenedIn (before ++ ev :: after) id) := by
      rwa [h.coercible, h.openedIn]
    rw [(totals_eq id).2 (not_and_or.mp hnone),
      (totals_eq id).2 (not_and_or.mp hshown), Option.map_none]

end Buys

/-! ## From a card to the board -/

section Landing

variable {fmt : NumberFormat}

theorem decodeBets_op {sha256Hex : Bytes → Text} {bytes : Bytes} {info : Meta}
    {ev : BetEvent fmt} (h : ev ∈ decodeBets fmt sha256Hex bytes info) :
    ev.hash = sha256Hex bytes ∧
      ev.body.get "op".toList = some (.string ev.op) := by
  rw [decodeBets] at h
  split at h
  next => cases h
  next =>
    split at h
    next => cases h
    next =>
      split at h
      next hop =>
        split at h
        next =>
          rw [List.mem_singleton] at h
          rw [h]
          exact ⟨rfl, hop⟩
        next => cases h
      next => cases h

theorem tickEvents_hash {sha256Hex : Bytes → Text} {blocks : List Block}
    {rawPending : List Bytes} {ev : BetEvent fmt}
    (h : ev ∈ tickEvents fmt sha256Hex blocks rawPending) :
    ∃ bytes, ev.hash = sha256Hex bytes := by
  cases List.mem_append.mp h with
  | inl h =>
      obtain ⟨b, -, h⟩ := List.mem_flatMap.mp h
      obtain ⟨raw, -, h⟩ := List.mem_flatMap.mp h
      exact ⟨raw, (decodeBets_op h).1⟩
  | inr h =>
      obtain ⟨raw, -, h⟩ := List.mem_flatMap.mp h
      exact ⟨raw, (decodeBets_op h).1⟩

theorem tick_id {letters : CaseMapping} {digest : Bytes → Bytes}
    {blocks : List Block} {rawPending : List Bytes} {mk : Market fmt}
    (h : mk ∈ tick fmt letters (sha256Hex digest) blocks rawPending) :
    ∃ bytes, mk.id = toJsString (idText (digest bytes)) := by
  rw [tick] at h
  cases hboard : reconstruct letters
      (tickEvents fmt (sha256Hex digest) blocks rawPending) with
  | none =>
      rw [hboard] at h
      cases h
  | some board =>
      rw [hboard] at h
      obtain ⟨ev, hev, -, hid⟩ := openedIn_of_mem hboard h
      obtain ⟨bytes, hhash⟩ := tickEvents_hash hev
      exact ⟨bytes, by rw [← hid, ev.id_eq, hhash]; rfl⟩

def rainDigest (bytes : Bytes) : Bytes := readHexBytes (buySha bytes)

def rainId : JsString := toJsString (rainSha ++ "i0").toList

def rainOfferTx : TxRaw :=
  sendTx selfPayment
    (memoFor literalFormat (buyObject literalFormat rainId "y"))

end Landing

end IreBlockchain.Explorer

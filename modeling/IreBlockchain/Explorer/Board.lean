import IreBlockchain.Explorer.Markets
import IreBlockchain.Foundation.Coercions

/-!
# The board of the markets page

`reconstruct`: one pass over the events opens the markets, a second one records
what was bet on them.  A value that cannot be coerced ends either pass, and the
page then shows no board at all.
-/

namespace IreBlockchain.Explorer

open IreBlockchain.Foundation

structure Resolve where
  w : JsString
  id : JsString
  pending : Bool
  height : Option Nat

structure Analysis (fmt : NumberFormat) where
  id : JsString
  y : Option fmt.Number
  n : Option fmt.Number
  note : JsString
  pending : Bool
  height : Option Nat

structure Market (fmt : NumberFormat) where
  id : JsString
  q : JsString
  o : List JsString
  height : Option Nat
  pending : Bool
  yes : Nat
  no : Nat
  pendingYes : Nat
  pendingNo : Nat
  resolve : Option Resolve
  analyses : List (Analysis fmt)
  buys : Nat
  pendingBuys : Nat

/-- The `Map` of the page: in the order in which ids were first set. -/
abbrev Markets (fmt : NumberFormat) := List (JsString × Market fmt)

def yesWords : List JsString :=
  [toJsString "y".toList, toJsString "yes".toList]

def noWords : List JsString :=
  [toJsString "n".toList, toJsString "no".toList]

section Reconstruct

variable {fmt : NumberFormat} (letters : CaseMapping)

def parseAmount : Option (Json fmt.Number) → Option Nat
  | none => some 0
  | some .null => some 0
  | some a =>
      (stringOf fmt a).map fun s =>
        let s := trimString s
        if s ≠ [] ∧ s.all isDigitUnit then unitsValue s else 0

/-- `Array.isArray(o) ? o.map(String) : ['y', 'n']` -/
def optionTexts : Option (Json fmt.Number) → Option (List JsString)
  | some (.array vs) => vs.mapM (stringOf fmt)
  | _ => some [toJsString "y".toList, toJsString "n".toList]

def BetEvent.market (ev : BetEvent fmt) (o : List JsString) : Market fmt where
  id := ev.id
  q := trimmedOr fmt (ev.body.get "q".toList)
  o := o
  height := ev.height
  pending := ev.pending
  yes := 0
  no := 0
  pendingYes := 0
  pendingNo := 0
  resolve := none
  analyses := []
  buys := 0
  pendingBuys := 0

def openMarket (markets : Markets fmt) (ev : BetEvent fmt) :
    Option (Markets fmt) :=
  if ev.op ≠ toJsString "open".toList then some markets
  else if trimmedOr fmt (ev.body.get "q".toList) = [] then some markets
  else
    (optionTexts (ev.body.get "o".toList)).map fun o =>
      setMember markets ev.id (ev.market o)

def Market.pledge (mk : Market fmt) (pending : Bool) (amt : Nat)
    (side : JsString) : Market fmt :=
  if amt = 0 then mk
  else if side ∈ yesWords then
    { mk with
      yes := mk.yes + amt
      pendingYes := mk.pendingYes + if pending then amt else 0
      buys := mk.buys + 1
      pendingBuys := mk.pendingBuys + if pending then 1 else 0 }
  else if side ∈ noWords then
    { mk with
      no := mk.no + amt
      pendingNo := mk.pendingNo + if pending then amt else 0
      buys := mk.buys + 1
      pendingBuys := mk.pendingBuys + if pending then 1 else 0 }
  else mk

/-- What a turn of the second pass does to the market that it names. -/
def Market.record (mk : Market fmt) (ev : BetEvent fmt) :
    Option (Market fmt) :=
  if ev.op = toJsString "buy".toList then do
    let amt ← parseAmount (ev.body.get "a".toList)
    let side ← textOr fmt (ev.body.get "s".toList)
    return mk.pledge ev.pending amt (letters.toLowerCase side)
  else if ev.op = toJsString "resolve".toList then do
    let text ← textOr fmt (ev.body.get "w".toList)
    let w := letters.toLowerCase text
    return if w = [] then mk
      else { mk with resolve := some ⟨w, ev.id, ev.pending, ev.height⟩ }
  else if ev.op = toJsString "analyze".toList then do
    let y ← numberOf fmt (ev.body.get "y".toList)
    let n ← numberOf fmt (ev.body.get "n".toList)
    let note := trimmedOr fmt (ev.body.get "note".toList)
    return { mk with
      analyses := mk.analyses ++ [⟨ev.id, y, n, note, ev.pending, ev.height⟩] }
  else some mk

def Markets.lookup (markets : Markets fmt) (id : JsString) :
    Option (Market fmt) :=
  (markets.find? fun entry => entry.1 = id).map Prod.snd

def BetEvent.named (ev : BetEvent fmt) : JsString :=
  trimmedOr fmt (ev.body.get "m".toList)

def recordEvent (markets : Markets fmt) (ev : BetEvent fmt) :
    Option (Markets fmt) :=
  if ev.named = [] then some markets
  else
    match markets.lookup ev.named with
    | none => some markets
    | some mk => (mk.record letters ev).map (setMember markets ev.named)

/-- The order of the lists: what is pending first, then the highest. -/
def shownBefore (pendingA pendingB : Bool) (heightA heightB : Option Nat) :
    Bool :=
  if pendingA ≠ pendingB then pendingA
  else heightB.getD 0 ≤ heightA.getD 0

def Market.sorted (mk : Market fmt) : Market fmt :=
  { mk with
    analyses := mk.analyses.mergeSort fun a b =>
      shownBefore a.pending b.pending a.height b.height }

/-- The markets of the events; `none` if something cannot be coerced. -/
def reconstruct (events : List (BetEvent fmt)) : Option (List (Market fmt)) :=
  do
    let opened ← events.foldlM openMarket []
    let markets ← events.foldlM (recordEvent letters) opened
    let list := markets.map fun entry => entry.2.sorted
    return list.mergeSort fun a b =>
      shownBefore a.pending b.pending a.height b.height

end Reconstruct

end IreBlockchain.Explorer

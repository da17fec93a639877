import IreBlockchain.Explorer.Escaping
import IreBlockchain.Explorer.MarketCommands

/-!
# The markup of the board

`card` puts texts of strangers between tags and hands the result to the browser
as markup.  What the browser makes of it is a tree in which every such text is
one text, up to the newlines and NULs that no markup can hold.
-/

namespace IreBlockchain.Explorer

open IreBlockchain.Foundation
open IreBlockchain.Foundation.Html

/-! ## The card -/

structure Odds where
  yes : Nat
  no : Nat
  known : Bool
  vol : Nat

section Card

variable {fmt : NumberFormat} (amounts : AmountFormat)

def odds (mk : Market fmt) : Odds :=
  let total := mk.yes + mk.no
  if total = 0 then ⟨50, 50, false, 0⟩
  else
    let yesPct := mk.yes * 100 / total
    ⟨yesPct, 100 - yesPct, true, total⟩

def snippet (code : Text) : JsString :=
  markup "<figure class=\"snippet\"><button class=\"copy\" type=\"button\" data-copy>Copy</button>" ++
    (markup "<pre><code class=\"language-sh\">" ++ escapeHtml (toJsString code) ++
      markup "</code></pre></figure>")

def winner (mk : Market fmt) : Option JsString :=
  mk.resolve.map fun resolve =>
    if resolve.w ∈ yesWords then markup "Yes"
    else if resolve.w ∈ noWords then markup "No"
    else resolve.w

def cardClasses (mk : Market fmt) : JsString :=
  markup "mk-card" ++
    (if mk.pending then markup " is-pending" else []) ++
    (if mk.resolve.any fun resolve => !resolve.pending then
      markup " is-resolved" else [])

/-- A height is shown where it is truthy. -/
def shownHeight (mk : Market fmt) : Option Nat :=
  if mk.pending then none else mk.height.filter (· ≠ 0)

def badges (mk : Market fmt) : JsString :=
  (if mk.pending then
    markup "<span class=\"mk-badge mk-badge--pending\">mempool</span>" else []) ++
  (if mk.pendingBuys ≠ 0 then
    markup "<span class=\"mk-badge mk-badge--pending\">" ++
      (decimalUnits mk.pendingBuys ++ markup " pending bet" ++
        (if mk.pendingBuys = 1 then [] else markup "s")) ++ markup "</span>"
    else []) ++
  (match mk.resolve, winner mk with
  | some resolve, some w =>
      if w = [] then []
      else
        markup "<span class=\"mk-badge " ++
          (if w = markup "Yes" then markup "mk-badge--yes"
            else markup "mk-badge--no") ++
          markup "\">" ++
          (markup "resolved " ++ escapeHtml w ++
            (if resolve.pending then markup " (mempool)" else [])) ++
          markup "</span>"
  | _, _ => []) ++
  (match shownHeight mk with
  | some height =>
      markup "<span>" ++ (markup "block #" ++ decimalUnits height) ++
        markup "</span>"
  | none => [])

def analysisText (latest : Analysis fmt) : JsString :=
  (match latest.y, latest.n with
  | some y, some n =>
      toJsString (fmt.toText y) ++ markup "/" ++ toJsString (fmt.toText n) ++
        markup " y/n. "
  | _, _ => []) ++ latest.note

def note (mk : Market fmt) : JsString :=
  match mk.analyses.head? with
  | none => []
  | some latest =>
      if latest.note ≠ [] ∨ latest.y.isSome then
        markup "<div class=\"mk-note\">" ++
          (markup "<strong>" ++
            (markup "Latest analyze" ++
              (if latest.pending then markup " · mempool" else [])) ++
            markup "</strong>" ++ escapeHtml (analysisText latest)) ++
          markup "</div>"
      else []

def offer (summary : String) (cli : Text) : JsString :=
  markup "<details>" ++
    (markup "<summary>" ++ markup summary ++ markup "</summary>" ++
      snippet cli) ++
    markup "</details>"

def card (mk : Market fmt) : JsString :=
  let o := odds mk
  markup "<article class=\"" ++ cardClasses mk ++ markup "\">" ++
    (markup "<div class=\"mk-card-meta\">" ++ badges mk ++ markup "</div>" ++
    (markup "<h3>" ++ escapeHtml mk.q ++ markup "</h3>") ++
    (markup "<p class=\"mk-id\">" ++ escapeHtml mk.id ++ markup "</p>") ++
    (markup "<dl class=\"mk-bars\">" ++
      (markup "<div class=\"mk-side\"><dt>Yes</dt><dd class=\"mk-track\"><span class=\"mk-fill mk-fill--yes\" style=\"width:" ++
        decimalUnits o.yes ++ markup "%\"></span></dd><dd>" ++
        decimalUnits o.yes ++ markup "%</dd></div>") ++
      (markup "<div class=\"mk-side\"><dt>No</dt><dd class=\"mk-track\"><span class=\"mk-fill mk-fill--no\" style=\"width:" ++
        decimalUnits o.no ++ markup "%\"></span></dd><dd>" ++
        decimalUnits o.no ++ markup "%</dd></div>") ++
      markup "</dl>") ++
    (markup "<p class=\"mk-odds-note\">" ++
      (if o.known then markup "From inscribed buy amounts only."
        else markup "No buy inscriptions yet — 50/50 placeholder, not a book.") ++
      markup "</p>") ++
    (markup "<p class=\"mk-vol\">" ++
      (markup "Volume " ++ fmtIre amounts o.vol ++ markup " IRE" ++
        (if mk.pendingYes + mk.pendingNo > 0 then
          markup " · " ++ fmtIre amounts (mk.pendingYes + mk.pendingNo) ++
            markup " IRE in mempool" else [])) ++
      markup "</p>") ++
    note mk ++
    (markup "<div class=\"mk-actions\">" ++
      (offer "Buy yes · 1 IRE pledge" (buyCli fmt mk.id "y") ++
        offer "Buy no · 1 IRE pledge" (buyCli fmt mk.id "n") ++
        offer "Resolve" (resolveCli fmt mk.id "y") ++
        offer "Analyze (analyst CLI)" (analyzeCli fmt mk.id)) ++
      markup "</div>")) ++
  markup "</article>"

structure BoardView where
  grid : JsString
  emptyHidden : Bool
  offlineHidden : Bool
  label : JsString

def renderBoard (online : Bool) (markets : List (Market fmt)) : BoardView :=
  if online = false then ⟨[], true, false, markup "OFFLINE"⟩
  else if markets = [] then ⟨[], false, true, markup "empty window"⟩
  else
    ⟨markets.flatMap (card amounts), true, true,
      decimalUnits markets.length ++ markup " market" ++
        (if markets.length = 1 then [] else markup "s") ++
        markup " in window"⟩

end Card

/-! ## The tree of a card -/

section Tree

variable {fmt : NumberFormat} (amounts : AmountFormat)

def labelled (name : Name) (value text : JsString) : Node :=
  .element name [classed value] [.text text]

def snippetNode (code : Text) : Node :=
  .element Tag.figure [classed (markup "snippet")]
    [.element Tag.button [classed (markup "copy"),
        ⟨Key.type', some (markup "button")⟩, ⟨Key.dataCopy, none⟩]
      [.text (markup "Copy")],
    .element Tag.pre []
      [labelled Tag.code (markup "language-sh") (toJsString code)]]

def pendingBadge (text : JsString) : Node :=
  labelled Tag.span (markup "mk-badge mk-badge--pending") text

def winnerBadge (w : JsString) (pending : Bool) : Node :=
  labelled Tag.span
    (markup "mk-badge " ++ if w = markup "Yes" then markup "mk-badge--yes"
      else markup "mk-badge--no")
    (markup "resolved " ++ w ++ if pending then markup " (mempool)" else [])

def badgeNodes (mk : Market fmt) : List Node :=
  (if mk.pending then [pendingBadge (markup "mempool")] else []) ++
  (if mk.pendingBuys ≠ 0 then
    [pendingBadge (decimalUnits mk.pendingBuys ++ markup " pending bet" ++
      if mk.pendingBuys = 1 then [] else markup "s")]
    else []) ++
  (match mk.resolve, winner mk with
  | some resolve, some w =>
      if w = [] then [] else [winnerBadge w resolve.pending]
  | _, _ => []) ++
  (match shownHeight mk with
  | some height =>
      [.element Tag.span [] [.text (markup "block #" ++ decimalUnits height)]]
  | none => [])

def noteNodes (mk : Market fmt) : List Node :=
  match mk.analyses.head? with
  | none => []
  | some latest =>
      if latest.note ≠ [] ∨ latest.y.isSome then
        [.element Tag.div [classed (markup "mk-note")]
          [.element Tag.strong [] [.text (markup "Latest analyze" ++
            if latest.pending then markup " · mempool" else [])],
          .text (analysisText latest)]]
      else []

def sideNode (side fill : String) (pct : Nat) : Node :=
  .element Tag.div [classed (markup "mk-side")]
    [.element Tag.dt [] [.text (markup side)],
    .element Tag.dd [classed (markup "mk-track")]
      [.element Tag.span [classed (markup fill),
        ⟨Key.style, some (markup "width:" ++ decimalUnits pct ++ markup "%")⟩]
        []],
    .element Tag.dd [] [.text (decimalUnits pct ++ markup "%")]]

def offerNode (summary : String) (cli : Text) : Node :=
  .element Tag.details []
    [.element Tag.summary [] [.text (markup summary)], snippetNode cli]

def cardNode (mk : Market fmt) : Node :=
  .element Tag.article [classed (cardClasses mk)]
    ([.element Tag.div [classed (markup "mk-card-meta")] (badgeNodes mk),
      .element Tag.h3 [] [.text mk.q],
      labelled Tag.p (markup "mk-id") mk.id,
      .element Tag.dl [classed (markup "mk-bars")]
        [sideNode "Yes" "mk-fill mk-fill--yes" (odds mk).yes,
        sideNode "No" "mk-fill mk-fill--no" (odds mk).no],
      labelled Tag.p (markup "mk-odds-note")
        (if (odds mk).known then markup "From inscribed buy amounts only."
          else markup "No buy inscriptions yet — 50/50 placeholder, not a book."),
      labelled Tag.p (markup "mk-vol")
        (markup "Volume " ++ fmtIre amounts (odds mk).vol ++ markup " IRE" ++
          if mk.pendingYes + mk.pendingNo > 0 then
            markup " · " ++ fmtIre amounts (mk.pendingYes + mk.pendingNo) ++
              markup " IRE in mempool" else [])] ++
    noteNodes mk ++
    [.element Tag.div [classed (markup "mk-actions")]
      [offerNode "Buy yes · 1 IRE pledge" (buyCli fmt mk.id "y"),
      offerNode "Buy no · 1 IRE pledge" (buyCli fmt mk.id "n"),
      offerNode "Resolve" (resolveCli fmt mk.id "y"),
      offerNode "Analyze (analyst CLI)" (analyzeCli fmt mk.id)]])

end Tree

/-! ## The card is its tree -/

section Written

variable {fmt : NumberFormat} (amounts : AmountFormat)

theorem write_snippet (code : Text) :
    snippet code = (snippetNode code).write := by
  have hfigure : markup "<figure class=\"snippet\"><button class=\"copy\" type=\"button\" data-copy>Copy</button>" =
      writeOpen Tag.figure [classed (markup "snippet")] ++
        (writeOpen Tag.button [classed (markup "copy"),
          ⟨Key.type', some (markup "button")⟩, ⟨Key.dataCopy, none⟩] ++
          (markup "Copy" ++ writeClose Tag.button)) :=
    markup_eq (by decide)
  have hpre : markup "<pre><code class=\"language-sh\">" =
      writeOpen Tag.pre [] ++
        writeOpen Tag.code [classed (markup "language-sh")] :=
    markup_eq (by decide)
  have hclose : markup "</code></pre></figure>" = writeClose Tag.code ++
      (writeClose Tag.pre ++ writeClose Tag.figure) :=
    markup_eq (by decide)
  have hcopy : escape (markup "Copy") = markup "Copy" :=
    escape_markup (by decide)
  simp only [snippet, snippetNode, labelled, hfigure, hpre, hclose, Node.write,
    writeNodes, escapeHtml_eq, hcopy, List.append_assoc, List.append_nil]

theorem write_labelled {name : Name} {value text start inner stop : JsString}
    (hstart : start = writeOpen name [classed value])
    (hinner : inner = escape text) (hstop : stop = writeClose name) :
    start ++ inner ++ stop = (labelled name value text).write := by
  apply write_element hstart _ hstop
  rw [writeNodes_singleton, write_text, hinner]

theorem write_pendingBadge {inner text : JsString}
    (h : inner = escape text) :
    markup "<span class=\"mk-badge mk-badge--pending\">" ++ inner ++
      markup "</span>" = (pendingBadge text).write :=
  write_labelled (markup_eq (by decide)) h (markup_eq (by decide))

theorem write_winnerBadge (w : JsString) (pending : Bool) :
    markup "<span class=\"mk-badge " ++
      (if w = markup "Yes" then markup "mk-badge--yes"
        else markup "mk-badge--no") ++
      markup "\">" ++
      (markup "resolved " ++ escapeHtml w ++
        (if pending then markup " (mempool)" else [])) ++
      markup "</span>" = (winnerBadge w pending).write := by
  apply write_labelled
  · split
    next => decide
    next => decide
  · have hfront : escape (markup "resolved ") = markup "resolved " :=
      escape_markup (by decide)
    have hback : escape (markup " (mempool)") = markup " (mempool)" :=
      escape_markup (by decide)
    rw [escape_append, escape_append, hfront, escapeHtml_eq]
    split
    next => rw [hback]
    next => rfl
  · exact markup_eq (by decide)

theorem write_badges (mk : Market fmt) :
    badges mk = writeNodes (badgeNodes mk) := by
  have hmempool : markup "<span class=\"mk-badge mk-badge--pending\">mempool</span>" =
      (pendingBadge (markup "mempool")).write := by
    rw [← write_pendingBadge (escape_markup (by decide)).symm]
    exact markup_eq (by decide)
  have hbets : decimalUnits mk.pendingBuys ++ markup " pending bet" ++
      (if mk.pendingBuys = 1 then [] else markup "s") =
        escape (decimalUnits mk.pendingBuys ++ markup " pending bet" ++
          if mk.pendingBuys = 1 then [] else markup "s") := by
    have hword : escape (markup " pending bet") = markup " pending bet" :=
      escape_markup (by decide)
    have hplural : escape (markup "s") = markup "s" := escape_markup (by decide)
    rw [escape_append, escape_append, escape_decimalUnits, hword]
    split
    next => rfl
    next => rw [hplural]
  have hheight (height : Nat) : markup "<span>" ++
      (markup "block #" ++ decimalUnits height) ++ markup "</span>" =
        (Node.element Tag.span []
          [.text (markup "block #" ++ decimalUnits height)]).write := by
    have hword : escape (markup "block #") = markup "block #" :=
      escape_markup (by decide)
    apply write_element (markup_eq (by decide)) _ (markup_eq (by decide))
    rw [writeNodes_singleton, write_text, escape_append, hword,
      escape_decimalUnits]
  rw [badges, badgeNodes, writeNodes_append, writeNodes_append, writeNodes_append,
    hmempool, write_pendingBadge hbets]
  congr 1
  · congr 1
    · congr 1
      · split <;> simp [writeNodes]
      · split <;> simp [writeNodes]
    · split
      next resolve w _ _ =>
        rw [write_winnerBadge]
        split <;> simp [writeNodes]
      next => simp [writeNodes]
  · split
    next height _ => rw [hheight, writeNodes_singleton]
    next => simp [writeNodes]

theorem write_note (mk : Market fmt) : note mk = writeNodes (noteNodes mk) := by
  rw [note, noteNodes]
  split
  next => simp [writeNodes]
  next latest _ =>
    split
    next =>
      have hlatest : markup "Latest analyze" ++
          (if latest.pending then markup " · mempool" else []) =
            escape (markup "Latest analyze" ++
              if latest.pending then markup " · mempool" else []) := by
        have hword : escape (markup "Latest analyze") =
            markup "Latest analyze" := escape_markup (by decide)
        have hpending : escape (markup " · mempool") = markup " · mempool" :=
          escape_markup (by decide)
        rw [escape_append, hword]
        split
        next => rw [hpending]
        next => rfl
      have hstrong : markup "<strong>" ++ (markup "Latest analyze" ++
          (if latest.pending then markup " · mempool" else [])) ++
          markup "</strong>" = (Node.element Tag.strong []
            [.text (markup "Latest analyze" ++
              if latest.pending then markup " · mempool" else [])]).write := by
        apply write_element (markup_eq (by decide)) _
          (markup_eq (by decide))
        rw [writeNodes_singleton, write_text, ← hlatest]
      rw [writeNodes_singleton]
      apply write_element (markup_eq (by decide)) _
        (markup_eq (by decide))
      rw [hstrong, escapeHtml_eq, writeNodes, writeNodes_singleton, write_text]
    next => simp [writeNodes]

theorem write_offer {summary : String}
    (h : escape (markup summary) = markup summary) (cli : Text) :
    offer summary cli = (offerNode summary cli).write := by
  have hsummary : markup "<summary>" ++ markup summary ++ markup "</summary>" =
      (Node.element Tag.summary [] [.text (markup summary)]).write := by
    apply write_element (markup_eq (by decide)) _
      (markup_eq (by decide))
    rw [writeNodes_singleton, write_text, h]
  apply write_element (markup_eq (by decide)) _
    (markup_eq (by decide))
  rw [hsummary, write_snippet, writeNodes, writeNodes_singleton]

theorem escape_cardClasses (mk : Market fmt) :
    escape (cardClasses mk) = cardClasses mk := by
  have hcard : escape (markup "mk-card") = markup "mk-card" :=
    escape_markup (by decide)
  have hpending : escape (markup " is-pending") = markup " is-pending" :=
    escape_markup (by decide)
  have hresolved : escape (markup " is-resolved") = markup " is-resolved" :=
    escape_markup (by decide)
  have hnil : escape [] = [] := rfl
  rw [cardClasses, escape_append, escape_append, hcard]
  congr 1
  · congr 1
    split
    next => exact hpending
    next => exact hnil
  · split
    next => exact hresolved
    next => exact hnil

def sideFront (side fill : String) : JsString :=
  writeOpen Tag.div [classed (markup "mk-side")] ++
    (writeOpen Tag.dt [] ++ (escape (markup side) ++ (writeClose Tag.dt ++
      (writeOpen Tag.dd [classed (markup "mk-track")] ++
        (unitOf '<' :: (Tag.span.text.map unitOf ++
          ((classed (markup fill)).write ++
            (unitOf ' ' :: (Key.style.text.map unitOf ++
              (unitOf '=' :: unitOf '"' :: escape (markup "width:")))))))))))

theorem write_side (side fill : String) (pct : Nat) :
    sideFront side fill ++ decimalUnits pct ++
      markup "%\"></span></dd><dd>" ++ decimalUnits pct ++
      markup "%</dd></div>" = (sideNode side fill pct).write := by
  have hmiddle : markup "%\"></span></dd><dd>" = escape (markup "%") ++
      (unitOf '"' :: unitOf '>' :: (writeClose Tag.span ++
        (writeClose Tag.dd ++ writeOpen Tag.dd []))) :=
    markup_eq (by decide)
  have hback : markup "%</dd></div>" = escape (markup "%") ++
      (writeClose Tag.dd ++ writeClose Tag.div) :=
    markup_eq (by decide)
  have hspan : writeOpen Tag.span [classed (markup fill),
      ⟨Key.style, some (markup "width:" ++ (decimalUnits pct ++ markup "%"))⟩] =
      unitOf '<' :: (Tag.span.text.map unitOf ++
        ((classed (markup fill)).write ++
          (unitOf ' ' :: (Key.style.text.map unitOf ++
            (unitOf '=' :: unitOf '"' :: (escape (markup "width:") ++
              (decimalUnits pct ++ (escape (markup "%") ++
                [unitOf '"', unitOf '>'])))))))) := by
    simp [writeOpen, Attr.write, escape_append, escape_decimalUnits]
  simp only [sideNode, sideFront, hmiddle, hback, hspan, Node.write, writeNodes,
    escape_append, escape_decimalUnits, List.append_assoc, List.cons_append,
    List.nil_append, List.append_nil]

theorem write_bars (o : Odds) :
    markup "<dl class=\"mk-bars\">" ++
      (markup "<div class=\"mk-side\"><dt>Yes</dt><dd class=\"mk-track\"><span class=\"mk-fill mk-fill--yes\" style=\"width:" ++
        decimalUnits o.yes ++ markup "%\"></span></dd><dd>" ++
        decimalUnits o.yes ++ markup "%</dd></div>") ++
      (markup "<div class=\"mk-side\"><dt>No</dt><dd class=\"mk-track\"><span class=\"mk-fill mk-fill--no\" style=\"width:" ++
        decimalUnits o.no ++ markup "%\"></span></dd><dd>" ++
        decimalUnits o.no ++ markup "%</dd></div>") ++
      markup "</dl>" =
    (Node.element Tag.dl [classed (markup "mk-bars")]
      [sideNode "Yes" "mk-fill mk-fill--yes" o.yes,
      sideNode "No" "mk-fill mk-fill--no" o.no]).write := by
  have hyes : markup "<div class=\"mk-side\"><dt>Yes</dt><dd class=\"mk-track\"><span class=\"mk-fill mk-fill--yes\" style=\"width:" =
      sideFront "Yes" "mk-fill mk-fill--yes" := markup_eq (by decide)
  have hno : markup "<div class=\"mk-side\"><dt>No</dt><dd class=\"mk-track\"><span class=\"mk-fill mk-fill--no\" style=\"width:" =
      sideFront "No" "mk-fill mk-fill--no" := markup_eq (by decide)
  rw [hyes, hno, write_side, write_side, List.append_assoc (markup _)]
  apply write_element (markup_eq (by decide)) _ (markup_eq (by decide))
  rw [writeNodes, writeNodes_singleton]

theorem write_odds_note (known : Bool) :
    markup "<p class=\"mk-odds-note\">" ++
      (if known then markup "From inscribed buy amounts only."
        else markup "No buy inscriptions yet — 50/50 placeholder, not a book.") ++
      markup "</p>" =
    (labelled Tag.p (markup "mk-odds-note")
      (if known then markup "From inscribed buy amounts only."
        else markup "No buy inscriptions yet — 50/50 placeholder, not a book.")).write := by
  apply write_labelled (markup_eq (by decide)) _ (markup_eq (by decide))
  split
  next => exact (escape_markup (by decide)).symm
  next => exact (escape_markup (by decide)).symm

theorem write_vol (mk : Market fmt) :
    markup "<p class=\"mk-vol\">" ++
      (markup "Volume " ++ fmtIre amounts (odds mk).vol ++ markup " IRE" ++
        (if mk.pendingYes + mk.pendingNo > 0 then
          markup " · " ++ fmtIre amounts (mk.pendingYes + mk.pendingNo) ++
            markup " IRE in mempool" else [])) ++
      markup "</p>" =
    (labelled Tag.p (markup "mk-vol")
      (markup "Volume " ++ fmtIre amounts (odds mk).vol ++ markup " IRE" ++
        if mk.pendingYes + mk.pendingNo > 0 then
          markup " · " ++ fmtIre amounts (mk.pendingYes + mk.pendingNo) ++
            markup " IRE in mempool" else [])).write := by
  have hvolume : escape (markup "Volume ") = markup "Volume " :=
    escape_markup (by decide)
  have hire : escape (markup " IRE") = markup " IRE" := escape_markup (by decide)
  have hdot : escape (markup " · ") = markup " · " := escape_markup (by decide)
  have hpending : escape (markup " IRE in mempool") =
      markup " IRE in mempool" := escape_markup (by decide)
  apply write_labelled (markup_eq (by decide)) _ (markup_eq (by decide))
  split
  next =>
    simp only [escape_append, escape_fmtIre, hvolume, hire, hdot, hpending]
  next =>
    simp only [escape_append, escape_fmtIre, hvolume, hire, List.append_nil]

theorem write_actions (id : JsString) :
    markup "<div class=\"mk-actions\">" ++
      (offer "Buy yes · 1 IRE pledge" (buyCli fmt id "y") ++
        offer "Buy no · 1 IRE pledge" (buyCli fmt id "n") ++
        offer "Resolve" (resolveCli fmt id "y") ++
        offer "Analyze (analyst CLI)" (analyzeCli fmt id)) ++
      markup "</div>" =
    (Node.element Tag.div [classed (markup "mk-actions")]
      [offerNode "Buy yes · 1 IRE pledge" (buyCli fmt id "y"),
      offerNode "Buy no · 1 IRE pledge" (buyCli fmt id "n"),
      offerNode "Resolve" (resolveCli fmt id "y"),
      offerNode "Analyze (analyst CLI)" (analyzeCli fmt id)]).write := by
  apply write_element (markup_eq (by decide)) _ (markup_eq (by decide))
  rw [write_offer (escape_markup (by decide)),
    write_offer (escape_markup (by decide)),
    write_offer (escape_markup (by decide)),
    write_offer (escape_markup (by decide))]
  simp only [writeNodes, List.append_assoc, List.append_nil]

theorem write_card (mk : Market fmt) :
    card amounts mk = (cardNode amounts mk).write := by
  have hmeta : markup "<div class=\"mk-card-meta\">" ++ badges mk ++
      markup "</div>" = (Node.element Tag.div [classed (markup "mk-card-meta")]
        (badgeNodes mk)).write :=
    write_element (markup_eq (by decide)) (write_badges mk)
      (markup_eq (by decide))
  have hquestion : markup "<h3>" ++ escapeHtml mk.q ++ markup "</h3>" =
      (Node.element Tag.h3 [] [.text mk.q]).write := by
    apply write_element (markup_eq (by decide)) _ (markup_eq (by decide))
    rw [writeNodes_singleton, write_text, escapeHtml_eq]
  have hid : markup "<p class=\"mk-id\">" ++ escapeHtml mk.id ++
      markup "</p>" = (labelled Tag.p (markup "mk-id") mk.id).write :=
    write_labelled (markup_eq (by decide)) (escapeHtml_eq mk.id)
      (markup_eq (by decide))
  rw [card]
  apply write_element
  · have hstart : markup "<article class=\"" = unitOf '<' ::
        (Tag.article.text.map unitOf ++ (unitOf ' ' ::
          (Key.class'.text.map unitOf ++ [unitOf '=', unitOf '"']))) :=
      markup_eq (by decide)
    have hend : markup "\">" = [unitOf '"', unitOf '>'] :=
      markup_eq (by decide)
    simp [hstart, hend, writeOpen, classed, Attr.write, escape_cardClasses]
  · rw [hmeta, hquestion, hid, write_bars, write_odds_note, write_vol,
      write_note, write_actions]
    simp only [writeNodes_append, writeNodes, List.append_assoc, List.append_nil]
  · exact markup_eq (by decide)

def cardTags : List Name :=
  [Tag.article, Tag.button, Tag.code, Tag.dd, Tag.details, Tag.div, Tag.dl,
    Tag.dt, Tag.figure, Tag.h3, Tag.p, Tag.pre, Tag.span, Tag.strong,
    Tag.summary]

def cardKeys : List Name := [Key.class', Key.dataCopy, Key.style, Key.type']

theorem uses_card (mk : Market fmt) :
    (cardNode amounts mk).Uses cardTags cardKeys := by
  have hbadges : UsesAll cardTags cardKeys (badgeNodes mk) := by
    rw [badgeNodes]
    simp only [usesAll_append]
    refine ⟨⟨⟨?_, ?_⟩, ?_⟩, ?_⟩
    all_goals
      repeat' split
      all_goals
        simp [UsesAll, Node.Uses, pendingBadge, winnerBadge, labelled, classed,
          cardTags, cardKeys]
  have hnote : UsesAll cardTags cardKeys (noteNodes mk) := by
    rw [noteNodes]
    repeat' split
    all_goals
      simp [UsesAll, Node.Uses, classed, cardTags, cardKeys]
  rw [cardNode, Node.Uses, usesAll_append, usesAll_append]
  refine ⟨?_, ⟨?_, hnote⟩, ?_⟩
  · simp [classed, cardTags, cardKeys]
  · rw [UsesAll, Node.Uses]
    refine ⟨⟨?_, hbadges⟩, ?_⟩
    · simp [classed, cardTags, cardKeys]
    · simp [UsesAll, Node.Uses, labelled, sideNode, classed, cardTags, cardKeys]
  · simp [UsesAll, Node.Uses, offerNode, snippetNode, labelled, classed,
      cardTags, cardKeys]

theorem separated_card (mk : Market fmt) :
    (cardNode amounts mk).Separated := by
  have hbadges : ∀ node ∈ badgeNodes mk,
      node.isText = false ∧ node.Separated := by
    intro node hnode
    rw [badgeNodes, List.mem_append, List.mem_append, List.mem_append] at hnode
    rcases hnode with ((hnode | hnode) | hnode) | hnode
    all_goals
      repeat' split at hnode
      all_goals
        simp only [List.mem_singleton, List.not_mem_nil] at hnode
      all_goals
        subst hnode
        simp [Node.isText, Node.Separated, SeparatedAll, pendingBadge,
          winnerBadge, labelled]
  have hnote : ∀ node ∈ noteNodes mk,
      node.isText = false ∧ node.Separated := by
    intro node hnode
    rw [noteNodes] at hnode
    repeat' split at hnode
    all_goals
      simp only [List.mem_singleton, List.not_mem_nil] at hnode
    all_goals
      subst hnode
      simp [Node.isText, Node.Separated, SeparatedAll]
  rw [cardNode, Node.Separated]
  apply separatedAll_of_forall
  intro node hnode
  rw [List.mem_append, List.mem_append] at hnode
  rcases hnode with (hnode | hnode) | hnode
  · simp only [List.mem_cons, List.not_mem_nil, or_false] at hnode
    rcases hnode with rfl | rfl | rfl | rfl | rfl | rfl
    · refine ⟨rfl, ?_⟩
      rw [Node.Separated]
      exact separatedAll_of_forall hbadges
    all_goals
      simp [Node.isText, Node.Separated, SeparatedAll, labelled, sideNode]
  · exact hnote node hnode
  · rw [List.mem_singleton] at hnode
    subst hnode
    simp [Node.isText, Node.Separated, SeparatedAll, offerNode, snippetNode,
      labelled]

/--
Whatever is inscribed, the browser makes of the grid one card after the other,
with every inscribed text as one text; no other element, and no other
attribute, comes onto the page with it.
-/
theorem grid_exact (online : Bool) (markets : List (Market fmt)) :
    events (renderBoard amounts online markets).grid =
      nodesEvents (settleNodes
        (if online then markets.map (cardNode amounts) else [])) ∧
    ∀ e ∈ events (renderBoard amounts online markets).grid,
      e.Allowed cardTags cardKeys := by
  have hgrid : (renderBoard amounts online markets).grid =
      writeNodes (if online then markets.map (cardNode amounts) else []) := by
    have hcards : markets.flatMap (card amounts) =
        writeNodes (markets.map (cardNode amounts)) := by
      have hcard : card amounts = fun mk : Market fmt =>
          (cardNode amounts mk).write := funext (write_card amounts)
      rw [writeNodes_map, hcard]
    rw [renderBoard]
    cases online with
    | false => simp [writeNodes]
    | true =>
        cases markets with
        | nil => simp [writeNodes]
        | cons mk markets => simpa using hcards
  have hcards : ∀ node ∈ (if online then markets.map (cardNode amounts) else []),
      node.Uses cardTags cardKeys ∧ node.isText = false ∧ node.Separated := by
    intro node hnode
    cases online with
    | false => cases hnode
    | true =>
        obtain ⟨mk, -, rfl⟩ := List.mem_map.mp hnode
        exact ⟨uses_card amounts mk, rfl, separated_card amounts mk⟩
  rw [hgrid, events_writeNodes
    (separatedAll_of_forall fun node hnode => (hcards node hnode).2)]
  refine ⟨rfl, ?_⟩
  apply allowed_all
  apply usesAll_settle
  exact usesAll_iff.mpr fun node hnode => (hcards node hnode).1

end Written

/-! ## A hostile market -/

/-- The question closes its element, and brings a tag, a newline and a NUL. -/
def hostileMarket : Market literalFormat where
  id := toJsString "ab\"'i0".toList
  q := toJsString "</h3><img src=x onerror=\"a()\">&lt;\r\n\x00?".toList
  o := []
  height := some 7
  pending := false
  yes := 1500000
  no := 500000
  pendingYes := 0
  pendingNo := 0
  resolve := none
  analyses := []
  buys := 2
  pendingBuys := 0

theorem question_of_card {fmt : NumberFormat} (amounts : AmountFormat)
    (mk : Market fmt) :
    (Node.element Tag.h3 [] [.text mk.q]).settle.events <:+:
      (cardNode amounts mk).settle.events := by
  apply infix_settle
  simp

theorem grid_exact_sample :
    [.startTag "h3".toList, .tagEnd false] ++
        (toJsString "</h3><img src=x onerror=\"a()\">&lt;\n?".toList).map
          .unit ++ [.endTag "h3".toList, .tagEnd false] <:+:
      events (renderBoard enUS true [hostileMarket]).grid ∧
    ∀ e ∈ events (renderBoard enUS true [hostileMarket]).grid,
      e ≠ .startTag "img".toList ∧ e ≠ .attr "onerror".toList := by
  obtain ⟨hevents, hallowed⟩ := grid_exact enUS true [hostileMarket]
  constructor
  · have hquestion :
        (Node.element Tag.h3 [] [.text hostileMarket.q]).settle.events =
          [.startTag "h3".toList, .tagEnd false] ++
            (toJsString "</h3><img src=x onerror=\"a()\">&lt;\n?".toList).map
              .unit ++ [.endTag "h3".toList, .tagEnd false] := by
      decide +kernel
    have hmem : (cardNode enUS hostileMarket).settle ∈
        settleNodes [cardNode enUS hostileMarket] :=
      mem_settleNodes (List.mem_singleton_self _)
    rw [hevents, ← hquestion]
    exact (question_of_card enUS hostileMarket).trans (infix_nodesEvents hmem)
  · intro e he
    have htag : "img".toList ∉ cardTags.map Name.text := by decide
    have hattr : "onerror".toList ∉ cardKeys.map Name.text := by decide
    constructor
    · rintro rfl
      exact htag (hallowed _ he)
    · rintro rfl
      exact hattr (hallowed _ he)

end IreBlockchain.Explorer

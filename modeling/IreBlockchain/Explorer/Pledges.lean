import IreBlockchain.Explorer.BoardLoops

/-!
# What the markets count

The totals of a market are sums over the buys that name it.
-/

namespace IreBlockchain.Explorer

open IreBlockchain.Foundation

structure Totals where
  yes : Nat
  no : Nat
  buys : Nat
  pendingYes : Nat
  pendingNo : Nat
  pendingBuys : Nat
  deriving DecidableEq

instance : Zero Totals := ⟨⟨0, 0, 0, 0, 0, 0⟩⟩

instance : Add Totals :=
  ⟨fun a b => ⟨a.yes + b.yes, a.no + b.no, a.buys + b.buys,
    a.pendingYes + b.pendingYes, a.pendingNo + b.pendingNo,
    a.pendingBuys + b.pendingBuys⟩⟩

theorem Totals.add_zero (a : Totals) : a + 0 = a := rfl

theorem Totals.add_assoc (a b c : Totals) : a + b + c = a + (b + c) := by
  change Totals.mk .. = Totals.mk ..
  simp only [Totals.mk.injEq]
  exact ⟨Nat.add_assoc .., Nat.add_assoc .., Nat.add_assoc ..,
    Nat.add_assoc .., Nat.add_assoc .., Nat.add_assoc ..⟩

theorem Totals.zero_add (a : Totals) : 0 + a = a := by
  change Totals.mk .. = a
  cases a
  simp only [Totals.mk.injEq]
  exact ⟨Nat.zero_add _, Nat.zero_add _, Nat.zero_add _, Nat.zero_add _,
    Nat.zero_add _, Nat.zero_add _⟩

section Totals

variable {fmt : NumberFormat}

def Market.totals (mk : Market fmt) : Totals :=
  ⟨mk.yes, mk.no, mk.buys, mk.pendingYes, mk.pendingNo, mk.pendingBuys⟩

def totals (letters : CaseMapping) (events : List (BetEvent fmt))
    (id : JsString) : Option Totals := do
  let board ← reconstruct letters events
  let mk ← board.find? fun mk => mk.id = id
  return mk.totals

/-! ## The sums -/

def amountOf (ev : BetEvent fmt) : Nat :=
  (parseAmount (ev.body.get "a".toList)).getD 0

/-- The side in lower case, as far as it has ASCII letters. -/
def sideOf (ev : BetEvent fmt) : JsString :=
  ((textOr fmt (ev.body.get "s".toList)).getD []).map lowerUnit

def Backs (words : List JsString) (id : JsString) (ev : BetEvent fmt) : Prop :=
  ev.op = toJsString "buy".toList ∧ ev.named = id ∧ sideOf ev ∈ words

instance (words : List JsString) (id : JsString) (ev : BetEvent fmt) :
    Decidable (Backs words id ev) :=
  inferInstanceAs (Decidable (_ ∧ _ ∧ _))

def Pledges (id : JsString) (ev : BetEvent fmt) : Prop :=
  Backs (yesWords ++ noWords) id ev ∧ 0 < amountOf ev

instance (id : JsString) (ev : BetEvent fmt) : Decidable (Pledges id ev) :=
  inferInstanceAs (Decidable (_ ∧ _))

def pledged (words : List JsString) (id : JsString)
    (events : List (BetEvent fmt)) : Nat :=
  ((events.filter fun ev => Backs words id ev).map amountOf).sum

def pledges (id : JsString) (events : List (BetEvent fmt)) : Nat :=
  (events.filter fun ev => Pledges id ev).length

def pendingOnly (events : List (BetEvent fmt)) : List (BetEvent fmt) :=
  events.filter fun ev => ev.pending

def tally (events : List (BetEvent fmt)) (id : JsString) : Totals where
  yes := pledged yesWords id events
  no := pledged noWords id events
  buys := pledges id events
  pendingYes := pledged yesWords id (pendingOnly events)
  pendingNo := pledged noWords id (pendingOnly events)
  pendingBuys := pledges id (pendingOnly events)

theorem pledged_append (words : List JsString) (id : JsString)
    (before after : List (BetEvent fmt)) :
    pledged words id (before ++ after) =
      pledged words id before + pledged words id after := by
  rw [pledged, List.filter_append, List.map_append, List.sum_append]
  rfl

theorem pledged_singleton (words : List JsString) (id : JsString)
    (ev : BetEvent fmt) :
    pledged words id [ev] = if Backs words id ev then amountOf ev else 0 := by
  rw [pledged]
  split
  next h => simp [h]
  next h => simp [h]

theorem pledges_append (id : JsString) (before after : List (BetEvent fmt)) :
    pledges id (before ++ after) = pledges id before + pledges id after := by
  rw [pledges, List.filter_append, List.length_append]
  rfl

theorem pledges_singleton (id : JsString) (ev : BetEvent fmt) :
    pledges id [ev] = if Pledges id ev then 1 else 0 := by
  rw [pledges]
  split
  next h => simp [h]
  next h => simp [h]

theorem pendingOnly_singleton (ev : BetEvent fmt) :
    pendingOnly [ev] = if ev.pending then [ev] else [] := by
  rw [pendingOnly]
  split
  next h => simp [h]
  next h => simp [h]

theorem tally_append (before after : List (BetEvent fmt)) (id : JsString) :
    tally (before ++ after) id = tally before id + tally after id := by
  have hpending : pendingOnly (before ++ after) =
      pendingOnly before ++ pendingOnly after :=
    List.filter_append before after
  simp only [tally, hpending, pledged_append, pledges_append]
  rfl

theorem tally_perm {events events' : List (BetEvent fmt)}
    (h : events.Perm events') (id : JsString) :
    tally events id = tally events' id := by
  have hpledged {these those : List (BetEvent fmt)} (hp : these.Perm those)
      (words : List JsString) :
      pledged words id these = pledged words id those :=
    List.Perm.sum_nat ((hp.filter _).map _)
  have hpledges {these those : List (BetEvent fmt)} (hp : these.Perm those) :
      pledges id these = pledges id those :=
    (hp.filter _).length_eq
  have hpending : (pendingOnly events).Perm (pendingOnly events') :=
    h.filter _
  simp only [tally, hpledged h, hpledges h, hpledged hpending,
    hpledges hpending]

theorem tally_of_not_pledges {ev : BetEvent fmt} {id : JsString}
    (h : ¬ Pledges id ev) : tally [ev] id = 0 := by
  have hzero (words : List JsString)
      (hsub : ∀ word ∈ words, word ∈ yesWords ++ noWords) :
      pledged words id [ev] = 0 := by
    rw [pledged_singleton]
    split
    next hbacks =>
      by_contra hpos
      exact h ⟨⟨hbacks.1, hbacks.2.1, hsub _ hbacks.2.2⟩,
        Nat.pos_of_ne_zero hpos⟩
    next => rfl
  have hyes := hzero yesWords fun _ => List.mem_append_left _
  have hno := hzero noWords fun _ => List.mem_append_right _
  have hcount : pledges id [ev] = 0 := by
    rw [pledges_singleton, if_neg h]
  rw [tally, hyes, hno, hcount, pendingOnly_singleton]
  split
  next =>
    rw [hyes, hno, hcount]
    rfl
  next => rfl

/-! ## One event recorded -/

theorem pledge_totals {mk : Market fmt} {ev : BetEvent fmt} {id side : JsString}
    (hop : ev.op = toJsString "buy".toList) (hnamed : ev.named = id)
    (hyes : side ∈ yesWords ↔ sideOf ev ∈ yesWords)
    (hno : side ∈ noWords ↔ sideOf ev ∈ noWords) :
    (mk.pledge ev.pending (amountOf ev) side).totals =
      mk.totals + tally [ev] id := by
  have hbacks (words : List JsString) :
      Backs words id ev ↔ sideOf ev ∈ words := by
    simp only [Backs, hop, hnamed, true_and]
  have hdisjoint : sideOf ev ∈ yesWords → sideOf ev ∉ noWords := by
    intro h
    exact (show ∀ word ∈ yesWords, word ∉ noWords by decide) _ h
  by_cases hpledges : Pledges id ev
  · have hamt := hpledges.2
    have hside := List.mem_append.mp hpledges.1.2.2
    simp only [tally, pendingOnly_singleton, Market.pledge, hyes, hno,
      Nat.ne_of_gt hamt, if_false]
    cases ev.pending with
    | true =>
        simp only [if_true, pledged_singleton, pledges_singleton, hpledges,
          hbacks]
        rcases hside with h | h
        · simp only [h, hdisjoint h, if_true, if_false]
          rfl
        · have hnot : sideOf ev ∉ yesWords := fun hy => hdisjoint hy h
          simp only [h, hnot, if_true, if_false]
          rfl
    | false =>
        simp only [Bool.false_eq_true, if_false, pledged_singleton,
          pledges_singleton, hpledges, if_true, hbacks]
        rcases hside with h | h
        · simp only [h, hdisjoint h, if_true, if_false]
          rfl
        · have hnot : sideOf ev ∉ yesWords := fun hy => hdisjoint hy h
          simp only [h, hnot, if_true, if_false]
          rfl
  · rw [tally_of_not_pledges hpledges, Totals.add_zero, Market.pledge]
    split
    next => rfl
    next hamt =>
      have hside : sideOf ev ∉ yesWords ++ noWords := by
        intro h
        exact hpledges ⟨⟨hop, hnamed, h⟩, Nat.pos_of_ne_zero hamt⟩
      rw [List.mem_append, not_or] at hside
      rw [if_neg (mt hyes.mp hside.1), if_neg (mt hno.mp hside.2)]

theorem toLowerCase_mem_iff (letters : CaseMapping) {words : List JsString}
    (hwords : (words.all fun word =>
      word.all fun u => isLowerUnit u && u ≠ 0x6b) = true) (s : JsString) :
    letters.toLowerCase s ∈ words ↔ s.map lowerUnit ∈ words := by
  have hunits : ∀ word ∈ words, ∀ u ∈ word,
      isLowerUnit u = true ∧ u ≠ 0x6b := by
    simpa only [List.all_eq_true, Bool.and_eq_true, decide_eq_true_eq]
      using hwords
  constructor
  · intro h
    rw [(letters.toLowerCase_eq_iff s _ (hunits _ h)).mp rfl]
    exact h
  · intro h
    rw [(letters.toLowerCase_eq_iff s _ (hunits _ h)).mpr rfl]
    exact h

theorem Recorded.totals_eq {letters : CaseMapping} {mk mk' : Market fmt}
    {ev : BetEvent fmt} {id : JsString} (h : Recorded letters mk ev mk')
    (hnamed : ev.named = id) : mk'.totals = mk.totals + tally [ev] id := by
  have hother (hop : ev.op ≠ toJsString "buy".toList) : tally [ev] id = 0 :=
    tally_of_not_pledges fun hp => hop hp.1.1
  have hresolve (hop : ev.op = toJsString "resolve".toList) :
      ev.op ≠ toJsString "buy".toList :=
    ne_of_eq_of_ne hop ops_ne.1.symm
  cases h with
  | @buy amt side hop hamt hside =>
      have hamount : amountOf ev = amt := by rw [amountOf, hamt, Option.getD_some]
      have hsideOf : sideOf ev = side.map lowerUnit := by
        rw [sideOf, hside, Option.getD_some]
      rw [← hamount]
      apply pledge_totals hop hnamed
      · rw [hsideOf]
        exact toLowerCase_mem_iff letters (by decide) side
      · rw [hsideOf]
        exact toLowerCase_mem_iff letters (by decide) side
  | resolve hop => rw [hother (hresolve hop)]; rfl
  | unresolved hop => rw [hother (hresolve hop)]; rfl
  | analyze hop => rw [hother (ne_of_eq_of_ne hop ops_ne.2.1.symm)]; rfl
  | other hbuy => rw [hother hbuy]; rfl

theorem recordAll_totals {letters : CaseMapping} {events : List (BetEvent fmt)}
    {mk mk' : Market fmt} (h : mk.recordAll letters events = some mk') :
    mk'.totals = mk.totals + tally events mk.id := by
  rw [Market.recordAll] at h
  generalize mk.id = id at h ⊢
  induction events generalizing mk with
  | nil =>
      cases h
      rfl
  | cons ev events ih =>
      rw [← List.singleton_append, tally_append]
      by_cases hnamed : ev.named = id
      · rw [List.filter_cons_of_pos (by simp [hnamed]), List.foldlM_cons] at h
        obtain ⟨mid, hmid, hrest⟩ := Option.bind_eq_some_iff.mp h
        rw [ih hrest, (recorded_of_record hmid).totals_eq hnamed,
          Totals.add_assoc]
      · rw [List.filter_cons_of_neg (by simp [hnamed])] at h
        rw [ih h, tally_of_not_pledges (fun hp => hnamed hp.1.2.1),
          Totals.zero_add]

/-! ## The board -/

section Shown

variable {letters : CaseMapping} {events : List (BetEvent fmt)}

theorem totals_of_mem {board : List (Market fmt)}
    (h : reconstruct letters events = some board) {mk : Market fmt}
    (hmem : mk ∈ board) : mk.totals = tally events mk.id := by
  obtain ⟨ev, o, done, hby, _, hrecord, rfl⟩ := (mem_reconstruct h).mp hmem
  have hid : done.id = (ev.market o).id := recordAll_id hrecord
  have hopened : (ev.market o).totals = 0 := rfl
  have hsum := recordAll_totals hrecord
  rw [hopened, Totals.zero_add, ← hid] at hsum
  exact hsum

theorem totals_eq_some {board : List (Market fmt)}
    (h : reconstruct letters events = some board) {id : JsString}
    (hid : OpenedIn events id) :
    totals letters events id = some (tally events id) := by
  obtain ⟨found, hmem, hfoundId, hfound⟩ := find_shown h hid
  have htotals := totals_of_mem h hmem
  rw [hfoundId] at htotals
  simp only [totals, h, hfound, htotals, Option.bind_eq_bind, Option.bind_some,
    Option.pure_def]

theorem totals_eq_none_of_broken (h : ¬ Coercible events) (id : JsString) :
    totals letters events id = none := by
  rw [totals, reconstruct_eq_none h]
  rfl

theorem totals_eq_none_of_unopened {id : JsString} (h : ¬ OpenedIn events id) :
    totals letters events id = none := by
  rw [totals]
  cases hboard : reconstruct letters events with
  | none => rfl
  | some board =>
      simp only [find_unopened hboard h, Option.bind_eq_bind, Option.bind_some,
        Option.bind_none]

theorem totals_eq (id : JsString) :
    (Coercible events → OpenedIn events id →
      totals letters events id = some (tally events id)) ∧
    (¬ Coercible events ∨ ¬ OpenedIn events id →
      totals letters events id = none) := by
  constructor
  · intro hcoercible hid
    obtain ⟨board, hboard⟩ := reconstruct_isSome_iff.mpr hcoercible
    exact totals_eq_some hboard hid
  · rintro (h | h)
    · exact totals_eq_none_of_broken h id
    · exact totals_eq_none_of_unopened h

/--
The totals of every market that is opened are those of its buys, whatever the
order of the events, exactly if everything that the page coerces can be coerced;
an event that names another market then changes none of them.
-/
theorem totals_exact (letters : CaseMapping) (events : List (BetEvent fmt)) :
    ((∀ id, OpenedIn events id →
      totals letters events id = some (tally events id)) ↔
        Coercible events) ∧
    (∀ events', events.Perm events' → ∀ id,
      totals letters events' id = totals letters events id) ∧
    ∀ before ev after id, events = before ++ ev :: after →
      ev.named ≠ id → OpenedIn (before ++ after) id →
      Coercible (before ++ after) →
      (totals letters events id = totals letters (before ++ after) id ↔
        Coercible events) := by
  refine ⟨⟨?_, ?_⟩, ?_, ?_⟩
  · intro h
    by_contra hbroken
    obtain ⟨id, hid⟩ : ∃ id, OpenedIn events id := by
      by_contra hnone
      apply hbroken
      constructor
      · intro ev hev hopens
        exact absurd ⟨ev.id, ev, hev, hopens, rfl⟩ hnone
      · intro ev _ hopened
        exact absurd ⟨ev.named, hopened⟩ hnone
    have hsome := h id hid
    rw [totals_eq_none_of_broken hbroken] at hsome
    cases hsome
  · intro hcoercible id
    exact (totals_eq id).1 hcoercible
  · intro events' hperm id
    by_cases hcoercible : Coercible events
    · by_cases hid : OpenedIn events id
      · have hid' := (openedIn_perm hperm id).mp hid
        rw [(totals_eq id).1 hcoercible hid, tally_perm hperm,
          (totals_eq id).1 ((coercible_perm hperm).mp hcoercible) hid']
      · have hid' := mt (openedIn_perm hperm id).mpr hid
        rw [(totals_eq id).2 (Or.inr hid), (totals_eq id).2 (Or.inr hid')]
    · rw [(totals_eq id).2 (Or.inl hcoercible), (totals_eq id).2
        (Or.inl (mt (coercible_perm hperm).mpr hcoercible))]
  · rintro before ev after id rfl hnamed hid hbefore
    have hid' : OpenedIn (before ++ ev :: after) id := by
      obtain ⟨opening, hopening, hopens⟩ := hid
      refine ⟨opening, ?_, hopens⟩
      rw [List.mem_append] at hopening ⊢
      exact hopening.imp_right (List.mem_cons_of_mem _)
    have hsame : tally (before ++ ev :: after) id =
        tally (before ++ after) id := by
      rw [tally_append, tally_append, ← List.singleton_append, tally_append,
        tally_of_not_pledges (fun hp => hnamed hp.1.2.1), Totals.zero_add]
    rw [(totals_eq id).1 hbefore hid]
    constructor
    · intro h
      by_contra hbroken
      rw [totals_eq_none_of_broken hbroken] at h
      cases h
    · intro hcoercible
      rw [(totals_eq id).1 hcoercible hid', hsame]

end Shown

end Totals

/-! ## Sample events -/

def textMember (key value : String) :
    JsString × Json literalFormat.Number :=
  (toJsString key.toList, .string (toJsString value.toList))

def sampleEvent (hash op : String)
    (members : List (JsString × Json literalFormat.Number)) (info : Meta) :
    BetEvent literalFormat where
  op := toJsString op.toList
  body := .object
    (textMember "p" "ire-bet" :: textMember "op" op :: members)
  id := toJsString (hash.toList ++ "i0".toList)
  hash := hash.toList
  msgs := 1
  height := info.height
  pending := info.pending
  id_eq := rfl

def rainOpen : BetEvent literalFormat :=
  sampleEvent "aa" "open" [textMember "q" "rain?"] ⟨some 7, false⟩

def rainBuy : BetEvent literalFormat :=
  sampleEvent "bb" "buy" [textMember "m" "aai0", textMember "s" "Yes",
    textMember "a" "40"] ⟨some 8, false⟩

/-- A buy whose side is an object that hides `toString`. -/
def hidingBuy : BetEvent literalFormat :=
  sampleEvent "cc" "buy" [textMember "m" "aai0",
    (toJsString "s".toList, .object [textMember "toString" ""])]
    ⟨some 9, false⟩

def otherAnalysis : BetEvent literalFormat :=
  sampleEvent "dd" "analyze" [textMember "m" "eei0"] ⟨none, true⟩

theorem openedIn_rainOpen {events : List (BetEvent literalFormat)}
    (h : rainOpen ∈ events) :
    OpenedIn events (toJsString "aai0".toList) :=
  ⟨rainOpen, h, by decide +kernel, by decide⟩

theorem coercible_rain : Coercible [rainOpen, rainBuy] :=
  reconstruct_isSome_iff.mp
    (Option.isSome_iff_exists.mp (show (reconstruct asciiLetters
      [rainOpen, rainBuy]).isSome = true by decide +kernel))

theorem totals_exact_sample :
    totals asciiLetters [rainOpen, otherAnalysis, rainBuy]
        (toJsString "aai0".toList) =
      totals asciiLetters [rainOpen, rainBuy] (toJsString "aai0".toList) :=
  ((totals_exact asciiLetters [rainOpen, otherAnalysis, rainBuy]).2.2
    [rainOpen] otherAnalysis [rainBuy] _ rfl (by decide +kernel)
    (openedIn_rainOpen (by simp)) coercible_rain).mpr
      (reconstruct_isSome_iff.mp (Option.isSome_iff_exists.mp
        (show (reconstruct asciiLetters
          [rainOpen, otherAnalysis, rainBuy]).isSome = true by
            decide +kernel)))

theorem totals_of_hiding_buy :
    OpenedIn [rainOpen, rainBuy, hidingBuy] (toJsString "aai0".toList) ∧
      totals asciiLetters [rainOpen, rainBuy, hidingBuy]
        (toJsString "aai0".toList) = none ∧
      tally [rainOpen, rainBuy, hidingBuy] (toJsString "aai0".toList) =
        ⟨40, 0, 1, 0, 0, 0⟩ :=
  ⟨openedIn_rainOpen (by simp), by decide +kernel, by decide +kernel⟩

end IreBlockchain.Explorer

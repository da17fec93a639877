import IreBlockchain.Explorer.Board
import IreBlockchain.Foundation.Results

/-!
# The two passes over the events

What the passes leave under one id depends on the events about that id alone,
and whether a pass ends early depends on no other state than which markets are
open.
-/

namespace IreBlockchain.Explorer

open IreBlockchain.Foundation

/-! ## The map -/

section Map

variable {fmt : NumberFormat}

@[simp] theorem lookup_nil (id : JsString) :
    Markets.lookup ([] : Markets fmt) id = none := rfl

theorem lookup_cons (entry : JsString × Market fmt) (markets : Markets fmt)
    (id : JsString) :
    Markets.lookup (entry :: markets) id =
      if entry.1 = id then some entry.2 else Markets.lookup markets id := by
  by_cases h : entry.1 = id
  · simp [Markets.lookup, h]
  · simp [Markets.lookup, h]

theorem lookup_append_singleton (markets : Markets fmt)
    (entry : JsString × Market fmt) (id : JsString) :
    Markets.lookup (markets ++ [entry]) id =
      (Markets.lookup markets id).or
        (if entry.1 = id then some entry.2 else none) := by
  induction markets with
  | nil => simp [lookup_cons]
  | cons head markets ih =>
      rw [List.cons_append, lookup_cons, lookup_cons, ih]
      split
      next => simp
      next => rfl

theorem any_key_iff {markets : Markets fmt} {key : JsString} :
    markets.any (·.1 = key) = true ↔ key ∈ markets.map Prod.fst := by
  simp

theorem lookup_eq_none_iff {markets : Markets fmt} {id : JsString} :
    markets.lookup id = none ↔ id ∉ markets.map Prod.fst := by
  rw [← any_key_iff, Bool.not_eq_true]
  simp [Markets.lookup, List.find?_eq_none]

theorem lookup_map_replace (markets : Markets fmt) (key : JsString)
    (mk : Market fmt) (id : JsString) :
    Markets.lookup (markets.map fun entry =>
        if entry.1 = key then (key, mk) else entry) id =
      if id = key then (markets.lookup key).map fun _ => mk
      else markets.lookup id := by
  induction markets with
  | nil => simp
  | cons head markets ih =>
      rw [List.map_cons, lookup_cons, lookup_cons, lookup_cons, ih]
      grind

theorem lookup_setMember (markets : Markets fmt) (key : JsString)
    (mk : Market fmt) (id : JsString) :
    Markets.lookup (setMember markets key mk) id =
      if id = key then some mk else markets.lookup id := by
  rw [setMember]
  split
  next hany =>
    rw [lookup_map_replace]
    have hsome : markets.lookup key ≠ none := by
      rw [ne_eq, lookup_eq_none_iff, not_not]
      exact any_key_iff.mp hany
    obtain ⟨old, hold⟩ := Option.ne_none_iff_exists'.mp hsome
    rw [hold, Option.map_some]
  next hany =>
    rw [any_key_iff] at hany
    rw [lookup_append_singleton]
    by_cases hid : id = key
    · rw [hid, lookup_eq_none_iff.mpr hany]
      simp
    · rw [if_neg (Ne.symm hid), if_neg hid, Option.or_none]

theorem keys_setMember (markets : Markets fmt) (key : JsString)
    (mk : Market fmt) :
    (setMember markets key mk).map Prod.fst =
      if key ∈ markets.map Prod.fst then markets.map Prod.fst
      else markets.map Prod.fst ++ [key] := by
  rw [setMember]
  split
  next hany =>
    rw [if_pos (any_key_iff.mp hany), List.map_map]
    apply List.map_congr_left
    intro entry _
    by_cases h : entry.1 = key
    · simp [h]
    · simp [h]
  next hany =>
    rw [if_neg (mt any_key_iff.mpr hany), List.map_append]
    rfl

theorem nodup_keys_setMember {markets : Markets fmt}
    (h : (markets.map Prod.fst).Nodup) (key : JsString) (mk : Market fmt) :
    ((setMember markets key mk).map Prod.fst).Nodup := by
  rw [keys_setMember]
  split
  next => exact h
  next hkey =>
    rw [List.nodup_append]
    refine ⟨h, List.nodup_singleton key, ?_⟩
    intro other hother last hlast
    rw [List.mem_singleton.mp hlast]
    rintro rfl
    exact hkey hother

theorem lookup_eq_some_iff {markets : Markets fmt}
    (h : (markets.map Prod.fst).Nodup) {id : JsString} {mk : Market fmt} :
    markets.lookup id = some mk ↔ (id, mk) ∈ markets := by
  induction markets with
  | nil => simp
  | cons head markets ih =>
      rw [List.map_cons, List.nodup_cons] at h
      rw [lookup_cons, List.mem_cons]
      split
      next hid =>
        subst hid
        have hnot : (head.1, mk) ∉ markets := by
          intro hmem
          exact h.1 (List.mem_map.mpr ⟨_, hmem, rfl⟩)
        simp [hnot, Prod.ext_iff, eq_comm]
      next hid =>
        have hne : (id, mk) ≠ head := by
          rintro rfl
          exact hid rfl
        simp [hne, ih h.2]

end Map

/-! ## What cannot be coerced -/

section Coercible

variable {fmt : NumberFormat}

/-- The property is there and cannot be coerced. -/
def Broken (v : Option (Json fmt.Number)) : Prop :=
  ∃ a, v = some a ∧ Uncoercible a

theorem broken_some_iff {a : Json fmt.Number} :
    Broken (some a) ↔ stringOf fmt a = none := by
  rw [stringOf_eq_none_iff]
  simp [Broken]

theorem parseAmount_eq_none_iff {v : Option (Json fmt.Number)} :
    parseAmount v = none ↔ Broken v := by
  cases v with
  | none => simp [parseAmount, Broken]
  | some a =>
      rw [broken_some_iff]
      cases a with
      | array vs => exact Option.map_eq_none_iff
      | object ms => exact Option.map_eq_none_iff
      | bool b => cases b <;> exact iff_of_false nofun nofun
      | _ => exact iff_of_false nofun nofun

theorem textOr_eq_none_iff {v : Option (Json fmt.Number)} :
    textOr fmt v = none ↔ Broken v := by
  cases v with
  | none => simp [textOr, isFalsy, Broken]
  | some a =>
      have hfalsy : isFalsy fmt (some a) = true → stringOf fmt a ≠ none := by
        intro h
        cases a with
        | bool b => cases b <;> exact nofun
        | array vs => cases h
        | object ms => cases h
        | _ => exact nofun
      rw [broken_some_iff, textOr]
      split
      next h => exact iff_of_false (by simp) (hfalsy h)
      next => exact Iff.rfl

theorem numberOf_eq_none_iff {v : Option (Json fmt.Number)} :
    numberOf fmt v = none ↔ Broken v := by
  rw [numberOf, Option.map_eq_none_iff]
  cases v with
  | none => simp [toNumber, Broken]
  | some a =>
      rw [broken_some_iff]
      cases a with
      | array vs => exact Option.map_eq_none_iff
      | object ms => exact Option.map_eq_none_iff
      | bool b => cases b <;> exact iff_of_false nofun nofun
      | _ => exact iff_of_false nofun nofun

end Coercible

/-! ## The first pass -/

section FirstPass

variable {fmt : NumberFormat}

def Opens (ev : BetEvent fmt) : Prop :=
  ev.op = toJsString "open".toList ∧
    trimmedOr fmt (ev.body.get "q".toList) ≠ []

instance (ev : BetEvent fmt) : Decidable (Opens ev) :=
  inferInstanceAs (Decidable (_ ∧ _))

def OpenBroken (ev : BetEvent fmt) : Prop :=
  optionTexts (ev.body.get "o".toList) = none

theorem openMarket_of_not_opens {markets : Markets fmt} {ev : BetEvent fmt}
    (h : ¬ Opens ev) : openMarket markets ev = some markets := by
  rw [openMarket]
  split
  next => rfl
  next hop =>
    rw [if_pos]
    by_contra hq
    exact h ⟨not_not.mp hop, hq⟩

theorem openMarket_of_opens {markets : Markets fmt} {ev : BetEvent fmt}
    (h : Opens ev) : openMarket markets ev =
      (optionTexts (ev.body.get "o".toList)).map fun o =>
        setMember markets ev.id (ev.market o) := by
  rw [openMarket, if_neg (not_not.mpr h.1), if_neg h.2]

def openedBy (events : List (BetEvent fmt)) (id : JsString) :
    Option (BetEvent fmt) :=
  (events.filter fun ev => Opens ev ∧ ev.id = id).getLast?

theorem openedBy_append (before after : List (BetEvent fmt))
    (id : JsString) : openedBy (before ++ after) id =
      (openedBy after id).or (openedBy before id) := by
  rw [openedBy, List.filter_append, List.getLast?_append]
  rfl

theorem openedBy_append_singleton (events : List (BetEvent fmt)) (ev : BetEvent fmt)
    (id : JsString) :
    openedBy (events ++ [ev]) id =
      if Opens ev ∧ ev.id = id then some ev else openedBy events id := by
  rw [openedBy_append]
  split
  next h => simp [openedBy, h]
  next h => simp [openedBy, h]

/-- What the first pass has left of some events. -/
structure Opened (events : List (BetEvent fmt)) (markets : Markets fmt) :
    Prop where
  nodup : (markets.map Prod.fst).Nodup
  found : ∀ id ev, openedBy events id = some ev →
    ∃ o, optionTexts (ev.body.get "o".toList) = some o ∧
      markets.lookup id = some (ev.market o)
  absent : ∀ id, openedBy events id = none → markets.lookup id = none

theorem opened_nil : Opened ([] : List (BetEvent fmt)) [] :=
  ⟨List.nodup_nil, nofun, fun _ _ => rfl⟩

theorem Opened.step {events : List (BetEvent fmt)} {markets : Markets fmt}
    (h : Opened events markets) {ev : BetEvent fmt} {next : Markets fmt}
    (hnext : openMarket markets ev = some next) :
    Opened (events ++ [ev]) next := by
  by_cases hopens : Opens ev
  · rw [openMarket_of_opens hopens] at hnext
    obtain ⟨o, ho, rfl⟩ := Option.map_eq_some_iff.mp hnext
    refine ⟨nodup_keys_setMember h.nodup _ _, ?_, ?_⟩
    · intro id other hother
      rw [openedBy_append_singleton] at hother
      rw [lookup_setMember]
      by_cases hid : ev.id = id
      · rw [if_pos ⟨hopens, hid⟩] at hother
        cases hother
        exact ⟨o, ho, by rw [if_pos hid.symm]⟩
      · rw [if_neg (fun h => hid h.2)] at hother
        rw [if_neg (Ne.symm hid)]
        exact h.found id other hother
    · intro id hnone
      rw [openedBy_append_singleton] at hnone
      rw [lookup_setMember]
      by_cases hid : ev.id = id
      · rw [if_pos ⟨hopens, hid⟩] at hnone
        cases hnone
      · rw [if_neg (fun h => hid h.2)] at hnone
        rw [if_neg (Ne.symm hid)]
        exact h.absent id hnone
  · rw [openMarket_of_not_opens hopens] at hnext
    cases hnext
    have hskip (id : JsString) :
        openedBy (events ++ [ev]) id = openedBy events id := by
      rw [openedBy_append_singleton, if_neg (fun h => hopens h.1)]
    refine ⟨h.nodup, ?_, ?_⟩
    · intro id other hother
      rw [hskip] at hother
      exact h.found id other hother
    · intro id hnone
      rw [hskip] at hnone
      exact h.absent id hnone

theorem openMarket_eq_none_iff {markets : Markets fmt} {ev : BetEvent fmt} :
    openMarket markets ev = none ↔ Opens ev ∧ OpenBroken ev := by
  by_cases hopens : Opens ev
  · rw [openMarket_of_opens hopens, Option.map_eq_none_iff]
    simp [hopens, OpenBroken]
  · rw [openMarket_of_not_opens hopens]
    simp [hopens]

theorem foldlM_openMarket_eq_none_iff {events : List (BetEvent fmt)} :
    events.foldlM openMarket [] = none ↔
      ∃ ev ∈ events, Opens ev ∧ OpenBroken ev :=
  foldlM_eq_none_iff (fun _ => True) (fun _ _ _ _ _ => trivial)
    (fun _ _ _ => openMarket_eq_none_iff) trivial

theorem opened_of_foldlM {events : List (BetEvent fmt)}
    {markets : Markets fmt}
    (h : events.foldlM openMarket [] = some markets) :
    Opened events markets := by
  induction events using List.reverseRecOn generalizing markets with
  | nil =>
      cases h
      exact opened_nil
  | append_singleton events ev ih =>
      rw [List.foldlM_append] at h
      obtain ⟨before, hbefore, hlast⟩ := Option.bind_eq_some_iff.mp h
      rw [List.foldlM_cons] at hlast
      obtain ⟨after, hafter, heq⟩ := Option.bind_eq_some_iff.mp hlast
      cases heq
      exact (ih hbefore).step hafter

theorem openedBy_eq_some {events : List (BetEvent fmt)} {id : JsString}
    {ev : BetEvent fmt} (h : openedBy events id = some ev) :
    ev ∈ events ∧ Opens ev ∧ ev.id = id := by
  have hmem := List.mem_of_getLast? h
  rw [List.mem_filter] at hmem
  exact ⟨hmem.1, of_decide_eq_true hmem.2⟩

theorem openedBy_eq_none_iff {events : List (BetEvent fmt)} {id : JsString} :
    openedBy events id = none ↔
      ∀ ev ∈ events, Opens ev → ev.id ≠ id := by
  rw [openedBy, List.getLast?_eq_none_iff, List.filter_eq_nil_iff]
  simp

def OpenedIn (events : List (BetEvent fmt)) (id : JsString) : Prop :=
  ∃ ev ∈ events, Opens ev ∧ ev.id = id

theorem openedBy_ne_none_iff {events : List (BetEvent fmt)}
    {id : JsString} :
    openedBy events id ≠ none ↔ OpenedIn events id := by
  rw [ne_eq, openedBy_eq_none_iff]
  push Not
  rfl

end FirstPass

/-! ## The second pass -/

section SecondPass

variable {fmt : NumberFormat} {letters : CaseMapping}

def RecordBroken (ev : BetEvent fmt) : Prop :=
  (ev.op = toJsString "buy".toList ∧
      (Broken (ev.body.get "a".toList) ∨ Broken (ev.body.get "s".toList))) ∨
    (ev.op = toJsString "resolve".toList ∧ Broken (ev.body.get "w".toList)) ∨
    (ev.op = toJsString "analyze".toList ∧
      (Broken (ev.body.get "y".toList) ∨ Broken (ev.body.get "n".toList)))

theorem ops_ne : toJsString "buy".toList ≠ toJsString "resolve".toList ∧
    toJsString "buy".toList ≠ toJsString "analyze".toList ∧
    toJsString "resolve".toList ≠ toJsString "analyze".toList := by
  decide

theorem record_eq_none_iff {mk : Market fmt} {ev : BetEvent fmt} :
    mk.record letters ev = none ↔ RecordBroken ev := by
  obtain ⟨hbuyResolve, hbuyAnalyze, hresolveAnalyze⟩ := ops_ne
  have hpair {α β γ : Type} {x : Option α} {y : Option β} {f : α → β → γ} :
      (do let a ← x; let b ← y; return f a b) = none ↔ x = none ∨ y = none := by
    cases x <;> cases y <;> simp
  rw [Market.record]
  split
  next hop =>
    rw [hpair, parseAmount_eq_none_iff, textOr_eq_none_iff]
    simp only [RecordBroken, hop, hbuyResolve, hbuyAnalyze, true_and,
      false_and, or_false]
  next hbuy =>
    split
    next hop =>
      have hmap : (do
          let text ← textOr fmt (ev.body.get "w".toList)
          let w := letters.toLowerCase text
          return if w = [] then mk else { mk with
            resolve := some ⟨w, ev.id, ev.pending, ev.height⟩ }) = none ↔
          textOr fmt (ev.body.get "w".toList) = none := by
        cases textOr fmt (ev.body.get "w".toList) <;> simp
      rw [hmap, textOr_eq_none_iff]
      simp only [RecordBroken, hop, Ne.symm hbuyResolve, hresolveAnalyze,
        true_and, false_and, or_false, false_or]
    next hresolve =>
      split
      next hop =>
        rw [hpair, numberOf_eq_none_iff, numberOf_eq_none_iff]
        simp only [RecordBroken, hop, Ne.symm hbuyAnalyze,
          Ne.symm hresolveAnalyze, true_and, false_and, false_or]
      next hanalyze =>
        simp only [RecordBroken, hbuy, hresolve, hanalyze, false_and, or_self,
          reduceCtorEq]

/-- What a turn of the second pass can do to the market that it names. -/
inductive Recorded (letters : CaseMapping) (mk : Market fmt)
    (ev : BetEvent fmt) : Market fmt → Prop
  | buy {amt : Nat} {side : JsString} (hop : ev.op = toJsString "buy".toList)
      (hamt : parseAmount (ev.body.get "a".toList) = some amt)
      (hside : textOr fmt (ev.body.get "s".toList) = some side) :
      Recorded letters mk ev
        (mk.pledge ev.pending amt (letters.toLowerCase side))
  | resolve {text : JsString} (hop : ev.op = toJsString "resolve".toList)
      (htext : textOr fmt (ev.body.get "w".toList) = some text)
      (hw : letters.toLowerCase text ≠ []) :
      Recorded letters mk ev { mk with
        resolve := some ⟨letters.toLowerCase text, ev.id, ev.pending,
          ev.height⟩ }
  | unresolved {text : JsString} (hop : ev.op = toJsString "resolve".toList)
      (htext : textOr fmt (ev.body.get "w".toList) = some text)
      (hw : letters.toLowerCase text = []) : Recorded letters mk ev mk
  | analyze {analyses : List (Analysis fmt)}
      (hop : ev.op = toJsString "analyze".toList) :
      Recorded letters mk ev { mk with analyses := analyses }
  | other (hbuy : ev.op ≠ toJsString "buy".toList)
      (hresolve : ev.op ≠ toJsString "resolve".toList) :
      Recorded letters mk ev mk

theorem recorded_of_record {mk mk' : Market fmt} {ev : BetEvent fmt}
    (h : mk.record letters ev = some mk') : Recorded letters mk ev mk' := by
  rw [Market.record] at h
  split at h
  next hop =>
    obtain ⟨amt, hamt, h⟩ := Option.bind_eq_some_iff.mp h
    obtain ⟨side, hside, h⟩ := Option.bind_eq_some_iff.mp h
    cases h
    exact .buy hop hamt hside
  next hbuy =>
    split at h
    next hop =>
      obtain ⟨text, htext, h⟩ := Option.bind_eq_some_iff.mp h
      cases h
      split
      next hw => exact .unresolved hop htext hw
      next hw => exact .resolve hop htext hw
    next hresolve =>
      split at h
      next hop =>
        obtain ⟨y, _, h⟩ := Option.bind_eq_some_iff.mp h
        obtain ⟨n, _, h⟩ := Option.bind_eq_some_iff.mp h
        cases h
        exact .analyze hop
      next =>
        cases h
        exact .other hbuy hresolve

def Market.opening (mk : Market fmt) :
    JsString × JsString × List JsString × Option Nat × Bool :=
  (mk.id, mk.q, mk.o, mk.height, mk.pending)

theorem pledge_opening (mk : Market fmt) (pending : Bool) (amt : Nat)
    (side : JsString) : (mk.pledge pending amt side).opening = mk.opening := by
  rw [Market.pledge]
  split
  next => rfl
  next => split <;> [rfl; (split <;> rfl)]

theorem pledge_resolve (mk : Market fmt) (pending : Bool) (amt : Nat)
    (side : JsString) : (mk.pledge pending amt side).resolve = mk.resolve := by
  rw [Market.pledge]
  split
  next => rfl
  next => split <;> [rfl; (split <;> rfl)]

theorem Recorded.opening_eq {mk mk' : Market fmt} {ev : BetEvent fmt}
    (h : Recorded letters mk ev mk') : mk'.opening = mk.opening := by
  cases h with
  | buy => exact pledge_opening mk _ _ _
  | resolve => rfl
  | unresolved => rfl
  | analyze => rfl
  | other => rfl

def Market.recordAll (letters : CaseMapping) (mk : Market fmt)
    (events : List (BetEvent fmt)) : Option (Market fmt) :=
  (events.filter fun ev => ev.named = mk.id).foldlM
    (fun mk ev => mk.record letters ev) mk

theorem foldlM_record_opening {events : List (BetEvent fmt)}
    {mk mk' : Market fmt}
    (h : events.foldlM (fun mk ev => mk.record letters ev) mk = some mk') :
    mk'.opening = mk.opening := by
  induction events generalizing mk with
  | nil =>
      cases h
      rfl
  | cons ev events ih =>
      rw [List.foldlM_cons] at h
      obtain ⟨mid, hmid, hrest⟩ := Option.bind_eq_some_iff.mp h
      rw [ih hrest, (recorded_of_record hmid).opening_eq]

theorem recordEvent_eq_none_iff {markets : Markets fmt}
    {ev : BetEvent fmt} :
    recordEvent letters markets ev = none ↔
      ev.named ≠ [] ∧ markets.lookup ev.named ≠ none ∧ RecordBroken ev := by
  rw [recordEvent]
  split
  next hnil => simp [hnil]
  next hnamed =>
    cases hmarket : markets.lookup ev.named with
    | none => simp
    | some mk =>
        dsimp only
        rw [Option.map_eq_none_iff, record_eq_none_iff]
        simp [hnamed]

theorem lookup_recordEvent {markets next : Markets fmt} {ev : BetEvent fmt}
    (h : recordEvent letters markets ev = some next) {id : JsString}
    (hid : id ≠ []) :
    next.lookup id =
      if ev.named = id then
        (markets.lookup id).bind fun mk => mk.record letters ev
      else markets.lookup id := by
  rw [recordEvent] at h
  split at h
  next hnil =>
    cases h
    rw [if_neg]
    intro heq
    exact hid (heq ▸ hnil)
  next hnamed =>
    cases hmarket : markets.lookup ev.named with
    | none =>
        rw [hmarket] at h
        cases h
        split
        next heq => rw [← heq, hmarket]; rfl
        next => rfl
    | some mk =>
        rw [hmarket] at h
        obtain ⟨mk', hrecord, rfl⟩ := Option.map_eq_some_iff.mp h
        rw [lookup_setMember]
        by_cases heq : ev.named = id
        · rw [if_pos heq.symm, if_pos heq, ← heq, hmarket]
          exact hrecord.symm
        · rw [if_neg (Ne.symm heq), if_neg heq]

theorem keys_recordEvent {markets next : Markets fmt} {ev : BetEvent fmt}
    (h : recordEvent letters markets ev = some next) :
    next.map Prod.fst = markets.map Prod.fst := by
  rw [recordEvent] at h
  split at h
  next =>
    cases h
    rfl
  next =>
    cases hmarket : markets.lookup ev.named with
    | none =>
        rw [hmarket] at h
        cases h
        rfl
    | some mk =>
        rw [hmarket] at h
        obtain ⟨mk', _, rfl⟩ := Option.map_eq_some_iff.mp h
        have hmem : ev.named ∈ markets.map Prod.fst := by
          by_contra hnot
          rw [lookup_eq_none_iff.mpr hnot] at hmarket
          cases hmarket
        rw [keys_setMember, if_pos hmem]

theorem lookup_recordEvents {events : List (BetEvent fmt)}
    {markets done : Markets fmt}
    (h : events.foldlM (recordEvent letters) markets = some done)
    {id : JsString} (hid : id ≠ []) :
    done.lookup id = (markets.lookup id).bind fun mk =>
      (events.filter fun ev => ev.named = id).foldlM
        (fun mk ev => mk.record letters ev) mk := by
  induction events generalizing markets with
  | nil =>
      cases h
      simp
  | cons ev events ih =>
      rw [List.foldlM_cons] at h
      obtain ⟨next, hnext, hrest⟩ := Option.bind_eq_some_iff.mp h
      rw [ih hrest, lookup_recordEvent hnext hid]
      by_cases hnamed : ev.named = id
      · rw [if_pos hnamed, List.filter_cons_of_pos (by simp [hnamed])]
        cases markets.lookup id with
        | none => rfl
        | some mk => rfl
      · rw [if_neg hnamed, List.filter_cons_of_neg (by simp [hnamed])]

theorem keys_recordEvents {events : List (BetEvent fmt)}
    {markets done : Markets fmt}
    (h : events.foldlM (recordEvent letters) markets = some done) :
    done.map Prod.fst = markets.map Prod.fst := by
  induction events generalizing markets with
  | nil =>
      cases h
      rfl
  | cons ev events ih =>
      rw [List.foldlM_cons] at h
      obtain ⟨next, hnext, hrest⟩ := Option.bind_eq_some_iff.mp h
      rw [ih hrest, keys_recordEvent hnext]

end SecondPass

/-! ## The board -/

section Whole

variable {fmt : NumberFormat} {letters : CaseMapping}

theorem BetEvent.id_ne_nil (ev : BetEvent fmt) : ev.id ≠ [] := by
  rw [ev.id_eq, toJsString, List.flatMap_append]
  exact List.append_ne_nil_of_right_ne_nil _ (by decide)

theorem openedBy_nil (events : List (BetEvent fmt)) :
    openedBy events [] = none := by
  rw [openedBy_eq_none_iff]
  intro ev _ _
  exact ev.id_ne_nil

/-- Everything that the passes coerce can be coerced. -/
structure Coercible (events : List (BetEvent fmt)) : Prop where
  opens : ∀ ev ∈ events, Opens ev → ¬ OpenBroken ev
  records : ∀ ev ∈ events, (∃ opening ∈ events,
    Opens opening ∧ opening.id = ev.named) → ¬ RecordBroken ev

theorem Opened.lookup_eq_none_iff {events : List (BetEvent fmt)}
    {markets : Markets fmt} (h : Opened events markets) {id : JsString} :
    markets.lookup id = none ↔ openedBy events id = none := by
  constructor
  · intro hnone
    cases hopened : openedBy events id with
    | none => rfl
    | some ev =>
        obtain ⟨o, _, hfound⟩ := h.found id ev hopened
        rw [hnone] at hfound
        cases hfound
  · exact h.absent id

theorem foldlM_recordEvent_eq_none_iff (letters : CaseMapping)
    {events : List (BetEvent fmt)}
    {markets : Markets fmt} (h : Opened events markets) :
    events.foldlM (recordEvent letters) markets = none ↔
      ∃ ev ∈ events, openedBy events ev.named ≠ none ∧ RecordBroken ev := by
  have hkeys : ∀ now : Markets fmt,
      now.map Prod.fst = markets.map Prod.fst →
        ∀ id, now.lookup id = none ↔ openedBy events id = none := by
    intro now hnow id
    rw [← h.lookup_eq_none_iff, Explorer.lookup_eq_none_iff,
      Explorer.lookup_eq_none_iff, hnow]
  apply foldlM_eq_none_iff
    fun now : Markets fmt => now.map Prod.fst = markets.map Prod.fst
  · intro now ev next hnow hnext
    exact (keys_recordEvent hnext).trans hnow
  · intro now ev hnow
    rw [recordEvent_eq_none_iff, ne_eq (now.lookup ev.named), hkeys now hnow]
    constructor
    · rintro ⟨_, hopened, hbroken⟩
      exact ⟨hopened, hbroken⟩
    · rintro ⟨hopened, hbroken⟩
      refine ⟨?_, hopened, hbroken⟩
      intro hnil
      rw [hnil] at hopened
      exact hopened (openedBy_nil events)
  · rfl

theorem reconstruct_isSome_iff {events : List (BetEvent fmt)} :
    (∃ board, reconstruct letters events = some board) ↔
      Coercible events := by
  rw [← Option.ne_none_iff_exists', reconstruct]
  cases hfirst : events.foldlM openMarket [] with
  | none =>
      obtain ⟨ev, hev, hopens, hbroken⟩ :=
        foldlM_openMarket_eq_none_iff.mp hfirst
      refine iff_of_false (by simp) ?_
      intro hcoercible
      exact hcoercible.opens ev hev hopens hbroken
  | some opened =>
      have hsecond := foldlM_recordEvent_eq_none_iff letters
        (opened_of_foldlM hfirst)
      have hreads : ∀ ev ∈ events, Opens ev → ¬ OpenBroken ev := by
        intro ev hev hopens hbroken
        have hnone := foldlM_openMarket_eq_none_iff.mpr
          ⟨ev, hev, hopens, hbroken⟩
        rw [hfirst] at hnone
        cases hnone
      cases hdone : events.foldlM (recordEvent letters) opened with
      | none =>
          obtain ⟨ev, hev, hnamed, hbroken⟩ := hsecond.mp hdone
          refine iff_of_false (by simp [hdone]) ?_
          intro hcoercible
          exact hcoercible.records ev hev (openedBy_ne_none_iff.mp hnamed) hbroken
      | some done =>
          refine iff_of_true (by simp [hdone]) ⟨hreads, ?_⟩
          intro ev hev hnamed hbroken
          have hnone := hsecond.mpr
            ⟨ev, hev, openedBy_ne_none_iff.mpr hnamed, hbroken⟩
          rw [hdone] at hnone
          cases hnone

theorem recordAll_id {events : List (BetEvent fmt)} {mk mk' : Market fmt}
    (h : mk.recordAll letters events = some mk') : mk'.id = mk.id :=
  congrArg Prod.fst (foldlM_record_opening h)

theorem recordAll_pending {events : List (BetEvent fmt)} {mk mk' : Market fmt}
    (h : mk.recordAll letters events = some mk') : mk'.pending = mk.pending :=
  congrArg (·.2.2.2.2) (foldlM_record_opening h)

theorem lookup_passes {events : List (BetEvent fmt)}
    {opened done : Markets fmt}
    (hfirst : events.foldlM openMarket [] = some opened)
    (hdone : events.foldlM (recordEvent letters) opened = some done)
    {id : JsString} {mk : Market fmt} :
    done.lookup id = some mk ↔ ∃ ev o, openedBy events id = some ev ∧
      optionTexts (ev.body.get "o".toList) = some o ∧
      (ev.market o).recordAll letters events = some mk := by
  have hopened := opened_of_foldlM hfirst
  cases hby : openedBy events id with
  | none =>
      have hkeys := keys_recordEvents hdone
      have hnone : done.lookup id = none := by
        rw [lookup_eq_none_iff, hkeys, ← lookup_eq_none_iff]
        exact hopened.absent id hby
      simp [hnone]
  | some ev =>
      obtain ⟨o, ho, hfound⟩ := hopened.found id ev hby
      obtain ⟨_, _, hid⟩ := openedBy_eq_some hby
      have hne : id ≠ [] := hid ▸ ev.id_ne_nil
      rw [lookup_recordEvents hdone hne, hfound, Option.bind_some]
      constructor
      · intro hrecord
        refine ⟨ev, o, rfl, ho, ?_⟩
        rw [Market.recordAll, show (ev.market o).id = id from hid]
        exact hrecord
      · rintro ⟨ev', o', heq, ho', hrecord⟩
        cases heq
        rw [ho] at ho'
        cases ho'
        rw [Market.recordAll, show (ev.market o).id = id from hid] at hrecord
        exact hrecord

theorem mem_reconstruct {events : List (BetEvent fmt)}
    {board : List (Market fmt)} (h : reconstruct letters events = some board)
    {shown : Market fmt} :
    shown ∈ board ↔ ∃ ev o mk, openedBy events shown.id = some ev ∧
      optionTexts (ev.body.get "o".toList) = some o ∧
      (ev.market o).recordAll letters events = some mk ∧
      shown = mk.sorted := by
  obtain ⟨opened, hfirst, h⟩ := Option.bind_eq_some_iff.mp h
  obtain ⟨done, hdone, h⟩ := Option.bind_eq_some_iff.mp h
  cases h
  have hnodup : (done.map Prod.fst).Nodup := by
    rw [keys_recordEvents hdone]
    exact (opened_of_foldlM hfirst).nodup
  rw [List.mem_mergeSort, List.mem_map]
  constructor
  · rintro ⟨⟨id, mk⟩, hmem, rfl⟩
    obtain ⟨ev, o, hby, ho, hrecord⟩ := (lookup_passes hfirst hdone).mp
      ((lookup_eq_some_iff hnodup).mpr hmem)
    obtain ⟨_, _, hid⟩ := openedBy_eq_some hby
    have hmk : mk.id = id := (recordAll_id hrecord).trans hid
    exact ⟨ev, o, mk, by rw [← hby]; exact congrArg _ hmk, ho, hrecord, rfl⟩
  · rintro ⟨ev, o, mk, hby, ho, hrecord, heq⟩
    have hlookup := (lookup_passes hfirst hdone).mpr ⟨ev, o, hby, ho, hrecord⟩
    exact ⟨(shown.id, mk), (lookup_eq_some_iff hnodup).mp hlookup, heq.symm⟩

theorem sorted_mem_reconstruct {events : List (BetEvent fmt)}
    {board : List (Market fmt)} (h : reconstruct letters events = some board)
    {id : JsString} {ev : BetEvent fmt} (hby : openedBy events id = some ev) :
    ∃ o mk, optionTexts (ev.body.get "o".toList) = some o ∧
      (ev.market o).recordAll letters events = some mk ∧ mk.id = id ∧
      mk.sorted ∈ board := by
  obtain ⟨opened, hfirst, hrest⟩ := Option.bind_eq_some_iff.mp h
  obtain ⟨done, hdone, _⟩ := Option.bind_eq_some_iff.mp hrest
  have hfound : done.lookup id ≠ none := by
    rw [ne_eq, lookup_eq_none_iff, keys_recordEvents hdone,
      ← lookup_eq_none_iff, (opened_of_foldlM hfirst).lookup_eq_none_iff, hby]
    exact nofun
  obtain ⟨mk, hmk⟩ := Option.ne_none_iff_exists'.mp hfound
  obtain ⟨ev', o, hby', ho, hrecord⟩ := (lookup_passes hfirst hdone).mp hmk
  rw [hby] at hby'
  cases hby'
  have hid : mk.id = id :=
    (recordAll_id hrecord).trans (openedBy_eq_some hby).2.2
  refine ⟨o, mk, ho, hrecord, hid, (mem_reconstruct h).mpr ?_⟩
  exact ⟨ev, o, mk, hid ▸ hby, ho, hrecord, rfl⟩

/-! ## What is shown under an id -/

variable {events : List (BetEvent fmt)}

theorem reconstruct_eq_none (h : ¬ Coercible events) :
    reconstruct letters events = none := by
  by_contra hsome
  exact h (reconstruct_isSome_iff.mp (Option.ne_none_iff_exists'.mp hsome))

theorem openedIn_of_mem {board : List (Market fmt)}
    (h : reconstruct letters events = some board) {mk : Market fmt}
    (hmem : mk ∈ board) : OpenedIn events mk.id := by
  obtain ⟨ev, _, _, hby, _⟩ := (mem_reconstruct h).mp hmem
  exact openedBy_ne_none_iff.mp (hby ▸ nofun)

theorem exists_shown {board : List (Market fmt)}
    (h : reconstruct letters events = some board) {id : JsString}
    (hid : OpenedIn events id) : ∃ mk ∈ board, mk.id = id := by
  obtain ⟨ev, hev⟩ := Option.ne_none_iff_exists'.mp
    (openedBy_ne_none_iff.mpr hid)
  obtain ⟨_, mk, _, _, hmk, hmem⟩ := sorted_mem_reconstruct h hev
  exact ⟨mk.sorted, hmem, hmk⟩

theorem find_shown {board : List (Market fmt)}
    (h : reconstruct letters events = some board) {id : JsString}
    (hid : OpenedIn events id) :
    ∃ mk ∈ board, mk.id = id ∧ board.find? (fun mk => mk.id = id) = some mk := by
  obtain ⟨mk, hmem, hmk⟩ := exists_shown h hid
  have hfind : board.find? (fun mk => mk.id = id) ≠ none := by
    rw [ne_eq, List.find?_eq_none]
    intro hnone
    exact hnone _ hmem (decide_eq_true hmk)
  obtain ⟨found, hfound⟩ := Option.ne_none_iff_exists'.mp hfind
  have hfoundId := List.find?_some hfound
  exact ⟨found, List.mem_of_find?_eq_some hfound, of_decide_eq_true hfoundId,
    hfound⟩

theorem find_unopened {board : List (Market fmt)}
    (h : reconstruct letters events = some board) {id : JsString}
    (hid : ¬ OpenedIn events id) :
    board.find? (fun mk => mk.id = id) = none := by
  rw [List.find?_eq_none]
  intro mk hmem hmk
  have hopened := openedIn_of_mem h hmem
  rw [of_decide_eq_true hmk] at hopened
  exact hid hopened

theorem Coercible.of_subset {events' : List (BetEvent fmt)}
    (h : Coercible events') (hsub : ∀ ev ∈ events, ev ∈ events') :
    Coercible events := by
  constructor
  · intro ev hev
    exact h.opens ev (hsub ev hev)
  · rintro ev hev ⟨opening, hopening, hopens⟩
    exact h.records ev (hsub ev hev) ⟨opening, hsub _ hopening, hopens⟩

theorem coercible_perm {events' : List (BetEvent fmt)}
    (h : events.Perm events') : Coercible events ↔ Coercible events' := by
  constructor
  · intro hc
    exact hc.of_subset fun ev => h.mem_iff.mpr
  · intro hc
    exact hc.of_subset fun ev => h.mem_iff.mp

theorem openedIn_perm {events' : List (BetEvent fmt)}
    (h : events.Perm events') (id : JsString) :
    OpenedIn events id ↔ OpenedIn events' id := by
  simp only [OpenedIn, h.mem_iff]

end Whole

end IreBlockchain.Explorer

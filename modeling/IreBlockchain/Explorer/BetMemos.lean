import IreBlockchain.Explorer.BankSend
import IreBlockchain.Explorer.Markets

/-!
# Memos with a bet

A memo that announces a bet is the marker, the media type and the text of the
bet.  What the indexer reads of it depends on the bytes around it only where a
marker stands in them.
-/

namespace IreBlockchain.Explorer

open IreBlockchain.Foundation

def betPrefix : Text := "IREINSCRIBE1 application/json ".toList

/-- The memo of an object, by the convention for inscriptions. -/
def betMemo (fmt : NumberFormat) (o : Json fmt.Number) : Text :=
  betPrefix ++ o.stringify fmt

/-! ## The bytes before the memo -/

namespace TxRaw

theorem ascii_beforeMemo (tx : TxRaw) :
    ∃ front k c, asciiFromBytes tx.beforeMemo =
      front ++ nul :: (List.replicate k nul ++ [c]) := by
  obtain ⟨k, c, hvarint⟩ := ascii_varint (utf8 tx.body.memo).length
  refine ⟨asciiFromBytes (tag 1 2 ++ varint tx.body.encode.length ++
    tx.body.encodeMessages), k, c, ?_⟩
  have htag : asciiFromBytes (tag 2 2) = [nul] := by decide
  rw [beforeMemo, asciiFromBytes_append, asciiFromBytes_append (tag 2 2),
    htag, hvarint]
  rfl

end TxRaw

theorem not_marker_infix_nuls (k : Nat) (c : Char) :
    ¬ marker <:+: List.replicate k nul ++ [c] := by
  have hnil : ¬ marker <:+: [] := by decide
  induction k with
  | zero =>
      intro h
      have hlength := h.length_le
      have hmarker : marker.length = 12 := by decide
      rw [hmarker] at hlength
      exact absurd hlength (by simp)
  | succ k ih =>
      intro h
      have hsplit := (infix_append_separator_iff marker_ne_nil
        nul_not_mem_marker (l := [])).mp h
      cases hsplit with
      | inl h => exact hnil h
      | inr h => exact ih h

theorem parseInscription_encode {tx : TxRaw} (hmemo : tx.body.memo ≠ [])
    (h : marker <:+: asciiFromBytes tx.beforeMemo) :
    parseInscription (asciiFromBytes tx.encode) =
      parseInscription (asciiFromBytes tx.beforeMemo) := by
  obtain ⟨front, k, c, hbefore⟩ := tx.ascii_beforeMemo
  rw [TxRaw.encode_of_memo hmemo, asciiFromBytes_append, hbefore]
  rw [hbefore] at h
  have hfront : marker <:+: front := by
    cases (infix_append_separator_iff marker_ne_nil
      nul_not_mem_marker).mp h with
    | inl h => exact h
    | inr h => exact absurd h (not_marker_infix_nuls k c)
  rw [List.append_assoc, List.cons_append, parseInscription_append hfront,
    parseInscription_append hfront]

theorem readInscription_encode {fmt : NumberFormat} {tx : TxRaw}
    (hmemo : tx.body.memo ≠ [])
    (h : marker <:+: asciiFromBytes tx.beforeMemo) :
    readInscription fmt (asciiFromBytes tx.encode) =
      readInscription fmt (asciiFromBytes tx.beforeMemo) := by
  rw [readInscription, readInscription, parseInscription_encode hmemo h]

/-! ## The payload of a memo -/

theorem payload_betPrefix {c : Char} (hc : isSpace c = false) (rest : Text) :
    (inscriptionOf (trim (betPrefix ++ c :: rest))).payload =
      c :: rest.rdropWhile isSpace := by
  have htrim : trim (betPrefix ++ c :: rest) =
      betPrefix ++ c :: rest.rdropWhile isSpace := by
    rw [trim, ← rdropWhile_append_cons hc]
    rfl
  apply isPayload_iff.mp
  refine Or.inl ⟨"application/json".toList, [' '], [' '], ?_, ?_, ?_, ?_, ?_⟩
  · exact htrim
  · exact ⟨by simp, List.all_eq_true.mp (by decide)⟩
  · refine ⟨by decide, ?_⟩
    intro c hc
    have hletters : "application/json".toList.all (!isSpace ·) = true := by
      decide
    simpa using List.all_eq_true.mp hletters c hc
  · exact ⟨by simp, List.all_eq_true.mp (by decide)⟩
  · exact ⟨c, _, rfl, hc⟩

theorem nul_not_mem_of_printable {text : Text}
    (h : ∀ c ∈ text, isPrintable c = true) : nul ∉ text := by
  intro hmem
  exact absurd (h nul hmem) (by decide)

theorem isPrintable_betPrefix : ∀ c ∈ betPrefix, isPrintable c = true :=
  List.all_eq_true.mp (by decide)

theorem readInscription_memo {fmt : NumberFormat} {before : Text}
    (hbefore : ¬ marker <:+: before) {c : Char} (hc : isSpace c = false)
    {rest after : Text} (hnul : nul ∉ c :: rest)
    (hafter : after = [] ∨ ∃ more, after = nul :: more) :
    readInscription fmt (before ++ (betPrefix ++ c :: rest ++ after)) =
      extractJson fmt (c :: rest.rdropWhile isSpace) := by
  have hfound : marker <+: betPrefix ++ c :: rest :=
    ⟨" application/json ".toList ++ c :: rest, rfl⟩
  have hfree : nul ∉ betPrefix ++ c :: rest := by
    rw [List.mem_append, not_or]
    exact ⟨nul_not_mem_of_printable isPrintable_betPrefix, hnul⟩
  rw [readInscription_of_first
    (firstInscription_append hbefore hfound hfree hafter),
    payload_betPrefix hc]

/-! ## Objects in memos -/

theorem stringify_object (fmt : NumberFormat)
    (members : List (JsString × Json fmt.Number)) :
    ∃ inner, (Json.object members).stringify fmt = '{' :: (inner ++ ['}']) := by
  cases members with
  | nil => exact ⟨[], rfl⟩
  | cons member members =>
      obtain ⟨key, v⟩ := member
      exact ⟨quote key ++ ':' :: v.stringify fmt ++
        stringifyMembers fmt members, by simp [Json.stringify]⟩

theorem stringify_of_isIreBet {fmt : NumberFormat} {o : Json fmt.Number}
    (ho : IsIreBet o) :
    ∃ inner, o.stringify fmt = '{' :: (inner ++ ['}']) := by
  obtain ⟨hp, _⟩ := ho
  cases o with
  | object members => exact stringify_object fmt members
  | null => cases hp
  | bool => cases hp
  | number => cases hp
  | string => cases hp
  | array => cases hp

theorem exists_unprintable {text : Text}
    (h : ¬ ∀ c ∈ text, isPrintable c = true) :
    ∃ front c rest, text = front ++ c :: rest ∧
      (∀ d ∈ front, isPrintable d = true) ∧ isPrintable c = false := by
  have hsplit := List.takeWhile_append_dropWhile (p := isPrintable) (l := text)
  cases dropWhile_eq_nil_or_cons isPrintable text with
  | inl hnil =>
      exfalso
      apply h
      intro c hc
      rw [hnil, List.append_nil] at hsplit
      rw [← hsplit] at hc
      exact List.mem_takeWhile_imp hc
  | inr hcons =>
      obtain ⟨c, rest, hcons, hc⟩ := hcons
      rw [hcons] at hsplit
      exact ⟨_, c, rest, hsplit.symm, fun d => List.mem_takeWhile_imp, hc⟩

section Reading

variable {fmt : NumberFormat} {o : Json fmt.Number} {before : Text}

theorem readInscription_printable (hwf : o.WellFormed fmt) {inner : Text}
    (htext : o.stringify fmt = '{' :: (inner ++ ['}']))
    (hprint : ∀ c ∈ o.stringify fmt, isPrintable c = true)
    (hbefore : ¬ marker <:+: before) (after : Text) :
    readInscription fmt
      (before ++ (asciiFromBytes (utf8 (betMemo fmt o)) ++ after)) =
        some o := by
  have hmemo : ∀ c ∈ betMemo fmt o, isPrintable c = true := by
    intro c hc
    cases List.mem_append.mp hc with
    | inl hc => exact isPrintable_betPrefix c hc
    | inr hc => exact hprint c hc
  have hparse := parse_stringify fmt o hwf
  obtain ⟨more, hafter, hend⟩ := exists_eq_cutAt_append nul after
  have hnul : nul ∉ '{' :: (inner ++ '}' :: cutAt nul after) := by
    have hobject := nul_not_mem_of_printable hprint
    have hcut : nul ∉ cutAt nul after := not_mem_cutAt after
    rw [htext] at hobject
    simp only [List.mem_cons, List.mem_append, List.not_mem_nil, or_false,
      not_or] at hobject ⊢
    exact ⟨hobject.1, hobject.2.1, hobject.2.2, hcut⟩
  have hbrace : isSpace '{' = false := by decide
  have hclose : isSpace '}' = false := by decide
  have hshape : betMemo fmt o ++ after =
      betPrefix ++ '{' :: (inner ++ '}' :: cutAt nul after) ++ more := by
    rw [betMemo, htext]
    nth_rewrite 1 [hafter]
    simp
  rw [ascii_utf8_of_printable hmemo, hshape,
    readInscription_memo hbefore hbrace hnul hend,
    rdropWhile_append_cons hclose]
  apply extractJson_eq_some_iff.mpr
  refine ⟨[], inner, (cutAt nul after).rdropWhile isSpace, by simp, by simp, ?_⟩
  rw [← htext]
  exact hparse

theorem readInscription_unprintable (hwf : o.WellFormed fmt) {inner : Text}
    (htext : o.stringify fmt = '{' :: (inner ++ ['}']))
    (hprint : ¬ ∀ c ∈ o.stringify fmt, isPrintable c = true)
    (hbefore : ¬ marker <:+: before) (after : Text) :
    readInscription fmt
      (before ++ (asciiFromBytes (utf8 (betMemo fmt o)) ++ after)) = none := by
  obtain ⟨front, c, rest, hsplit, hfront, hc⟩ := exists_unprintable hprint
  obtain ⟨tail, htail⟩ := ascii_utf8_of_unprintable hc rest
  have hparse := parse_stringify fmt o hwf
  rw [htext] at hparse hsplit
  obtain ⟨front', hfront'⟩ : ∃ front', front = '{' :: front' := by
    cases front with
    | nil =>
        have hbrace := (List.cons.inj hsplit).1
        rw [← hbrace] at hc
        exact absurd hc (by decide)
    | cons d front' => exact ⟨front', by rw [(List.cons.inj hsplit).1]⟩
  have hcut : front <+: '{' :: inner := by
    have hlength := congrArg List.length hsplit
    have hwhole : front <+: '{' :: (inner ++ ['}']) :=
      ⟨c :: rest, hsplit.symm⟩
    apply List.prefix_of_prefix_length_le hwhole
    · exact ⟨['}'], rfl⟩
    · simp only [List.length_append, List.length_cons, List.length_nil]
        at hlength ⊢
      omega
  have hascii : asciiFromBytes (utf8 (betMemo fmt o)) ++ after =
      betPrefix ++ front ++ nul :: (tail ++ after) := by
    rw [betMemo, htext, hsplit, utf8_append, utf8_append,
      asciiFromBytes_append, asciiFromBytes_append, htail,
      ascii_utf8_of_printable isPrintable_betPrefix,
      ascii_utf8_of_printable hfront]
    simp
  have hnul := nul_not_mem_of_printable hfront
  have hbrace : isSpace '{' = false := by decide
  rw [hfront'] at hascii hcut hnul
  rw [hascii, readInscription_memo hbefore hbrace hnul (Or.inr ⟨_, rfl⟩)]
  have hcut' : '{' :: front'.rdropWhile isSpace <+: '{' :: inner :=
    ((List.prefix_append_right_inj ['{']).mpr
      (List.rdropWhile_prefix isSpace front')).trans hcut
  have hfound : ['{'] <+: '{' :: front'.rdropWhile isSpace := ⟨_, rfl⟩
  rw [extractJson, dropUntil_of_prefix hfound, Option.bind_some,
    closeObject_of_prefix hparse hcut']
  rfl

end Reading

/-! ## What the indexer reads -/

/-- Where the memo of a bet is read as the bet. -/
def BetIsRead (fmt : NumberFormat) (tx : TxRaw) (o : Json fmt.Number) : Prop :=
  (¬ marker <:+: asciiFromBytes tx.beforeMemo ∧
      ∀ c ∈ o.stringify fmt, isPrintable c = true) ∨
    (marker <:+: asciiFromBytes tx.beforeMemo ∧
      Inscribes fmt (asciiFromBytes tx.beforeMemo) o)

theorem readInscription_betMemo_iff {fmt : NumberFormat}
    {o : Json fmt.Number} (hwf : o.WellFormed fmt) (ho : IsIreBet o) {tx : TxRaw}
    (hmemo : tx.body.memo = betMemo fmt o) :
    readInscription fmt (asciiFromBytes tx.encode) = some o ↔
      BetIsRead fmt tx o := by
  have hne : tx.body.memo ≠ [] := by
    rw [hmemo, betMemo]
    exact List.append_ne_nil_of_left_ne_nil (by decide) _
  obtain ⟨inner, htext⟩ := stringify_of_isIreBet ho
  by_cases hmarker : marker <:+: asciiFromBytes tx.beforeMemo
  · rw [readInscription_encode hne hmarker, readInscription_eq_some_iff]
    simp [BetIsRead, hmarker]
  · have hencode : asciiFromBytes tx.encode = asciiFromBytes tx.beforeMemo ++
        (asciiFromBytes (utf8 (betMemo fmt o)) ++
          asciiFromBytes tx.afterMemo) := by
      rw [TxRaw.encode_of_memo hne, asciiFromBytes_append,
        asciiFromBytes_append, hmemo]
    rw [hencode, BetIsRead]
    by_cases hprint : ∀ c ∈ o.stringify fmt, isPrintable c = true
    · rw [readInscription_printable hwf htext hprint hmarker]
      constructor
      · intro _
        exact Or.inl ⟨hmarker, hprint⟩
      · intro _
        rfl
    · rw [readInscription_unprintable hwf htext hprint hmarker]
      simp only [hmarker, hprint, reduceCtorEq, and_false, false_and, or_self]

/--
A bet in a memo is an event when its text is printable and no marker stands
before the memo; a transaction without such a memo has an event when its
printable bytes inscribe a bet all the same.
-/
theorem decodeBets_exact (fmt : NumberFormat) (sha256Hex : Bytes → Text)
    (info : Meta) (tx : TxRaw) :
    (∀ o : Json fmt.Number, o.WellFormed fmt → IsIreBet o →
      tx.body.memo = betMemo fmt o →
        ((∃ event, decodeBets fmt sha256Hex tx.encode info = [event] ∧
          event.body = o) ↔ BetIsRead fmt tx o)) ∧
    (¬ marker <+: tx.body.memo →
      (decodeBets fmt sha256Hex tx.encode info = [] ↔
        ∀ o : Json fmt.Number, IsIreBet o →
          ¬ Inscribes fmt (asciiFromBytes tx.encode) o)) := by
  constructor
  · intro o hwf ho hmemo
    rw [decodeBets_eq_singleton_iff sha256Hex info ho]
    exact readInscription_betMemo_iff hwf ho hmemo
  · intro _
    rw [decodeBets_eq_nil_iff]
    simp only [ne_eq, readInscription_eq_some_iff]

/-! ## Sample bets -/

def sampleBet (question : String) : Json literalFormat.Number :=
  .object [(toJsString "p".toList, .string (toJsString "ire-bet".toList)),
    (toJsString "op".toList, .string (toJsString "open".toList)),
    (toJsString "q".toList, .string (toJsString question.toList))]

theorem wellFormed_sampleBet (question : String) :
    (sampleBet question).WellFormed literalFormat := by
  have hkeys : [toJsString "p".toList, toJsString "op".toList,
      toJsString "q".toList].Nodup := by decide
  exact ⟨hkeys, trivial, trivial, trivial, trivial⟩

theorem isIreBet_sampleBet (question : String) :
    IsIreBet (sampleBet question) := by
  exact ⟨rfl, _, rfl⟩

def rainTx : TxRaw :=
  sendTx selfPayment (betMemo literalFormat (sampleBet "rain?"))

theorem decodeBets_exact_sample :
    (∃ event, decodeBets literalFormat (fun _ => []) rainTx.encode
        ⟨some 7, false⟩ = [event] ∧ event.body = sampleBet "rain?") ∧
      ((decodeBets literalFormat (fun _ => []) (sendTx selfPayment []).encode
          ⟨some 7, false⟩ = []) ↔
        ∀ o : Json literalFormat.Number, IsIreBet o →
          ¬ Inscribes literalFormat
            (asciiFromBytes (sendTx selfPayment []).encode) o) := by
  have hmarker : ¬ marker <:+: asciiFromBytes rainTx.beforeMemo := by
    rw [← occurs_iff]
    decide +kernel
  have hprint : ∀ c ∈ (sampleBet "rain?").stringify literalFormat,
      isPrintable c = true := List.all_eq_true.mp (by decide +kernel)
  constructor
  · exact ((decodeBets_exact literalFormat (fun _ => []) ⟨some 7, false⟩
      rainTx).1 (sampleBet "rain?") (wellFormed_sampleBet _)
        (isIreBet_sampleBet _) rfl).mpr (Or.inl ⟨hmarker, hprint⟩)
  · exact (decodeBets_exact literalFormat (fun _ => []) ⟨some 7, false⟩
      (sendTx selfPayment [])).2 (by decide +kernel)

/--
An accent in a bet hides it from the indexer, and a bet further down in a memo
is shown although the memo does not start with the marker.
-/
theorem decodeBets_misses_and_invents :
    (((sampleBet "café?").WellFormed literalFormat ∧
        IsIreBet (sampleBet "café?")) ∧
      decodeBets literalFormat (fun _ => [])
        (sendTx selfPayment (betMemo literalFormat (sampleBet "café?"))).encode
        ⟨some 7, false⟩ = []) ∧
    (¬ marker <+: "gm ".toList ++ betMemo literalFormat (sampleBet "rain?") ∧
      (decodeBets literalFormat (fun _ => [])
        (sendTx selfPayment ("gm ".toList ++
          betMemo literalFormat (sampleBet "rain?"))).encode
        ⟨some 7, false⟩).length = 1) :=
  ⟨⟨⟨wellFormed_sampleBet _, isIreBet_sampleBet _⟩, by decide +kernel⟩,
    by decide +kernel, by decide +kernel⟩

end IreBlockchain.Explorer

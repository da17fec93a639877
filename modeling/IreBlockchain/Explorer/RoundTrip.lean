import IreBlockchain.Explorer.BetMemos
import IreBlockchain.Explorer.CreateForms
import IreBlockchain.Foundation.JsonRoundTrip

/-!
# What the explorer reads of a created memo

The payload comes back if it is printable up to white space at its end, and the
bytes behind the memo add nothing to it.
-/

namespace IreBlockchain.Explorer

open IreBlockchain.Foundation

/-! ## Trimming a longer text -/

theorem trim_append_eq_iff {s : Text} (hs : ∃ c ∈ s, isSpace c = false)
    (x : Text) : trim (s ++ x) = trim s ↔ ∀ c ∈ x, isSpace c = true := by
  obtain ⟨d, hd, hdspace⟩ := hs
  have hdrop : s.dropWhile isSpace ≠ [] := by
    rw [ne_eq, List.dropWhile_eq_nil_iff]
    intro hall
    rw [hall d hd] at hdspace
    cases hdspace
  have hfront : (s ++ x).dropWhile isSpace = s.dropWhile isSpace ++ x := by
    rw [List.dropWhile_append, if_neg (by simpa using hdrop)]
  rw [trim, trim, hfront]
  generalize s.dropWhile isSpace = l
  constructor
  · intro h c hc
    by_contra hspace
    obtain ⟨before, after, rfl⟩ := List.append_of_mem hc
    rw [← List.append_assoc, rdropWhile_append_cons
      (Bool.eq_false_iff.mpr hspace)] at h
    have hlength := congrArg List.length h
    have hle := (List.rdropWhile_prefix isSpace l).length_le
    simp only [List.length_append, List.length_cons] at hlength
    omega
  · intro hall
    induction x using List.reverseRecOn with
    | nil => rw [List.append_nil]
    | append_singleton x c ih =>
        rw [← List.append_assoc, List.rdropWhile_concat,
          if_pos (hall c (by simp))]
        apply ih
        · rw [List.dropWhile_append, if_neg (by simpa using hdrop)]
        · intro c hc
          exact hall c (List.mem_append_left _ hc)

theorem trim_eq_cons {s : Text} (hs : ∃ c ∈ s, isSpace c = false) :
    ∃ gap c rest, s = gap ++ c :: rest ∧ (∀ d ∈ gap, isSpace d = true) ∧
      isSpace c = false ∧ trim s = c :: rest.rdropWhile isSpace := by
  obtain ⟨d, hd, hdspace⟩ := hs
  cases dropWhile_eq_nil_or_cons isSpace s with
  | inl hnil =>
      rw [List.dropWhile_eq_nil_iff] at hnil
      rw [hnil d hd] at hdspace
      cases hdspace
  | inr hcons =>
      obtain ⟨c, rest, hcons, hc⟩ := hcons
      refine ⟨s.takeWhile isSpace, c, rest, ?_,
        fun d => List.mem_takeWhile_imp, hc, ?_⟩
      · rw [← hcons, List.takeWhile_append_dropWhile]
      · rw [trim, hcons]
        exact rdropWhile_append_cons (l := []) hc

theorem trim_eq_nil_iff {s : Text} :
    trim s = [] ↔ ¬ ∃ c ∈ s, isSpace c = false := by
  constructor
  · intro h hs
    obtain ⟨_, _, _, _, _, _, htrim⟩ := trim_eq_cons hs
    rw [htrim] at h
    cases h
  · intro h
    have hall : s.dropWhile isSpace = [] := by
      rw [List.dropWhile_eq_nil_iff]
      intro c hc
      by_contra hspace
      exact h ⟨c, hc, Bool.eq_false_iff.mpr hspace⟩
    rw [trim, hall]
    rfl

/-! ## The fields of a memo -/

theorem MemoKind.front_eq (kind : MemoKind) :
    kind.front = marker ++ ([' '] ++ (kind.mediaType ++ [' '])) := by
  cases kind <;> rfl

theorem MemoKind.printable_front (kind : MemoKind) :
    ∀ c ∈ kind.front, isPrintable c = true := by
  apply List.all_eq_true.mp
  cases kind <;> decide

theorem MemoKind.mediaType_isWord (kind : MemoKind) :
    kind.mediaType ≠ [] ∧ ∀ c ∈ kind.mediaType, isSpace c = false := by
  have hletters : kind.mediaType.all (!isSpace ·) = true := by
    cases kind <;> decide
  refine ⟨by cases kind <;> decide, ?_⟩
  intro c hc
  simpa using List.all_eq_true.mp hletters c hc

theorem hasFields_front (kind : MemoKind) {s : Text}
    (hs : ∃ c ∈ s, isSpace c = false) :
    HasFields (trim (kind.front ++ s)) kind.mediaType (trim s) := by
  obtain ⟨gap, c, rest, rfl, hgap, hc, htrim⟩ := trim_eq_cons hs
  have hslice : trim (kind.front ++ (gap ++ c :: rest)) =
      kind.front ++ (gap ++ c :: rest.rdropWhile isSpace) := by
    have hdrop : (kind.front ++ (gap ++ c :: rest)).dropWhile isSpace =
        kind.front ++ (gap ++ c :: rest) := by
      cases kind <;> rfl
    rw [trim, hdrop, ← List.append_assoc, rdropWhile_append_cons hc,
      List.append_assoc]
  rw [hslice, htrim]
  refine ⟨[' '], ' ' :: gap, ?_, ?_, kind.mediaType_isWord, ?_, c, _, rfl, hc⟩
  · rw [kind.front_eq]
    simp
  · exact ⟨by simp, List.all_eq_true.mp (by decide)⟩
  · refine ⟨by simp, ?_⟩
    intro d hd
    cases List.mem_cons.mp hd with
    | inl hd =>
        rw [hd]
        decide
    | inr hd => exact hgap d hd

theorem inscriptionOf_of_hasFields {found mediaType payload : Text}
    (h : HasFields (trim found) mediaType payload) :
    (inscriptionOf (trim found)).mediaType = mediaType ∧
      (inscriptionOf (trim found)).payload = payload := by
  refine ⟨?_, isPayload_iff.mp (Or.inl ⟨mediaType, h⟩)⟩
  rw [inscriptionOf, matchInscription_eq_some_iff.mpr h]

theorem hasFields_of_mediaType {found : Text}
    (h : (inscriptionOf (trim found)).mediaType ≠ []) :
    HasFields (trim found) (inscriptionOf (trim found)).mediaType
      (inscriptionOf (trim found)).payload := by
  cases hmatch : matchInscription (trim found) with
  | none =>
      rw [inscriptionOf, hmatch] at h
      exact absurd rfl h
  | some fields =>
      have hfields := matchInscription_eq_some_iff.mp hmatch
      obtain ⟨hmedia, hpayload⟩ := inscriptionOf_of_hasFields hfields
      rw [hmedia, hpayload]
      exact hfields

theorem inscriptionOf_front_blank (kind : MemoKind) {s : Text}
    (hs : ¬ ∃ c ∈ s, isSpace c = false) :
    (inscriptionOf (trim (kind.front ++ s))).mediaType = [] := by
  have hvisible : ∃ c ∈ kind.front, isSpace c = false := by
    refine ⟨'I', ?_, by decide⟩
    cases kind <;> exact List.mem_cons_self
  have hspaces : ∀ c ∈ s, isSpace c = true := by
    intro c hc
    by_contra hspace
    exact hs ⟨c, hc, Bool.eq_false_iff.mpr hspace⟩
  rw [(trim_append_eq_iff hvisible s).mpr hspaces]
  cases kind <;> decide

/-! ## What is read of a memo -/

def ReadsBack (m : FormMemo) (ascii : Text) : Prop :=
  ∃ ins, parseInscription ascii = some ins ∧
    ins.mediaType = m.kind.mediaType ∧ ins.payload = trim m.payload

theorem readsBack_of_first {m : FormMemo} {ascii s : Text}
    (h : FirstInscription ascii (m.kind.front ++ s)) :
    ReadsBack m ascii ↔
      (∃ c ∈ s, isSpace c = false) ∧ trim s = trim m.payload := by
  rw [ReadsBack, parseInscription_of_first h]
  by_cases hs : ∃ c ∈ s, isSpace c = false
  · obtain ⟨hmedia, hpayload⟩ :=
      inscriptionOf_of_hasFields (hasFields_front m.kind hs)
    constructor
    · rintro ⟨ins, hins, _, heq⟩
      cases hins
      exact ⟨hs, hpayload ▸ heq⟩
    · rintro ⟨_, heq⟩
      exact ⟨_, rfl, hmedia, hpayload.trans heq⟩
  · refine iff_of_false ?_ (fun h => hs h.1)
    rintro ⟨ins, hins, hmedia, _⟩
    cases hins
    rw [inscriptionOf_front_blank m.kind hs] at hmedia
    exact m.kind.mediaType_isWord.1 hmedia.symm

/-- The text is visible before its first unprintable character, not behind. -/
def OneLine (text : Text) : Prop :=
  (∃ c ∈ text.takeWhile isPrintable, isSpace c = false) ∧
    ∀ c ∈ text.dropWhile isPrintable, isSpace c = true

def BlankBehind (after : Text) : Prop :=
  ∀ c ∈ cutAt nul after, isSpace c = true

def PayloadReads (payload after : Text) : Prop :=
  OneLine payload ∧
    (payload.dropWhile isPrintable = [] → BlankBehind after)

theorem ascii_memo (m : FormMemo) : asciiFromBytes (utf8 m.memo) =
    m.kind.front ++ asciiFromBytes (utf8 m.payload) := by
  rw [FormMemo.memo, utf8_append, asciiFromBytes_append,
    ascii_utf8_of_printable m.kind.printable_front]

theorem marker_prefix_front (kind : MemoKind) (s : Text) :
    marker <+: kind.front ++ s := by
  rw [kind.front_eq, List.append_assoc]
  exact List.prefix_append _ _

theorem readsBack_memo (m : FormMemo) {before : Text}
    (hbefore : ¬ marker <:+: before) (after : Text) :
    ReadsBack m (before ++ (asciiFromBytes (utf8 m.memo) ++ after)) ↔
      PayloadReads m.payload after := by
  have hsplit := List.takeWhile_append_dropWhile (p := isPrintable)
    (l := m.payload)
  have hshown : ∀ c ∈ m.payload.takeWhile isPrintable, isPrintable c = true :=
    fun c => List.mem_takeWhile_imp
  have hfree {s : Text} (hs : nul ∉ s) : nul ∉ m.kind.front ++ s := by
    rw [List.mem_append, not_or]
    exact ⟨nul_not_mem_of_printable m.kind.printable_front, hs⟩
  rw [PayloadReads, OneLine, BlankBehind, ascii_memo]
  cases dropWhile_eq_nil_or_cons isPrintable m.payload with
  | inl hnil =>
      rw [hnil, List.append_nil] at hsplit
      rw [hsplit] at hshown ⊢
      obtain ⟨more, hafter, hend⟩ := exists_eq_cutAt_append nul after
      have hnul : nul ∉ m.payload ++ cutAt nul after := by
        rw [List.mem_append, not_or]
        exact ⟨nul_not_mem_of_printable hshown, not_mem_cutAt after⟩
      have hfirst : FirstInscription
          (before ++ (m.kind.front ++ m.payload ++ after))
          (m.kind.front ++ (m.payload ++ cutAt nul after)) := by
        have hshape : m.kind.front ++ m.payload ++ after =
            m.kind.front ++ (m.payload ++ cutAt nul after) ++ more := by
          nth_rewrite 1 [hafter]
          simp
        rw [hshape]
        exact firstInscription_append hbefore (marker_prefix_front _ _)
          (hfree hnul) hend
      rw [ascii_utf8_of_printable hshown, readsBack_of_first hfirst, hnil]
      simp only [List.not_mem_nil, false_implies, implies_true, and_true,
        true_implies]
      by_cases hvisible : ∃ c ∈ m.payload, isSpace c = false
      · rw [trim_append_eq_iff hvisible]
        obtain ⟨c, hc, hspace⟩ := hvisible
        constructor
        · rintro ⟨_, hall⟩
          exact ⟨⟨c, hc, hspace⟩, hall⟩
        · rintro ⟨_, hall⟩
          exact ⟨⟨c, List.mem_append_left _ hc, hspace⟩, hall⟩
      · refine iff_of_false ?_ (fun h => hvisible h.1)
        rintro ⟨hvisible', heq⟩
        rw [trim_eq_nil_iff.mpr hvisible, trim_eq_nil_iff] at heq
        exact heq hvisible'
  | inr hcons =>
      obtain ⟨c, rest, hcons, hc⟩ := hcons
      obtain ⟨tail, htail⟩ := ascii_utf8_of_unprintable hc rest
      rw [hcons] at hsplit
      have hfirst : FirstInscription (before ++ (m.kind.front ++
          asciiFromBytes (utf8 m.payload) ++ after))
          (m.kind.front ++ m.payload.takeWhile isPrintable) := by
        have hshape : m.kind.front ++ asciiFromBytes (utf8 m.payload) ++ after =
            m.kind.front ++ m.payload.takeWhile isPrintable ++
              nul :: (tail ++ after) := by
          conv_lhs => rw [← hsplit]
          rw [utf8_append, asciiFromBytes_append, htail,
            ascii_utf8_of_printable hshown]
          simp
        rw [hshape]
        exact firstInscription_append hbefore (marker_prefix_front _ _)
          (hfree (nul_not_mem_of_printable hshown)) (Or.inr ⟨_, rfl⟩)
      rw [readsBack_of_first hfirst, hcons]
      simp only [reduceCtorEq, false_implies, and_true]
      apply and_congr_right
      intro hvisible
      rw [eq_comm, ← trim_append_eq_iff hvisible, hsplit]

/-! ## A marker before the memo -/

/-- The bytes before the memo happen to spell the same inscription. -/
def SpeltBefore (m : FormMemo) (before : Text) : Prop :=
  ∃ found, FirstInscription before found ∧
    HasFields (trim found) m.kind.mediaType (trim m.payload)

theorem readsBack_iff_speltBefore {m : FormMemo} {ascii : Text} :
    ReadsBack m ascii ↔ SpeltBefore m ascii := by
  constructor
  · rintro ⟨ins, hins, hmedia, hpayload⟩
    rw [parseInscription, Option.map_eq_some_iff] at hins
    obtain ⟨text, htext, rfl⟩ := hins
    refine ⟨cutAt nul text, firstInscription_iff.mpr ⟨text, htext, rfl⟩, ?_⟩
    rw [← hmedia, ← hpayload]
    apply hasFields_of_mediaType
    rw [hmedia]
    exact m.kind.mediaType_isWord.1
  · rintro ⟨found, hfirst, hfields⟩
    obtain ⟨hmedia, hpayload⟩ := inscriptionOf_of_hasFields hfields
    exact ⟨_, parseInscription_of_first hfirst, hmedia, hpayload⟩

end IreBlockchain.Explorer

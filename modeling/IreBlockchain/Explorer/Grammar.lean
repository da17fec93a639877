import IreBlockchain.Explorer.ObjectScan

/-!
# The grammar of inscriptions

What `parseInscription` and `extractJson` read, said of the printable text of a
transaction: the object that stands first in the payload of the first marker.
-/

namespace IreBlockchain.Explorer

open IreBlockchain.Foundation

/-- The text from the first marker to the next unprintable byte. -/
def FirstInscription (ascii found : Text) : Prop :=
  ∃ before after, ascii = before ++ (found ++ after) ∧ marker <+: found ∧
    ¬ marker <:+: before ++ marker.dropLast ∧ nul ∉ found ∧
    (after = [] ∨ ∃ rest, after = nul :: rest)

/-- Marker, media type and payload, with white space between them. -/
def HasFields (slice mediaType payload : Text) : Prop :=
  ∃ gap gap', slice = marker ++ (gap ++ (mediaType ++ (gap' ++ payload))) ∧
    (gap ≠ [] ∧ ∀ c ∈ gap, isSpace c = true) ∧
    (mediaType ≠ [] ∧ ∀ c ∈ mediaType, isSpace c = false) ∧
    (gap' ≠ [] ∧ ∀ c ∈ gap', isSpace c = true) ∧
    ∃ c rest, payload = c :: rest ∧ isSpace c = false

def IsPayload (slice payload : Text) : Prop :=
  (∃ mediaType, HasFields slice mediaType payload) ∨
    (¬ ∃ mediaType payload, HasFields slice mediaType payload) ∧
      payload = slice

/-- The transaction's printable text inscribes the object. -/
def Inscribes (fmt : NumberFormat) (ascii : Text) (o : Json fmt.Number) :
    Prop :=
  ∃ found payload, FirstInscription ascii found ∧
    IsPayload (trim found) payload ∧ FirstObject fmt payload o

/-! ## The marker -/

theorem marker_ne_nil : marker ≠ [] := by decide

theorem borderless_marker : Borderless marker := by decide

theorem nul_not_mem_marker : nul ∉ marker := by decide

theorem firstInscription_iff {ascii found : Text} :
    FirstInscription ascii found ↔
      ∃ text, dropUntil marker ascii = some text ∧ cutAt nul text = found := by
  constructor
  · rintro ⟨before, after, rfl, hfront, hearlier, hnul, hafter⟩
    refine ⟨found ++ after, ?_, ?_⟩
    · exact (dropUntil_eq_some_iff marker_ne_nil).mpr
        ⟨before, rfl, hfront.trans (List.prefix_append _ _), hearlier⟩
    · cases hafter with
      | inl hnil =>
          rw [hnil, cutAt_append hnul]
          simp [cutAt]
      | inr hcons =>
          obtain ⟨rest, rfl⟩ := hcons
          exact cutAt_append_cons hnul rest
  · rintro ⟨text, htext, rfl⟩
    obtain ⟨before, rfl, ⟨tail, rfl⟩, hearlier⟩ :=
      (dropUntil_eq_some_iff marker_ne_nil).mp htext
    obtain ⟨after, heq, hafter⟩ := exists_eq_cutAt_append nul (marker ++ tail)
    refine ⟨before, after, by rw [← heq], ?_, hearlier, not_mem_cutAt _,
      hafter⟩
    rw [cutAt_append nul_not_mem_marker]
    exact List.prefix_append _ _

theorem FirstInscription.marker_prefix {ascii found : Text}
    (h : FirstInscription ascii found) : marker <+: found := by
  obtain ⟨_, _, _, hmarker, _⟩ := h
  exact hmarker

/-! ## The fields -/

theorem matchInscription_eq_some_iff {slice mediaType payload : Text} :
    matchInscription slice = some (mediaType, payload) ↔
      HasFields slice mediaType payload := by
  constructor
  · intro h
    rw [matchInscription] at h
    split at h
    next hfront =>
      obtain ⟨rest, rfl⟩ := hfront
      simp only [List.drop_left] at h
      split at h
      next hne =>
        obtain ⟨hgap, hmedia, hpayload⟩ := hne
        cases h
        refine ⟨rest.takeWhile isSpace,
          ((rest.dropWhile isSpace).dropWhile fun c => !isSpace c).takeWhile
            isSpace, ?_, ⟨hgap, fun c => List.mem_takeWhile_imp⟩,
          ⟨hmedia, ?_⟩, ⟨?_, fun c => List.mem_takeWhile_imp⟩, ?_⟩
        · simp only [List.takeWhile_append_dropWhile]
        · intro c hc
          simpa using List.mem_takeWhile_imp hc
        · cases dropWhile_eq_nil_or_cons (fun c => !isSpace c)
            (rest.dropWhile isSpace) with
          | inl hnil => exact absurd (by rw [hnil]; rfl) hpayload
          | inr hcons =>
              obtain ⟨a, m, hcons, ha⟩ := hcons
              rw [hcons, List.takeWhile_cons_of_pos (by simpa using ha)]
              simp
        · cases dropWhile_eq_nil_or_cons isSpace
            ((rest.dropWhile isSpace).dropWhile fun c => !isSpace c) with
          | inl hnil => exact absurd hnil hpayload
          | inr hcons => exact hcons
      next => cases h
    next => cases h
  · rintro ⟨gap, gap', rfl, ⟨hgap, hgaps⟩, ⟨hmedia, hletters⟩,
      ⟨hgap', hgaps'⟩, c, rest, rfl, hc⟩
    obtain ⟨m, media, rfl⟩ := List.exists_cons_of_ne_nil hmedia
    obtain ⟨g, more, rfl⟩ := List.exists_cons_of_ne_nil hgap'
    have hm := hletters m List.mem_cons_self
    have hg := hgaps' g List.mem_cons_self
    have hword : ∀ b ∈ m :: media, (!isSpace b) = true := by
      intro b hb
      simp [hletters b hb]
    have hfields : (gap ++ (m :: media ++ (g :: more ++ c :: rest))).dropWhile
        isSpace = m :: media ++ (g :: more ++ c :: rest) :=
      dropWhile_append_cons hgaps hm
    have hgapTake : (gap ++ (m :: media ++ (g :: more ++ c :: rest))).takeWhile
        isSpace = gap := takeWhile_append_cons hgaps hm
    have hmediaTake : (m :: media ++ (g :: more ++ c :: rest)).takeWhile
        (fun c => !isSpace c) = m :: media :=
      takeWhile_append_cons hword (by simp [hg])
    have htail : (m :: media ++ (g :: more ++ c :: rest)).dropWhile
        (fun c => !isSpace c) = g :: more ++ c :: rest :=
      dropWhile_append_cons hword (by simp [hg])
    have hpayload : (g :: more ++ c :: rest).dropWhile isSpace = c :: rest :=
      dropWhile_append_cons hgaps' hc
    rw [matchInscription, if_pos (List.prefix_append _ _)]
    simp only [List.drop_left, hfields, hgapTake, hmediaTake, htail, hpayload]
    rw [if_pos ⟨hgap, by simp, by simp⟩]

/-! ## Trimmed texts -/

theorem getLast_trim {text : Text} (h : trim text ≠ []) :
    isSpace ((trim text).getLast h) = false := by
  have hlast := List.rdropWhile_last_not isSpace (text.dropWhile isSpace) h
  exact Bool.eq_false_iff.mpr hlast

theorem trim_of_suffix (text : Text) {rest : Text} {c : Char}
    (hsuffix : c :: rest <:+ trim text) (hc : isSpace c = false) :
    trim (c :: rest) = c :: rest := by
  obtain ⟨before, hbefore⟩ := hsuffix
  have hne : trim text ≠ [] := by
    rw [← hbefore]
    simp
  have hlast := getLast_trim hne
  simp only [← hbefore, List.getLast_append_of_ne_nil _ (List.cons_ne_nil c rest)]
    at hlast
  rw [trim, List.dropWhile_cons_of_neg (by simp [hc]),
    List.rdropWhile_eq_self_iff]
  intro _
  simpa using hlast

/-! ## Reading an inscription -/

theorem isPayload_iff {found payload : Text} :
    IsPayload (trim found) payload ↔
      (inscriptionOf (trim found)).payload = payload := by
  rw [inscriptionOf]
  cases hmatch : matchInscription (trim found) with
  | none =>
      have hnone : ¬ ∃ mediaType payload,
          HasFields (trim found) mediaType payload := by
        rintro ⟨mediaType, payload, hfields⟩
        rw [matchInscription_eq_some_iff.mpr hfields] at hmatch
        cases hmatch
      constructor
      · rintro (⟨mediaType, hfields⟩ | ⟨_, rfl⟩)
        · exact absurd ⟨mediaType, payload, hfields⟩ hnone
        · rfl
      · intro heq
        exact Or.inr ⟨hnone, heq.symm⟩
  | some fields =>
      obtain ⟨mediaType, text⟩ := fields
      have hfields := matchInscription_eq_some_iff.mp hmatch
      have htrim : trim text = text := by
        obtain ⟨gap, gap', hslice, _, _, _, c, rest, rfl, hc⟩ := hfields
        apply trim_of_suffix found _ hc
        exact ⟨marker ++ (gap ++ (mediaType ++ gap')), by simp [hslice]⟩
      dsimp only
      rw [htrim]
      constructor
      · rintro (⟨mediaType', hfields'⟩ | ⟨hnone, _⟩)
        · rw [matchInscription_eq_some_iff.mpr hfields'] at hmatch
          cases hmatch
          rfl
        · exact absurd ⟨mediaType, text, hfields⟩ hnone
      · rintro rfl
        exact Or.inl ⟨mediaType, hfields⟩

/-- What `parseInscription` and `extractJson` read between them. -/
def readInscription (fmt : NumberFormat) (ascii : Text) :
    Option (Json fmt.Number) :=
  (parseInscription ascii).bind fun ins => extractJson fmt ins.payload

variable {fmt : NumberFormat}

theorem readInscription_eq_some_iff {ascii : Text} {o : Json fmt.Number} :
    readInscription fmt ascii = some o ↔ Inscribes fmt ascii o := by
  have hread : readInscription fmt ascii = some o ↔
      ∃ text, dropUntil marker ascii = some text ∧
        extractJson fmt (inscriptionOf (trim (cutAt nul text))).payload =
          some o := by
    rw [readInscription, parseInscription]
    cases dropUntil marker ascii with
    | none => simp
    | some text => simp
  rw [hread]
  constructor
  · rintro ⟨text, htext, hobject⟩
    exact ⟨cutAt nul text, _, firstInscription_iff.mpr ⟨text, htext, rfl⟩,
      isPayload_iff.mpr rfl, extractJson_eq_some_iff.mp hobject⟩
  · rintro ⟨found, payload, hfirst, hpayload, hobject⟩
    obtain ⟨text, htext, rfl⟩ := firstInscription_iff.mp hfirst
    refine ⟨text, htext, ?_⟩
    rw [isPayload_iff.mp hpayload]
    exact extractJson_eq_some_iff.mpr hobject

theorem parseInscription_of_first {ascii found : Text}
    (h : FirstInscription ascii found) :
    parseInscription ascii = some (inscriptionOf (trim found)) := by
  obtain ⟨text, htext, rfl⟩ := firstInscription_iff.mp h
  rw [parseInscription, htext]
  rfl

theorem readInscription_of_first {ascii found : Text}
    (h : FirstInscription ascii found) :
    readInscription fmt ascii =
      extractJson fmt (inscriptionOf (trim found)).payload := by
  rw [readInscription, parseInscription_of_first h, Option.bind_some]

theorem parseInscription_append {ascii : Text} (h : marker <:+: ascii)
    (rest : Text) :
    parseInscription (ascii ++ nul :: rest) = parseInscription ascii := by
  have hsome : dropUntil marker ascii ≠ none := by
    rw [ne_eq, dropUntil_eq_none_iff, not_not]
    exact h
  obtain ⟨text, htext⟩ := Option.ne_none_iff_exists'.mp hsome
  rw [parseInscription, parseInscription, htext,
    dropUntil_append marker_ne_nil htext, Option.map_some, Option.map_some,
    cutAt_append_separator]

theorem firstInscription_append {before found after : Text}
    (hbefore : ¬ marker <:+: before) (hfound : marker <+: found)
    (hnul : nul ∉ found) (hafter : after = [] ∨ ∃ rest, after = nul :: rest) :
    FirstInscription (before ++ (found ++ after)) found := by
  refine firstInscription_iff.mpr ⟨found ++ after, ?_, ?_⟩
  · exact dropUntil_append_of_borderless marker_ne_nil borderless_marker
      hbefore (hfound.trans (List.prefix_append _ _))
  · cases hafter with
    | inl hnil =>
        rw [hnil, cutAt_append hnul]
        simp [cutAt]
    | inr hcons =>
        obtain ⟨rest, rfl⟩ := hcons
        exact cutAt_append_cons hnul rest

end IreBlockchain.Explorer

import IreBlockchain.Explorer.RoundTrip

/-!
# Which forms are read back

A JSON form is read back when its fields are plain, whatever they are; art is
when it is a single printable line.
-/

namespace IreBlockchain.Explorer

open IreBlockchain.Foundation

/-! ## Fields -/

def Plain (s : JsString) : Prop := ∀ c ∈ quote s, isPrintable c = true

instance (s : JsString) : Decidable (Plain s) :=
  decidable_of_iff ((quote s).all isPrintable = true) List.all_eq_true

section Fields

variable {fmt : NumberFormat}

def PlainValue (v : Json fmt.Number) : Prop :=
  ∀ c ∈ v.stringify fmt, isPrintable c = true

theorem plainValue_string {s : JsString} :
    PlainValue (.string s : Json fmt.Number) ↔ Plain s := Iff.rfl

theorem isPrintable_of_isNumberChar {c : Char} (h : isNumberChar c = true) :
    isPrintable c = true := by
  simp only [isNumberChar, isDigit, Bool.or_eq_true, Bool.and_eq_true,
    decide_eq_true_eq] at h
  rcases h with ((((⟨hle, hge⟩ | rfl) | rfl) | rfl) | rfl) | rfl
  · have hle' : 48 ≤ c.toNat := hle
    have hge' : c.toNat ≤ 57 := hge
    rw [isPrintable, Bool.and_eq_true, decide_eq_true_eq, decide_eq_true_eq]
    omega
  all_goals decide

theorem plainValue_number (n : fmt.Number) :
    PlainValue (.number n : Json fmt.Number) := by
  intro c hc
  rw [Json.stringify] at hc
  split at hc
  next hfinite =>
    exact isPrintable_of_isNumberChar (isNumberChar_of_isNumberLiteral
      (fmt.isNumberLiteral_toText n hfinite) c hc)
  next =>
    have hnull : "null".toList.all isPrintable = true := by decide
    exact List.all_eq_true.mp hnull c hc

theorem plainValue_object {members : List (JsString × Json fmt.Number)} :
    PlainValue (.object members) ↔
      ∀ member ∈ members, Plain member.1 ∧ PlainValue member.2 := by
  have hpunctuation : ∀ c ∈ ['{', '}', ',', ':'], isPrintable c = true := by
    exact List.all_iff_forall_prop.mp (by decide)
  exact forall_mem_object hpunctuation

theorem payloadReads_object {members : List (JsString × Json fmt.Number)}
    {after : Text} :
    PayloadReads ((Json.object members).stringify fmt) after ↔
      (∀ member ∈ members, Plain member.1 ∧ PlainValue member.2) ∧
        BlankBehind after := by
  rw [← plainValue_object, PlainValue, PayloadReads, OneLine]
  obtain ⟨inner, htext⟩ := stringify_object fmt members
  rw [htext]
  have hsplit := List.takeWhile_append_dropWhile (p := isPrintable)
    (l := '{' :: (inner ++ ['}']))
  constructor
  · rintro ⟨⟨_, hblank⟩, hafter⟩
    have hnil : ('{' :: (inner ++ ['}'])).dropWhile isPrintable = [] := by
      cases List.eq_nil_or_concat
          (('{' :: (inner ++ ['}'])).dropWhile isPrintable) with
      | inl hnil => exact hnil
      | inr hconcat =>
          obtain ⟨front, last, hlast⟩ := hconcat
          rw [List.concat_eq_append] at hlast
          rw [hlast, ← List.append_assoc, ← List.cons_append] at hsplit
          have hbrace : [last] = ['}'] := (List.append_inj' hsplit rfl).2
          have hspace := hblank last (by rw [hlast]; simp)
          rw [List.singleton_inj.mp hbrace] at hspace
          exact absurd hspace (by decide)
    refine ⟨?_, hafter hnil⟩
    rw [hnil, List.append_nil] at hsplit
    rw [← hsplit]
    exact fun c => List.mem_takeWhile_imp
  · rintro ⟨hprint, hafter⟩
    have htake : ('{' :: (inner ++ ['}'])).takeWhile isPrintable =
        '{' :: (inner ++ ['}']) := List.takeWhile_eq_self_iff.mpr hprint
    have hdrop : ('{' :: (inner ++ ['}'])).dropWhile isPrintable = [] :=
      List.dropWhile_eq_nil_iff.mpr hprint
    rw [htake, hdrop]
    refine ⟨⟨⟨'{', List.mem_cons_self, by decide⟩, ?_⟩, fun _ => hafter⟩
    intro c hc
    exact absurd hc List.not_mem_nil

theorem quoteUnit_of_upper {u : UInt16} (h : isUpperUnit u = true) :
    isHighSurrogate u = false ∧ ∀ c ∈ quoteUnit u, isPrintable c = true := by
  rw [isUpperUnit, Bool.and_eq_true, decide_eq_true_eq, decide_eq_true_eq] at h
  have hhigh : isHighSurrogate u = false := by
    rw [isHighSurrogate, Bool.and_eq_false_iff]
    exact Or.inl (decide_eq_false (by omega))
  have hlow : isLowSurrogate u = false := by
    rw [isLowSurrogate, Bool.and_eq_false_iff]
    exact Or.inl (decide_eq_false (by omega))
  have hshort : shortEscape u.toNat = none := by
    unfold shortEscape
    repeat rw [if_neg (by omega)]
  refine ⟨hhigh, ?_⟩
  rw [quoteUnit, hshort]
  dsimp only
  rw [if_neg (by simp [hhigh, hlow]; omega)]
  intro c hc
  have hvalid : u.toNat.isValidChar := Or.inl (by omega)
  rw [List.mem_singleton.mp hc, isPrintable,
    toNat_ofNat_of_isValidChar hvalid, Bool.and_eq_true, decide_eq_true_eq,
    decide_eq_true_eq]
  omega

theorem plain_of_upper {s : JsString} (h : ∀ u ∈ s, isUpperUnit u = true) :
    Plain s := by
  have hunits : ∀ c ∈ quoteUnits s, isPrintable c = true := by
    fun_induction quoteUnits s with
    | case1 =>
        intro c hc
        exact absurd hc List.not_mem_nil
    | case2 u => exact (quoteUnit_of_upper (h u List.mem_cons_self)).2
    | case3 u v rest hpair =>
        rw [(quoteUnit_of_upper (h u List.mem_cons_self)).1] at hpair
        cases hpair
    | case4 u v rest _ ih =>
        intro c hc
        cases List.mem_append.mp hc with
        | inl hc => exact (quoteUnit_of_upper (h u List.mem_cons_self)).2 c hc
        | inr hc => exact ih (fun w hw => h w (List.mem_cons_of_mem u hw)) c hc
  have hquote : isPrintable '"' = true := by decide
  intro c hc
  simp only [quote, List.cons_append, List.mem_cons, List.mem_append,
    List.not_mem_nil, or_false] at hc
  rcases hc with rfl | hc | rfl
  · exact hquote
  · exact hunits c hc
  · exact hquote

end Fields

/-! ## Forms -/

/-- What the inputs of a form have to be for its payload to be read back. -/
def Form.Reads (fmt : NumberFormat) (after : Text) : Form → Prop
  | token _ max lim =>
      Plain (fieldOr max "21000000".toList) ∧
        Plain (fieldOr lim "1000".toList) ∧ BlankBehind after
  | art title body =>
      let title := trimString (sanitize title)
      let body := sanitize body
      if looksSvg body then PayloadReads (toText (trimString body)) after
      else if title = [] then PayloadReads (toText body) after
      else if body = [] then PayloadReads (toText title) after
      else OneLine (toText title) ∧ ∀ c ∈ toText body, isSpace c = true
  | file name mime bytes =>
      Plain (fieldOr name "clip.mp4".toList) ∧
        Plain (fieldOr mime "video/mp4".toList) ∧
        (∀ s, numberOr fmt (fieldOr bytes "12345".toList) = .string s →
          Plain s) ∧ BlankBehind after
  | game name mime =>
      Plain (fieldOr name "game".toList) ∧
        Plain (fieldOr mime "text/html".toList) ∧ BlankBehind after

theorem toText_cons {u : UInt16} (h : isHighSurrogate u = false)
    (rest : JsString) : toText (u :: rest) = unitChar u :: toText rest := by
  cases rest with
  | nil => rfl
  | cons v rest => rw [toText, h, Bool.false_and, if_neg (by simp)]

theorem toText_newline (rest : JsString) :
    toText (0x0a :: rest) = '\n' :: toText rest :=
  toText_cons (by decide) rest

theorem toText_append_newline (s rest : JsString) :
    toText (s ++ 0x0a :: rest) = toText s ++ '\n' :: toText rest := by
  have hlow : isLowSurrogate 0x0a = false := by decide
  fun_induction toText s with
  | case1 => exact toText_newline rest
  | case2 u =>
      rw [List.cons_append, List.nil_append, toText, hlow, Bool.and_false,
        if_neg (by simp), toText_newline]
      rfl
  | case3 u v tail hpair ih =>
      rw [List.cons_append, List.cons_append, toText, if_pos hpair, ih]
      rfl
  | case4 u v tail hpair ih =>
      rw [List.cons_append, List.cons_append, toText, if_neg hpair]
      exact congrArg _ ih

theorem payloadReads_lines (first rest after : Text) :
    PayloadReads (first ++ '\n' :: rest) after ↔
      OneLine first ∧ ∀ c ∈ rest, isSpace c = true := by
  have hfeed : isPrintable '\n' = false := by decide
  have hspace : isSpace '\n' = true := by decide
  have hdrop : (first ++ '\n' :: rest).dropWhile isPrintable =
      first.dropWhile isPrintable ++ '\n' :: rest := by
    rw [List.dropWhile_append, List.dropWhile_cons_of_neg (by simp [hfeed])]
    split
    next hnil =>
      rw [List.isEmpty_iff] at hnil
      rw [hnil, List.nil_append]
    next => rfl
  rw [PayloadReads, OneLine, OneLine, hdrop, takeWhile_append_of_neg hfeed]
  simp only [List.mem_append, List.mem_cons, or_imp, forall_and, forall_eq,
    hspace, true_and, List.append_eq_nil_iff, reduceCtorEq, and_false,
    false_implies, and_true, and_assoc]

theorem artParts_eq (title body : JsString) :
    artParts title body =
      if looksSvg (sanitize body) then (.svg, trimString (sanitize body))
      else if trimString (sanitize title) = [] then (.text, sanitize body)
      else if sanitize body = [] then (.text, trimString (sanitize title))
      else (.text,
        trimString (sanitize title) ++ 0x0a :: sanitize body) := by
  rw [artParts]
  generalize sanitize body = body
  generalize trimString (sanitize title) = title
  split
  next => rfl
  next =>
    by_cases htitle : title = []
    · by_cases hbody : body = []
      · simp [htitle, hbody]
      · simp [htitle, hbody]
    · by_cases hbody : body = []
      · simp [htitle, hbody]
      · simp [htitle, hbody, List.intercalate]

theorem fitOrBlock_eq_some {m m' : FormMemo} (h : fitOrBlock m = some m') :
    m' = m := by
  rw [fitOrBlock] at h
  split at h
  next => cases h
  next =>
    cases h
    rfl

theorem plain_tickLetters (letters : CaseMapping) (value : JsString) :
    Plain (tickLetters letters value) := by
  apply plain_of_upper
  intro u hu
  exact (List.mem_filter.mp (List.mem_of_mem_take hu)).2

theorem plainValue_numberOr {fmt : NumberFormat} {bytes : JsString} :
    PlainValue (numberOr fmt bytes) ↔
      ∀ s, numberOr fmt bytes = .string s → Plain s := by
  cases hv : numberOr fmt bytes with
  | string s =>
      rw [plainValue_string]
      constructor
      · intro hs s' heq
        cases heq
        exact hs
      · intro h
        exact h s rfl
  | number n => exact iff_of_true (plainValue_number n) nofun
  | _ =>
      rw [numberOr] at hv
      split at hv
      next => cases hv
      next => split at hv <;> cases hv

theorem plain_member {fmt : NumberFormat} {key : String}
    (hkey : Plain (toJsString key.toList)) (v : Json fmt.Number) :
    Plain (member fmt key v).1 ∧ PlainValue (member fmt key v).2 ↔
      PlainValue v :=
  and_iff_right hkey

theorem plainValue_constant {fmt : NumberFormat} {value : String}
    (h : Plain (toJsString value.toList)) :
    PlainValue (constant fmt value) := h

theorem plain_keys : Plain (toJsString "p".toList) ∧
    Plain (toJsString "op".toList) ∧ Plain (toJsString "name".toList) ∧
    Plain (toJsString "mime".toList) ∧ Plain (toJsString "ire-insc".toList) :=
  ⟨by decide, by decide, by decide, by decide, by decide⟩

theorem payloadReads_iff {fmt : NumberFormat} {letters : CaseMapping}
    {form : Form} {m : FormMemo} (h : form.refresh fmt letters = some m)
    (after : Text) : PayloadReads m.payload after ↔ form.Reads fmt after := by
  obtain ⟨hp, hop, hname, hmime, hinsc⟩ := plain_keys
  cases form with
  | token tick max lim =>
      have htick : Plain (if tickLetters letters (tickLetters letters tick) = []
          then toJsString "ABCD".toList
          else tickLetters letters (tickLetters letters tick)) := by
        split
        next => decide
        next => exact plain_tickLetters letters _
      have hdeploy : PlainValue (constant fmt "deploy") :=
        plainValue_constant (by decide)
      have htickKey : Plain (toJsString "tick".toList) := by decide
      have hmax : Plain (toJsString "max".toList) := by decide
      have hlim : Plain (toJsString "lim".toList) := by decide
      rw [fitOrBlock_eq_some h, tokenMemo]
      dsimp only
      rw [payloadReads_object, Form.Reads]
      simp only [List.forall_mem_cons, List.not_mem_nil, false_implies,
        implies_true, and_true, plain_member hp, plain_member hop,
        plain_member htickKey, plain_member hmax, plain_member hlim, hdeploy,
        plainValue_constant hinsc, plainValue_string, htick, true_and,
        and_assoc]
  | art title body =>
      rw [Form.refresh, refreshArt] at h
      split at h
      next => cases h
      next =>
        cases h
        rw [artParts_eq, Form.Reads]
        dsimp only
        split
        next => rfl
        next =>
          split
          next => rfl
          next =>
            split
            next => rfl
            next => rw [toText_append_newline, payloadReads_lines]
  | file name mime bytes =>
      have hfile : PlainValue (constant fmt "file") :=
        plainValue_constant (by decide)
      have hbytes : Plain (toJsString "bytes".toList) := by decide
      have hnoteKey : Plain (toJsString "note".toList) := by decide
      have hnote : PlainValue (constant fmt
          "on-chain catalog; payload needs inscription module") :=
        plainValue_constant (by decide)
      rw [fitOrBlock_eq_some h, fileMemo]
      dsimp only
      rw [payloadReads_object, Form.Reads]
      simp only [List.forall_mem_cons, List.not_mem_nil, false_implies,
        implies_true, and_true, plain_member hp, plain_member hop,
        plain_member hname, plain_member hmime, plain_member hbytes,
        plain_member hnoteKey, hfile, hnote, plainValue_constant hinsc,
        plainValue_string, plainValue_numberOr, true_and, and_assoc]
  | game name mime =>
      have hgame : PlainValue (constant fmt "game") :=
        plainValue_constant (by decide)
      rw [fitOrBlock_eq_some h, gameMemo]
      dsimp only
      rw [payloadReads_object, Form.Reads]
      simp only [List.forall_mem_cons, List.not_mem_nil, false_implies,
        implies_true, and_true, plain_member hp, plain_member hop,
        plain_member hname, plain_member hmime, hgame,
        plainValue_constant hinsc, plainValue_string, true_and, and_assoc]

/--
A memo of a form is read back from a transaction exactly if its inputs are as
they have to be and no other marker stands before it, or the same stands there.
-/
theorem created_memo_read (fmt : NumberFormat) (letters : CaseMapping)
    {form : Form} {m : FormMemo} (h : form.refresh fmt letters = some m)
    {tx : TxRaw} (hmemo : tx.body.memo = m.memo) :
    (∃ ins, parseInscription (asciiFromBytes tx.encode) = some ins ∧
        ins.mediaType = m.kind.mediaType ∧ ins.payload = trim m.payload) ↔
      (¬ marker <:+: asciiFromBytes tx.beforeMemo ∧
          form.Reads fmt (asciiFromBytes tx.afterMemo)) ∨
        (marker <:+: asciiFromBytes tx.beforeMemo ∧
          SpeltBefore m (asciiFromBytes tx.beforeMemo)) := by
  have hne : tx.body.memo ≠ [] := by
    rw [hmemo, FormMemo.memo, m.kind.front_eq]
    exact List.append_ne_nil_of_left_ne_nil (by simp) _
  by_cases hmarker : marker <:+: asciiFromBytes tx.beforeMemo
  · rw [parseInscription_encode hne hmarker]
    simp only [hmarker, not_true_eq_false, false_and, true_and, false_or]
    exact readsBack_iff_speltBefore
  · have hencode : asciiFromBytes tx.encode = asciiFromBytes tx.beforeMemo ++
        (asciiFromBytes (utf8 m.memo) ++ asciiFromBytes tx.afterMemo) := by
      rw [TxRaw.encode_of_memo hne, asciiFromBytes_append,
        asciiFromBytes_append, hmemo]
    simp only [hmarker, not_false_eq_true, true_and, false_and, or_false]
    rw [hencode, ← payloadReads_iff h]
    exact readsBack_memo m hmarker _

/-! ## Sample forms -/

def goldForm : Form := .token (toJsString "gold".toList) [] []

def goldMemo : FormMemo :=
  tokenMemo literalFormat asciiLetters (toJsString "GOLD".toList) [] []

theorem created_memo_read_sample :
    ∃ ins, parseInscription
        (asciiFromBytes (sendTx selfPayment goldMemo.memo).encode) =
          some ins ∧
      ins.mediaType = MemoKind.json.mediaType ∧
      ins.payload = trim goldMemo.payload := by
  have hrefresh : goldForm.refresh literalFormat asciiLetters =
      some goldMemo := by decide +kernel
  have hmarker : ¬ marker <:+: asciiFromBytes
      (sendTx selfPayment goldMemo.memo).beforeMemo := by
    rw [← occurs_iff]
    decide +kernel
  have hreads : goldForm.Reads literalFormat
      (asciiFromBytes (sendTx selfPayment goldMemo.memo).afterMemo) :=
    ⟨by decide, by decide, List.all_eq_true.mp (by decide +kernel)⟩
  exact (created_memo_read literalFormat asciiLetters hrefresh rfl).mpr
    (Or.inl ⟨hmarker, hreads⟩)

def pondForm : Form :=
  .art (toJsString "Haiku".toList) (toJsString "old pond".toList)

def pondMemo : FormMemo := ⟨.text, "Haiku\nold pond".toList⟩

theorem created_memo_cut :
    pondForm.refresh literalFormat asciiLetters = some pondMemo ∧
      ¬ ∃ ins, parseInscription
          (asciiFromBytes (sendTx selfPayment pondMemo.memo).encode) =
            some ins ∧
        ins.mediaType = pondMemo.kind.mediaType ∧
        ins.payload = trim pondMemo.payload := by
  refine ⟨by decide +kernel, ?_⟩
  rintro ⟨ins, hins, _, hpayload⟩
  have hread : (parseInscription (asciiFromBytes
      (sendTx selfPayment pondMemo.memo).encode)).map (·.payload) =
        some "Haiku".toList := by decide +kernel
  rw [hins, Option.map_some, hpayload] at hread
  exact absurd hread (by decide)

end IreBlockchain.Explorer

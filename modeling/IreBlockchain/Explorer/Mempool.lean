import IreBlockchain.Explorer.Keywords
import IreBlockchain.Explorer.Markets

/-!
# The inscription ids of the mempool page

The page numbers the messages of a transaction by the type URLs that stand in
its printable bytes.  Every field is read by itself, so the numbers are right
exactly if no field but the types of the messages names a type.
-/

namespace IreBlockchain.Explorer.Mempool

open IreBlockchain.Foundation

/-! ## The page -/

inductive TxKind
  | inscription
  | bank
  | other
  deriving DecidableEq

structure DecodedTx where
  hash : Text
  kind : TxKind
  urls : List Text
  inscription : Option Inscription
  ids : List Text
  size : Nat

def messageUrls (ascii : Text) : List Text := allMatches typeUrlWidth ascii

def classify (ascii : Text) (inscription : Option Inscription) : TxKind :=
  if inscription.isSome then .inscription
  else if occurs "cosmos.bank.v1beta1.MsgSend".toList ascii ||
      occurs "cosmos.bank.v1beta1.MsgMultiSend".toList ascii then .bank
  else .other

def inscriptionIds (hash : Text) (urls : List Text) : List Text :=
  (List.range (max 1 urls.length)).map fun i => hash ++ 'i' :: decimal i

def decodeTx (sha256Hex : Bytes → Text) (bytes : Bytes) : DecodedTx :=
  let hash := sha256Hex bytes
  let ascii := asciiFromBytes bytes
  let inscription := parseInscription ascii
  let urls := messageUrls ascii
  { hash := hash
    kind := classify ascii inscription
    urls := urls
    inscription := inscription
    ids := inscriptionIds hash urls
    size := bytes.length }

/-! ## Type URLs -/

def urlStarts : List Text := ["/cosmos.".toList, "/ibc.".toList]

def isUrlChar (c : Char) : Bool :=
  isDigit c || ('a' ≤ c && c ≤ 'z') || ('A' ≤ c && c ≤ 'Z') || c = '.' ||
    c = '/'

def isNameChar (c : Char) : Bool := c.isAlphanum || c = '_' || c = '.'

/-- A message type under `/cosmos.` or `/ibc.`; it has no further slash. -/
structure IsTypeUrl (url : Text) : Prop where
  named : ∃ start ∈ urlStarts, ∃ c name, url = start ++ c :: name ∧
    c.isAlpha = true ∧ ∀ d ∈ c :: name, isNameChar d = true

/-- What one of the two alternatives takes from the front. -/
def urlWidth (start text : Text) : Nat :=
  if start <+: text then
    let run := (text.drop start.length).takeWhile isUrlChar
    if run = [] then 0 else start.length + run.length
  else 0

theorem typeUrlWidth_eq (text : Text) : typeUrlWidth text =
    if urlWidth "/cosmos.".toList text ≠ 0 then
      urlWidth "/cosmos.".toList text
    else urlWidth "/ibc.".toList text := rfl

theorem urlWidth_append_cons {start : Text} {c : Char} (hstart : c ∉ start)
    (hc : isUrlChar c = false) (l m : Text) :
    urlWidth start (l ++ c :: m) = urlWidth start l := by
  rw [urlWidth, urlWidth]
  simp only [prefix_append_separator_iff hstart]
  split
  next hfront =>
    obtain ⟨rest, rfl⟩ := hfront
    rw [List.append_assoc, List.drop_left, List.drop_left,
      takeWhile_append_of_neg hc]
  next => rfl

theorem urlWidth_le (start text : Text) :
    urlWidth start text ≤ text.length := by
  rw [urlWidth]
  split
  next hfront =>
    obtain ⟨rest, rfl⟩ := hfront
    have hrun := (List.takeWhile_sublist isUrlChar (l := rest)).length_le
    simp only [List.drop_left, List.length_append]
    split
    next => exact Nat.zero_le _
    next => omega
  next => exact Nat.zero_le _

theorem urlWidth_ne_zero_iff {start text : Text} :
    urlWidth start text ≠ 0 ↔
      ∃ c, isUrlChar c = true ∧ start ++ [c] <+: text := by
  rw [urlWidth]
  split
  next hfront =>
    obtain ⟨rest, rfl⟩ := hfront
    rw [List.drop_left]
    simp only [List.prefix_append_right_inj]
    cases rest with
    | nil => simp
    | cons c rest =>
        cases hc : isUrlChar c with
        | true => simp [hc]
        | false => simp [hc]
  next hfront =>
    refine iff_of_false (fun h => h rfl) ?_
    rintro ⟨c, -, hprefix⟩
    exact hfront ((List.prefix_append _ _).trans hprefix)

theorem typeUrlWidth_le (text : Text) : typeUrlWidth text ≤ text.length := by
  rw [typeUrlWidth_eq]
  split <;> exact urlWidth_le _ _

theorem typeUrlWidth_append_cons {c : Char} (hc : c ∈ [nul, ' ', '*'])
    (l m : Text) : typeUrlWidth (l ++ c :: m) = typeUrlWidth l := by
  have hall : ∀ c ∈ [nul, ' ', '*'], c ∉ "/cosmos.".toList ∧
      c ∉ "/ibc.".toList ∧ isUrlChar c = false :=
    List.all_iff_forall_prop.mp (by decide)
  obtain ⟨hcosmos, hibc, hurl⟩ := hall c hc
  rw [typeUrlWidth_eq, typeUrlWidth_eq, urlWidth_append_cons hcosmos hurl,
    urlWidth_append_cons hibc hurl]

theorem typeUrlWidth_ne_zero_iff {text : Text} :
    typeUrlWidth text ≠ 0 ↔ ∃ start ∈ urlStarts, ∃ c, isUrlChar c = true ∧
      start ++ [c] <+: text := by
  rw [typeUrlWidth_eq]
  simp only [urlStarts, List.mem_cons, List.not_mem_nil, or_false,
    exists_eq_or_imp, exists_eq_left, ← urlWidth_ne_zero_iff]
  split
  next h => exact iff_of_true h (.inl h)
  next h => exact (or_iff_right h).symm

/-! ## Counting field by field -/

def urlCount (bytes : Bytes) : Nat := (messageUrls (asciiFromBytes bytes)).length

def fieldCount (field : Bytes) : Nat := urlCount (varint field.length ++ field)

/-- A type URL starts in the bytes of a field. -/
def NamesType (field : Bytes) : Prop :=
  ∃ start ∈ urlStarts, ∃ c, isUrlChar c = true ∧ SpeltIn (start ++ [c]) field

theorem urlCount_eq_zero_iff {bytes : Bytes} :
    urlCount bytes = 0 ↔ ¬ ∃ start ∈ urlStarts, ∃ c, isUrlChar c = true ∧
      Occurs (start ++ [c]) bytes := by
  rw [urlCount, List.length_eq_zero_iff, messageUrls,
    allMatches_eq_nil_iff (by decide)]
  constructor
  · rintro hzero ⟨start, hstart, c, hc, before, after, heq⟩
    have hsuffix : start ++ [c] ++ after <:+ asciiFromBytes bytes :=
      ⟨before, by rw [← heq, List.append_assoc before]⟩
    exact typeUrlWidth_ne_zero_iff.mpr
      ⟨start, hstart, c, hc, List.prefix_append _ _⟩ (hzero _ hsuffix)
  · intro hnone suffix hsuffix
    by_contra hwidth
    obtain ⟨start, hstart, c, hc, hfront⟩ :=
      typeUrlWidth_ne_zero_iff.mp hwidth
    exact hnone ⟨start, hstart, c, hc, hfront.isInfix.trans hsuffix.isInfix⟩

theorem fieldCount_eq_zero_iff {field : Bytes} :
    fieldCount field = 0 ↔ ¬ NamesType field := urlCount_eq_zero_iff

theorem urlCount_append_cons {b : UInt8}
    (hb : asciiOfByte b ∈ [nul, ' ', '*']) (l m : Bytes) :
    urlCount (l ++ b :: m) = urlCount l + urlCount m := by
  rw [urlCount, asciiFromBytes_append, messageUrls]
  have happend := allMatches_append_cons (typeUrlWidth_append_cons hb)
    typeUrlWidth_le (asciiFromBytes l) (asciiFromBytes m)
  exact (congrArg List.length happend).trans List.length_append

theorem urlCount_cons {b : UInt8} (hb : asciiOfByte b ∈ [nul, ' ', '*'])
    (rest : Bytes) : urlCount (b :: rest) = urlCount rest :=
  (urlCount_append_cons hb [] rest).trans (Nat.zero_add _)

theorem urlCount_append {m : Bytes} (hm : Apart m) (l : Bytes) :
    urlCount (l ++ m) = urlCount l + urlCount m := by
  cases m with
  | nil =>
      rw [List.append_nil]
      rfl
  | cons b m =>
      have hb := hm b m rfl
      rw [urlCount_append_cons hb, urlCount_cons hb]

theorem urlCount_varint (n : Nat) : urlCount (varint n) = 0 := by
  rw [urlCount_eq_zero_iff]
  rintro ⟨start, hstart, c, hc, hoccurs⟩
  have hkeyword : ∀ start ∈ urlStarts, Keyword start := by decide
  exact not_occurs_varint (hkeyword start hstart) n
    ((List.prefix_append _ _).isInfix.trans hoccurs)

theorem urlCount_messageField {field : Nat} {b : UInt8}
    (htag : tag field 2 = [b]) (hb : asciiOfByte b ∈ [nul, ' ', '*'])
    (payload : Bytes) :
    urlCount (messageField field payload) = fieldCount payload := by
  rw [messageField, htag, List.append_assoc, List.singleton_append,
    urlCount_cons hb, fieldCount]

theorem urlCount_bytesField {field : Nat} {b : UInt8}
    (htag : tag field 2 = [b]) (hb : asciiOfByte b ∈ [nul, ' ', '*'])
    (payload : Bytes) :
    urlCount (bytesField field payload) = fieldCount payload := by
  rw [bytesField]
  split
  next hnil =>
    rw [hnil, fieldCount, List.append_nil, urlCount_varint]
    rfl
  next => exact urlCount_messageField htag hb payload

theorem fieldCount_of_apart {payload : Bytes} (h : Apart payload) :
    fieldCount payload = urlCount payload := by
  rw [fieldCount, urlCount_append h, urlCount_varint, Nat.zero_add]

theorem typeUrlWidth_cons {c : Char} (hc : c ≠ '/') (text : Text) :
    typeUrlWidth (c :: text) = 0 := by
  by_contra hwidth
  obtain ⟨start, hstart, d, -, hfront⟩ := typeUrlWidth_ne_zero_iff.mp hwidth
  have hslash : ∀ start ∈ urlStarts, start.head? = some '/' := by decide
  obtain ⟨rest, hrest⟩ := List.head?_eq_some_iff.mp (hslash start hstart)
  rw [hrest, List.cons_append, List.cons_prefix_cons] at hfront
  exact hc hfront.1.symm

section TypeUrl

variable {url : Text} (h : IsTypeUrl url)

include h

theorem IsTypeUrl.printable : ∀ c ∈ url, isPrintable c = true := by
  obtain ⟨start, hstart, d, name, rfl, -, hname⟩ := h.named
  have hall : ∀ start ∈ urlStarts, start.all isPrintable = true := by decide
  intro c hc
  cases List.mem_append.mp hc with
  | inl hc => exact List.all_eq_true.mp (hall start hstart) c hc
  | inr hc =>
      have hchar := hname c hc
      simp only [isNameChar, Bool.or_eq_true, decide_eq_true_eq] at hchar
      rcases hchar with (halnum | rfl) | rfl
      · exact isPrintable_of_isAlphanum halnum
      · decide
      · decide

theorem IsTypeUrl.eq_cons : ∃ tail, url = '/' :: tail ∧ '/' ∉ tail := by
  obtain ⟨start, hstart, d, name, rfl, -, hname⟩ := h.named
  have hall : ∀ start ∈ urlStarts,
      start = '/' :: start.tail ∧ '/' ∉ start.tail := by decide
  obtain ⟨hcons, hslash⟩ := hall start hstart
  refine ⟨start.tail ++ d :: name, ?_, ?_⟩
  · exact (congrArg (· ++ d :: name) hcons).trans (List.cons_append ..)
  · intro hmem
    cases List.mem_append.mp hmem with
    | inl hmem => exact hslash hmem
    | inr hmem => exact absurd (hname '/' hmem) (by decide)

theorem IsTypeUrl.width_ne_zero : typeUrlWidth url ≠ 0 := by
  obtain ⟨start, hstart, d, name, rfl, halpha, -⟩ := h.named
  refine typeUrlWidth_ne_zero_iff.mpr ⟨start, hstart, d, ?_, ⟨name, by simp⟩⟩
  simp only [isUrlChar, Bool.or_eq_true, Bool.and_eq_true, decide_eq_true_eq]
  cases isAlpha_iff_toNat.mp halpha with
  | inl hupper => exact .inl (.inl (.inr hupper))
  | inr hlower => exact .inl (.inl (.inl (.inr hlower)))

theorem messageUrls_typeUrl (c : Char) :
    (messageUrls (c :: url)).length = 1 := by
  obtain ⟨tail, rfl, hslash⟩ := h.eq_cons
  have hfirst : typeUrlWidth (c :: '/' :: tail) = 0 := by
    by_contra hwidth
    obtain ⟨start, hstart, d, -, hfront⟩ :=
      typeUrlWidth_ne_zero_iff.mp hwidth
    have hall : ∀ start ∈ urlStarts, start = '/' :: start.tail ∧
        start.tail ≠ [] ∧ '/' ∉ start.tail := by decide
    obtain ⟨hcons, hne, hsecond⟩ := hall start hstart
    obtain ⟨e, more, htail⟩ := List.exists_cons_of_ne_nil hne
    rw [hcons, htail, List.cons_append, List.cons_append,
      List.cons_prefix_cons, List.cons_prefix_cons] at hfront
    rw [htail, hfront.2.1] at hsecond
    exact hsecond List.mem_cons_self
  have hrest : ∀ suffix, suffix <:+ tail → typeUrlWidth suffix = 0 := by
    intro suffix hsuffix
    cases suffix with
    | nil => decide
    | cons d suffix =>
        apply typeUrlWidth_cons
        rintro rfl
        exact hslash (hsuffix.subset List.mem_cons_self)
  rw [messageUrls, allMatches_cons_of_width_eq_zero hfirst, allMatches,
    matchesFrom]
  cases hwidth : typeUrlWidth ('/' :: tail) with
  | zero => exact absurd hwidth h.width_ne_zero
  | succ n =>
      simp only [matchesFrom_eq_nil hrest n, List.length_singleton]

end TypeUrl

theorem fieldCount_typeUrl {url : Text} (h : IsTypeUrl url) :
    fieldCount (utf8 url) = 1 := by
  obtain ⟨k, c, hvarint⟩ := ascii_varint (utf8 url).length
  rw [fieldCount, urlCount, asciiFromBytes_append, hvarint,
    ascii_utf8_of_printable h.printable, List.append_assoc]
  clear hvarint
  induction k with
  | zero => exact messageUrls_typeUrl h c
  | succ k ih =>
      rw [List.replicate_succ, List.cons_append, messageUrls,
        allMatches_cons_of_width_eq_zero (typeUrlWidth_cons (by decide) _)]
      exact ih

theorem urlCount_message (msg : AnyMsg) (h : IsTypeUrl msg.typeUrl) :
    urlCount (messageField 1 msg.encode) = 1 + fieldCount msg.value := by
  have hurl : Apart (bytesField 1 (utf8 msg.typeUrl)) :=
    apart_bytesField rfl (by decide) _
  have hvalue : Apart (bytesField 2 msg.value) :=
    apart_bytesField rfl (by decide) _
  rw [urlCount_messageField rfl (by decide), AnyMsg.encode,
    fieldCount_of_apart (hurl.append hvalue), urlCount_append hvalue,
    urlCount_bytesField rfl (by decide), urlCount_bytesField rfl (by decide),
    fieldCount_typeUrl h]

theorem urlCount_encodeMessages {body : TxBody}
    (h : ∀ msg ∈ body.messages, IsTypeUrl msg.typeUrl) :
    urlCount body.encodeMessages = body.messages.length +
      (body.messages.map fun msg => fieldCount msg.value).sum := by
  rw [TxBody.encodeMessages]
  generalize body.messages = messages at h
  induction messages with
  | nil => rfl
  | cons msg messages ih =>
      have hrest : Apart (messages.flatMap fun msg =>
          messageField 1 msg.encode) :=
        Apart.flatMap (fun _ => apart_messageField rfl (by decide) _) messages
      rw [List.flatMap_cons, urlCount_append hrest,
        urlCount_message msg (h msg List.mem_cons_self),
        ih fun msg hmem => h msg (List.mem_cons_of_mem _ hmem)]
      simp only [List.length_cons, List.map_cons, List.sum_cons]
      omega

theorem urlCount_encode {tx : TxRaw}
    (h : ∀ msg ∈ tx.body.messages, IsTypeUrl msg.typeUrl) :
    urlCount tx.encode = tx.body.messages.length +
      ((tx.body.messages.map fun msg => fieldCount msg.value).sum +
        (fieldCount (utf8 tx.body.memo) + urlCount tx.afterMemo)) := by
  have hmemo : Apart (bytesField 2 (utf8 tx.body.memo)) :=
    apart_bytesField rfl (by decide) _
  have hoptions := apart_encodeOptions tx.body
  have hsigners := apart_encodeSigners tx
  have hmessages : Apart tx.body.encodeMessages :=
    Apart.flatMap (fun _ => apart_messageField rfl (by decide) _) _
  have hbody : Apart tx.body.encode := (hmessages.append hmemo).append hoptions
  rw [TxRaw.encode, urlCount_append hsigners,
    urlCount_bytesField rfl (by decide), fieldCount_of_apart hbody,
    TxBody.encode, urlCount_append hoptions, urlCount_append hmemo,
    urlCount_encodeMessages h, urlCount_bytesField rfl (by decide),
    TxRaw.afterMemo, urlCount_append hsigners]
  omega

/-! ## The ids -/

/-- No field but the types of the messages names a type. -/
structure TypesOnly (tx : TxRaw) : Prop where
  values : ∀ msg ∈ tx.body.messages, ¬ NamesType msg.value
  memo : ¬ NamesType (utf8 tx.body.memo)
  afterMemo : ¬ ∃ start ∈ urlStarts, ∃ c, isUrlChar c = true ∧
    Occurs (start ++ [c]) tx.afterMemo

/-- The ids of the messages as they are documented: the index counts from 0. -/
def documentedIds (hash : Text) (messages : List AnyMsg) : List Text :=
  (List.range messages.length).map fun i => hash ++ 'i' :: decimal i

theorem urlCount_eq_length_iff {tx : TxRaw}
    (h : ∀ msg ∈ tx.body.messages, IsTypeUrl msg.typeUrl) :
    urlCount tx.encode = tx.body.messages.length ↔ TypesOnly tx := by
  rw [urlCount_encode h, Nat.add_eq_left, Nat.add_eq_zero_iff,
    Nat.add_eq_zero_iff, List.sum_eq_zero_iff_forall_eq_nat,
    fieldCount_eq_zero_iff, urlCount_eq_zero_iff]
  simp only [List.mem_map, forall_exists_index, and_imp,
    forall_apply_eq_imp_iff₂, fieldCount_eq_zero_iff]
  constructor
  · rintro ⟨hvalues, hmemo, hafter⟩
    exact ⟨hvalues, hmemo, hafter⟩
  · rintro ⟨hvalues, hmemo, hafter⟩
    exact ⟨hvalues, hmemo, hafter⟩

/--
The page gives the messages of a transaction their documented ids exactly if
nothing else in the transaction names a type.
-/
theorem decodeTx_ids_iff (sha256Hex : Bytes → Text) {tx : TxRaw}
    (hne : tx.body.messages ≠ [])
    (h : ∀ msg ∈ tx.body.messages, IsTypeUrl msg.typeUrl) :
    (decodeTx sha256Hex tx.encode).ids =
        documentedIds (sha256Hex tx.encode) tx.body.messages ↔
      TypesOnly tx := by
  have hpos := List.length_pos_iff.mpr hne
  have hge : tx.body.messages.length ≤ urlCount tx.encode := by
    rw [urlCount_encode h]
    exact Nat.le_add_right _ _
  rw [← urlCount_eq_length_iff h]
  change (List.range (max 1 (urlCount tx.encode))).map _ = _ ↔ _
  rw [documentedIds, Nat.max_eq_right (hpos.trans_le hge)]
  constructor
  · intro hids
    have hlength := congrArg List.length hids
    rwa [List.length_map, List.length_map, List.length_range,
      List.length_range] at hlength
  · intro hcount
    rw [hcount]

/-! ## Sample transactions -/

def sampleMessages : List AnyMsg :=
  [⟨"/cosmos.bank.v1beta1.MsgSend".toList, [1]⟩,
    ⟨"/ibc.applications.transfer.v1.MsgTransfer".toList, [2]⟩]

def twoMessages (signerInfo : Bytes) : TxRaw where
  body := { messages := sampleMessages, memo := [], timeoutHeight := 0
            unordered := false, timeoutTimestamp := none
            extensionOptions := [], nonCriticalExtensionOptions := [] }
  authInfo := messageField 1 signerInfo
  signatures := [[3]]

theorem sampleMessages_types :
    ∀ msg ∈ sampleMessages, IsTypeUrl msg.typeUrl := by
  intro msg hmsg
  simp only [sampleMessages, List.mem_cons, List.not_mem_nil, or_false] at hmsg
  rcases hmsg with rfl | rfl
  · exact ⟨"/cosmos.".toList, by decide, 'b', "ank.v1beta1.MsgSend".toList,
      by decide, by decide, List.all_eq_true.mp (by decide)⟩
  · exact ⟨"/ibc.".toList, by decide, 'a',
      "pplications.transfer.v1.MsgTransfer".toList, by decide, by decide,
      List.all_eq_true.mp (by decide)⟩

theorem decodeTx_ids_iff_sample :
    TypesOnly (twoMessages []) :=
  (decodeTx_ids_iff (fun _ => []) (by decide) sampleMessages_types).mp
    (by decide +kernel)

theorem publicKey_counted :
    let key := AnyMsg.mk "/cosmos.crypto.secp256k1.PubKey".toList [4]
    let tx := twoMessages (messageField 1 key.encode)
    (decodeTx (fun _ => []) tx.encode).ids ≠
      documentedIds [] tx.body.messages := by
  decide +kernel

end IreBlockchain.Explorer.Mempool

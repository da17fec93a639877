import IreBlockchain.Explorer.CreatedMemos
import IreBlockchain.Explorer.ProfileForm
import IreBlockchain.Foundation.Lengths

/-!
# Which memos fit the chain

The pages count the code units of a memo, the chain counts its bytes.
-/

namespace IreBlockchain.Explorer

open IreBlockchain.Foundation

def maxMemoCharacters : Nat := 256

/-- What the chain accepts as a memo, which it measures in bytes. -/
def FitsChain (memo : Text) : Prop := byteLength memo ≤ maxMemoCharacters

instance (memo : Text) : Decidable (FitsChain memo) :=
  inferInstanceAs (Decidable (_ ≤ _))

/-! ## Bytes of fields -/

section Fields

variable (fmt : NumberFormat)

def shownTick (letters : CaseMapping) (tick : JsString) : JsString :=
  let tick := tickLetters letters (tickLetters letters tick)
  if tick = [] then toJsString "ABCD".toList else tick

def numberBytes (bytes : JsString) : Nat :=
  match fmt.ofString bytes with
  | none => jsonBytes bytes + 2
  | some n =>
      if fmt.toText n = ['0'] then jsonBytes bytes + 2
      else if fmt.isFinite n then (fmt.toText n).length
      else 4

def fieldBytes (key : String) (limit : Nat) (value : JsString) : Nat :=
  if clean value = [] then 0
  else key.length + 6 + bareBytes ((clean value).take limit)

/-- The bytes that the inputs of a form add to those of every such memo. -/
def Form.Fits (letters : CaseMapping) : Form → Prop
  | token tick max lim =>
      88 + jsonBytes (shownTick letters tick) +
        jsonBytes (fieldOr max "21000000".toList) +
        jsonBytes (fieldOr lim "1000".toList) ≤ maxMemoCharacters
  | art title body =>
      let title := trimString (sanitize title)
      let body := sanitize body
      if looksSvg body then
        27 + textBytes (trimString body) ≤ maxMemoCharacters
      else if title = [] then 24 + textBytes body ≤ maxMemoCharacters
      else if body = [] then 24 + textBytes title ≤ maxMemoCharacters
      else 24 + textBytes title + 1 + textBytes body ≤ maxMemoCharacters
  | file name mime bytes =>
      147 + jsonBytes (fieldOr name "clip.mp4".toList) +
        jsonBytes (fieldOr mime "video/mp4".toList) +
        numberBytes fmt (fieldOr bytes "12345".toList) ≤ maxMemoCharacters
  | game name mime =>
      78 + jsonBytes (fieldOr name "game".toList) +
        jsonBytes (fieldOr mime "text/html".toList) ≤ maxMemoCharacters

def ProfileForm.Fits (form : ProfileForm) : Prop :=
  55 + fieldBytes "n" 24 form.n + fieldBytes "x" 20 form.x +
    fieldBytes "tg" 32 form.tg + fieldBytes "d" 32 form.d +
    fieldBytes "w" 40 form.w ≤ maxMemoCharacters

instance (letters : CaseMapping) :
    (form : Form) → Decidable (form.Fits fmt letters)
  | .token _ _ _ => inferInstanceAs (Decidable (_ ≤ _))
  | .art _ _ => inferInstanceAs
      (Decidable (ite _ (_ ≤ _) (ite _ (_ ≤ _) (ite _ (_ ≤ _) (_ ≤ _)))))
  | .file _ _ _ => inferInstanceAs (Decidable (_ ≤ _))
  | .game _ _ => inferInstanceAs (Decidable (_ ≤ _))

instance (form : ProfileForm) : Decidable form.Fits :=
  inferInstanceAs (Decidable (_ ≤ _))

def PageForm.Fits (letters : CaseMapping) : PageForm → Prop
  | create form => form.Fits fmt letters
  | profile form => form.Fits

instance (letters : CaseMapping) :
    (form : PageForm) → Decidable (form.Fits fmt letters)
  | .create form => inferInstanceAs (Decidable (form.Fits fmt letters))
  | .profile form => inferInstanceAs (Decidable form.Fits)

end Fields

/-! ## Bytes of members -/

section Members

variable {fmt : NumberFormat}

theorem memberWeight_string (key : String) (s : JsString) :
    memberWeight Char.utf8Size
        (member fmt key (.string s)) =
      jsonBytes (toJsString key.toList) + jsonBytes s + 6 := by
  rw [memberWeight, member]
  dsimp only
  rw [← byteLength_eq_weigh, ← byteLength_eq_weigh, byteLength_quote,
    Json.stringify, byteLength_quote]
  omega

theorem memberWeight_bare_string (key : String) (s : JsString) :
    memberWeight bareSize (member fmt key (.string s)) =
      bareBytes (toJsString key.toList) + bareBytes s + 6 := by
  rw [memberWeight, member]
  dsimp only
  rw [weigh_bare_quote, Json.stringify, weigh_bare_quote]
  omega

theorem byteLength_object (member : JsString × Json fmt.Number)
    (members : List (JsString × Json fmt.Number)) :
    byteLength ((Json.object (member :: members)).stringify fmt) =
      1 + ((member :: members).map (memberWeight Char.utf8Size)).sum :=
  weigh_object (by decide) (by decide) (by decide) (by decide) member members

theorem utf8Size_of_isNumberChar {c : Char} (h : isNumberChar c = true) :
    c.utf8Size = 1 := by
  have hprint := isPrintable_of_isNumberChar h
  rw [isPrintable, Bool.and_eq_true, decide_eq_true_eq,
    decide_eq_true_eq] at hprint
  exact utf8Size_of_lt (by omega)

theorem byteLength_number (n : fmt.Number) :
    byteLength ((Json.number n).stringify fmt) =
      if fmt.isFinite n then (fmt.toText n).length else 4 := by
  rw [Json.stringify]
  split
  next hfinite =>
    have hchars := isNumberChar_of_isNumberLiteral
      (fmt.isNumberLiteral_toText n hfinite)
    exact weigh_eq_length fun c hc => utf8Size_of_isNumberChar (hchars c hc)
  next => decide

theorem byteLength_numberOr (bytes : JsString) :
    byteLength ((numberOr fmt bytes).stringify fmt) =
      numberBytes fmt bytes := by
  rw [numberOr, numberBytes]
  cases fmt.ofString bytes with
  | none => exact byteLength_quote bytes
  | some n =>
      dsimp only
      split
      next => exact byteLength_quote bytes
      next => exact byteLength_number n

theorem memberWeight_numberOr (key : String) (bytes : JsString) :
    memberWeight Char.utf8Size (member fmt key (numberOr fmt bytes)) =
      jsonBytes (toJsString key.toList) + numberBytes fmt bytes + 4 := by
  rw [memberWeight, member]
  dsimp only
  rw [← byteLength_eq_weigh, ← byteLength_eq_weigh, byteLength_quote,
    byteLength_numberOr]
  omega

end Members

/-! ## Bytes of memos -/

theorem byteLength_append (l m : Text) :
    byteLength (l ++ m) = byteLength l + byteLength m := weigh_append l m

theorem byteLength_memo (m : FormMemo) :
    byteLength m.memo = byteLength m.kind.front + byteLength m.payload :=
  byteLength_append _ _

section Memos

variable {fmt : NumberFormat}

theorem jsonBytes_keys : jsonBytes (toJsString "p".toList) = 1 ∧
    jsonBytes (toJsString "op".toList) = 2 ∧
    jsonBytes (toJsString "name".toList) = 4 ∧
    jsonBytes (toJsString "mime".toList) = 4 ∧
    jsonBytes (toJsString "ire-insc".toList) = 8 ∧
    byteLength MemoKind.json.front = 30 :=
  ⟨by decide, by decide, by decide, by decide, by decide, by decide⟩

theorem byteLength_tokenMemo (letters : CaseMapping) (tick max lim : JsString) :
    byteLength (tokenMemo fmt letters (tickLetters letters tick) max lim).memo =
      88 + jsonBytes (shownTick letters tick) +
        jsonBytes (fieldOr max "21000000".toList) +
        jsonBytes (fieldOr lim "1000".toList) := by
  obtain ⟨hp, hop, -, -, hinsc, hfront⟩ := jsonBytes_keys
  have hdeploy : jsonBytes (toJsString "deploy".toList) = 6 := by decide
  have htick : jsonBytes (toJsString "tick".toList) = 4 := by decide
  have hmax : jsonBytes (toJsString "max".toList) = 3 := by decide
  have hlim : jsonBytes (toJsString "lim".toList) = 3 := by decide
  rw [byteLength_memo, tokenMemo]
  dsimp only
  rw [byteLength_object]
  simp only [List.map_cons, List.map_nil, List.sum_cons, List.sum_nil,
    constant, memberWeight_string, hfront, hp, hinsc, hop, hdeploy, htick,
    hmax, hlim]
  rw [← shownTick]
  omega

theorem byteLength_fileMemo (name mime bytes : JsString) :
    byteLength (fileMemo fmt name mime bytes).memo =
      147 + jsonBytes (fieldOr name "clip.mp4".toList) +
        jsonBytes (fieldOr mime "video/mp4".toList) +
        numberBytes fmt (fieldOr bytes "12345".toList) := by
  obtain ⟨hp, hop, hname, hmime, hinsc, hfront⟩ := jsonBytes_keys
  have hfile : jsonBytes (toJsString "file".toList) = 4 := by decide
  have hbytes : jsonBytes (toJsString "bytes".toList) = 5 := by decide
  have hnoteKey : jsonBytes (toJsString "note".toList) = 4 := by decide
  have hnote : jsonBytes (toJsString
      "on-chain catalog; payload needs inscription module".toList) = 50 := by
    decide
  rw [byteLength_memo, fileMemo]
  dsimp only
  rw [byteLength_object]
  simp only [List.map_cons, List.map_nil, List.sum_cons, List.sum_nil,
    constant, memberWeight_string, memberWeight_numberOr, hfront, hp, hinsc,
    hop, hfile, hname, hmime, hbytes, hnoteKey, hnote]
  omega

theorem byteLength_gameMemo (name mime : JsString) :
    byteLength (gameMemo fmt name mime).memo =
      78 + jsonBytes (fieldOr name "game".toList) +
        jsonBytes (fieldOr mime "text/html".toList) := by
  obtain ⟨hp, hop, hname, hmime, hinsc, hfront⟩ := jsonBytes_keys
  have hgame : jsonBytes (toJsString "game".toList) = 4 := by decide
  rw [byteLength_memo, gameMemo]
  dsimp only
  rw [byteLength_object]
  simp only [List.map_cons, List.map_nil, List.sum_cons, List.sum_nil,
    constant, memberWeight_string, hfront, hp, hinsc, hop, hgame, hname,
    hmime]
  omega

theorem textBytes_newline (s rest : JsString) :
    textBytes (s ++ 0x0a :: rest) = textBytes s + 1 + textBytes rest := by
  have hfeed : byteLength (toText s ++ '\n' :: toText rest) =
      byteLength (toText s) + (1 + byteLength (toText rest)) := by
    rw [byteLength_append]
    rfl
  rw [← byteLength_toText, toText_append_newline, hfeed, byteLength_toText,
    byteLength_toText]
  omega

theorem fits_art {title body : JsString} {m : FormMemo}
    (h : refreshArt title body = some m) (letters : CaseMapping) :
    FitsChain m.memo ↔ (Form.art title body).Fits fmt letters := by
  have hsvg : byteLength MemoKind.svg.front = 27 := by decide
  have htext : byteLength MemoKind.text.front = 24 := by decide
  rw [refreshArt] at h
  split at h
  next => cases h
  next =>
    cases h
    rw [FitsChain, byteLength_memo, artParts_eq, Form.Fits]
    dsimp only
    rw [byteLength_toText]
    split
    next => rw [hsvg]
    next =>
      split
      next => rw [htext]
      next =>
        split
        next => rw [htext]
        next =>
          dsimp only
          rw [htext, textBytes_newline]
          omega

theorem sum_profileField {key : String} (limit : Nat) (value : JsString)
    (hkey : bareBytes (toJsString key.toList) = key.length) :
    ((profileField fmt key limit value).map (memberWeight bareSize)).sum =
      fieldBytes key limit value := by
  rw [profileField, fieldBytes]
  split
  next => rfl
  next =>
    rw [List.map_singleton, List.sum_singleton, memberWeight_bare_string, hkey,
      Nat.add_right_comm]

theorem byteLength_profileMemo (form : ProfileForm) :
    byteLength (dropApostrophes (form.memo fmt)) =
      55 + fieldBytes "n" 24 form.n + fieldBytes "x" 20 form.x +
        fieldBytes "tg" 32 form.tg + fieldBytes "d" 32 form.d +
        fieldBytes "w" 40 form.w := by
  have hprefix : weigh bareSize profilePrefix = 30 := by decide
  have hp : bareBytes (toJsString "p".toList) = 1 := by decide
  have hid : bareBytes (toJsString "ire-id".toList) = 6 := by decide
  have hop : bareBytes (toJsString "op".toList) = 2 := by decide
  have hset : bareBytes (toJsString "set".toList) = 3 := by decide
  rw [dropApostrophes, byteLength_bare, ProfileForm.memo, weigh_append,
    ProfileForm.payload, weigh_object (by decide) (by decide) (by decide)
      (by decide)]
  simp only [List.map_cons, List.map_append, List.sum_cons, List.sum_append,
    constant, memberWeight_bare_string, hprefix, hp, hid, hop, hset,
    sum_profileField 24 form.n (show _ = "n".length by decide),
    sum_profileField 20 form.x (show _ = "x".length by decide),
    sum_profileField 32 form.tg (show _ = "tg".length by decide),
    sum_profileField 32 form.d (show _ = "d".length by decide),
    sum_profileField 40 form.w (show _ = "w".length by decide)]
  omega

theorem fits_profile {form : ProfileForm} {cmd : ProfileCommand}
    (h : form.submit fmt = some cmd) : FitsChain cmd.memo ↔ form.Fits := by
  rw [ProfileForm.submit] at h
  split at h
  next =>
    split at h
    next => cases h
    next =>
      cases h
      rw [FitsChain, byteLength_profileMemo, ProfileForm.Fits]
  next => cases h

theorem fits_create {letters : CaseMapping} {form : Form} {m : FormMemo}
    (h : form.refresh fmt letters = some m) :
    FitsChain m.memo ↔ form.Fits fmt letters := by
  cases form with
  | token tick max lim =>
      rw [fitOrBlock_eq_some h, FitsChain, byteLength_tokenMemo, Form.Fits]
  | art title body => exact fits_art h letters
  | file name mime bytes =>
      rw [fitOrBlock_eq_some h, FitsChain, byteLength_fileMemo, Form.Fits]
  | game name mime =>
      rw [fitOrBlock_eq_some h, FitsChain, byteLength_gameMemo, Form.Fits]

end Memos

/--
The memo in a command that is not blocked fits the chain exactly if the bytes of
the form's inputs leave it room.
-/
theorem command_memo_fits (fmt : NumberFormat) (letters : CaseMapping)
    {form : PageForm} {memo : Text} (h : form.memo fmt letters = some memo) :
    FitsChain memo ↔ form.Fits fmt letters := by
  cases form with
  | create form =>
      obtain ⟨m, hm, rfl⟩ := Option.map_eq_some_iff.mp h
      exact fits_create hm
  | profile form =>
      obtain ⟨cmd, hcmd, rfl⟩ := Option.map_eq_some_iff.mp h
      exact fits_profile hcmd

theorem command_memo_fits_sample :
    FitsChain pondMemo.memo := by
  have hmemo : (PageForm.create pondForm).memo literalFormat asciiLetters =
      some pondMemo.memo := by decide +kernel
  exact (command_memo_fits literalFormat asciiLetters hmemo).mpr
    (by decide +kernel)

def euroForm : Form := .art [] (List.replicate 90 0x20ac)

theorem euro_memo_too_long :
    ¬ ∀ (form : PageForm) (memo : Text),
      form.memo literalFormat asciiLetters = some memo → FitsChain memo := by
  intro h
  have hmemo : (PageForm.create euroForm).memo literalFormat asciiLetters =
      some (MemoKind.text.front ++ List.replicate 90 '€') := by decide +kernel
  exact absurd (h _ _ hmemo) (by decide +kernel)

end IreBlockchain.Explorer

import IreBlockchain.Explorer.CreatedMemos
import IreBlockchain.Explorer.ProfileForm
import IreBlockchain.Foundation.Lengths
import IreBlockchain.Foundation.Shell

/-!
# The commands that are copied

What a shell reads in the commands of the create page and of the profile page.
-/

namespace IreBlockchain.Explorer

open IreBlockchain.Foundation
open IreBlockchain.Foundation.Shell

/-! ## Commands -/

def cli (memo : Text) : Text :=
  join ['\n']
    ["ired tx bank send <from> <from> 1uire \\".toList,
      "  --chain-id ire-1 \\".toList,
      "  --from <key> \\".toList,
      "  --gas-prices 0.001uire \\".toList,
      "  --memo '".toList ++ memo ++ "' \\".toList,
      "  --home \"$HOME/.ire\" \\".toList,
      "  --yes".toList]

/-- The value of `cmd` in the `submit` handler. -/
def ProfileCommand.text (cmd : ProfileCommand) : Text :=
  "ired tx bank send ".toList ++ cmd.addr ++ " ".toList ++ cmd.addr ++
    " 1uire --chain-id ire-1 --from <key> --gas-prices 0.001uire --note '".toList
    ++ cmd.memo ++ "' --home $HOME/.ire --yes".toList

structure Copied where
  built : Text
  text : Text
  deriving DecidableEq

/-- The create page copies the trimmed text of its snippet. -/
def PageForm.copied (fmt : NumberFormat) (letters : CaseMapping) :
    PageForm → Option Copied
  | create form =>
      (form.refresh fmt letters).map fun m => ⟨m.memo, trim (cli m.memo)⟩
  | profile form =>
      (form.submit fmt).map fun cmd => ⟨form.memo fmt, cmd.text⟩

/-! ## Words -/

def plain (text : String) : Token := .word (quoted .bare text.toList)

def redirect (op : Char) : Token := .operator [op]

def createBefore : List Token :=
  [plain "ired", plain "tx", plain "bank", plain "send", redirect '<',
    plain "from", redirect '>', redirect '<', plain "from", redirect '>',
    plain "1uire", plain "--chain-id", plain "ire-1", plain "--from",
    redirect '<', plain "key", redirect '>', plain "--gas-prices",
    plain "0.001uire", plain "--memo"]

def createAfter : List Token :=
  [plain "--home", .word (quoted .double "$HOME/.ire".toList), plain "--yes"]

def profileBefore (addr : Text) : List Token :=
  [plain "ired", plain "tx", plain "bank", plain "send",
    .word (quoted .bare addr), .word (quoted .bare addr), plain "1uire",
    plain "--chain-id", plain "ire-1", plain "--from", redirect '<',
    plain "key", redirect '>', plain "--gas-prices", plain "0.001uire",
    plain "--note"]

def profileAfter : List Token :=
  [plain "--home", plain "$HOME/.ire", plain "--yes"]

/-- What stands around the memo, which only the address has a part in. -/
def PageForm.WordsAround (before after : List Token) : PageForm → Prop
  | create _ => before = createBefore ∧ after = createAfter
  | profile form =>
      ∃ addr, addr = toText (trimString form.addr) ∧ ireOk addr = true ∧
        before = profileBefore addr ∧ after = profileAfter

/-! ## Memos without apostrophes -/

theorem apostrophe_not_mem_sanitize (value : JsString) :
    0x27 ∉ sanitize value := by
  intro hmem
  have hne := (List.mem_filter.mp hmem).2
  simp at hne

theorem mem_of_mem_trimString {s : JsString} {u : UInt16}
    (h : u ∈ trimString s) : u ∈ s :=
  (List.dropWhile_suffix _).mem ((List.rdropWhile_prefix _ _).mem h)

theorem apostrophe_not_mem_tickLetters (letters : CaseMapping)
    (value : JsString) : 0x27 ∉ tickLetters letters value := by
  intro hmem
  have hupper := (List.mem_filter.mp (List.mem_of_mem_take hmem)).2
  exact absurd hupper (by decide)

theorem apostrophe_not_mem_art (title body : JsString) :
    0x27 ∉ (artParts title body).2 := by
  have htitle := apostrophe_not_mem_sanitize title
  have hbody := apostrophe_not_mem_sanitize body
  rw [artParts_eq]
  split
  next => exact fun h => hbody (mem_of_mem_trimString h)
  next =>
    split
    next => exact hbody
    next =>
      split
      next => exact fun h => htitle (mem_of_mem_trimString h)
      next =>
        intro h
        cases List.mem_append.mp h with
        | inl h => exact htitle (mem_of_mem_trimString h)
        | inr h =>
            cases List.mem_cons.mp h with
            | inl heq => exact absurd heq (by decide)
            | inr h => exact hbody h

section Payloads

variable {fmt : NumberFormat}

def Unquoted (v : Json fmt.Number) : Prop :=
  ∀ c ∈ v.stringify fmt, c ≠ '\''

theorem unquoted_string {s : JsString} (h : 0x27 ∉ s) :
    Unquoted (.string s : Json fmt.Number) := by
  rintro c hc rfl
  exact apostrophe_not_mem_quote h hc

theorem unquoted_number (n : fmt.Number) :
    Unquoted (.number n : Json fmt.Number) := by
  rintro c hc rfl
  rw [Json.stringify] at hc
  split at hc
  next hfinite =>
    have hchar := isNumberChar_of_isNumberLiteral
      (fmt.isNumberLiteral_toText n hfinite) _ hc
    exact absurd hchar (by decide)
  next => exact absurd hc (by decide)

theorem unquoted_numberOr {bytes : JsString} (h : 0x27 ∉ bytes) :
    Unquoted (numberOr fmt bytes) := by
  rw [numberOr]
  split
  next => exact unquoted_string h
  next n _ =>
    split
    next => exact unquoted_string h
    next => exact unquoted_number n

theorem apostrophe_not_mem_object
    {members : List (JsString × Json fmt.Number)}
    (h : ∀ member ∈ members, 0x27 ∉ member.1 ∧ Unquoted member.2) :
    '\'' ∉ (Json.object members).stringify fmt := by
  have hpunctuation : ∀ c ∈ ['{', '}', ',', ':'], c ≠ '\'' :=
    List.all_iff_forall_prop.mp (by decide)
  have hchars : ∀ c ∈ (Json.object members).stringify fmt, c ≠ '\'' := by
    refine (forall_mem_object hpunctuation).mpr ?_
    intro member hmember
    refine ⟨?_, (h member hmember).2⟩
    rintro c hc rfl
    exact apostrophe_not_mem_quote (h member hmember).1 hc
  exact fun hmem => hchars _ hmem rfl

theorem apostrophe_not_mem_fieldOr {value : JsString} {fallback : Text} :
    0x27 ∉ fieldOr value fallback := apostrophe_not_mem_sanitize _

theorem apostrophe_not_mem_payload {letters : CaseMapping} {form : Form}
    {m : FormMemo} (h : form.refresh fmt letters = some m) :
    '\'' ∉ m.payload := by
  cases form with
  | token tick max lim =>
      have htick : 0x27 ∉ if tickLetters letters (tickLetters letters tick) = []
          then toJsString "ABCD".toList
          else tickLetters letters (tickLetters letters tick) := by
        split
        next => decide
        next => exact apostrophe_not_mem_tickLetters letters _
      rw [fitOrBlock_eq_some h, tokenMemo]
      refine apostrophe_not_mem_object ?_
      simp only [List.forall_mem_cons, List.not_mem_nil, false_implies,
        implies_true, and_true, member]
      exact ⟨⟨by decide, unquoted_string (by decide)⟩,
        ⟨by decide, unquoted_string (by decide)⟩,
        ⟨by decide, unquoted_string htick⟩,
        ⟨by decide, unquoted_string apostrophe_not_mem_fieldOr⟩,
        by decide, unquoted_string apostrophe_not_mem_fieldOr⟩
  | art title body =>
      rw [Form.refresh, refreshArt] at h
      split at h
      next => cases h
      next =>
        cases h
        exact apostrophe_not_mem_toText (apostrophe_not_mem_art title body)
  | file name mime bytes =>
      rw [fitOrBlock_eq_some h, fileMemo]
      refine apostrophe_not_mem_object ?_
      simp only [List.forall_mem_cons, List.not_mem_nil, false_implies,
        implies_true, and_true, member]
      exact ⟨⟨by decide, unquoted_string (by decide)⟩,
        ⟨by decide, unquoted_string (by decide)⟩,
        ⟨by decide, unquoted_string apostrophe_not_mem_fieldOr⟩,
        ⟨by decide, unquoted_string apostrophe_not_mem_fieldOr⟩,
        ⟨by decide, unquoted_numberOr apostrophe_not_mem_fieldOr⟩,
        by decide, unquoted_string (by decide)⟩
  | game name mime =>
      rw [fitOrBlock_eq_some h, gameMemo]
      refine apostrophe_not_mem_object ?_
      simp only [List.forall_mem_cons, List.not_mem_nil, false_implies,
        implies_true, and_true, member]
      exact ⟨⟨by decide, unquoted_string (by decide)⟩,
        ⟨by decide, unquoted_string (by decide)⟩,
        ⟨by decide, unquoted_string apostrophe_not_mem_fieldOr⟩,
        by decide, unquoted_string apostrophe_not_mem_fieldOr⟩

theorem apostrophe_not_mem_memo {letters : CaseMapping} {form : Form}
    {m : FormMemo} (h : form.refresh fmt letters = some m) :
    '\'' ∉ m.memo := by
  have hfront : '\'' ∉ m.kind.front := by cases m.kind <;> decide
  rw [FormMemo.memo, List.mem_append, not_or]
  exact ⟨hfront, apostrophe_not_mem_payload h⟩

theorem dropApostrophes_of_not_mem {memo : Text} (h : '\'' ∉ memo) :
    dropApostrophes memo = memo := by
  rw [dropApostrophes, List.filter_eq_self]
  intro c hc
  exact decide_eq_true fun heq => h (heq ▸ hc)

theorem apostrophe_not_mem_dropApostrophes (memo : Text) :
    '\'' ∉ dropApostrophes memo := by
  intro hmem
  exact absurd (List.mem_filter.mp hmem).2 (by decide)

end Payloads

/-! ## What the shell reads -/

def createHead : Text :=
  join ['\n']
    ["ired tx bank send <from> <from> 1uire \\".toList,
      "  --chain-id ire-1 \\".toList,
      "  --from <key> \\".toList,
      "  --gas-prices 0.001uire \\".toList,
      "  --memo ".toList]

def createTail : Text :=
  join ['\n']
    ["\\".toList,
      "  --home \"$HOME/.ire\" \\".toList,
      "  --yes".toList]

theorem cli_eq (memo : Text) :
    cli memo = createHead ++ '\'' :: (memo ++ '\'' :: ' ' :: createTail) := by
  have hlines (a b c d front back e f : Text) :
      join ['\n'] [a, b, c, d, front ++ memo ++ back, e, f] =
        join ['\n'] [a, b, c, d, front] ++
          (memo ++ join ['\n'] [back, e, f]) := by
    simp [join, List.intercalate]
  have hhead : createHead ++ ['\''] = join ['\n']
      ["ired tx bank send <from> <from> 1uire \\".toList,
        "  --chain-id ire-1 \\".toList, "  --from <key> \\".toList,
        "  --gas-prices 0.001uire \\".toList, "  --memo '".toList] := by
    decide +kernel
  have htail : '\'' :: ' ' :: createTail = join ['\n']
      ["' \\".toList, "  --home \"$HOME/.ire\" \\".toList,
        "  --yes".toList] := by decide +kernel
  rw [cli, hlines, ← hhead, ← htail, List.append_assoc, List.singleton_append]

theorem trim_of_ends {c d : Char} (hc : isSpace c = false)
    (hd : isSpace d = false) (text : Text) :
    trim (c :: (text ++ [d])) = c :: (text ++ [d]) := by
  rw [trim, List.dropWhile_cons_of_neg (by simp [hc]), ← List.cons_append,
    List.rdropWhile_concat_neg _ _ _ (by simp [hd])]

theorem trim_cli (memo : Text) : trim (cli memo) = cli memo := by
  have hhead : createHead = 'i' :: createHead.tail := by decide +kernel
  have htail : createTail = createTail.dropLast ++ ['s'] := by decide +kernel
  have hends : cli memo = 'i' :: (createHead.tail ++ '\'' ::
      (memo ++ '\'' :: ' ' :: createTail.dropLast) ++ ['s']) := by
    rw [cli_eq, hhead, htail]
    simp
  rw [hends]
  exact trim_of_ends (by decide) (by decide) _

theorem tokens_cli {memo : Text} (h : '\'' ∉ memo) :
    tokens (cli memo) =
      some (createBefore ++ .word (quoted .single memo) :: createAfter) := by
  have hhead : feed .blank createHead = some (createBefore, .blank) := by
    decide +kernel
  have htail : tokens createTail = some createAfter := by decide +kernel
  rw [cli_eq]
  exact tokens_singleQuoted hhead h htail

theorem isOrdinary_of_isAddrChar {c : Char} (h : isAddrChar c = true) :
    isOrdinary c = true := by
  have hne {d : Char} (hd : isAddrChar d = false) : c ≠ d := by
    rintro rfl
    rw [h] at hd
    cases hd
  have hblank : isBlank c = false := by
    rw [isBlank, Bool.or_eq_false_iff, decide_eq_false_iff_not,
      decide_eq_false_iff_not]
    exact ⟨hne (by decide), hne (by decide)⟩
  have hoperator : startsOperator c = false := by
    rw [startsOperator, decide_eq_false_iff_not]
    simp only [List.mem_cons, List.not_mem_nil, or_false, not_or]
    refine ⟨?_, ?_, ?_, ?_, ?_, ?_, ?_⟩
    all_goals exact hne (by decide)
  rw [isOrdinary, hblank, hoperator]
  simp only [List.mem_cons, List.not_mem_nil, or_false, not_or]
  refine decide_eq_true ⟨?_, ?_, ?_, ?_, ?_, ?_, ?_, ?_⟩
  all_goals exact hne (by decide)

theorem ireOk_ordinary {addr : Text} (h : ireOk addr = true) :
    addr ≠ [] ∧ ∀ c ∈ addr, isOrdinary c = true := by
  simp only [ireOk, Bool.and_eq_true, decide_eq_true_eq, List.all_eq_true] at h
  obtain ⟨⟨⟨⟨rest, rfl⟩, _⟩, _⟩, hchars⟩ := h
  refine ⟨List.append_ne_nil_of_left_ne_nil (by decide) _, ?_⟩
  intro c hc
  apply isOrdinary_of_isAddrChar
  cases List.mem_append.mp hc with
  | inl hc =>
      have hfront : ∀ c ∈ addrPrefix, isAddrChar c = true :=
        List.all_eq_true.mp (by decide)
      exact hfront c hc
  | inr hc => exact hchars c (by rwa [List.drop_left])

def profileMiddle : Text :=
  "1uire --chain-id ire-1 --from <key> --gas-prices 0.001uire --note ".toList

theorem profileCommand_text_eq (cmd : ProfileCommand) :
    cmd.text = "ired tx bank send ".toList ++ (cmd.addr ++ ' ' ::
      (cmd.addr ++ ' ' :: (profileMiddle ++ '\'' ::
        (cmd.memo ++ '\'' :: ' ' :: "--home $HOME/.ire --yes".toList)))) := by
  have hassoc {start addr gap middle middle' memo tail tail' : Text}
      (hgap : gap = [' ']) (hmiddle : middle' = ' ' :: (middle ++ ['\'']))
      (htail : tail' = '\'' :: ' ' :: tail) :
      start ++ addr ++ gap ++ addr ++ middle' ++ memo ++ tail' =
        start ++ (addr ++ ' ' :: (addr ++ ' ' :: (middle ++ '\'' ::
          (memo ++ '\'' :: ' ' :: tail)))) := by
    subst hgap hmiddle htail
    simp
  apply hassoc
  · decide
  · decide +kernel
  · decide +kernel

theorem tokens_profileCommand {cmd : ProfileCommand}
    (haddr : ireOk cmd.addr = true) (hmemo : '\'' ∉ cmd.memo) :
    tokens cmd.text = some (profileBefore cmd.addr ++
      .word (quoted .single cmd.memo) :: profileAfter) := by
  obtain ⟨hne, hordinary⟩ := ireOk_ordinary haddr
  have hstart : feed .blank "ired tx bank send ".toList =
      some ([plain "ired", plain "tx", plain "bank", plain "send"],
        .blank) := by decide +kernel
  have hmiddle : feed .blank profileMiddle =
      some ([plain "1uire", plain "--chain-id", plain "ire-1", plain "--from",
        redirect '<', plain "key", redirect '>', plain "--gas-prices",
        plain "0.001uire", plain "--note"], .blank) := by decide +kernel
  have htail : tokens "--home $HOME/.ire --yes".toList = some profileAfter := by
    decide +kernel
  have hmemo := tokens_singleQuoted hmiddle hmemo htail
  have hstay : feed .blank [] = some ([], .blank) := rfl
  have hsecond := tokens_word hstay hne hordinary hmemo
  have hfirst := tokens_word hstart hne hordinary hsecond
  rw [profileCommand_text_eq]
  exact hfirst

theorem submit_eq_some {fmt : NumberFormat} {form : ProfileForm}
    {cmd : ProfileCommand} (h : form.submit fmt = some cmd) :
    cmd.addr = toText (trimString form.addr) ∧ ireOk cmd.addr = true ∧
      cmd.memo = dropApostrophes (form.memo fmt) := by
  rw [ProfileForm.submit] at h
  split at h
  next haddr =>
    split at h
    next => cases h
    next =>
      cases h
      exact ⟨rfl, haddr, rfl⟩
  next => cases h

/--
In a command that is copied a shell reads the memo as one literal word, that of
the built memo without its apostrophes, between words that do not depend on it.
-/
theorem copied_memo_is_one_word (fmt : NumberFormat) (letters : CaseMapping)
    {form : PageForm} {copied : Copied}
    (h : form.copied fmt letters = some copied) :
    ∃ before memo after, form.WordsAround before after ∧
      tokens copied.text = some (before ++ .word memo :: after) ∧
      literal memo = some (dropApostrophes copied.built) := by
  cases form with
  | create form =>
      obtain ⟨m, hm, rfl⟩ := Option.map_eq_some_iff.mp h
      have hnone := apostrophe_not_mem_memo hm
      refine ⟨createBefore, quoted .single m.memo, createAfter, ⟨rfl, rfl⟩, ?_,
        ?_⟩
      · rw [trim_cli, tokens_cli hnone]
      · rw [literal_single, dropApostrophes_of_not_mem hnone]
  | profile form =>
      obtain ⟨cmd, hcmd, rfl⟩ := Option.map_eq_some_iff.mp h
      obtain ⟨haddr, hok, hmemo⟩ := submit_eq_some hcmd
      refine ⟨profileBefore cmd.addr, quoted .single cmd.memo, profileAfter,
        ⟨cmd.addr, haddr, hok, rfl, rfl⟩, ?_, ?_⟩
      · apply tokens_profileCommand hok
        rw [hmemo]
        exact apostrophe_not_mem_dropApostrophes _
      · rw [literal_single, hmemo]

def sneakyForm : PageForm :=
  .create (.art [] (toJsString "';\n$(reboot) `id` \"$HOME\" \\'".toList))

def sneakyCopy : Copied :=
  ⟨"IREINSCRIBE1 text/plain ;\n$(reboot) `id` \"$HOME\" \\".toList,
    trim (cli "IREINSCRIBE1 text/plain ;\n$(reboot) `id` \"$HOME\" \\".toList)⟩

theorem copied_memo_is_one_word_sample :
    ∃ before memo after, sneakyForm.WordsAround before after ∧
      tokens sneakyCopy.text = some (before ++ .word memo :: after) ∧
      literal memo = some (dropApostrophes sneakyCopy.built) := by
  have hcopied : sneakyForm.copied literalFormat asciiLetters =
      some sneakyCopy := by decide +kernel
  exact copied_memo_is_one_word literalFormat asciiLetters hcopied

end IreBlockchain.Explorer

import IreBlockchain.Foundation.Text

/-!
# Tokens of the shell

How a POSIX shell splits what it reads into words and operators.  A word keeps
how each of its characters is quoted, on which the expansions depend.
Here-documents and the constructs that nest other commands or expressions in a
word are not read.
-/

namespace IreBlockchain.Foundation.Shell

open IreBlockchain.Foundation

inductive Quoting
  | bare
  | escaped
  | single
  | double
  deriving DecidableEq

abbrev Word := List (Char × Quoting)

inductive Token
  | word (w : Word)
  | operator (op : Text)
  | newline
  deriving DecidableEq

inductive State
  | blank
  | comment
  | operator (op : Text)
  | bare (w : Word)
  | single (w : Word)
  | double (w : Word)
  | doubleEscape (w : Word)
  | escape (before : State)
  deriving DecidableEq

def isBlank (c : Char) : Bool := c = ' ' || c = '\t'

def startsOperator (c : Char) : Bool :=
  c ∈ ['&', '|', ';', '<', '>', '(', ')']

/-- The operators of two and three characters, here-documents apart. -/
def longOperators : List Text :=
  [['&', '&'], ['|', '|'], [';', ';'], ['<', '&'], ['<', '>'], ['>', '>'],
    ['>', '&'], ['>', '|']]

def endsInDollar (w : Word) : Bool :=
  w.getLast? = some ('$', .bare) || w.getLast? = some ('$', .double)

def readBare (w : Word) (c : Char) : Option State :=
  if c = '\'' then if endsInDollar w then none else some (.single w)
  else if c = '"' then some (.double w)
  else if c = '\\' then some (.escape (.bare w))
  else if c = '\x60' then none
  else if c = '\x7b' ∧ endsInDollar w then none
  else some (.bare (w ++ [(c, .bare)]))

def readDouble (w : Word) (c : Char) : Option State :=
  if c = '"' then some (.bare w)
  else if c = '\\' then some (.doubleEscape w)
  else if c = '\x60' then none
  else if (c = '\x7b' ∨ c = '(') ∧ endsInDollar w then none
  else some (.double (w ++ [(c, .double)]))

def readBlank (c : Char) : Option (List Token × State) :=
  if c = '\n' then some ([.newline], .blank)
  else if isBlank c then some ([], .blank)
  else if c = '#' then some ([], .comment)
  else if c = '\\' then some ([], .escape .blank)
  else if startsOperator c then some ([], .operator [c])
  else (readBare [] c).map fun s => ([], s)

def readAfter (token : Token) (c : Char) : Option (List Token × State) :=
  (readBlank c).map fun (ts, s) => (token :: ts, s)

def escaped (c : Char) : State → Option (List Token × State)
  | .blank => some ([], .bare [(c, .escaped)])
  | .operator op => some ([.operator op], .bare [(c, .escaped)])
  | .bare w => some ([], .bare (w ++ [(c, .escaped)]))
  | _ => none

def step : State → Char → Option (List Token × State)
  | .blank, c => readBlank c
  | .comment, c =>
      if c = '\n' then some ([.newline], .blank) else some ([], .comment)
  | .operator op, c =>
      if c = '\\' then some ([], .escape (.operator op))
      else if op ++ [c] = ['<', '<'] then none
      else if op ++ [c] ∈ longOperators then some ([], .operator (op ++ [c]))
      else readAfter (.operator op) c
  | .bare w, c =>
      if c = '(' ∧ endsInDollar w then none
      else if c = '\n' ∨ isBlank c ∨ startsOperator c then
        readAfter (.word w) c
      else (readBare w c).map fun s => ([], s)
  | .single w, c =>
      some ([], if c = '\'' then .bare w else .single (w ++ [(c, .single)]))
  | .double w, c => (readDouble w c).map fun s => ([], s)
  | .doubleEscape w, c =>
      -- Elsewhere in double quotes a backslash stands for itself.
      if c = '\n' then some ([], .double w)
      else if c ∈ ['$', '\x60', '"', '\\'] then
        some ([], .double (w ++ [(c, .escaped)]))
      else some ([], .double (w ++ [('\\', .double), (c, .double)]))
  | .escape before, c =>
      -- A line continuation leaves nothing behind.
      if c = '\n' then some ([], before) else escaped c before

def feed : State → Text → Option (List Token × State)
  | s, [] => some ([], s)
  | s, c :: rest =>
      (step s c).bind fun (ts, s) =>
        (feed s rest).map fun (us, s) => (ts ++ us, s)

def State.finish : State → Option (List Token)
  | blank => some []
  | comment => some []
  | operator op => some [.operator op]
  | bare w => some [.word w]
  | _ => none

def readFrom (s : State) (text : Text) : Option (List Token) :=
  (feed s text).bind fun (ts, s) => s.finish.map (ts ++ ·)

/-- The tokens of a text, unless it is incomplete or nests commands. -/
def tokens (text : Text) : Option (List Token) := readFrom .blank text

def quoted (q : Quoting) (text : Text) : Word := text.map fun c => (c, q)

/-- What a word stands for, where nothing of it is left to be expanded. -/
def literal (w : Word) : Option Text :=
  if w.all fun p => p.2 = .single || p.2 = .escaped then some (w.map Prod.fst)
  else none

def isOrdinary (c : Char) : Bool :=
  !isBlank c && !startsOperator c &&
    c ∉ ['\n', '\'', '"', '\\', '\x60', '\x7b', '#', '$']

/-! ## Reading in parts -/

theorem feed_append {s s' : State} {front : Text} {ts : List Token}
    (h : feed s front = some (ts, s')) (rest : Text) :
    feed s (front ++ rest) =
      (feed s' rest).map fun (us, s'') => (ts ++ us, s'') := by
  induction front generalizing s ts with
  | nil =>
      cases h
      simp
  | cons c front ih =>
      rw [feed] at h
      obtain ⟨⟨us, s₁⟩, hstep, hfeed⟩ := Option.bind_eq_some_iff.mp h
      obtain ⟨⟨vs, s₂⟩, hfront, heq⟩ := Option.map_eq_some_iff.mp hfeed
      cases heq
      rw [List.cons_append, feed, hstep, Option.bind_some]
      dsimp only
      rw [ih hfront]
      cases feed s' rest with
      | none => rfl
      | some p => simp

theorem readFrom_append {s s' : State} {front rest : Text}
    {before after : List Token} (hfront : feed s front = some (before, s'))
    (hrest : readFrom s' rest = some after) :
    readFrom s (front ++ rest) = some (before ++ after) := by
  obtain ⟨⟨ts, s''⟩, hfeed, hfinish⟩ := Option.bind_eq_some_iff.mp hrest
  obtain ⟨us, hus, rfl⟩ := Option.map_eq_some_iff.mp hfinish
  rw [readFrom, feed_append hfront, hfeed]
  simp [hus]

theorem feed_cons {s s' : State} {c : Char} {ts : List Token}
    (h : step s c = some (ts, s')) (rest : Text) :
    feed s (c :: rest) =
      (feed s' rest).map fun (us, s'') => (ts ++ us, s'') := by
  rw [feed, h, Option.bind_some]

/-! ## Words -/

theorem feed_single {text : Text} (h : '\'' ∉ text) (w : Word) :
    feed (.single w) text = some ([], .single (w ++ quoted .single text)) := by
  induction text generalizing w with
  | nil => simp [feed, quoted]
  | cons c text ih =>
      have hc : c ≠ '\'' := fun heq => h (heq ▸ List.mem_cons_self)
      have hstep : step (.single w) c =
          some ([], .single (w ++ [(c, .single)])) := by
        rw [step, if_neg hc]
      rw [feed_cons hstep, ih fun hmem => h (List.mem_cons_of_mem c hmem)]
      simp [quoted]

theorem step_ordinary {c : Char} (h : isOrdinary c = true) :
    step .blank c = some ([], .bare [(c, .bare)]) ∧
      ∀ w, endsInDollar w = false →
        step (.bare w) c = some ([], .bare (w ++ [(c, .bare)])) := by
  simp only [isOrdinary, Bool.and_eq_true, Bool.not_eq_true', List.mem_cons,
    List.not_mem_nil, or_false, not_or, decide_eq_true_eq] at h
  obtain ⟨⟨hblank, hoperator⟩, hnewline, hsingle, hdouble, hslash, hgrave,
    hbrace, hhash, hdollar⟩ := h
  have hread (w : Word) : readBare w c = some (.bare (w ++ [(c, .bare)])) := by
    rw [readBare, if_neg hsingle, if_neg hdouble, if_neg hslash, if_neg hgrave,
      if_neg (fun hand => hbrace hand.1)]
  constructor
  · rw [step, readBlank, if_neg hnewline, hblank, if_neg (by decide),
      if_neg hhash, if_neg hslash, hoperator, if_neg (by decide), hread]
    rfl
  · intro w hw
    rw [step, hw, if_neg (by simp), hblank, hoperator,
      if_neg (by simpa using hnewline), hread]
    rfl

theorem feed_ordinary {text : Text} (h : ∀ c ∈ text, isOrdinary c = true)
    {w : Word} (hw : endsInDollar w = false) :
    feed (.bare w) text = some ([], .bare (w ++ quoted .bare text)) := by
  induction text generalizing w with
  | nil => simp [feed, quoted]
  | cons c text ih =>
      have hc := h c List.mem_cons_self
      have hdollar : c ≠ '$' := by
        rintro rfl
        exact absurd hc (by decide)
      have hw' : endsInDollar (w ++ [(c, .bare)]) = false := by
        simp [endsInDollar, hdollar]
      rw [feed_cons ((step_ordinary hc).2 w hw),
        ih (fun d hd => h d (List.mem_cons_of_mem c hd)) hw']
      simp [quoted]

theorem literal_single (text : Text) :
    literal (quoted .single text) = some text := by
  have hall : (quoted .single text).all
      (fun p => p.2 = .single || p.2 = .escaped) = true := by
    simp [quoted]
  rw [literal, if_pos hall, quoted, List.map_map]
  exact congrArg some (List.map_id text)

/-! ## Texts that words stand in -/

/-- What stands in single quotes is one word, whatever it is. -/
theorem tokens_singleQuoted {front text rest : Text}
    {before after : List Token}
    (hfront : feed .blank front = some (before, .blank))
    (htext : '\'' ∉ text) (hrest : tokens rest = some after) :
    tokens (front ++ '\'' :: (text ++ '\'' :: ' ' :: rest)) =
      some (before ++ .word (quoted .single text) :: after) := by
  have hopen : feed .blank ['\''] = some ([], .single []) := by decide
  have hclose : feed (.single (quoted .single text)) ['\'', ' '] =
      some ([.word (quoted .single text)], .blank) := rfl
  have hread : readFrom (.single (quoted .single text))
      ('\'' :: ' ' :: rest) = some (.word (quoted .single text) :: after) :=
    readFrom_append hclose hrest
  have hquoted : readFrom (.single []) (text ++ '\'' :: ' ' :: rest) =
      some (.word (quoted .single text) :: after) :=
    readFrom_append (feed_single htext []) hread
  exact readFrom_append hfront (readFrom_append hopen hquoted)

theorem tokens_word {front text rest : Text} {before after : List Token}
    (hfront : feed .blank front = some (before, .blank)) (hne : text ≠ [])
    (htext : ∀ c ∈ text, isOrdinary c = true)
    (hrest : tokens rest = some after) :
    tokens (front ++ (text ++ ' ' :: rest)) =
      some (before ++ .word (quoted .bare text) :: after) := by
  obtain ⟨c, text, rfl⟩ := List.exists_cons_of_ne_nil hne
  have hc := htext c List.mem_cons_self
  have hdollar : endsInDollar [(c, .bare)] = false := by
    have hne : c ≠ '$' := by
      rintro rfl
      exact absurd hc (by decide)
    simp [endsInDollar, hne]
  have htail := feed_ordinary
    (fun d hd => htext d (List.mem_cons_of_mem c hd)) hdollar
  have hword : feed .blank (c :: text) =
      some ([], .bare (quoted .bare (c :: text))) := by
    rw [feed_cons (step_ordinary hc).1, htail]
    rfl
  have hblank : feed (.bare (quoted .bare (c :: text))) [' '] =
      some ([.word (quoted .bare (c :: text))], .blank) := rfl
  have hread : readFrom (.bare (quoted .bare (c :: text))) (' ' :: rest) =
      some (.word (quoted .bare (c :: text)) :: after) :=
    readFrom_append hblank hrest
  exact readFrom_append hfront (readFrom_append hword hread)

end IreBlockchain.Foundation.Shell

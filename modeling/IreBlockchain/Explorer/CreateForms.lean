import IreBlockchain.Foundation.Coercions

/-!
# The forms of the create page

Each form fills a memo into a command, or blocks the command when the memo would
be too long.
-/

namespace IreBlockchain.Explorer

open IreBlockchain.Foundation

/-- The constants `PREFIX_JSON`, `PREFIX_SVG` and `PREFIX_TEXT`. -/
inductive MemoKind
  | json
  | svg
  | text
  deriving DecidableEq

def MemoKind.front : MemoKind → Text
  | json => "IREINSCRIBE1 application/json ".toList
  | svg => "IREINSCRIBE1 image/svg+xml ".toList
  | text => "IREINSCRIBE1 text/plain ".toList

def MemoKind.mediaType : MemoKind → Text
  | json => "application/json".toList
  | svg => "image/svg+xml".toList
  | text => "text/plain".toList

structure FormMemo where
  kind : MemoKind
  payload : Text
  deriving DecidableEq

def FormMemo.memo (m : FormMemo) : Text := m.kind.front ++ m.payload

def payloadMax : Nat := 180

def sanitize (value : JsString) : JsString :=
  value.filter fun u => u ≠ 0x27

/-- `/^\s*<svg[\s>]/i` -/
def looksSvg (value : JsString) : Bool :=
  let rest := value.dropWhile isSpaceUnit
  (rest.take 4).map lowerUnit = toJsString "<svg".toList &&
    (rest.drop 4).head?.any fun u => isSpaceUnit u || u = 0x3e

def isUpperUnit (u : UInt16) : Bool := 0x41 ≤ u.toNat && u.toNat ≤ 0x5a

def fieldOr (value : JsString) (fallback : Text) : JsString :=
  sanitize (if trimString value = [] then toJsString fallback
    else trimString value)

section Forms

variable (fmt : NumberFormat) (letters : CaseMapping)

def member (key : String) (v : Json fmt.Number) :
    JsString × Json fmt.Number :=
  (toJsString key.toList, v)

def constant (value : String) : Json fmt.Number :=
  .string (toJsString value.toList)

def tickLetters (value : JsString) : JsString :=
  ((letters.toUpperCase value).filter isUpperUnit).take 4

def tokenMemo (tick max lim : JsString) : FormMemo :=
  let tick := tickLetters letters tick
  let max := fieldOr max "21000000".toList
  let lim := fieldOr lim "1000".toList
  ⟨.json, (Json.object [member fmt "p" (constant fmt "ire-insc"),
    member fmt "op" (constant fmt "deploy"),
    member fmt "tick" (.string
      (if tick = [] then toJsString "ABCD".toList else tick)),
    member fmt "max" (.string max),
    member fmt "lim" (.string lim)]).stringify fmt⟩

def artParts (title body : JsString) : MemoKind × JsString :=
  let title := sanitize title
  let body := sanitize body
  if looksSvg body then (.svg, trimString body)
  else (.text, ([0x0a] : JsString).intercalate
    ([trimString title, body].filter fun s => s ≠ []))

def numberOr (bytes : JsString) : Json fmt.Number :=
  match fmt.ofString bytes with
  | none => .string bytes
  | some n => if fmt.toText n = ['0'] then .string bytes else .number n

def fileMemo (name mime bytes : JsString) : FormMemo :=
  let name := fieldOr name "clip.mp4".toList
  let mime := fieldOr mime "video/mp4".toList
  let bytes := fieldOr bytes "12345".toList
  ⟨.json, (Json.object [member fmt "p" (constant fmt "ire-insc"),
    member fmt "op" (constant fmt "file"),
    member fmt "name" (.string name),
    member fmt "mime" (.string mime),
    member fmt "bytes" (numberOr fmt bytes),
    member fmt "note" (constant fmt
      "on-chain catalog; payload needs inscription module")]).stringify fmt⟩

def gameMemo (name mime : JsString) : FormMemo :=
  let name := fieldOr name "game".toList
  let mime := fieldOr mime "text/html".toList
  ⟨.json, (Json.object [member fmt "p" (constant fmt "ire-insc"),
    member fmt "op" (constant fmt "game"),
    member fmt "name" (.string name),
    member fmt "mime" (.string mime)]).stringify fmt⟩

/-- The memo of the command, unless it is blocked. -/
def fitOrBlock (m : FormMemo) : Option FormMemo :=
  if 256 < (toJsString m.memo).length then none else some m

/-- The tick is written back into its input before it is read again. -/
def refreshToken (tick max lim : JsString) : Option FormMemo :=
  fitOrBlock (tokenMemo fmt letters (tickLetters letters tick) max lim)

def refreshArt (title body : JsString) : Option FormMemo :=
  let parts := artParts title body
  if payloadMax < parts.2.length then none
  else some ⟨parts.1, toText parts.2⟩

def refreshFile (name mime bytes : JsString) : Option FormMemo :=
  fitOrBlock (fileMemo fmt name mime bytes)

def refreshGame (name mime : JsString) : Option FormMemo :=
  fitOrBlock (gameMemo fmt name mime)

inductive Form
  | token (tick max lim : JsString)
  | art (title body : JsString)
  | file (name mime bytes : JsString)
  | game (name mime : JsString)

def Form.refresh : Form → Option FormMemo
  | token tick max lim => refreshToken fmt letters tick max lim
  | art title body => refreshArt title body
  | file name mime bytes => refreshFile fmt name mime bytes
  | game name mime => refreshGame fmt name mime

end Forms

end IreBlockchain.Explorer

import IreBlockchain.Explorer.CreateForms
import IreBlockchain.Explorer.Profile

/-!
# The form of the profile page

The form fills the handles of a profile into a memo and copies a command for it,
unless the address is not one of the chain's or the memo is too long.
-/

namespace IreBlockchain.Explorer

open IreBlockchain.Foundation

def dropAt : JsString → JsString
  | [] => []
  | u :: rest => if u = 0x40 then rest else u :: rest

def dropScheme : JsString → JsString
  | [] => []
  | u :: rest =>
      if toJsString "https://".toList <+: u :: rest then rest.drop 7
      else if toJsString "http://".toList <+: u :: rest then rest.drop 6
      else u :: dropScheme rest

def clean (s : JsString) : JsString := dropScheme (dropAt (trimString s))

structure ProfileForm where
  addr : JsString
  n : JsString
  x : JsString
  tg : JsString
  d : JsString
  w : JsString

structure ProfileCommand where
  addr : Text
  memo : Text
  deriving DecidableEq

section Form

variable (fmt : NumberFormat)

/-- `const v = clean(value); if (v) o[key] = v.slice(0, limit);` -/
def profileField (key : String) (limit : Nat) (value : JsString) :
    List (JsString × Json fmt.Number) :=
  if clean value = [] then []
  else [member fmt key (.string ((clean value).take limit))]

def ProfileForm.payload (form : ProfileForm) : Json fmt.Number :=
  .object (member fmt "p" (constant fmt "ire-id") ::
    member fmt "op" (constant fmt "set") ::
    (profileField fmt "n" 24 form.n ++ profileField fmt "x" 20 form.x ++
      profileField fmt "tg" 32 form.tg ++ profileField fmt "d" 32 form.d ++
      profileField fmt "w" 40 form.w))

def ProfileForm.memo (form : ProfileForm) : Text :=
  profilePrefix ++ (form.payload fmt).stringify fmt

def dropApostrophes (memo : Text) : Text := memo.filter fun c => c ≠ '\''

/-- The `submit` handler, up to the text of the command. -/
def ProfileForm.submit (form : ProfileForm) : Option ProfileCommand :=
  let addr := toText (trimString form.addr)
  let m := form.memo fmt
  if ireOk addr then
    if 256 < (toJsString m).length then none
    else some ⟨addr, dropApostrophes m⟩
  else none

variable (letters : CaseMapping)

/-- A form of the create page or that of the profile page. -/
inductive PageForm
  | create (form : Form)
  | profile (form : ProfileForm)

def PageForm.memo : PageForm → Option Text
  | create form => (form.refresh fmt letters).map FormMemo.memo
  | profile form => (form.submit fmt).map ProfileCommand.memo

end Form

end IreBlockchain.Explorer

import IreBlockchain.Foundation.Protobuf
import IreBlockchain.Foundation.Search

/-!
# The URL parser

`new URL` for the schemes that `fetch` connects for.  The host parser, with its
international domain names, is a parameter.
-/

namespace IreBlockchain.Foundation

inductive Scheme where
  | http
  | https
  deriving DecidableEq, Repr

namespace Scheme

def defaultPort : Scheme → Nat
  | .http => 80
  | .https => 443

def ofText (text : Text) : Option Scheme :=
  if text = "http".toList then some .http
  else if text = "https".toList then some .https
  else none

end Scheme

/-- A port is absent where it is the default of the scheme. -/
structure Authority where
  username : Text
  password : Text
  host : Text
  port : Option Nat
  deriving DecidableEq, Repr

structure Url extends Authority where
  scheme : Scheme
  path : List Text
  query : Option Text
  fragment : Option Text
  deriving DecidableEq, Repr

structure Url.SameOrigin (u v : Url) : Prop where
  scheme : u.scheme = v.scheme
  host : u.host = v.host
  port : u.port = v.port

/-- A host as it is serialised, or none where the parser fails. -/
abbrev HostParser := Text → Option Text

/-! ## Percent-encoding -/

def hexDigit (n : Nat) : Char :=
  Char.ofNat (if n < 10 then 48 + n else 55 + n)

def percentByte (b : UInt8) : Text :=
  ['%', hexDigit (b.toNat / 16), hexDigit (b.toNat % 16)]

def percentEncode (set : Char → Bool) (text : Text) : Text :=
  text.flatMap fun c => if set c then (utf8 [c]).flatMap percentByte else [c]

def isC0Control (c : Char) : Bool := c.toNat ≤ 0x1f || 0x7e < c.toNat

def inFragmentSet (c : Char) : Bool :=
  isC0Control c || " \"<>`".toList.contains c

def inQuerySet (c : Char) : Bool :=
  isC0Control c || " \"#<>".toList.contains c

def inSpecialQuerySet (c : Char) : Bool := inQuerySet c || c = '\''

def inPathSet (c : Char) : Bool :=
  inQuerySet c || "?^`\x7b\x7d".toList.contains c

def inUserinfoSet (c : Char) : Bool :=
  inPathSet c || "/:;=@[\\]|".toList.contains c

/-! ## The parts of a URL -/

def isC0OrSpace (c : Char) : Bool := c.toNat ≤ 0x20

def isTabOrNewline (c : Char) : Bool := c = '\t' || c = '\n' || c = '\r'

/-- What the parser drops before it starts. -/
def cleanUrl (input : Text) : Text :=
  ((input.dropWhile isC0OrSpace).rdropWhile isC0OrSpace).filter
    fun c => !isTabOrNewline c

def isSlash (c : Char) : Bool := c = '/' || c = '\\'

def endsPath (c : Char) : Bool := c = '?' || c = '#'

def endsAuthority (c : Char) : Bool := isSlash c || endsPath c

def isSchemeChar (c : Char) : Bool :=
  c.isAlphanum || c = '+' || c = '-' || c = '.'

def splitScheme (input : Text) : Option (Text × Text) :=
  if (input.head?.map Char.isAlpha).getD false then
    match input.dropWhile isSchemeChar with
    | ':' :: rest => some (lower (input.takeWhile isSchemeChar), rest)
    | _ => none
  else none

/-- A host and what follows its colon; no colon in brackets ends a host. -/
def splitHost (insideBrackets : Bool) : Text → Text × Option Text
  | [] => ([], none)
  | c :: rest =>
      if c = ':' ∧ ¬insideBrackets then ([], some rest)
      else
        let inside :=
          if c = '[' then true else if c = ']' then false else insideBrackets
        let (host, port) := splitHost inside rest
        (c :: host, port)

def parsePort (scheme : Scheme) (digits : Text) : Option (Option Nat) :=
  if digits.all isDigit then
    if digits = [] then some none
    else if digitsValue digits ≤ 65535 then
      some (if digitsValue digits = scheme.defaultPort then none
        else some (digitsValue digits))
    else none
  else none

def parseHostPort (hosts : HostParser) (scheme : Scheme) (text : Text) :
    Option (Text × Option Nat) :=
  let (buffer, digits) := splitHost false text
  if buffer = [] then none
  else do
    let host ← hosts buffer
    let port ← (match digits with
      | none => some none
      | some digits => parsePort scheme digits)
    some (host, port)

/-- The last at sign ends the credentials. -/
def parseAuthority (hosts : HostParser) (scheme : Scheme) (text : Text) :
    Option Authority := do
  let credentials := text.rdropWhile (· ≠ '@')
  let (host, port) ← parseHostPort hosts scheme (text.rtakeWhile (· ≠ '@'))
  let userinfo := credentials.dropLast
  some
    { username := percentEncode inUserinfoSet (userinfo.takeWhile (· ≠ ':'))
      password := percentEncode inUserinfoSet
        (userinfo.dropWhile (· ≠ ':')).tail
      host, port }

def isSingleDot (segment : Text) : Bool :=
  [".", "%2e"].any fun dot => lower segment = dot.toList

def isDoubleDot (segment : Text) : Bool :=
  ["..", ".%2e", "%2e.", "%2e%2e"].any fun dots => lower segment = dots.toList

def parsePath (path : List Text) : List Text → List Text
  | [] => path
  | [segment] =>
      if isDoubleDot segment then path.dropLast ++ [[]]
      else if isSingleDot segment then path ++ [[]]
      else path ++ [percentEncode inPathSet segment]
  | segment :: segments =>
      if isDoubleDot segment then parsePath path.dropLast segments
      else if isSingleDot segment then parsePath path segments
      else parsePath (path ++ [percentEncode inPathSet segment]) segments

namespace Url

def setFragment (url : Url) (rest : Text) : Url :=
  { url with fragment := rest.head?.map fun _ =>
      percentEncode inFragmentSet rest.tail }

def setQuery (url : Url) (rest : Text) : Url :=
  if rest.head? = some '?' then
    { url with
      query := some (percentEncode inSpecialQuerySet
        (rest.tail.takeWhile (· ≠ '#'))) }.setFragment
      (rest.tail.dropWhile (· ≠ '#'))
  else ({ url with query := none }).setFragment rest

def setPath (url : Url) (path : List Text) (rest : Text) : Url :=
  ({ url with
    path := parsePath path
      ((rest.takeWhile fun c => !endsPath c).splitOnP isSlash) }).setQuery
    (rest.dropWhile fun c => !endsPath c)

end Url

/-! ## The parser -/

def authorityText (rest : Text) : Text :=
  (rest.dropWhile isSlash).takeWhile fun c => !endsAuthority c

def parseAfterSlashes (hosts : HostParser) (scheme : Scheme) (rest : Text) :
    Option Url := do
  let authority ← parseAuthority hosts scheme (authorityText rest)
  let after := (rest.dropWhile isSlash).dropWhile fun c => !endsAuthority c
  let url : Url :=
    { toAuthority := authority, scheme, path := [], query := none
      fragment := none }
  some (url.setPath []
    (if (after.head?.map isSlash).getD false then after.tail else after))

def parseRelative (hosts : HostParser) (base : Url) : Text → Option Url
  | [] => some { base with fragment := none }
  | c :: rest =>
      if isSlash c then
        if (rest.head?.map isSlash).getD false then
          parseAfterSlashes hosts base.scheme rest.tail
        else some (base.setPath [] rest)
      else if c = '?' then some (base.setQuery (c :: rest))
      else if c = '#' then some (base.setFragment (c :: rest))
      else some (base.setPath base.path.dropLast (c :: rest))

/-- `new URL(input, base)`, where it is one that `fetch` connects for. -/
def newUrl (hosts : HostParser) (input : Text) (base : Option Url) :
    Option Url :=
  match splitScheme (cleanUrl input) with
  | some (text, rest) =>
      match Scheme.ofText text with
      | none => none
      | some scheme =>
          match base with
          | none => parseAfterSlashes hosts scheme rest
          | some base =>
              if base.scheme = scheme ∧ ¬ "//".toList <+: rest then
                parseRelative hosts base rest
              else parseAfterSlashes hosts scheme rest
  | none => base.bind fun base => parseRelative hosts base (cleanUrl input)

/-! ## References that start with a slash -/

namespace Url

variable (url : Url) (rest : Text) (path : List Text)

theorem setQuery_sameOrigin : (url.setQuery rest).SameOrigin url := by
  unfold setQuery
  split
  · exact ⟨rfl, rfl, rfl⟩
  · exact ⟨rfl, rfl, rfl⟩

theorem setPath_sameOrigin : (url.setPath path rest).SameOrigin url := by
  obtain ⟨hscheme, hhost, hport⟩ := setQuery_sameOrigin
    { url with
      path := parsePath path
        ((rest.takeWhile fun c => !endsPath c).splitOnP isSlash) }
    (rest.dropWhile fun c => !endsPath c)
  exact ⟨hscheme, hhost, hport⟩

end Url

def namedAuthority (reference : Text) : Option Text :=
  match (cleanUrl reference).tail with
  | c :: rest => if isSlash c then some (authorityText rest) else none
  | [] => none

theorem cleanUrl_slash (rest : Text) :
    ∃ cleaned, cleanUrl ('/' :: rest) = '/' :: cleaned := by
  have hslash : isC0OrSpace '/' = false := by decide
  have hkept : isTabOrNewline '/' = false := by decide
  rw [cleanUrl, List.dropWhile_cons_of_neg (by simp [hslash]),
    ← List.nil_append ('/' :: rest), rdropWhile_append_cons hslash,
    List.nil_append, List.filter_cons_of_pos (by simp [hkept])]
  exact ⟨_, rfl⟩

theorem newUrl_slash (hosts : HostParser) (rest : Text) (base : Url) :
    newUrl hosts ('/' :: rest) (some base) =
      parseRelative hosts base (cleanUrl ('/' :: rest)) := by
  obtain ⟨cleaned, hcleaned⟩ := cleanUrl_slash rest
  have hletter : Char.isAlpha '/' = false := by decide
  have hscheme : splitScheme ('/' :: cleaned) = none := by
    simp [splitScheme, hletter]
  rw [newUrl, hcleaned, hscheme]
  rfl

theorem parseAfterSlashes_eq_some {hosts : HostParser} {scheme : Scheme}
    {rest : Text} {url : Url}
    (h : parseAfterSlashes hosts scheme rest = some url) :
    url.scheme = scheme ∧ ∃ authority,
      parseAuthority hosts scheme (authorityText rest) = some authority ∧
        url.host = authority.host ∧ url.port = authority.port := by
  simp only [parseAfterSlashes, Option.bind_eq_bind,
    Option.bind_eq_some_iff, Option.some.injEq] at h
  obtain ⟨authority, hauthority, rfl⟩ := h
  obtain ⟨hscheme, hhost, hport⟩ := Url.setPath_sameOrigin
    { toAuthority := authority, scheme := scheme, path := [], query := none
      fragment := none } _ []
  exact ⟨hscheme, authority, hauthority, hhost, hport⟩

theorem parseAfterSlashes_isSome {hosts : HostParser} {scheme : Scheme}
    {rest : Text} {authority : Authority}
    (h : parseAuthority hosts scheme (authorityText rest) = some authority) :
    ∃ url, parseAfterSlashes hosts scheme rest = some url := by
  rw [parseAfterSlashes, h]
  exact ⟨_, rfl⟩

/--
A reference that starts with a slash stays with its base exactly if it names no
authority, or none that parses to another host or port.
-/
theorem newUrl_sameOrigin_iff (hosts : HostParser) (rest : Text) (base : Url) :
    (∀ url, newUrl hosts ('/' :: rest) (some base) = some url →
      url.SameOrigin base) ↔
    ∀ text authority, namedAuthority ('/' :: rest) = some text →
      parseAuthority hosts base.scheme text = some authority →
        authority.host = base.host ∧ authority.port = base.port := by
  rw [newUrl_slash, namedAuthority]
  obtain ⟨cleaned, hcleaned⟩ := cleanUrl_slash rest
  have hslash : isSlash '/' = true := by decide
  rw [hcleaned, List.tail_cons]
  simp only [parseRelative, hslash, if_true]
  cases cleaned with
  | nil =>
      refine iff_of_true ?_ nofun
      rintro url ⟨⟩
      exact base.setPath_sameOrigin [] []
  | cons c more =>
      simp only [List.head?_cons, Option.map_some, Option.getD_some,
        List.tail_cons]
      by_cases hc : isSlash c = true
      · simp only [hc, if_true, Option.some.injEq]
        constructor
        · rintro h text authority rfl hauthority
          obtain ⟨url, hurl⟩ := parseAfterSlashes_isSome hauthority
          obtain ⟨-, authority', hauthority', hhost, hport⟩ :=
            parseAfterSlashes_eq_some hurl
          obtain rfl := Option.some.inj (hauthority.symm.trans hauthority')
          have horigin := h url hurl
          exact ⟨hhost.symm.trans horigin.host, hport.symm.trans horigin.port⟩
        · intro h url hurl
          obtain ⟨hscheme, authority, hauthority, hhost, hport⟩ :=
            parseAfterSlashes_eq_some hurl
          obtain ⟨hsame, hsame'⟩ := h _ authority rfl hauthority
          exact ⟨hscheme, hhost.trans hsame, hport.trans hsame'⟩
      · simp only [hc, Bool.false_eq_true, if_false]
        refine iff_of_true ?_ nofun
        rintro url ⟨⟩
        exact base.setPath_sameOrigin (c :: more) []

end IreBlockchain.Foundation

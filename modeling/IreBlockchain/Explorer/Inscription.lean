import IreBlockchain.Foundation.Json
import IreBlockchain.Foundation.Search

/-!
# Inscriptions as the explorer pages read them

The pages do not decode a transaction.  They look for the marker in its
printable bytes, and for an object in the text that follows.
-/

namespace IreBlockchain.Explorer

open IreBlockchain.Foundation

def nul : Char := Char.ofNat 0

def asciiOfByte (c : UInt8) : Char :=
  if 32 ≤ c && c < 127 then Char.ofNat c.toNat else nul

def asciiFromBytes (bytes : Bytes) : Text := bytes.map asciiOfByte

def marker : Text := "IREINSCRIBE1".toList

structure Inscription where
  mediaType : Text
  payload : Text
  raw : Text
  deriving DecidableEq

/--
The two groups of `/^IREINSCRIBE1\s+(\S+)\s+([\s\S]+)$/`.  A trimmed text does
not end in white space, so that no group has to give any of it back.
-/
def matchInscription (slice : Text) : Option (Text × Text) :=
  if marker <+: slice then
    let rest := slice.drop marker.length
    let fields := rest.dropWhile isSpace
    let mediaType := fields.takeWhile fun c => !isSpace c
    let tail := fields.dropWhile fun c => !isSpace c
    let payload := tail.dropWhile isSpace
    if rest.takeWhile isSpace ≠ [] ∧ mediaType ≠ [] ∧ payload ≠ [] then
      some (mediaType, payload)
    else none
  else none

def inscriptionOf (slice : Text) : Inscription :=
  match matchInscription slice with
  | none => ⟨[], slice, slice⟩
  | some (mediaType, payload) => ⟨mediaType, trim payload, slice⟩

def parseInscription (ascii : Text) : Option Inscription :=
  (dropUntil marker ascii).map fun found =>
    inscriptionOf (trim (cutAt nul found))

structure Scan where
  depth : Nat
  inStr : Bool
  esc : Bool

/-- One turn of the loop; `none` at the brace that closes the object. -/
def Scan.step (s : Scan) (c : Char) : Option Scan :=
  if s.inStr then
    if s.esc then some { s with esc := false }
    else if c = '\\' then some { s with esc := true }
    else if c = '"' then some { s with inStr := false }
    else some s
  else if c = '"' then some { s with inStr := true }
  else if c = '{' then some { s with depth := s.depth + 1 }
  else if c = '}' then
    if s.depth - 1 = 0 then none else some { s with depth := s.depth - 1 }
  else some s

def closeObject (s : Scan) : Text → Option Text
  | [] => none
  | c :: rest =>
      match s.step c with
      | none => some [c]
      | some s => (closeObject s rest).map (c :: ·)

def extractJson (fmt : NumberFormat) (payload : Text) :
    Option (Json fmt.Number) :=
  (dropUntil ['{'] payload).bind fun text =>
    (closeObject ⟨0, false, false⟩ text).bind (Json.parse fmt)

end IreBlockchain.Explorer

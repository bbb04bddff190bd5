import Mosey.Library.Lists
import Mosey.Library.Utf8
import Mosey.Text

/-!
# The TypeScript client's delegation texts

The client renders and parses the same texts as the Go package, in its own code. A string is the list of
its code points: the strings here are literals, built from literals or decoded, so that none has half of
a surrogate pair. An instant of a `Date` is a number of milliseconds since the Unix epoch.
-/

namespace Mosey.Typescript

open Library

abbrev JSString := List Char

def CapWrite : ℕ := 1

def CapResize : ℕ := 2

def CapForge : ℕ := 4

def AllCaps : ℕ := CapWrite ||| CapResize ||| CapForge

def contentHeader : JSString := "mosey session authorization v1".toList

def nonceSize : ℕ := 16

def pubkeySize : ℕ := 32

def b58Alphabet : JSString := "123456789ABCDEFGHJKLMNPQRSTUVWXYZabcdefghijkmnopqrstuvwxyz".toList

inductive DelegationError
  | base58Character (char : Char)
  | capsToken (token : JSString)
  | capsNotCanonical (text : JSString)
  | lineCount (count : ℕ)
  | badHeader
  | notBlank
  | wrongField (line : ℕ) (key : String)
  | keyLength (name : String) (length : ℕ)
  | badTimestamp (text : JSString)
  | nonceLength (length : ℕ)
  deriving DecidableEq

/-- One character of a string under `JSON.stringify`. -/
def stringifyChar (char : Char) : String :=
  if char = '"' then "\\\""
  else if char = '\\' then "\\\\"
  else if char.toNat = 8 then "\\b"
  else if char.toNat = 9 then "\\t"
  else if char.toNat = 10 then "\\n"
  else if char.toNat = 12 then "\\f"
  else if char.toNat = 13 then "\\r"
  else if char.toNat < 32 then
    let digits := Nat.toDigits 16 char.toNat
    "\\u" ++ String.ofList (List.replicate (4 - digits.length) '0' ++ digits)
  else String.singleton char

/-- `JSON.stringify` of a string. -/
def stringify (text : JSString) : String := "\"" ++ String.join (text.map stringifyChar) ++ "\""

/-- `while (n > 0n)` of `base58Encode`. -/
def encodeLoop (n : ℕ) (out : JSString) : JSString :=
  if n = 0 then out else encodeLoop (n / 58) (b58Alphabet.getD (n % 58) '1' :: out)
termination_by n
decreasing_by exact Nat.div_lt_self (Nat.pos_of_ne_zero ‹_›) (by decide)

/-- The loop over leading zero bytes. -/
def prependOnes : Bytes → JSString → JSString
  | [], out => out
  | byte :: rest, out => if byte ≠ 0 then out else prependOnes rest ('1' :: out)

def base58Encode (bytes : Bytes) : JSString :=
  let n := bytes.foldl (fun n byte ↦ n * 256 + byte.toNat) 0
  let out := prependOnes bytes (encodeLoop n [])
  if out = [] then ['1'] else out

/-- `while (n > 0n)` of `base58Decode`. -/
def decodeLoop (n : ℕ) (bytes : Bytes) : Bytes :=
  if n = 0 then bytes else decodeLoop (n / 256) (UInt8.ofNat (n % 256) :: bytes)
termination_by n
decreasing_by exact Nat.div_lt_self (Nat.pos_of_ne_zero ‹_›) (by decide)

/-- The loop over leading ones. -/
def prependZeros : JSString → Bytes → Bytes
  | [], bytes => bytes
  | char :: rest, bytes => if char = '1' then prependZeros rest (0 :: bytes) else bytes

def base58Value (s : JSString) : Except DelegationError ℕ :=
  s.foldlM (fun n char ↦
    match b58Alphabet.idxOf? char with
    | none => .error (.base58Character char)
    | some index => .ok (n * 58 + index)) 0

def base58Decode (s : JSString) : Except DelegationError Bytes := do
  let n ← base58Value s
  return prependZeros s (decodeLoop n [])

def capsToString (caps : ℕ) : JSString :=
  let parts := (if caps &&& CapWrite ≠ 0 then ["write".toList] else []) ++
    (if caps &&& CapResize ≠ 0 then ["resize".toList] else []) ++
    (if caps &&& CapForge ≠ 0 then ["forge".toList] else [])
  if parts.length = 0 then "view-only".toList else ", ".toList.intercalate parts

def split (s separator : JSString) : List JSString := splitSkipping separator 0 s

def parseCapsToken (caps : ℕ) (token : JSString) : Except DelegationError ℕ :=
  if token = "write".toList then .ok (caps ||| CapWrite)
  else if token = "resize".toList then .ok (caps ||| CapResize)
  else if token = "forge".toList then .ok (caps ||| CapForge)
  else .error (.capsToken token)

def parseCaps (s : JSString) : Except DelegationError ℕ :=
  if s = "view-only".toList then .ok 0
  else
    match (split s ", ".toList).foldlM parseCapsToken 0 with
    | .error err => .error err
    | .ok caps => if capsToString caps ≠ s then .error (.capsNotCanonical s) else .ok caps

/-- `Date.prototype.toISOString`, which throws a `RangeError` beyond the times that a `Date` can hold. -/
def toISOString (time : ℤ) : Option JSString :=
  if time.natAbs > 8640000000000000 then none
  else
    let date := dateOfDays (time / 86400000)
    let clock := (time % 86400000).toNat
    let year :=
      if 0 ≤ date.year ∧ date.year ≤ 9999 then appendInt date.year.natAbs 4
      else (if date.year < 0 then "-" else "+") ++ appendInt date.year.natAbs 6
    some (year ++ "-" ++ appendInt date.month 2 ++ "-" ++ appendInt date.day 2 ++ "T" ++
      appendInt (clock / 3600000) 2 ++ ":" ++ appendInt (clock / 60000 % 60) 2 ++ ":" ++
      appendInt (clock / 1000 % 60) 2 ++ "." ++ appendInt (clock % 1000) 3 ++ "Z").toList

/-- `.replace(/\.\d{3}Z$/, "Z")`. -/
def replaceFraction (text : JSString) : JSString :=
  match text.reverse with
  | 'Z' :: third :: second :: first :: '.' :: before =>
    if first.isDigit ∧ second.isDigit ∧ third.isDigit then before.reverse ++ ['Z'] else text
  | _ => text

def formatTime (d : ℤ) : Option JSString := (toISOString d).map replaceFraction

/-- A regular expression that is a sequence of character classes, anchored at both ends. -/
def matchesPattern : List (Char → Bool) → JSString → Bool
  | [], [] => true
  | admits :: pattern, char :: text => admits char && matchesPattern pattern text
  | _, _ => false

def digits (count : ℕ) : List (Char → Bool) := List.replicate count Char.isDigit

def literal (char : Char) : List (Char → Bool) := [fun other ↦ other = char]

/-- `TS_RE`. -/
def timestampPattern : List (Char → Bool) :=
  digits 4 ++ literal '-' ++ digits 2 ++ literal '-' ++ digits 2 ++ literal 'T' ++
    digits 2 ++ literal ':' ++ digits 2 ++ literal ':' ++ digits 2 ++ literal 'Z'

def isTimestamp (text : JSString) : Bool := matchesPattern timestampPattern text

structure Fields where
  session : Bytes
  delegator : Bytes
  delegate : Bytes
  caps : ℕ
  notBefore : JSString
  notAfter : JSString
  nonce : Bytes
  deriving DecidableEq

def Fields.lines (fields : Fields) : List JSString :=
  [contentHeader, [], "session: ".toList ++ base58Encode fields.session,
    "delegator: ".toList ++ base58Encode fields.delegator,
    "delegate: ".toList ++ base58Encode fields.delegate,
    "caps: ".toList ++ capsToString fields.caps, "not-before: ".toList ++ fields.notBefore,
    "not-after: ".toList ++ fields.notAfter, "nonce: ".toList ++ base58Encode fields.nonce]

/-- The bytes that a wallet signs. -/
def renderContent (fields : Fields) : Bytes := Utf8.encode (['\n'].intercalate fields.lines)

section Parser

variable (lines : List JSString) (index : ℕ) (key : String)

/-- The value of the line at `index` if it is of the form `key: value`. -/
def value : Except DelegationError JSString :=
  let leading := (key ++ ": ").toList
  let line := lines.getD index []
  if leading.isPrefixOf line then .ok (line.drop leading.length)
  else .error (.wrongField (index + 1) key)

def key32 : Except DelegationError Bytes := do
  let bytes ← (value lines index key).bind base58Decode
  if bytes.length ≠ pubkeySize then .error (.keyLength key bytes.length) else .ok bytes

def ts : Except DelegationError JSString := do
  let text ← value lines index key
  if isTimestamp text = false then .error (.badTimestamp text) else .ok text

def parseNonce : Except DelegationError Bytes := do
  let nonce ← (value lines 8 "nonce").bind base58Decode
  if nonce.length ≠ nonceSize then .error (.nonceLength nonce.length) else .ok nonce

end Parser

/-- The fields of nine lines, checked in order. -/
def parseLines (lines : List JSString) : Except DelegationError Fields := do
  let session ← key32 lines 2 "session"
  let delegator ← key32 lines 3 "delegator"
  let delegate ← key32 lines 4 "delegate"
  let caps ← (value lines 5 "caps").bind parseCaps
  let notBefore ← ts lines 6 "not-before"
  let notAfter ← ts lines 7 "not-after"
  let nonce ← parseNonce lines
  return ⟨session, delegator, delegate, caps, notBefore, notAfter, nonce⟩

def parseContent (content : Bytes) : Except DelegationError Fields :=
  let lines := split (Utf8.decodeUnmarked content) ['\n']
  if lines.length ≠ 9 then .error (.lineCount lines.length)
  else if lines.getD 0 [] ≠ contentHeader then .error .badHeader
  else if lines.getD 1 [] ≠ [] then .error .notBlank
  else parseLines lines

example : formatTime 951827696789 = some "2000-02-29T12:34:56Z".toList := by decide

example : isTimestamp "2024-13-45T99:99:99Z".toList = true := by decide

end Mosey.Typescript

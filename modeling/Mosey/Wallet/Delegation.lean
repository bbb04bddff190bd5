import Mosey.Library.Results
import Mosey.Library.Utf8
import Mosey.Ed25519
import Mosey.Wallet.Base58
import Mosey.Wallet.Caps

/-!
# Delegations

A delegation is a text of nine lines and the delegator's signature over its bytes. `render` writes
the text; `parseContent` accepts nothing off the grammar and reports which part was off. `verify`
checks the signature against the delegator that the text itself names.

Two details follow the observable behaviour of the standard library and not its every step. A
timestamp that `time.Parse` rejects and one that is not canonical give the same error here. Bytes
beyond ASCII are shown escaped in error texts.
-/

namespace Mosey.Wallet

open Library

def contentHeader : String := "mosey session authorization v1"

def maxChainDepth : ℕ := 8

def delegationNonceSize : ℕ := 16

inductive WalletError
  | emptyChain
  | chainTooLong
  | badKey
  | badSignature
  | brokenLink
  | leafMismatch
  | attenuation
  | notYetValid
  | expired
  | wrongSession
  | unknownRoot
  | forgeRequired
  | lineCount (count : ℕ)
  | badHeader (line : Bytes)
  | notBlank
  | wrongField (line : ℕ) (key : String)
  | base58Character (byte : UInt8)
  | keyLength (name : String) (length : ℕ)
  | capsToken (token text : Bytes)
  | capsNotCanonical (text : Bytes) (want : String)
  | badTimestamp (text : Bytes)
  | nonceLength (length : ℕ)
  deriving DecidableEq

/-- The characters of bytes, one for each. -/
def bytesText (bytes : Bytes) : String := String.ofList (bytes.map fun byte ↦ Char.ofNat byte.toNat)

def WalletError.text : WalletError → String
  | emptyChain => "wallet: empty delegation chain"
  | chainTooLong => "wallet: delegation chain too long"
  | badKey => "wallet: malformed key"
  | badSignature => "wallet: bad delegation signature"
  | brokenLink => "wallet: delegation chain link mismatch"
  | leafMismatch => "wallet: chain leaf does not bind the connection key"
  | attenuation => "wallet: delegation widens caps beyond its delegator"
  | notYetValid => "wallet: delegation not yet valid"
  | expired => "wallet: delegation expired"
  | wrongSession => "wallet: delegation is for a different session"
  | unknownRoot => "wallet: chain root has no live grant"
  | forgeRequired => "wallet: delegator lacks the forge capability"
  | lineCount count => "wallet: delegation has " ++ toString count ++ " lines, want 9"
  | badHeader line => "wallet: bad delegation header " ++ goQuote (bytesText line)
  | notBlank => "wallet: delegation line 2 must be blank"
  | wrongField line key => "wallet: line " ++ toString line ++ " is not " ++ goQuote key
  | base58Character byte => "wallet: invalid base58 character " ++ goQuoteRune (Char.ofNat byte.toNat)
  | keyLength name length => "wallet: " ++ name ++ " is " ++ toString length ++ " bytes, want 32"
  | capsToken token text =>
    "wallet: invalid caps token " ++ goQuote (bytesText token) ++ " in " ++ goQuote (bytesText text)
  | capsNotCanonical text want =>
    "wallet: non-canonical caps " ++ goQuote (bytesText text) ++ " (want " ++ goQuote want ++ ")"
  | badTimestamp text => "wallet: non-canonical timestamp " ++ goQuote (bytesText text)
  | nonceLength length =>
    "wallet: nonce is " ++ toString length ++ " bytes, want " ++ toString delegationNonceSize

def consHead (byte : UInt8) : List Bytes → List Bytes
  | [] => [[byte]]
  | head :: rest => (byte :: head) :: rest

/-- `strings.Split`, with the bytes of a separator that are still to be skipped. -/
def splitFrom (separator : Bytes) : ℕ → Bytes → List Bytes
  | _, [] => [[]]
  | skip + 1, _ :: rest => splitFrom separator skip rest
  | 0, byte :: rest =>
    if separator.isPrefixOf (byte :: rest) then
      [] :: splitFrom separator (separator.length - 1) rest
    else consHead byte (splitFrom separator 0 rest)

def split (separator : String) (text : Bytes) : List Bytes := splitFrom (ascii separator) 0 text

def join (separator : String) (parts : List Bytes) : Bytes := (ascii separator).intercalate parts

def parseCapsToken (text : Bytes) (caps : Caps) (token : Bytes) : Except WalletError Caps :=
  if token = ascii "write" then .ok (caps ||| capWrite)
  else if token = ascii "resize" then .ok (caps ||| capResize)
  else if token = ascii "forge" then .ok (caps ||| capForge)
  else .error (.capsToken token text)

def parseCaps (text : Bytes) : Except WalletError Caps :=
  if text = ascii "view-only" then .ok 0
  else
    match (split ", " text).foldlM (parseCapsToken text) 0 with
    | .error err => .error err
    | .ok caps =>
      if ascii caps.string ≠ text then .error (.capsNotCanonical text caps.string) else .ok caps

/-- `unicode.IsSpace`. -/
def isSpace (char : Char) : Bool :=
  char.toNat ∈ [0x20, 0x85, 0xA0, 0x1680, 0x2028, 0x2029, 0x202F, 0x205F, 0x3000] ∨
    0x09 ≤ char.toNat ∧ char.toNat ≤ 0x0D ∨ 0x2000 ≤ char.toNat ∧ char.toNat ≤ 0x200A

/-- `strings.TrimSpace`. -/
def trimSpace (text : List Char) : List Char :=
  ((text.dropWhile isSpace).reverse.dropWhile isSpace).reverse

def parseCapsLenientToken (text : List Char) (caps : Caps) (token : List Char) :
    Except WalletError Caps :=
  let trimmed := trimSpace token
  if trimmed = [] then .ok caps
  else if trimmed = "write".toList then .ok (caps ||| capWrite)
  else if trimmed = "resize".toList then .ok (caps ||| capResize)
  else if trimmed = "forge".toList then .ok (caps ||| capForge)
  else .error (.capsToken (Utf8.encode trimmed) (Utf8.encode text))

/-- The caps that a user typed, in any order and spacing. -/
def parseCapsLenient (text : List Char) : Except WalletError Caps :=
  if trimSpace text = [] ∨ text = "view-only".toList then .ok 0
  else (text.splitOn ',').foldlM (parseCapsLenientToken text) 0

example : parseCapsLenient " resize,write, ".toList = .ok 3 := by decide

structure Fields where
  sessionID : PublicKey
  delegator : PublicKey
  delegate : PublicKey
  caps : Caps
  notBefore : Time
  notAfter : Time
  nonce : Bytes
  deriving DecidableEq

def renderTime (instant : Time) : Bytes := ascii (formatRFC3339 instant)

def parseTime (text : Bytes) : Except WalletError Time :=
  match parseRFC3339 text with
  | none => .error (.badTimestamp text)
  | some instant => if renderTime instant ≠ text then .error (.badTimestamp text) else .ok instant

def Fields.render (fields : Fields) : Bytes :=
  join "\n" [ascii contentHeader, [], ascii "session: " ++ base58Encode fields.sessionID,
    ascii "delegator: " ++ base58Encode fields.delegator,
    ascii "delegate: " ++ base58Encode fields.delegate, ascii "caps: " ++ ascii fields.caps.string,
    ascii "not-before: " ++ renderTime fields.notBefore,
    ascii "not-after: " ++ renderTime fields.notAfter, ascii "nonce: " ++ base58Encode fields.nonce]

/-- The value of the line at `index` if it is of the form `key: value`. -/
def fieldAt (lines : List Bytes) (index : ℕ) (key : String) : Except WalletError Bytes :=
  let leading := ascii (key ++ ": ")
  let line := lines.getD index []
  if leading.isPrefixOf line then .ok (line.drop leading.length)
  else .error (.wrongField (index + 1) key)

def decodeAt (lines : List Bytes) (index : ℕ) (key : String) : Except WalletError Bytes :=
  match fieldAt lines index key with
  | .error err => .error err
  | .ok text =>
    match base58Decode text with
    | .error byte => .error (.base58Character byte)
    | .ok bytes => .ok bytes

/-- `ParseAddress`. Characters beyond ASCII have no bytes of the alphabet in their encoding. -/
def parseAddress (text : List Char) : Except WalletError PublicKey :=
  match base58Decode (Utf8.encode text) with
  | .error byte => .error (.base58Character byte)
  | .ok bytes =>
    if bytes.length ≠ publicKeySize then .error (.keyLength "address" bytes.length) else .ok bytes

theorem parseAddress_address {publicKey : PublicKey} (hlength : publicKey.length = publicKeySize) :
    parseAddress (address publicKey).toList = .ok publicKey := by
  have hne : publicKey ≠ [] := by
    rintro rfl
    cases hlength
  unfold parseAddress
  rw [encode_address hne, base58Decode_base58Encode hne]
  exact if_neg (not_not.mpr hlength)

def key32At (lines : List Bytes) (index : ℕ) (name : String) : Except WalletError PublicKey :=
  match decodeAt lines index name with
  | .error err => .error err
  | .ok bytes =>
    if bytes.length ≠ publicKeySize then .error (.keyLength name bytes.length) else .ok bytes

def nonceAt (lines : List Bytes) : Except WalletError Bytes :=
  match decodeAt lines 8 "nonce" with
  | .error err => .error err
  | .ok bytes =>
    if bytes.length ≠ delegationNonceSize then .error (.nonceLength bytes.length) else .ok bytes

/-- The fields of nine lines, checked in order. -/
def parseLines (lines : List Bytes) : Except WalletError Fields := do
  let sessionID ← key32At lines 2 "session"
  let delegator ← key32At lines 3 "delegator"
  let delegate ← key32At lines 4 "delegate"
  let caps ← (fieldAt lines 5 "caps").bind parseCaps
  let notBefore ← (fieldAt lines 6 "not-before").bind parseTime
  let notAfter ← (fieldAt lines 7 "not-after").bind parseTime
  let nonce ← nonceAt lines
  return ⟨sessionID, delegator, delegate, caps, notBefore, notAfter, nonce⟩

def parseContent (content : Bytes) : Except WalletError Fields :=
  let lines := split "\n" content
  if lines.length ≠ 9 then .error (.lineCount lines.length)
  else if lines.getD 0 [] ≠ ascii contentHeader then .error (.badHeader (lines.getD 0 []))
  else if lines.getD 1 [] ≠ [] then .error .notBlank
  else parseLines lines

structure Delegation (Signature : Type) where
  content : Bytes
  signature : Signature
  deriving DecidableEq

section Envelope

variable {Private Signature : Type} (crypto : Ed25519 Private Signature)

def Delegation.sign (priv : Private) (fields : Fields) : Delegation Signature :=
  ⟨fields.render, crypto.sign priv fields.render⟩

def Delegation.fields (delegation : Delegation Signature) : Except WalletError Fields :=
  parseContent delegation.content

def Delegation.verify (delegation : Delegation Signature) : Except WalletError Fields :=
  match delegation.fields with
  | .error err => .error err
  | .ok fields =>
    if fields.delegator.length ≠ publicKeySize then .error .badKey
    else if crypto.size delegation.signature ≠ signatureSize then .error .badSignature
    else if crypto.verify fields.delegator delegation.content delegation.signature = false then
      .error .badSignature
    else .ok fields

end Envelope

/-- The errors that concern the form of one delegation. -/
def WalletError.isMalformed : WalletError → Bool
  | .lineCount _ | .badHeader _ | .notBlank | .wrongField _ _ | .base58Character _ | .keyLength _ _
  | .capsToken _ _ | .capsNotCanonical _ _ | .badTimestamp _ | .nonceLength _ => true
  | _ => false

section Errors

variable {lines : List Bytes} {index : ℕ} {key : String} {err : WalletError}

theorem fieldAt_error (hfield : fieldAt lines index key = .error err) : err.isMalformed = true := by
  simp only [fieldAt] at hfield
  split_ifs at hfield
  rw [← Except.error.inj hfield]
  rfl

theorem decodeAt_error (hdecode : decodeAt lines index key = .error err) :
    err.isMalformed = true := by
  unfold decodeAt at hdecode
  split at hdecode
  · next hfield =>
    rw [Except.error.inj hdecode] at hfield
    exact fieldAt_error hfield
  · split at hdecode
    · rw [← Except.error.inj hdecode]
      rfl
    · cases hdecode

/-- A key that cannot be read makes the delegation malformed. -/
theorem key32At_error (hkey : key32At lines index key = .error err) : err.isMalformed = true := by
  unfold key32At at hkey
  split at hkey
  · next hdecode =>
    rw [Except.error.inj hkey] at hdecode
    exact decodeAt_error hdecode
  · split_ifs at hkey
    rw [← Except.error.inj hkey]
    rfl

theorem nonceAt_error (hnonce : nonceAt lines = .error err) : err.isMalformed = true := by
  unfold nonceAt at hnonce
  split at hnonce
  · next hdecode =>
    rw [Except.error.inj hnonce] at hdecode
    exact decodeAt_error hdecode
  · split_ifs at hnonce
    rw [← Except.error.inj hnonce]
    rfl

theorem parseCapsToken_error {text token : Bytes} {caps : Caps}
    (htoken : parseCapsToken text caps token = .error err) : err.isMalformed = true := by
  unfold parseCapsToken at htoken
  split_ifs at htoken
  rw [← Except.error.inj htoken]
  rfl

/-- Capabilities that cannot be read make the delegation malformed. -/
theorem parseCaps_error {text : Bytes} (hcaps : parseCaps text = .error err) :
    err.isMalformed = true := by
  unfold parseCaps at hcaps
  split_ifs at hcaps
  split at hcaps
  · next hfold =>
    rw [Except.error.inj hcaps] at hfold
    obtain ⟨caps, token, htoken⟩ := exists_of_foldlM_eq_error hfold
    exact parseCapsToken_error htoken
  · split_ifs at hcaps
    rw [← Except.error.inj hcaps]
    rfl

theorem parseTime_error {text : Bytes} (htime : parseTime text = .error err) :
    err.isMalformed = true := by
  unfold parseTime at htime
  split at htime
  · rw [← Except.error.inj htime]
    rfl
  · split_ifs at htime
    rw [← Except.error.inj htime]
    rfl

/-- Every error of the lines makes the delegation malformed. -/
theorem parseLines_error (hparse : parseLines lines = .error err) : err.isMalformed = true := by
  unfold parseLines at hparse
  rcases bind_eq_error.mp hparse with hsession | ⟨_, _, hparse⟩
  · exact key32At_error hsession
  rcases bind_eq_error.mp hparse with hdelegator | ⟨_, _, hparse⟩
  · exact key32At_error hdelegator
  rcases bind_eq_error.mp hparse with hdelegate | ⟨_, _, hparse⟩
  · exact key32At_error hdelegate
  rcases bind_eq_error.mp hparse with hcaps | ⟨_, _, hparse⟩
  · rcases bind_eq_error.mp hcaps with hfield | ⟨_, _, hcaps⟩
    · exact fieldAt_error hfield
    · exact parseCaps_error hcaps
  rcases bind_eq_error.mp hparse with hstart | ⟨_, _, hparse⟩
  · rcases bind_eq_error.mp hstart with hfield | ⟨_, _, htime⟩
    · exact fieldAt_error hfield
    · exact parseTime_error htime
  rcases bind_eq_error.mp hparse with hend | ⟨_, _, hparse⟩
  · rcases bind_eq_error.mp hend with hfield | ⟨_, _, htime⟩
    · exact fieldAt_error hfield
    · exact parseTime_error htime
  rcases bind_eq_error.mp hparse with hnonce | ⟨_, _, hresult⟩
  · exact nonceAt_error hnonce
  · cases hresult

/-- Every error of the parser says that the delegation is malformed. -/
theorem parseContent_error {content : Bytes} (hparse : parseContent content = .error err) :
    err.isMalformed = true := by
  simp only [parseContent] at hparse
  split_ifs at hparse
  · rw [← Except.error.inj hparse]
    rfl
  · rw [← Except.error.inj hparse]
    rfl
  · rw [← Except.error.inj hparse]
    rfl
  · exact parseLines_error hparse

theorem Delegation.fields_of_verify {Private Signature : Type} {crypto : Ed25519 Private Signature}
    {delegation : Delegation Signature} {fields : Fields}
    (hverify : delegation.verify crypto = .ok fields) : delegation.fields = .ok fields := by
  unfold Delegation.verify at hverify
  split at hverify
  · cases hverify
  · next parsed hparsed =>
    split_ifs at hverify
    rw [hparsed, Except.ok.inj hverify]

/-- A delegation is refused as malformed, for its key or for its signature. -/
theorem Delegation.verify_error {Private Signature : Type} {crypto : Ed25519 Private Signature}
    {delegation : Delegation Signature} (hverify : delegation.verify crypto = .error err) :
    err.isMalformed = true ∨ err = .badKey ∨ err = .badSignature := by
  unfold Delegation.verify at hverify
  split at hverify
  · next hfields =>
    rw [Except.error.inj hverify] at hfields
    exact .inl (parseContent_error hfields)
  · split_ifs at hverify
    · exact .inr (.inl (Except.error.inj hverify).symm)
    · exact .inr (.inr (Except.error.inj hverify).symm)
    · exact .inr (.inr (Except.error.inj hverify).symm)

end Errors

end Mosey.Wallet

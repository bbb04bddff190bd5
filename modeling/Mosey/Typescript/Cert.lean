import Mosey.Typescript.Broken
import Mosey.Typescript.Render

/-!
# Certificates in the TypeScript client

`verifyCert` is the client's version of `Verify`. Both check a signature over bytes, read the bytes as
a message and decide by what they read, so they agree on a content that they read alike. The client reads
times as dates of whole milliseconds, and a date beyond the range of dates compares as neither earlier nor
later than any other.
-/

namespace Mosey.Typescript

open Library

/-- The milliseconds that a `Date` can hold. -/
def maxDate : ℕ := 8640000000000000

/-- A `Date`, or none if it is invalid. -/
abbrev JSDate := Option ℤ

def newDate : JSNumber → JSDate
  | .nan => none
  | .finite ms => if ms ≤ maxDate then some ⌊ms⌋₊ else none

def timestampToDate (ts : Timestamp) : JSDate :=
  let seconds := ts.seconds.toNumber.map fun seconds ↦ Binary64.round (seconds * 1000)
  let nanos := ts.nanos.map fun nanos ↦ ⌊Binary64.round (nanos / 1000000)⌋₊
  newDate (seconds.add nanos)

/-- The operator `<` on dates. -/
def JSDate.isBefore : JSDate → JSDate → Bool
  | some first, some second => decide (first < second)
  | _, _ => false

structure VerifyOptions where
  masterPub : Bytes
  workspaceId : String
  now : Option JSDate
  revoked : Option (List String)

structure Claim where
  agentId : String
  peerPubkey : Bytes
  label : String
  capsBits : JSNumber
  notBefore : JSDate
  notAfter : JSDate
  serial : String
  workspaceId : String
  deriving DecidableEq

inductive CertError
  | masterKeyLength (length : ℕ)
  | invalidSignature
  | unmarshal (err : DecodeError)
  | expired (now notBefore notAfter : JSDate)
  | workspaceRequired
  | wrongWorkspace (got want : String)
  | revoked (serial : String)
  | peerKeyLength (length : Option ℕ)
  deriving DecidableEq

def JSDate.text (date : JSDate) : String := String.ofList ((date.bind toISOString).getD [])

def CertError.message (engine : Engine) : CertError → String
  | masterKeyLength length =>
    "cert: master public key length " ++ toString length ++ ", want " ++ toString publicKeySize
  | invalidSignature => "cert: signature does not match master public key"
  | unmarshal err => "cert: unmarshal content: " ++ err.message engine
  | expired now notBefore notAfter =>
    if now.isSome ∧ notBefore.isSome ∧ notAfter.isSome then
      "cert: not within validity window: now=" ++ now.text ++ " not_before=" ++ notBefore.text ++
        " not_after=" ++ notAfter.text
    else engine.invalidDateMessage
  | workspaceRequired => "cert: VerifyOptions.workspaceId is required"
  | wrongWorkspace got want =>
    "cert: workspace_id mismatch: got " ++ stringify got.toList ++ " want " ++ stringify want.toList
  | revoked serial => "cert: serial is revoked: " ++ serial
  | peerKeyLength length =>
    "cert: peer public key length " ++ (length.map toString).getD "undefined" ++ ", want " ++
      toString publicKeySize

/-- The checks of `verifyCert` that follow the parse. -/
def checkContent (opts : VerifyOptions) (now : JSDate) (scc : SignedCertContent) : Except CertError Claim :=
  let notBefore := timestampToDate scc.notBefore
  let notAfter := timestampToDate scc.notAfter
  if now.isBefore notBefore || notAfter.isBefore now then .error (.expired now notBefore notAfter)
  else if opts.workspaceId = "" then .error .workspaceRequired
  else if scc.workspaceId ≠ opts.workspaceId then
    .error (.wrongWorkspace scc.workspaceId opts.workspaceId)
  else if scc.serial ∈ opts.revoked.getD [] then .error (.revoked scc.serial)
  else
    match scc.peerPubkey with
    | .bigint _ => .error (.peerKeyLength none)
    | .bytes key =>
      if key.length ≠ publicKeySize then .error (.peerKeyLength (some key.length))
      else .ok ⟨scc.agentId, key, scc.label, scc.capsBits, notBefore, notAfter, scc.serial,
        scc.workspaceId⟩

def verifyCert {Private Signature : Type} (crypto : Ed25519 Private Signature) (engine : Engine)
    (cert : Cert.Envelope Signature) (opts : VerifyOptions) (clock : JSDate) : Except CertError Claim :=
  if opts.masterPub.length ≠ publicKeySize then .error (.masterKeyLength opts.masterPub.length)
  else if crypto.verify opts.masterPub cert.content cert.signature = false then .error .invalidSignature
  else
    match decodeSignedCertContent engine cert.content with
    | .error err => .error (.unmarshal err)
    | .ok scc => checkContent opts (opts.now.getD clock) scc

/-- What both verifiers return. -/
structure Returned where
  agentId : String
  peerPubkey : Bytes
  label : String
  capsBits : JSNumber
  serial : String
  workspaceId : String
  deriving DecidableEq

/-- A whole millisecond within the range of dates. -/
abbrev Instant := { ms : ℤ // ms.natAbs ≤ maxDate }

/-- A content as a verifier reads it: what it returns, and the instants it admits. -/
structure Reading extends Returned where
  admits : Set Instant

def Reading.Accepts (reading : Reading) (workspaceId : String) (revoked : List String) (now : Instant) :
    Prop :=
  now ∈ reading.admits ∧ reading.workspaceId = workspaceId ∧ reading.serial ∉ revoked ∧
    reading.peerPubkey.length = publicKeySize

/-- A verifier that decides by what it reads. -/
def DecidesBy (result : String → List String → Instant → Option Returned) (read : Option Reading) : Prop :=
  ∀ workspaceId revoked now returned, workspaceId ≠ "" →
    (result workspaceId revoked now = some returned ↔
      ∃ reading, read = some reading ∧ reading.Accepts workspaceId revoked now ∧
        reading.toReturned = returned)

/-- Two verifiers that decide by the same reading agree. -/
theorem DecidesBy.eq {first second : String → List String → Instant → Option Returned} {read : Option Reading}
    (hfirst : DecidesBy first read) (hsecond : DecidesBy second read) {workspaceId : String}
    (hworkspace : workspaceId ≠ "") (revoked : List String) (now : Instant) :
    first workspaceId revoked now = second workspaceId revoked now := by
  ext returned
  rw [hfirst _ _ _ _ hworkspace, hsecond _ _ _ _ hworkspace]

def goReading (content : Bytes) : Option Reading :=
  (Cert.decodeContent content).map fun read ↦
    { agentId := read.agentId
      peerPubkey := read.peerPubkey
      label := read.label
      capsBits := .finite read.capsBits.toNat
      serial := read.serial
      workspaceId := read.workspaceId
      admits := { now | read.notBefore.getD 0 ≤ timeOf now ∧ timeOf now ≤ read.notAfter.getD 0 } }

def SignedCertContent.reading (scc : SignedCertContent) : Option Reading :=
  match scc.peerPubkey with
  | .bigint _ => none
  | .bytes key => some
    { agentId := scc.agentId
      peerPubkey := key
      label := scc.label
      capsBits := scc.capsBits
      serial := scc.serial
      workspaceId := scc.workspaceId
      admits := { now | JSDate.isBefore (some now.1) (timestampToDate scc.notBefore) = false ∧
        (timestampToDate scc.notAfter).isBefore (some now.1) = false } }

def clientReading (engine : Engine) (content : Bytes) : Option Reading :=
  (decodeSignedCertContent engine content).toOption.bind SignedCertContent.reading

def goReturned (claim : Cert.Claim) : Returned :=
  ⟨claim.agentID, claim.peerPubKey, claim.label, .finite claim.capsBits.toNat, claim.serial,
    claim.workspaceID⟩

def Claim.returned (claim : Claim) : Returned :=
  ⟨claim.agentId, claim.peerPubkey, claim.label, claim.capsBits, claim.serial, claim.workspaceId⟩

/-- The checks after the parse, as one condition. -/
theorem goCheck_eq_some {opts : Cert.VerifyOptions} {now : Time} {read : Cert.SignedCertContent}
    {returned : Returned} (hworkspace : opts.workspaceID ≠ "") :
    (Cert.checkContent opts now read).toOption.map goReturned = some returned ↔
      ((read.notBefore.getD 0 ≤ now ∧ now ≤ read.notAfter.getD 0) ∧
        read.workspaceId = opts.workspaceID ∧ read.serial ∉ opts.revoked ∧
        read.peerPubkey.length = publicKeySize) ∧
      (⟨read.agentId, read.peerPubkey, read.label, .finite read.capsBits.toNat, read.serial,
        read.workspaceId⟩ : Returned) = returned := by
  simp only [Cert.checkContent]
  split_ifs with hwindow hother hrevoked hlength
  · rw [← not_lt, ← not_lt, ← not_or]
    simp [Except.toOption, hwindow]
  · simp [Except.toOption, hother.2]
  · simp [Except.toOption, hrevoked]
  · simp [Except.toOption, hlength]
  · rw [not_or, not_lt, not_lt] at hwindow
    simp [Except.toOption, goReturned, hwindow, not_not.mp (not_and.mp hother hworkspace), hrevoked,
      not_not.mp hlength]

/-- When the checks of the client pass and what they return. -/
theorem clientCheck_eq_some {opts : VerifyOptions} {now : JSDate} {scc : SignedCertContent}
    {returned : Returned} (hworkspace : opts.workspaceId ≠ "") :
    (checkContent opts now scc).toOption.map Claim.returned = some returned ↔
      ∃ key, scc.peerPubkey = .bytes key ∧
        ((now.isBefore (timestampToDate scc.notBefore) = false ∧
            (timestampToDate scc.notAfter).isBefore now = false) ∧
          scc.workspaceId = opts.workspaceId ∧ scc.serial ∉ opts.revoked.getD [] ∧
          key.length = publicKeySize) ∧
        (⟨scc.agentId, key, scc.label, scc.capsBits, scc.serial, scc.workspaceId⟩ : Returned) =
          returned := by
  simp only [checkContent]
  split_ifs with hwindow hother hrevoked
  · rw [← Bool.or_eq_false_iff]
    simp [Except.toOption, hwindow]
  · simp [Except.toOption, hother]
  · simp [Except.toOption, hrevoked]
  · rw [Bool.not_eq_true, Bool.or_eq_false_iff] at hwindow
    cases hkey : scc.peerPubkey with
    | bigint n => simp [Except.toOption]
    | bytes key =>
      dsimp only
      split_ifs with hlength
      · simp [Except.toOption, hlength]
      · simp [Except.toOption, Claim.returned, hwindow, not_not.mp hother, hrevoked, not_not.mp hlength]

section Verifiers

variable {Private Signature : Type} (crypto : Ed25519 Private Signature) (runtime : Cert.Runtime)
  (engine : Engine)

/-- What `Verify` returns at a time read from the clock. -/
def goResult (envelope : Cert.Envelope Signature) (masterPub : Bytes) (workspaceId : String)
    (revoked : List String) (now : Instant) : Option Returned :=
  (Cert.verify crypto runtime (some envelope) ⟨masterPub, workspaceId, none, revoked⟩
    (timeOf now)).toOption.map goReturned

/-- What `verifyCert` returns at a time read from the clock. -/
def clientResult (envelope : Cert.Envelope Signature) (masterPub : Bytes) (workspaceId : String)
    (revoked : List String) (now : Instant) : Option Returned :=
  (verifyCert crypto engine envelope ⟨masterPub, workspaceId, none, some revoked⟩
    (some now.1)).toOption.map Claim.returned

variable {crypto runtime engine} {envelope : Cert.Envelope Signature} {masterPub : Bytes}

theorem goResult_of_invalid
    (hsignature : crypto.verify masterPub envelope.content envelope.signature = false)
    (workspaceId : String) (revoked : List String) (now : Instant) :
    goResult crypto runtime envelope masterPub workspaceId revoked now = none := by
  rw [goResult, Cert.verify]
  split_ifs <;> rfl

theorem clientResult_of_invalid
    (hsignature : crypto.verify masterPub envelope.content envelope.signature = false)
    (workspaceId : String) (revoked : List String) (now : Instant) :
    clientResult crypto engine envelope masterPub workspaceId revoked now = none := by
  rw [clientResult, verifyCert]
  split_ifs <;> rfl

/-- The server decides by what it reads from the content. -/
theorem goResult_decidesBy
    (hruntime : ∀ bytes, (runtime.unmarshal bytes).toOption = Cert.decodeContent bytes)
    (hmaster : masterPub.length = publicKeySize)
    (hsignature : crypto.verify masterPub envelope.content envelope.signature = true) :
    DecidesBy (goResult crypto runtime envelope masterPub) (goReading envelope.content) := by
  intro workspaceId revoked now returned hworkspace
  rw [goResult, Cert.verify, if_neg (not_not.mpr hmaster), if_neg (by rw [hsignature]; decide), goReading,
    ← hruntime]
  cases runtime.unmarshal envelope.content with
  | error err => simp [Except.toOption]
  | ok content =>
    refine (goCheck_eq_some hworkspace).trans ⟨fun h ↦ ⟨_, rfl, h⟩, ?_⟩
    rintro ⟨reading, hreading, haccepts⟩
    cases hreading
    exact haccepts

/-- The client decides by what it reads from the content. -/
theorem clientResult_decidesBy (hmaster : masterPub.length = publicKeySize)
    (hsignature : crypto.verify masterPub envelope.content envelope.signature = true) :
    DecidesBy (clientResult crypto engine envelope masterPub) (clientReading engine envelope.content) := by
  intro workspaceId revoked now returned hworkspace
  rw [clientResult, verifyCert, if_neg (not_not.mpr hmaster), if_neg (by rw [hsignature]; decide),
    clientReading]
  cases decodeSignedCertContent engine envelope.content with
  | error err => simp [Except.toOption]
  | ok scc =>
    refine (clientCheck_eq_some hworkspace).trans ?_
    change _ ↔ ∃ reading, scc.reading = some reading ∧ _
    rw [SignedCertContent.reading]
    cases scc.peerPubkey with
    | bigint n => simp
    | bytes key =>
      constructor
      · rintro ⟨found, hkey, h⟩
        cases hkey
        exact ⟨_, rfl, h⟩
      · rintro ⟨reading, hreading, h⟩
        cases hreading
        exact ⟨key, rfl, h⟩

end Verifiers

/-! ## Plain contents -/

/-- A field of a timestamp from 1970 on that a `Date` can hold. -/
def plainTimestampField (unit : ℕ) : ℕ × Proto3.Value → Bool
  | (1, .varint n) => decide (n < 8640000000000)
  | (2, .varint n) => decide (n < 1000000000 ∧ unit ∣ n)
  | (1, _) | (2, _) => false
  | (_, .varint _) | (_, .bytes _) => true
  | _ => false

def plainTimestamp (unit : ℕ) (bytes : Bytes) : Bool :=
  match Proto3.fields bytes with
  | none => false
  | some read => read.all (plainTimestampField unit)

/-- UTF-8 that does not start with a byte order mark. -/
def plainText (bytes : Bytes) : Bool :=
  decide (Utf8.encode (Utf8.decode bytes) = bytes ∧ (Utf8.decode bytes).head? ≠ some Utf8.byteOrderMark)

/-- Every known field has its declared wire type and a value that the client can hold. -/
def plainField : ℕ × Proto3.Value → Bool
  | (1, .bytes bytes) | (3, .bytes bytes) | (7, .bytes bytes) | (8, .bytes bytes) => plainText bytes
  | (2, .bytes _) => true
  | (4, .varint n) => decide (n < 2 ^ 32)
  | (5, .bytes bytes) => plainTimestamp 1000000 bytes
  | (6, .bytes bytes) => plainTimestamp 1 bytes
  | (1, _) | (2, _) | (3, _) | (4, _) | (5, _) | (6, _) | (7, _) | (8, _) => false
  | (_, .varint _) | (_, .bytes _) => true
  | _ => false

/-- A complete proto3 message of plain fields, with no timestamp given twice. -/
def plain (content : Bytes) : Bool :=
  match Proto3.fields content with
  | none => false
  | some read => read.all plainField && decide ((read.map Prod.fst).count 5 ≤ 1) &&
      decide ((read.map Prod.fst).count 6 ≤ 1)

variable {read : List (ℕ × Proto3.Value)} {unit : ℕ} {timestamp : Cert.Timestamp}
  {entry : ℕ × Proto3.Value} {ts : Timestamp} {engine : Engine} {bytes : Bytes} {number : ℕ}
  {content : Bytes}

theorem exists_sees {test : ℕ × Proto3.Value → Bool}
    (htest : ∀ entry, test entry = true → ∃ found, Field.of entry = some found)
    (hall : read.all test = true) : ∃ seen, Sees read seen := by
  induction read with
  | nil => exact ⟨[], .nil⟩
  | cons entry read ih =>
    rw [List.all_cons, Bool.and_eq_true] at hall
    obtain ⟨found, hfound⟩ := htest entry hall.1
    obtain ⟨seen, hseen⟩ := ih hall.2
    exact ⟨found :: seen, .cons hfound hseen⟩

theorem exists_of_plainTimestampField (entry : ℕ × Proto3.Value)
    (hplain : plainTimestampField unit entry = true) : ∃ found, Field.of entry = some found := by
  obtain ⟨number, value⟩ := entry
  cases value with
  | varint | bytes => exact ⟨_, rfl⟩
  | fixed64 | group | fixed32 => rcases number with _ | _ | _ | number <;> cases hplain

/-- The two forms of a timestamp, with nanoseconds in multiples of a unit. -/
def SameTimestamp (unit : ℕ) (ts : Timestamp) (timestamp : Cert.Timestamp) : Prop :=
  ∃ seconds nanos : ℕ, ts = ⟨.bigint seconds, .finite nanos⟩ ∧ timestamp = ⟨seconds, nanos⟩ ∧
    seconds < 8640000000000 ∧ nanos < 1000000000 ∧ unit ∣ nanos

theorem sameTimestamp_zero (unit : ℕ) : SameTimestamp unit .zero .zero :=
  ⟨0, 0, by rw [Nat.cast_zero]; rfl, rfl, by decide, by decide, Nat.dvd_zero unit⟩

theorem toInt_ofNat {width n : ℕ} (hn : 2 * n < 2 ^ width) : (BitVec.ofNat width n).toInt = n := by
  rw [BitVec.toInt_ofNat', Int.bmod_eq_of_le_mul_two]
  all_goals omega

/-- A plain field changes both timestamps alike. -/
theorem SameTimestamp.set (hsame : SameTimestamp unit ts timestamp) {found : Field}
    (hplain : plainTimestampField unit entry = true) (hfound : Field.of entry = some found) :
    SameTimestamp unit (ts.set found) (timestamp.set entry) := by
  obtain ⟨seconds, nanos, rfl, rfl, hseconds, hnanos, hunit⟩ := hsame
  obtain ⟨number, value⟩ := entry
  cases value with
  | varint n =>
    cases hfound
    rcases number with _ | _ | _ | number
    · exact ⟨seconds, nanos, rfl, rfl, hseconds, hnanos, hunit⟩
    · have hn : n < 8640000000000 := of_decide_eq_true hplain
      have hint : (BitVec.ofNat 64 n).toInt = n := toInt_ofNat (by omega)
      exact ⟨n, nanos, rfl, congrArg (Cert.Timestamp.mk · nanos) hint, hn, hnanos, hunit⟩
    · have hn : n < 1000000000 ∧ unit ∣ n := of_decide_eq_true hplain
      have hint : (BitVec.ofNat 32 n).toInt = n := toInt_ofNat (by omega)
      have hnumber : (JSValue.bigint n).toNumber = .finite n := by
        rw [JSValue.toNumber, numberOf_eq (by omega)]
      exact ⟨seconds, n, congrArg (Timestamp.mk _) hnumber, congrArg (Cert.Timestamp.mk seconds) hint,
        hseconds, hn⟩
    · exact ⟨seconds, nanos, rfl, rfl, hseconds, hnanos, hunit⟩
  | bytes bytes =>
    cases hfound
    rcases number with _ | _ | _ | number
    · exact ⟨seconds, nanos, rfl, rfl, hseconds, hnanos, hunit⟩
    · cases hplain
    · cases hplain
    · exact ⟨seconds, nanos, rfl, rfl, hseconds, hnanos, hunit⟩
  | fixed64 | group | fixed32 => cases hfound

theorem SameTimestamp.foldl (hsame : SameTimestamp unit ts timestamp) {seen : List Field}
    (hall : read.all (plainTimestampField unit) = true) (hseen : Sees read seen) :
    SameTimestamp unit (seen.foldl Timestamp.set ts) (read.foldl Cert.Timestamp.set timestamp) := by
  induction hseen generalizing ts timestamp with
  | nil => exact hsame
  | cons hfirst _ ih =>
    rw [List.all_cons, Bool.and_eq_true] at hall
    exact ih (hsame.set hall.1 hfirst) hall.2

/-- Both sides read a plain timestamp alike. -/
theorem decodeTimestamp_plain (hbytes : bytes.length ≤ engine.maxLength)
    (hplain : plainTimestamp unit bytes = true) :
    ∃ ts timestamp, decodeTimestamp engine (.bytes bytes) = .ok ts ∧
      Cert.mergeTimestamp none bytes = some timestamp ∧ SameTimestamp unit ts timestamp := by
  rw [plainTimestamp] at hplain
  cases hfields : Proto3.fields bytes with
  | none => rw [hfields] at hplain; cases hplain
  | some read =>
    rw [hfields] at hplain
    obtain ⟨seen, hseen⟩ := exists_sees exists_of_plainTimestampField hplain
    refine ⟨seen.foldl Timestamp.set .zero, read.foldl Cert.Timestamp.set .zero, ?_, ?_,
      (sameTimestamp_zero unit).foldl hplain hseen⟩
    · rw [decodeTimestamp, iterFields_eq hbytes hfields hseen, Generated.forEach_done]
      exact List.foldlM_pure
    · rw [Cert.mergeTimestamp, hfields]
      rfl

structure SameContent (scc : SignedCertContent) (message : Cert.ContentMessage) : Prop where
  agentId : scc.agentId = message.agentId
  peerPubkey : scc.peerPubkey = .bytes message.peerPubkey
  label : scc.label = message.label
  capsBits : scc.capsBits = .finite message.capsBits.toNat
  notBefore : SameTimestamp 1000000 scc.notBefore (message.notBefore.getD .zero)
  notAfter : SameTimestamp 1 scc.notAfter (message.notAfter.getD .zero)
  serial : scc.serial = message.serial
  workspaceId : scc.workspaceId = message.workspaceId

theorem sameContent_empty : SameContent .empty .empty where
  agentId := rfl
  peerPubkey := rfl
  label := rfl
  capsBits := rfl
  notBefore := sameTimestamp_zero _
  notAfter := sameTimestamp_zero _
  serial := rfl
  workspaceId := rfl

theorem decodeText_plain (hplain : plainText bytes = true) :
    ∃ text, decodeText (.bytes bytes) = .ok text ∧ Cert.utf8String bytes = some text := by
  obtain ⟨hvalid, hmark⟩ := of_decide_eq_true hplain
  have hunmarked : Utf8.decodeUnmarked bytes = Utf8.decode bytes := by
    rw [Utf8.decodeUnmarked]
    cases hdecode : Utf8.decode bytes with
    | nil => rfl
    | cons char rest =>
      rw [hdecode, List.head?_cons] at hmark
      exact if_neg fun heq ↦ hmark (congrArg some heq)
  refine ⟨String.ofList (Utf8.decode bytes), ?_, ?_⟩
  · rw [decodeText, hunmarked]
  · rw [Cert.utf8String, if_pos hvalid]

theorem exists_of_plainField (entry : ℕ × Proto3.Value) (hplain : plainField entry = true) :
    ∃ found, Field.of entry = some found := by
  obtain ⟨number, value⟩ := entry
  cases value with
  | varint | bytes => exact ⟨_, rfl⟩
  | fixed64 | group | fixed32 =>
    rcases number with _ | _ | _ | _ | _ | _ | _ | _ | _ | number <;> cases hplain

theorem SameContent.set_varint {scc : SignedCertContent} {message : Cert.ContentMessage}
    (hsame : SameContent scc message) {number n : ℕ} (hplain : plainField (number, .varint n) = true) :
    ∃ scc' message', scc.set engine ⟨number, .bigint n⟩ = .ok scc' ∧
      message.set (number, .varint n) = some message' ∧ SameContent scc' message' ∧
      message'.notBefore = message.notBefore ∧ message'.notAfter = message.notAfter := by
  -- numbers 0 to 8, of which only the fourth field is a varint, and the unknown ones
  rcases number with _ | _ | _ | _ | _ | _ | _ | _ | _ | number
  · exact ⟨scc, message, rfl, rfl, hsame, rfl, rfl⟩
  · cases hplain
  · cases hplain
  · cases hplain
  · have hn : n < 2 ^ 32 := of_decide_eq_true hplain
    have hcaps : (JSValue.bigint n).toNumber = .finite (UInt32.ofNat n).toNat := by
      rw [JSValue.toNumber, numberOf_eq (hn.trans (by decide)), UInt32.toNat_ofNat_of_lt' hn]
    exact ⟨_, _, rfl, rfl, { hsame with capsBits := hcaps }, rfl, rfl⟩
  · cases hplain
  · cases hplain
  · cases hplain
  · cases hplain
  · exact ⟨scc, message, rfl, rfl, hsame, rfl, rfl⟩

theorem SameContent.set_bytes {scc : SignedCertContent} {message : Cert.ContentMessage}
    (hsame : SameContent scc message) (hplain : plainField (number, .bytes bytes) = true)
    (hlength : bytes.length ≤ engine.maxLength) (hnotBefore : number = 5 → message.notBefore = none)
    (hnotAfter : number = 6 → message.notAfter = none) :
    ∃ scc' message', scc.set engine ⟨number, .bytes bytes⟩ = .ok scc' ∧
      message.set (number, .bytes bytes) = some message' ∧ SameContent scc' message' ∧
      (number ≠ 5 → message'.notBefore = message.notBefore) ∧
      (number ≠ 6 → message'.notAfter = message.notAfter) := by
  have hkept : ∀ {P : Prop}, P → P ∧ (number ≠ 5 → message.notBefore = message.notBefore) ∧
      (number ≠ 6 → message.notAfter = message.notAfter) := fun h ↦ ⟨h, fun _ ↦ rfl, fun _ ↦ rfl⟩
  rcases number with _ | _ | _ | _ | _ | _ | _ | _ | _ | number
  · exact ⟨scc, message, rfl, rfl, hkept hsame⟩
  · obtain ⟨text, htext, hutf8⟩ := decodeText_plain hplain
    exact ⟨_, _, bind_pure_eq_ok htext _, bind_pure_eq_some hutf8 _, hkept { hsame with agentId := rfl }⟩
  · exact ⟨_, _, rfl, rfl, hkept { hsame with peerPubkey := rfl }⟩
  · obtain ⟨text, htext, hutf8⟩ := decodeText_plain hplain
    exact ⟨_, _, bind_pure_eq_ok htext _, bind_pure_eq_some hutf8 _, hkept { hsame with label := rfl }⟩
  · cases hplain
  · obtain ⟨ts, timestamp, hts, htimestamp, hsameTime⟩ := decodeTimestamp_plain hlength hplain
    rw [← hnotBefore rfl] at htimestamp
    exact ⟨_, _, bind_pure_eq_ok hts _, bind_pure_eq_some htimestamp _, { hsame with notBefore := hsameTime },
      fun h ↦ absurd rfl h, fun _ ↦ rfl⟩
  · obtain ⟨ts, timestamp, hts, htimestamp, hsameTime⟩ := decodeTimestamp_plain hlength hplain
    rw [← hnotAfter rfl] at htimestamp
    exact ⟨_, _, bind_pure_eq_ok hts _, bind_pure_eq_some htimestamp _, { hsame with notAfter := hsameTime },
      fun _ ↦ rfl, fun h ↦ absurd rfl h⟩
  · obtain ⟨text, htext, hutf8⟩ := decodeText_plain hplain
    exact ⟨_, _, bind_pure_eq_ok htext _, bind_pure_eq_some hutf8 _, hkept { hsame with serial := rfl }⟩
  · obtain ⟨text, htext, hutf8⟩ := decodeText_plain hplain
    exact ⟨_, _, bind_pure_eq_ok htext _, bind_pure_eq_some hutf8 _, hkept { hsame with workspaceId := rfl }⟩
  · exact ⟨scc, message, rfl, rfl, hkept hsame⟩

/-- A plain field changes both contents alike. -/
theorem SameContent.set {scc : SignedCertContent} {message : Cert.ContentMessage}
    (hsame : SameContent scc message) {found : Field} (hplain : plainField entry = true)
    (hfound : Field.of entry = some found)
    (hlength : ∀ bytes, entry.2 = .bytes bytes → bytes.length ≤ engine.maxLength)
    (hnotBefore : entry.1 = 5 → message.notBefore = none)
    (hnotAfter : entry.1 = 6 → message.notAfter = none) :
    ∃ scc' message', scc.set engine found = .ok scc' ∧ message.set entry = some message' ∧
      SameContent scc' message' ∧ (entry.1 ≠ 5 → message'.notBefore = message.notBefore) ∧
      (entry.1 ≠ 6 → message'.notAfter = message.notAfter) := by
  obtain ⟨number, value⟩ := entry
  cases value with
  | varint n =>
    cases hfound
    obtain ⟨scc', message', hscc, hmessage, hsame', hbefore, hafter⟩ :=
      @SameContent.set_varint engine _ _ hsame _ _ hplain
    exact ⟨scc', message', hscc, hmessage, hsame', fun _ ↦ hbefore, fun _ ↦ hafter⟩
  | bytes bytes =>
    cases hfound
    exact hsame.set_bytes hplain (hlength bytes rfl) hnotBefore hnotAfter
  | fixed64 | group | fixed32 => cases hfound

/-- A timestamp may still come if there is none yet. -/
def MayCome (number : ℕ) (timestamp : Option Cert.Timestamp) (read : List (ℕ × Proto3.Value)) : Prop :=
  (read.map Prod.fst).count number ≤ if timestamp = none then 1 else 0

theorem MayCome.none_of_eq {timestamp : Option Cert.Timestamp}
    (hcome : MayCome number timestamp (entry :: read)) (hnumber : entry.1 = number) :
    timestamp = none := by
  by_contra hsome
  rw [MayCome, if_neg hsome, List.map_cons, hnumber, List.count_cons_self] at hcome
  exact absurd hcome (Nat.not_succ_le_zero _)

theorem MayCome.tail {timestamp timestamp' : Option Cert.Timestamp}
    (hcome : MayCome number timestamp (entry :: read))
    (hkept : entry.1 ≠ number → timestamp' = timestamp) : MayCome number timestamp' read := by
  by_cases hnumber : entry.1 = number
  · have hnone := hcome.none_of_eq hnumber
    rw [MayCome, if_pos hnone, List.map_cons, hnumber, List.count_cons_self] at hcome
    exact (Nat.le_of_succ_le_succ hcome).trans (Nat.zero_le _)
  · rw [MayCome, List.map_cons, List.count_cons_of_ne hnumber] at hcome
    rwa [MayCome, hkept hnumber]

/-- Plain fields in sequence change both contents alike. -/
theorem SameContent.foldlM {scc : SignedCertContent} {message : Cert.ContentMessage}
    (hsame : SameContent scc message) {seen : List Field} (hseen : Sees read seen)
    (hall : read.all plainField = true)
    (hlength : ∀ entry ∈ read, ∀ bytes, entry.2 = .bytes bytes → bytes.length ≤ engine.maxLength)
    (hbefore : MayCome 5 message.notBefore read) (hafter : MayCome 6 message.notAfter read) :
    ∃ scc' message', seen.foldlM (SignedCertContent.set engine) scc = .ok scc' ∧
      read.foldlM Cert.ContentMessage.set message = some message' ∧ SameContent scc' message' := by
  induction hseen generalizing scc message with
  | nil => exact ⟨scc, message, rfl, rfl, hsame⟩
  | cons hfirst _ ih =>
    rw [List.all_cons, Bool.and_eq_true] at hall
    obtain ⟨scc', message', hscc, hmessage, hsame', hkept, hkept'⟩ := hsame.set hall.1 hfirst
      (hlength _ List.mem_cons_self) hbefore.none_of_eq hafter.none_of_eq
    rw [List.foldlM_cons, List.foldlM_cons, hscc, hmessage]
    exact ih hsame' hall.2 (fun entry hentry ↦ hlength entry (List.mem_cons_of_mem _ hentry))
      (hbefore.tail hkept) (hafter.tail hkept')

/-- The client cuts a timestamp to milliseconds. -/
theorem timestampToDate_eq {seconds nanos : ℕ} (hseconds : seconds < 8640000000000)
    (hnanos : nanos < 1000000000) :
    timestampToDate ⟨.bigint seconds, .finite nanos⟩ =
      some ((seconds * 1000 + nanos / 1000000 : ℕ) : ℤ) := by
  have hproduct : Binary64.round ((seconds : ℚ) * 1000) = (seconds * 1000 : ℕ) := by
    have h := Binary64.round_natCast (n := seconds * 1000) (by omega)
    rwa [Nat.cast_mul, Nat.cast_ofNat] at h ⊢
  have hquotient : ⌊Binary64.round ((nanos : ℚ) / 1000000)⌋₊ = nanos / 1000000 := by
    exact_mod_cast Binary64.floor_round_div (n := nanos) (d := 1000000) (by decide) (by omega)
  have hsum : Binary64.round ((seconds * 1000 : ℕ) + (nanos / 1000000 : ℕ)) =
      (seconds * 1000 + nanos / 1000000 : ℕ) := by
    have h := Binary64.round_natCast (n := seconds * 1000 + nanos / 1000000) (by omega)
    rwa [Nat.cast_add] at h ⊢
  have hmax : ((seconds * 1000 + nanos / 1000000 : ℕ) : ℚ) ≤ maxDate := by
    rw [Nat.cast_le, maxDate]
    omega
  have hnumber : numberOf seconds = seconds := numberOf_eq (by omega)
  simp only [timestampToDate, JSValue.toNumber, JSNumber.map, JSNumber.add, hnumber, hproduct, hquotient,
    hsum, newDate]
  rw [if_pos hmax, Nat.floor_natCast]

theorem asTime_eq {seconds nanos : ℕ} (hseconds : seconds < 8640000000000) (hnanos : nanos < 1000000000) :
    (⟨seconds, nanos⟩ : Cert.Timestamp).asTime = seconds * 1000000000 + nanos := by
  have hsplit : ((seconds : ℤ) * nanosPerSecond + nanos) / nanosPerSecond = seconds := by
    rw [nanosPerSecond]
    omega
  have hinternal : (BitVec.ofInt 64 (seconds + Cert.unixToInternal)).toInt =
      seconds + Cert.unixToInternal := by
    rw [Cert.unixToInternal, BitVec.toInt_ofInt, Int.bmod_eq_of_le_mul_two]
    all_goals omega
  have hrest : ((seconds : ℤ) * nanosPerSecond + nanos) % nanosPerSecond = nanos := by
    rw [nanosPerSecond]
    omega
  rw [Cert.Timestamp.asTime]
  dsimp only
  rw [hsplit, hinternal, hrest, Int.add_sub_cancel]
  rfl

/-- A whole millisecond is before the same date in both forms. -/
theorem SameTimestamp.now_isBefore_iff (hsame : SameTimestamp 1000000 ts timestamp) (now : ℤ) :
    JSDate.isBefore (some now) (timestampToDate ts) = false ↔ timestamp.asTime ≤ timeOf now := by
  obtain ⟨seconds, nanos, rfl, rfl, hseconds, hnanos, hunit⟩ := hsame
  have hms : ¬ now < ((seconds * 1000 + nanos / 1000000 : ℕ) : ℤ) ↔
      (seconds : ℤ) * 1000000000 + nanos ≤ now * 1000000 := by omega
  rwa [timestampToDate_eq hseconds hnanos, asTime_eq hseconds hnanos, JSDate.isBefore,
    decide_eq_false_iff_not]

/-- At a time in whole milliseconds both sides compare the end of the validity alike. -/
theorem SameTimestamp.isBefore_now_iff (hsame : SameTimestamp 1 ts timestamp) (now : ℤ) :
    (timestampToDate ts).isBefore (some now) = false ↔ timeOf now ≤ timestamp.asTime := by
  obtain ⟨seconds, nanos, rfl, rfl, hseconds, hnanos, -⟩ := hsame
  have hms : ¬ ((seconds * 1000 + nanos / 1000000 : ℕ) : ℤ) < now ↔
      now * 1000000 ≤ (seconds : ℤ) * 1000000000 + nanos := by omega
  rwa [timestampToDate_eq hseconds hnanos, asTime_eq hseconds hnanos, JSDate.isBefore,
    decide_eq_false_iff_not]

theorem getD_asTime (timestamp : Option Cert.Timestamp) :
    (timestamp.map Cert.Timestamp.asTime).getD 0 = (timestamp.getD .zero).asTime := by
  cases timestamp with
  | none => decide
  | some timestamp => rfl

/-! ## Agreement -/

theorem SameContent.reading_eq {scc : SignedCertContent} {message : Cert.ContentMessage}
    (hsame : SameContent scc message) (hread : Cert.decodeContent content = some message.content) :
    goReading content = scc.reading := by
  rw [goReading, hread, SignedCertContent.reading, hsame.peerPubkey]
  simp only [Option.map_some, hsame.agentId, hsame.label, hsame.capsBits, hsame.serial, hsame.workspaceId,
    hsame.notBefore.now_isBefore_iff, hsame.notAfter.isBefore_now_iff, Cert.ContentMessage.content,
    getD_asTime]

/-- Both sides read a plain content alike. -/
theorem reading_eq_of_plain (hcontent : content.length ≤ engine.maxLength)
    (hplain : plain content = true) : goReading content = clientReading engine content := by
  rw [plain] at hplain
  cases hfields : Proto3.fields content with
  | none => rw [hfields] at hplain; cases hplain
  | some read =>
    rw [hfields] at hplain
    simp only [Bool.and_eq_true, decide_eq_true_eq] at hplain
    obtain ⟨⟨hall, hbefore⟩, hafter⟩ := hplain
    obtain ⟨seen, hseen⟩ := exists_sees exists_of_plainField hall
    have hlength : ∀ entry ∈ read, ∀ bytes, entry.2 = .bytes bytes → bytes.length ≤ engine.maxLength := by
      rintro ⟨number, value⟩ hentry bytes rfl
      exact (Proto3.length_lt_of_mem_fields hfields hentry).le.trans hcontent
    obtain ⟨scc, message, hscc, hmessage, hsame⟩ :=
      sameContent_empty.foldlM hseen hall hlength hbefore hafter
    have hclient : decodeSignedCertContent engine content = .ok scc := by
      rw [decodeSignedCertContent, iterFields_eq hcontent hfields hseen, Generated.forEach_done, hscc]
    have hread : Cert.decodeContent content = some message.content := by
      rw [Cert.decodeContent, hfields]
      exact bind_pure_eq_some hmessage _
    rw [hsame.reading_eq hread, clientReading, hclient]
    rfl

/-- Both sides refuse a broken content. -/
theorem reading_eq_of_broken (hcontent : content.length ≤ engine.maxLength)
    (hbroken : BrokenContent content) : goReading content = clientReading engine content := by
  obtain ⟨err, herr⟩ := hbroken.decodeSignedCertContent hcontent
  rw [goReading, hbroken.decodeContent, clientReading, herr]
  rfl

section Example

/-- A key of 32 bytes and the workspace "w". -/
def exampleKey : Bytes := [0x12, 0x20] ++ List.replicate 32 7 ++ [0x42, 0x01, 0x77]

/-- Valid to the first of May 2027. -/
def exampleExpiry : Bytes := [0x32, 0x06, 0x08, 0x80, 0xc1, 0xd4, 0xde, 0x06]

/-- The label "hi" and all capabilities besides. -/
def exampleContent : Bytes := exampleKey ++ exampleExpiry ++ [0x1a, 0x02, 0x68, 0x69, 0x20, 0x07]

/-- The client and the server agree whoever signed and whatever is asked. -/
def VerifiersAgree (content : Bytes) : Prop :=
  ∀ signature masterPub workspaceId revoked now, masterPub.length = publicKeySize → workspaceId ≠ "" →
    goResult freeEd25519.toEd25519 Cert.readingRuntime ⟨content, signature⟩ masterPub workspaceId revoked now =
      clientResult freeEd25519.toEd25519 exampleEngine ⟨content, signature⟩ masterPub workspaceId revoked now

/-- Signed by the master, the content is accepted by the client at the epoch and refused by the server. -/
def OnlyClientAccepts (content : Bytes) : Prop :=
  let envelope : Cert.Envelope _ := ⟨content, freeEd25519.sign (freeKey 1) content⟩
  let epoch : Instant := ⟨0, by decide⟩
  goResult freeEd25519.toEd25519 Cert.readingRuntime envelope (freeKey 1).1 "w" [] epoch = none ∧
    (clientResult freeEd25519.toEd25519 exampleEngine envelope (freeKey 1).1 "w" [] epoch).isSome

instance (content : Bytes) : Decidable (OnlyClientAccepts content) :=
  inferInstanceAs (Decidable (_ ∧ _))

end Example

end Mosey.Typescript

import Mosey.Cert
import Mosey.Library.Proto3
import Mosey.Library.Utf8

/-!
# The content of a certificate on the wire

What a proto3 reader makes of a `SignedCertContent`: a field that comes again replaces the value, or is
merged with it if it is a message, a field of another shape than its declaration is unknown, and text
has to be UTF-8.
-/

namespace Mosey.Cert

open Library Proto3

structure Timestamp where
  seconds : ℤ
  nanos : ℤ
  deriving DecidableEq

def Timestamp.zero : Timestamp := ⟨0, 0⟩

/-- `int64` and `int32` fields take the low bits of a varint. -/
def Timestamp.set (timestamp : Timestamp) : ℕ × Value → Timestamp
  | (1, .varint n) => { timestamp with seconds := (BitVec.ofNat 64 n).toInt }
  | (2, .varint n) => { timestamp with nanos := (BitVec.ofNat 32 n).toInt }
  | _ => timestamp

/-- Seconds from the first of January of year 1 to the Unix epoch. -/
def unixToInternal : ℤ := 62135596800

/-- `AsTime`, which counts seconds from year 1 in an `int64`. -/
def Timestamp.asTime (timestamp : Timestamp) : Time :=
  let total := timestamp.seconds * nanosPerSecond + timestamp.nanos
  let internal := (BitVec.ofInt 64 (total / nanosPerSecond + unixToInternal)).toInt
  (internal - unixToInternal) * nanosPerSecond + total % nanosPerSecond

def mergeTimestamp (timestamp : Option Timestamp) (bytes : Bytes) : Option Timestamp := do
  let read ← fields bytes
  return read.foldl Timestamp.set (timestamp.getD .zero)

def utf8String (bytes : Bytes) : Option String :=
  if Utf8.encode (Utf8.decode bytes) = bytes then some (String.ofList (Utf8.decode bytes)) else none

/-- A message while its fields are read. -/
structure ContentMessage where
  agentId : String
  peerPubkey : Bytes
  label : String
  capsBits : UInt32
  notBefore : Option Timestamp
  notAfter : Option Timestamp
  serial : String
  workspaceId : String
  deriving DecidableEq

def ContentMessage.empty : ContentMessage := ⟨"", [], "", 0, none, none, "", ""⟩

def ContentMessage.set (message : ContentMessage) : ℕ × Value → Option ContentMessage
  | (1, .bytes bytes) => do
    let text ← utf8String bytes
    return { message with agentId := text }
  | (2, .bytes bytes) => some { message with peerPubkey := bytes }
  | (3, .bytes bytes) => do
    let text ← utf8String bytes
    return { message with label := text }
  | (4, .varint n) => some { message with capsBits := UInt32.ofNat n }
  | (5, .bytes bytes) => do
    let timestamp ← mergeTimestamp message.notBefore bytes
    return { message with notBefore := some timestamp }
  | (6, .bytes bytes) => do
    let timestamp ← mergeTimestamp message.notAfter bytes
    return { message with notAfter := some timestamp }
  | (7, .bytes bytes) => do
    let text ← utf8String bytes
    return { message with serial := text }
  | (8, .bytes bytes) => do
    let text ← utf8String bytes
    return { message with workspaceId := text }
  | _ => some message

def ContentMessage.content (message : ContentMessage) : SignedCertContent where
  agentId := message.agentId
  peerPubkey := message.peerPubkey
  label := message.label
  capsBits := message.capsBits
  notBefore := message.notBefore.map Timestamp.asTime
  notAfter := message.notAfter.map Timestamp.asTime
  serial := message.serial
  workspaceId := message.workspaceId

def decodeContent (bytes : Bytes) : Option SignedCertContent := do
  let read ← fields bytes
  let message ← read.foldlM ContentMessage.set .empty
  return message.content

/-! ## A runtime that reads the wire format -/

theorem ContentMessage.peerPubkey_of_set {message next : ContentMessage} {entry : ℕ × Value}
    (h : message.set entry = some next) :
    next.peerPubkey = message.peerPubkey ∨ entry = (2, .bytes next.peerPubkey) := by
  have hreturn : ∀ {α : Type} {first : Option α} {f : α → ContentMessage},
      (first >>= fun read ↦ pure (f read)) = some next → ∃ read, f read = next := by
    intro α first f hbind
    obtain ⟨read, -, hread⟩ := Option.bind_eq_some_iff.mp hbind
    exact ⟨read, Option.some.inj hread⟩
  unfold ContentMessage.set at h
  split at h
  case h_2 =>
    obtain rfl := Option.some.inj h
    exact .inr rfl
  case h_4 =>
    obtain rfl := Option.some.inj h
    exact .inl rfl
  case h_9 =>
    obtain rfl := Option.some.inj h
    exact .inl rfl
  all_goals
    obtain ⟨read, rfl⟩ := hreturn h
    exact .inl rfl

/-- The key of a content is one of the byte strings that were read for its field. -/
theorem peerPubkey_of_foldlM {read : List (ℕ × Value)} {message result : ContentMessage}
    (h : read.foldlM ContentMessage.set message = some result) :
    result.peerPubkey = message.peerPubkey ∨ (2, .bytes result.peerPubkey) ∈ read := by
  induction read generalizing message with
  | nil => exact .inl (congrArg ContentMessage.peerPubkey (Option.some.inj h)).symm
  | cons entry read ih =>
    rw [List.foldlM_cons, Option.bind_eq_bind, Option.bind_eq_some_iff] at h
    obtain ⟨next, hnext, hrest⟩ := h
    rcases ih hrest with heq | hmem
    · rw [heq]
      rcases ContentMessage.peerPubkey_of_set hnext with hkept | rfl
      · exact .inl hkept
      · exact .inr List.mem_cons_self
    · exact .inr (List.mem_cons_of_mem _ hmem)

/-- The label of a proof of key control, read as a message, is three fields of four bytes. -/
theorem fields_proof {nonce : Bytes} {read : List (ℕ × Value)} (hlength : nonce.length = certNonceSize)
    (hread : fields (ascii certProofLabel ++ nonce) = some read) :
    ∃ rest, fields (nonce.drop 2) = some rest ∧
      ∀ bytes, (2, .bytes bytes) ∈ read → (2, .bytes bytes) ∈ rest := by
  obtain ⟨first, second, others, rfl⟩ : ∃ first second others, nonce = first :: second :: others := by
    cases nonce with
    | nil => cases hlength
    | cons first rest =>
      cases rest with
      | nil => cases hlength
      | cons second others => exact ⟨first, second, others, rfl⟩
  have hthree : fields (ascii certProofLabel ++ first :: second :: others) =
      (fields others).map fun rest ↦ (13, .fixed32 (ascii "osey")) :: (5, .fixed32 (ascii "cert")) ::
        (5, .fixed32 (ascii "v1" ++ [first, second])) :: rest := by
    have hfirst : ∀ rest, fields (0x6d :: (ascii "osey" ++ rest)) =
        (fields rest).map ((13, .fixed32 (ascii "osey")) :: ·) := fun _ ↦ fields_fixed32 rfl rfl
    have hsecond : ∀ rest, fields (0x2d :: (ascii "cert" ++ rest)) =
        (fields rest).map ((5, .fixed32 (ascii "cert")) :: ·) := fun _ ↦ fields_fixed32 rfl rfl
    have hthird : fields (0x2d :: (ascii "v1" ++ [first, second] ++ others)) =
        (fields others).map ((5, .fixed32 (ascii "v1" ++ [first, second])) :: ·) := fields_fixed32 rfl rfl
    have hsplit : ascii certProofLabel ++ first :: second :: others =
        0x6d :: (ascii "osey" ++ 0x2d :: (ascii "cert" ++ 0x2d ::
          (ascii "v1" ++ [first, second] ++ others))) := rfl
    rw [hsplit, hfirst, hsecond, hthird, Option.map_map, Option.map_map]
    rfl
  rw [hthree] at hread
  obtain ⟨rest, hrest, rfl⟩ := Option.map_eq_some_iff.mp hread
  refine ⟨rest, hrest, fun bytes hmem ↦ ?_⟩
  simpa using hmem

/-- What a proof signs, read as a content, has no key of the right size. -/
theorem decodeContent_proof {nonce : Bytes} {content : SignedCertContent}
    (hlength : nonce.length = certNonceSize)
    (hcontent : decodeContent (ascii certProofLabel ++ nonce) = some content) :
    content.peerPubkey.length ≠ publicKeySize := by
  obtain ⟨read, hread, hcontent⟩ := Option.bind_eq_some_iff.mp hcontent
  obtain ⟨message, hmessage, hcontent⟩ := Option.bind_eq_some_iff.mp hcontent
  obtain rfl := Option.some.inj hcontent
  obtain ⟨rest, hrest, hkeys⟩ := fields_proof hlength hread
  change message.peerPubkey.length ≠ 32
  rcases peerPubkey_of_foldlM hmessage with hempty | hmem
  · rw [hempty]
    decide
  · have hshort := length_lt_of_mem_fields hrest (hkeys _ hmem)
    rw [List.length_drop, hlength, certNonceSize] at hshort
    omega

/-- A runtime that unmarshals what the wire format allows, and marshals nothing. -/
def readingRuntime : Runtime where
  marshal _ := .error "proto: not available"
  unmarshal bytes :=
    match decodeContent bytes with
    | some content => .ok content
    | none => .error "proto: cannot parse invalid wire-format data"
  formatLocal := formatRFC3339
  unmarshal_marshal := by
    intro content bytes h
    cases h
  head_marshal := by
    intro content bytes h
    cases h
  unmarshal_proof := by
    intro nonce content hlength h
    split at h
    · next hdecode => exact decodeContent_proof hlength (Except.ok.inj h ▸ hdecode)
    · cases h

theorem toOption_unmarshal (bytes : Bytes) :
    (readingRuntime.unmarshal bytes).toOption = decodeContent bytes := by
  simp only [readingRuntime]
  split
  · next hdecode => exact hdecode.symm
  · next hdecode => exact hdecode.symm

end Mosey.Cert

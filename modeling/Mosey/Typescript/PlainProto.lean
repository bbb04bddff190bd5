import Mosey.Cert.Content
import Mosey.Typescript.Wire

/-!
# A protobuf library

The laws that are taken from the server's library are those of a small one: it writes every field, and it reads
encodings and nothing else.
-/

namespace Mosey.Typescript

open Library Auth

/-- A length that cannot be read is waited for. -/
def readDelimited {Message : Type} (unmarshal : Bytes → Option Message) (input : Bytes) : Delimited Message :=
  match Proto3.varint input with
  | none => .incomplete
  | some (size, rest) =>
    if rest.length < size then .incomplete
    else
      match unmarshal (rest.take size) with
      | some message => .complete message (rest.drop size)
      | none => .invalid "proto: cannot parse invalid wire-format data"

theorem varintFrom_append {shift value result : ℕ} {input rest : Bytes}
    (h : Proto3.varintFrom shift value input = some (result, rest)) (more : Bytes) :
    Proto3.varintFrom shift value (input ++ more) = some (result, rest ++ more) := by
  induction input generalizing shift value with
  | nil => cases h
  | cons byte input ih =>
    simp only [List.cons_append, Proto3.varintFrom] at h ⊢
    split_ifs at h ⊢ with hlast hvalue hshift
    · obtain ⟨rfl, rfl⟩ := Prod.mk.inj (Option.some.inj h)
      rfl
    · exact ih h

section Delimited

variable {Message : Type} {unmarshal : Bytes → Option Message} {message : Message} {input rest : Bytes}

/-- What arrives later is behind what was read. -/
def readBehind (more : Bytes) : Delimited Message → Delimited Message
  | .complete message rest => .complete message (rest ++ more)
  | .invalid err => .invalid err
  | .incomplete => .incomplete

/-- Bytes behind a message that can be read do not change it. -/
theorem readDelimited_append (hread : readDelimited unmarshal input ≠ .incomplete) (more : Bytes) :
    readDelimited unmarshal (input ++ more) = readBehind more (readDelimited unmarshal input) := by
  unfold readDelimited at hread ⊢
  cases hvarint : Proto3.varint input with
  | none =>
    rw [hvarint] at hread
    exact absurd rfl hread
  | some found =>
    obtain ⟨size, others⟩ := found
    have happended : Proto3.varint (input ++ more) = some (size, others ++ more) :=
      varintFrom_append hvarint more
    rw [hvarint] at hread
    rw [happended]
    dsimp only at hread ⊢
    by_cases hcut : others.length < size
    · rw [if_pos hcut] at hread
      exact absurd rfl hread
    · have hle := Nat.le_of_not_lt hcut
      have hlonger : ¬(others ++ more).length < size := by
        rw [List.length_append]
        omega
      rw [if_neg hcut, if_neg hlonger, List.take_append_of_le_length hle, List.drop_append_of_le_length hle]
      cases unmarshal (others.take size) with
      | none | some => rfl

theorem length_lt_of_readDelimited (hread : readDelimited unmarshal input = .complete message rest) :
    rest.length < input.length := by
  unfold readDelimited at hread
  cases hvarint : Proto3.varint input with
  | none =>
    rw [hvarint] at hread
    cases hread
  | some found =>
    obtain ⟨size, others⟩ := found
    have hshorter := (Proto3.varintFrom_suffix hvarint).2
    rw [hvarint] at hread
    dsimp only at hread
    split_ifs at hread
    cases hbody : unmarshal (others.take size) with
    | none =>
      rw [hbody] at hread
      cases hread
    | some found =>
      rw [hbody] at hread
      obtain ⟨-, rfl⟩ := Delimited.complete.inj hread
      rw [List.length_drop]
      omega

theorem readDelimited_framed {body : Bytes} (hread : unmarshal body = some message)
    (hsize : body.length ≤ maxMessageSize) (rest : Bytes) :
    readDelimited unmarshal (framed body ++ rest) = .complete message rest := by
  have hlength : body.length < 2 ^ 64 := hsize.trans_lt (by decide)
  rw [readDelimited, framed, List.append_assoc, Proto3.varint_encode hlength]
  dsimp only
  rw [if_neg (by simp), List.take_left, List.drop_left, hread]

/-- A library from a writer and a reader of messages. -/
def plainProtodelim {Encodes : Message → Bytes → Prop} (marshal : Message → Bytes)
    (unmarshal : Bytes → Option Message)
    (hmarshal : ∀ {message body}, Encodes message body → Encodes message (marshal message))
    (hunmarshal : ∀ {message body}, Encodes message body → body.length ≤ maxMessageSize →
      unmarshal body = some message) : Protodelim Message Encodes where
  marshal := marshal
  marshalTo message := framed (marshal message)
  unmarshalFrom := readDelimited unmarshal
  encodes_marshal := hmarshal
  marshalTo_eq _ := rfl
  unmarshalFrom_nil := rfl
  unmarshalFrom_framed hencodes hsize := readDelimited_framed (hunmarshal hencodes hsize) hsize
  length_lt_of_complete := length_lt_of_readDelimited
  complete_append hread more := by
    rw [readDelimited_append (by simp [hread]), hread]
    rfl
  invalid_append hread more := by
    rw [readDelimited_append (by simp [hread]), hread]
    rfl

end Delimited

/-! ## The messages -/

def marshalPair (first second : Bytes) : Bytes := marshalFields [(1, first), (2, second)]

/-- Two fields written one after the other encode the pair. -/
theorem encodesPair_marshalPair (first second : Bytes) :
    EncodesPair first second (marshalPair first second) :=
  ⟨_, _, .inl rfl, .inl rfl, rfl⟩

/-- The bytes of the field, or none if it is left out. -/
def fieldOf (number : ℕ) (read : List (ℕ × Proto3.Value)) : Bytes :=
  match read.find? (·.1 = number) with
  | some (_, .bytes bytes) => bytes
  | _ => []

/-- The fields of an encoding are small in number and length. -/
theorem fields_marshalFields {entries : List (ℕ × Bytes)}
    (hnumbers : ∀ entry ∈ entries, 1 ≤ entry.1 ∧ entry.1 < 15)
    (hsize : (marshalFields entries).length ≤ maxMessageSize) :
    Proto3.fields (marshalFields entries) = some (entries.map fun entry ↦ (entry.1, .bytes entry.2)) := by
  rw [marshalFields_eq_wire fun entry hmem ↦ (hnumbers entry hmem).2] at hsize ⊢
  refine fields_wire (fun entry hmem ↦ ?_) (fun entry hmem ↦ ?_)
  · obtain ⟨hone, hlt⟩ := hnumbers entry hmem
    exact ⟨hone, hlt.trans (by decide)⟩
  · calc entry.2.length ≤ (wire entries).length := length_le_wire hmem
      _ ≤ maxMessageSize := hsize
      _ < 2 ^ 64 := by decide

def readPair (body : Bytes) : Option (Bytes × Bytes) := do
  let read ← Proto3.fields body
  return (fieldOf 1 read, fieldOf 2 read)

theorem readPair_of_encodesPair {first second body : Bytes} (hbody : EncodesPair first second body)
    (hsize : body.length ≤ maxMessageSize) : readPair body = some (first, second) := by
  obtain ⟨firstEntries, secondEntries, hfirst, hsecond, rfl⟩ := hbody
  have hnumbers := List.forall_mem_append.mpr
    ⟨numbers_of_written hfirst (by decide) (by decide), numbers_of_written hsecond (by decide) (by decide)⟩
  rw [readPair, fields_marshalFields hnumbers hsize]
  rcases hfirst with rfl | ⟨rfl, rfl⟩ <;> rcases hsecond with rfl | ⟨rfl, rfl⟩ <;> rfl

def readSingle (body : Bytes) : Option Bytes := do
  let read ← Proto3.fields body
  return fieldOf 1 read

theorem readSingle_of_written {bytes : Bytes} {entries : List (ℕ × Bytes)}
    (hwritten : Written 1 bytes entries)
    (hsize : (marshalFields entries).length ≤ maxMessageSize) :
    readSingle (marshalFields entries) = some bytes := by
  have hnumbers := numbers_of_written hwritten (by decide) (by decide)
  rw [readSingle, fields_marshalFields hnumbers hsize]
  rcases hwritten with rfl | ⟨rfl, rfl⟩ <;> rfl

/-- The variant of a oneof, with its number. -/
def readVariant (body : Bytes) : Option (ℕ × Bytes) :=
  match Proto3.fields body with
  | some [] => some (0, [])
  | some [(number, .bytes inner)] => some (number, inner)
  | _ => none

theorem readVariant_marshalFields {number : ℕ} {inner : Bytes} (hone : 1 ≤ number) (hlt : number < 15)
    (hsize : (marshalFields [(number, inner)]).length ≤ maxMessageSize) :
    readVariant (marshalFields [(number, inner)]) = some (number, inner) := by
  rw [readVariant, fields_marshalFields (by simpa using ⟨hone, hlt⟩) hsize]
  rfl

def marshalAuth : Auth.AuthMessage Bytes → Bytes
  | .clientHello nonce label => marshalFields [(1, marshalPair nonce (Utf8.encode label.toList))]
  | .serverProof nonce mac => marshalFields [(2, marshalPair nonce mac)]
  | .clientProof mac => marshalFields [(3, marshalFields [(1, mac)])]
  | .unset => []

def unmarshalAuth (body : Bytes) : Option (Auth.AuthMessage Bytes) := do
  let (number, inner) ← readVariant body
  match number with
  | 0 => return .unset
  | 1 =>
    let hello ← readPair inner
    let label ← Cert.utf8String hello.2
    return .clientHello hello.1 label
  | 2 =>
    let proof ← readPair inner
    return .serverProof proof.1 proof.2
  | 3 =>
    let mac ← readSingle inner
    return .clientProof mac
  | _ => none

theorem utf8String_encode (label : String) : Cert.utf8String (Utf8.encode label.toList) = some label := by
  rw [Cert.utf8String, Utf8.decode_encode, if_pos rfl, String.ofList_toList]

theorem encodes_marshalAuth {message : Auth.AuthMessage Bytes} {body : Bytes}
    (hencodes : Auth.AuthMessage.Encodes message body) :
    Auth.AuthMessage.Encodes message (marshalAuth message) := by
  cases hencodes with
  | clientHello => exact .clientHello (encodesPair_marshalPair _ _)
  | serverProof => exact .serverProof (encodesPair_marshalPair _ _)
  | clientProof => exact .clientProof (.inl rfl)
  | unset => exact .unset

/-- Every encoding of a message of the shared-secret handshake is read back. -/
theorem unmarshalAuth_of_encodes {message : Auth.AuthMessage Bytes} {body : Bytes}
    (hencodes : Auth.AuthMessage.Encodes message body) (hsize : body.length ≤ maxMessageSize) :
    unmarshalAuth body = some message := by
  cases hencodes with
  | clientHello hinner =>
    have hfits := (length_le_marshalFields _ _).trans hsize
    simp [unmarshalAuth, readVariant_marshalFields _ _ hsize, readPair_of_encodesPair hinner hfits,
      utf8String_encode]
  | serverProof hinner =>
    have hfits := (length_le_marshalFields _ _).trans hsize
    simp [unmarshalAuth, readVariant_marshalFields _ _ hsize, readPair_of_encodesPair hinner hfits]
  | clientProof hmac =>
    have hfits := (length_le_marshalFields _ _).trans hsize
    simp [unmarshalAuth, readVariant_marshalFields _ _ hsize, readSingle_of_written hmac hfits]
  | unset => rfl

def plainAuthCodec : AuthCodec :=
  plainProtodelim marshalAuth unmarshalAuth encodes_marshalAuth unmarshalAuth_of_encodes

def marshalCert : Auth.CertHandshakeMessage Bytes → Bytes
  | .hello (some cert) nonce =>
    marshalFields [(1, marshalPair (marshalPair cert.content cert.signature) nonce)]
  | .proof signature => marshalFields [(2, marshalFields [(1, signature)])]
  | .hello none _ | .unset => []

def unmarshalCert (body : Bytes) : Option (Auth.CertHandshakeMessage Bytes) := do
  let (number, inner) ← readVariant body
  match number with
  | 1 =>
    let hello ← readPair inner
    let cert ← readPair hello.1
    return .hello (some ⟨cert.1, cert.2⟩) hello.2
  | 2 =>
    let signature ← readSingle inner
    return .proof signature
  | _ => none

theorem encodes_marshalCert {message : Auth.CertHandshakeMessage Bytes} {body : Bytes}
    (hencodes : Auth.CertHandshakeMessage.Encodes message body) :
    Auth.CertHandshakeMessage.Encodes message (marshalCert message) := by
  cases hencodes with
  | hello => exact .hello (encodesPair_marshalPair _ _) (.inl rfl)
  | proof => exact .proof (.inl rfl)

/-- Every encoding of a message of the certificate handshake is read back. -/
theorem unmarshalCert_of_encodes {message : Auth.CertHandshakeMessage Bytes} {body : Bytes}
    (hencodes : Auth.CertHandshakeMessage.Encodes message body) (hsize : body.length ≤ maxMessageSize) :
    unmarshalCert body = some message := by
  cases hencodes with
  | @hello cert nonce signed entries hcert hnonce =>
    have hfits := (length_le_marshalFields _ _).trans hsize
    have hpair : EncodesPair signed nonce (marshalFields ((1, signed) :: entries)) :=
      ⟨[(1, signed)], entries, .inl rfl, hnonce, rfl⟩
    have hsigned := (length_le_of_mem_marshalFields List.mem_cons_self).trans hfits
    simp [unmarshalCert, readVariant_marshalFields _ _ hsize, readPair_of_encodesPair hpair hfits,
      readPair_of_encodesPair hcert hsigned]
  | proof hsignature =>
    have hfits := (length_le_marshalFields _ _).trans hsize
    simp [unmarshalCert, readVariant_marshalFields _ _ hsize, readSingle_of_written hsignature hfits]

def plainCertCodec : CertCodec :=
  plainProtodelim marshalCert unmarshalCert encodes_marshalCert unmarshalCert_of_encodes

def marshalWallet : Auth.WalletHandshakeMessage Bytes → Bytes
  | .hello clientPubkey nonceC chain =>
    marshalFields [(1, marshalFields ([(1, clientPubkey)] ++ [(2, nonceC)] ++
      (chain.map fun delegation ↦ marshalPair delegation.content delegation.signature).map fun body ↦
        (3, body)))]
  | .challenge sessionKey nonceS serverSig =>
    marshalFields [(2, marshalFields [(1, sessionKey), (2, nonceS), (3, serverSig)])]
  | .proof clientSig => marshalFields [(3, marshalFields [(1, clientSig)])]
  | .unset | .delegation _ => []

def delegationOf : ℕ × Proto3.Value → Option Bytes
  | (3, .bytes body) => some body
  | _ => none

def unmarshalWallet (body : Bytes) : Option (Auth.WalletHandshakeMessage Bytes) := do
  let (number, inner) ← readVariant body
  match number with
  | 0 => return .unset
  | 1 =>
    let read ← Proto3.fields inner
    let chain ← (read.filterMap delegationOf).mapM readPair
    return .hello (fieldOf 1 read) (fieldOf 2 read) (chain.map fun signed ↦ ⟨signed.1, signed.2⟩)
  | 2 =>
    let read ← Proto3.fields inner
    return .challenge (fieldOf 1 read) (fieldOf 2 read) (fieldOf 3 read)
  | 3 =>
    let clientSig ← readSingle inner
    return .proof clientSig
  | _ => none

theorem mapM_readPair {chain : List (Wallet.Delegation Bytes)} {bodies : List Bytes}
    (hchain : chain.Forall₂ (fun delegation ↦ EncodesPair delegation.content delegation.signature) bodies)
    (hsizes : ∀ body ∈ bodies, body.length ≤ maxMessageSize) :
    bodies.mapM readPair = some (chain.map fun delegation ↦ (delegation.content, delegation.signature)) := by
  induction hchain with
  | nil => rfl
  | cons hbody _ ih =>
    obtain ⟨hsize, hsizes⟩ := List.forall_mem_cons.mp hsizes
    rw [List.mapM_cons, readPair_of_encodesPair hbody hsize, ih hsizes]
    rfl

/-- What is read of a hello: the two fields and the delegations behind them. -/
theorem read_walletHello {clientPubkey nonceC : Bytes} {keys nonces : List (ℕ × Bytes)}
    (hkey : Written 1 clientPubkey keys) (hnonce : Written 2 nonceC nonces) (bodies : List Bytes) :
    let read := (keys ++ nonces ++ bodies.map fun body ↦ (3, body)).map fun entry : ℕ × Bytes ↦
      (entry.1, Proto3.Value.bytes entry.2)
    fieldOf 1 read = clientPubkey ∧ fieldOf 2 read = nonceC ∧ read.filterMap delegationOf = bodies := by
  have hother {number : ℕ} (hnumber : number ≠ 3) : (bodies.map fun body ↦ (3, Proto3.Value.bytes body)).find?
      (fun entry ↦ entry.1 = number) = none := by
    rw [List.find?_eq_none]
    simp [hnumber.symm]
  have hbodies : (bodies.map fun body ↦ (3, Proto3.Value.bytes body)).filterMap delegationOf = bodies := by
    rw [List.filterMap_map]
    exact List.filterMap_some
  have hone := hother (by decide : 1 ≠ 3)
  have htwo := hother (by decide : 2 ≠ 3)
  rcases hkey with rfl | ⟨rfl, rfl⟩ <;> rcases hnonce with rfl | ⟨rfl, rfl⟩ <;>
    simp [fieldOf, delegationOf, Function.comp_def, hone, htwo, hbodies]

theorem encodes_marshalWallet {message : Auth.WalletHandshakeMessage Bytes} {body : Bytes}
    (hencodes : Auth.WalletHandshakeMessage.Encodes message body) :
    Auth.WalletHandshakeMessage.Encodes message (marshalWallet message) := by
  cases hencodes with
  | @hello _ _ chain =>
    refine .hello (.inl rfl) (.inl rfl) ?_
    rw [List.forall₂_map_right_iff, List.forall₂_same]
    exact fun delegation _ ↦ encodesPair_marshalPair _ _
  | challenge => exact .challenge (.inl rfl) (.inl rfl) (.inl rfl)
  | proof => exact .proof (.inl rfl)
  | unset => exact .unset

/-- Every encoding of a message of the wallet handshake is read back. -/
theorem unmarshalWallet_of_encodes {message : Auth.WalletHandshakeMessage Bytes} {body : Bytes}
    (hencodes : Auth.WalletHandshakeMessage.Encodes message body) (hsize : body.length ≤ maxMessageSize) :
    unmarshalWallet body = some message := by
  cases hencodes with
  | @hello clientPubkey nonceC chain keys nonces bodies hkey hnonce hchain =>
    have hfits := (length_le_marshalFields _ _).trans hsize
    have hnumbers : ∀ entry ∈ keys ++ nonces ++ bodies.map (fun body ↦ (3, body)),
        1 ≤ entry.1 ∧ entry.1 < 15 :=
      List.forall_mem_append.mpr ⟨List.forall_mem_append.mpr ⟨numbers_of_written hkey (by decide) (by decide),
        numbers_of_written hnonce (by decide) (by decide)⟩, by simp⟩
    have hsizes : ∀ body ∈ bodies, body.length ≤ maxMessageSize := by
      intro body hmem
      have hentry : (3, body) ∈ keys ++ nonces ++ bodies.map (fun body ↦ (3, body)) :=
        List.mem_append_right _ (List.mem_map_of_mem hmem)
      exact (length_le_of_mem_marshalFields hentry).trans hfits
    obtain ⟨hone, htwo, hbodies⟩ := read_walletHello hkey hnonce bodies
    rw [unmarshalWallet, readVariant_marshalFields (by decide) (by decide) hsize]
    dsimp only [Option.bind_eq_bind, Option.bind_some]
    rw [fields_marshalFields hnumbers hfits, Option.bind_some, hone, htwo, hbodies,
      mapM_readPair hchain hsizes, Option.bind_some, List.map_map]
    exact congrArg (fun chain ↦ some (Auth.WalletHandshakeMessage.hello clientPubkey nonceC chain))
      (List.map_id chain)
  | challenge hkey hnonce hsignature =>
    have hfits := (length_le_marshalFields _ _).trans hsize
    have hnumbers := List.forall_mem_append.mpr ⟨List.forall_mem_append.mpr
      ⟨numbers_of_written hkey (by decide) (by decide), numbers_of_written hnonce (by decide) (by decide)⟩,
      numbers_of_written hsignature (by decide) (by decide)⟩
    rw [unmarshalWallet, readVariant_marshalFields (by decide) (by decide) hsize]
    dsimp only [Option.bind_eq_bind, Option.bind_some]
    rw [fields_marshalFields hnumbers hfits]
    rcases hkey with rfl | ⟨rfl, rfl⟩ <;> rcases hnonce with rfl | ⟨rfl, rfl⟩ <;>
      rcases hsignature with rfl | ⟨rfl, rfl⟩ <;> rfl
  | proof hsignature =>
    have hfits := (length_le_marshalFields _ _).trans hsize
    simp [unmarshalWallet, readVariant_marshalFields _ _ hsize, readSingle_of_written hsignature hfits]
  | unset => rfl

def plainWalletCodec : WalletCodec :=
  plainProtodelim marshalWallet unmarshalWallet encodes_marshalWallet unmarshalWallet_of_encodes

end Mosey.Typescript

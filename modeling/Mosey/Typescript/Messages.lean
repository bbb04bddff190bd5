import Mosey.Typescript.Varint

/-!
# The handshake messages of the client

A message is written as its fields one behind the other, each with a tag and a length, and a message in
a field is written the same way. The readers go over the fields and keep the last value of each, or all
of them if the field is repeated. What they return holds whatever was in the fields, so a message is
parametrised by what its fields hold: bytes in a message that is written, and any value in one that was
read.
-/

namespace Mosey.Typescript

open Library

structure Cert (Value : Type) where
  content : Value
  signature : Value
  deriving DecidableEq

structure CertHello (Value : Type) where
  cert : Cert Value
  nonce : Value
  deriving DecidableEq

structure SignedNonce (Value : Type) where
  signature : Value
  deriving DecidableEq

structure CertHandshakeMessage (Value : Type) where
  hello : Option (CertHello Value)
  proof : Option (SignedNonce Value)
  deriving DecidableEq

structure Delegation (Value : Type) where
  content : Value
  signature : Value
  deriving DecidableEq

structure WalletHello (Value : Type) where
  clientPubkey : Value
  nonceC : Value
  delegationChain : List (Delegation Value)
  deriving DecidableEq

structure WalletChallenge (Value : Type) where
  sessionKey : Value
  nonceS : Value
  serverSig : Value
  deriving DecidableEq

structure WalletProof (Value : Type) where
  clientSig : Value
  deriving DecidableEq

structure WalletHandshakeMessage (Value : Type) where
  hello : Option (WalletHello Value)
  challenge : Option (WalletChallenge Value)
  proof : Option (WalletProof Value)
  deriving DecidableEq

structure ClientHello (Value : Type) where
  nonce : Value
  label : String
  deriving DecidableEq

structure ServerProof (Value : Type) where
  nonce : Value
  mac : Value
  deriving DecidableEq

structure ClientProof (Value : Type) where
  mac : Value
  deriving DecidableEq

structure AuthMessage (Value : Type) where
  clientHello : Option (ClientHello Value)
  serverProof : Option (ServerProof Value)
  clientProof : Option (ClientProof Value)
  deriving DecidableEq

section

variable {First Second : Type} (f : First → Second)

def Cert.map (cert : Cert First) : Cert Second := ⟨f cert.content, f cert.signature⟩

def CertHello.map (hello : CertHello First) : CertHello Second := ⟨hello.cert.map f, f hello.nonce⟩

def SignedNonce.map (proof : SignedNonce First) : SignedNonce Second := ⟨f proof.signature⟩

def Delegation.map (delegation : Delegation First) : Delegation Second :=
  ⟨f delegation.content, f delegation.signature⟩

def WalletHello.map (hello : WalletHello First) : WalletHello Second :=
  ⟨f hello.clientPubkey, f hello.nonceC, hello.delegationChain.map (Delegation.map f)⟩

def WalletChallenge.map (challenge : WalletChallenge First) : WalletChallenge Second :=
  ⟨f challenge.sessionKey, f challenge.nonceS, f challenge.serverSig⟩

def WalletProof.map (proof : WalletProof First) : WalletProof Second := ⟨f proof.clientSig⟩

end

/-- `new Uint8Array` of more bytes than the engine allows. -/
structure RangeError where
  length : ℕ
  deriving DecidableEq

def concat (engine : Engine) (parts : List Bytes) : Except RangeError Bytes :=
  let total := parts.foldl (fun total part ↦ total + part.length) 0
  if engine.maxLength < total then .error ⟨total⟩ else .ok parts.flatten

def tagBytesField (n : ℕ) : ℕ := n <<< 3 ||| 2

def encodeBytesField (engine : Engine) (field : ℕ) (value : Bytes) : Except RangeError Bytes :=
  concat engine [[UInt8.ofNat (tagBytesField field)], encodeVarint value.length, value]

def encodeCert (engine : Engine) (c : Cert Bytes) : Except RangeError Bytes := do
  let content ← encodeBytesField engine 1 c.content
  let signature ← encodeBytesField engine 2 c.signature
  concat engine [content, signature]

def encodeCertHelloMessage (engine : Engine) (h : CertHello Bytes) : Except RangeError Bytes := do
  let cert ← encodeCert engine h.cert
  let first ← encodeBytesField engine 1 cert
  let second ← encodeBytesField engine 2 h.nonce
  let helloInner ← concat engine [first, second]
  encodeBytesField engine 1 helloInner

def encodeCertProofMessage (engine : Engine) (p : SignedNonce Bytes) : Except RangeError Bytes := do
  let proofInner ← encodeBytesField engine 1 p.signature
  encodeBytesField engine 2 proofInner

def encodeDelegation (engine : Engine) (d : Delegation Bytes) : Except RangeError Bytes := do
  let content ← encodeBytesField engine 1 d.content
  let signature ← encodeBytesField engine 2 d.signature
  concat engine [content, signature]

def encodeWalletHelloMessage (engine : Engine) (h : WalletHello Bytes) : Except RangeError Bytes := do
  let clientPubkey ← encodeBytesField engine 1 h.clientPubkey
  let nonceC ← encodeBytesField engine 2 h.nonceC
  let chain ← h.delegationChain.mapM fun d ↦ do
    let delegation ← encodeDelegation engine d
    encodeBytesField engine 3 delegation
  let inner ← concat engine (clientPubkey :: nonceC :: chain)
  encodeBytesField engine 1 inner

def encodeWalletChallengeMessage (engine : Engine) (c : WalletChallenge Bytes) :
    Except RangeError Bytes := do
  let sessionKey ← encodeBytesField engine 1 c.sessionKey
  let nonceS ← encodeBytesField engine 2 c.nonceS
  let serverSig ← encodeBytesField engine 3 c.serverSig
  let inner ← concat engine [sessionKey, nonceS, serverSig]
  encodeBytesField engine 2 inner

def encodeWalletProofMessage (engine : Engine) (p : WalletProof Bytes) : Except RangeError Bytes := do
  let inner ← encodeBytesField engine 1 p.clientSig
  encodeBytesField engine 3 inner

/-- The loop over the fields of a message. A bigint has no length, so there is nothing to iterate over. -/
def decodeMessage {Message : Type} (engine : Engine) (empty : Message)
    (set : Message → Field → Except DecodeError Message) : JSValue → Except DecodeError Message
  | .bigint _ => .ok empty
  | .bytes buf => (iterFields engine buf).forEach empty set

def decodeCert (engine : Engine) : JSValue → Except DecodeError (Cert JSValue) :=
  decodeMessage engine ⟨.bytes [], .bytes []⟩ fun cert entry ↦
    match entry.field with
    | 1 => .ok { cert with content := entry.value }
    | 2 => .ok { cert with signature := entry.value }
    | _ => .ok cert

def decodeCertHello (engine : Engine) : JSValue → Except DecodeError (CertHello JSValue) :=
  decodeMessage engine ⟨⟨.bytes [], .bytes []⟩, .bytes []⟩ fun hello entry ↦
    match entry.field with
    | 1 => do
      let cert ← decodeCert engine entry.value
      return { hello with cert := cert }
    | 2 => .ok { hello with nonce := entry.value }
    | _ => .ok hello

def decodeSignedNonce (engine : Engine) : JSValue → Except DecodeError (SignedNonce JSValue) :=
  decodeMessage engine ⟨.bytes []⟩ fun proof entry ↦
    match entry.field with
    | 1 => .ok { proof with signature := entry.value }
    | _ => .ok proof

def decodeCertHandshakeMessage (engine : Engine) :
    JSValue → Except DecodeError (CertHandshakeMessage JSValue) :=
  decodeMessage engine ⟨none, none⟩ fun out entry ↦
    match entry.field with
    | 1 => do
      let hello ← decodeCertHello engine entry.value
      return { out with hello := some hello }
    | 2 => do
      let proof ← decodeSignedNonce engine entry.value
      return { out with proof := some proof }
    | _ => .ok out

def decodeDelegation (engine : Engine) : JSValue → Except DecodeError (Delegation JSValue) :=
  decodeMessage engine ⟨.bytes [], .bytes []⟩ fun delegation entry ↦
    match entry.field with
    | 1 => .ok { delegation with content := entry.value }
    | 2 => .ok { delegation with signature := entry.value }
    | _ => .ok delegation

def decodeWalletHello (engine : Engine) : JSValue → Except DecodeError (WalletHello JSValue) :=
  decodeMessage engine ⟨.bytes [], .bytes [], []⟩ fun hello entry ↦
    match entry.field with
    | 1 => .ok { hello with clientPubkey := entry.value }
    | 2 => .ok { hello with nonceC := entry.value }
    | 3 => do
      let delegation ← decodeDelegation engine entry.value
      return { hello with delegationChain := hello.delegationChain ++ [delegation] }
    | _ => .ok hello

def decodeWalletChallenge (engine : Engine) : JSValue → Except DecodeError (WalletChallenge JSValue) :=
  decodeMessage engine ⟨.bytes [], .bytes [], .bytes []⟩ fun challenge entry ↦
    match entry.field with
    | 1 => .ok { challenge with sessionKey := entry.value }
    | 2 => .ok { challenge with nonceS := entry.value }
    | 3 => .ok { challenge with serverSig := entry.value }
    | _ => .ok challenge

def decodeWalletProof (engine : Engine) : JSValue → Except DecodeError (WalletProof JSValue) :=
  decodeMessage engine ⟨.bytes []⟩ fun proof entry ↦
    match entry.field with
    | 1 => .ok { proof with clientSig := entry.value }
    | _ => .ok proof

def decodeWalletHandshakeMessage (engine : Engine) :
    JSValue → Except DecodeError (WalletHandshakeMessage JSValue) :=
  decodeMessage engine ⟨none, none, none⟩ fun out entry ↦
    match entry.field with
    | 1 => do
      let hello ← decodeWalletHello engine entry.value
      return { out with hello := some hello }
    | 2 => do
      let challenge ← decodeWalletChallenge engine entry.value
      return { out with challenge := some challenge }
    | 3 => do
      let proof ← decodeWalletProof engine entry.value
      return { out with proof := some proof }
    | _ => .ok out

def decodeClientHello (engine : Engine) : JSValue → Except DecodeError (ClientHello JSValue) :=
  decodeMessage engine ⟨.bytes [], ""⟩ fun hello entry ↦
    match entry.field with
    | 1 => .ok { hello with nonce := entry.value }
    | 2 => do
      let label ← decodeText entry.value
      return { hello with label := label }
    | _ => .ok hello

def decodeServerProof (engine : Engine) : JSValue → Except DecodeError (ServerProof JSValue) :=
  decodeMessage engine ⟨.bytes [], .bytes []⟩ fun proof entry ↦
    match entry.field with
    | 1 => .ok { proof with nonce := entry.value }
    | 2 => .ok { proof with mac := entry.value }
    | _ => .ok proof

def decodeClientProof (engine : Engine) : JSValue → Except DecodeError (ClientProof JSValue) :=
  decodeMessage engine ⟨.bytes []⟩ fun proof entry ↦
    match entry.field with
    | 1 => .ok { proof with mac := entry.value }
    | _ => .ok proof

inductive AuthError
  | decode (err : DecodeError)
  | unexpectedWireType (field wireType : ℕ)
  deriving DecidableEq

/-- The cases of `decodeAuthMessage`. -/
def AuthMessage.set (engine : Engine) (out : AuthMessage JSValue) (entry : Field) :
    Except DecodeError (AuthMessage JSValue) :=
  match entry.field with
  | 1 => do
    let hello ← decodeClientHello engine entry.value
    return { out with clientHello := some hello }
  | 2 => do
    let proof ← decodeServerProof engine entry.value
    return { out with serverProof := some proof }
  | 3 => do
    let proof ← decodeClientProof engine entry.value
    return { out with clientProof := some proof }
  | _ => .ok out

/-- The loop of `decodeAuthMessage`, which does not use `iterFields`. A slice ends where the buffer does. -/
def decodeAuthMessageFrom (engine : Engine) (buf : Bytes) :
    ℕ → ℕ → AuthMessage JSValue → Except AuthError (AuthMessage JSValue)
  | 0, _, out => .ok out
  | fuel + 1, off, out =>
    if off < buf.length then
      match decodeVarint buf off with
      | .error err => .error (.decode err)
      | .ok (tag, tn) =>
        let off := off + tn
        let fieldNum := numberOf (tag >>> 3)
        let wireType := tag &&& 0x7
        if wireType ≠ 2 then .error (.unexpectedWireType fieldNum wireType)
        else
          match decodeVarint buf off with
          | .error err => .error (.decode err)
          | .ok (len, ln) =>
            let off := off + ln
            let length := numberOf len
            let body := (buf.drop off).take length
            match out.set engine ⟨fieldNum, .bytes body⟩ with
            | .error err => .error (.decode err)
            | .ok out => decodeAuthMessageFrom engine buf fuel (off + length) out
    else .ok out

def decodeAuthMessage (engine : Engine) (buf : Bytes) : Except AuthError (AuthMessage JSValue) :=
  decodeAuthMessageFrom engine buf buf.length 0 ⟨none, none, none⟩

/-- Fields one behind the other. -/
def wire (entries : List (ℕ × Bytes)) : Bytes :=
  entries.flatMap fun entry ↦
    UInt8.ofNat (entry.1 * 8 + 2) :: (Varint.encode entry.2.length ++ entry.2)

/-- On the wire a field is its key, its length and its bytes. -/
theorem wire_cons (number : ℕ) (bytes : Bytes) (entries : List (ℕ × Bytes)) :
    wire ((number, bytes) :: entries) =
      UInt8.ofNat (number * 8 + 2) :: (Varint.encode bytes.length ++ (bytes ++ wire entries)) := by
  rw [wire, List.flatMap_cons, List.cons_append, List.append_assoc, wire]

theorem wire_append (first second : List (ℕ × Bytes)) :
    wire (first ++ second) = wire first ++ wire second :=
  List.flatMap_append

variable {entries : List (ℕ × Bytes)} {Message : Type}

theorem length_le_wire {number : ℕ} {bytes : Bytes} (hmem : (number, bytes) ∈ entries) :
    bytes.length ≤ (wire entries).length := by
  obtain ⟨before, after, rfl⟩ := List.append_of_mem hmem
  rw [wire_append, wire_cons]
  simp only [List.length_append, List.length_cons]
  omega

theorem length_part_le_wire {entry : ℕ × Bytes} (hmem : entry ∈ entries) :
    (wire [entry]).length ≤ (wire entries).length := by
  obtain ⟨before, after, rfl⟩ := List.append_of_mem hmem
  have hsplit : before ++ entry :: after = before ++ ([entry] ++ after) := rfl
  rw [hsplit, wire_append, wire_append, List.length_append, List.length_append]
  omega

theorem flatten_parts (entries : List (ℕ × Bytes)) :
    (entries.map fun entry ↦ wire [entry]).flatten = wire entries := by
  induction entries with
  | nil => rfl
  | cons entry entries ih =>
    rw [List.map_cons, List.flatten_cons, ih, ← wire_append]
    rfl

/-- The bytes are written unless the engine has no array for them. -/
def Writes (engine : Engine) (encoded : Except RangeError Bytes) (bytes : Bytes) : Prop :=
  (bytes.length ≤ engine.maxLength ∧ encoded = .ok bytes) ∨
    (engine.maxLength < bytes.length ∧ ∃ err, encoded = .error err ∧ engine.maxLength < err.length)

variable {engine : Engine}

/-- What is too long inside is too long outside. -/
theorem Writes.bind {first : Except RangeError Bytes} {next : Bytes → Except RangeError Bytes}
    {inner outer : Bytes} (hfirst : Writes engine first inner) (hle : inner.length ≤ outer.length)
    (hnext : Writes engine (next inner) outer) : Writes engine (first >>= next) outer := by
  rcases hfirst with ⟨-, rfl⟩ | ⟨hlong, err, rfl, herr⟩
  · exact hnext
  · exact .inr ⟨hlong.trans_le hle, err, rfl, herr⟩

/-- Concatenation writes its parts in order. -/
theorem writes_concat (engine : Engine) (parts : List Bytes) :
    Writes engine (concat engine parts) parts.flatten := by
  have htotal (start : ℕ) :
      parts.foldl (fun total part ↦ total + part.length) start = start + parts.flatten.length := by
    induction parts generalizing start with
    | nil => rfl
    | cons part parts ih =>
      rw [List.foldl_cons, ih, List.flatten_cons, List.length_append, Nat.add_assoc]
  rw [concat, htotal, Nat.zero_add]
  by_cases hlong : engine.maxLength < parts.flatten.length
  · exact .inr ⟨hlong, _, if_pos hlong, hlong⟩
  · exact .inl ⟨Nat.le_of_not_lt hlong, if_neg hlong⟩

theorem writes_concat_parts (engine : Engine) (entries : List (ℕ × Bytes)) :
    Writes engine (concat engine (entries.map fun entry ↦ wire [entry])) (wire entries) := by
  rw [← flatten_parts]
  exact writes_concat engine _

theorem writes_bytesField (engine : Engine) (field : ℕ) (value : Bytes) :
    Writes engine (encodeBytesField engine field value) (wire [(field, value)]) := by
  have htag : tagBytesField field = field * 8 + 2 := by
    rw [tagBytesField, Nat.or_comm, Varint.or_shift_eq (by decide)]
    exact Nat.add_comm 2 (field * 8)
  have hwritten := writes_concat engine
    [[UInt8.ofNat (tagBytesField field)], encodeVarint value.length, value]
  rw [htag, encodeVarint_eq_encode] at hwritten
  rw [encodeBytesField, htag, encodeVarint_eq_encode]
  simpa [wire] using hwritten

/-- Parts that are written one after the other. -/
theorem mapM_writes {Element : Type} {encode : Element → Except RangeError Bytes} {form : Element → Bytes}
    (hencode : ∀ element, Writes engine (encode element) (form element)) (elements : List Element) :
    elements.mapM encode = .ok (elements.map form) ∨
      (engine.maxLength < (elements.map form).flatten.length ∧
        ∃ err, elements.mapM encode = .error err ∧ engine.maxLength < err.length) := by
  induction elements with
  | nil => exact .inl rfl
  | cons element elements ih =>
    rw [List.mapM_cons, List.map_cons, List.flatten_cons, List.length_append]
    rcases hencode element with ⟨-, hfirst⟩ | ⟨hlong, err, hfirst, herr⟩
    · rcases ih with hrest | ⟨hlong, err, hrest, herr⟩
      · exact .inl (by rw [hfirst, hrest]; rfl)
      · exact .inr ⟨Nat.lt_add_left _ hlong, err, by rw [hfirst, hrest]; rfl, herr⟩
    · exact .inr ⟨Nat.lt_add_right _ hlong, err, by rw [hfirst]; rfl, herr⟩

/-! ## What is read back -/

/-- The fields of a message are read back from its wire form. -/
theorem fields_wire (hnumbers : ∀ entry ∈ entries, 1 ≤ entry.1 ∧ entry.1 < 16)
    (hlengths : ∀ entry ∈ entries, entry.2.length < 2 ^ 64) :
    Proto3.fields (wire entries) = some (entries.map fun entry ↦ (entry.1, .bytes entry.2)) := by
  induction entries with
  | nil => rfl
  | cons entry entries ih =>
    obtain ⟨hnumber, hnumbers⟩ := List.forall_mem_cons.mp hnumbers
    obtain ⟨hlength, hlengths⟩ := List.forall_mem_cons.mp hlengths
    rw [wire_cons, Proto3.fields_bytes hnumber.1 hnumber.2 hlength, ih hnumbers hlengths]
    rfl

/-- A reader is given the fields in the order in which they were written. -/
theorem decodeMessage_wire {empty : Message} {set : Message → Field → Except DecodeError Message}
    (hnumbers : ∀ entry ∈ entries, 1 ≤ entry.1 ∧ entry.1 < 16)
    (hfits : (wire entries).length ≤ engine.maxLength) :
    decodeMessage engine empty set (.bytes (wire entries)) =
      (entries.map fun entry ↦ ⟨entry.1, .bytes entry.2⟩).foldlM set empty := by
  have hlengths : ∀ entry ∈ entries, entry.2.length < 2 ^ 64 := fun entry hmem ↦
    calc entry.2.length ≤ (wire entries).length := length_le_wire hmem
      _ ≤ engine.maxLength := hfits
      _ < 2 ^ 53 := engine.maxLength_lt
      _ < 2 ^ 64 := by decide
  have hseen : Sees (entries.map fun entry ↦ (entry.1, .bytes entry.2))
      (entries.map fun entry ↦ ⟨entry.1, .bytes entry.2⟩) := by
    rw [Sees, List.forall₂_map_left_iff, List.forall₂_map_right_iff, List.forall₂_same]
    exact fun entry _ ↦ rfl
  rw [decodeMessage, iterFields_eq hfits (fields_wire hnumbers hlengths) hseen, Generated.forEach_done]

/-- A message is written in this form whenever the engine has an array for the form, and what is written is
read back as the message. -/
structure RoundTrips {Message : Type} (engine : Engine) (encoded : Except RangeError Bytes) (form : Bytes)
    (decode : JSValue → Except DecodeError Message) (message : Message) : Prop where
  writes : Writes engine encoded form
  reads_back : ∀ buf, encoded = .ok buf → decode (.bytes buf) = .ok message

/-- What is written and can be decoded from its wire form makes a round trip. -/
theorem Writes.roundTrips {encoded : Except RangeError Bytes} {form : Bytes}
    {decode : JSValue → Except DecodeError Message} {message : Message}
    (hwrites : Writes engine encoded form)
    (hdecode : form.length ≤ engine.maxLength → decode (.bytes form) = .ok message) :
    RoundTrips engine encoded form decode message := by
  refine ⟨hwrites, ?_⟩
  intro buf hbuf
  rcases hwrites with ⟨hfits, hform⟩ | ⟨-, err, herr, -⟩
  · obtain rfl := Except.ok.inj (hform.symm.trans hbuf)
    exact hdecode hfits
  · cases herr.symm.trans hbuf

/-- Two fields of bytes, as in a certificate and in a delegation. -/
theorem writes_pair (engine : Engine) (first second : Bytes) :
    Writes engine (do
      let first ← encodeBytesField engine 1 first
      let second ← encodeBytesField engine 2 second
      concat engine [first, second]) (wire [(1, first), (2, second)]) := by
  refine (writes_bytesField engine 1 _).bind (length_part_le_wire (by simp)) ?_
  refine (writes_bytesField engine 2 _).bind (length_part_le_wire (by simp)) ?_
  exact writes_concat_parts engine [_, _]

/-- A message of two fields of bytes is read by setting them in order. -/
theorem decodeMessage_pair {empty : Message} {set : Message → Field → Except DecodeError Message}
    {first second : Bytes} (hfits : (wire [(1, first), (2, second)]).length ≤ engine.maxLength) :
    decodeMessage engine empty set (.bytes (wire [(1, first), (2, second)])) =
      [⟨1, .bytes first⟩, ⟨2, .bytes second⟩].foldlM set empty :=
  decodeMessage_wire (by simp) hfits

def certWire (cert : Cert Bytes) : Bytes := wire [(1, cert.content), (2, cert.signature)]

def certHelloWire (hello : CertHello Bytes) : Bytes := wire [(1, certWire hello.cert), (2, hello.nonce)]

theorem writes_cert (engine : Engine) (cert : Cert Bytes) :
    Writes engine (encodeCert engine cert) (certWire cert) :=
  writes_pair engine cert.content cert.signature

theorem decodeCert_wire {cert : Cert Bytes} (hfits : (certWire cert).length ≤ engine.maxLength) :
    decodeCert engine (.bytes (certWire cert)) = .ok (cert.map .bytes) :=
  decodeMessage_pair hfits

/-- A hello of the certificate handshake is written as its wire form. -/
theorem writes_certHelloMessage (engine : Engine) (hello : CertHello Bytes) :
    Writes engine (encodeCertHelloMessage engine hello) (wire [(1, certHelloWire hello)]) := by
  have hinner := length_le_wire (List.mem_singleton_self (1, certHelloWire hello))
  have hcert : (certWire hello.cert).length ≤ (certHelloWire hello).length :=
    length_le_wire List.mem_cons_self
  refine (writes_cert engine _).bind (hcert.trans hinner) ?_
  refine (writes_bytesField engine 1 _).bind ((length_part_le_wire (by simp)).trans hinner) ?_
  refine (writes_bytesField engine 2 _).bind ((length_part_le_wire (by simp)).trans hinner) ?_
  refine (writes_concat_parts engine [_, _]).bind hinner ?_
  exact writes_bytesField engine 1 _

/-- A hello of the certificate handshake is read back. -/
theorem decodeCertHello_wire {hello : CertHello Bytes}
    (hfits : (certHelloWire hello).length ≤ engine.maxLength) :
    decodeCertHello engine (.bytes (certHelloWire hello)) = .ok (hello.map .bytes) := by
  have hcert : (certWire hello.cert).length ≤ (certHelloWire hello).length :=
    length_le_wire List.mem_cons_self
  rw [decodeCertHello, certHelloWire, decodeMessage_wire (by simp) hfits, List.map_cons, List.foldlM_cons]
  simp only [decodeCert_wire (hcert.trans hfits)]
  rfl

theorem decodeCertHandshakeMessage_hello {hello : CertHello Bytes}
    (hfits : (wire [(1, certHelloWire hello)]).length ≤ engine.maxLength) :
    decodeCertHandshakeMessage engine (.bytes (wire [(1, certHelloWire hello)])) =
      .ok ⟨some (hello.map .bytes), none⟩ := by
  have hinner := length_le_wire (List.mem_singleton_self (1, certHelloWire hello))
  rw [decodeCertHandshakeMessage, decodeMessage_wire (by simp) hfits, List.map_singleton, List.foldlM_cons]
  simp only [decodeCertHello_wire (hinner.trans hfits)]
  rfl

theorem writes_certProofMessage (engine : Engine) (proof : SignedNonce Bytes) :
    Writes engine (encodeCertProofMessage engine proof) (wire [(2, wire [(1, proof.signature)])]) :=
  (writes_bytesField engine 1 _).bind (length_le_wire List.mem_cons_self) (writes_bytesField engine 2 _)

theorem decodeCertHandshakeMessage_proof {proof : SignedNonce Bytes}
    (hfits : (wire [(2, wire [(1, proof.signature)])]).length ≤ engine.maxLength) :
    decodeCertHandshakeMessage engine (.bytes (wire [(2, wire [(1, proof.signature)])])) =
      .ok ⟨none, some (proof.map .bytes)⟩ := by
  have hinner := length_le_wire (List.mem_singleton_self (2, wire [(1, proof.signature)]))
  have hproof : decodeSignedNonce engine (.bytes (wire [(1, proof.signature)])) =
      .ok (proof.map .bytes) := by
    rw [decodeSignedNonce, decodeMessage_wire (by simp) (hinner.trans hfits)]
    rfl
  rw [decodeCertHandshakeMessage, decodeMessage_wire (by simp) hfits, List.map_singleton, List.foldlM_cons]
  simp only [hproof]
  rfl

def delegationWire (delegation : Delegation Bytes) : Bytes :=
  wire [(1, delegation.content), (2, delegation.signature)]

def walletHelloWire (hello : WalletHello Bytes) : Bytes :=
  wire ((1, hello.clientPubkey) :: (2, hello.nonceC) ::
    hello.delegationChain.map fun delegation ↦ (3, delegationWire delegation))

def walletChallengeWire (challenge : WalletChallenge Bytes) : Bytes :=
  wire [(1, challenge.sessionKey), (2, challenge.nonceS), (3, challenge.serverSig)]

theorem writes_delegation (engine : Engine) (delegation : Delegation Bytes) :
    Writes engine (encodeDelegation engine delegation) (delegationWire delegation) :=
  writes_pair engine delegation.content delegation.signature

theorem decodeDelegation_wire {delegation : Delegation Bytes}
    (hfits : (delegationWire delegation).length ≤ engine.maxLength) :
    decodeDelegation engine (.bytes (delegationWire delegation)) = .ok (delegation.map .bytes) :=
  decodeMessage_pair hfits

theorem writes_walletHelloMessage (engine : Engine) (hello : WalletHello Bytes) :
    Writes engine (encodeWalletHelloMessage engine hello) (wire [(1, walletHelloWire hello)]) := by
  have hinner := length_le_wire (List.mem_singleton_self (1, walletHelloWire hello))
  refine (writes_bytesField engine 1 _).bind ((length_part_le_wire (by simp)).trans hinner) ?_
  refine (writes_bytesField engine 2 _).bind ((length_part_le_wire (by simp)).trans hinner) ?_
  have hdelegation (delegation : Delegation Bytes) :=
    (writes_delegation engine delegation).bind (length_le_wire (List.mem_singleton_self (3, _)))
      (writes_bytesField engine 3 (delegationWire delegation))
  have hparts := flatten_parts (hello.delegationChain.map fun delegation ↦ (3, delegationWire delegation))
  rw [List.map_map] at hparts
  rcases mapM_writes hdelegation hello.delegationChain with hchain | ⟨hlong, err, hchain, herr⟩
  · rw [hchain]
    refine Writes.bind ?_ hinner (writes_bytesField engine 1 (walletHelloWire hello))
    have hconcat := writes_concat_parts engine ((1, hello.clientPubkey) :: (2, hello.nonceC) ::
      hello.delegationChain.map fun delegation ↦ (3, delegationWire delegation))
    rwa [List.map_cons, List.map_cons, List.map_map] at hconcat
  · have hchainWire : (hello.delegationChain.map fun delegation ↦
        wire [(3, delegationWire delegation)]).flatten.length ≤ (walletHelloWire hello).length := by
      refine (congrArg List.length hparts).le.trans ?_
      rw [walletHelloWire, wire_cons, wire_cons]
      simp only [List.length_cons, List.length_append]
      omega
    exact .inr ⟨hlong.trans_le (hchainWire.trans hinner), err, by rw [hchain]; rfl, herr⟩

/-- Delegations are set in the order of the chain. -/
theorem foldlM_delegations {set : WalletHello JSValue → Field → Except DecodeError (WalletHello JSValue)}
    (hset : ∀ hello delegation, (delegationWire delegation).length ≤ engine.maxLength →
      set hello ⟨3, .bytes (delegationWire delegation)⟩ =
        .ok { hello with delegationChain := hello.delegationChain ++ [delegation.map .bytes] })
    (chain : List (Delegation Bytes))
    (hchain : ∀ delegation ∈ chain, (delegationWire delegation).length ≤ engine.maxLength)
    (hello : WalletHello JSValue) :
    (chain.map fun delegation ↦ ⟨3, .bytes (delegationWire delegation)⟩).foldlM set hello =
      .ok { hello with delegationChain := hello.delegationChain ++ chain.map (Delegation.map .bytes) } := by
  induction chain generalizing hello with
  | nil =>
    rw [List.map_nil, List.map_nil, List.append_nil]
    rfl
  | cons delegation chain ih =>
    obtain ⟨hfirst, hchain⟩ := List.forall_mem_cons.mp hchain
    rw [List.map_cons, List.foldlM_cons, hset hello delegation hfirst]
    refine (ih hchain _).trans ?_
    rw [List.append_assoc, List.singleton_append, List.map_cons]

/-- The hello of a wallet is read back with its chain. -/
theorem decodeWalletHello_wire {hello : WalletHello Bytes}
    (hfits : (walletHelloWire hello).length ≤ engine.maxLength) :
    decodeWalletHello engine (.bytes (walletHelloWire hello)) = .ok (hello.map .bytes) := by
  have hnumbers : ∀ entry ∈ (1, hello.clientPubkey) :: (2, hello.nonceC) ::
      hello.delegationChain.map fun delegation ↦ (3, delegationWire delegation),
      1 ≤ entry.1 ∧ entry.1 < 16 := by
    simp
  have hchain : ∀ delegation ∈ hello.delegationChain,
      (delegationWire delegation).length ≤ engine.maxLength := fun delegation hmem ↦
    (length_le_wire (.tail _ (.tail _ (List.mem_map.mpr ⟨delegation, hmem, rfl⟩)))).trans hfits
  rw [decodeWalletHello, walletHelloWire, decodeMessage_wire hnumbers hfits, List.map_cons, List.map_cons,
    List.map_map, List.foldlM_cons]
  refine (foldlM_delegations ?_ hello.delegationChain hchain _).trans rfl
  intro hello delegation hdelegation
  simp only [decodeDelegation_wire hdelegation]
  rfl

theorem decodeWalletHandshakeMessage_hello {hello : WalletHello Bytes}
    (hfits : (wire [(1, walletHelloWire hello)]).length ≤ engine.maxLength) :
    decodeWalletHandshakeMessage engine (.bytes (wire [(1, walletHelloWire hello)])) =
      .ok ⟨some (hello.map .bytes), none, none⟩ := by
  have hinner := length_le_wire (List.mem_singleton_self (1, walletHelloWire hello))
  rw [decodeWalletHandshakeMessage, decodeMessage_wire (by simp) hfits, List.map_singleton,
    List.foldlM_cons]
  simp only [decodeWalletHello_wire (hinner.trans hfits)]
  rfl

theorem writes_walletChallengeMessage (engine : Engine) (challenge : WalletChallenge Bytes) :
    Writes engine (encodeWalletChallengeMessage engine challenge)
      (wire [(2, walletChallengeWire challenge)]) := by
  have hinner := length_le_wire (List.mem_singleton_self (2, walletChallengeWire challenge))
  refine (writes_bytesField engine 1 _).bind ((length_part_le_wire (by simp)).trans hinner) ?_
  refine (writes_bytesField engine 2 _).bind ((length_part_le_wire (by simp)).trans hinner) ?_
  refine (writes_bytesField engine 3 _).bind ((length_part_le_wire (by simp)).trans hinner) ?_
  refine (writes_concat_parts engine [_, _, _]).bind hinner ?_
  exact writes_bytesField engine 2 _

theorem decodeWalletHandshakeMessage_challenge {challenge : WalletChallenge Bytes}
    (hfits : (wire [(2, walletChallengeWire challenge)]).length ≤ engine.maxLength) :
    decodeWalletHandshakeMessage engine (.bytes (wire [(2, walletChallengeWire challenge)])) =
      .ok ⟨none, some (challenge.map .bytes), none⟩ := by
  have hinner := length_le_wire (List.mem_singleton_self (2, walletChallengeWire challenge))
  have hchallenge : decodeWalletChallenge engine (.bytes (walletChallengeWire challenge)) =
      .ok (challenge.map .bytes) := by
    rw [decodeWalletChallenge, walletChallengeWire, decodeMessage_wire (by simp) (hinner.trans hfits)]
    rfl
  rw [decodeWalletHandshakeMessage, decodeMessage_wire (by simp) hfits, List.map_singleton,
    List.foldlM_cons]
  simp only [hchallenge]
  rfl

theorem writes_walletProofMessage (engine : Engine) (proof : WalletProof Bytes) :
    Writes engine (encodeWalletProofMessage engine proof) (wire [(3, wire [(1, proof.clientSig)])]) :=
  (writes_bytesField engine 1 _).bind (length_le_wire List.mem_cons_self) (writes_bytesField engine 3 _)

theorem decodeWalletHandshakeMessage_proof {proof : WalletProof Bytes}
    (hfits : (wire [(3, wire [(1, proof.clientSig)])]).length ≤ engine.maxLength) :
    decodeWalletHandshakeMessage engine (.bytes (wire [(3, wire [(1, proof.clientSig)])])) =
      .ok ⟨none, none, some (proof.map .bytes)⟩ := by
  have hinner := length_le_wire (List.mem_singleton_self (3, wire [(1, proof.clientSig)]))
  have hproof : decodeWalletProof engine (.bytes (wire [(1, proof.clientSig)])) =
      .ok (proof.map .bytes) := by
    rw [decodeWalletProof, decodeMessage_wire (by simp) (hinner.trans hfits)]
    rfl
  rw [decodeWalletHandshakeMessage, decodeMessage_wire (by simp) hfits, List.map_singleton,
    List.foldlM_cons]
  simp only [hproof]
  rfl

/-- Every handshake message that the engine has an array for is written, and what is written is read back as
the message, in its own variant and in no other. -/
theorem handshake_messages_round_trip (engine : Engine) :
    (∀ hello, RoundTrips engine (encodeCertHelloMessage engine hello) (wire [(1, certHelloWire hello)])
      (decodeCertHandshakeMessage engine) ⟨some (hello.map .bytes), none⟩) ∧
    (∀ proof : SignedNonce Bytes, RoundTrips engine (encodeCertProofMessage engine proof)
      (wire [(2, wire [(1, proof.signature)])]) (decodeCertHandshakeMessage engine)
      ⟨none, some (proof.map .bytes)⟩) ∧
    (∀ hello, RoundTrips engine (encodeWalletHelloMessage engine hello) (wire [(1, walletHelloWire hello)])
      (decodeWalletHandshakeMessage engine) ⟨some (hello.map .bytes), none, none⟩) ∧
    (∀ challenge, RoundTrips engine (encodeWalletChallengeMessage engine challenge)
      (wire [(2, walletChallengeWire challenge)]) (decodeWalletHandshakeMessage engine)
      ⟨none, some (challenge.map .bytes), none⟩) ∧
    ∀ proof : WalletProof Bytes, RoundTrips engine (encodeWalletProofMessage engine proof)
      (wire [(3, wire [(1, proof.clientSig)])]) (decodeWalletHandshakeMessage engine)
      ⟨none, none, some (proof.map .bytes)⟩ :=
  ⟨fun hello ↦ (writes_certHelloMessage engine hello).roundTrips decodeCertHandshakeMessage_hello,
    fun proof ↦ (writes_certProofMessage engine proof).roundTrips decodeCertHandshakeMessage_proof,
    fun hello ↦ (writes_walletHelloMessage engine hello).roundTrips decodeWalletHandshakeMessage_hello,
    fun challenge ↦
      (writes_walletChallengeMessage engine challenge).roundTrips decodeWalletHandshakeMessage_challenge,
    fun proof ↦ (writes_walletProofMessage engine proof).roundTrips decodeWalletHandshakeMessage_proof⟩

end Mosey.Typescript

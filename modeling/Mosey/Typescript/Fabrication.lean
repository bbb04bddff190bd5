import Mosey.Typescript.Walk

/-!
# Bytes that were not sent

The readers of the handshake messages return what their walkers hand on. So a body that is cut off at the
end of its message is returned with zeros in place of what is missing, or read as a message of its own,
and a number is returned where bytes are declared. These are the only inputs on which they do so.
-/

namespace Mosey.Typescript

open Library

section

variable {Message ε : Type}

theorem gives_bytes (value : JSValue) :
    Shape.bytes.Gives value (.ok value : Except ε JSValue) fun read ↦ [read] where
  error_iff := iff_of_false (not_exists_error _) (by simp [Shape.malformed])
  mem_iff := by
    rintro read ⟨⟩ found -
    rw [Shape.survivors]

theorem gives_text (value : JSValue) : Shape.text.Gives value (decodeText value) fun _ ↦ [] := by
  cases value with
  | bigint n =>
    exact ⟨iff_of_true ⟨_, rfl⟩ rfl, fun message hresult ↦ by cases hresult⟩
  | bytes bytes =>
    refine ⟨iff_of_false (not_exists_error _) (by simp [Shape.malformed]), ?_⟩
    intro message _ found _
    simp [Shape.survivors]

/-- A case of a reader's loop ignores a field without a slot, or reads the value as its shape says and
stores what it read in the slot of the field's number. -/
inductive Stores (slots : Message → List (List JSValue)) :
    Shape → Bool → Message → Field → Except ε Message → Prop
  | skip {message : Message} {entry : Field} (hslot : (slots message).getD entry.field [] = []) :
      Stores slots .skipped false message entry (.ok message)
  | read {Inner : Type} {shape : Shape} {repeated : Bool} {message : Message} {entry : Field}
      {result : Except ε Message} {inner : Except ε Inner} {values : Inner → List JSValue}
      (build : Inner → Message) (hgives : shape.Gives entry.value inner values)
      (hresult : result = do let read ← inner; return build read)
      (hfield : entry.field < (slots message).length)
      (hslots : ∀ read, slots (build read) = (slots message).set entry.field
        ((if repeated = true then (slots message).getD entry.field [] else []) ++ values read)) :
      Stores slots shape repeated message entry result

variable {slots : Message → List (List JSValue)}

namespace Stores

variable {shape : Shape} {repeated : Bool} {message next : Message} {entry : Field}
  {result : Except ε Message}

/-- Storing a field fails if and only if its value is malformed. -/
theorem error_iff (h : Stores slots shape repeated message entry result) :
    (∃ err, result = .error err) ↔ shape.malformed entry.value = true := by
  cases h with
  | skip _ => exact iff_of_false (not_exists_error _) (by simp [Shape.malformed])
  | @read _ _ _ _ _ _ inner _ _ hgives hresult _ _ =>
    rw [hresult, ← hgives.error_iff]
    cases inner with
    | error err => exact iff_of_true ⟨err, rfl⟩ ⟨err, rfl⟩
    | ok read => exact iff_of_false (not_exists_error _) (not_exists_error _)

/-- A slot has what its field has just stored, and what it had before if it is another one or repeated. -/
theorem mem_slot (h : Stores slots shape repeated message entry result) (hnext : result = .ok next)
    {found : JSValue} (hfound : found ≠ .bytes []) (number : ℕ) :
    found ∈ (slots next).getD number [] ↔
      if number = entry.field then
        found ∈ shape.survivors entry.value ∨ (repeated = true ∧ found ∈ (slots message).getD number [])
      else found ∈ (slots message).getD number [] := by
  cases h with
  | skip hslot =>
    obtain rfl := Except.ok.inj hnext
    split_ifs with hnumber
    · subst hnumber
      rw [hslot]
      simp [Shape.survivors]
    · rfl
  | read build hgives hresult hfield hslots =>
    obtain ⟨read, hread, hbuild⟩ := bind_eq_ok.mp (hresult.symm.trans hnext)
    obtain rfl : build read = next := Except.ok.inj hbuild
    by_cases hnumber : number = entry.field
    · subst hnumber
      rw [hslots, List.getD_eq_getElem?_getD, List.getElem?_set_self hfield, Option.getD_some, if_pos rfl,
        List.mem_append, hgives.mem_iff read hread found hfound, or_comm]
      cases repeated <;> simp
    · rw [hslots, List.getD_eq_getElem?_getD, List.getElem?_set_ne (Ne.symm hnumber), if_neg hnumber,
        List.getD_eq_getElem?_getD]

end Stores

section

variable {fields : ℕ → Shape} {repeated : ℕ → Bool} {values : Message → List JSValue} {empty : Message}

/-- Stores for every field make the whole function one that sets. -/
theorem sets_of_stores {set : Message → Field → Except ε Message}
    (hset : ∀ message entry,
      Stores slots (fields entry.field) (repeated entry.field) message entry (set message entry)) :
    Sets fields repeated set fun number message ↦ (slots message).getD number [] where
  error_iff message entry := (hset message entry).error_iff
  mem_slot hnext _ hfound number := by
    rw [(hset _ _).mem_slot hnext hfound number]
    split_ifs with hnumber
    · rw [hnumber]
    · rfl

theorem mem_flatten_iff {found : JSValue} {lists : List (List JSValue)} :
    found ∈ lists.flatten ↔ ∃ number, found ∈ lists.getD number [] := by
  rw [List.mem_flatten]
  constructor
  · rintro ⟨list, hlist, hfound⟩
    obtain ⟨number, hnumber⟩ := List.mem_iff_getElem?.mp hlist
    exact ⟨number, by rwa [List.getD_eq_getElem?_getD, hnumber]⟩
  · rintro ⟨number, hfound⟩
    rw [List.getD_eq_getElem?_getD] at hfound
    cases hnumber : lists[number]? with
    | none =>
      rw [hnumber] at hfound
      cases hfound
    | some list =>
      rw [hnumber] at hfound
      exact ⟨list, List.mem_of_getElem? hnumber, hfound⟩

/-- A loop whose cases store what they read gives what the shape says. -/
theorem gives_of_stores (slots : Message → List (List JSValue)) {ε' : Type}
    {set : Message → Field → Except ε Message}
    (hset : ∀ message entry,
      Stores slots (fields entry.field) (repeated entry.field) message entry (set message entry))
    (hvalues : ∀ message, values message = (slots message).flatten)
    (hempty : ∀ found ∈ values empty, found = .bytes []) {walker : Walker} {buf : Bytes}
    {result : Except ε' Message} (hconsumes : Consumes (walker.walk buf) set empty result) :
    (Shape.message walker fields repeated).Gives (.bytes buf) result values := by
  have hmem (message : Message) (found : JSValue) :
      found ∈ values message ↔ ∃ number, found ∈ (slots message).getD number [] := by
    rw [hvalues, mem_flatten_iff]
  exact (sets_of_stores hset).gives hmem
    (fun number found hfound ↦ hempty found ((hmem empty found).mpr ⟨number, hfound⟩)) hconsumes

/-- A decoder that stores every field gives what its shape allows. -/
theorem gives_decodeMessage (slots : Message → List (List JSValue))
    {set : Message → Field → Except DecodeError Message}
    (hset : ∀ message entry,
      Stores slots (fields entry.field) (repeated entry.field) message entry (set message entry))
    (hvalues : ∀ message, values message = (slots message).flatten)
    (hempty : ∀ found ∈ values empty, found = .bytes []) (engine : Engine) (value : JSValue) :
    (Shape.message (iterWalker engine) fields repeated).Gives value (decodeMessage engine empty set value)
      values := by
  cases value with
  | bytes buf =>
    exact gives_of_stores slots hset hvalues hempty (decodeMessage_consumes engine empty set buf)
  | bigint n =>
    refine ⟨iff_of_false (not_exists_error _) (by simp [Shape.malformed]), ?_⟩
    rintro message ⟨⟩ found hfound
    exact iff_of_false (fun hmem ↦ hfound (hempty found hmem)) (by simp [Shape.survivors])

end

end

/-- A message with nothing but byte fields. -/
def flatShape (engine : Engine) (count : ℕ) : Shape :=
  .message (iterWalker engine) (fun number ↦ if 1 ≤ number ∧ number ≤ count then .bytes else .skipped)
    fun _ ↦ false

def Cert.byteFields (cert : Cert JSValue) : List JSValue := [cert.content, cert.signature]

def CertHello.byteFields (hello : CertHello JSValue) : List JSValue :=
  hello.cert.byteFields ++ [hello.nonce]

def SignedNonce.byteFields (proof : SignedNonce JSValue) : List JSValue := [proof.signature]

def CertHandshakeMessage.byteFields (out : CertHandshakeMessage JSValue) : List JSValue :=
  out.hello.elim [] CertHello.byteFields ++ out.proof.elim [] SignedNonce.byteFields

def certHelloShape (engine : Engine) : Shape :=
  .message (iterWalker engine)
    (fun
      | 1 => flatShape engine 2
      | 2 => .bytes
      | _ => .skipped)
    fun _ ↦ false

def certHandshakeShape (engine : Engine) : Shape :=
  .message (iterWalker engine)
    (fun
      | 1 => certHelloShape engine
      | 2 => flatShape engine 1
      | _ => .skipped)
    fun _ ↦ false

/-- What a certificate is decoded to. -/
theorem gives_cert (engine : Engine) (value : JSValue) :
    (flatShape engine 2).Gives value (decodeCert engine value) Cert.byteFields := by
  refine gives_decodeMessage (fun cert : Cert JSValue ↦ [[], [cert.content], [cert.signature]]) ?_
    (fun _ ↦ rfl) (by decide) engine value
  rintro cert ⟨_ | _ | _ | number, value⟩
  · exact .skip rfl
  · exact .read (fun read ↦ { cert with content := read }) (gives_bytes value) rfl (by simp) fun _ ↦ rfl
  · exact .read (fun read ↦ { cert with signature := read }) (gives_bytes value) rfl (by simp) fun _ ↦ rfl
  · exact .skip rfl

theorem gives_signedNonce (engine : Engine) (value : JSValue) :
    (flatShape engine 1).Gives value (decodeSignedNonce engine value) SignedNonce.byteFields := by
  refine gives_decodeMessage (fun proof : SignedNonce JSValue ↦ [[], [proof.signature]]) ?_
    (fun _ ↦ rfl) (by decide) engine value
  rintro proof ⟨_ | _ | number, value⟩
  · exact .skip rfl
  · exact .read (fun read ↦ { proof with signature := read }) (gives_bytes value) rfl (by simp) fun _ ↦ rfl
  · exact .skip rfl

theorem gives_certHello (engine : Engine) (value : JSValue) :
    (certHelloShape engine).Gives value (decodeCertHello engine value) CertHello.byteFields := by
  refine gives_decodeMessage
    (fun hello : CertHello JSValue ↦ [[], hello.cert.byteFields, [hello.nonce]]) ?_
    (fun _ ↦ rfl) (by decide) engine value
  rintro hello ⟨_ | _ | _ | number, value⟩
  · exact .skip rfl
  · exact .read (fun read ↦ { hello with cert := read }) (gives_cert engine value) rfl (by simp) fun _ ↦ rfl
  · exact .read (fun read ↦ { hello with nonce := read }) (gives_bytes value) rfl (by simp) fun _ ↦ rfl
  · exact .skip rfl

/-- What a message of the certificate handshake is decoded to. -/
theorem gives_certHandshakeMessage (engine : Engine) (value : JSValue) :
    (certHandshakeShape engine).Gives value (decodeCertHandshakeMessage engine value)
      CertHandshakeMessage.byteFields := by
  refine gives_decodeMessage
    (fun out : CertHandshakeMessage JSValue ↦
      [[], out.hello.elim [] CertHello.byteFields, out.proof.elim [] SignedNonce.byteFields]) ?_
    (fun out ↦ by simp [CertHandshakeMessage.byteFields]) (by decide) engine value
  rintro out ⟨_ | _ | _ | number, value⟩
  · exact .skip rfl
  · exact .read (fun read ↦ { out with hello := some read }) (gives_certHello engine value) rfl (by simp)
      fun _ ↦ rfl
  · exact .read (fun read ↦ { out with proof := some read }) (gives_signedNonce engine value) rfl (by simp)
      fun _ ↦ rfl
  · exact .skip rfl

def Delegation.byteFields (delegation : Delegation JSValue) : List JSValue :=
  [delegation.content, delegation.signature]

def WalletHello.byteFields (hello : WalletHello JSValue) : List JSValue :=
  [hello.clientPubkey, hello.nonceC] ++ hello.delegationChain.flatMap Delegation.byteFields

def WalletChallenge.byteFields (challenge : WalletChallenge JSValue) : List JSValue :=
  [challenge.sessionKey, challenge.nonceS, challenge.serverSig]

def WalletProof.byteFields (proof : WalletProof JSValue) : List JSValue := [proof.clientSig]

def WalletHandshakeMessage.byteFields (out : WalletHandshakeMessage JSValue) : List JSValue :=
  out.hello.elim [] WalletHello.byteFields ++ out.challenge.elim [] WalletChallenge.byteFields ++
    out.proof.elim [] WalletProof.byteFields

def walletHelloShape (engine : Engine) : Shape :=
  .message (iterWalker engine)
    (fun
      | 1 | 2 => .bytes
      | 3 => flatShape engine 2
      | _ => .skipped)
    fun number ↦ decide (number = 3)

def walletHandshakeShape (engine : Engine) : Shape :=
  .message (iterWalker engine)
    (fun
      | 1 => walletHelloShape engine
      | 2 => flatShape engine 3
      | 3 => flatShape engine 1
      | _ => .skipped)
    fun _ ↦ false

theorem gives_delegation (engine : Engine) (value : JSValue) :
    (flatShape engine 2).Gives value (decodeDelegation engine value) Delegation.byteFields := by
  refine gives_decodeMessage
    (fun delegation : Delegation JSValue ↦ [[], [delegation.content], [delegation.signature]]) ?_
    (fun _ ↦ rfl) (by decide) engine value
  rintro delegation ⟨_ | _ | _ | number, value⟩
  · exact .skip rfl
  · exact .read (fun read ↦ { delegation with content := read }) (gives_bytes value) rfl (by simp)
      fun _ ↦ rfl
  · exact .read (fun read ↦ { delegation with signature := read }) (gives_bytes value) rfl (by simp)
      fun _ ↦ rfl
  · exact .skip rfl

/-- What the hello of a wallet is decoded to. -/
theorem gives_walletHello (engine : Engine) (value : JSValue) :
    (walletHelloShape engine).Gives value (decodeWalletHello engine value) WalletHello.byteFields := by
  refine gives_decodeMessage
    (fun hello : WalletHello JSValue ↦ [[], [hello.clientPubkey], [hello.nonceC],
      hello.delegationChain.flatMap Delegation.byteFields]) ?_
    (fun hello ↦ by simp [WalletHello.byteFields]) (by decide) engine value
  rintro hello ⟨_ | _ | _ | _ | number, value⟩
  · exact .skip rfl
  · exact .read (fun read ↦ { hello with clientPubkey := read }) (gives_bytes value) rfl (by simp)
      fun _ ↦ rfl
  · exact .read (fun read ↦ { hello with nonceC := read }) (gives_bytes value) rfl (by simp) fun _ ↦ rfl
  · exact .read (fun read ↦ { hello with delegationChain := hello.delegationChain ++ [read] })
      (gives_delegation engine value) rfl (by simp) fun _ ↦ by simp
  · exact .skip rfl

theorem gives_walletChallenge (engine : Engine) (value : JSValue) :
    (flatShape engine 3).Gives value (decodeWalletChallenge engine value) WalletChallenge.byteFields := by
  refine gives_decodeMessage
    (fun challenge : WalletChallenge JSValue ↦
      [[], [challenge.sessionKey], [challenge.nonceS], [challenge.serverSig]]) ?_
    (fun _ ↦ rfl) (by decide) engine value
  rintro challenge ⟨_ | _ | _ | _ | number, value⟩
  · exact .skip rfl
  · exact .read (fun read ↦ { challenge with sessionKey := read }) (gives_bytes value) rfl (by simp)
      fun _ ↦ rfl
  · exact .read (fun read ↦ { challenge with nonceS := read }) (gives_bytes value) rfl (by simp) fun _ ↦ rfl
  · exact .read (fun read ↦ { challenge with serverSig := read }) (gives_bytes value) rfl (by simp)
      fun _ ↦ rfl
  · exact .skip rfl

theorem gives_walletProof (engine : Engine) (value : JSValue) :
    (flatShape engine 1).Gives value (decodeWalletProof engine value) WalletProof.byteFields := by
  refine gives_decodeMessage (fun proof : WalletProof JSValue ↦ [[], [proof.clientSig]]) ?_
    (fun _ ↦ rfl) (by decide) engine value
  rintro proof ⟨_ | _ | number, value⟩
  · exact .skip rfl
  · exact .read (fun read ↦ { proof with clientSig := read }) (gives_bytes value) rfl (by simp) fun _ ↦ rfl
  · exact .skip rfl

/-- What a message of the wallet handshake is decoded to. -/
theorem gives_walletHandshakeMessage (engine : Engine) (value : JSValue) :
    (walletHandshakeShape engine).Gives value (decodeWalletHandshakeMessage engine value)
      WalletHandshakeMessage.byteFields := by
  refine gives_decodeMessage
    (fun out : WalletHandshakeMessage JSValue ↦
      [[], out.hello.elim [] WalletHello.byteFields, out.challenge.elim [] WalletChallenge.byteFields,
        out.proof.elim [] WalletProof.byteFields]) ?_
    (fun out ↦ by simp [WalletHandshakeMessage.byteFields]) (by decide) engine value
  rintro out ⟨_ | _ | _ | _ | number, value⟩
  · exact .skip rfl
  · exact .read (fun read ↦ { out with hello := some read }) (gives_walletHello engine value) rfl (by simp)
      fun _ ↦ rfl
  · exact .read (fun read ↦ { out with challenge := some read }) (gives_walletChallenge engine value) rfl
      (by simp) fun _ ↦ rfl
  · exact .read (fun read ↦ { out with proof := some read }) (gives_walletProof engine value) rfl (by simp)
      fun _ ↦ rfl
  · exact .skip rfl

def ClientHello.byteFields (hello : ClientHello JSValue) : List JSValue := [hello.nonce]

def ServerProof.byteFields (proof : ServerProof JSValue) : List JSValue := [proof.nonce, proof.mac]

def ClientProof.byteFields (proof : ClientProof JSValue) : List JSValue := [proof.mac]

def AuthMessage.byteFields (out : AuthMessage JSValue) : List JSValue :=
  out.clientHello.elim [] ClientHello.byteFields ++ out.serverProof.elim [] ServerProof.byteFields ++
    out.clientProof.elim [] ClientProof.byteFields

def clientHelloShape (engine : Engine) : Shape :=
  .message (iterWalker engine)
    (fun
      | 1 => .bytes
      | 2 => .text
      | _ => .skipped)
    fun _ ↦ false

def authShape (engine : Engine) : Shape :=
  .message authWalker
    (fun
      | 1 => clientHelloShape engine
      | 2 => flatShape engine 2
      | 3 => flatShape engine 1
      | _ => .skipped)
    fun _ ↦ false

theorem gives_clientHello (engine : Engine) (value : JSValue) :
    (clientHelloShape engine).Gives value (decodeClientHello engine value) ClientHello.byteFields := by
  refine gives_decodeMessage (fun hello : ClientHello JSValue ↦ [[], [hello.nonce], []]) ?_
    (fun _ ↦ rfl) (by decide) engine value
  rintro hello ⟨_ | _ | _ | number, value⟩
  · exact .skip rfl
  · exact .read (fun read ↦ { hello with nonce := read }) (gives_bytes value) rfl (by simp) fun _ ↦ rfl
  · exact .read (fun read ↦ { hello with label := read }) (gives_text value) rfl (by simp) fun _ ↦ rfl
  · exact .skip rfl

theorem gives_serverProof (engine : Engine) (value : JSValue) :
    (flatShape engine 2).Gives value (decodeServerProof engine value) ServerProof.byteFields := by
  refine gives_decodeMessage (fun proof : ServerProof JSValue ↦ [[], [proof.nonce], [proof.mac]]) ?_
    (fun _ ↦ rfl) (by decide) engine value
  rintro proof ⟨_ | _ | _ | number, value⟩
  · exact .skip rfl
  · exact .read (fun read ↦ { proof with nonce := read }) (gives_bytes value) rfl (by simp) fun _ ↦ rfl
  · exact .read (fun read ↦ { proof with mac := read }) (gives_bytes value) rfl (by simp) fun _ ↦ rfl
  · exact .skip rfl

theorem gives_clientProof (engine : Engine) (value : JSValue) :
    (flatShape engine 1).Gives value (decodeClientProof engine value) ClientProof.byteFields := by
  refine gives_decodeMessage (fun proof : ClientProof JSValue ↦ [[], [proof.mac]]) ?_
    (fun _ ↦ rfl) (by decide) engine value
  rintro proof ⟨_ | _ | number, value⟩
  · exact .skip rfl
  · exact .read (fun read ↦ { proof with mac := read }) (gives_bytes value) rfl (by simp) fun _ ↦ rfl
  · exact .skip rfl

/-- What a message of the shared-secret handshake is decoded to. -/
theorem gives_authMessage (engine : Engine) (buf : Bytes) :
    (authShape engine).Gives (.bytes buf) (decodeAuthMessage engine buf) AuthMessage.byteFields := by
  refine gives_of_stores
    (fun out : AuthMessage JSValue ↦
      [[], out.clientHello.elim [] ClientHello.byteFields, out.serverProof.elim [] ServerProof.byteFields,
        out.clientProof.elim [] ClientProof.byteFields]) ?_
    (fun out ↦ by simp [AuthMessage.byteFields]) (by decide)
    (decodeAuthMessageFrom_consumes engine buf buf.length 0 ⟨none, none, none⟩)
  rintro out ⟨_ | _ | _ | _ | number, value⟩
  · exact .skip rfl
  · exact .read (fun read ↦ { out with clientHello := some read }) (gives_clientHello engine value) rfl
      (by simp) fun _ ↦ rfl
  · exact .read (fun read ↦ { out with serverProof := some read }) (gives_serverProof engine value) rfl
      (by simp) fun _ ↦ rfl
  · exact .read (fun read ↦ { out with clientProof := some read }) (gives_clientProof engine value) rfl
      (by simp) fun _ ↦ rfl
  · exact .skip rfl

/-! ## The decoders -/

/-- The decoders fabricate bytes on the inputs on which their walkers do not notice a length that runs past
the end of its message, or a number that stays where bytes are declared. -/
theorem decoders_never_fabricate_iff (engine : Engine) (input : Bytes)
    (hinput : input.length ≤ engine.maxLength) :
    (NeverFabricates (flatShape engine 2) input (decodeCert engine (.bytes input)) Cert.byteFields ↔
      (flatShape engine 2).Harmless input) ∧
    (NeverFabricates (certHandshakeShape engine) input (decodeCertHandshakeMessage engine (.bytes input))
      CertHandshakeMessage.byteFields ↔ (certHandshakeShape engine).Harmless input) ∧
    (NeverFabricates (walletHandshakeShape engine) input
      (decodeWalletHandshakeMessage engine (.bytes input)) WalletHandshakeMessage.byteFields ↔
      (walletHandshakeShape engine).Harmless input) ∧
    (NeverFabricates (authShape engine) input (decodeAuthMessage engine input) AuthMessage.byteFields ↔
      (authShape engine).Harmless input) := by
  have hlength : input.length < 2 ^ 53 := hinput.trans_lt engine.maxLength_lt
  exact ⟨(gives_cert engine _).neverFabricates_iff hlength,
    (gives_certHandshakeMessage engine _).neverFabricates_iff hlength,
    (gives_walletHandshakeMessage engine _).neverFabricates_iff hlength,
    (gives_authMessage engine input).neverFabricates_iff hlength⟩

/-- A content of one byte and a signature of one byte. -/
def exampleCert : Bytes := [0x0a, 0x01, 0x61, 0x12, 0x01, 0x62]

theorem decoders_never_fabricate_example :
    exampleCert.length ≤ exampleEngine.maxLength ∧
      NeverFabricates (flatShape exampleEngine 2) exampleCert
        (decodeCert exampleEngine (.bytes exampleCert)) Cert.byteFields := by
  have hlength : exampleCert.length ≤ exampleEngine.maxLength := by decide
  have hsurvivors : (flatShape exampleEngine 2).survivors (.bytes exampleCert) =
      [.bytes [0x61], .bytes [0x62]] := by
    decide +kernel
  refine ⟨hlength, (decoders_never_fabricate_iff exampleEngine exampleCert hlength).1.mpr (.inr ⟨?_, ?_⟩)⟩
  · decide +kernel
  · intro n hmem
    rw [hsurvivors] at hmem
    simp at hmem

/-- A content of one byte where five are declared, a number for a content, and a server proof that ends
before its declared length with a message code of one byte where two are declared. -/
theorem decoders_fabricate :
    decodeCert exampleEngine (.bytes [0x0a, 0x05, 0x61]) = .ok ⟨.bytes [0x61, 0, 0, 0, 0], .bytes []⟩ ∧
    ¬ NeverFabricates (flatShape exampleEngine 2) [0x0a, 0x05, 0x61]
      (decodeCert exampleEngine (.bytes [0x0a, 0x05, 0x61])) Cert.byteFields ∧
    decodeCert exampleEngine (.bytes [0x08, 0x05]) = .ok ⟨.bigint 5, .bytes []⟩ ∧
    ¬ NeverFabricates (flatShape exampleEngine 2) [0x08, 0x05]
      (decodeCert exampleEngine (.bytes [0x08, 0x05])) Cert.byteFields ∧
    decodeAuthMessage exampleEngine [0x12, 0x7f, 0x12, 0x02, 0x61] =
      .ok ⟨none, some ⟨.bytes [], .bytes [0x61, 0]⟩, none⟩ ∧
    ¬ NeverFabricates (authShape exampleEngine) [0x12, 0x7f, 0x12, 0x02, 0x61]
      (decodeAuthMessage exampleEngine [0x12, 0x7f, 0x12, 0x02, 0x61]) AuthMessage.byteFields := by
  have hcut : decodeCert exampleEngine (.bytes [0x0a, 0x05, 0x61]) =
      .ok ⟨.bytes [0x61, 0, 0, 0, 0], .bytes []⟩ := by
    decide +kernel
  have hnumber : decodeCert exampleEngine (.bytes [0x08, 0x05]) = .ok ⟨.bigint 5, .bytes []⟩ := by
    decide +kernel
  have hproof : decodeAuthMessage exampleEngine [0x12, 0x7f, 0x12, 0x02, 0x61] =
      .ok ⟨none, some ⟨.bytes [], .bytes [0x61, 0]⟩, none⟩ := by
    decide +kernel
  refine ⟨hcut, fun h ↦ ?_, hnumber, fun h ↦ ?_, hproof, fun h ↦ ?_⟩
  · obtain ⟨err, herr⟩ := h.2 (by decide +kernel)
    rw [hcut] at herr
    cases herr
  · rcases h.1 _ hnumber (.bigint 5) List.mem_cons_self with hempty | ⟨body, hbody, -⟩
    · cases hempty
    · cases hbody
  · obtain ⟨err, herr⟩ := h.2 (by decide +kernel)
    rw [hproof] at herr
    cases herr

end Mosey.Typescript

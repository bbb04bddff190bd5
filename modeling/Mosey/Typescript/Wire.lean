import Mosey.Auth.Wire
import Mosey.Typescript.Handshake

/-!
# What each side writes and the other reads

The client writes every field, so what it writes is an encoding that the server's library reads. In the other
direction the client reads every encoding of a server's message, whether empty fields are left out or not.
-/

namespace Mosey.Typescript

open Library Auth

/-- Up to field 14 both sides write fields alike. -/
theorem marshalFields_eq_wire {entries : List (ℕ × Bytes)} (hnumbers : ∀ entry ∈ entries, entry.1 < 15) :
    marshalFields entries = wire entries := by
  apply List.flatMap_congr
  intro entry hmem
  have hsmall := hnumbers entry hmem
  rw [Varint.encode_of_lt (by omega), List.singleton_append]

def clientHelloWire (nonce : Bytes) (label : String) : Bytes :=
  wire ((1, nonce) :: if label = "" then [] else [(2, Utf8.encode label.toList)])

theorem encodesPair_wire (first second : Bytes) :
    EncodesPair first second (wire [(1, first), (2, second)]) := by
  refine ⟨[(1, first)], [(2, second)], .inl rfl, .inl rfl, ?_⟩
  rw [marshalFields_eq_wire (by simp)]
  rfl

/-- The hello that the client writes encodes the server's message. -/
theorem encodes_clientHello (nonce : Bytes) (label : String) :
    Auth.AuthMessage.Encodes (.clientHello nonce label) (wire [(1, clientHelloWire nonce label)]) := by
  have hinner : EncodesPair nonce (Utf8.encode label.toList) (clientHelloWire nonce label) := by
    unfold clientHelloWire
    split_ifs with hlabel
    · refine ⟨[(1, nonce)], [], .inl rfl, .inr ⟨?_, rfl⟩, ?_⟩
      · rw [hlabel]
        rfl
      · rw [marshalFields_eq_wire (by simp), List.append_nil]
    · exact encodesPair_wire nonce _
  rw [← marshalFields_eq_wire (by simp)]
  exact .clientHello hinner

theorem encodes_clientProof (mac : Bytes) :
    Auth.AuthMessage.Encodes (.clientProof mac) (wire [(3, wire [(1, mac)])]) := by
  rw [← marshalFields_eq_wire (by simp), ← marshalFields_eq_wire (by simp)]
  exact .clientProof (.inl rfl)
/-- The hello that the client writes encodes the server's message, certificate included. -/
theorem encodes_certHello (hello : CertHello Bytes) :
    Auth.CertHandshakeMessage.Encodes (.hello (some ⟨hello.cert.content, hello.cert.signature⟩) hello.nonce)
      (wire [(1, certHelloWire hello)]) := by
  rw [certHelloWire, ← marshalFields_eq_wire (by simp), ← marshalFields_eq_wire (by simp)]
  exact .hello (encodesPair_wire _ _) (.inl rfl)

theorem encodes_certProof (signature : Bytes) :
    Auth.CertHandshakeMessage.Encodes (.proof signature) (wire [(2, wire [(1, signature)])]) := by
  rw [← marshalFields_eq_wire (by simp), ← marshalFields_eq_wire (by simp)]
  exact .proof (.inl rfl)

/-- The chain as the server has it. -/
def serverChain (chain : List (Delegation Bytes)) : List (Wallet.Delegation Bytes) :=
  chain.map fun delegation ↦ ⟨delegation.content, delegation.signature⟩

/-- The hello that the client writes encodes the server's message, chain included. -/
theorem encodes_walletHello (hello : WalletHello Bytes) :
    Auth.WalletHandshakeMessage.Encodes
      (.hello hello.clientPubkey hello.nonceC (serverChain hello.delegationChain))
      (wire [(1, walletHelloWire hello)]) := by
  have hchain : (serverChain hello.delegationChain).Forall₂
      (fun delegation ↦ EncodesPair delegation.content delegation.signature)
      (hello.delegationChain.map delegationWire) := by
    rw [serverChain, List.forall₂_map_left_iff, List.forall₂_map_right_iff, List.forall₂_same]
    exact fun delegation _ ↦ encodesPair_wire _ _
  have hwire : walletHelloWire hello = marshalFields ([(1, hello.clientPubkey)] ++ [(2, hello.nonceC)] ++
      (hello.delegationChain.map delegationWire).map fun body ↦ (3, body)) := by
    rw [marshalFields_eq_wire (by simp), walletHelloWire, List.map_map]
    rfl
  rw [← marshalFields_eq_wire (by simp), hwire]
  exact .hello (.inl rfl) (.inl rfl) hchain

theorem encodes_walletProof (clientSig : Bytes) :
    Auth.WalletHandshakeMessage.Encodes (.proof clientSig) (wire [(3, wire [(1, clientSig)])]) := by
  rw [← marshalFields_eq_wire (by simp), ← marshalFields_eq_wire (by simp)]
  exact .proof (.inl rfl)

/-! ## What the client reads -/

section Client

variable {engine : Engine}

/-- The loop of `decodeAuthMessage` goes over the fields too. -/
theorem decodeAuthMessageFrom_wire {entries : List (ℕ × Bytes)} {buf : Bytes} {fuel off : ℕ}
    (hnumbers : ∀ entry ∈ entries, 1 ≤ entry.1 ∧ entry.1 < 16) (hsize : buf.length < 2 ^ 53)
    (hfuel : entries.length ≤ fuel) (hbuf : buf.drop off = wire entries) (out : AuthMessage JSValue) :
    decodeAuthMessageFrom engine buf fuel off out =
      ((entries.map fun entry ↦ ⟨entry.1, .bytes entry.2⟩).foldlM (AuthMessage.set engine) out).mapError
        .decode := by
  induction entries generalizing fuel off out with
  | nil =>
    have hend : ¬off < buf.length := fun hlt ↦ by
      have hlength := congrArg List.length hbuf
      rw [List.length_drop] at hlength
      exact absurd hlength (Nat.sub_pos_of_lt hlt).ne'
    cases fuel with
    | zero => rfl
    | succ fuel =>
      rw [decodeAuthMessageFrom, if_neg hend]
      rfl
  | cons entry entries ih =>
    obtain ⟨number, bytes⟩ := entry
    obtain ⟨hnumber, hnumbers⟩ := List.forall_mem_cons.mp hnumbers
    dsimp only at hnumber
    obtain ⟨fuel, rfl⟩ : ∃ others, fuel = others + 1 := ⟨fuel - 1, by
      rw [List.length_cons] at hfuel
      omega⟩
    have hlong : bytes.length < 2 ^ 53 :=
      calc bytes.length ≤ (wire ((number, bytes) :: entries)).length := length_le_wire List.mem_cons_self
        _ = (buf.drop off).length := by rw [hbuf]
        _ ≤ buf.length := by rw [List.length_drop]; exact Nat.sub_le _ _
        _ < 2 ^ 53 := hsize
    have hlt : off < buf.length := by
      by_contra hge
      rw [List.drop_eq_nil_of_le (Nat.le_of_not_lt hge), wire_cons] at hbuf
      cases hbuf
    rw [wire_cons, ← List.singleton_append, ← Varint.encode_of_lt (by omega),
      ← encodeVarint_eq_encode] at hbuf
    have hsecond : buf.drop (off + (encodeVarint (number * 8 + 2)).length) =
        encodeVarint bytes.length ++ (bytes ++ wire entries) := by
      rw [← List.drop_drop, hbuf, List.drop_left, encodeVarint_eq_encode]
    have hthird : buf.drop (off + (encodeVarint (number * 8 + 2)).length +
        (encodeVarint bytes.length).length) = bytes ++ wire entries := by
      rw [← List.drop_drop, hsecond, List.drop_left]
    have hlast : buf.drop (off + (encodeVarint (number * 8 + 2)).length +
        (encodeVarint bytes.length).length + bytes.length) = wire entries := by
      rw [← List.drop_drop, hthird, List.drop_left]
    have hfield : numberOf ((number * 8 + 2) >>> 3) = number := by
      rw [Nat.shiftRight_eq_div_pow, numberOf_eq (by omega)]
      omega
    have htype : (number * 8 + 2) &&& 0x7 = 2 := by
      rw [Nat.and_two_pow_sub_one_eq_mod _ 3]
      omega
    rw [decodeAuthMessageFrom, if_pos hlt, decodeVarint_encodeVarint (by omega) hbuf]
    dsimp only
    rw [htype, if_neg (not_not.mpr rfl), decodeVarint_encodeVarint (by omega) hsecond]
    dsimp only
    rw [hfield, numberOf_eq hlong, hthird, List.take_left, List.map_cons, List.foldlM_cons]
    cases hset : out.set engine ⟨number, .bytes bytes⟩ with
    | error err => rfl
    | ok next =>
      rw [List.length_cons] at hfuel
      exact ih hnumbers (by omega) hlast next

variable {Message : Type} {empty : Message} {set : Message → Field → Except DecodeError Message}
  {number : ℕ} {bytes : Bytes} {entries : List (ℕ × Bytes)}

theorem numbers_of_written (hwritten : Written number bytes entries) (hone : 1 ≤ number) (hlt : number < 15) :
    ∀ entry ∈ entries, 1 ≤ entry.1 ∧ entry.1 < 15 := by
  rcases hwritten with rfl | ⟨-, rfl⟩
  · simpa using ⟨hone, hlt⟩
  · simp

/-- A field that is left out is as if it were written empty. -/
theorem foldlM_written {message : Message} (hwritten : Written number bytes entries)
    (hempty : set message ⟨number, .bytes []⟩ = .ok message) :
    (entries.map fun entry ↦ (⟨entry.1, .bytes entry.2⟩ : Field)).foldlM set message =
      set message ⟨number, .bytes bytes⟩ := by
  rcases hwritten with rfl | ⟨rfl, rfl⟩
  · rw [List.map_singleton, List.foldlM_cons]
    exact bind_pure _
  · rw [hempty]
    rfl

/-- What a message of the server is as the client takes it apart. -/
theorem decodeMessage_marshal (hnumbers : ∀ entry ∈ entries, 1 ≤ entry.1 ∧ entry.1 < 15)
    (hfits : (marshalFields entries).length ≤ engine.maxLength) :
    decodeMessage engine empty set (.bytes (marshalFields entries)) =
      (entries.map fun entry ↦ ⟨entry.1, .bytes entry.2⟩).foldlM set empty := by
  have hwire := marshalFields_eq_wire fun entry hmem ↦ (hnumbers entry hmem).2
  rw [hwire] at hfits ⊢
  refine decodeMessage_wire (fun entry hmem ↦ ?_) hfits
  obtain ⟨hone, hlt⟩ := hnumbers entry hmem
  exact ⟨hone, hlt.trans (by decide)⟩

theorem length_le_marshalFields (number : ℕ) (bytes : Bytes) :
    bytes.length ≤ (marshalFields [(number, bytes)]).length := by
  rw [marshalFields, List.flatMap_singleton, List.length_append, List.length_append]
  dsimp only
  omega

theorem length_le_of_mem_marshalFields {entry : ℕ × Bytes} (hmem : entry ∈ entries) :
    entry.2.length ≤ (marshalFields entries).length := by
  obtain ⟨before, after, rfl⟩ := List.append_of_mem hmem
  rw [← List.singleton_append (l := after), marshalFields_append, marshalFields_append, List.length_append,
    List.length_append]
  exact ((length_le_marshalFields entry.1 entry.2).trans (Nat.le_add_right _ _)).trans (Nat.le_add_left _ _)

/-- A message with two fields, in any of its encodings. -/
theorem decodeMessage_of_encodesPair {first second body : Bytes} {half message : Message}
    (hbody : EncodesPair first second body) (hfits : body.length ≤ engine.maxLength)
    (hempty : set empty ⟨1, .bytes []⟩ = .ok empty) (hfirst : set empty ⟨1, .bytes first⟩ = .ok half)
    (hhalf : set half ⟨2, .bytes []⟩ = .ok half) (hsecond : set half ⟨2, .bytes second⟩ = .ok message) :
    decodeMessage engine empty set (.bytes body) = .ok message := by
  obtain ⟨firstEntries, secondEntries, hone, htwo, rfl⟩ := hbody
  have hnumbers := List.forall_mem_append.mpr
    ⟨numbers_of_written hone (by decide) (by decide), numbers_of_written htwo (by decide) (by decide)⟩
  rw [decodeMessage_marshal hnumbers hfits, List.map_append, List.foldlM_append, foldlM_written hone hempty,
    hfirst]
  exact (foldlM_written htwo hhalf).trans hsecond

/-- The client reads the server's proof from any encoding of it. -/
theorem decodeAuthMessage_encoded_serverProof {nonce mac body : Bytes}
    (hencodes : Auth.AuthMessage.Encodes (.serverProof nonce mac) body)
    (hfits : body.length ≤ engine.maxLength) :
    decodeAuthMessage engine body = .ok ⟨none, some ⟨.bytes nonce, .bytes mac⟩, none⟩ := by
  cases hencodes with
  | @serverProof _ _ inner hinner =>
    have hproof : decodeServerProof engine (.bytes inner) = .ok ⟨.bytes nonce, .bytes mac⟩ :=
      decodeMessage_of_encodesPair hinner ((length_le_marshalFields _ _).trans hfits) rfl rfl rfl rfl
    have hwire : (marshalFields [(2, inner)]).drop 0 = wire [(2, inner)] := marshalFields_eq_wire (by simp)
    have hone : 1 ≤ (marshalFields [(2, inner)]).length := by
      rw [← List.drop_zero (l := marshalFields _), hwire, wire_cons]
      exact Nat.succ_pos _
    rw [decodeAuthMessage,
      decodeAuthMessageFrom_wire (by simp) (hfits.trans_lt engine.maxLength_lt) hone hwire,
      List.map_singleton, List.foldlM_cons, AuthMessage.set, hproof]
    rfl

/-- The client reads the server's hello from any encoding of it. -/
theorem decodeCertHandshakeMessage_encoded_hello {cert : Cert.Envelope Bytes} {nonce body : Bytes}
    (hencodes : Auth.CertHandshakeMessage.Encodes (.hello (some cert) nonce) body)
    (hfits : body.length ≤ engine.maxLength) :
    decodeCertHandshakeMessage engine (.bytes body) =
      .ok ⟨some ⟨⟨.bytes cert.content, .bytes cert.signature⟩, .bytes nonce⟩, none⟩ := by
  cases hencodes with
  | @hello _ _ signed entries hsigned hnonce =>
    have hinner := (length_le_marshalFields 1 (marshalFields ((1, signed) :: entries))).trans hfits
    have hsize : signed.length ≤ engine.maxLength :=
      (length_le_of_mem_marshalFields List.mem_cons_self).trans hinner
    have hcert : decodeCert engine (.bytes signed) = .ok ⟨.bytes cert.content, .bytes cert.signature⟩ :=
      decodeMessage_of_encodesPair hsigned hsize rfl rfl rfl rfl
    have hhello : decodeCertHello engine (.bytes (marshalFields ((1, signed) :: entries))) =
        .ok ⟨⟨.bytes cert.content, .bytes cert.signature⟩, .bytes nonce⟩ := by
      refine decodeMessage_of_encodesPair ⟨[(1, signed)], entries, .inl rfl, hnonce, rfl⟩ hinner rfl
        (?_ : _ = Except.ok ⟨⟨.bytes cert.content, .bytes cert.signature⟩, .bytes []⟩) rfl rfl
      simp only [hcert]
      rfl
    rw [decodeCertHandshakeMessage, decodeMessage_marshal (by simp) hfits, List.map_singleton,
      List.foldlM_cons]
    simp only [hhello]
    rfl

theorem decodeCertHandshakeMessage_encoded_proof {signature body : Bytes}
    (hencodes : Auth.CertHandshakeMessage.Encodes (.proof signature) body)
    (hfits : body.length ≤ engine.maxLength) :
    decodeCertHandshakeMessage engine (.bytes body) = .ok ⟨none, some ⟨.bytes signature⟩⟩ := by
  cases hencodes with
  | @proof _ entries hsignature =>
    have hproof : decodeSignedNonce engine (.bytes (marshalFields entries)) = .ok ⟨.bytes signature⟩ := by
      rw [decodeSignedNonce, decodeMessage_marshal (numbers_of_written hsignature (by decide) (by decide))
        ((length_le_marshalFields _ _).trans hfits)]
      exact foldlM_written hsignature rfl
    rw [decodeCertHandshakeMessage, decodeMessage_marshal (by simp) hfits, List.map_singleton,
      List.foldlM_cons]
    simp only [hproof]
    rfl

theorem decodeWalletHandshakeMessage_encoded_challenge {sessionKey nonceS serverSig body : Bytes}
    (hencodes : Auth.WalletHandshakeMessage.Encodes (.challenge sessionKey nonceS serverSig) body)
    (hfits : body.length ≤ engine.maxLength) :
    decodeWalletHandshakeMessage engine (.bytes body) =
      .ok ⟨none, some ⟨.bytes sessionKey, .bytes nonceS, .bytes serverSig⟩, none⟩ := by
  cases hencodes with
  | @challenge _ _ _ keys nonces signatures hkey hnonce hsignature =>
    have hchallenge : decodeWalletChallenge engine (.bytes (marshalFields (keys ++ nonces ++ signatures))) =
        .ok ⟨.bytes sessionKey, .bytes nonceS, .bytes serverSig⟩ := by
      have hnumbers := List.forall_mem_append.mpr ⟨List.forall_mem_append.mpr
        ⟨numbers_of_written hkey (by decide) (by decide), numbers_of_written hnonce (by decide) (by decide)⟩,
        numbers_of_written hsignature (by decide) (by decide)⟩
      rw [decodeWalletChallenge, decodeMessage_marshal hnumbers ((length_le_marshalFields _ _).trans hfits),
        List.map_append, List.map_append, List.foldlM_append, List.foldlM_append, foldlM_written hkey rfl]
      exact (congrArg (· >>= _) (foldlM_written hnonce rfl)).trans (foldlM_written hsignature rfl)
    rw [decodeWalletHandshakeMessage, decodeMessage_marshal (by simp) hfits, List.map_singleton,
      List.foldlM_cons]
    simp only [hchallenge]
    rfl

end Client

end Mosey.Typescript

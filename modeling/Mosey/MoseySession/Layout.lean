import Mosey.MoseySession.Program
import Mosey.WalletSolana.Accounts

/-!
# The account layout

An account holds the discriminator of its type and then its fields in Borsh: keys as they are,
integers in little-endian. The server decodes them at fixed offsets. Decoding what the program stores
gives back every field but the bump, which the server does not read.
-/

namespace Mosey.MoseySession

open WalletSolana Wallet

/-- A number in this many little-endian bytes. -/
def littleEndianBytes : ℕ → ℕ → Bytes
  | 0, _ => []
  | width + 1, value => UInt8.ofNat value :: littleEndianBytes width (value / 256)

def Session.serialize (session : Session) : Bytes :=
  sessionDisc ++ (session.sessionKey.1 ++ (session.owner.1 ++
    (littleEndianBytes 2 session.epoch.toNat ++ [session.bump])))

def Grant.serialize (grant : Grant) : Bytes :=
  grantDisc ++ (grant.session.1 ++ (grant.grantee.1 ++ ([UInt8.ofBitVec grant.caps] ++
    (littleEndianBytes 8 grant.expiry.toBitVec.toNat ++
      (littleEndianBytes 2 grant.epoch.toNat ++ [grant.bump])))))

def AccountData.serialize : AccountData → Bytes
  | .session held => held.serialize
  | .grant held => held.serialize

/-- An account as `getProgramAccounts` shows it. -/
def programAccount (location : Pubkey) (data : AccountData) : Account :=
  ⟨address location.1, data.serialize⟩

/-- What the server decodes of a session account. -/
def Session.decoded (session : Session) : WalletSolana.Session :=
  ⟨session.sessionKey.1, session.owner.1, session.epoch.toNat⟩

/-- What the server decodes of a grant account. -/
def Grant.decoded (grant : Grant) : WalletSolana.Grant :=
  ⟨grant.session.1, grant.grantee.1, grant.caps, grant.expiry.toInt, grant.epoch.toNat⟩

@[simp] theorem length_littleEndianBytes (width value : ℕ) :
    (littleEndianBytes width value).length = width := by
  induction width generalizing value with
  | zero => rfl
  | succ width ih => rw [littleEndianBytes, List.length_cons, ih]

/-- What is written in little-endian order is read back up to the width. -/
theorem littleEndian_littleEndianBytes (width value : ℕ) :
    littleEndian (littleEndianBytes width value) = value % 256 ^ width := by
  induction width generalizing value with
  | zero =>
    rw [pow_zero, Nat.mod_one]
    rfl
  | succ width ih =>
    have htail := ih (value / 256)
    unfold littleEndian at htail ⊢
    rw [littleEndianBytes, List.map_cons, Nat.ofDigits_cons, htail, pow_succ', Nat.mod_mul]
    rfl

theorem littleEndian_epoch (epoch : UInt16) :
    littleEndian (littleEndianBytes 2 epoch.toNat) = epoch.toNat := by
  rw [littleEndian_littleEndianBytes]
  exact Nat.mod_eq_of_lt epoch.toNat_lt

theorem littleEndianInt64_expiry (expiry : Int64) :
    littleEndianInt64 (littleEndianBytes 8 expiry.toBitVec.toNat) = expiry.toInt := by
  unfold littleEndianInt64
  have hvalue : expiry.toBitVec.toNat % 256 ^ 8 = expiry.toBitVec.toNat :=
    Nat.mod_eq_of_lt expiry.toBitVec.isLt
  rw [littleEndian_littleEndianBytes, hvalue, BitVec.ofNat_toNat, BitVec.setWidth_eq]
  rfl

/-- The field that follows what lies before its offset. -/
theorem slice_append (before field after : Bytes) {offset length : ℕ}
    (hoffset : before.length = offset) (hlength : field.length = length) :
    slice (before ++ (field ++ after)) offset length = field := by
  unfold slice
  rw [List.drop_left' hoffset, List.take_left' hlength]

theorem getD_append (before : Bytes) (byte : UInt8) (after : Bytes) {offset : ℕ}
    (hoffset : before.length = offset) : (before ++ ([byte] ++ after)).getD offset 0 = byte := by
  subst hoffset
  simp

section Decoding

variable (session : Session) (grant : Grant)

/-- A session account has the length that the decoder requires. -/
theorem length_serialize_session : session.serialize.length = sessionLen := by
  simp [Session.serialize, session.sessionKey.2, session.owner.2, publicKeySize, sessionDisc,
    sessionLen]

theorem length_serialize_grant : grant.serialize.length = grantLen := by
  simp [Grant.serialize, grant.session.2, grant.grantee.2, publicKeySize, grantDisc, grantLen]

theorem take_serialize_session : session.serialize.take 8 = sessionDisc :=
  List.take_left' rfl

theorem take_serialize_grant : grant.serialize.take 8 = grantDisc :=
  List.take_left' rfl

/-- The decoder reads back the session that the program wrote. -/
theorem decodeSession_serialize : decodeSession session.serialize = .ok session.decoded := by
  have hdisc : sessionDisc.length = 8 := rfl
  have hkey : session.sessionKey.1.length = 32 := session.sessionKey.2
  have howner : session.owner.1.length = 32 := session.owner.2
  have hshort : ¬ session.serialize.length < sessionLen := by
    rw [length_serialize_session]
    exact Nat.lt_irrefl _
  unfold decodeSession
  rw [if_neg hshort, if_neg (not_not.mpr (take_serialize_session session))]
  unfold Session.serialize
  rw [slice_append sessionDisc session.sessionKey.1 _ hdisc hkey,
    ← List.append_assoc,
    slice_append (sessionDisc ++ session.sessionKey.1) session.owner.1 _ (by simp [hdisc, hkey])
      howner,
    ← List.append_assoc,
    slice_append (sessionDisc ++ session.sessionKey.1 ++ session.owner.1) _ _
      (by simp [hdisc, hkey, howner]) (length_littleEndianBytes 2 _),
    littleEndian_epoch]
  rfl

/-- The decoder reads back the grant that the program wrote. -/
theorem decodeGrant_serialize : decodeGrant grant.serialize = .ok grant.decoded := by
  have hdisc : grantDisc.length = 8 := rfl
  have hsession : grant.session.1.length = 32 := grant.session.2
  have hgrantee : grant.grantee.1.length = 32 := grant.grantee.2
  have hshort : ¬ grant.serialize.length < grantLen := by
    rw [length_serialize_grant]
    exact Nat.lt_irrefl _
  unfold decodeGrant
  rw [if_neg hshort, if_neg (not_not.mpr (take_serialize_grant grant))]
  unfold Grant.serialize
  let keys := grantDisc ++ grant.session.1 ++ grant.grantee.1
  have hkeys : keys.length = 72 := by simp [keys, hdisc, hsession, hgrantee]
  rw [slice_append grantDisc grant.session.1 _ hdisc hsession,
    ← List.append_assoc,
    slice_append (grantDisc ++ grant.session.1) grant.grantee.1 _ (by simp [hdisc, hsession])
      hgrantee,
    ← List.append_assoc,
    getD_append keys _ _ hkeys,
    ← List.append_assoc,
    slice_append (keys ++ [UInt8.ofBitVec grant.caps]) _ _ (by simp [hkeys])
      (length_littleEndianBytes 8 _),
    littleEndianInt64_expiry,
    ← List.append_assoc,
    slice_append (keys ++ [UInt8.ofBitVec grant.caps] ++ _) _ _ (by simp [hkeys])
      (length_littleEndianBytes 2 _),
    littleEndian_epoch]
  rfl

end Decoding

/-- The server takes an account for its session exactly if it is the session of its key. -/
theorem sessionAccount_programAccount {sessionKey : PublicKey} {location : Pubkey} {data : AccountData}
    {found : WalletSolana.Session × PublicKey × String} :
    sessionAccount sessionKey (programAccount location data) = some found ↔
      ∃ session, data = .session session ∧ session.sessionKey.1 = sessionKey ∧
        found = (session.decoded, location.1, address location.1) := by
  cases data with
  | session session =>
    have hdisc : ¬ (session.serialize.length < 8 ∨ session.serialize.take 8 ≠ sessionDisc) := by
      rw [length_serialize_session, take_serialize_session]
      decide
    simp only [sessionAccount, programAccount, AccountData.serialize, if_neg hdisc,
      decodeSession_serialize, parseAddress_address location.2]
    by_cases hkey : session.sessionKey.1 = sessionKey
    · simp [Session.decoded, hkey, eq_comm]
    · simp [Session.decoded, hkey]
  | grant grant =>
    have hdisc : grant.serialize.length < 8 ∨ grant.serialize.take 8 ≠ sessionDisc := by
      rw [take_serialize_grant]
      exact .inr (by decide)
    simp [sessionAccount, programAccount, AccountData.serialize, hdisc]

/-- The server takes an account for a grant exactly if it is one of the session at its address. -/
theorem grantAccount_programAccount {sessAddr : PublicKey} {location : Pubkey} {data : AccountData}
    {found : WalletSolana.Grant × String} :
    grantAccount sessAddr (programAccount location data) = some found ↔
      ∃ grant, data = .grant grant ∧ grant.session.1 = sessAddr ∧
        found = (grant.decoded, address location.1) := by
  cases data with
  | session session =>
    have hdisc : session.serialize.length < 8 ∨ session.serialize.take 8 ≠ grantDisc := by
      rw [take_serialize_session]
      exact .inr (by decide)
    simp [grantAccount, programAccount, AccountData.serialize, hdisc]
  | grant grant =>
    have hdisc : ¬ (grant.serialize.length < 8 ∨ grant.serialize.take 8 ≠ grantDisc) := by
      rw [length_serialize_grant, take_serialize_grant]
      decide
    simp only [grantAccount, programAccount, AccountData.serialize, if_neg hdisc,
      decodeGrant_serialize]
    by_cases hsession : grant.session.1 = sessAddr
    · simp [Grant.decoded, hsession, eq_comm]
    · simp [Grant.decoded, hsession]

end Mosey.MoseySession

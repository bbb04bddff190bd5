import Mosey.MoseySession.Layout
import Mosey.WalletSolana.Source
import Mosey.WalletSolana.Transaction

/-!
# Governance transactions

The owner of a session changes it by transactions that hold two instructions of the compute budget and
one of the program. The addresses of the accounts are derived from the seeds that the program uses. A
transaction is signed with the owner's key file, or built without signatures and signed by a wallet in
a browser.
-/

namespace Mosey.WalletSolana

open Library Wallet MoseySession

/-- SHA-256 on the inputs of program addresses. An address off the curve has one input only. -/
structure AddressHash where
  sha256 : Bytes → Pubkey
  onCurve : Pubkey → Bool
  input_unique : ∀ {input input'}, sha256 input = sha256 input' → onCurve (sha256 input) = false →
    input = input'

/-- Hashes given by a table without a repeated address off the curve. Every other input is hashed to
one key on the curve. -/
def AddressHash.ofTable (table : List (Bytes × Pubkey)) (other : Pubkey)
    (hother : other ∉ table.map Prod.snd)
    (hunique : ∀ entry ∈ table, ∀ entry' ∈ table, entry.2 = entry'.2 → entry.1 = entry'.1) :
    AddressHash where
  sha256 input := ((table.find? (·.1 = input)).map Prod.snd).getD other
  onCurve key := !(table.map Prod.snd).contains key
  input_unique := by
    have hfound : ∀ {input}, ((table.find? (·.1 = input)).map Prod.snd).getD other ∈ table.map Prod.snd →
        ∃ entry ∈ table, entry.1 = input ∧
          ((table.find? (·.1 = input)).map Prod.snd).getD other = entry.2 := by
      intro input hmem
      cases hfind : table.find? (·.1 = input) with
      | none =>
        rw [hfind] at hmem
        exact absurd hmem hother
      | some entry =>
        exact ⟨entry, List.mem_of_find?_eq_some hfind, by simpa using List.find?_some hfind, rfl⟩
    intro input input' hsame hcurve
    have hmem := List.contains_iff_mem.mp (by
      simpa only [Bool.not_eq_eq_eq_not, Bool.not_false] using hcurve)
    obtain ⟨entry, hentry, rfl, hhash⟩ := hfound hmem
    obtain ⟨entry', hentry', rfl, hhash'⟩ := hfound (hsame ▸ hmem)
    exact hunique entry hentry entry' hentry' (hhash.symm.trans (hsame.trans hhash'))

def pdaMarker : String := "ProgramDerivedAddress"

def errNoBump : String := "walletsolana: unable to find a valid PDA bump"

section Addresses

variable (hash : AddressHash) (programID : Pubkey)

/-- The address of one bump, which may lie on the curve. -/
def pdaCandidate (seeds : List Bytes) (bump : UInt8) : Pubkey :=
  hash.sha256 (seeds.flatten ++ [bump] ++ programID.1 ++ ascii pdaMarker)

/-- The loop of `findPDA`, at this bump. -/
def findPDAFrom (seeds : List Bytes) : ℕ → Except String (Pubkey × UInt8)
  | 0 =>
    let cand := pdaCandidate hash programID seeds 0
    if hash.onCurve cand then .error errNoBump else .ok (cand, 0)
  | bump + 1 =>
    let cand := pdaCandidate hash programID seeds (UInt8.ofNat (bump + 1))
    if hash.onCurve cand then findPDAFrom seeds bump else .ok (cand, UInt8.ofNat (bump + 1))

def findPDA (seeds : List Bytes) : Except String (Pubkey × UInt8) :=
  findPDAFrom hash programID seeds 255

/-- The address that is found is the candidate of its bump and off the curve. -/
theorem findPDAFrom_eq_ok {seeds : List Bytes} {last : ℕ} {address : Pubkey} {bump : UInt8}
    (hfind : findPDAFrom hash programID seeds last = .ok (address, bump)) :
    pdaCandidate hash programID seeds bump = address ∧ hash.onCurve address = false := by
  induction last with
  | zero =>
    rw [findPDAFrom] at hfind
    split at hfind
    · cases hfind
    · next hcurve =>
      obtain ⟨rfl, rfl⟩ := Prod.mk.inj (Except.ok.inj hfind)
      exact ⟨rfl, Bool.eq_false_iff.mpr hcurve⟩
  | succ last ih =>
    rw [findPDAFrom] at hfind
    split at hfind
    · exact ih hfind
    · next hcurve =>
      obtain ⟨rfl, rfl⟩ := Prod.mk.inj (Except.ok.inj hfind)
      exact ⟨rfl, Bool.eq_false_iff.mpr hcurve⟩

/-- Different seeds never give the same address. -/
theorem findPDA_seeds_injective {seeds seeds' : List Bytes} {address : Pubkey} {bump bump' : UInt8}
    (hfind : findPDA hash programID seeds = .ok (address, bump))
    (hfind' : findPDA hash programID seeds' = .ok (address, bump')) : seeds.flatten = seeds'.flatten := by
  obtain ⟨rfl, hcurve⟩ := findPDAFrom_eq_ok hash programID hfind
  obtain ⟨hsame, -⟩ := findPDAFrom_eq_ok hash programID hfind'
  have hinputs := hash.input_unique hsame.symm hcurve
  simp only [List.append_assoc] at hinputs
  exact (List.append_inj' hinputs (by simp)).1

end Addresses

/-- `sha256("global:<name>")[:8]` for the names of the program. -/
def ixDiscriminator : String → Bytes
  | "register_session" => [101, 116, 106, 43, 152, 189, 4, 110]
  | "transfer_ownership" => [65, 177, 215, 73, 53, 45, 99, 47]
  | "grant" => [145, 189, 68, 153, 161, 231, 76, 107]
  | "revoke" => [170, 23, 31, 34, 133, 173, 93, 242]
  | "bump_epoch" => [181, 89, 70, 61, 253, 66, 169, 233]
  | _ => []

def computeBudgetProgramID : Pubkey :=
  ⟨[3, 6, 70, 111, 229, 33, 23, 50, 255, 236, 173, 186, 114, 195, 155, 231, 188, 140, 229, 187, 197, 247,
    18, 107, 44, 67, 155, 58, 64, 0, 0, 0], rfl⟩

example : address computeBudgetProgramID.1 = "ComputeBudget111111111111111111111111111111" := by
  decide +kernel

def priorityIxs : List Instruction :=
  -- SetComputeUnitLimit and SetComputeUnitPrice
  [{ programID := computeBudgetProgramID, accounts := [], data := 0x02 :: littleEndianBytes 4 200000 },
    { programID := computeBudgetProgramID, accounts := [], data := 0x03 :: littleEndianBytes 8 50000 }]

def withPriority (ixs : List Instruction) : List Instruction := priorityIxs ++ ixs

/-- What the owner of a session can do with it. -/
inductive Operation
  | transferOwnership (newOwner : Pubkey)
  | grant (grantee : Pubkey) (caps : Caps) (expiry : Int64)
  | revoke (grantee : Pubkey)
  | bumpEpoch
  deriving DecidableEq

namespace Source

variable (source : Source) (hash : AddressHash)

def programPubkey : Except String Pubkey :=
  match base58Decode (Utf8.encode source.programID.toList) with
  | .error _ => .error ("walletsolana: bad program id " ++ goQuote source.programID)
  | .ok bytes =>
    if hlength : bytes.length = publicKeySize then .ok ⟨bytes, hlength⟩
    else .error ("walletsolana: bad program id " ++ goQuote source.programID)

def sessionPDA (sessionKey : Pubkey) : Except String (Pubkey × UInt8) := do
  let prog ← source.programPubkey
  findPDA hash prog [ascii "session", sessionKey.1]

def grantPDA (sessionAddr grantee : Pubkey) : Except String (Pubkey × UInt8) := do
  let prog ← source.programPubkey
  findPDA hash prog [ascii "grant", sessionAddr.1, grantee.1]

def transferOwnershipIx (ownerPub sessionKey newOwner : Pubkey) : Except String Instruction := do
  let prog ← source.programPubkey
  let (sessionAddr, _) ← source.sessionPDA hash sessionKey
  return {
    programID := prog
    accounts := [⟨sessionAddr, false, true⟩, ⟨ownerPub, true, true⟩]
    data := ixDiscriminator "transfer_ownership" ++ newOwner.1 }

def grantIx (ownerPub sessionKey grantee : Pubkey) (caps : Caps) (expiry : Int64) :
    Except String Instruction := do
  let prog ← source.programPubkey
  let (sessionAddr, _) ← source.sessionPDA hash sessionKey
  let (grantAddr, _) ← source.grantPDA hash sessionAddr grantee
  return {
    programID := prog
    accounts := [⟨sessionAddr, false, false⟩, ⟨grantAddr, false, true⟩, ⟨ownerPub, true, true⟩,
      ⟨systemProgramID, false, false⟩]
    data := ixDiscriminator "grant" ++ grantee.1 ++ [UInt8.ofBitVec caps] ++
      littleEndianBytes 8 expiry.toBitVec.toNat }

def bumpEpochIx (ownerPub sessionKey : Pubkey) : Except String Instruction := do
  let prog ← source.programPubkey
  let (sessionAddr, _) ← source.sessionPDA hash sessionKey
  return {
    programID := prog
    accounts := [⟨sessionAddr, false, true⟩, ⟨ownerPub, true, true⟩]
    data := ixDiscriminator "bump_epoch" }

def revokeIx (ownerPub sessionKey grantee : Pubkey) : Except String Instruction := do
  let prog ← source.programPubkey
  let (sessionAddr, _) ← source.sessionPDA hash sessionKey
  let (grantAddr, _) ← source.grantPDA hash sessionAddr grantee
  return {
    programID := prog
    accounts := [⟨sessionAddr, false, false⟩, ⟨grantAddr, false, true⟩, ⟨ownerPub, true, true⟩]
    data := ixDiscriminator "revoke" }

/-- The instruction that `RegisterSession` submits. -/
def registerSessionIx (ownerPub sessPub : Pubkey) : Except String Instruction := do
  let prog ← source.programPubkey
  let (sessionAddr, _) ← source.sessionPDA hash sessPub
  return {
    programID := prog
    accounts := [⟨sessionAddr, false, true⟩, ⟨sessPub, true, false⟩, ⟨ownerPub, true, true⟩,
      ⟨systemProgramID, false, false⟩]
    data := ixDiscriminator "register_session" }

def operationIx (ownerPub sessionKey : Pubkey) : Operation → Except String Instruction
  | .transferOwnership newOwner => source.transferOwnershipIx hash ownerPub sessionKey newOwner
  | .grant grantee caps expiry => source.grantIx hash ownerPub sessionKey grantee caps expiry
  | .revoke grantee => source.revokeIx hash ownerPub sessionKey grantee
  | .bumpEpoch => source.bumpEpochIx hash ownerPub sessionKey

end Source

/-! ## Transactions -/

/-- What `getLatestBlockhash` makes of the text in the answer. -/
def parseBlockhash (text : String) : Except String Pubkey :=
  match base58Decode (Utf8.encode text.toList) with
  | .error _ => .error ("walletsolana: bad blockhash " ++ goQuote text)
  | .ok bytes =>
    if hlength : bytes.length = publicKeySize then .ok ⟨bytes, hlength⟩
    else .error ("walletsolana: bad blockhash " ++ goQuote text)

section Submitting

variable {Private : Type} (crypto : WireEd25519 Private)

/-- The transaction that `submit` sends, for the blockhash in the answer to its first call. -/
def submit (blockhash : String) (feePayer : Pubkey) (ixs : List Instruction)
    (signers : Pubkey → Option Private) : Except String Bytes := do
  let bh ← parseBlockhash blockhash
  let msg ← compileMessage feePayer bh (withPriority ixs)
  signTx crypto.sign msg signers

def buildUnsigned (blockhash : String) (feePayer : Pubkey) (ixs : List Instruction) :
    Except String Bytes := do
  let bh ← parseBlockhash blockhash
  let msg ← compileMessage feePayer bh (withPriority ixs)
  return compileUnsignedTx msg

/-- The keys of a Go map literal with one entry. -/
def oneSigner (key : Pubkey) (secret : Private) : Pubkey → Option Private :=
  Function.update (fun _ ↦ none) key (some secret)

variable (source : Source) (hash : AddressHash) (blockhash : String)

namespace Source

def registerSession (owner sessionKey : Private) : Except String Bytes := do
  let ownerPub := crypto.pubkey owner
  let sessPub := crypto.pubkey sessionKey
  let ix ← source.registerSessionIx hash ownerPub sessPub
  submit crypto blockhash ownerPub [ix]
    (Function.update (oneSigner ownerPub owner) sessPub (some sessionKey))

def grant (owner : Private) (sessionKey grantee : Pubkey) (caps : Caps) (expiry : Int64) :
    Except String Bytes := do
  let ownerPub := crypto.pubkey owner
  let ix ← source.grantIx hash ownerPub sessionKey grantee caps expiry
  submit crypto blockhash ownerPub [ix] (oneSigner ownerPub owner)

def transferOwnership (owner : Private) (sessionKey newOwner : Pubkey) : Except String Bytes := do
  let ownerPub := crypto.pubkey owner
  let ix ← source.transferOwnershipIx hash ownerPub sessionKey newOwner
  submit crypto blockhash ownerPub [ix] (oneSigner ownerPub owner)

def bumpEpoch (owner : Private) (sessionKey : Pubkey) : Except String Bytes := do
  let ownerPub := crypto.pubkey owner
  let ix ← source.bumpEpochIx hash ownerPub sessionKey
  submit crypto blockhash ownerPub [ix] (oneSigner ownerPub owner)

def buildTransferOwnership (ownerPub sessionKey newOwner : Pubkey) : Except String Bytes := do
  let ix ← source.transferOwnershipIx hash ownerPub sessionKey newOwner
  buildUnsigned blockhash ownerPub [ix]

def buildGrant (ownerPub sessionKey grantee : Pubkey) (caps : Caps) (expiry : Int64) :
    Except String Bytes := do
  let ix ← source.grantIx hash ownerPub sessionKey grantee caps expiry
  buildUnsigned blockhash ownerPub [ix]

def buildBumpEpoch (ownerPub sessionKey : Pubkey) : Except String Bytes := do
  let ix ← source.bumpEpochIx hash ownerPub sessionKey
  buildUnsigned blockhash ownerPub [ix]

def buildRevoke (ownerPub sessionKey grantee : Pubkey) : Except String Bytes := do
  let ix ← source.revokeIx hash ownerPub sessionKey grantee
  buildUnsigned blockhash ownerPub [ix]

/-- What `mosey web` offers to the owner of a session. -/
def build (ownerPub sessionKey : Pubkey) : Operation → Except String Bytes
  | .transferOwnership newOwner =>
    source.buildTransferOwnership hash blockhash ownerPub sessionKey newOwner
  | .grant grantee caps expiry => source.buildGrant hash blockhash ownerPub sessionKey grantee caps expiry
  | .revoke grantee => source.buildRevoke hash blockhash ownerPub sessionKey grantee
  | .bumpEpoch => source.buildBumpEpoch hash blockhash ownerPub sessionKey

/-- What `mosey session` offers to the owner of a session, which is no revocation. -/
def command (owner : Private) (sessionKey : Pubkey) : Operation → Option (Except String Bytes)
  | .transferOwnership newOwner =>
    some (source.transferOwnership crypto hash blockhash owner sessionKey newOwner)
  | .grant grantee caps expiry =>
    some (source.grant crypto hash blockhash owner sessionKey grantee caps expiry)
  | .revoke _ => none
  | .bumpEpoch => some (source.bumpEpoch crypto hash blockhash owner sessionKey)

end Source

end Submitting

section Compiling

variable {feePayer : Pubkey} {ix : Instruction}

/-- The accounts that one instruction behind the priority instructions refers to. -/
theorem references_withPriority (feePayer : Pubkey) (ix : Instruction) :
    references feePayer (withPriority [ix]) =
      ⟨feePayer, true, true⟩ :: ix.accounts ++ [⟨computeBudgetProgramID, false, false⟩,
        ⟨computeBudgetProgramID, false, false⟩, ⟨ix.programID, false, false⟩] := by
  simp [references, withPriority, priorityIxs]

/-- Who signs is the fee payer and the signers of the instruction. -/
theorem isSigner_withPriority {key : Pubkey} :
    (combined (references feePayer (withPriority [ix])) key).isSigner = true ↔
      key = feePayer ∨ ∃ m ∈ ix.accounts, m.key = key ∧ m.isSigner = true := by
  rw [references_withPriority]
  simp [combined, eq_comm (a := feePayer)]

theorem writable_withPriority {key : Pubkey} :
    (combined (references feePayer (withPriority [ix])) key).writable = true ↔
      key = feePayer ∨ ∃ m ∈ ix.accounts, m.key = key ∧ m.writable = true := by
  rw [references_withPriority]
  simp [combined, eq_comm (a := feePayer)]

/-- What every builder keeps to, far below the limits of a message. -/
structure Instruction.Short (ix : Instruction) : Prop where
  accounts : ix.accounts.length ≤ 4
  data : ix.data.length ≤ 49

theorem Instruction.Short.keys (hshort : ix.Short) (feePayer : Pubkey) :
    ((references feePayer (withPriority [ix])).map (·.key)).dedup.length ≤ 255 := by
  have hle := ((references feePayer (withPriority [ix])).map (·.key)).dedup_sublist.length_le
  rw [references_withPriority] at hle ⊢
  simp only [List.length_map, List.length_append, List.length_cons, List.length_nil] at hle
  have := hshort.accounts
  omega

theorem Instruction.Short.lengths (hshort : ix.Short) :
    ∀ other ∈ withPriority [ix], other.accounts.length < 2 ^ 16 ∧ other.data.length < 2 ^ 16 := by
  intro other hother
  simp only [withPriority, priorityIxs, List.cons_append, List.nil_append, List.mem_cons,
    List.not_mem_nil, or_false] at hother
  rcases hother with rfl | rfl | rfl
  · exact ⟨by decide, by simp⟩
  · exact ⟨by decide, by simp⟩
  · have := hshort.accounts
    have := hshort.data
    omega

/-- A short instruction compiles. -/
theorem Instruction.Short.compileMessage_eq (hshort : ix.Short) (feePayer blockhash : Pubkey) :
    compileMessage feePayer blockhash (withPriority [ix]) =
      .ok { accountKeys := (ranksOf feePayer (withPriority [ix])).keys
            numSigners := (ranksOf feePayer (withPriority [ix])).numSigners
            serialized := (messageOf feePayer blockhash (withPriority [ix])).bytes } :=
  WalletSolana.compileMessage_eq blockhash (hshort.keys feePayer) (by simp [withPriority, priorityIxs])
    hshort.lengths

/-- The compiled message of a short instruction is read back. -/
theorem Instruction.Short.reads (hshort : ix.Short) (feePayer blockhash : Pubkey) :
    legacyMessage (messageOf feePayer blockhash (withPriority [ix])).bytes =
      some (messageOf feePayer blockhash (withPriority [ix]), []) := by
  have hreads := reads_messageOf blockhash (hshort.keys feePayer)
    (by simp [withPriority, priorityIxs]) hshort.lengths []
  rwa [List.append_nil] at hreads

end Compiling

/-! ## The two ways to sign -/

section Signing

variable {Private : Type} (crypto : WireEd25519 Private)

/-- A wallet in a browser puts its signature of the message into the only slot. -/
def walletSign (secret : Private) (unsigned : Bytes) : Bytes :=
  fillSlots 1 unsigned [crypto.sign secret (unsigned.drop 65)]

/-- The accounts that have to sign are the owner's. -/
def Instruction.SignedBy (ix : Instruction) (owner : Pubkey) : Prop :=
  ∀ m ∈ ix.accounts, m.isSigner = true → m.key = owner

variable {feePayer : Pubkey} {ix : Instruction}

/-- An instruction signed by the fee payer has one signer. -/
theorem Instruction.SignedBy.take_keys (hsigned : ix.SignedBy feePayer) :
    (ranksOf feePayer (withPriority [ix])).keys.take (ranksOf feePayer (withPriority [ix])).numSigners =
      [feePayer] := by
  have hnodup : ((ranksOf feePayer (withPriority [ix])).keys.take
      (ranksOf feePayer (withPriority [ix])).numSigners).Nodup :=
    (nodup_keys feePayer _).sublist (List.take_sublist ..)
  rw [← List.perm_singleton, List.perm_ext_iff_of_nodup hnodup (List.nodup_singleton _)]
  intro key
  rw [mem_take_numSigners, isSigner_withPriority, List.mem_singleton]
  constructor
  · rintro (hkey | ⟨m, hm, rfl, hsigner⟩)
    · exact hkey
    · exact hsigned m hm hsigner
  · exact .inl

theorem Instruction.SignedBy.numSigners (hsigned : ix.SignedBy feePayer) :
    (ranksOf feePayer (withPriority [ix])).numSigners = 1 := by
  have hlength := congrArg List.length hsigned.take_keys
  have hle : (ranksOf feePayer (withPriority [ix])).numSigners ≤
      (ranksOf feePayer (withPriority [ix])).keys.length := by
    rw [length_ranked, Nat.add_assoc]
    exact Nat.le_add_right ..
  rwa [List.length_take_of_le hle] at hlength

theorem walletSign_append (secret : Private) (message : Bytes) :
    walletSign crypto secret ([1] ++ List.replicate 64 0 ++ message) =
      [1] ++ crypto.sign secret message ++ message := by
  have hsizes : ∀ signature ∈ [crypto.sign secret message], signature.length = 64 := by
    intro signature hmem
    rw [List.mem_singleton.mp hmem]
    exact crypto.length_sign secret message
  have hdrop : ([1] ++ List.replicate 64 0 ++ message).drop 65 = message := List.drop_left' rfl
  rw [walletSign, hdrop, List.append_assoc]
  exact (fillSlots_eq [1] message hsizes 0).trans (by simp)

/-- Signing as the only signer is what a wallet does with the unsigned transaction. -/
theorem signTx_oneSigner {msg : CompiledMessage} {key : Pubkey} (secret : Private)
    (htake : msg.accountKeys.take msg.numSigners = [key]) (hcount : msg.numSigners = 1) :
    signTx crypto.sign msg (oneSigner key secret) =
      .ok (walletSign crypto secret (compileUnsignedTx msg)) := by
  have hsigner : oneSigner key secret key = some secret := Function.update_self ..
  have hunsigned : compileUnsignedTx msg = [1] ++ List.replicate 64 0 ++ msg.serialized := by
    rw [compileUnsignedTx, hcount]
    rfl
  have hsigs : [key].mapM (signatureOf crypto.sign msg.serialized (oneSigner key secret)) =
      .ok [crypto.sign secret msg.serialized] := by
    rw [List.mapM_cons, signatureOf, hsigner]
    rfl
  rw [hunsigned, walletSign_append, signTx, htake, hsigs]
  exact congrArg Except.ok (by simp [appendShortVec, shortVecLoop])

/-- Signing with the owner's key is what the owner's wallet does with the unsigned transaction. -/
theorem submit_eq_walletSign {secret : Private} (hshort : ix.Short)
    (hsigned : ix.SignedBy (crypto.pubkey secret)) (blockhash : String) :
    submit crypto blockhash (crypto.pubkey secret) [ix] (oneSigner (crypto.pubkey secret) secret) =
      (buildUnsigned blockhash (crypto.pubkey secret) [ix]).map (walletSign crypto secret) := by
  rw [submit, buildUnsigned]
  cases parseBlockhash blockhash with
  | error err => rfl
  | ok bh =>
    simp only [bind, Except.bind, hshort.compileMessage_eq]
    exact signTx_oneSigner crypto secret hsigned.take_keys hsigned.numSigners

end Signing

section Builders

variable {source : Source} {hash : AddressHash} {ownerPub sessionKey : Pubkey} {operation : Operation}
variable {ix : Instruction}

theorem Source.sessionPDA_eq_ok {found : Pubkey × UInt8} :
    source.sessionPDA hash sessionKey = .ok found ↔ ∃ prog, source.programPubkey = .ok prog ∧
      findPDA hash prog [ascii "session", sessionKey.1] = .ok found :=
  bind_eq_ok

theorem Source.grantPDA_eq_ok {sessionAddr grantee : Pubkey} {found : Pubkey × UInt8} :
    source.grantPDA hash sessionAddr grantee = .ok found ↔ ∃ prog, source.programPubkey = .ok prog ∧
      findPDA hash prog [ascii "grant", sessionAddr.1, grantee.1] = .ok found :=
  bind_eq_ok

/-- Different session keys have different session accounts. -/
theorem Source.sessionPDA_injective {sessionKey' address : Pubkey} {bump bump' : UInt8}
    (hfind : source.sessionPDA hash sessionKey = .ok (address, bump))
    (hfind' : source.sessionPDA hash sessionKey' = .ok (address, bump')) : sessionKey = sessionKey' := by
  obtain ⟨prog, hprog, hfind⟩ := Source.sessionPDA_eq_ok.mp hfind
  obtain ⟨prog', hprog', hfind'⟩ := Source.sessionPDA_eq_ok.mp hfind'
  obtain rfl := Except.ok.inj (hprog.symm.trans hprog')
  have hseeds := findPDA_seeds_injective hash prog hfind hfind'
  exact Subtype.ext (by simpa using hseeds)

theorem Source.grantPDA_injective {session session' grantee grantee' address : Pubkey} {bump bump' : UInt8}
    (hfind : source.grantPDA hash session grantee = .ok (address, bump))
    (hfind' : source.grantPDA hash session' grantee' = .ok (address, bump')) :
    session = session' ∧ grantee = grantee' := by
  obtain ⟨prog, hprog, hfind⟩ := Source.grantPDA_eq_ok.mp hfind
  obtain ⟨prog', hprog', hfind'⟩ := Source.grantPDA_eq_ok.mp hfind'
  obtain rfl := Except.ok.inj (hprog.symm.trans hprog')
  apply grantSeeds_injective
  simpa [grantSeeds] using findPDA_seeds_injective hash prog hfind hfind'

theorem Source.sessionPDA_ne_grantPDA {session grantee address address' : Pubkey} {bump bump' : UInt8}
    (hfind : source.sessionPDA hash sessionKey = .ok (address, bump))
    (hfind' : source.grantPDA hash session grantee = .ok (address', bump')) : address ≠ address' := by
  rintro rfl
  obtain ⟨prog, hprog, hfind⟩ := Source.sessionPDA_eq_ok.mp hfind
  obtain ⟨prog', hprog', hfind'⟩ := Source.grantPDA_eq_ok.mp hfind'
  obtain rfl := Except.ok.inj (hprog.symm.trans hprog')
  have hlength := congrArg List.length (findPDA_seeds_injective hash prog hfind hfind')
  simp [sessionKey.2, session.2, grantee.2, publicKeySize, ascii] at hlength

section Example

def exampleProgram : Pubkey :=
  ⟨[179, 152, 102, 178, 96, 138, 145, 28, 241, 164, 8, 80, 238, 176, 111, 91, 112, 88, 219, 176,
    173, 96, 134, 174, 105, 84, 255, 106, 23, 111, 2, 90], rfl⟩

def exampleDeployed : Source :=
  ⟨"D64mDEWvdThvEXMaxpeLRAP94wst2WcMiyzb3VqZ23T7", (freeKey 2).1, 30 * nanosPerSecond⟩

/-- The addresses of `exampleDerivation`. -/
def exampleHash : AddressHash :=
  .ofTable [(sessionSeeds (freeKey 2) ++ [255] ++ exampleProgram.1 ++ ascii pdaMarker, freeKey 11),
    (grantSeeds (freeKey 11) (freeKey 4) ++ [255] ++ exampleProgram.1 ++ ascii pdaMarker, freeKey 12)]
    (freeKey 0) (by decide) (by decide)

end Example

/-- Every operation of the owner is a short instruction that the owner signs. -/
theorem Source.operationIx_shape (hix : source.operationIx hash ownerPub sessionKey operation = .ok ix) :
    ix.Short ∧ ix.SignedBy ownerPub := by
  cases operation with
  | transferOwnership newOwner =>
    obtain ⟨prog, _, found, _, hix⟩ := by
      simpa only [operationIx, transferOwnershipIx, bind_eq_ok] using hix
    obtain rfl := Except.ok.inj hix
    exact ⟨⟨by simp, by simp [newOwner.2, publicKeySize, ixDiscriminator]⟩, by simp [Instruction.SignedBy]⟩
  | grant grantee caps expiry =>
    obtain ⟨prog, _, found, _, held, _, hix⟩ := by
      simpa only [operationIx, grantIx, bind_eq_ok] using hix
    obtain rfl := Except.ok.inj hix
    exact ⟨⟨by simp, by simp [grantee.2, publicKeySize, ixDiscriminator]⟩, by simp [Instruction.SignedBy]⟩
  | revoke grantee =>
    obtain ⟨prog, _, found, _, held, _, hix⟩ := by
      simpa only [operationIx, revokeIx, bind_eq_ok] using hix
    obtain rfl := Except.ok.inj hix
    exact ⟨⟨by simp, by simp [ixDiscriminator]⟩, by simp [Instruction.SignedBy]⟩
  | bumpEpoch =>
    obtain ⟨prog, _, found, _, hix⟩ := by
      simpa only [operationIx, bumpEpochIx, bind_eq_ok] using hix
    obtain rfl := Except.ok.inj hix
    exact ⟨⟨by simp, by simp [ixDiscriminator]⟩, by simp [Instruction.SignedBy]⟩

variable {Private : Type} (crypto : WireEd25519 Private)

theorem Source.build_eq (blockhash : String) (operation : Operation) :
    source.build hash blockhash ownerPub sessionKey operation =
      source.operationIx hash ownerPub sessionKey operation >>= fun ix ↦
        buildUnsigned blockhash ownerPub [ix] := by
  cases operation <;> rfl

theorem submit_operationIx (blockhash : String) (owner : Private) (operation : Operation) :
    (source.operationIx hash (crypto.pubkey owner) sessionKey operation >>= fun ix ↦
        submit crypto blockhash (crypto.pubkey owner) [ix] (oneSigner (crypto.pubkey owner) owner)) =
      (source.build hash blockhash (crypto.pubkey owner) sessionKey operation).map
        (walletSign crypto owner) := by
  rw [Source.build_eq]
  cases hix : source.operationIx hash (crypto.pubkey owner) sessionKey operation with
  | error err => rfl
  | ok ix =>
    obtain ⟨hshort, hsigned⟩ := Source.operationIx_shape hix
    exact submit_eq_walletSign crypto hshort hsigned blockhash

/-- Whichever way the owner signs, the same transaction is sent, and the same error is reported when
there is none. Only a revocation has no command. -/
theorem command_eq_walletSign (source : Source) (hash : AddressHash) (blockhash : String)
    (owner : Private) (sessionKey : Pubkey) (operation : Operation) :
    source.command crypto hash blockhash owner sessionKey operation =
      match operation with
      | .revoke _ => none
      | operation => some ((source.build hash blockhash (crypto.pubkey owner) sessionKey operation).map
          (walletSign crypto owner)) := by
  cases operation with
  | revoke grantee => rfl
  | transferOwnership newOwner =>
    exact congrArg some (submit_operationIx crypto blockhash owner (.transferOwnership newOwner))
  | grant grantee caps expiry =>
    exact congrArg some (submit_operationIx crypto blockhash owner (.grant grantee caps expiry))
  | bumpEpoch => exact congrArg some (submit_operationIx crypto blockhash owner .bumpEpoch)

end Builders

end Mosey.WalletSolana

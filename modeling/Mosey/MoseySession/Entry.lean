import Mosey.WalletSolana.Governance

/-!
# From a transaction to the program

What the client submits is a transaction with the signatures that its message requires. The header of the
message says which accounts have signed and which may be written, and Anchor hands each call to a function
of the program. How Anchor does so and how the chain derives addresses are assumptions: the dispatch is a
parameter with one law for each function, and the client's loop over bumps is assumed to find what the
chain finds.
-/

namespace Mosey.MoseySession

open Library Wallet WalletSolana

/-- How Anchor hands a call to a function of the program: the discriminator of its name stands in front of
the data, its arguments follow in Borsh, and the accounts are in the order of the account struct. -/
structure Dispatch where
  entry : Call → Option Instruction
  registerSession : ∀ program session sessionKey owner systemProgram,
    entry ⟨program, [session, sessionKey, owner, systemProgram], ixDiscriminator "register_session"⟩ =
      some (.registerSession session sessionKey owner systemProgram)
  transferOwnership : ∀ program session owner newOwner,
    entry ⟨program, [session, owner], ixDiscriminator "transfer_ownership" ++ newOwner.1⟩ =
      some (.transferOwnership session owner newOwner)
  grant : ∀ program session grantAddress owner systemProgram grantee caps expiry,
    entry ⟨program, [session, grantAddress, owner, systemProgram], ixDiscriminator "grant" ++ grantee.1 ++
        [UInt8.ofBitVec caps] ++ littleEndianBytes 8 expiry.toBitVec.toNat⟩ =
      some (.grant session grantAddress owner systemProgram grantee caps expiry)
  revoke : ∀ program session grantAddress owner,
    entry ⟨program, [session, grantAddress, owner], ixDiscriminator "revoke"⟩ =
      some (.revoke session grantAddress owner)
  bumpEpoch : ∀ program session owner,
    entry ⟨program, [session, owner], ixDiscriminator "bump_epoch"⟩ = some (.bumpEpoch session owner)

/-- The client's loop finds the address and the bump that the chain finds, if the chain finds one. -/
def Mirrors (derivation : AddressDerivation) (hash : AddressHash) (programID : Pubkey) : Prop :=
  ∀ seeds found, derivation.find seeds.flatten = some found → findPDA hash programID seeds = .ok found

section Signatures

variable {Private : Type} (crypto : WireEd25519 Private)

/-- The message of a transaction that has every signature that it requires, each valid for its key. -/
def signedMessage (tx : Bytes) : Option LegacyMessage := do
  let (signatures, signed) ← compactList (Decoder.fixed signatureSize) tx
  let (message, rest) ← legacyMessage signed
  if rest = [] ∧ signatures.length = message.numRequiredSignatures ∧
      signatures.length ≤ message.accountKeys.length ∧
      ∀ pair ∈ message.accountKeys.zip signatures, crypto.verify pair.1.1 signed pair.2.1 = true then
    some message
  else none

/-- What the header of a message grants, for a payer who can pay for the accounts in `funded`. -/
def privilegesOf (message : LegacyMessage) (funded : List Pubkey) : Privileges where
  signers := message.accountKeys.take message.numRequiredSignatures
  writable := (message.accountKeys.zipIdx.filter fun entry ↦ message.isWritable entry.2).map (·.1)
  funded := funded

/-- The calls of a message that go to the program, as Anchor hands them on. -/
def deliver (dispatch : Dispatch) (programID : Pubkey) (funded : List Pubkey) (message : LegacyMessage) :
    Option Transaction := do
  let calls ← message.calls
  let instructions ← (calls.filter (·.programID = programID)).mapM dispatch.entry
  return ⟨privilegesOf message funded, instructions⟩

variable {crypto} {feePayer blockhash : Pubkey} {ix : WalletSolana.Instruction}

/-- Signers that have a secret for each key can be listed in the order of the keys. -/
theorem exists_secrets_of_pubkey {signers : Pubkey → Option Private} {keys : List Pubkey}
    (hall : ∀ key ∈ keys, ∃ secret, signers key = some secret ∧ crypto.pubkey secret = key) :
    ∃ secrets : List Private, keys.map signers = secrets.map some ∧ keys = secrets.map crypto.pubkey := by
  induction keys with
  | nil => exact ⟨[], rfl, rfl⟩
  | cons key keys ih =>
    obtain ⟨⟨secret, hsigner, hkey⟩, hothers⟩ := List.forall_mem_cons.mp hall
    obtain ⟨secrets, hsigners, hkeys⟩ := ih hothers
    refine ⟨secret :: secrets, ?_, ?_⟩
    · rw [List.map_cons, List.map_cons, hsigner, hsigners]
    · rw [List.map_cons, hkey, ← hkeys]

/-- The signatures come off the front of a transaction, and the message is what they sign. -/
theorem signedMessage_append {message : LegacyMessage} {signed : Bytes} {secrets : List Private}
    (hread : legacyMessage signed = some (message, [])) (hshort : secrets.length < 2 ^ 16)
    (hcount : secrets.length = message.numRequiredSignatures)
    (hkeys : message.accountKeys.take secrets.length = secrets.map crypto.pubkey) :
    signedMessage crypto
        (appendShortVec [] secrets.length ++ secrets.flatMap (crypto.sign · signed) ++ signed) =
      some message := by
  let signature (secret : Private) : { bytes : Bytes // bytes.length = signatureSize } :=
    ⟨crypto.sign secret signed, crypto.length_sign secret signed⟩
  have hsignatures : (compactList (Decoder.fixed signatureSize)).Reads
      (appendShortVec [] secrets.length ++ secrets.flatMap (crypto.sign · signed))
      (secrets.map signature) :=
    reads_compactList hshort fun secret _ ↦ Decoder.reads_fixed (signature secret)
  have hle : secrets.length ≤ message.accountKeys.length := by
    have hlength := congrArg List.length hkeys
    rw [List.length_take, List.length_map] at hlength
    omega
  have hzip : message.accountKeys.zip (secrets.map signature) =
      secrets.map fun secret ↦ (crypto.pubkey secret, signature secret) := by
    rw [← List.take_append_drop secrets.length message.accountKeys, hkeys]
    have hnil : (secrets.map signature) = secrets.map signature ++ [] := (List.append_nil _).symm
    rw [hnil, List.zip_append (by simp), List.zip_nil_right, List.append_nil, List.zip_map']
  have hverify : ∀ pair ∈ message.accountKeys.zip (secrets.map signature),
      crypto.verify pair.1.1 signed pair.2.1 = true := by
    intro pair hpair
    rw [hzip] at hpair
    obtain ⟨secret, _, rfl⟩ := List.mem_map.mp hpair
    exact crypto.verify_sign secret signed
  have hlength : (secrets.map signature).length = secrets.length := List.length_map _
  simp only [signedMessage, hsignatures signed, Option.bind_eq_bind, Option.bind_some, hread]
  exact if_pos ⟨trivial, hlength.trans hcount, hlength ▸ hle, hverify⟩

/-- A transaction that each of its signers has signed has the signatures that its message requires. -/
theorem signedMessage_signTx (hshort : ix.Short) {signers : Pubkey → Option Private}
    (hsigners : ∀ key, (combined (references feePayer (withPriority [ix])) key).isSigner = true →
      ∃ secret, signers key = some secret ∧ crypto.pubkey secret = key) :
    ∃ tx, signTx crypto.sign
        { accountKeys := (ranksOf feePayer (withPriority [ix])).keys
          numSigners := (ranksOf feePayer (withPriority [ix])).numSigners
          serialized := (messageOf feePayer blockhash (withPriority [ix])).bytes } signers = .ok tx ∧
      signedMessage crypto tx = some (messageOf feePayer blockhash (withPriority [ix])) := by
  obtain ⟨secrets, hsecrets, hkeys⟩ := exists_secrets_of_pubkey fun key hkey ↦
    hsigners key (mem_take_numSigners.mp hkey)
  have hle : (ranksOf feePayer (withPriority [ix])).numSigners ≤
      (ranksOf feePayer (withPriority [ix])).keys.length := by
    rw [length_ranked, Nat.add_assoc]
    exact Nat.le_add_right ..
  have hcount : secrets.length = (ranksOf feePayer (withPriority [ix])).numSigners := by
    have hlength := congrArg List.length hkeys
    rwa [List.length_take_of_le hle, List.length_map, eq_comm] at hlength
  have hfew : secrets.length < 2 ^ 16 := by
    have hkeysLength := hshort.keys feePayer
    rw [← length_keys] at hkeysLength
    omega
  refine ⟨_, bind_pure_eq_ok ((mapM_signatureOf crypto.sign).mpr ⟨secrets, hsecrets, rfl⟩) _, ?_⟩
  have hsigned := signedMessage_append (hshort.reads feePayer blockhash) hfew hcount (hcount ▸ hkeys)
  rwa [List.flatMap_def, ← List.length_map (crypto.sign · _)] at hsigned

/-- The signers of a message are the fee payer and the accounts marked as signers. -/
theorem mem_signers_messageOf {funded : List Pubkey} {key : Pubkey} :
    key ∈ (privilegesOf (messageOf feePayer blockhash (withPriority [ix])) funded).signers ↔
      key = feePayer ∨ ∃ m ∈ ix.accounts, m.key = key ∧ m.isSigner = true :=
  mem_take_numSigners.trans isSigner_withPriority

theorem mem_writable_messageOf {funded : List Pubkey} {key : Pubkey} :
    key ∈ (privilegesOf (messageOf feePayer blockhash (withPriority [ix])) funded).writable ↔
      key = feePayer ∨ ∃ m ∈ ix.accounts, m.key = key ∧ m.writable = true := by
  rw [← writable_withPriority]
  simp only [privilegesOf, List.mem_map, List.mem_filter, Prod.exists, List.mem_zipIdx_iff_getElem?]
  constructor
  · rintro ⟨_, position, ⟨hget, hwritable⟩, rfl⟩
    rwa [isWritable_messageOf feePayer blockhash _ hget] at hwritable
  · intro hwritable
    have hkey : key ∈ (references feePayer (withPriority [ix])).map (·.key) := by
      by_contra hnot
      rw [combined_of_notMem hnot] at hwritable
      exact Bool.false_ne_true hwritable
    obtain ⟨position, hget⟩ := List.mem_iff_getElem?.mp ((mem_keys feePayer _ key).mpr hkey)
    exact ⟨key, position, ⟨hget, by rwa [isWritable_messageOf feePayer blockhash _ hget]⟩, rfl⟩

theorem deliver_messageOf {dispatch : Dispatch} {programID : Pubkey} {funded : List Pubkey}
    {instruction : Instruction} (hprogram : ix.programID = programID)
    (hother : programID ≠ computeBudgetProgramID) (hentry : dispatch.entry ix.call = some instruction) :
    deliver dispatch programID funded (messageOf feePayer blockhash (withPriority [ix])) =
      some ⟨privilegesOf (messageOf feePayer blockhash (withPriority [ix])) funded, [instruction]⟩ := by
  have hcalls : ((withPriority [ix]).map Instruction.call).filter (·.programID = programID) =
      [ix.call] := by
    simp [withPriority, priorityIxs, WalletSolana.Instruction.call, hother.symm, hprogram]
  have hmap : [ix.call].mapM dispatch.entry = some [instruction] := by
    rw [List.mapM_cons, hentry]
    rfl
  simp only [deliver, calls_messageOf, Option.bind_eq_bind, Option.bind_some]
  rw [hcalls, hmap]
  rfl

end Signatures

section Built

variable {derivation : AddressDerivation}

/-- What is asked of the program, in terms of keys. -/
inductive Request
  | register (owner sessionKey : Pubkey)
  | operate (owner sessionKey : Pubkey) (operation : Operation)

namespace Request

def owner : Request → Pubkey
  | .register owner _ => owner
  | .operate owner _ _ => owner

/-- The keys that sign beside the owner. -/
def cosigners : Request → List Pubkey
  | .register _ sessionKey => [sessionKey]
  | .operate _ _ _ => []

/-- The instruction that is meant, if the addresses of its accounts exist. -/
def instruction (derivation : AddressDerivation) : Request → Option Instruction
  | .register owner sessionKey => do
    let (session, _) ← derivation.find (sessionSeeds sessionKey)
    return .registerSession session sessionKey owner systemProgramID
  | .operate owner sessionKey operation => do
    let (session, _) ← derivation.find (sessionSeeds sessionKey)
    match operation with
    | .transferOwnership newOwner => return .transferOwnership session owner newOwner
    | .grant grantee caps expiry =>
      let (grantAddress, _) ← derivation.find (grantSeeds session grantee)
      return .grant session grantAddress owner systemProgramID grantee caps expiry
    | .revoke grantee =>
      let (grantAddress, _) ← derivation.find (grantSeeds session grantee)
      return .revoke session grantAddress owner
    | .bumpEpoch => return .bumpEpoch session owner

end Request

/-- The instruction of a request, at the addresses of its accounts. -/
inductive Request.Resolves (derivation : AddressDerivation) : Request → Instruction → Prop
  | register {owner sessionKey location : Pubkey} {bump : UInt8} :
      derivation.find (sessionSeeds sessionKey) = some (location, bump) →
      Resolves derivation (.register owner sessionKey)
        (.registerSession location sessionKey owner systemProgramID)
  | transferOwnership {owner sessionKey newOwner location : Pubkey} {bump : UInt8} :
      derivation.find (sessionSeeds sessionKey) = some (location, bump) →
      Resolves derivation (.operate owner sessionKey (.transferOwnership newOwner))
        (.transferOwnership location owner newOwner)
  | grant {owner sessionKey grantee location grantAddress : Pubkey} {caps : Caps} {expiry : Int64}
      {bump grantBump : UInt8} :
      derivation.find (sessionSeeds sessionKey) = some (location, bump) →
      derivation.find (grantSeeds location grantee) = some (grantAddress, grantBump) →
      Resolves derivation (.operate owner sessionKey (.grant grantee caps expiry))
        (.grant location grantAddress owner systemProgramID grantee caps expiry)
  | revoke {owner sessionKey grantee location grantAddress : Pubkey} {bump grantBump : UInt8} :
      derivation.find (sessionSeeds sessionKey) = some (location, bump) →
      derivation.find (grantSeeds location grantee) = some (grantAddress, grantBump) →
      Resolves derivation (.operate owner sessionKey (.revoke grantee))
        (.revoke location grantAddress owner)
  | bumpEpoch {owner sessionKey location : Pubkey} {bump : UInt8} :
      derivation.find (sessionSeeds sessionKey) = some (location, bump) →
      Resolves derivation (.operate owner sessionKey .bumpEpoch) (.bumpEpoch location owner)

/-- The accounts of a request are those that the derivation gives. -/
theorem Request.resolves {request : Request} {instruction : Instruction}
    (hinstruction : request.instruction derivation = some instruction) :
    request.Resolves derivation instruction := by
  cases request with
  | register owner sessionKey =>
    obtain ⟨⟨location, bump⟩, hfind, hsame⟩ := Option.bind_eq_some_iff.mp hinstruction
    obtain rfl := Option.some.inj hsame
    exact .register hfind
  | operate owner sessionKey operation =>
    obtain ⟨⟨location, bump⟩, hfind, hrest⟩ := Option.bind_eq_some_iff.mp hinstruction
    cases operation with
    | transferOwnership newOwner =>
      obtain rfl := Option.some.inj hrest
      exact .transferOwnership hfind
    | grant grantee caps expiry =>
      obtain ⟨⟨grantAddress, grantBump⟩, hgrant, hsame⟩ := Option.bind_eq_some_iff.mp hrest
      obtain rfl := Option.some.inj hsame
      exact .grant hfind hgrant
    | revoke grantee =>
      obtain ⟨⟨grantAddress, grantBump⟩, hgrant, hsame⟩ := Option.bind_eq_some_iff.mp hrest
      obtain rfl := Option.some.inj hsame
      exact .revoke hfind hgrant
    | bumpEpoch =>
      obtain rfl := Option.some.inj hrest
      exact .bumpEpoch hfind

/-- The account that an instruction changes. -/
def Instruction.target : Instruction → Pubkey
  | .registerSession session _ _ _ => session
  | .transferOwnership session _ _ => session
  | .grant _ grantAddress _ _ _ _ _ => grantAddress
  | .revoke _ grantAddress _ => grantAddress
  | .bumpEpoch session _ => session

variable {source : Source} {hash : AddressHash} {programID : Pubkey} {ownerPub sessionKey : Pubkey}

/-- The client finds the session account that the program derives. -/
theorem sessionPDA_of_find (hprog : source.programPubkey = .ok programID)
    (hmirrors : Mirrors derivation hash programID) {found : Pubkey × UInt8}
    (hfind : derivation.find (sessionSeeds sessionKey) = some found) :
    source.sessionPDA hash sessionKey = .ok found := by
  rw [Source.sessionPDA, hprog]
  apply hmirrors
  simpa [sessionSeeds] using hfind

theorem grantPDA_of_find (hprog : source.programPubkey = .ok programID)
    (hmirrors : Mirrors derivation hash programID) {session grantee : Pubkey} {found : Pubkey × UInt8}
    (hfind : derivation.find (grantSeeds session grantee) = some found) :
    source.grantPDA hash session grantee = .ok found := by
  rw [Source.grantPDA, hprog]
  apply hmirrors
  simpa [grantSeeds] using hfind

/-- The instruction on the wire says to the program what it was built for. -/
structure Means (dispatch : Dispatch) (programID owner : Pubkey) (cosigners : List Pubkey)
    (ix : WalletSolana.Instruction) (instruction : Instruction) : Prop where
  program : ix.programID = programID
  entry_eq : dispatch.entry ix.call = some instruction
  short : ix.Short
  signers : (ix.accounts.filter (·.isSigner)).map (·.key) = cosigners ++ [owner]
  writable : (ix.accounts.filter (·.writable)).map (·.key) = [instruction.target, owner]

/-- The instruction that is sent for a request. -/
def requestIx (source : Source) (hash : AddressHash) : Request → Except String WalletSolana.Instruction
  | .register owner sessionKey => source.registerSessionIx hash owner sessionKey
  | .operate owner sessionKey operation => source.operationIx hash owner sessionKey operation

/-- What the client builds for a request means the instruction of that request. -/
theorem requestIx_means {request : Request} {instruction : Instruction}
    (dispatch : Dispatch) (hprog : source.programPubkey = .ok programID)
    (hmirrors : Mirrors derivation hash programID)
    (hinstruction : request.instruction derivation = some instruction) :
    ∃ ix, requestIx source hash request = .ok ix ∧
      Means dispatch programID request.owner request.cosigners ix instruction := by
  cases Request.resolves hinstruction with
  | register hsession =>
    refine ⟨_, bind_eq_ok.mpr ⟨_, hprog, bind_eq_ok.mpr
      ⟨_, sessionPDA_of_find hprog hmirrors hsession, rfl⟩⟩, ?_⟩
    exact
      { program := rfl
        entry_eq := dispatch.registerSession ..
        short := ⟨by simp, by simp [ixDiscriminator]⟩
        signers := rfl
        writable := rfl }
  | @transferOwnership _ _ newOwner _ _ hsession =>
    refine ⟨_, bind_eq_ok.mpr ⟨_, hprog, bind_eq_ok.mpr
      ⟨_, sessionPDA_of_find hprog hmirrors hsession, rfl⟩⟩, ?_⟩
    exact
      { program := rfl
        entry_eq := dispatch.transferOwnership ..
        short := ⟨by simp, by simp [newOwner.2, publicKeySize, ixDiscriminator]⟩
        signers := rfl
        writable := rfl }
  | @grant _ _ grantee _ _ _ _ _ _ hsession hgrant =>
    refine ⟨_, bind_eq_ok.mpr ⟨_, hprog, bind_eq_ok.mpr ⟨_, sessionPDA_of_find hprog hmirrors hsession,
      bind_eq_ok.mpr ⟨_, grantPDA_of_find hprog hmirrors hgrant, rfl⟩⟩⟩, ?_⟩
    exact
      { program := rfl
        entry_eq := dispatch.grant ..
        short := ⟨by simp, by simp [grantee.2, publicKeySize, ixDiscriminator]⟩
        signers := rfl
        writable := rfl }
  | revoke hsession hgrant =>
    refine ⟨_, bind_eq_ok.mpr ⟨_, hprog, bind_eq_ok.mpr ⟨_, sessionPDA_of_find hprog hmirrors hsession,
      bind_eq_ok.mpr ⟨_, grantPDA_of_find hprog hmirrors hgrant, rfl⟩⟩⟩, ?_⟩
    exact
      { program := rfl
        entry_eq := dispatch.revoke ..
        short := ⟨by simp, by simp [ixDiscriminator]⟩
        signers := rfl
        writable := rfl }
  | bumpEpoch hsession =>
    refine ⟨_, bind_eq_ok.mpr ⟨_, hprog, bind_eq_ok.mpr
      ⟨_, sessionPDA_of_find hprog hmirrors hsession, rfl⟩⟩, ?_⟩
    exact
      { program := rfl
        entry_eq := dispatch.bumpEpoch ..
        short := ⟨by simp, by simp [ixDiscriminator]⟩
        signers := rfl
        writable := rfl }

end Built

/-! ## Submissions -/

section Submissions

variable {Private : Type}

/-- How a request comes to be sent: by `mosey session` with key files, or by `mosey web` with the wallet
of the owner. -/
inductive Submission (Private : Type)
  | register (owner sessionKey : Private)
  | command (owner : Private) (sessionKey : Pubkey) (operation : Operation)
  | browser (owner : Private) (sessionKey : Pubkey) (operation : Operation)

namespace Submission

variable (crypto : WireEd25519 Private) (source : Source) (hash : AddressHash) (blockhash : String)

/-- The transaction that is sent, or why there is none. There is no command for a revocation. -/
def send : Submission Private → Option (Except String Bytes)
  | .register owner sessionKey => some (source.registerSession crypto hash blockhash owner sessionKey)
  | .command owner sessionKey operation =>
    source.command crypto hash blockhash owner sessionKey operation
  | .browser owner sessionKey operation =>
    some ((source.build hash blockhash (crypto.pubkey owner) sessionKey operation).map
      (walletSign crypto owner))

def request : Submission Private → Request
  | .register owner sessionKey => .register (crypto.pubkey owner) (crypto.pubkey sessionKey)
  | .command owner sessionKey operation => .operate (crypto.pubkey owner) sessionKey operation
  | .browser owner sessionKey operation => .operate (crypto.pubkey owner) sessionKey operation

end Submission

/-- The privileges that a request needs, and no others. -/
structure Privileges.Fit (privileges : Privileges) (request : Request) (target : Pubkey) : Prop where
  signers : ∀ key, key ∈ privileges.signers ↔ key = request.owner ∨ key ∈ request.cosigners
  writable : ∀ key, key ∈ privileges.writable ↔ key = request.owner ∨ key = target

variable {crypto : WireEd25519 Private} {source : Source} {hash : AddressHash} {blockhash : String}
variable {derivation : AddressDerivation} {dispatch : Dispatch} {programID : Pubkey}

/-- Of this message the program gets this one instruction, with the privileges of the request. -/
def Arrives (dispatch : Dispatch) (programID : Pubkey) (message : LegacyMessage) (request : Request)
    (instruction : Instruction) : Prop :=
  ∀ funded, deliver dispatch programID funded message = some ⟨privilegesOf message funded, [instruction]⟩ ∧
    (privilegesOf message funded).Fit request instruction.target

theorem mem_keys_filter {accounts : List AccountMeta} {selected : AccountMeta → Bool} {key : Pubkey} :
    key ∈ (accounts.filter selected).map (·.key) ↔ ∃ m ∈ accounts, m.key = key ∧ selected m = true := by
  rw [List.mem_map]
  exact exists_congr fun m ↦ by rw [List.mem_filter, and_assoc, and_comm (a := selected m = true)]

section Meant

variable {request : Request} {ix : WalletSolana.Instruction} {instruction : Instruction} {bh : Pubkey}

/-- An instruction behind the priority instructions reaches the program with its own accounts. -/
theorem Means.arrives (hmeans : Means dispatch programID request.owner request.cosigners ix instruction)
    (hother : programID ≠ computeBudgetProgramID) (bh : Pubkey) :
    Arrives dispatch programID (messageOf request.owner bh (withPriority [ix])) request instruction := by
  intro funded
  refine ⟨deliver_messageOf hmeans.program hother hmeans.entry_eq, fun key ↦ ?_, fun key ↦ ?_⟩
  · rw [mem_signers_messageOf, ← mem_keys_filter, hmeans.signers, List.mem_append, List.mem_singleton]
    tauto
  · rw [mem_writable_messageOf, ← mem_keys_filter, hmeans.writable, List.mem_pair]
    tauto

/-- A transaction for one instruction is signed by every key that has to. -/
theorem Means.signedMessage_submit {owner : Pubkey} {cosigners : List Pubkey}
    (hmeans : Means dispatch programID owner cosigners ix instruction)
    (hblockhash : parseBlockhash blockhash = .ok bh) {signers : Pubkey → Option Private}
    (hsigners : ∀ key ∈ owner :: cosigners, ∃ secret, signers key = some secret ∧
      crypto.pubkey secret = key) :
    ∃ tx, submit crypto blockhash owner [ix] signers = .ok tx ∧
      signedMessage crypto tx = some (messageOf owner bh (withPriority [ix])) := by
  have hall : ∀ key, (combined (references owner (withPriority [ix])) key).isSigner = true →
      ∃ secret, signers key = some secret ∧ crypto.pubkey secret = key := by
    intro key hkey
    rw [isSigner_withPriority, ← mem_keys_filter, hmeans.signers] at hkey
    exact hsigners key (by simp at hkey ⊢; tauto)
  obtain ⟨tx, hsign, hsigned⟩ := signedMessage_signTx hmeans.short hall
  exact ⟨tx, bind_eq_ok.mpr ⟨bh, hblockhash,
    bind_eq_ok.mpr ⟨_, hmeans.short.compileMessage_eq owner bh, hsign⟩⟩, hsigned⟩

end Meant

theorem command_eq_submit {owner : Private} {sessionKey : Pubkey} {operation : Operation}
    {sent : Except String Bytes}
    (hsend : source.command crypto hash blockhash owner sessionKey operation = some sent) :
    sent = source.operationIx hash (crypto.pubkey owner) sessionKey operation >>= fun ix ↦
      submit crypto blockhash (crypto.pubkey owner) [ix] (oneSigner (crypto.pubkey owner) owner) := by
  cases operation with
  | revoke grantee => cases hsend
  | _ => exact (Option.some.inj hsend).symm

section Sent

variable {bh : Pubkey} {instruction : Instruction}

theorem submit_operationIx_signed {owner : Private} {sessionKey : Pubkey} {operation : Operation}
    (dispatch : Dispatch) (hprog : source.programPubkey = .ok programID)
    (hmirrors : Mirrors derivation hash programID) (hblockhash : parseBlockhash blockhash = .ok bh)
    (hinstruction : (Request.operate (crypto.pubkey owner) sessionKey operation).instruction derivation =
      some instruction) :
    ∃ ix tx, (source.operationIx hash (crypto.pubkey owner) sessionKey operation >>= fun ix ↦
        submit crypto blockhash (crypto.pubkey owner) [ix] (oneSigner (crypto.pubkey owner) owner)) =
        .ok tx ∧
      Means dispatch programID (crypto.pubkey owner) [] ix instruction ∧
      signedMessage crypto tx = some (messageOf (crypto.pubkey owner) bh (withPriority [ix])) := by
  obtain ⟨ix, hix, hmeans⟩ := requestIx_means dispatch hprog hmirrors hinstruction
  have hsigners : ∀ key ∈ [crypto.pubkey owner], ∃ secret,
      oneSigner (crypto.pubkey owner) owner key = some secret ∧ crypto.pubkey secret = key := by
    intro key hkey
    obtain rfl := List.mem_singleton.mp hkey
    exact ⟨owner, Function.update_self .., rfl⟩
  obtain ⟨tx, hsubmit, hsigned⟩ := hmeans.signedMessage_submit hblockhash hsigners
  exact ⟨ix, tx, bind_eq_ok.mpr ⟨ix, hix, hsubmit⟩, hmeans, hsigned⟩

/-- Whatever is sent is the signed message of the instruction that was meant. -/
theorem Submission.signed {submission : Submission Private} {sent : Except String Bytes}
    (dispatch : Dispatch) (hprog : source.programPubkey = .ok programID)
    (hmirrors : Mirrors derivation hash programID) (hblockhash : parseBlockhash blockhash = .ok bh)
    (hinstruction : (submission.request crypto).instruction derivation = some instruction)
    (hsend : submission.send crypto source hash blockhash = some sent) :
    ∃ ix tx, sent = .ok tx ∧
      Means dispatch programID (submission.request crypto).owner (submission.request crypto).cosigners ix
        instruction ∧
      signedMessage crypto tx =
        some (messageOf (submission.request crypto).owner bh (withPriority [ix])) := by
  cases submission with
  | command owner sessionKey operation =>
    rw [command_eq_submit hsend]
    exact submit_operationIx_signed dispatch hprog hmirrors hblockhash hinstruction
  | browser owner sessionKey operation =>
    rw [← Option.some.inj hsend, ← submit_operationIx]
    exact submit_operationIx_signed dispatch hprog hmirrors hblockhash hinstruction
  | register owner sessionKey =>
    obtain ⟨ix, hix, hmeans⟩ := requestIx_means dispatch hprog hmirrors hinstruction
    have hsigners : ∀ key ∈ [crypto.pubkey owner, crypto.pubkey sessionKey], ∃ secret,
        Function.update (oneSigner (crypto.pubkey owner) owner) (crypto.pubkey sessionKey)
          (some sessionKey) key = some secret ∧ crypto.pubkey secret = key := by
      intro key hkey
      by_cases hsession : key = crypto.pubkey sessionKey
      · exact ⟨sessionKey, by rw [hsession, Function.update_self], hsession.symm⟩
      · obtain rfl := (List.mem_pair.mp hkey).resolve_right hsession
        exact ⟨owner, by rw [Function.update_of_ne hsession, oneSigner, Function.update_self], rfl⟩
    obtain ⟨tx, hsubmit, hsigned⟩ := hmeans.signedMessage_submit hblockhash hsigners
    refine ⟨ix, tx, ?_, hmeans, hsigned⟩
    rw [← Option.some.inj hsend]
    exact bind_eq_ok.mpr ⟨ix, hix, hsubmit⟩

/-- Every submission is sent as a transaction with all the signatures that it requires, paid by the owner under
the blockhash of the moment. Behind the two instructions for the priority, Anchor hands the program the one
that was meant, with the privileges that were meant and no others. -/
theorem submission_arrives {submission : Submission Private} {sent : Except String Bytes}
    (dispatch : Dispatch) (hprog : source.programPubkey = .ok programID)
    (hmirrors : Mirrors derivation hash programID) (hother : programID ≠ computeBudgetProgramID)
    (hblockhash : parseBlockhash blockhash = .ok bh)
    (hinstruction : (submission.request crypto).instruction derivation = some instruction)
    (hsend : submission.send crypto source hash blockhash = some sent) :
    ∃ tx message, sent = .ok tx ∧ signedMessage crypto tx = some message ∧ message.recentBlockhash = bh ∧
      message.accountKeys.head? = some (submission.request crypto).owner ∧
      (∃ call, dispatch.entry call = some instruction ∧
        message.calls = some (priorityIxs.map WalletSolana.Instruction.call ++ [call])) ∧
      Arrives dispatch programID message (submission.request crypto) instruction := by
  obtain ⟨ix, tx, hsent, hmeans, hsigned⟩ :=
    Submission.signed dispatch hprog hmirrors hblockhash hinstruction hsend
  exact ⟨tx, _, hsent, hsigned, rfl, head_keys _ _, ⟨ix.call, hmeans.entry_eq, calls_messageOf ..⟩,
    hmeans.arrives hother bh⟩

end Sent

end Submissions

section Example

/-- A scheme with eight secrets, and keys and signatures of the right sizes. -/
def exampleEd25519 : WireEd25519 (Fin 8) where
  publicKey secret := (freeKey (UInt8.ofNat secret)).1
  sign secret _ := List.replicate signatureSize (UInt8.ofNat secret)
  verify key _ signature := decide (signature = List.replicate signatureSize (key.headD 0))
  verify_sign _ _ := decide_eq_true rfl
  size := List.length
  length_publicKey secret := (freeKey (UInt8.ofNat secret)).2
  size_sign _ _ := List.length_replicate
  size_eq _ := rfl

/-- The arguments of `grant`. -/
def exampleGrantArguments : Decoder UInt8 (Pubkey × Caps × Int64) := do
  let grantee ← Decoder.fixed publicKeySize
  let caps ← Decoder.token
  let expiry ← Decoder.fixed 8
  pure (grantee, caps.toBitVec, Int64.ofInt (littleEndianInt64 expiry.1))

/-- A dispatch that compares the discriminators one after the other. -/
def exampleEntry (call : Call) : Option Instruction :=
  let discriminator := call.data.take 8
  let arguments := call.data.drop 8
  match call.accounts with
  | [session, owner] =>
    if discriminator = ixDiscriminator "bump_epoch" then some (.bumpEpoch session owner)
    else if discriminator = ixDiscriminator "transfer_ownership" then
      (Decoder.fixed publicKeySize arguments).map fun read ↦ .transferOwnership session owner read.1
    else none
  | [session, grantAddress, owner] =>
    if discriminator = ixDiscriminator "revoke" then some (.revoke session grantAddress owner) else none
  | [session, second, owner, systemProgram] =>
    if discriminator = ixDiscriminator "register_session" then
      some (.registerSession session second owner systemProgram)
    else if discriminator = ixDiscriminator "grant" then
      (exampleGrantArguments arguments).map fun read ↦
        .grant session second owner systemProgram read.1.1 read.1.2.1 read.1.2.2
    else none
  | _ => none

theorem reads_exampleGrantArguments (grantee : Pubkey) (caps : Caps) (expiry : Int64) :
    exampleGrantArguments.Reads
      (grantee.1 ++ ([UInt8.ofBitVec caps] ++ littleEndianBytes 8 expiry.toBitVec.toNat))
      (grantee, caps, expiry) := by
  let bytes : { bytes : Bytes // bytes.length = 8 } :=
    ⟨littleEndianBytes 8 expiry.toBitVec.toNat, length_littleEndianBytes 8 _⟩
  have hexpiry := (Decoder.reads_fixed bytes).map fun read ↦
    (grantee, (UInt8.ofBitVec caps).toBitVec, Int64.ofInt (littleEndianInt64 read.1))
  rw [littleEndianInt64_expiry, Int64.ofInt_toInt] at hexpiry
  exact (Decoder.reads_fixed grantee).bind ((Decoder.reads_token (UInt8.ofBitVec caps)).bind hexpiry)

def exampleDispatch : Dispatch where
  entry := exampleEntry
  registerSession _ _ _ _ _ := rfl
  transferOwnership _ session owner newOwner := by
    have hread := Decoder.reads_fixed newOwner []
    rw [List.append_nil] at hread
    exact congrArg (Option.map fun read ↦ Instruction.transferOwnership session owner read.1) hread
  grant _ session grantAddress owner systemProgram grantee caps expiry := by
    have hread := reads_exampleGrantArguments grantee caps expiry []
    rw [List.append_nil] at hread
    rw [List.append_assoc, List.append_assoc]
    exact congrArg (Option.map fun read ↦
      Instruction.grant session grantAddress owner systemProgram read.1.1 read.1.2.1 read.1.2.2) hread
  revoke _ _ _ _ := rfl
  bumpEpoch _ _ _ := rfl

theorem exampleDeployed_program : exampleDeployed.programPubkey = .ok exampleProgram := by
  decide +kernel

theorem exampleDerivation_mirrors : Mirrors exampleDerivation exampleHash exampleProgram := by
  rintro seeds ⟨address, bump⟩ hfind
  obtain ⟨entry, hentry, rfl⟩ := Option.map_eq_some_iff.mp (AddressDerivation.create_of_find hfind)
  have hinput : entry.1 = seeds.flatten ++ [bump] := by simpa using List.find?_some hentry
  have hjoined (last : ℕ) : findPDAFrom exampleHash exampleProgram seeds last =
      findPDAFrom exampleHash exampleProgram [seeds.flatten] last := by
    induction last with
    | zero => simp [findPDAFrom, pdaCandidate]
    | succ last ih => simp [findPDAFrom, pdaCandidate, ih]
  rcases List.mem_pair.mp (List.mem_of_find?_eq_some hentry) with rfl | rfl
  all_goals
    obtain ⟨hseeds, hbump⟩ := List.append_inj' hinput rfl
    cases hbump
    rw [findPDA, hjoined, ← hseeds]
    decide +kernel

/-- The owner, key 1, grants `write` to key 4 in the browser. -/
def exampleSecret : ℕ → Fin 8 := Fin.ofNat 8

def exampleSubmission : Submission (Fin 8) :=
  .browser (exampleSecret 1) (freeKey 2) (.grant (freeKey 4) capWrite 60)

theorem submission_arrives_example :
    ∃ tx message, exampleSubmission.send exampleEd25519 exampleDeployed exampleHash
        "YMN9Qj5jPNp7j14VPcML1B6xGgcPWVZUGLFU3Mnyfaf" = some (.ok tx) ∧
      signedMessage exampleEd25519 tx = some message ∧
      Arrives exampleDispatch exampleProgram message
        (.operate (freeKey 1) (freeKey 2) (.grant (freeKey 4) capWrite 60))
        (.grant (freeKey 11) (freeKey 12) (freeKey 1) systemProgramID (freeKey 4) capWrite 60) := by
  have hblockhash : parseBlockhash "YMN9Qj5jPNp7j14VPcML1B6xGgcPWVZUGLFU3Mnyfaf" = .ok (freeKey 8) := by
    decide +kernel
  have hinstruction : (exampleSubmission.request exampleEd25519).instruction exampleDerivation =
      some (.grant (freeKey 11) (freeKey 12) (freeKey 1) systemProgramID (freeKey 4) capWrite 60) := by
    decide +kernel
  obtain ⟨tx, message, hsent, hsigned, -, -, -, harrives⟩ := submission_arrives exampleDispatch
    exampleDeployed_program exampleDerivation_mirrors (by decide) hblockhash hinstruction rfl
  exact ⟨tx, message, congrArg some hsent, hsigned, harrives⟩

end Example

end Mosey.MoseySession

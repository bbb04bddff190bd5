import Mathlib.Algebra.Group.Nat.Defs
import Mathlib.Data.List.Dedup
import Mathlib.Data.List.Induction
import Mathlib.Logic.Function.Basic
import Mosey.Ed25519
import Mosey.Library.Decoding
import Mosey.Library.Results
import Mosey.Wallet.Base58

/-!
# Legacy transactions

A message lists every key its instructions refer to once, ordered so that the three counts of its
header tell for each position whether the key signs and whether its account is writable. The
instructions then refer to keys by position. The layout is read back here by a decoder of its own, and
what it reads is what the instructions said.
-/

namespace Mosey.WalletSolana

open Library

abbrev Pubkey := { key : PublicKey // key.length = publicKeySize }

structure AccountMeta where
  key : Pubkey
  isSigner : Bool
  writable : Bool
  deriving DecidableEq

structure Instruction where
  programID : Pubkey
  accounts : List AccountMeta
  data : Bytes
  deriving DecidableEq

def shortVecLoop : ℕ → Bytes → ℕ → Bytes
  | 0, dst, _ => dst
  | fuel + 1, dst, n =>
    let b := UInt8.ofNat (n &&& 0x7f)
    let n := n >>> 7
    if n = 0 then dst ++ [b] else shortVecLoop fuel (dst ++ [b ||| 0x80]) n

/-- An `int` that is not negative has at most nine groups of seven bits. -/
def appendShortVec (dst : Bytes) (n : ℕ) : Bytes := shortVecLoop 9 dst n

/-- The keys in the order they were first seen, and the account each of them points to. -/
structure Merging where
  order : List Pubkey
  merged : Pubkey → Option AccountMeta

def Merging.add (merging : Merging) (key : Pubkey) (signer writable : Bool) : Merging :=
  match merging.merged key with
  | some a =>
    { merging with
      merged := Function.update merging.merged key
        (some { a with isSigner := a.isSigner || signer, writable := a.writable || writable }) }
  | none =>
    { order := merging.order ++ [key]
      merged := Function.update merging.merged key (some ⟨key, signer, writable⟩) }

def mergeAccounts (feePayer : Pubkey) (ixs : List Instruction) : Merging :=
  let merging : Merging :=
    { order := [feePayer]
      merged := Function.update (fun _ ↦ none) feePayer (some ⟨feePayer, true, true⟩) }
  let merging := ixs.foldl (fun merging ix ↦
    ix.accounts.foldl (fun merging m ↦ merging.add m.key m.isSigner m.writable) merging) merging
  ixs.foldl (fun merging ix ↦ merging.add ix.programID false false) merging

inductive Rank
  | writableSigner
  | readonlySigner
  | writable
  | readonly
  deriving DecidableEq

def AccountMeta.rank (a : AccountMeta) : Rank :=
  if a.isSigner && a.writable then .writableSigner
  else if a.isSigner then .readonlySigner
  else if a.writable then .writable
  else .readonly

structure Ranks where
  ws : List AccountMeta
  rs : List AccountMeta
  wn : List AccountMeta
  rn : List AccountMeta

def rankAccounts (accounts : List AccountMeta) : Ranks where
  ws := accounts.filter (·.rank = .writableSigner)
  rs := accounts.filter (·.rank = .readonlySigner)
  wn := accounts.filter (·.rank = .writable)
  rn := accounts.filter (·.rank = .readonly)

def Ranks.ranked (ranks : Ranks) : List AccountMeta := ranks.ws ++ ranks.rs ++ ranks.wn ++ ranks.rn

def Ranks.keys (ranks : Ranks) : List Pubkey := ranks.ranked.map (·.key)

def Ranks.numSigners (ranks : Ranks) : ℕ := ranks.ws.length + ranks.rs.length

def Ranks.header (ranks : Ranks) : Bytes :=
  [UInt8.ofNat ranks.numSigners, UInt8.ofNat ranks.rs.length, UInt8.ofNat ranks.rn.length]

def indexAccounts (keys : List Pubkey) : Pubkey → Option ℕ :=
  keys.zipIdx.foldl (fun index entry ↦ Function.update index entry.1 (some entry.2)) fun _ ↦ none

def errProgramNotListed : String := "walletsolana: program id not in account list"

/-- What the loop over the instructions appends for one of them. An account without an index would
be written as zero, the value of a missing map entry. -/
def appendInstruction (index : Pubkey → Option ℕ) (buf : Bytes) (ix : Instruction) :
    Except String Bytes :=
  match index ix.programID with
  | none => .error errProgramNotListed
  | some pi =>
    let buf := buf ++ [UInt8.ofNat pi]
    let buf := appendShortVec buf ix.accounts.length
    let buf := buf ++ ix.accounts.map fun m ↦ UInt8.ofNat ((index m.key).getD 0)
    let buf := appendShortVec buf ix.data.length
    .ok (buf ++ ix.data)

structure CompiledMessage where
  accountKeys : List Pubkey
  numSigners : ℕ
  serialized : Bytes
  deriving DecidableEq

def compileMessage (feePayer blockhash : Pubkey) (ixs : List Instruction) :
    Except String CompiledMessage := do
  let merging := mergeAccounts feePayer ixs
  let ranks := rankAccounts (merging.order.filterMap merging.merged)
  let keys := ranks.keys
  let buf := appendShortVec ranks.header keys.length
  let buf := buf ++ keys.flatMap (·.1) ++ blockhash.1
  let buf := appendShortVec buf ixs.length
  let buf ← ixs.foldlM (appendInstruction (indexAccounts keys)) buf
  .ok { accountKeys := keys, numSigners := ranks.numSigners, serialized := buf }

def errMissingSigner (key : Pubkey) : String := "walletsolana: missing signer for " ++ Wallet.address key.1

/-- The body of the loop of `signTx`. -/
def signatureOf {Private : Type} (sign : Private → Bytes → Bytes) (serialized : Bytes)
    (signers : Pubkey → Option Private) (key : Pubkey) : Except String Bytes :=
  match signers key with
  | none => .error (errMissingSigner key)
  | some sk => .ok (sign sk serialized)

def signTx {Private : Type} (sign : Private → Bytes → Bytes) (msg : CompiledMessage)
    (signers : Pubkey → Option Private) : Except String Bytes := do
  let sigs ← (msg.accountKeys.take msg.numSigners).mapM (signatureOf sign msg.serialized signers)
  let tx := appendShortVec [] sigs.length
  .ok (tx ++ sigs.flatten ++ msg.serialized)

def compileUnsignedTx (msg : CompiledMessage) : Bytes :=
  let tx := appendShortVec [] msg.numSigners
  tx ++ List.replicate (msg.numSigners * 64) 0 ++ msg.serialized

/-- A compact-u16: up to three groups of seven bits, lowest first, in its shortest form. -/
def compactU16 : Decoder UInt8 ℕ
  | [] => none
  | first :: rest =>
    if first.toNat < 128 then some (first.toNat, rest)
    else match rest with
    | [] => none
    | second :: rest =>
      if second = 0 then none
      else if second.toNat < 128 then some (first.toNat % 128 + 128 * second.toNat, rest)
      else match rest with
      | [] => none
      | third :: rest =>
        if third = 0 ∨ 3 < third.toNat then none
        else some (first.toNat % 128 + 128 * (second.toNat % 128) + 16384 * third.toNat, rest)

def compactList {α : Type} (item : Decoder UInt8 α) : Decoder UInt8 (List α) := do
  let count ← compactU16
  item.counted count

def byte : Decoder UInt8 ℕ := do
  let next ← Decoder.token
  pure next.toNat

structure IndexedInstruction where
  programIDIndex : ℕ
  accounts : List ℕ
  data : Bytes
  deriving DecidableEq

def indexedInstruction : Decoder UInt8 IndexedInstruction := do
  let programIDIndex ← byte
  let accounts ← compactList byte
  let data ← compactList Decoder.token
  pure { programIDIndex, accounts, data }

structure LegacyMessage where
  numRequiredSignatures : ℕ
  numReadonlySigned : ℕ
  numReadonlyUnsigned : ℕ
  accountKeys : List Pubkey
  recentBlockhash : Pubkey
  instructions : List IndexedInstruction
  deriving DecidableEq

def legacyMessage : Decoder UInt8 LegacyMessage := do
  let numRequiredSignatures ← byte
  let numReadonlySigned ← byte
  let numReadonlyUnsigned ← byte
  let accountKeys ← compactList (Decoder.fixed publicKeySize)
  let recentBlockhash ← Decoder.fixed publicKeySize
  let instructions ← compactList indexedInstruction
  pure { numRequiredSignatures, numReadonlySigned, numReadonlyUnsigned, accountKeys, recentBlockhash,
         instructions }

/-- The status the header gives to a position of the key list. -/
def LegacyMessage.isSigner (message : LegacyMessage) (position : ℕ) : Bool :=
  decide (position < message.numRequiredSignatures)

def LegacyMessage.isWritable (message : LegacyMessage) (position : ℕ) : Bool :=
  if position < message.numRequiredSignatures then
    decide (position < message.numRequiredSignatures - message.numReadonlySigned)
  else decide (position < message.accountKeys.length - message.numReadonlyUnsigned)

/-- An instruction as a program sees it: its own key, the keys of its accounts and the data. -/
structure Call where
  programID : Pubkey
  accounts : List Pubkey
  data : Bytes
  deriving DecidableEq

def Instruction.call (ix : Instruction) : Call where
  programID := ix.programID
  accounts := ix.accounts.map (·.key)
  data := ix.data

def LegacyMessage.resolve (message : LegacyMessage) (ix : IndexedInstruction) : Option Call := do
  let programID ← message.accountKeys[ix.programIDIndex]?
  let accounts ← ix.accounts.mapM (message.accountKeys[·]?)
  pure { programID, accounts, data := ix.data }

def LegacyMessage.calls (message : LegacyMessage) : Option (List Call) :=
  message.instructions.mapM message.resolve

/-- Every reference a transaction makes to an account. Its fee payer is a writable signer, and a
program is neither. -/
def references (feePayer : Pubkey) (ixs : List Instruction) : List AccountMeta :=
  ⟨feePayer, true, true⟩ :: ixs.flatMap (·.accounts) ++ ixs.map fun ix ↦ ⟨ix.programID, false, false⟩

/-- What all references to a key say together. -/
def combined (refs : List AccountMeta) (key : Pubkey) : AccountMeta where
  key := key
  isSigner := refs.any fun ref ↦ ref.key = key && ref.isSigner
  writable := refs.any fun ref ↦ ref.key = key && ref.writable

structure Merging.Of (refs : List AccountMeta) (merging : Merging) : Prop where
  nodup : merging.order.Nodup
  mem_order : ∀ key, key ∈ merging.order ↔ key ∈ refs.map (·.key)
  merged_eq : ∀ key,
    merging.merged key = if key ∈ refs.map (·.key) then some (combined refs key) else none
  head_eq : merging.order.head? = refs.head?.map (·.key)

/-- A further reference to an account adds to its privileges. -/
theorem combined_append_self (refs : List AccountMeta) (ref : AccountMeta) :
    combined (refs ++ [ref]) ref.key =
      { combined refs ref.key with
        isSigner := (combined refs ref.key).isSigner || ref.isSigner
        writable := (combined refs ref.key).writable || ref.writable } := by
  simp [combined]

variable {key : Pubkey} {refs : List AccountMeta} {n : ℕ}

theorem combined_append_of_ne (refs : List AccountMeta) {ref : AccountMeta} (hne : key ≠ ref.key) :
    combined (refs ++ [ref]) key = combined refs key := by
  simp [combined, hne.symm]

theorem combined_of_notMem (hmem : key ∉ refs.map (·.key)) :
    combined refs key = ⟨key, false, false⟩ := by
  have hne : ∀ ref ∈ refs, ref.key ≠ key := fun ref href heq ↦
    hmem (List.mem_map.mpr ⟨ref, href, heq⟩)
  simp only [combined, AccountMeta.mk.injEq, true_and, List.any_eq_false, Bool.and_eq_true,
    decide_eq_true_eq]
  exact ⟨fun ref href h ↦ hne ref href h.1, fun ref href h ↦ hne ref href h.1⟩

theorem Merging.Of.add_eq {merging : Merging} (h : merging.Of refs) (ref : AccountMeta) :
    merging.add ref.key ref.isSigner ref.writable =
      { order := if ref.key ∈ refs.map (·.key) then merging.order else merging.order ++ [ref.key]
        merged := Function.update merging.merged ref.key
          (some (combined (refs ++ [ref]) ref.key)) } := by
  by_cases hmem : ref.key ∈ refs.map (·.key)
  · rw [Merging.add, h.merged_eq, if_pos hmem, if_pos hmem, combined_append_self]
  · rw [Merging.add, h.merged_eq, if_neg hmem, if_neg hmem, combined_append_self,
      combined_of_notMem hmem]
    rfl

/-- Adding a reference keeps the merging that of all references. -/
theorem Merging.Of.add {merging : Merging} (h : merging.Of refs) (ref : AccountMeta) :
    (merging.add ref.key ref.isSigner ref.writable).Of (refs ++ [ref]) := by
  rw [h.add_eq]
  refine ⟨?_, fun key ↦ ?_, fun key ↦ ?_, ?_⟩
  · dsimp only
    split
    · exact h.nodup
    · next hmem =>
      have hnew : ref.key ∉ merging.order := fun hin ↦ hmem ((h.mem_order _).mp hin)
      exact List.nodup_append.mpr ⟨h.nodup, List.nodup_singleton _, fun a ha b hb heq ↦
        hnew (List.mem_singleton.mp hb ▸ heq ▸ ha)⟩
  · dsimp only
    rw [List.map_append, List.mem_append, List.map_singleton, List.mem_singleton]
    split
    · next hmem =>
      rw [h.mem_order]
      exact ⟨.inl, fun hkey ↦ hkey.elim id fun heq ↦ heq ▸ hmem⟩
    · rw [List.mem_append, List.mem_singleton, h.mem_order]
  · by_cases hkey : key = ref.key
    · subst hkey
      simp
    · simp [h.merged_eq, combined_append_of_ne refs hkey, hkey]
  · dsimp only
    cases refs with
    | nil =>
      have hnil : merging.order = [] := List.head?_eq_none_iff.mp h.head_eq
      simp [hnil]
    | cons first others =>
      obtain ⟨tail, htail⟩ := List.head?_eq_some_iff.mp h.head_eq
      rw [htail]
      split <;> rfl

theorem mergeAccounts_eq (feePayer : Pubkey) (ixs : List Instruction) :
    mergeAccounts feePayer ixs =
      (references feePayer ixs).foldl (fun merging ref ↦ merging.add ref.key ref.isSigner ref.writable)
        { order := [], merged := fun _ ↦ none } := by
  simp only [references, List.cons_append, List.foldl_cons, List.foldl_append, List.foldl_flatMap,
    List.foldl_map]
  rfl

/-- The accounts that are merged are those that the instructions refer to. -/
theorem mergeAccounts_of (feePayer : Pubkey) (ixs : List Instruction) :
    (mergeAccounts feePayer ixs).Of (references feePayer ixs) := by
  rw [mergeAccounts_eq]
  induction references feePayer ixs using List.reverseRecOn with
  | nil => exact ⟨List.nodup_nil, by simp, by simp, rfl⟩
  | append_singleton refs ref ih =>
    rw [List.foldl_append]
    exact ih.add ref

/-- The accounts of a transaction, in the order they are first referred to. -/
def mergedAccounts (feePayer : Pubkey) (ixs : List Instruction) : List AccountMeta :=
  (mergeAccounts feePayer ixs).order.map (combined (references feePayer ixs))

theorem filterMap_merged (feePayer : Pubkey) (ixs : List Instruction) :
    (mergeAccounts feePayer ixs).order.filterMap (mergeAccounts feePayer ixs).merged =
      mergedAccounts feePayer ixs := by
  have h := mergeAccounts_of feePayer ixs
  rw [mergedAccounts, ← List.filterMap_eq_map]
  apply List.filterMap_congr
  intro key hkey
  rw [h.merged_eq, if_pos ((h.mem_order key).mp hkey)]
  rfl

def Rank.isSigner : Rank → Bool
  | .writableSigner | .readonlySigner => true
  | .writable | .readonly => false

def Rank.isWritable : Rank → Bool
  | .writableSigner | .writable => true
  | .readonlySigner | .readonly => false

/-- The rank of an account tells whether it signs. -/
theorem AccountMeta.isSigner_rank (a : AccountMeta) : a.rank.isSigner = a.isSigner := by
  obtain ⟨key, signer, writable⟩ := a
  cases signer <;> cases writable <;> rfl

theorem AccountMeta.isWritable_rank (a : AccountMeta) : a.rank.isWritable = a.writable := by
  obtain ⟨key, signer, writable⟩ := a
  cases signer <;> cases writable <;> rfl

/-- The rank of a position among the four groups. -/
def Ranks.rankAt (ranks : Ranks) (position : ℕ) : Rank :=
  if position < ranks.numSigners then
    if position < ranks.ws.length then .writableSigner else .readonlySigner
  else if position < ranks.numSigners + ranks.wn.length then .writable
  else .readonly

theorem Ranks.isSigner_rankAt (ranks : Ranks) (position : ℕ) :
    (ranks.rankAt position).isSigner = decide (position < ranks.numSigners) := by
  rw [Ranks.rankAt]
  split_ifs with hsigner <;> simp [Rank.isSigner, hsigner]

theorem Ranks.isWritable_rankAt (ranks : Ranks) (position : ℕ) :
    (ranks.rankAt position).isWritable =
      if position < ranks.numSigners then decide (position < ranks.ws.length)
      else decide (position < ranks.numSigners + ranks.wn.length) := by
  rw [Ranks.rankAt]
  split_ifs with hsigner hwritable hwritable <;> simp [Rank.isWritable, hwritable]

/-- The position of an account tells its rank. -/
theorem rank_of_getElem?_ranked {accounts : List AccountMeta} {position : ℕ} {a : AccountMeta}
    (hget : (rankAccounts accounts).ranked[position]? = some a) :
    a.rank = (rankAccounts accounts).rankAt position := by
  have hrank : ∀ {rank : Rank} {index : ℕ},
      (accounts.filter (·.rank = rank))[index]? = some a → a.rank = rank := fun hin ↦
    of_decide_eq_true (List.mem_filter.mp (List.mem_of_getElem? hin)).2
  rw [Ranks.ranked, List.append_assoc, List.append_assoc] at hget
  rw [Ranks.rankAt, Ranks.numSigners]
  rcases Nat.lt_or_ge position (rankAccounts accounts).ws.length with hws | hws
  · rw [List.getElem?_append_left hws] at hget
    rw [if_pos (Nat.lt_add_right _ hws), if_pos hws]
    exact hrank hget
  rw [List.getElem?_append_right hws] at hget
  rcases Nat.lt_or_ge (position - (rankAccounts accounts).ws.length)
    (rankAccounts accounts).rs.length with hrs | hrs
  · rw [List.getElem?_append_left hrs] at hget
    rw [if_pos (by omega), if_neg hws.not_gt]
    exact hrank hget
  rw [List.getElem?_append_right hrs] at hget
  rw [if_neg (by omega)]
  rcases Nat.lt_or_ge (position - (rankAccounts accounts).ws.length - (rankAccounts accounts).rs.length)
    (rankAccounts accounts).wn.length with hwn | hwn
  · rw [List.getElem?_append_left hwn] at hget
    rw [if_pos (by omega)]
    exact hrank hget
  · rw [List.getElem?_append_right hwn] at hget
    rw [if_neg (by omega)]
    exact hrank hget

theorem count_filter_rank (accounts : List AccountMeta) (a : AccountMeta) (rank : Rank) :
    (accounts.filter (·.rank = rank)).count a = if a.rank = rank then accounts.count a else 0 := by
  split
  · next hrank => exact List.count_filter (decide_eq_true hrank)
  · next hrank =>
    rw [List.count_eq_zero]
    exact fun hin ↦ hrank (of_decide_eq_true (List.mem_filter.mp hin).2)

/-- Ranking only reorders the accounts. -/
theorem ranked_perm (accounts : List AccountMeta) : (rankAccounts accounts).ranked.Perm accounts := by
  rw [List.perm_iff_count]
  intro a
  simp only [Ranks.ranked, rankAccounts, List.count_append, count_filter_rank]
  cases a.rank <;> simp

theorem indexAccounts_concat (keys : List Pubkey) (last : Pubkey) :
    indexAccounts (keys ++ [last]) = Function.update (indexAccounts keys) last (some keys.length) := by
  simp [indexAccounts, List.zipIdx_append]

/-- The index of a key is its position. -/
theorem indexAccounts_eq_some {keys : List Pubkey} (hnodup : keys.Nodup) {position : ℕ}
    (hget : keys[position]? = some key) : indexAccounts keys key = some position := by
  induction keys using List.reverseRecOn with
  | nil => simp at hget
  | append_singleton keys last ih =>
    rw [indexAccounts_concat]
    rcases getElem?_concat_eq_some.mp hget with hget | ⟨rfl, rfl⟩
    · have hne : key ≠ last := fun heq ↦
        (List.nodup_append.mp hnodup).2.2 key (List.mem_of_getElem? hget) last List.mem_cons_self heq
      rw [Function.update_of_ne hne]
      exact ih (List.nodup_append.mp hnodup).1 hget
    · exact Function.update_self ..

/-! ## Reading the bytes back -/

theorem continued_group_eq {group : ℕ} (hgroup : group < 128) :
    UInt8.ofNat group ||| 0x80 = UInt8.ofNat (group + 128) := by
  apply UInt8.toNat_inj.mp
  calc (UInt8.ofNat group ||| 0x80).toNat
      = group ||| 2 ^ 7 * 1 := by
        rw [UInt8.toNat_or, UInt8.toNat_ofNat', Nat.mod_eq_of_lt (by omega)]; rfl
    _ = 2 ^ 7 * 1 + group := by rw [Nat.or_comm, ← Nat.two_pow_add_eq_or_of_lt hgroup]
    _ = (UInt8.ofNat (group + 128)).toNat := by rw [UInt8.toNat_ofNat']; omega

theorem shortVecLoop_succ (fuel : ℕ) (dst : Bytes) (n : ℕ) :
    shortVecLoop (fuel + 1) dst n =
      if n / 128 = 0 then dst ++ [UInt8.ofNat (n % 128)]
      else shortVecLoop fuel (dst ++ [UInt8.ofNat (n % 128 + 128)]) (n / 128) := by
  have hgroup : n &&& 0x7f = n % 128 := Nat.and_two_pow_sub_one_eq_mod n 7
  have hrest : n >>> 7 = n / 128 := Nat.shiftRight_eq_div_pow n 7
  rw [← continued_group_eq (Nat.mod_lt n (by decide)), ← hgroup, ← hrest]
  rfl

/-- A length below 2^16 takes one, two or three bytes. -/
theorem appendShortVec_eq (dst : Bytes) (hn : n < 2 ^ 16) :
    appendShortVec dst n = dst ++
      if n < 128 then [UInt8.ofNat n]
      else if n < 16384 then [UInt8.ofNat (n % 128 + 128), UInt8.ofNat (n / 128)]
      else [UInt8.ofNat (n % 128 + 128), UInt8.ofNat (n / 128 % 128 + 128), UInt8.ofNat (n / 16384)] := by
  rw [appendShortVec, shortVecLoop_succ]
  by_cases hone : n < 128
  · rw [if_pos (Nat.div_eq_of_lt hone), if_pos hone, Nat.mod_eq_of_lt hone]
  rw [if_neg (by omega), if_neg hone, shortVecLoop_succ]
  by_cases htwo : n < 16384
  · rw [if_pos (by omega), if_pos htwo, Nat.mod_eq_of_lt (by omega : n / 128 < 128), List.append_assoc]
    rfl
  · rw [if_neg (by omega), if_neg htwo, shortVecLoop_succ, if_pos (by omega), Nat.div_div_eq_div_mul,
      Nat.mod_eq_of_lt (by omega : n / (128 * 128) < 128), List.append_assoc, List.append_assoc]
    rfl

/-- A length is written behind what is there. -/
theorem appendShortVec_append (dst : Bytes) (hn : n < 2 ^ 16) :
    appendShortVec dst n = dst ++ appendShortVec [] n := by
  rw [appendShortVec_eq dst hn, appendShortVec_eq [] hn, List.nil_append]

theorem reads_compactU16 (hn : n < 2 ^ 16) : compactU16.Reads (appendShortVec [] n) n := by
  intro rest
  rw [appendShortVec_eq [] hn, List.nil_append]
  have hbyte : ∀ {m : ℕ}, m < 256 → (UInt8.ofNat m).toNat = m := UInt8.toNat_ofNat_of_lt'
  have hnonzero : ∀ {m : ℕ}, 0 < m → m < 256 → UInt8.ofNat m ≠ 0 := by
    intro m hpos hlt hzero
    have htoNat := hbyte hlt
    rw [hzero] at htoNat
    exact absurd htoNat (Nat.ne_of_lt hpos)
  by_cases hone : n < 128
  · rw [if_pos hone]
    simp only [List.cons_append, List.nil_append, compactU16, hbyte (by omega : n < 256)]
    rw [if_pos hone]
  rw [if_neg hone]
  by_cases htwo : n < 16384
  · rw [if_pos htwo]
    simp only [List.cons_append, List.nil_append, compactU16, hbyte (by omega : n % 128 + 128 < 256),
      hbyte (by omega : n / 128 < 256)]
    rw [if_neg (by omega), if_neg (hnonzero (by omega) (by omega)), if_pos (by omega)]
    congr 2
    omega
  · rw [if_neg htwo]
    simp only [List.cons_append, List.nil_append, compactU16, hbyte (by omega : n % 128 + 128 < 256),
      hbyte (by omega : n / 128 % 128 + 128 < 256), hbyte (by omega : n / 16384 < 256)]
    rw [if_neg (by omega), if_neg (hnonzero (by omega) (by omega)), if_neg (by omega),
      if_neg (not_or.mpr ⟨hnonzero (by omega) (by omega), by omega⟩)]
    congr 2
    omega

theorem reads_byte (hn : n < 256) : byte.Reads [UInt8.ofNat n] n := by
  have h := (Decoder.reads_token (UInt8.ofNat n)).map UInt8.toNat
  rwa [UInt8.toNat_ofNat_of_lt' hn] at h

theorem reads_compactList {α β : Type} {item : Decoder UInt8 α} {write : β → Bytes} {value : β → α}
    {values : List β} (hlength : values.length < 2 ^ 16)
    (hitem : ∀ b ∈ values, item.Reads (write b) (value b)) :
    (compactList item).Reads (appendShortVec [] values.length ++ values.flatMap write)
      (values.map value) :=
  (reads_compactU16 hlength).bind (.counted hitem)

/-- An instruction with positions in place of keys, and its bytes. -/
def Instruction.indexed (index : Pubkey → Option ℕ) (ix : Instruction) : IndexedInstruction where
  programIDIndex := (index ix.programID).getD 0
  accounts := ix.accounts.map fun m ↦ (index m.key).getD 0
  data := ix.data

def IndexedInstruction.bytes (ix : IndexedInstruction) : Bytes :=
  [UInt8.ofNat ix.programIDIndex] ++
    ((appendShortVec [] ix.accounts.length ++ ix.accounts.flatMap fun position ↦ [UInt8.ofNat position]) ++
      (appendShortVec [] ix.data.length ++ ix.data.flatMap fun next ↦ [next]))

theorem reads_indexedInstruction {ix : IndexedInstruction} (hprogram : ix.programIDIndex < 256)
    (haccounts : ∀ position ∈ ix.accounts, position < 256) (hcount : ix.accounts.length < 2 ^ 16)
    (hdata : ix.data.length < 2 ^ 16) : indexedInstruction.Reads ix.bytes ix := by
  have hpositions : (compactList byte).Reads
      (appendShortVec [] ix.accounts.length ++ ix.accounts.flatMap fun position ↦ [UInt8.ofNat position])
      (ix.accounts.map id) :=
    reads_compactList hcount fun position hposition ↦ reads_byte (haccounts position hposition)
  have hbytes : (compactList Decoder.token).Reads
      (appendShortVec [] ix.data.length ++ ix.data.flatMap fun next ↦ [next]) (ix.data.map id) :=
    reads_compactList hdata fun next _ ↦ Decoder.reads_token next
  rw [List.map_id] at hpositions hbytes
  exact (reads_byte hprogram).bind (hpositions.bind (hbytes.map _))

theorem appendInstruction_eq {index : Pubkey → Option ℕ} {ix : Instruction} (buf : Bytes)
    (hprogram : (index ix.programID).isSome) (hcount : ix.accounts.length < 2 ^ 16)
    (hdata : ix.data.length < 2 ^ 16) :
    appendInstruction index buf ix = .ok (buf ++ (ix.indexed index).bytes) := by
  obtain ⟨pi, hpi⟩ := Option.isSome_iff_exists.mp hprogram
  have hpositions : ((ix.indexed index).accounts.flatMap fun position ↦ [UInt8.ofNat position]) =
      ix.accounts.map fun m ↦ UInt8.ofNat ((index m.key).getD 0) := by
    rw [← List.map_eq_flatMap, Instruction.indexed, List.map_map]
    rfl
  have hprogramIndex : (ix.indexed index).programIDIndex = pi := by rw [Instruction.indexed, hpi]; rfl
  have hlength : (ix.indexed index).accounts.length = ix.accounts.length := List.length_map _
  simp only [appendInstruction, hpi, IndexedInstruction.bytes, hpositions, hprogramIndex, hlength,
    List.flatMap_singleton']
  rw [appendShortVec_append _ hdata, appendShortVec_append (buf ++ [UInt8.ofNat pi]) hcount]
  simp only [List.append_assoc]
  rfl

/-- The instructions are written one after the other. -/
theorem foldlM_appendInstruction {index : Pubkey → Option ℕ} {ixs : List Instruction} (buf : Bytes)
    (hprogram : ∀ ix ∈ ixs, (index ix.programID).isSome)
    (hlength : ∀ ix ∈ ixs, ix.accounts.length < 2 ^ 16 ∧ ix.data.length < 2 ^ 16) :
    ixs.foldlM (appendInstruction index) buf =
      .ok (buf ++ (ixs.map (·.indexed index)).flatMap IndexedInstruction.bytes) := by
  induction ixs generalizing buf with
  | nil => simp [pure, Except.pure]
  | cons ix ixs ih =>
    obtain ⟨hfirst, hprograms⟩ := List.forall_mem_cons.mp hprogram
    obtain ⟨⟨hcount, hdata⟩, hlengths⟩ := List.forall_mem_cons.mp hlength
    rw [List.foldlM_cons, appendInstruction_eq buf hfirst hcount hdata]
    exact (ih _ hprograms hlengths).trans (by simp)

def LegacyMessage.bytes (message : LegacyMessage) : Bytes :=
  [UInt8.ofNat message.numRequiredSignatures] ++
    ([UInt8.ofNat message.numReadonlySigned] ++
      ([UInt8.ofNat message.numReadonlyUnsigned] ++
        ((appendShortVec [] message.accountKeys.length ++ message.accountKeys.flatMap (·.1)) ++
          (message.recentBlockhash.1 ++
            (appendShortVec [] message.instructions.length ++
              message.instructions.flatMap IndexedInstruction.bytes)))))

theorem reads_legacyMessage {message : LegacyMessage} (hkeys : message.accountKeys.length < 256)
    (hrequired : message.numRequiredSignatures < 256) (hsigned : message.numReadonlySigned < 256)
    (hunsigned : message.numReadonlyUnsigned < 256) (hcount : message.instructions.length < 2 ^ 16)
    (hinstructions : ∀ ix ∈ message.instructions, indexedInstruction.Reads ix.bytes ix) :
    legacyMessage.Reads message.bytes message := by
  have haccounts : (compactList (Decoder.fixed publicKeySize)).Reads
      (appendShortVec [] message.accountKeys.length ++ message.accountKeys.flatMap (·.1))
      (message.accountKeys.map id) :=
    reads_compactList (hkeys.trans (by decide)) fun key _ ↦ Decoder.reads_fixed key
  have hixs : (compactList indexedInstruction).Reads
      (appendShortVec [] message.instructions.length ++
        message.instructions.flatMap IndexedInstruction.bytes) (message.instructions.map id) :=
    reads_compactList hcount hinstructions
  rw [List.map_id] at haccounts hixs
  exact (reads_byte hrequired).bind ((reads_byte hsigned).bind ((reads_byte hunsigned).bind
    (haccounts.bind ((Decoder.reads_fixed message.recentBlockhash).bind (hixs.map _)))))

/-! ## The message of a transaction -/

section Message

variable (feePayer blockhash : Pubkey) (ixs : List Instruction)

def ranksOf : Ranks := rankAccounts (mergedAccounts feePayer ixs)

theorem keys_perm : (ranksOf feePayer ixs).keys.Perm (mergeAccounts feePayer ixs).order := by
  have hperm := (ranked_perm (mergedAccounts feePayer ixs)).map (·.key)
  have hkeys : (mergedAccounts feePayer ixs).map (·.key) = (mergeAccounts feePayer ixs).order := by
    rw [mergedAccounts, List.map_map]
    exact List.map_id _
  rwa [hkeys] at hperm

/-- No account is listed twice. -/
theorem nodup_keys : (ranksOf feePayer ixs).keys.Nodup :=
  (keys_perm feePayer ixs).nodup_iff.mpr (mergeAccounts_of feePayer ixs).nodup

/-- The accounts of a message are those that are referred to. -/
theorem mem_keys (key : Pubkey) :
    key ∈ (ranksOf feePayer ixs).keys ↔ key ∈ (references feePayer ixs).map (·.key) :=
  (keys_perm feePayer ixs).mem_iff.trans ((mergeAccounts_of feePayer ixs).mem_order key)

theorem length_keys :
    (ranksOf feePayer ixs).keys.length = ((references feePayer ixs).map (·.key)).dedup.length := by
  have hperm : (ranksOf feePayer ixs).keys.Perm ((references feePayer ixs).map (·.key)).dedup := by
    rw [List.perm_ext_iff_of_nodup (nodup_keys feePayer ixs) (List.nodup_dedup _)]
    intro key
    rw [mem_keys, List.mem_dedup]
  exact hperm.length_eq

/-- The fee payer comes first. -/
theorem head_keys : (ranksOf feePayer ixs).keys.head? = some feePayer := by
  have hhead : (mergeAccounts feePayer ixs).order.head? = some feePayer :=
    (mergeAccounts_of feePayer ixs).head_eq
  obtain ⟨others, horder⟩ := List.head?_eq_some_iff.mp hhead
  have hrank : (combined (references feePayer ixs) feePayer).rank = .writableSigner := by
    simp [combined, references, AccountMeta.rank]
  have hws : (ranksOf feePayer ixs).ws =
      combined (references feePayer ixs) feePayer ::
        (others.map (combined (references feePayer ixs))).filter (·.rank = .writableSigner) := by
    simp only [ranksOf, rankAccounts, mergedAccounts, horder, List.map_cons]
    rw [List.filter_cons_of_pos (by simpa using hrank)]
  rw [Ranks.keys, Ranks.ranked, hws]
  rfl

variable {key : Pubkey} {position : ℕ} {ix : Instruction}

theorem getElem?_ranked (hget : (ranksOf feePayer ixs).keys[position]? = some key) :
    (ranksOf feePayer ixs).ranked[position]? = some (combined (references feePayer ixs) key) := by
  rw [Ranks.keys, List.getElem?_map, Option.map_eq_some_iff] at hget
  obtain ⟨a, hget, rfl⟩ := hget
  have hmem : a ∈ mergedAccounts feePayer ixs :=
    (ranked_perm _).mem_iff.mp (List.mem_of_getElem? hget)
  obtain ⟨key, _, rfl⟩ := List.mem_map.mp hmem
  exact hget

/-- The message that decoding gives. -/
def messageOf : LegacyMessage where
  numRequiredSignatures := (ranksOf feePayer ixs).numSigners
  numReadonlySigned := (ranksOf feePayer ixs).rs.length
  numReadonlyUnsigned := (ranksOf feePayer ixs).rn.length
  accountKeys := (ranksOf feePayer ixs).keys
  recentBlockhash := blockhash
  instructions := ixs.map (·.indexed (indexAccounts (ranksOf feePayer ixs).keys))

theorem length_ranked :
    (ranksOf feePayer ixs).keys.length =
      (ranksOf feePayer ixs).numSigners + (ranksOf feePayer ixs).wn.length +
        (ranksOf feePayer ixs).rn.length := by
  simp only [Ranks.keys, Ranks.ranked, Ranks.numSigners, List.length_map, List.length_append]

/-- The header tells of each account whether it signs. -/
theorem isSigner_messageOf (hget : (ranksOf feePayer ixs).keys[position]? = some key) :
    (messageOf feePayer blockhash ixs).isSigner position =
      (combined (references feePayer ixs) key).isSigner := by
  have hrank := rank_of_getElem?_ranked (getElem?_ranked feePayer ixs hget)
  rw [← AccountMeta.isSigner_rank, hrank, Ranks.isSigner_rankAt]
  rfl

/-- The header tells of each account whether it may be written. -/
theorem isWritable_messageOf (hget : (ranksOf feePayer ixs).keys[position]? = some key) :
    (messageOf feePayer blockhash ixs).isWritable position =
      (combined (references feePayer ixs) key).writable := by
  have hrank := rank_of_getElem?_ranked (getElem?_ranked feePayer ixs hget)
  have hsigned : (ranksOf feePayer ixs).numSigners - (ranksOf feePayer ixs).rs.length =
      (ranksOf feePayer ixs).ws.length := Nat.add_sub_cancel ..
  have hunsigned : (ranksOf feePayer ixs).keys.length - (ranksOf feePayer ixs).rn.length =
      (ranksOf feePayer ixs).numSigners + (ranksOf feePayer ixs).wn.length := by
    rw [length_ranked, Nat.add_sub_cancel]
  rw [← AccountMeta.isWritable_rank, hrank, Ranks.isWritable_rankAt]
  simp only [LegacyMessage.isWritable, messageOf, hsigned, hunsigned]
  rfl

theorem getElem?_index (hkey : key ∈ (references feePayer ixs).map (·.key)) :
    ∃ position, indexAccounts (ranksOf feePayer ixs).keys key = some position ∧
      (ranksOf feePayer ixs).keys[position]? = some key := by
  obtain ⟨position, hget⟩ := List.mem_iff_getElem?.mp ((mem_keys feePayer ixs key).mpr hkey)
  exact ⟨position, indexAccounts_eq_some (nodup_keys feePayer ixs) hget, hget⟩

variable {feePayer ixs}

theorem programID_mem_references (hix : ix ∈ ixs) :
    ix.programID ∈ (references feePayer ixs).map (·.key) := by
  simp only [references, List.map_append, List.mem_append, List.map_map]
  exact .inr (List.mem_map.mpr ⟨ix, hix, rfl⟩)

theorem key_mem_references (hix : ix ∈ ixs) {m : AccountMeta} (hm : m ∈ ix.accounts) :
    m.key ∈ (references feePayer ixs).map (·.key) := by
  have hmem : m ∈ ixs.flatMap (·.accounts) := List.mem_flatMap.mpr ⟨ix, hix, hm⟩
  simp only [references, List.cons_append, List.map_cons, List.map_append]
  exact List.mem_cons_of_mem _ (List.mem_append_left _ (List.mem_map_of_mem hmem))

/-- Positions stand for the keys they were made from. -/
theorem getElem?_position (hkey : key ∈ (references feePayer ixs).map (·.key)) :
    (ranksOf feePayer ixs).keys[(indexAccounts (ranksOf feePayer ixs).keys key).getD 0]? = some key := by
  obtain ⟨position, hindex, hget⟩ := getElem?_index feePayer ixs hkey
  rw [hindex]
  exact hget

/-- Positions lead back to the program, accounts and data of an instruction. -/
theorem resolve_indexed (hix : ix ∈ ixs) :
    (messageOf feePayer blockhash ixs).resolve (ix.indexed (indexAccounts (ranksOf feePayer ixs).keys)) =
      some ix.call := by
  have hprogram := getElem?_position (@programID_mem_references feePayer _ _ hix)
  have haccounts : (ix.indexed (indexAccounts (ranksOf feePayer ixs).keys)).accounts.mapM
      ((ranksOf feePayer ixs).keys[·]?) = some (ix.accounts.map (·.key)) :=
    mapM_map_eq_some fun m hm ↦ getElem?_position (key_mem_references hix hm)
  simp only [LegacyMessage.resolve, messageOf, haccounts]
  simp only [Instruction.indexed, hprogram]
  rfl

theorem calls_messageOf : (messageOf feePayer blockhash ixs).calls = some (ixs.map Instruction.call) :=
  mapM_map_eq_some fun _ hix ↦ resolve_indexed blockhash hix

/-- Within the limits, compilation gives the bytes of the message. -/
theorem compileMessage_eq (hkeys : ((references feePayer ixs).map (·.key)).dedup.length ≤ 255)
    (hcount : ixs.length < 2 ^ 16)
    (hlength : ∀ ix ∈ ixs, ix.accounts.length < 2 ^ 16 ∧ ix.data.length < 2 ^ 16) :
    compileMessage feePayer blockhash ixs =
      .ok { accountKeys := (ranksOf feePayer ixs).keys
            numSigners := (ranksOf feePayer ixs).numSigners
            serialized := (messageOf feePayer blockhash ixs).bytes } := by
  have hlist : (ranksOf feePayer ixs).keys.length < 2 ^ 16 := by
    rw [length_keys]
    omega
  have hprogram : ∀ ix ∈ ixs, (indexAccounts (ranksOf feePayer ixs).keys ix.programID).isSome := by
    intro ix hix
    obtain ⟨position, hindex, _⟩ := getElem?_index feePayer ixs (programID_mem_references hix)
    rw [hindex, Option.isSome_some]
  rw [compileMessage]
  simp only [filterMap_merged]
  rw [← ranksOf, foldlM_appendInstruction _ hprogram hlength, appendShortVec_append _ hcount,
    appendShortVec_append _ hlist]
  simp only [LegacyMessage.bytes, messageOf, Ranks.header, List.length_map, List.append_assoc]
  rfl

theorem reads_messageOf (hkeys : ((references feePayer ixs).map (·.key)).dedup.length ≤ 255)
    (hcount : ixs.length < 2 ^ 16)
    (hlength : ∀ ix ∈ ixs, ix.accounts.length < 2 ^ 16 ∧ ix.data.length < 2 ^ 16) :
    legacyMessage.Reads (messageOf feePayer blockhash ixs).bytes (messageOf feePayer blockhash ixs) := by
  have hlist : (ranksOf feePayer ixs).keys.length < 256 := by
    rw [length_keys]
    omega
  have hsum := length_ranked feePayer ixs
  have hposition : ∀ {key : Pubkey}, key ∈ (references feePayer ixs).map (·.key) →
      (indexAccounts (ranksOf feePayer ixs).keys key).getD 0 < 256 := fun hkey ↦
    (List.getElem?_eq_some_iff.mp (getElem?_position hkey)).1.trans hlist
  have hrs : (ranksOf feePayer ixs).rs.length ≤ (ranksOf feePayer ixs).numSigners := Nat.le_add_left ..
  refine reads_legacyMessage hlist ?_ ?_ ?_ ?_ ?_
  · exact (by omega : (ranksOf feePayer ixs).numSigners < 256)
  · exact (by omega : (ranksOf feePayer ixs).rs.length < 256)
  · exact (by omega : (ranksOf feePayer ixs).rn.length < 256)
  · exact (List.length_map _).trans_lt hcount
  · intro indexed hindexed
    obtain ⟨ix, hix, rfl⟩ := List.mem_map.mp hindexed
    refine reads_indexedInstruction (hposition (programID_mem_references hix)) ?_ ?_ (hlength ix hix).2
    · intro position hmem
      obtain ⟨m, hm, rfl⟩ := List.mem_map.mp hmem
      exact hposition (key_mem_references hix hm)
    · exact (List.length_map _).trans_lt (hlength ix hix).1

/-- The keys in front are those that some reference wants to sign. -/
theorem mem_take_numSigners :
    key ∈ (ranksOf feePayer ixs).keys.take (ranksOf feePayer ixs).numSigners ↔
      (combined (references feePayer ixs) key).isSigner = true := by
  have hstatus : ∀ {position : ℕ}, (ranksOf feePayer ixs).keys[position]? = some key →
      (position < (ranksOf feePayer ixs).numSigners ↔
        (combined (references feePayer ixs) key).isSigner = true) := by
    intro position hget
    rw [← isSigner_messageOf feePayer feePayer ixs hget, LegacyMessage.isSigner, decide_eq_true_eq]
    rfl
  constructor
  · intro hmem
    obtain ⟨position, hget⟩ := List.mem_iff_getElem?.mp hmem
    rw [List.getElem?_take] at hget
    split at hget
    · next hlt => exact (hstatus hget).mp hlt
    · cases hget
  · intro hsigner
    have hkey : key ∈ (references feePayer ixs).map (·.key) := by
      by_contra hnot
      rw [combined_of_notMem hnot] at hsigner
      exact Bool.false_ne_true hsigner
    obtain ⟨position, hget⟩ := List.mem_iff_getElem?.mp ((mem_keys feePayer ixs key).mpr hkey)
    refine List.mem_iff_getElem?.mpr ⟨position, ?_⟩
    rw [List.getElem?_take_of_lt ((hstatus hget).mpr hsigner), hget]

end Message

/-! ## Signatures -/

section Signatures

variable {Private : Type} (sign : Private → Bytes → Bytes)

/-- Write a signature over the slot of its index. The slots begin after the count. -/
def fillSlot (offset : ℕ) (tx : Bytes) (signature : Bytes × ℕ) : Bytes :=
  tx.take (offset + 64 * signature.2) ++ signature.1 ++ tx.drop (offset + 64 * (signature.2 + 1))

def fillSlots (offset : ℕ) (tx : Bytes) (signatures : List Bytes) : Bytes :=
  signatures.zipIdx.foldl (fillSlot offset) tx

/-- A signature is copied into its slot. -/
theorem fillSlot_eq (before zeros after signature : Bytes) {offset slot : ℕ}
    (hbefore : before.length = offset + 64 * slot) (hzeros : zeros.length = 64) :
    fillSlot offset (before ++ (zeros ++ after)) (signature, slot) = before ++ (signature ++ after) := by
  have hdrop : (before ++ zeros).length = offset + 64 * (slot + 1) := by
    rw [List.length_append, hbefore, hzeros, Nat.mul_succ, Nat.add_assoc]
  have htail : (before ++ (zeros ++ after)).drop (offset + 64 * (slot + 1)) = after := by
    rw [← List.append_assoc, List.drop_left' hdrop]
  rw [fillSlot, List.take_left' hbefore, htail, List.append_assoc]

/-- Signatures fill as many of the empty slots as there are signatures. -/
theorem fillSlots_eq (lead rest : Bytes) {signatures : List Bytes}
    (hsize : ∀ signature ∈ signatures, signature.length = 64) (left : ℕ) :
    fillSlots lead.length
        (lead ++ (List.replicate ((signatures.length + left) * 64) 0 ++ rest)) signatures =
      lead ++ (signatures.flatten ++ (List.replicate (left * 64) 0 ++ rest)) := by
  induction signatures using List.reverseRecOn generalizing left with
  | nil => simp [fillSlots]
  | append_singleton signatures last ih =>
    have hothers : ∀ signature ∈ signatures, signature.length = 64 := fun signature hmem ↦
      hsize signature (List.mem_append_left _ hmem)
    have hbefore : (lead ++ signatures.flatten).length = lead.length + 64 * signatures.length := by
      rw [List.length_append, List.length_flatten, List.map_congr_left hothers, List.map_const',
        List.sum_replicate_nat, Nat.mul_comm]
    have hcount : (signatures ++ [last]).length + left = signatures.length + (left + 1) := by
      rw [List.length_append, List.length_singleton]
      omega
    have hzeros : List.replicate ((left + 1) * 64) (0 : UInt8) =
        List.replicate 64 0 ++ List.replicate (left * 64) 0 := by
      rw [← List.replicate_add, Nat.succ_mul, Nat.add_comm]
    have hstep := fillSlot_eq (lead ++ signatures.flatten) (List.replicate 64 0)
      (List.replicate (left * 64) 0 ++ rest) last hbefore List.length_replicate
    calc fillSlots lead.length
          (lead ++ (List.replicate (((signatures ++ [last]).length + left) * 64) 0 ++ rest))
          (signatures ++ [last])
        = fillSlot lead.length
            (lead ++ (signatures.flatten ++ (List.replicate ((left + 1) * 64) 0 ++ rest)))
            (last, signatures.length) := by
          rw [hcount, ← ih hothers (left + 1)]
          simp [fillSlots, List.zipIdx_append]
      _ = lead ++ signatures.flatten ++ (last ++ (List.replicate (left * 64) 0 ++ rest)) := by
          rw [← hstep, hzeros, List.append_assoc, List.append_assoc]
      _ = lead ++ ((signatures ++ [last]).flatten ++ (List.replicate (left * 64) 0 ++ rest)) := by
          simp only [List.flatten_append, List.flatten_singleton, List.append_assoc]

variable {signers : Pubkey → Option Private}

theorem signatureOf_eq_ok {serialized : Bytes} {key : Pubkey} {signature : Bytes} :
    signatureOf sign serialized signers key = .ok signature ↔
      ∃ sk, signers key = some sk ∧ signature = sign sk serialized := by
  rw [signatureOf]
  cases signers key with
  | none => simp
  | some sk => simp [eq_comm]

/-- The signatures are made if there is a secret for every key. -/
theorem mapM_signatureOf {serialized : Bytes} {keys : List Pubkey} {sigs : List Bytes} :
    keys.mapM (signatureOf sign serialized signers) = .ok sigs ↔
      ∃ secrets : List Private, keys.map signers = secrets.map some ∧
        sigs = secrets.map (sign · serialized) := by
  induction keys generalizing sigs with
  | nil =>
    constructor
    · intro h
      exact ⟨[], rfl, (Except.ok.inj h).symm⟩
    · rintro ⟨secrets, hsecrets, rfl⟩
      rw [List.map_eq_nil_iff.mp hsecrets.symm]
      rfl
  | cons key keys ih =>
    rw [mapM_cons_eq_ok]
    constructor
    · rintro ⟨first, others, hfirst, hothers, rfl⟩
      obtain ⟨sk, hsk, rfl⟩ := (signatureOf_eq_ok sign).mp hfirst
      obtain ⟨secrets, hsecrets, rfl⟩ := ih.mp hothers
      exact ⟨sk :: secrets, by rw [List.map_cons, List.map_cons, hsk, hsecrets], rfl⟩
    · rintro ⟨secrets, hsecrets, rfl⟩
      cases secrets with
      | nil => cases hsecrets
      | cons sk secrets =>
        obtain ⟨hsk, hsecrets⟩ := List.cons.inj hsecrets
        exact ⟨sign sk serialized, _, (signatureOf_eq_ok sign).mpr ⟨sk, hsk, rfl⟩,
          ih.mpr ⟨secrets, hsecrets, rfl⟩, rfl⟩

/-- Signing puts the signatures where an unsigned transaction has its zeros. -/
theorem signTx_eq_ok {msg : CompiledMessage} {tx : Bytes}
    (hsize : ∀ sk content, (sign sk content).length = 64)
    (hsigners : msg.numSigners ≤ msg.accountKeys.length) :
    signTx sign msg signers = .ok tx ↔
      ∃ secrets : List Private,
        (msg.accountKeys.take msg.numSigners).map signers = secrets.map some ∧
        tx = fillSlots (appendShortVec [] msg.numSigners).length (compileUnsignedTx msg)
          (secrets.map (sign · msg.serialized)) := by
  have hfill : ∀ secrets : List Private,
      (msg.accountKeys.take msg.numSigners).map signers = secrets.map some →
      appendShortVec [] (secrets.map (sign · msg.serialized)).length ++
          (secrets.map (sign · msg.serialized)).flatten ++ msg.serialized =
        fillSlots (appendShortVec [] msg.numSigners).length (compileUnsignedTx msg)
          (secrets.map (sign · msg.serialized)) := by
    intro secrets hsecrets
    have hlength : (secrets.map (sign · msg.serialized)).length = msg.numSigners := by
      have hsame := congrArg List.length hsecrets
      rw [List.length_map, List.length_take_of_le hsigners, List.length_map] at hsame
      rw [List.length_map, hsame]
    have hsizes : ∀ signature ∈ secrets.map (sign · msg.serialized), signature.length = 64 := by
      intro signature hmem
      obtain ⟨sk, _, rfl⟩ := List.mem_map.mp hmem
      exact hsize sk msg.serialized
    have heq := fillSlots_eq (appendShortVec [] msg.numSigners) msg.serialized hsizes 0
    rw [hlength, Nat.add_zero, Nat.zero_mul, List.replicate_zero, List.nil_append] at heq
    rw [hlength, compileUnsignedTx, List.append_assoc, List.append_assoc, heq]
  rw [signTx, bind_eq_ok]
  constructor
  · rintro ⟨sigs, hsigs, htx⟩
    obtain ⟨secrets, hsecrets, rfl⟩ := (mapM_signatureOf sign).mp hsigs
    exact ⟨secrets, hsecrets, (Except.ok.inj htx).symm.trans (hfill secrets hsecrets)⟩
  · rintro ⟨secrets, hsecrets, rfl⟩
    exact ⟨_, (mapM_signatureOf sign).mpr ⟨secrets, hsecrets, rfl⟩,
      congrArg Except.ok (hfill secrets hsecrets)⟩

theorem exists_secrets {keys : List Pubkey} :
    (∃ secrets : List Private, keys.map signers = secrets.map some) ↔
      ∀ key ∈ keys, (signers key).isSome := by
  constructor
  · rintro ⟨secrets, hsecrets⟩ key hkey
    have hmem : signers key ∈ secrets.map some := hsecrets ▸ List.mem_map_of_mem hkey
    obtain ⟨sk, _, hsk⟩ := List.mem_map.mp hmem
    rw [← hsk, Option.isSome_some]
  · intro hall
    induction keys with
    | nil => exact ⟨[], rfl⟩
    | cons key keys ih =>
      obtain ⟨hfirst, hothers⟩ := List.forall_mem_cons.mp hall
      obtain ⟨sk, hsk⟩ := Option.isSome_iff_exists.mp hfirst
      obtain ⟨secrets, hsecrets⟩ := ih hothers
      exact ⟨sk :: secrets, by rw [List.map_cons, List.map_cons, hsk, hsecrets]⟩

/-- Signing succeeds if and only if every signer has a secret. -/
theorem signTx_succeeds_iff {msg : CompiledMessage}
    (hsize : ∀ sk content, (sign sk content).length = 64)
    (hsigners : msg.numSigners ≤ msg.accountKeys.length) :
    (∃ tx, signTx sign msg signers = .ok tx) ↔
      ∀ key ∈ msg.accountKeys.take msg.numSigners, (signers key).isSome := by
  rw [← exists_secrets]
  constructor
  · rintro ⟨tx, htx⟩
    obtain ⟨secrets, hsecrets, _⟩ := (signTx_eq_ok sign hsize hsigners).mp htx
    exact ⟨secrets, hsecrets⟩
  · rintro ⟨secrets, hsecrets⟩
    exact ⟨_, (signTx_eq_ok sign hsize hsigners).mpr ⟨secrets, hsecrets, rfl⟩⟩

end Signatures

/-- The bytes of a message say to a reader of the standard layout what the transaction is. -/
structure CompiledMessage.Says (feePayer blockhash : Pubkey) (ixs : List Instruction)
    (msg : CompiledMessage) (message : LegacyMessage) : Prop where
  decodes : legacyMessage msg.serialized = some (message, [])
  calls : message.calls = some (ixs.map Instruction.call)
  recentBlockhash : message.recentBlockhash = blockhash
  accountKeys : message.accountKeys = msg.accountKeys
  numSigners : message.numRequiredSignatures = msg.numSigners
  nodup : msg.accountKeys.Nodup
  head : msg.accountKeys.head? = some feePayer
  isSigner : ∀ position key, msg.accountKeys[position]? = some key →
    message.isSigner position = (combined (references feePayer ixs) key).isSigner
  isWritable : ∀ position key, msg.accountKeys[position]? = some key →
    message.isWritable position = (combined (references feePayer ixs) key).writable

/-- Signing succeeds when every key that signs has a private key, and then each slot of the unsigned
transaction holds the signature of the key at its position. -/
structure CompiledMessage.Signs {Private : Type} (sign : Private → Bytes → Bytes) (feePayer : Pubkey)
    (ixs : List Instruction) (msg : CompiledMessage) (signers : Pubkey → Option Private) : Prop where
  succeeds_iff : (∃ tx, signTx sign msg signers = .ok tx) ↔
    ∀ key, (combined (references feePayer ixs) key).isSigner = true → (signers key).isSome
  fills : ∀ tx, signTx sign msg signers = .ok tx →
    ∃ secrets : List Private,
      (msg.accountKeys.take msg.numSigners).map signers = secrets.map some ∧
      tx = fillSlots (appendShortVec [] msg.numSigners).length (compileUnsignedTx msg)
        (secrets.map (sign · msg.serialized))

theorem compileMessage_faithful {Private : Type} (feePayer blockhash : Pubkey) (ixs : List Instruction)
    (hkeys : ((references feePayer ixs).map (·.key)).dedup.length ≤ 255) (hcount : ixs.length < 2 ^ 16)
    (hlength : ∀ ix ∈ ixs, ix.accounts.length < 2 ^ 16 ∧ ix.data.length < 2 ^ 16)
    (sign : Private → Bytes → Bytes) (hsize : ∀ sk content, (sign sk content).length = signatureSize)
    (signers : Pubkey → Option Private) :
    ∃ msg message, compileMessage feePayer blockhash ixs = .ok msg ∧
      msg.Says feePayer blockhash ixs message ∧ msg.Signs sign feePayer ixs signers := by
  refine ⟨_, messageOf feePayer blockhash ixs, compileMessage_eq blockhash hkeys hcount hlength, ?_, ?_⟩
  · have hreads := reads_messageOf blockhash hkeys hcount hlength []
    rw [List.append_nil] at hreads
    exact
      { decodes := hreads
        calls := calls_messageOf blockhash
        recentBlockhash := rfl
        accountKeys := rfl
        numSigners := rfl
        nodup := nodup_keys feePayer ixs
        head := head_keys feePayer ixs
        isSigner := fun _ _ ↦ isSigner_messageOf feePayer blockhash ixs
        isWritable := fun _ _ ↦ isWritable_messageOf feePayer blockhash ixs }
  · have hsigners : (ranksOf feePayer ixs).numSigners ≤ (ranksOf feePayer ixs).keys.length := by
      rw [length_ranked, Nat.add_assoc]
      exact Nat.le_add_right ..
    refine ⟨?_, fun tx htx ↦ (signTx_eq_ok sign hsize hsigners).mp htx⟩
    exact (signTx_succeeds_iff sign hsize hsigners).trans
      (forall_congr' fun key ↦ imp_congr_left mem_take_numSigners)

/-- The program of this transaction is an account of it too, and the fee payer is named twice. -/
theorem compileMessage_faithful_example :
    let key (n : UInt8) : Pubkey := ⟨List.replicate 32 n, rfl⟩
    let ixs : List Instruction :=
      [{ programID := key 4, accounts := [⟨key 2, false, true⟩, ⟨key 1, false, false⟩], data := [7, 8] },
        { programID := key 3, accounts := [⟨key 4, true, false⟩, ⟨key 2, false, false⟩], data := [] }]
    ((references (key 1) ixs).map (·.key)).dedup.length ≤ 255 ∧
    ∃ msg message, compileMessage (key 1) (key 9) ixs = .ok msg ∧
      msg.Says (key 1) (key 9) ixs message ∧
      msg.Signs (fun (_ : Unit) _ ↦ List.replicate 64 5) (key 1) ixs fun _ ↦ some () := by
  intro key ixs
  have hkeys : ((references (key 1) ixs).map (·.key)).dedup.length ≤ 255 := by decide +kernel
  exact ⟨hkeys, compileMessage_faithful (key 1) (key 9) ixs hkeys (by decide) (by decide) _
    (fun _ _ ↦ rfl) _⟩

end Mosey.WalletSolana

import Mosey.Typescript.Exchange
import Mosey.Typescript.Wire

/-!
# The calls of a handshake

What the client's calls of its crypto library come to when both sides are honest: equal bytes are found
equal, a signature with a key verifies under that key, and each of the calls is one task or none.
-/

namespace Mosey.Typescript

open Library Auth

theorem foldl_diff_eq_zero (start : UInt8) {a b : Bytes} (hlength : a.length = b.length) :
    (a.zip b).foldl (fun diff (x, y) ↦ diff ||| (x ^^^ y)) start = 0 ↔ start = 0 ∧ a = b := by
  induction a generalizing start b with
  | nil =>
    obtain rfl := List.length_eq_zero_iff.mp hlength.symm
    simp
  | cons x a ih =>
    cases b with
    | nil => cases hlength
    | cons y b =>
      rw [List.zip_cons_cons, List.foldl_cons, ih _ (Nat.succ.inj hlength)]
      simp [UInt8.or_eq_zero_iff, and_assoc]

/-- The comparison in constant time is equality. -/
theorem constantTimeEqual_bytes (a b : Bytes) : constantTimeEqual (.bytes a) b = decide (a = b) := by
  rw [constantTimeEqual]
  split_ifs with hlength
  · exact (decide_eq_false fun heq ↦ hlength (congrArg List.length heq)).symm
  · rw [decide_eq_decide, foldl_diff_eq_zero 0 (not_not.mp hlength)]
    exact and_iff_right rfl

theorem ofLength_eq_ok {value : Bytes} {length : ℕ} (hlength : value.length = length) :
    (JSValue.bytes value).ofLength length = .ok value :=
  if_pos hlength

theorem Writes.eq_ok {engine : Engine} {encoded : Except RangeError Bytes} {bytes : Bytes}
    (hwrites : Writes engine encoded bytes) (hfits : bytes.length ≤ engine.maxLength) :
    encoded = .ok bytes := by
  rcases hwrites with ⟨-, hok⟩ | ⟨hlong, -⟩
  · exact hok
  · exact absurd hfits hlong.not_ge

section Signing

variable {Result : Type} {crypto : WireEd25519 Seed}

/-- A signature of the client's own making is found valid. -/
theorem ed25519Verify_sign {key message : Bytes} {seed : Seed} (hkey : key = crypto.publicKey seed)
    (next : Bool → Async Result) :
    ed25519Verify crypto.toEd25519 key message (.bytes (crypto.sign seed message)) next =
      .later (next true) := by
  have hlength : key.length = ED25519_PUBLIC_KEY_SIZE := by
    rw [hkey]
    exact crypto.length_publicKey seed
  have hsize : (crypto.sign seed message).length = ED25519_SIGNATURE_SIZE := crypto.length_sign seed message
  unfold ed25519Verify
  rw [if_neg (not_not.mpr hlength)]
  dsimp only
  rw [if_neg (not_not.mpr hsize), hkey, crypto.verify_sign]

/-- A private key is its seed with the public key behind it. -/
def privateKey (crypto : WireEd25519 Seed) (seed : Seed) : Bytes := seed.1 ++ crypto.publicKey seed

/-- A key pair has the size that the client's functions require. -/
theorem length_privateKey (seed : Seed) : (privateKey crypto seed).length = ED25519_PRIVATE_KEY_SIZE := by
  have hpublic : (crypto.publicKey seed).length = 32 := crypto.length_publicKey seed
  rw [privateKey, List.length_append, seed.2, hpublic]
  rfl

theorem ed25519Sign_privateKey (seed : Seed) (message : Bytes) (next : Bytes → Async Result) :
    ed25519Sign crypto.toEd25519 (privateKey crypto seed) message next =
      .later (next (crypto.sign seed message)) := by
  have hseed : (privateKey crypto seed).take 32 = seed.1 := List.take_left' seed.2
  unfold ed25519Sign
  rw [dif_pos (length_privateKey seed)]
  congr 3
  exact Subtype.ext hseed

theorem connPub_privateKey (seed : Seed) :
    ((privateKey crypto seed).drop 32).take 32 = crypto.publicKey seed := by
  have hpublic : (crypto.publicKey seed).length = 32 := crypto.length_publicKey seed
  have hdrop : (privateKey crypto seed).drop 32 = crypto.publicKey seed := List.drop_left' seed.2
  rw [hdrop, List.take_of_length_le hpublic.le]

variable {limit : ℕ}

theorem waitsAtMost_ed25519Verify {publicKey message : Bytes} {signature : JSValue}
    {next : Bool → Async Result} (hnext : ∀ valid, (next valid).waitsAtMost limit) :
    (ed25519Verify crypto.toEd25519 publicKey message signature next).waitsAtMost (limit + 1) := by
  unfold ed25519Verify
  split
  · trivial
  · split
    · exact waitsAtMost_succ (hnext false)
    · split
      · exact waitsAtMost_succ (hnext false)
      · exact hnext _

theorem waitsAtMost_ed25519Sign {key message : Bytes} {next : Bytes → Async Result}
    (hnext : ∀ signature, (next signature).waitsAtMost limit) :
    (ed25519Sign crypto.toEd25519 key message next).waitsAtMost (limit + 1) := by
  unfold ed25519Sign
  split
  · exact hnext _
  · trivial

end Signing

end Mosey.Typescript

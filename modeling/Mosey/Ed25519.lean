import Mosey.Bytes
import Mosey.Library.Authenticity

/-!
# Ed25519

The signature scheme is a parameter of the model. What the program relies on in every run is that a
signature verifies under the signer's public key and that keys and signatures have their sizes. The
results about adversaries use the ideal scheme, under which a signature is valid for one public key
and one message only.
-/

namespace Mosey

open Library

abbrev PublicKey := Bytes

def publicKeySize : ℕ := 32

def signatureSize : ℕ := 64

structure Ed25519 (Private Signature : Type) extends Signatures Private PublicKey Bytes Signature where
  size : Signature → ℕ
  length_publicKey : ∀ secret, (publicKey secret).length = publicKeySize
  size_sign : ∀ secret content, size (sign secret content) = signatureSize

structure IdealEd25519 (Private Signature : Type) extends Ed25519 Private Signature where
  verify_unique : ∀ {key key' content content' signature},
    verify key content signature = true → verify key' content' signature = true →
      key = key' ∧ content = content'

def IdealEd25519.tagScheme {Private Signature : Type} (crypto : IdealEd25519 Private Signature) :
    TagScheme PublicKey Bytes Signature where
  valid key content signature := crypto.verify key content signature = true
  valid_unique := crypto.verify_unique

/-- The free scheme on keys of the right length, with a private key standing for its public half. -/
def freeEd25519 :
    IdealEd25519 { key : PublicKey // key.length = publicKeySize } (FreeTag PublicKey Bytes) where
  publicKey secret := secret.1
  sign secret := FreeTag.tagged secret.1
  verify := FreeTag.signatures.verify
  verify_sign secret := FreeTag.signatures.verify_sign secret.1
  size _ := signatureSize
  length_publicKey secret := secret.2
  size_sign _ _ := rfl
  verify_unique := FreeTag.verify_unique

/-- Signatures that are bytes, as they are on the wire. -/
structure WireEd25519 (Private : Type) extends Ed25519 Private Bytes where
  size_eq : ∀ signature, size signature = signature.length

def WireEd25519.pubkey {Private : Type} (crypto : WireEd25519 Private) (secret : Private) :
    { key : PublicKey // key.length = publicKeySize } :=
  ⟨crypto.publicKey secret, crypto.length_publicKey secret⟩

theorem WireEd25519.length_sign {Private : Type} (crypto : WireEd25519 Private) (secret : Private)
    (content : Bytes) : (crypto.sign secret content).length = signatureSize := by
  rw [← crypto.size_eq, crypto.size_sign]

/-- A key of the free scheme made of one byte. -/
def freeKey (byte : UInt8) : { key : PublicKey // key.length = publicKeySize } :=
  ⟨List.replicate publicKeySize byte, List.length_replicate⟩

end Mosey

import Mathlib.Logic.Basic

/-!
# Ideal signatures and message authentication codes

Both primitives are read the same way by a verifier: a tag is valid for a key and a content. In the
ideal reading one tag is valid for at most one key and content, and an adversary can present a tag
only if it has seen it or if every key it is valid for is its own. The free instances have tags
that spell out what was signed; they make concrete runs computable.
-/

namespace Mosey.Library

/-- A signature scheme with the one law honest parties rely on. -/
structure Signatures (Private Public Content Signature : Type*) where
  publicKey : Private → Public
  sign : Private → Content → Signature
  verify : Public → Content → Signature → Bool
  verify_sign : ∀ secret content, verify (publicKey secret) content (sign secret content) = true

/-- A message authentication code no two keys or contents collide under. -/
structure IdealMac (Key Content Tag : Type*) where
  mac : Key → Content → Tag
  mac_injective : ∀ {key key' content content'},
    mac key content = mac key' content' → key = key' ∧ content = content'

/-- What a verifier can tell of a tag, for signatures and for codes alike. -/
structure TagScheme (Key Content Tag : Type*) where
  valid : Key → Content → Tag → Prop
  valid_unique : ∀ {key key' content content' tag},
    valid key content tag → valid key' content' tag → key = key' ∧ content = content'

def IdealMac.tagScheme {Key Content Tag : Type*} (ideal : IdealMac Key Content Tag) :
    TagScheme Key Content Tag where
  valid key content tag := tag = ideal.mac key content
  valid_unique hleft hright := ideal.mac_injective (hleft.symm.trans hright)

namespace TagScheme

variable {Key Content Tag : Type*} (scheme : TagScheme Key Content Tag)

/-- The tags an adversary that holds the `corrupt` keys and has seen `seen` can present. -/
def Derivable (corrupt : Key → Prop) (seen : Tag → Prop) (tag : Tag) : Prop :=
  seen tag ∨ ∀ key content, scheme.valid key content tag → corrupt key

end TagScheme

/-- Tags of the free schemes: a tag is the record of what was signed, or no tag at all. -/
inductive FreeTag (Key Content : Type*)
  | tagged (key : Key) (content : Content)
  | junk
  deriving DecidableEq

namespace FreeTag

variable {Key Content : Type*}

/-- The free signature scheme, with a private key standing for its own public half. -/
def signatures [DecidableEq Key] [DecidableEq Content] :
    Signatures Key Key Content (FreeTag Key Content) where
  publicKey := id
  sign := tagged
  verify key content tag := decide (tag = tagged key content)
  verify_sign := by simp

/-- A free tag is valid for one key and one content only. -/
theorem verify_unique [DecidableEq Key] [DecidableEq Content] {key key' : Key}
    {content content' : Content} {tag : FreeTag Key Content}
    (hleft : signatures.verify key content tag = true)
    (hright : signatures.verify key' content' tag = true) : key = key' ∧ content = content' := by
  simp only [signatures, decide_eq_true_eq] at hleft hright
  have htags : tagged key content = tagged key' content' := hleft.symm.trans hright
  exact ⟨(tagged.inj htags).1, (tagged.inj htags).2⟩

def mac : IdealMac Key Content (FreeTag Key Content) where
  mac := tagged
  mac_injective heq := ⟨(tagged.inj heq).1, (tagged.inj heq).2⟩

end FreeTag

end Mosey.Library

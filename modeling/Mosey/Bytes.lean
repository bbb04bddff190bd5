import Mathlib.Data.Int.Notation
import Mathlib.Data.List.Basic

/-!
# Bytes, nonces and instants

Byte slices are lists of bytes. String constants that are hashed, signed or compared as bytes are
plain ASCII in the source, so they are embedded character by character. An instant is a number of
nanoseconds since the Unix epoch, the resolution of the source's clock.
-/

namespace Mosey

abbrev Bytes := List UInt8

/-- The bytes of an ASCII string constant. -/
def ascii (text : String) : Bytes := text.toList.map fun char ↦ UInt8.ofNat char.toNat

/-- A nonce as the handshakes draw it: exactly 32 bytes. -/
abbrev Nonce := { bytes : Bytes // bytes.length = 32 }

abbrev Time := ℤ

def nanosPerSecond : ℤ := 1000000000

/-- Whole seconds since the Unix epoch, rounded towards the past. -/
def Time.unix (instant : Time) : ℤ := instant / nanosPerSecond

@[simp] theorem length_ascii (text : String) : (ascii text).length = text.toList.length := by
  simp [ascii]

end Mosey

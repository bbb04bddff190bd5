import Mosey.Bytes
import Mosey.Library.Lists

/-!
# Identities and the segments of a handshake

A handshake reads, draws randomness and writes on one stream. Between two reads its code is a pure
function of what the stream and the random source answer, so each such segment is fed one record of
answers. An error keeps its text and whether it wraps `ErrUnauthorized`.
-/

namespace Mosey.Auth

structure Capabilities where
  owner : Bool
  write : Bool
  resize : Bool
  deriving DecidableEq, Repr

structure Identity where
  label : String
  caps : Capabilities
  deriving DecidableEq, Repr

namespace Identity

def canWrite (identity : Identity) : Bool := identity.caps.owner || identity.caps.write

def canResize (identity : Identity) : Bool := identity.caps.owner || identity.caps.resize

def isOwner (identity : Identity) : Bool := identity.caps.owner

end Identity

/-- An error value, with `errors.Is(err, ErrUnauthorized)` as a flag. -/
structure AuthError where
  unauthorized : Bool
  text : String
  deriving DecidableEq, Repr

def errPrefixAuth : String := "mosey/auth: "

def errUnauthorized : String := "auth: peer failed authentication handshake"

namespace AuthError

def plain (text : String) : AuthError := ⟨false, text⟩

/-- `fmt.Errorf(leading+"%w"+detail, ErrUnauthorized)`. -/
def rejected (leading detail : String) : AuthError := ⟨true, leading ++ errUnauthorized ++ detail⟩

end AuthError

/-- What the stream, the random source and the rest of the environment answer during one segment of
a handshake. -/
structure Segment (Message Env : Type*) where
  read : Except String Message
  rand : Except String Nonce
  write : Except String Unit
  env : Env

namespace Segment

variable {Message Env : Type*}

def draws (segment : Segment Message Env) : List Bytes :=
  match segment.rand with
  | .ok nonce => [nonce.1]
  | .error _ => []

/-- A nonce that was drawn is among the draws of its segment. -/
theorem mem_draws {segment : Segment Message Env} {nonce : Nonce} (hrand : segment.rand = .ok nonce) :
    nonce.1 ∈ segment.draws := by
  simp [draws, hrand]

theorem length_of_mem_draws {segment : Segment Message Env} {bytes : Bytes}
    (hmem : bytes ∈ segment.draws) : bytes.length = 32 := by
  unfold draws at hmem
  split at hmem
  · next nonce _ =>
    rw [List.mem_singleton.mp hmem]
    exact nonce.2
  · cases hmem

end Segment

/-- One of the segments drew `nonce`. -/
def Drawn {Message Env : Type*} (inputs : List (Segment Message Env)) (nonce : Bytes) : Prop :=
  ∃ io ∈ inputs, nonce ∈ io.draws

namespace Drawn

variable {Message Env : Type*} {inputs : List (Segment Message Env)}

/-- A further segment takes no draw away. -/
theorem concat {nonce : Bytes} (hdrawn : Drawn inputs nonce) (io : Segment Message Env) :
    Drawn (inputs ++ [io]) nonce := by
  obtain ⟨earlier, hmem, hnonce⟩ := hdrawn
  exact ⟨earlier, List.mem_append_left _ hmem, hnonce⟩

theorem last {io : Segment Message Env} {nonce : Nonce} (hrand : io.rand = .ok nonce) :
    Drawn (inputs ++ [io]) nonce.1 :=
  ⟨io, by simp, Segment.mem_draws hrand⟩

theorem length {nonce : Bytes} (hdrawn : Drawn inputs nonce) : nonce.length = 32 := by
  obtain ⟨io, _, hnonce⟩ := hdrawn
  exact Segment.length_of_mem_draws hnonce

end Drawn

/-- The segment at `position` read `message`. -/
def ReadAt {Message Env : Type*} (inputs : List (Segment Message Env)) (position : ℕ)
    (message : Message) : Prop :=
  ∃ io, inputs[position]? = some io ∧ io.read = .ok message

namespace ReadAt

variable {Message Env : Type*} {inputs : List (Segment Message Env)} {position : ℕ} {message : Message}

/-- A further segment takes no message away. -/
theorem concat (hread : ReadAt inputs position message) (io : Segment Message Env) :
    ReadAt (inputs ++ [io]) position message := by
  obtain ⟨earlier, hearlier, hmessage⟩ := hread
  exact ⟨earlier, Library.getElem?_append_of_eq_some hearlier _, hmessage⟩

theorem last {io : Segment Message Env} (hlength : inputs.length = position)
    (hread : io.read = .ok message) : ReadAt (inputs ++ [io]) position message :=
  ⟨io, by rw [← hlength, List.getElem?_concat_length], hread⟩

end ReadAt

end Mosey.Auth

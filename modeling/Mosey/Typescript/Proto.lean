import Mosey.Bytes
import Mosey.Library.Binary64
import Mosey.Library.Proto3
import Mosey.Library.Results
import Mosey.Library.Utf8
import Mosey.Library.Varint

/-!
# The protobuf reader of the TypeScript client

The reader walks over the fields of a message by hand. It knows two wire types, and what it finds in
a field goes into the message without a look at the type: a number may stand where bytes are declared
and bytes where a number is. Numbers of the wire are bigints until `Number` rounds them to doubles.
-/

namespace Mosey.Typescript

open Library

/-- What the JavaScript engine decides: the length of the longest typed array, and the texts of its own
errors. -/
structure Engine where
  maxLength : ℕ
  maxLength_lt : maxLength < 2 ^ 53
  arrayLengthMessage : ℕ → String
  notBytesMessage : ℕ → String
  invalidDateMessage : String

def exampleEngine : Engine where
  maxLength := 4294967296
  maxLength_lt := by decide
  arrayLengthMessage length := "Invalid typed array length: " ++ toString length
  notBytesMessage _ := "The argument must be a buffer"
  invalidDateMessage := "Invalid time value"

inductive DecodeError
  | truncatedVarint
  | varintOverflow
  | unsupportedWireType (wireType field : ℕ)
  | arrayLength (length : ℕ)
  | notBytes (value : ℕ)
  deriving DecidableEq

def DecodeError.message (engine : Engine) : DecodeError → String
  | truncatedVarint => "mosey/proto: truncated varint"
  | varintOverflow => "mosey/proto: varint overflows uint64"
  | unsupportedWireType wireType field =>
    "mosey/proto: unsupported wire type " ++ toString wireType ++ " for field " ++ toString field
  | arrayLength length => engine.arrayLengthMessage length
  | notBytes value => engine.notBytesMessage value

/-- What a field can hold at run time. -/
inductive JSValue
  | bigint (value : ℕ)
  | bytes (bytes : Bytes)
  deriving DecidableEq

/-- A double that is not negative, or `NaN`. -/
inductive JSNumber
  | nan
  | finite (value : ℚ)
  deriving DecidableEq

def JSNumber.map (f : ℚ → ℚ) : JSNumber → JSNumber
  | nan => nan
  | finite value => finite (f value)

def JSNumber.add : JSNumber → JSNumber → JSNumber
  | finite first, finite second => finite (Binary64.round (first + second))
  | _, _ => nan

/-- `Number` of a bigint. -/
def numberOf (n : ℕ) : ℕ := ⌊Binary64.round n⌋₊

/-- `Number` of anything a field can hold. An array is converted by way of its text. -/
def JSValue.toNumber : JSValue → JSNumber
  | bigint n => .finite (numberOf n)
  | bytes [] => .finite 0
  | bytes [b] => .finite b.toNat
  | bytes _ => .nan

def decodeVarintLoop (shift value n : ℕ) : Bytes → Except DecodeError (ℕ × ℕ)
  | [] => .error .truncatedVarint
  | b :: rest =>
    let value := value ||| (b &&& 0x7f).toNat <<< shift
    if b &&& 0x80 = 0 then .ok (value, n + 1)
    else if 63 < shift + 7 then .error .varintOverflow
    else decodeVarintLoop (shift + 7) value (n + 1) rest

/-- The value and the number of bytes it took. -/
def decodeVarint (buf : Bytes) (offset : ℕ) : Except DecodeError (ℕ × ℕ) :=
  decodeVarintLoop 0 0 0 (buf.drop offset)

structure Field where
  field : ℕ
  value : JSValue
  deriving DecidableEq

/-- What a generator yields, and the error it ends with if it does. -/
structure Generated where
  yielded : List Field
  thrown : Option DecodeError
  deriving DecidableEq

def Generated.done : Generated := ⟨[], none⟩

def Generated.throws (err : DecodeError) : Generated := ⟨[], some err⟩

def Generated.yield (first : Field) (generated : Generated) : Generated :=
  { generated with yielded := first :: generated.yielded }

/-- The loop that consumes a generator. Its body runs before the next value is asked for. -/
def Generated.forEach {State : Type} (generated : Generated) (start : State)
    (body : State → Field → Except DecodeError State) : Except DecodeError State := do
  let state ← generated.yielded.foldlM body start
  match generated.thrown with
  | none => .ok state
  | some err => .error err

/-- A new array of the given length with what there is of the input in front. -/
def copyOf (buf : Bytes) (offset length : ℕ) : Bytes :=
  let present := (buf.drop offset).take length
  present ++ List.replicate (length - present.length) 0

def iterFieldsFrom (engine : Engine) (buf : Bytes) : ℕ → ℕ → Generated
  | 0, _ => .done
  | fuel + 1, off =>
    if off < buf.length then
      match decodeVarint buf off with
      | .error err => .throws err
      | .ok (tag, tn) =>
        let off := off + tn
        let field := numberOf (tag >>> 3)
        let wireType := tag &&& 0x7
        if wireType = 0 then
          match decodeVarint buf off with
          | .error err => .throws err
          | .ok (value, n) => .yield ⟨field, .bigint value⟩ (iterFieldsFrom engine buf fuel (off + n))
        else if wireType = 2 then
          match decodeVarint buf off with
          | .error err => .throws err
          | .ok (len, ln) =>
            let off := off + ln
            let length := numberOf len
            if engine.maxLength < length then .throws (.arrayLength length)
            else .yield ⟨field, .bytes (copyOf buf off length)⟩
              (iterFieldsFrom engine buf fuel (off + length))
        else .throws (.unsupportedWireType wireType field)
    else .done

/-- Every field takes a byte at least, so the length bounds their number. -/
def iterFields (engine : Engine) (buf : Bytes) : Generated := iterFieldsFrom engine buf buf.length 0

structure Timestamp where
  seconds : JSValue
  nanos : JSNumber
  deriving DecidableEq

def Timestamp.zero : Timestamp := ⟨.bigint 0, .finite 0⟩

def Timestamp.set (timestamp : Timestamp) (entry : Field) : Timestamp :=
  match entry.field with
  | 1 => { timestamp with seconds := entry.value }
  | 2 => { timestamp with nanos := entry.value.toNumber }
  | _ => timestamp

/-- A bigint has no length, so there is nothing to iterate over. -/
def decodeTimestamp (engine : Engine) : JSValue → Except DecodeError Timestamp
  | .bigint _ => .ok .zero
  | .bytes buf =>
    (iterFields engine buf).forEach .zero fun timestamp entry ↦ .ok (timestamp.set entry)

/-- `new TextDecoder().decode`, which replaces what is not UTF-8 and drops a byte order mark. -/
def decodeText : JSValue → Except DecodeError String
  | .bigint n => .error (.notBytes n)
  | .bytes bytes => .ok (String.ofList (Utf8.decodeUnmarked bytes))

structure SignedCertContent where
  agentId : String
  peerPubkey : JSValue
  label : String
  capsBits : JSNumber
  notBefore : Timestamp
  notAfter : Timestamp
  serial : String
  workspaceId : String
  deriving DecidableEq

def SignedCertContent.empty : SignedCertContent :=
  ⟨"", .bytes [], "", .finite 0, .zero, .zero, "", ""⟩

def SignedCertContent.set (engine : Engine) (content : SignedCertContent) (entry : Field) :
    Except DecodeError SignedCertContent :=
  match entry.field with
  | 1 => do
    let text ← decodeText entry.value
    return { content with agentId := text }
  | 2 => .ok { content with peerPubkey := entry.value }
  | 3 => do
    let text ← decodeText entry.value
    return { content with label := text }
  | 4 => .ok { content with capsBits := entry.value.toNumber }
  | 5 => do
    let timestamp ← decodeTimestamp engine entry.value
    return { content with notBefore := timestamp }
  | 6 => do
    let timestamp ← decodeTimestamp engine entry.value
    return { content with notAfter := timestamp }
  | 7 => do
    let text ← decodeText entry.value
    return { content with serial := text }
  | 8 => do
    let text ← decodeText entry.value
    return { content with workspaceId := text }
  | _ => .ok content

def decodeSignedCertContent (engine : Engine) (buf : Bytes) : Except DecodeError SignedCertContent :=
  (iterFields engine buf).forEach .empty (SignedCertContent.set engine)

/-- Numbers below 2^53 are exact. -/
theorem numberOf_eq {n : ℕ} (hn : n < 2 ^ 53) : numberOf n = n := by
  rw [numberOf, Binary64.round_natCast hn, Nat.floor_natCast]

theorem le_numberOf {n : ℕ} (hn : 2 ^ 53 ≤ n) : 2 ^ 53 ≤ numberOf n := by
  apply Nat.le_floor
  have hround := Binary64.two_pow_le_round (x := n) (k := 53) (by exact_mod_cast hn)
  exact_mod_cast hround

/-- A small number was not rounded. -/
theorem eq_of_numberOf_lt {n : ℕ} (hn : numberOf n < 2 ^ 53) : numberOf n = n :=
  numberOf_eq (Nat.lt_of_not_le fun hle ↦ hn.not_ge (le_numberOf hle))

/-- What a proto3 reader takes for a varint, the client does too. -/
theorem decodeVarintLoop_eq_ok {shift start value n : ℕ} {input rest : Bytes} (hstart : start < 2 ^ shift)
    (hgroups : 7 ∣ shift) (h : Proto3.varintFrom shift start input = some (value, rest)) :
    ∃ k, decodeVarintLoop shift start n input = .ok (value, n + k) ∧ input.drop k = rest := by
  induction input generalizing shift start n with
  | nil => cases h
  | cons b input ih =>
    simp only [Proto3.varintFrom] at h
    simp only [decodeVarintLoop, Varint.toNat_and_low, Varint.and_high_eq_zero, Varint.or_shift_eq hstart]
    split_ifs at h with hlast hvalue hshift
    · obtain ⟨rfl, rfl⟩ := Prod.mk.inj (Option.some.inj h)
      exact ⟨1, if_pos hlast, rfl⟩
    · obtain ⟨k, hloop, hdrop⟩ := ih (n := n + 1) (Varint.add_group_lt hstart b) (by omega) h
      refine ⟨k + 1, ?_, hdrop⟩
      rw [if_neg hlast, if_neg (by omega), hloop, Nat.add_right_comm, Nat.add_assoc]

/-- The client reads a number that the runtime of the server reads. -/
theorem decodeVarint_eq_ok {buf input rest : Bytes} {offset value : ℕ} (hinput : buf.drop offset = input)
    (h : Proto3.varint input = some (value, rest)) :
    ∃ n, decodeVarint buf offset = .ok (value, n) ∧ buf.drop (offset + n) = rest := by
  obtain ⟨n, hloop, hdrop⟩ := decodeVarintLoop_eq_ok (n := 0) (by decide) (by decide) h
  refine ⟨n, ?_, ?_⟩
  · rw [decodeVarint, hinput, hloop, Nat.zero_add]
  · rw [← List.drop_drop, hinput, hdrop]

theorem iterFieldsFrom_done {engine : Engine} {buf : Bytes} {off : ℕ} (hoff : buf.length ≤ off) (fuel : ℕ) :
    iterFieldsFrom engine buf fuel off = .done := by
  cases fuel with
  | zero => rfl
  | succ fuel => rw [iterFieldsFrom, if_neg hoff.not_gt]

/-- A field as the client sees it. Only numbers and bytes have one. -/
def Field.of : ℕ × Proto3.Value → Option Field
  | (number, .varint n) => some ⟨number, .bigint n⟩
  | (number, .bytes bytes) => some ⟨number, .bytes bytes⟩
  | _ => none

theorem copyOf_eq {buf bytes rest : Bytes} {offset : ℕ} (hdrop : buf.drop offset = bytes ++ rest) :
    copyOf buf offset bytes.length = bytes := by
  rw [copyOf, hdrop, List.take_left, Nat.sub_self, List.replicate_zero, List.append_nil]

/-- The client's iterator yields a field that the runtime of the server reads. -/
theorem iterFieldsFrom_field {engine : Engine} {buf rest : Bytes} {entry : ℕ × Proto3.Value} {seen : Field}
    {off fuel : ℕ} (hbuf : buf.length ≤ engine.maxLength)
    (hfield : Proto3.field (buf.drop off) = some (entry, rest)) (hseen : Field.of entry = some seen) :
    ∃ next, buf.drop next = rest ∧
      iterFieldsFrom engine buf (fuel + 1) off = .yield seen (iterFieldsFrom engine buf fuel next) := by
  obtain ⟨number, value⟩ := entry
  obtain ⟨wireType, middle, htag, hvalue⟩ := Proto3.field_eq_some.mp hfield
  obtain ⟨key, hkey, -, hnumber, rfl, rfl⟩ := Proto3.tag_eq_some.mp htag
  obtain ⟨tn, htn, hmiddle⟩ := decodeVarint_eq_ok rfl hkey
  have hoff : off < buf.length := by
    have hlength := (Proto3.varintFrom_suffix hkey).2
    rw [List.length_drop] at hlength
    omega
  have htagNumber : numberOf (key >>> 3) = key / 8 := by
    rw [Nat.shiftRight_eq_div_pow]
    exact numberOf_eq (hnumber.trans (by decide))
  have htype : key &&& 0x7 = key % 8 := Nat.and_two_pow_sub_one_eq_mod key 3
  rw [iterFieldsFrom, if_pos hoff, htn]
  simp only [htagNumber, htype]
  cases value with
  | varint n =>
    obtain ⟨hzero, hn⟩ := Proto3.of_value_eq_varint hvalue
    obtain ⟨k, hk, hrest⟩ := decodeVarint_eq_ok hmiddle hn
    cases hseen
    refine ⟨off + tn + k, hrest, ?_⟩
    rw [if_pos hzero, hk]
  | bytes bytes =>
    obtain ⟨htwo, hlength⟩ := Proto3.of_value_eq_bytes hvalue
    obtain ⟨ln, hln, hrest⟩ := decodeVarint_eq_ok hmiddle hlength
    have hbytes : bytes.length ≤ engine.maxLength := by
      have hsuffix := (List.drop_suffix (off + tn + ln) buf).length_le
      rw [hrest, List.length_append] at hsuffix
      omega
    have hnumberOf := numberOf_eq (hbytes.trans_lt engine.maxLength_lt)
    cases hseen
    refine ⟨off + tn + ln + bytes.length, ?_, ?_⟩
    · rw [← List.drop_drop, hrest, List.drop_left]
    · rw [if_neg (by omega), if_pos htwo, hln]
      simp only [hnumberOf, copyOf_eq hrest]
      rw [if_neg hbytes.not_gt]
  | fixed64 | group | fixed32 => cases hseen

def Sees (read : List (ℕ × Proto3.Value)) (seen : List Field) : Prop :=
  List.Forall₂ (fun entry found ↦ Field.of entry = some found) read seen

theorem iterFieldsFrom_eq {engine : Engine} {buf input : Bytes} {read : List (ℕ × Proto3.Value)}
    (hbuf : buf.length ≤ engine.maxLength) (hfields : Proto3.fields input = some read) :
    ∀ seen off fuel, buf.drop off = input → input.length ≤ fuel → Sees read seen →
      iterFieldsFrom engine buf fuel off = ⟨seen, none⟩ := by
  refine Proto3.fields_induction ?_ ?_ hfields
  · intro seen off fuel hdrop _ hseen
    cases hseen
    exact iterFieldsFrom_done (List.drop_eq_nil_iff.mp hdrop) fuel
  · intro input rest first others hfield _ ih seen off fuel hdrop hfuel hseen
    cases hseen with
    | cons hfirst hothers =>
      have hshorter := Proto3.length_lt_of_field hfield
      obtain ⟨fuel, rfl⟩ : ∃ left, fuel = left + 1 := ⟨fuel - 1, by omega⟩
      obtain ⟨next, hnext, hloop⟩ := iterFieldsFrom_field hbuf (hdrop ▸ hfield) hfirst
      rw [hloop, ih _ next fuel hnext (by omega) hothers]
      rfl

/-- On a message that has only the wire types it knows, the client finds the fields a proto3 reader
finds. -/
theorem iterFields_eq {engine : Engine} {buf : Bytes} {read : List (ℕ × Proto3.Value)}
    (hbuf : buf.length ≤ engine.maxLength) (hfields : Proto3.fields buf = some read)
    {seen : List Field} (hseen : Sees read seen) : iterFields engine buf = ⟨seen, none⟩ :=
  iterFieldsFrom_eq hbuf hfields seen 0 buf.length rfl (Nat.le_refl _) hseen

theorem Generated.forEach_done {State : Type} (seen : List Field) (start : State)
    (body : State → Field → Except DecodeError State) :
    Generated.forEach ⟨seen, none⟩ start body = seen.foldlM body start := by
  rw [Generated.forEach]
  cases seen.foldlM body start <;> rfl

end Mosey.Typescript

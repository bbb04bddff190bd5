import Mathlib.Algebra.Group.Nat.Defs
import Mosey.Library.Decoding
import Mosey.Library.Varint

/-!
# The wire format of proto3

A message is a sequence of fields, each a number with a value in one of five shapes. A reader checks
every field to its end, also those it does not know, and leaves to the message what the fields mean.
-/

namespace Mosey.Library.Proto3

open Decoder

inductive Value
  | varint (value : ℕ)
  | fixed64 (bytes : List UInt8)
  | bytes (bytes : List UInt8)
  | group
  | fixed32 (bytes : List UInt8)
  deriving DecidableEq

def varintFrom (shift value : ℕ) : Decoder UInt8 ℕ
  | [] => none
  | byte :: rest =>
    let value := value + byte.toNat % 128 * 2 ^ shift
    if byte.toNat < 128 then
      if value < 2 ^ 64 then some (value, rest) else none
    else if shift < 63 then varintFrom (shift + 7) value rest
    else none

/-- Groups of seven bits, lowest first, in at most ten bytes and below 2^64. -/
def varint : Decoder UInt8 ℕ := varintFrom 0 0

/-- A field number and a wire type. -/
def tag : Decoder UInt8 (ℕ × ℕ) := do
  let key ← varint
  if 1 ≤ key / 8 ∧ key / 8 < 2 ^ 29 then pure (key / 8, key % 8) else failure

def scalar : ℕ → Decoder UInt8 Value
  | 0 => do
    let value ← varint
    pure (.varint value)
  | 1 => do
    let bytes ← fixed 8
    pure (.fixed64 bytes.1)
  | 2 => do
    let length ← varint
    let bytes ← fixed length
    pure (.bytes bytes.1)
  | 5 => do
    let bytes ← fixed 4
    pure (.fixed32 bytes.1)
  | _ => failure

/-- Skip to the end of the groups that are open, the innermost first. -/
def skipGroups : ℕ → List ℕ → Decoder UInt8 Unit
  | _, [] => pure ()
  | 0, _ :: _ => failure
  | fuel + 1, number :: outer => do
    let (inner, wireType) ← tag
    if wireType = 3 then skipGroups fuel (inner :: number :: outer)
    else if wireType = 4 then
      if inner = number then skipGroups fuel outer else failure
    else do
      let _ ← scalar wireType
      skipGroups fuel (number :: outer)

def value (fuel number wireType : ℕ) : Decoder UInt8 Value :=
  if wireType = 3 then do
    skipGroups fuel [number]
    pure .group
  else scalar wireType

/-- A field. What is read of a group is bounded by the input. -/
def field : Decoder UInt8 (ℕ × Value) := fun input ↦
  (do
    let (number, wireType) ← tag
    let value ← value input.length number wireType
    pure (number, value) : Decoder UInt8 (ℕ × Value)) input

def fieldsWithin : ℕ → List UInt8 → Option (List (ℕ × Value))
  | _, [] => some []
  | 0, _ :: _ => none
  | fuel + 1, byte :: rest =>
    match field (byte :: rest) with
    | none => none
    | some (first, rest) => (fieldsWithin fuel rest).map (first :: ·)

def fields (input : List UInt8) : Option (List (ℕ × Value)) := fieldsWithin input.length input

example : fields [0x0a, 0x02, 0x68, 0x69, 0x20, 0x07] =
    some [(1, .bytes [0x68, 0x69]), (4, .varint 7)] := by
  decide +kernel

variable {input rest : List UInt8} {number : ℕ}

/-- A number that is read leaves a shorter end of the input. -/
theorem varintFrom_suffix {shift start value : ℕ}
    (h : varintFrom shift start input = some (value, rest)) :
    rest <:+ input ∧ rest.length < input.length := by
  induction input generalizing shift start with
  | nil => cases h
  | cons byte input ih =>
    simp only [varintFrom] at h
    split_ifs at h with hlast hvalue hshift
    · obtain ⟨-, rfl⟩ := Prod.mk.inj (Option.some.inj h)
      exact ⟨List.suffix_cons byte input, Nat.lt_succ_self _⟩
    · obtain ⟨hsuffix, hlength⟩ := ih h
      exact ⟨hsuffix.trans (List.suffix_cons byte input), Nat.lt_succ_of_lt hlength⟩

theorem consumes_varint : varint.Consumes := fun _ _ _ h ↦ (varintFrom_suffix h).1

/-- A tag is a number whose upper part is a valid field number. -/
theorem tag_eq_some {number wireType : ℕ} :
    tag input = some ((number, wireType), rest) ↔
      ∃ key, varint input = some (key, rest) ∧ 1 ≤ number ∧ number < 2 ^ 29 ∧
        number = key / 8 ∧ wireType = key % 8 := by
  rw [tag, bind_eq_some]
  constructor
  · rintro ⟨key, middle, hkey, h⟩
    split_ifs at h with hnumber
    · obtain ⟨hpair, rfl⟩ := pure_eq_some.mp h
      obtain ⟨rfl, rfl⟩ := Prod.mk.inj hpair
      exact ⟨key, hkey, hnumber.1, hnumber.2, rfl, rfl⟩
    · cases h
  · rintro ⟨key, hkey, hone, hlt, rfl, rfl⟩
    exact ⟨key, rest, hkey, by rw [if_pos ⟨hone, hlt⟩, pure_eq_some]; exact ⟨rfl, rfl⟩⟩

/-- No byte among the first ten ends a varint. -/
def Endless (input : List UInt8) : Prop := ∀ byte ∈ input.take 10, 128 ≤ byte.toNat

theorem varintFrom_of_continued {shift start count : ℕ} {input : List UInt8} (hshift : shift + 7 * count = 70)
    (hinput : ∀ byte ∈ input.take count, 128 ≤ byte.toNat) (hcount : 1 ≤ count) :
    varintFrom shift start input = none := by
  induction count generalizing shift start input with
  | zero => exact absurd hcount (by decide)
  | succ count ih =>
    cases input with
    | nil => rfl
    | cons byte input =>
      obtain ⟨hnext, hinput⟩ := List.forall_mem_cons.mp hinput
      rw [varintFrom, if_neg hnext.not_gt]
      split_ifs with hmore
      · exact ih (by omega) hinput (by omega)
      · rfl

/-- Groups that never end are no number. -/
theorem varint_of_endless {input : List UInt8} (hendless : Endless input) : varint input = none :=
  varintFrom_of_continued (by decide : 0 + 7 * 10 = 70) hendless (by decide)

theorem tag_of_endless {input : List UInt8} (hendless : Endless input) : tag input = none := by
  rw [Option.eq_none_iff_forall_ne_some]
  rintro ⟨⟨number, wireType⟩, rest⟩ htag
  obtain ⟨key, hkey, -⟩ := tag_eq_some.mp htag
  rw [varint_of_endless hendless] at hkey
  cases hkey

theorem consumes_tag : tag.Consumes := by
  rintro input ⟨number, wireType⟩ rest h
  obtain ⟨key, hkey, -⟩ := tag_eq_some.mp h
  exact consumes_varint hkey

theorem consumes_scalar (wireType : ℕ) : (scalar wireType).Consumes := by
  unfold scalar
  split
  · exact consumes_varint.bind fun _ ↦ consumes_pure _
  · exact (consumes_fixed 8).bind fun _ ↦ consumes_pure _
  · exact consumes_varint.bind fun _ ↦ (consumes_fixed _).bind fun _ ↦ consumes_pure _
  · exact (consumes_fixed 4).bind fun _ ↦ consumes_pure _
  · exact consumes_failure

theorem consumes_skipGroups (fuel : ℕ) (opened : List ℕ) : (skipGroups fuel opened).Consumes := by
  induction fuel generalizing opened with
  | zero =>
    cases opened with
    | nil => exact consumes_pure ()
    | cons number outer => exact consumes_failure
  | succ fuel ih =>
    cases opened with
    | nil => exact consumes_pure ()
    | cons number outer =>
      refine consumes_tag.bind fun read ↦ ?_
      dsimp only
      split_ifs
      · exact ih _
      · exact ih _
      · exact consumes_failure
      · exact (consumes_scalar _).bind fun _ ↦ ih _

theorem consumes_value (fuel number wireType : ℕ) : (value fuel number wireType).Consumes := by
  rw [value]
  split_ifs
  · exact (consumes_skipGroups fuel [number]).bind fun _ ↦ consumes_pure _
  · exact consumes_scalar wireType

/-- A field is a tag and the value of its wire type. -/
theorem field_eq_some {read : Value} :
    field input = some ((number, read), rest) ↔
      ∃ wireType middle, tag input = some ((number, wireType), middle) ∧
        value input.length number wireType middle = some (read, rest) := by
  rw [field, bind_eq_some]
  constructor
  · rintro ⟨⟨number', wireType⟩, middle, htag, h⟩
    obtain ⟨read', rest', hread, h⟩ := bind_eq_some.mp h
    obtain ⟨hpair, rfl⟩ := pure_eq_some.mp h
    obtain ⟨rfl, rfl⟩ := Prod.mk.inj hpair
    exact ⟨wireType, middle, htag, hread⟩
  · rintro ⟨wireType, middle, htag, hread⟩
    exact ⟨(number, wireType), middle, htag, bind_eq_some.mpr
      ⟨read, rest, hread, pure_eq_some.mpr ⟨rfl, rfl⟩⟩⟩

/-- The scalars, one for each wire type. -/
theorem scalar_cases {wireType : ℕ} {read : Value} (h : scalar wireType input = some (read, rest)) :
    (wireType = 0 ∧ ∃ n, read = .varint n ∧ varint input = some (n, rest)) ∨
    (wireType = 1 ∧ ∃ bytes, read = .fixed64 bytes) ∨
    (wireType = 2 ∧ ∃ bytes, read = .bytes bytes ∧ varint input = some (bytes.length, bytes ++ rest)) ∨
    (wireType = 5 ∧ ∃ bytes, read = .fixed32 bytes) := by
  unfold scalar at h
  split at h
  · obtain ⟨n, rfl, hn⟩ := map_eq_some h
    exact .inl ⟨rfl, n, rfl, hn⟩
  · obtain ⟨bytes, rfl, -⟩ := map_eq_some h
    exact .inr (.inl ⟨rfl, bytes.1, rfl⟩)
  · obtain ⟨length, middle, hlength, h⟩ := bind_eq_some.mp h
    obtain ⟨⟨bytes, rfl⟩, rfl, hbytes⟩ := map_eq_some h
    rw [fixed_eq_some.mp hbytes] at hlength
    exact .inr (.inr (.inl ⟨rfl, bytes, rfl, hlength⟩))
  · obtain ⟨bytes, rfl, -⟩ := map_eq_some h
    exact .inr (.inr (.inr ⟨rfl, bytes.1, rfl⟩))
  · cases h

theorem field_of_tag_eq_none {input : List UInt8} (htag : tag input = none) : field input = none := by
  rw [Option.eq_none_iff_forall_ne_some]
  rintro ⟨⟨number, read⟩, rest⟩ hfield
  obtain ⟨wireType, middle, hsome, -⟩ := field_eq_some.mp hfield
  cases htag.symm.trans hsome

/-- A number or a length without an end. -/
theorem field_of_endless {number wireType : ℕ} (htag : tag input = some ((number, wireType), rest))
    (htype : wireType = 0 ∨ wireType = 2) (hendless : Endless rest) : field input = none := by
  rw [Option.eq_none_iff_forall_ne_some]
  rintro ⟨⟨number', read⟩, left⟩ hfield
  obtain ⟨wireType', middle, hsome, hvalue⟩ := field_eq_some.mp hfield
  cases htag.symm.trans hsome
  have hscalar : scalar wireType rest = some (read, left) := by
    rwa [value, if_neg (by omega)] at hvalue
  have hvarint := varint_of_endless hendless
  rcases scalar_cases hscalar with ⟨-, n, -, hn⟩ | ⟨rfl, -⟩ | ⟨-, bytes, -, hbytes⟩ | ⟨rfl, -⟩
  · cases hvarint.symm.trans hn
  · omega
  · cases hvarint.symm.trans hbytes
  · omega

theorem field_fixed32 {input bytes rest : List UInt8} (hbytes : bytes.length = 4)
    (htag : tag input = some ((number, 5), bytes ++ rest)) :
    field input = some ((number, .fixed32 bytes), rest) := by
  have hfixed : fixed 4 (bytes ++ rest) = some (⟨bytes, hbytes⟩, rest) := fixed_eq_some.mpr rfl
  exact field_eq_some.mpr ⟨5, bytes ++ rest, htag, bind_eq_some.mpr ⟨_, rest, hfixed, rfl⟩⟩

theorem length_lt_of_field {read : ℕ × Value} (h : field input = some (read, rest)) :
    rest.length < input.length := by
  obtain ⟨number, read⟩ := read
  obtain ⟨wireType, middle, htag, hread⟩ := field_eq_some.mp h
  obtain ⟨key, hkey, -⟩ := tag_eq_some.mp htag
  exact Nat.lt_of_le_of_lt (consumes_value _ _ _ hread).length_le (varintFrom_suffix hkey).2

/-! ## The fields of a message -/

/-- More fuel than bytes changes nothing. -/
theorem fieldsWithin_congr {fuel fuel' : ℕ} {input : List UInt8} (hfuel : input.length ≤ fuel)
    (hfuel' : input.length ≤ fuel') : fieldsWithin fuel input = fieldsWithin fuel' input := by
  induction fuel generalizing fuel' input with
  | zero =>
    rw [List.eq_nil_of_length_eq_zero (Nat.le_zero.mp hfuel), fieldsWithin, fieldsWithin]
  | succ fuel ih =>
    cases input with
    | nil => rw [fieldsWithin, fieldsWithin]
    | cons byte rest =>
      cases fuel' with
      | zero => exact absurd hfuel' (Nat.not_succ_le_zero _)
      | succ fuel' =>
        rw [fieldsWithin, fieldsWithin]
        cases hfield : field (byte :: rest) with
        | none => rfl
        | some read =>
          have hshorter := Nat.le_of_lt_succ (length_lt_of_field hfield)
          exact congrArg (Option.map (read.1 :: ·))
            (ih (Nat.le_trans hshorter (Nat.le_of_succ_le_succ hfuel))
              (Nat.le_trans hshorter (Nat.le_of_succ_le_succ hfuel')))

/-- The bound on the number of fields is never reached. -/
theorem fields_cons (byte : UInt8) (rest : List UInt8) :
    fields (byte :: rest) =
      (field (byte :: rest)).bind fun read ↦ (fields read.2).map (read.1 :: ·) := by
  rw [fields, List.length_cons, fieldsWithin]
  cases hfield : field (byte :: rest) with
  | none => rfl
  | some read =>
    have hshorter := Nat.le_of_lt_succ (length_lt_of_field hfield)
    exact congrArg (Option.map (read.1 :: ·)) (fieldsWithin_congr hshorter (Nat.le_refl _))

theorem fields_eq_none {input : List UInt8} (hne : input ≠ []) (hfield : field input = none) :
    fields input = none := by
  obtain ⟨byte, rest, rfl⟩ := List.exists_cons_of_ne_nil hne
  rw [fields_cons, hfield]
  rfl

/-- The fields of an input are its first one and those of the rest. -/
theorem fields_of_field {first : ℕ × Value} (hfield : field input = some (first, rest)) :
    fields input = (fields rest).map (first :: ·) := by
  cases input with
  | nil => cases length_lt_of_field hfield
  | cons byte input =>
    rw [fields_cons, hfield]
    rfl

theorem fields_fixed32 {byte : UInt8} {tail bytes rest : List UInt8} (hbytes : bytes.length = 4)
    (htag : tag (byte :: tail) = some ((number, 5), bytes ++ rest)) :
    fields (byte :: tail) = (fields rest).map ((number, .fixed32 bytes) :: ·) :=
  fields_of_field (field_fixed32 hbytes htag)

/-- Induction along the fields of a message. -/
@[elab_as_elim]
theorem fields_induction {motive : List UInt8 → List (ℕ × Value) → Prop} (hnil : motive [] [])
    (hcons : ∀ {input rest first others}, field input = some (first, rest) → fields rest = some others →
      motive rest others → motive input (first :: others))
    {input : List UInt8} {read : List (ℕ × Value)} (hfields : fields input = some read) :
    motive input read := by
  induction hlength : input.length using Nat.strongRecOn generalizing input read with
  | ind length ih =>
    cases input with
    | nil =>
      obtain rfl := Option.some.inj hfields
      exact hnil
    | cons byte rest =>
      rw [fields_cons, Option.bind_eq_some_iff] at hfields
      obtain ⟨⟨first, left⟩, hfield, hfields⟩ := hfields
      obtain ⟨others, hothers, rfl⟩ := Option.map_eq_some_iff.mp hfields
      exact hcons hfield hothers (ih _ (hlength ▸ length_lt_of_field hfield) hothers rfl)

theorem of_value_eq_varint {fuel number wireType n : ℕ}
    (h : value fuel number wireType input = some (.varint n, rest)) :
    wireType = 0 ∧ varint input = some (n, rest) := by
  rw [value] at h
  split_ifs at h
  · obtain ⟨-, hread, -⟩ := map_eq_some h
    cases hread
  · rcases scalar_cases h with ⟨htype, n, hread, hn⟩ | ⟨-, _, hread⟩ | ⟨-, _, hread, -⟩ | ⟨-, _, hread⟩
    · cases hread
      exact ⟨htype, hn⟩
    all_goals cases hread

theorem of_value_eq_bytes {fuel number wireType : ℕ} {bytes input rest : List UInt8}
    (h : value fuel number wireType input = some (.bytes bytes, rest)) :
    wireType = 2 ∧ varint input = some (bytes.length, bytes ++ rest) := by
  rw [value] at h
  split_ifs at h
  · obtain ⟨-, hread, -⟩ := map_eq_some h
    cases hread
  · rcases scalar_cases h with ⟨-, _, hread, -⟩ | ⟨-, _, hread⟩ | ⟨htype, _, hread, hlength⟩ | ⟨-, _, hread⟩
    case inr.inr.inl =>
      cases hread
      exact ⟨htype, hlength⟩
    all_goals cases hread

/-- Ten terminated groups at most are read as their value, if it fits 64 bits. -/
theorem varintFrom_groups {groups : List UInt8} (hgroups : Varint.Terminated groups) (rest : List UInt8)
    {shift start count : ℕ} (hshift : shift + 7 * count = 70) (hcount : groups.length ≤ count)
    (hvalue : start + Varint.value groups * 2 ^ shift < 2 ^ 64) :
    varintFrom shift start (groups ++ rest) = some (start + Varint.value groups * 2 ^ shift, rest) := by
  induction hgroups generalizing shift start count with
  | @last byte hlast =>
    rw [Varint.value_singleton hlast] at hvalue ⊢
    rw [List.singleton_append, varintFrom, Nat.mod_eq_of_lt hlast, if_pos hlast, if_pos hvalue]
  | @next byte groups hnext hgroups ih =>
    have hlength := List.length_pos_iff.mpr hgroups.ne_nil
    rw [List.length_cons] at hcount
    obtain ⟨count, rfl⟩ : ∃ left, count = left + 1 := ⟨count - 1, by omega⟩
    rw [← Varint.add_value_cons] at hvalue ⊢
    rw [List.cons_append, varintFrom, if_neg hnext.not_gt, if_pos (by omega),
      ih (by omega : shift + 7 + 7 * count = 70) (by omega) hvalue]

theorem varint_encode {n : ℕ} (hn : n < 2 ^ 64) (rest : List UInt8) :
    varint (Varint.encode n ++ rest) = some (n, rest) := by
  have hvalue : 0 + Varint.value (Varint.encode n) * 2 ^ 0 = n := by
    rw [Varint.value_encode, Nat.pow_zero, Nat.mul_one, Nat.zero_add]
  have hfits : 0 + Varint.value (Varint.encode n) * 2 ^ 0 < 2 ^ 64 := by rwa [hvalue]
  have hread := varintFrom_groups (Varint.terminated_encode n) rest (by decide : 0 + 7 * 10 = 70)
    (Varint.length_encode_le_ten hn) hfits
  rwa [hvalue] at hread

/-- A small field number and its bytes in the front. -/
theorem fields_bytes (hone : 1 ≤ number) (hlt : number < 16) {bytes : List UInt8}
    (hlength : bytes.length < 2 ^ 64) (rest : List UInt8) :
    fields (UInt8.ofNat (number * 8 + 2) :: (Varint.encode bytes.length ++ (bytes ++ rest))) =
      (fields rest).map ((number, .bytes bytes) :: ·) := by
  have hkey : varint (UInt8.ofNat (number * 8 + 2) :: (Varint.encode bytes.length ++ (bytes ++ rest))) =
      some (number * 8 + 2, Varint.encode bytes.length ++ (bytes ++ rest)) := by
    have hread := varint_encode (n := number * 8 + 2) (by omega)
      (Varint.encode bytes.length ++ (bytes ++ rest))
    rwa [Varint.encode_of_lt (by omega), List.singleton_append] at hread
  have htag : tag (UInt8.ofNat (number * 8 + 2) :: (Varint.encode bytes.length ++ (bytes ++ rest))) =
      some ((number, 2), Varint.encode bytes.length ++ (bytes ++ rest)) :=
    tag_eq_some.mpr ⟨_, hkey, hone, by omega, by omega, by omega⟩
  have hfixed : fixed bytes.length (bytes ++ rest) = some (⟨bytes, rfl⟩, rest) := fixed_eq_some.mpr rfl
  have hread := field_eq_some.mpr ⟨2, _, htag, bind_eq_some.mpr
    ⟨bytes.length, _, varint_encode hlength (bytes ++ rest), bind_eq_some.mpr ⟨_, rest, hfixed, rfl⟩⟩⟩
  exact fields_of_field hread

theorem length_lt_of_field_bytes {input rest bytes : List UInt8}
    (hfield : field input = some ((number, .bytes bytes), rest)) : bytes.length < input.length := by
  obtain ⟨wireType, middle, htag, hvalue⟩ := field_eq_some.mp hfield
  obtain ⟨key, hkey, -⟩ := tag_eq_some.mp htag
  obtain ⟨-, hlength⟩ := of_value_eq_bytes hvalue
  have hshorter := (consumes_varint hlength).length_le
  rw [List.length_append] at hshorter
  have hlt := (varintFrom_suffix hkey).2
  omega

/-- Bytes in a field are bytes of the message. -/
theorem length_lt_of_mem_fields {input : List UInt8} {read : List (ℕ × Value)}
    (hfields : fields input = some read) {bytes : List UInt8} (hmem : (number, .bytes bytes) ∈ read) :
    bytes.length < input.length := by
  revert hmem
  refine fields_induction ?_ ?_ hfields
  · intro hmem
    cases hmem
  · intro input rest first others hfield _ ih hmem
    rcases List.mem_cons.mp hmem with rfl | hmem
    · exact length_lt_of_field_bytes hfield
    · exact Nat.lt_trans (ih hmem) (length_lt_of_field hfield)

end Mosey.Library.Proto3

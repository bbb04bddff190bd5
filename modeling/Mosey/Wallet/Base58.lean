import Mathlib.Data.Nat.Digits.Lemmas
import Mosey.Library.Lists
import Mosey.Library.Utf8
import Mosey.Bytes

/-!
# Base58

Bytes are read as one big-endian number and written in radix 58 with the Bitcoin alphabet. Leading
zero bytes, which the number forgets, are written as leading ones.
-/

namespace Mosey.Wallet

open Library

def base58Alphabet : Bytes := ascii "123456789ABCDEFGHJKLMNPQRSTUVWXYZabcdefghijkmnopqrstuvwxyz"

/-- `SetBytes`: the big-endian value of bytes. -/
def bytesValue (bytes : Bytes) : ℕ := Nat.ofDigits 256 (bytes.reverse.map UInt8.toNat)

/-- `Bytes`: the shortest big-endian bytes of a number. -/
def valueBytes (value : ℕ) : Bytes := (Nat.digits 256 value).reverse.map UInt8.ofNat

def base58Digit (digit : ℕ) : UInt8 := base58Alphabet.getD digit 0

def base58Encode (bytes : Bytes) : Bytes :=
  let digits := (Nat.digits 58 (bytesValue bytes)).map base58Digit
  let zeros := bytes.takeWhile (· = 0)
  let out := (digits ++ zeros.map fun _ ↦ base58Digit 0).reverse
  if out = [] then ascii "1" else out

/-- The loop of `base58Decode`, or the first byte outside the alphabet. -/
def base58Value (text : Bytes) : Except UInt8 ℕ :=
  text.foldlM (fun value byte ↦
    match base58Alphabet.idxOf? byte with
    | some digit => .ok (value * 58 + digit)
    | none => .error byte) 0

def base58Decode (text : Bytes) : Except UInt8 Bytes :=
  match base58Value text with
  | .error byte => .error byte
  | .ok value => .ok ((text.takeWhile (· = base58Digit 0)).map (fun _ ↦ 0) ++ valueBytes value)

/-- The address string of a public key. -/
def address (publicKey : Bytes) : String :=
  String.ofList ((base58Encode publicKey).map fun byte ↦ Char.ofNat byte.toNat)

theorem toNat_lt_of_mem {bytes : Bytes} : ∀ digit ∈ bytes.map UInt8.toNat, digit < 256 := by
  intro digit hdigit
  obtain ⟨byte, _, rfl⟩ := List.mem_map.mp hdigit
  exact byte.toNat_lt

theorem bytesValue_zeros_append (count : ℕ) (bytes : Bytes) :
    bytesValue (List.replicate count 0 ++ bytes) = bytesValue bytes := by
  simp [bytesValue, Nat.ofDigits_append_replicate_zero]

/-- The shortest bytes of a value are the bytes themselves, if they do not start with zero. -/
theorem valueBytes_bytesValue {bytes : Bytes} (hhead : ∀ byte ∈ bytes.head?, byte ≠ 0) :
    valueBytes (bytesValue bytes) = bytes := by
  have hdigits : Nat.digits 256 (bytesValue bytes) = bytes.reverse.map UInt8.toNat := by
    apply Nat.digits_ofDigits 256 (by decide) _ toNat_lt_of_mem
    intro hne
    rw [List.getLast_map, List.getLast_reverse]
    intro hzero
    have hbyte := hhead _ (List.head?_eq_some_head (by simpa using hne))
    exact hbyte (UInt8.toNat_inj.mp hzero)
  unfold valueBytes
  rw [hdigits, ← List.map_reverse, List.reverse_reverse, List.map_map]
  have hid : (UInt8.ofNat ∘ UInt8.toNat) = id := by
    funext byte
    exact UInt8.ofNat_toNat
  rw [hid, List.map_id]

variable {digit : ℕ} {value : ℕ} {byte : UInt8} {text bytes : Bytes}

theorem idxOf?_base58Digit (hdigit : digit < 58) :
    base58Alphabet.idxOf? (base58Digit digit) = some digit := by
  have hall : ∀ digit : Fin 58, base58Alphabet.idxOf? (base58Digit digit) = some digit.1 := by
    decide
  exact hall ⟨digit, hdigit⟩

theorem base58Value_concat {text : Bytes} {value digit : ℕ} (htext : base58Value text = .ok value)
    (hdigit : digit < 58) :
    base58Value (text ++ [base58Digit digit]) = .ok (value * 58 + digit) := by
  unfold base58Value at htext ⊢
  rw [List.foldlM_append, htext]
  simp only [bind, Except.bind, List.foldlM_cons, idxOf?_base58Digit hdigit, List.foldlM_nil]
  rfl

/-- Digits are read from the most significant one on. -/
theorem base58Value_digits {digits : List ℕ} (hdigits : ∀ digit ∈ digits, digit < 58) :
    base58Value (digits.map base58Digit).reverse = .ok (Nat.ofDigits 58 digits) := by
  induction digits with
  | nil => rfl
  | cons digit rest ih =>
    have hrest := ih fun other hother ↦ hdigits other (List.mem_cons_of_mem _ hother)
    rw [List.map_cons, List.reverse_cons,
      base58Value_concat hrest (hdigits digit List.mem_cons_self), Nat.ofDigits_cons]
    congr 1
    rw [Nat.mul_comm, Nat.add_comm]

theorem base58Digit_ne_zero (hdigit : digit < 58) (hne : digit ≠ 0) :
    base58Digit digit ≠ base58Digit 0 := by
  intro heq
  have hindex := idxOf?_base58Digit hdigit
  rw [heq, idxOf?_base58Digit (by decide)] at hindex
  exact hne (Option.some.inj hindex).symm

/-- The most significant digit of a number is not zero. -/
theorem getLast?_digits {base value digit : ℕ} (hbase : 1 < base)
    (hlast : (Nat.digits base value).getLast? = some digit) : digit < base ∧ digit ≠ 0 := by
  have hne : Nat.digits base value ≠ [] := by
    intro hnil
    rw [hnil] at hlast
    cases hlast
  rw [List.getLast?_eq_some_getLast hne] at hlast
  obtain rfl := Option.some.inj hlast
  have hvalue : value ≠ 0 := by
    rintro rfl
    exact hne (Nat.digits_zero base)
  exact ⟨Nat.digits_lt_base hbase (List.getLast_mem hne), Nat.getLast_digit_ne_zero base hvalue⟩

theorem head_digits_ne_one (hbyte : byte ∈ (((Nat.digits 58 value).map base58Digit).reverse).head?) :
    byte ≠ base58Digit 0 := by
  rw [List.head?_reverse, List.getLast?_map, Option.mem_def, Option.map_eq_some_iff] at hbyte
  obtain ⟨digit, hlast, rfl⟩ := hbyte
  obtain ⟨hdigit, hne⟩ := getLast?_digits (by decide) hlast
  exact base58Digit_ne_zero hdigit hne

theorem base58Value_ones (count : ℕ) (text : Bytes) :
    base58Value (List.replicate count (base58Digit 0) ++ text) = base58Value text := by
  induction count with
  | zero => rfl
  | succ count ih =>
    rw [← ih, List.replicate_succ, List.cons_append, base58Value, List.foldlM_cons,
      idxOf?_base58Digit (by decide)]
    rfl

/-- Leading zero bytes are written as ones before the number. -/
theorem base58Encode_zeros_append {count : ℕ} {rest : Bytes} (hhead : ∀ byte ∈ rest.head?, byte ≠ 0)
    (hne : List.replicate count 0 ++ rest ≠ []) :
    base58Encode (List.replicate count 0 ++ rest) = List.replicate count (base58Digit 0) ++
      ((Nat.digits 58 (bytesValue rest)).map base58Digit).reverse := by
  rw [base58Encode, takeWhile_replicate_append hhead, bytesValue_zeros_append, List.map_replicate,
    List.reverse_append, List.reverse_replicate]
  apply if_neg
  intro hnil
  rw [List.append_eq_nil_iff, List.replicate_eq_nil_iff, List.reverse_eq_nil_iff,
    List.map_eq_nil_iff, Nat.digits_eq_nil_iff_eq_zero] at hnil
  have hrest : rest = [] := by
    rw [← valueBytes_bytesValue hhead, hnil.2]
    rfl
  apply hne
  rw [hnil.1, hrest]
  rfl

/-- Leading ones are read as zero bytes before the number. -/
theorem base58Decode_ones_append {text : Bytes} (hhead : ∀ byte ∈ text.head?, byte ≠ base58Digit 0)
    (hvalue : base58Value text = .ok value) (count : ℕ) :
    base58Decode (List.replicate count (base58Digit 0) ++ text) =
      .ok (List.replicate count 0 ++ valueBytes value) := by
  unfold base58Decode
  rw [base58Value_ones, hvalue, takeWhile_replicate_append hhead, List.map_replicate]

theorem base58Decode_base58Encode {bytes : Bytes} (hne : bytes ≠ []) :
    base58Decode (base58Encode bytes) = .ok bytes := by
  obtain ⟨count, rest, rfl, hhead⟩ := exists_replicate_append 0 bytes
  have hvalue := base58Value_digits fun _ hdigit ↦
    Nat.digits_lt_base (m := bytesValue rest) (by decide) hdigit
  rw [base58Encode_zeros_append hhead hne,
    base58Decode_ones_append (fun _ hbyte ↦ head_digits_ne_one hbyte) hvalue, Nat.ofDigits_digits,
    valueBytes_bytesValue hhead]

example : base58Decode (ascii "15T") = .ok [0, 1, 2] := by decide

theorem base58Digit_of_idxOf? (hindex : base58Alphabet.idxOf? byte = some digit) :
    digit < 58 ∧ byte = base58Digit digit := by
  obtain ⟨hlt, hbyte, _⟩ := List.idxOf?_eq_some_iff.mp hindex
  exact ⟨hlt, by simp [base58Digit, hlt, hbyte]⟩

/-- Text that has a value is made of digits, the most significant one first. -/
theorem exists_digits_of_base58Value {text : Bytes} (hvalue : base58Value text = .ok value) :
    ∃ digits : List ℕ, (∀ digit ∈ digits, digit < 58) ∧ text = (digits.map base58Digit).reverse := by
  unfold base58Value at hvalue
  generalize 0 = start at hvalue
  induction text generalizing start with
  | nil => exact ⟨[], by simp, rfl⟩
  | cons byte rest ih =>
    rw [List.foldlM_cons] at hvalue
    cases hindex : base58Alphabet.idxOf? byte with
    | none => simp [hindex, bind, Except.bind] at hvalue
    | some digit =>
      simp only [hindex, bind, Except.bind] at hvalue
      obtain ⟨digits, hdigits, rfl⟩ := ih _ hvalue
      obtain ⟨hlt, hbyte⟩ := base58Digit_of_idxOf? hindex
      refine ⟨digits ++ [digit], ?_, by simp [hbyte]⟩
      intro other hother
      rcases List.mem_append.mp hother with hother | hother
      · exact hdigits other hother
      · rwa [List.mem_singleton.mp hother]

theorem bytesValue_valueBytes (value : ℕ) : bytesValue (valueBytes value) = value := by
  unfold bytesValue valueBytes
  rw [← List.map_reverse, List.reverse_reverse, List.map_map]
  have hdigits : (Nat.digits 256 value).map (UInt8.toNat ∘ UInt8.ofNat) = Nat.digits 256 value := by
    rw [List.map_congr_left (g := id), List.map_id]
    intro digit hdigit
    exact UInt8.toNat_ofNat_of_lt' (Nat.digits_lt_base (by decide) hdigit)
  rw [hdigits, Nat.ofDigits_digits]

theorem head_valueBytes_ne_zero (hbyte : byte ∈ (valueBytes value).head?) : byte ≠ 0 := by
  rw [valueBytes, List.head?_map, List.head?_reverse, Option.mem_def, Option.map_eq_some_iff] at hbyte
  obtain ⟨digit, hlast, rfl⟩ := hbyte
  obtain ⟨hdigit, hne⟩ := getLast?_digits (by decide) hlast
  intro hzero
  have hvalue := congrArg UInt8.toNat hzero
  rw [UInt8.toNat_ofNat_of_lt' hdigit] at hvalue
  exact hne hvalue

/-- Without leading ones a number has one spelling. -/
theorem digits_eq_of_head {digits : List ℕ} (hdigits : ∀ digit ∈ digits, digit < 58)
    (hhead : ∀ byte ∈ ((digits.map base58Digit).reverse).head?, byte ≠ base58Digit 0) :
    Nat.digits 58 (Nat.ofDigits 58 digits) = digits := by
  apply Nat.digits_ofDigits 58 (by decide) _ hdigits
  intro hne hzero
  apply hhead (base58Digit (digits.getLast hne))
  · rw [List.head?_reverse, List.getLast?_map, List.getLast?_eq_some_getLast hne]
    rfl
  · rw [hzero]

/-- Bytes have one spelling: encoding is a left inverse of decoding. -/
theorem base58Encode_base58Decode (hdecode : base58Decode text = .ok bytes) (hne : bytes ≠ []) :
    base58Encode bytes = text := by
  obtain ⟨count, rest, rfl, hhead⟩ := exists_replicate_append (base58Digit 0) text
  cases hvalue : base58Value rest with
  | error byte =>
    unfold base58Decode at hdecode
    rw [base58Value_ones, hvalue] at hdecode
    cases hdecode
  | ok value =>
    rw [base58Decode_ones_append hhead hvalue] at hdecode
    obtain rfl := Except.ok.inj hdecode
    obtain ⟨digits, hdigits, rfl⟩ := exists_digits_of_base58Value hvalue
    rw [base58Value_digits hdigits] at hvalue
    obtain rfl := Except.ok.inj hvalue
    rw [base58Encode_zeros_append (fun _ hbyte ↦ head_valueBytes_ne_zero hbyte) hne,
      bytesValue_valueBytes, digits_eq_of_head hdigits hhead]

/-- Text that is not empty stands for at least one byte. -/
theorem ne_nil_of_base58Decode (hdecode : base58Decode text = .ok bytes) (hne : text ≠ []) :
    bytes ≠ [] := by
  obtain ⟨count, rest, rfl, hhead⟩ := exists_replicate_append (base58Digit 0) text
  rintro rfl
  cases hvalue : base58Value rest with
  | error byte =>
    unfold base58Decode at hdecode
    rw [base58Value_ones, hvalue] at hdecode
    cases hdecode
  | ok value =>
    rw [base58Decode_ones_append hhead hvalue] at hdecode
    obtain ⟨hcount, hbytes⟩ := List.append_eq_nil_iff.mp (Except.ok.inj hdecode)
    obtain ⟨digits, hdigits, rfl⟩ := exists_digits_of_base58Value hvalue
    rw [base58Value_digits hdigits] at hvalue
    have hzero : Nat.ofDigits 58 digits = 0 := by
      rw [Except.ok.inj hvalue, ← bytesValue_valueBytes value, hbytes]
      rfl
    have hnone := digits_eq_of_head hdigits hhead
    rw [hzero, Nat.digits_zero] at hnone
    apply hne
    rw [← hnone, (List.replicate_eq_nil_iff 0).mp hcount]
    rfl

/-- Every byte of text that is decoded is in the alphabet. -/
theorem mem_alphabet_of_base58Decode (hdecode : base58Decode text = .ok bytes) :
    ∀ byte ∈ text, byte ∈ base58Alphabet := by
  unfold base58Decode at hdecode
  cases hvalue : base58Value text with
  | error byte =>
    rw [hvalue] at hdecode
    cases hdecode
  | ok value =>
    obtain ⟨digits, hdigits, rfl⟩ := exists_digits_of_base58Value hvalue
    intro byte hmem
    obtain ⟨digit, hdigit, rfl⟩ := List.mem_map.mp (List.mem_reverse.mp hmem)
    by_contra houtside
    have hindex := idxOf?_base58Digit (hdigits digit hdigit)
    rw [List.idxOf?_eq_none_iff.mpr houtside] at hindex
    cases hindex

theorem toNat_charOf (byte : UInt8) : (Char.ofNat byte.toNat).toNat = byte.toNat := by
  have hvalid : byte.toNat.isValidChar := Or.inl (Nat.lt_trans byte.toNat_lt (by decide))
  rw [Char.ofNat, dif_pos hvalid]
  rfl

/-- The characters of an address stand for single bytes. -/
theorem encode_address {publicKey : Bytes} (hne : publicKey ≠ []) :
    Utf8.encode (address publicKey).toList = base58Encode publicKey := by
  have halphabet : ∀ byte ∈ base58Alphabet, byte.toNat < 128 := by decide +kernel
  have hascii : ∀ char ∈ (base58Encode publicKey).map fun byte ↦ Char.ofNat byte.toNat,
      char.toNat < 128 := by
    intro char hmem
    obtain ⟨byte, hbyte, rfl⟩ := List.mem_map.mp hmem
    rw [toNat_charOf]
    exact halphabet byte (mem_alphabet_of_base58Decode (base58Decode_base58Encode hne) byte hbyte)
  rw [address, String.toList_ofList, Utf8.encode_of_ascii hascii, List.map_map]
  apply List.map_id''
  intro byte
  rw [Function.comp_apply, toNat_charOf, UInt8.ofNat_toNat]

example : address [0, 1, 2] = "15T" := by decide

end Mosey.Wallet

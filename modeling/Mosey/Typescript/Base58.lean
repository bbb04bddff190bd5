import Mosey.Typescript.Parse

/-!
# One base58 in both languages

The Go package ranges over the runes of a string and counts leading ones in its bytes. The client walks
over code points, and counts in code units. On every text they give the same bytes, or name the same
character as the one outside of the alphabet.
-/

namespace Mosey.Wallet

open Library

/-- `strings.IndexRune` in a string of ASCII characters. -/
def indexRune (text : Bytes) (rune : Char) : Option ℕ :=
  if rune.toNat < 128 then text.idxOf? (UInt8.ofNat rune.toNat) else none

def base58RuneValue (runes : List Char) : Except Char ℕ :=
  runes.foldlM (fun value rune ↦
    match indexRune base58Alphabet rune with
    | some digit => .ok (value * 58 + digit)
    | none => .error rune) 0

/-- `base58Decode` of a string that is UTF-8, given by its runes. -/
def base58DecodeText (text : List Char) : Except Char Bytes :=
  match base58RuneValue text with
  | .error rune => .error rune
  | .ok value =>
    .ok (((Utf8.encode text).takeWhile (· = base58Digit 0)).map (fun _ ↦ 0) ++ valueBytes value)

end Mosey.Wallet

namespace Mosey.Typescript

open Library

theorem base58Value_eq_mapError (text : JSString) :
    base58Value text = (Wallet.base58RuneValue text).mapError .base58Character := by
  unfold base58Value Wallet.base58RuneValue
  generalize 0 = start
  induction text generalizing start with
  | nil => rfl
  | cons char rest ih =>
    rw [List.foldlM_cons, List.foldlM_cons, idxOf?_alphabet, ← Wallet.indexRune]
    cases Wallet.indexRune Wallet.base58Alphabet char with
    | none => rfl
    | some index => exact ih _

variable {text : JSString} {bytes : Bytes}

/-- A text has a value if its characters are all of the alphabet. -/
theorem exists_base58Value_iff :
    (∃ n, base58Value text = .ok n) ↔ ∀ char ∈ text, char ∈ b58Alphabet := by
  unfold base58Value
  generalize 0 = start
  induction text generalizing start with
  | nil => exact iff_of_true ⟨start, rfl⟩ (List.forall_mem_nil _)
  | cons char rest ih =>
    rw [List.foldlM_cons, List.forall_mem_cons]
    cases hindex : b58Alphabet.idxOf? char with
    | none =>
      have houtside := List.idxOf?_eq_none_iff.mp hindex
      exact iff_of_false (fun ⟨_, hvalue⟩ ↦ by cases hvalue) fun hmem ↦ houtside hmem.1
    | some index =>
      have hmem : char ∈ b58Alphabet := by
        by_contra houtside
        rw [List.idxOf?_eq_none_iff.mpr houtside] at hindex
        cases hindex
      rw [and_iff_right hmem]
      exact ih _

/-- A text is decoded if all its characters are in the alphabet. -/
theorem exists_base58Decode_iff :
    (∃ bytes, base58Decode text = .ok bytes) ↔ ∀ char ∈ text, char ∈ b58Alphabet := by
  rw [← exists_base58Value_iff]
  constructor
  · rintro ⟨bytes, hdecode⟩
    obtain ⟨n, hvalue, -⟩ := bind_eq_ok.mp hdecode
    exact ⟨n, hvalue⟩
  · rintro ⟨n, hvalue⟩
    exact ⟨_, bind_pure_eq_ok hvalue _⟩

/-- The two decoders agree on every text. -/
theorem base58Decode_eq_mapError (text : JSString) :
    base58Decode text = (Wallet.base58DecodeText text).mapError .base58Character := by
  unfold base58Decode Wallet.base58DecodeText
  cases hvalue : Wallet.base58RuneValue text with
  | error rune =>
    rw [base58Value_eq_mapError, hvalue]
    rfl
  | ok value =>
    have hclient : base58Value text = .ok value := by
      rw [base58Value_eq_mapError, hvalue]
      rfl
    have hascii : IsAscii text := fun char hmem ↦
      isAscii_alphabet char (exists_base58Value_iff.mp ⟨value, hclient⟩ char hmem)
    rw [bind_pure_eq_ok hclient, prependZeros_eq, decodeLoop_eq, List.append_nil,
      encode_eq_toBytes hascii, List.map_const', length_takeWhile_ones hascii]
    rfl

theorem base58DecodeText_eq_ok :
    Wallet.base58DecodeText text = .ok bytes ↔ base58Decode text = .ok bytes := by
  rw [base58Decode_eq_mapError]
  cases Wallet.base58DecodeText text with
  | error rune => exact iff_of_false (fun h ↦ by cases h) fun h ↦ by cases h
  | ok decoded => exact ⟨fun h ↦ congrArg _ (Except.ok.inj h), fun h ↦ congrArg _ (Except.ok.inj h)⟩

/-- An ASCII text is given by its bytes, so the decoder may as well look at these. -/
theorem isAscii_of_encode (hbytes : ∀ byte ∈ Utf8.encode text, byte.toNat < 128) : IsAscii text := by
  have hchars : IsAscii ((Utf8.encode text).map fun byte ↦ Char.ofNat byte.toNat) := by
    intro char hmem
    obtain ⟨byte, hbyte, rfl⟩ := List.mem_map.mp hmem
    rw [Wallet.toNat_charOf]
    exact hbytes byte hbyte
  have hsame : Utf8.encode ((Utf8.encode text).map fun byte ↦ Char.ofNat byte.toNat) =
      Utf8.encode text := by
    rw [encode_eq_toBytes hchars, toBytes, List.map_map]
    refine List.map_id'' (fun byte ↦ ?_) _
    rw [Function.comp_apply, Wallet.toNat_charOf, UInt8.ofNat_toNat]
  have htext := congrArg Utf8.decode hsame
  rw [Utf8.decode_encode, Utf8.decode_encode] at htext
  rw [← htext]
  exact hchars

theorem base58DecodeText_eq_ok_iff_bytes :
    Wallet.base58DecodeText text = .ok bytes ↔ Wallet.base58Decode (Utf8.encode text) = .ok bytes := by
  rw [base58DecodeText_eq_ok, base58Decode_eq_ok]
  constructor
  · rintro ⟨hascii, hdecode⟩
    rwa [encode_eq_toBytes hascii]
  · intro hdecode
    have halphabet : ∀ byte ∈ Wallet.base58Alphabet, byte.toNat < 128 := by decide +kernel
    have hascii : IsAscii text := isAscii_of_encode fun byte hmem ↦
      halphabet byte (Wallet.mem_alphabet_of_base58Decode hdecode byte hmem)
    exact ⟨hascii, by rwa [← encode_eq_toBytes hascii]⟩

theorem base58Encode_eq_address (bytes : Bytes) : base58Encode bytes = (Wallet.address bytes).toList := by
  rw [Wallet.address, String.toList_ofList, ← toBytes_base58Encode, toBytes, List.map_map]
  refine (List.map_id' _).symm.trans (List.map_congr_left fun char hmem ↦ ?_)
  have hascii := isAscii_base58Encode bytes char hmem
  rw [Function.comp_apply, Utf8.toNat_ofNat (by omega), Char.ofNat_toNat]

/-- Bytes and texts over the alphabet correspond to each other, apart from the empty ones. -/
structure IsBase58 {ε : Type} (encode : Bytes → List Char) (decode : List Char → Except ε Bytes) :
    Prop where
  decode_encode : ∀ bytes, bytes ≠ [] → decode (encode bytes) = .ok bytes
  encode_decode : ∀ text, text ≠ [] → (∀ char ∈ text, char ∈ b58Alphabet) →
    ∃ bytes, decode text = .ok bytes ∧ encode bytes = text
  rejects : ∀ text, (∃ char ∈ text, char ∉ b58Alphabet) → ∃ err, decode text = .error err

theorem ne_nil_of_base58Decode (hdecode : base58Decode text = .ok bytes) (hne : text ≠ []) : bytes ≠ [] :=
  Wallet.ne_nil_of_base58Decode (base58Decode_eq_ok.mp hdecode).2
    fun hnil ↦ hne (List.map_eq_nil_iff.mp hnil)

/-- The functions of the client are base58. -/
theorem isBase58_client : IsBase58 base58Encode base58Decode where
  decode_encode bytes hne := (base58Decode_eq_ok_iff hne).mpr rfl
  encode_decode text hne halphabet := by
    obtain ⟨bytes, hdecode⟩ := exists_base58Decode_iff.mpr halphabet
    have hbytes := ne_nil_of_base58Decode hdecode hne
    exact ⟨bytes, hdecode, ((base58Decode_eq_ok_iff hbytes).mp hdecode).symm⟩
  rejects text houtside := by
    obtain ⟨char, hmem, houtside⟩ := houtside
    cases hdecode : base58Decode text with
    | error err => exact ⟨err, rfl⟩
    | ok bytes => exact absurd (exists_base58Decode_iff.mp ⟨bytes, hdecode⟩ char hmem) houtside

theorem isBase58_wallet : IsBase58 (fun bytes ↦ (Wallet.address bytes).toList) Wallet.base58DecodeText where
  decode_encode bytes hne := by
    rw [← base58Encode_eq_address, base58DecodeText_eq_ok]
    exact isBase58_client.decode_encode bytes hne
  encode_decode text hne halphabet := by
    obtain ⟨bytes, hdecode, hencode⟩ := isBase58_client.encode_decode text hne halphabet
    exact ⟨bytes, base58DecodeText_eq_ok.mpr hdecode, by rw [← base58Encode_eq_address, hencode]⟩
  rejects text houtside := by
    obtain ⟨err, hclient⟩ := isBase58_client.rejects text houtside
    cases hdecode : Wallet.base58DecodeText text with
    | error rune => exact ⟨rune, rfl⟩
    | ok bytes =>
      rw [base58DecodeText_eq_ok.mp hdecode] at hclient
      cases hclient

/-- Base58 is a bijection, and the same one in both languages. The Go package also refuses every string
of bytes with one that is not in the alphabet. -/
theorem base58_bijection_in_both :
    IsBase58 (fun bytes ↦ (Wallet.address bytes).toList) Wallet.base58DecodeText ∧
    IsBase58 base58Encode base58Decode ∧
    (∀ bytes, base58Encode bytes = (Wallet.address bytes).toList) ∧
    (∀ text, base58Decode text = (Wallet.base58DecodeText text).mapError .base58Character) ∧
    (∀ text bytes, Wallet.base58DecodeText text = .ok bytes ↔
      Wallet.base58Decode (Utf8.encode text) = .ok bytes) ∧
    ∀ text : Bytes, (∃ byte ∈ text, byte ∉ Wallet.base58Alphabet) →
      ∃ err, Wallet.base58Decode text = .error err := by
  refine ⟨isBase58_wallet, isBase58_client, base58Encode_eq_address, base58Decode_eq_mapError,
    fun _ _ ↦ base58DecodeText_eq_ok_iff_bytes, ?_⟩
  rintro text ⟨byte, hmem, houtside⟩
  cases hdecode : Wallet.base58Decode text with
  | error err => exact ⟨err, rfl⟩
  | ok bytes => exact absurd (Wallet.mem_alphabet_of_base58Decode hdecode byte hmem) houtside

end Mosey.Typescript

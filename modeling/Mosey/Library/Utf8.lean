import Mathlib.Data.List.Basic

/-!
# UTF-8 with replacement

The decoder of the encoding standard takes a byte at a time and writes a replacement character for what
is no character's encoding. A byte that breaks off a sequence is read again as the start of the next.
Text without replacement characters was decoded from its own encoding and from nothing else.
-/

namespace Mosey.Library.Utf8

def encode (text : List Char) : List UInt8 := text.flatMap String.utf8EncodeChar

def replacement : Char := '�'

/-- The sequence that is being read: what its bytes gave so far, how many are missing, and the range of
the next one. -/
structure Decoder where
  codePoint : ℕ
  needed : ℕ
  lower : ℕ
  upper : ℕ
  deriving DecidableEq

def Decoder.idle : Decoder := ⟨0, 0, 0x80, 0xBF⟩

/-- A byte outside of a sequence. -/
def Decoder.start (byte : UInt8) : Decoder × List Char :=
  let value := byte.toNat
  if value ≤ 0x7F then (idle, [Char.ofNat value])
  else if 0xC2 ≤ value ∧ value ≤ 0xDF then (⟨value % 32, 1, 0x80, 0xBF⟩, [])
  else if 0xE0 ≤ value ∧ value ≤ 0xEF then
    (⟨value % 16, 2, if value = 0xE0 then 0xA0 else 0x80, if value = 0xED then 0x9F else 0xBF⟩, [])
  else if 0xF0 ≤ value ∧ value ≤ 0xF4 then
    (⟨value % 8, 3, if value = 0xF0 then 0x90 else 0x80, if value = 0xF4 then 0x8F else 0xBF⟩, [])
  else (idle, [replacement])

def Decoder.step (decoder : Decoder) (byte : UInt8) : Decoder × List Char :=
  if decoder.needed = 0 then start byte
  else if byte.toNat < decoder.lower ∨ decoder.upper < byte.toNat then
    ((start byte).1, replacement :: (start byte).2)
  else
    let codePoint := decoder.codePoint * 64 + byte.toNat % 64
    if decoder.needed = 1 then (idle, [Char.ofNat codePoint])
    else (⟨codePoint, decoder.needed - 1, 0x80, 0xBF⟩, [])

def Decoder.run (decoder : Decoder) : List UInt8 → List Char
  | [] => if decoder.needed = 0 then [] else [replacement]
  | byte :: rest => (decoder.step byte).2 ++ (decoder.step byte).1.run rest

def decode (bytes : List UInt8) : List Char := Decoder.idle.run bytes

example : decode [0x61, 0xC3, 0xA9, 0xE0, 0x80, 0x62] = ['a', 'é', '�', '�', 'b'] := by decide

section Sequences

variable {byte : UInt8} (rest : List UInt8)

theorem run_start_one (hbyte : byte.toNat ≤ 0x7F) :
    Decoder.idle.run (byte :: rest) = Char.ofNat byte.toNat :: Decoder.idle.run rest := by
  simp [Decoder.run, Decoder.step, Decoder.start, Decoder.idle, hbyte]

theorem run_start_two (hbyte : 0xC2 ≤ byte.toNat ∧ byte.toNat ≤ 0xDF) :
    Decoder.idle.run (byte :: rest) = Decoder.run ⟨byte.toNat % 32, 1, 0x80, 0xBF⟩ rest := by
  have hone : ¬ byte.toNat ≤ 0x7F := by omega
  simp [Decoder.run, Decoder.step, Decoder.start, Decoder.idle, hone, hbyte]

/-- The first of three bytes narrows the range of the second one. -/
theorem run_start_three (hbyte : 0xE0 ≤ byte.toNat ∧ byte.toNat ≤ 0xEF) :
    Decoder.idle.run (byte :: rest) = Decoder.run ⟨byte.toNat % 16, 2,
      if byte.toNat = 0xE0 then 0xA0 else 0x80, if byte.toNat = 0xED then 0x9F else 0xBF⟩ rest := by
  have hone : ¬ byte.toNat ≤ 0x7F := by omega
  have htwo : ¬ (0xC2 ≤ byte.toNat ∧ byte.toNat ≤ 0xDF) := by omega
  simp [Decoder.run, Decoder.step, Decoder.start, Decoder.idle, hone, htwo, hbyte]

/-- The first of four bytes narrows the range of the second one. -/
theorem run_start_four (hbyte : 0xF0 ≤ byte.toNat ∧ byte.toNat ≤ 0xF4) :
    Decoder.idle.run (byte :: rest) = Decoder.run ⟨byte.toNat % 8, 3,
      if byte.toNat = 0xF0 then 0x90 else 0x80, if byte.toNat = 0xF4 then 0x8F else 0xBF⟩ rest := by
  have hone : ¬ byte.toNat ≤ 0x7F := by omega
  have htwo : ¬ (0xC2 ≤ byte.toNat ∧ byte.toNat ≤ 0xDF) := by omega
  have hthree : ¬ (0xE0 ≤ byte.toNat ∧ byte.toNat ≤ 0xEF) := by omega
  simp [Decoder.run, Decoder.step, Decoder.start, Decoder.idle, hone, htwo, hthree, hbyte]

variable {codePoint needed lower upper : ℕ}

theorem run_next (hlower : lower ≤ byte.toNat) (hupper : byte.toNat ≤ upper) :
    Decoder.run ⟨codePoint, needed + 2, lower, upper⟩ (byte :: rest) =
      Decoder.run ⟨codePoint * 64 + byte.toNat % 64, needed + 1, 0x80, 0xBF⟩ rest := by
  have hrange : ¬ (byte.toNat < lower ∨ upper < byte.toNat) := by omega
  simp [Decoder.run, Decoder.step, hrange]

theorem run_last (hlower : lower ≤ byte.toNat) (hupper : byte.toNat ≤ upper) :
    Decoder.run ⟨codePoint, 1, lower, upper⟩ (byte :: rest) =
      Char.ofNat (codePoint * 64 + byte.toNat % 64) :: Decoder.idle.run rest := by
  have hrange : ¬ (byte.toNat < lower ∨ upper < byte.toNat) := by omega
  simp [Decoder.run, Decoder.step, hrange]

end Sequences

variable {value : ℕ} {bytes : List UInt8}

theorem toNat_ofNat (hvalue : value < 256) : (UInt8.ofNat value).toNat = value :=
  UInt8.toNat_ofNat_of_lt' hvalue

/-- The decoder reads a character's encoding as that character. -/
theorem run_utf8EncodeChar (char : Char) (rest : List UInt8) :
    Decoder.idle.run (String.utf8EncodeChar char ++ rest) = char :: Decoder.idle.run rest := by
  have hvalid : char.val.toNat < 0xD800 ∨ 0xDFFF < char.val.toNat ∧ char.val.toNat < 0x110000 :=
    char.valid
  have hchar : Char.ofNat char.val.toNat = char := Char.ofNat_toNat char
  unfold String.utf8EncodeChar
  dsimp only
  generalize char.val.toNat = value at hvalid hchar ⊢
  split_ifs with hone htwo hthree
  · have hbyte : (UInt8.ofNat value).toNat = value := toNat_ofNat (by omega)
    rw [List.cons_append, List.nil_append, run_start_one _ (by omega), hbyte, hchar]
  · have hfirst : (UInt8.ofNat (value / 64 % 32 + 192)).toNat = value / 64 % 32 + 192 :=
      toNat_ofNat (by omega)
    have hsecond : (UInt8.ofNat (value % 64 + 128)).toNat = value % 64 + 128 :=
      toNat_ofNat (by omega)
    rw [List.cons_append, List.cons_append, List.nil_append, run_start_two _ (by omega),
      run_last _ (by omega) (by omega), hfirst, hsecond]
    have hvalue : (value / 64 % 32 + 192) % 32 * 64 + (value % 64 + 128) % 64 = value := by omega
    rw [hvalue, hchar]
  · have hfirst := @toNat_ofNat (value / 4096 % 16 + 224) (by omega)
    have hsecond := @toNat_ofNat (value / 64 % 64 + 128) (by omega)
    have hthird := @toNat_ofNat (value % 64 + 128) (by omega)
    rw [List.cons_append, List.cons_append, List.cons_append, List.nil_append,
      run_start_three _ (by omega), hfirst, run_next _ (by split_ifs <;> omega) (by split_ifs <;> omega),
      run_last _ (by omega) (by omega), hsecond, hthird]
    have hvalue : ((value / 4096 % 16 + 224) % 16 * 64 + (value / 64 % 64 + 128) % 64) * 64 +
        (value % 64 + 128) % 64 = value := by omega
    rw [hvalue, hchar]
  · have hfirst := @toNat_ofNat (value / 262144 % 8 + 240) (by omega)
    have hsecond := @toNat_ofNat (value / 4096 % 64 + 128) (by omega)
    have hthird := @toNat_ofNat (value / 64 % 64 + 128) (by omega)
    have hfourth := @toNat_ofNat (value % 64 + 128) (by omega)
    rw [List.cons_append, List.cons_append, List.cons_append, List.cons_append, List.nil_append,
      run_start_four _ (by omega), hfirst, run_next _ (by split_ifs <;> omega) (by split_ifs <;> omega),
      run_next _ (by omega) (by omega), run_last _ (by omega) (by omega), hsecond, hthird, hfourth]
    have hvalue : (((value / 262144 % 8 + 240) % 8 * 64 + (value / 4096 % 64 + 128) % 64) * 64 +
        (value / 64 % 64 + 128) % 64) * 64 + (value % 64 + 128) % 64 = value := by omega
    rw [hvalue, hchar]

theorem decode_encode (text : List Char) : decode (encode text) = text := by
  induction text with
  | nil => rfl
  | cons char rest ih =>
    have hencode : encode (char :: rest) = String.utf8EncodeChar char ++ encode rest := rfl
    unfold decode at ih ⊢
    rw [hencode, run_utf8EncodeChar, ih]

theorem utf8EncodeChar_ofNat (hvalid : value.isValidChar) :
    String.utf8EncodeChar (Char.ofNat value) =
      if value ≤ 0x7F then [UInt8.ofNat value]
      else if value ≤ 0x7FF then [UInt8.ofNat (value / 64 % 32 + 192), UInt8.ofNat (value % 64 + 128)]
      else if value ≤ 0xFFFF then
        [UInt8.ofNat (value / 4096 % 16 + 224), UInt8.ofNat (value / 64 % 64 + 128),
          UInt8.ofNat (value % 64 + 128)]
      else
        [UInt8.ofNat (value / 262144 % 8 + 240), UInt8.ofNat (value / 4096 % 64 + 128),
          UInt8.ofNat (value / 64 % 64 + 128), UInt8.ofNat (value % 64 + 128)] := by
  rw [Char.ofNat, dif_pos hvalid]
  rfl

theorem ofNat_eq (byte : UInt8) (hvalue : value = byte.toNat) : UInt8.ofNat value = byte := by
  rw [hvalue, UInt8.ofNat_toNat]

/-- The bytes of a sequence that is being read. -/
inductive Pending : Decoder → List UInt8 → Prop
  | idle : Pending .idle []
  | two {first : UInt8} (hfirst : 0xC2 ≤ first.toNat ∧ first.toNat ≤ 0xDF) :
    Pending ⟨first.toNat % 32, 1, 0x80, 0xBF⟩ [first]
  | three {first : UInt8} (hfirst : 0xE0 ≤ first.toNat ∧ first.toNat ≤ 0xEF) :
    Pending ⟨first.toNat % 16, 2, if first.toNat = 0xE0 then 0xA0 else 0x80,
      if first.toNat = 0xED then 0x9F else 0xBF⟩ [first]
  | threeSecond {first second : UInt8} (hfirst : 0xE0 ≤ first.toNat ∧ first.toNat ≤ 0xEF)
    (hlower : (if first.toNat = 0xE0 then 0xA0 else 0x80) ≤ second.toNat)
    (hupper : second.toNat ≤ if first.toNat = 0xED then 0x9F else 0xBF) :
    Pending ⟨first.toNat % 16 * 64 + second.toNat % 64, 1, 0x80, 0xBF⟩ [first, second]
  | four {first : UInt8} (hfirst : 0xF0 ≤ first.toNat ∧ first.toNat ≤ 0xF4) :
    Pending ⟨first.toNat % 8, 3, if first.toNat = 0xF0 then 0x90 else 0x80,
      if first.toNat = 0xF4 then 0x8F else 0xBF⟩ [first]
  | fourSecond {first second : UInt8} (hfirst : 0xF0 ≤ first.toNat ∧ first.toNat ≤ 0xF4)
    (hlower : (if first.toNat = 0xF0 then 0x90 else 0x80) ≤ second.toNat)
    (hupper : second.toNat ≤ if first.toNat = 0xF4 then 0x8F else 0xBF) :
    Pending ⟨first.toNat % 8 * 64 + second.toNat % 64, 2, 0x80, 0xBF⟩ [first, second]
  | fourThird {first second third : UInt8} (hfirst : 0xF0 ≤ first.toNat ∧ first.toNat ≤ 0xF4)
    (hlower : (if first.toNat = 0xF0 then 0x90 else 0x80) ≤ second.toNat)
    (hupper : second.toNat ≤ if first.toNat = 0xF4 then 0x8F else 0xBF)
    (hthird : 0x80 ≤ third.toNat ∧ third.toNat ≤ 0xBF) :
    Pending ⟨(first.toNat % 8 * 64 + second.toNat % 64) * 64 + third.toNat % 64, 1, 0x80, 0xBF⟩
      [first, second, third]

/-- What a byte adds: a replacement, or it is among the bytes written out and those pending. -/
def Kept (result : Decoder × List Char) (bytes : List UInt8) : Prop :=
  replacement ∈ result.2 ∨ ∃ pending, Pending result.1 pending ∧ encode result.2 ++ pending = bytes

theorem kept_start (byte : UInt8) : Kept (Decoder.start byte) [byte] := by
  unfold Decoder.start
  dsimp only
  by_cases hone : byte.toNat ≤ 0x7F
  · rw [if_pos hone]
    refine .inr ⟨[], .idle, ?_⟩
    rw [List.append_nil, encode, List.flatMap_singleton, utf8EncodeChar_ofNat (.inl (by omega)),
      if_pos hone, ofNat_eq byte rfl]
  rw [if_neg hone]
  by_cases htwo : 0xC2 ≤ byte.toNat ∧ byte.toNat ≤ 0xDF
  · rw [if_pos htwo]
    exact .inr ⟨[byte], .two htwo, rfl⟩
  rw [if_neg htwo]
  by_cases hthree : 0xE0 ≤ byte.toNat ∧ byte.toNat ≤ 0xEF
  · rw [if_pos hthree]
    exact .inr ⟨[byte], .three hthree, rfl⟩
  rw [if_neg hthree]
  by_cases hfour : 0xF0 ≤ byte.toNat ∧ byte.toNat ≤ 0xF4
  · rw [if_pos hfour]
    exact .inr ⟨[byte], .four hfour, rfl⟩
  rw [if_neg hfour]
  exact .inl List.mem_cons_self

/-- A sequence goes on with a byte of its range. -/
theorem kept_step_next {codePoint needed lower upper : ℕ} {byte : UInt8}
    (hpending : lower ≤ byte.toNat → byte.toNat ≤ upper →
      Pending ⟨codePoint * 64 + byte.toNat % 64, needed + 1, 0x80, 0xBF⟩ bytes) :
    Kept (Decoder.step ⟨codePoint, needed + 2, lower, upper⟩ byte) bytes := by
  unfold Decoder.step
  dsimp only
  rw [if_neg (by omega)]
  split_ifs with hrange hneeded
  · exact .inl List.mem_cons_self
  · omega
  · exact .inr ⟨bytes, hpending (by omega) (by omega), rfl⟩

/-- A sequence ends with a byte of its range. -/
theorem kept_step_last {codePoint lower upper : ℕ} {byte : UInt8}
    (hbytes : lower ≤ byte.toNat → byte.toNat ≤ upper →
      String.utf8EncodeChar (Char.ofNat (codePoint * 64 + byte.toNat % 64)) = bytes) :
    Kept (Decoder.step ⟨codePoint, 1, lower, upper⟩ byte) bytes := by
  unfold Decoder.step
  dsimp only
  rw [if_neg (by omega), if_pos rfl]
  split_ifs with hrange
  · exact .inl List.mem_cons_self
  · refine .inr ⟨[], .idle, ?_⟩
    rw [List.append_nil, encode, List.flatMap_singleton, hbytes (by omega) (by omega)]

/-- A further byte extends the bytes that are pending, or ends them. -/
theorem Pending.step {decoder : Decoder} {pending : List UInt8} (hpending : Pending decoder pending)
    (byte : UInt8) : Kept (decoder.step byte) (pending ++ [byte]) := by
  cases hpending with
  | idle => exact kept_start byte
  | @two first hfirst =>
    apply kept_step_last
    intro hlower hupper
    rw [utf8EncodeChar_ofNat (.inl (by omega)), if_neg (by omega), if_pos (by omega),
      ofNat_eq first (by omega), ofNat_eq byte (by omega)]
    rfl
  | three hfirst => exact kept_step_next fun hlower hupper ↦ .threeSecond hfirst hlower hupper
  | @threeSecond first second hfirst hlower hupper =>
    apply kept_step_last
    intro hlast hlast'
    have hsecond : 0x80 ≤ second.toNat ∧ second.toNat ≤ 0xBF ∧
        (first.toNat = 0xE0 → 0xA0 ≤ second.toNat) ∧ (first.toNat = 0xED → second.toNat ≤ 0x9F) := by
      split_ifs at hlower hupper <;> omega
    have hvalid : ((first.toNat % 16 * 64 + second.toNat % 64) * 64 + byte.toNat % 64).isValidChar := by
      unfold Nat.isValidChar
      omega
    rw [utf8EncodeChar_ofNat hvalid, if_neg (by omega), if_neg (by omega), if_pos (by omega),
      ofNat_eq first (by omega), ofNat_eq second (by omega), ofNat_eq byte (by omega)]
    rfl
  | four hfirst => exact kept_step_next fun hlower hupper ↦ .fourSecond hfirst hlower hupper
  | fourSecond hfirst hlower hupper =>
    exact kept_step_next fun hthird hthird' ↦ .fourThird hfirst hlower hupper ⟨hthird, hthird'⟩
  | @fourThird first second third hfirst hlower hupper hthird =>
    apply kept_step_last
    intro hlast hlast'
    have hsecond : 0x80 ≤ second.toNat ∧ second.toNat ≤ 0xBF ∧
        (first.toNat = 0xF0 → 0x90 ≤ second.toNat) ∧ (first.toNat = 0xF4 → second.toNat ≤ 0x8F) := by
      split_ifs at hlower hupper <;> omega
    have hvalid : (((first.toNat % 8 * 64 + second.toNat % 64) * 64 + third.toNat % 64) * 64 +
        byte.toNat % 64).isValidChar := by
      unfold Nat.isValidChar
      omega
    rw [utf8EncodeChar_ofNat hvalid, if_neg (by omega), if_neg (by omega), if_neg (by omega),
      ofNat_eq first (by omega), ofNat_eq second (by omega), ofNat_eq third (by omega),
      ofNat_eq byte (by omega)]
    rfl

/-- Without a replacement, encoding what was decoded gives the bytes back. -/
theorem Pending.encode_run {decoder : Decoder} {pending : List UInt8}
    (hpending : Pending decoder pending) (hclean : replacement ∉ decoder.run bytes) :
    encode (decoder.run bytes) = pending ++ bytes := by
  induction bytes generalizing decoder pending with
  | nil =>
    cases hpending with
    | idle => rfl
    | _ => exact absurd List.mem_cons_self hclean
  | cons byte rest ih =>
    rw [Decoder.run, List.mem_append, not_or] at hclean
    rcases hpending.step byte with hreplaced | ⟨next, hnext, hbytes⟩
    · exact absurd hreplaced hclean.1
    · have hrest := ih hnext hclean.2
      rw [Decoder.run, encode, List.flatMap_append]
      change encode (decoder.step byte).2 ++ encode ((decoder.step byte).1.run rest) = _
      rw [hrest, ← List.append_assoc, hbytes, List.append_assoc, List.singleton_append]

/-- Text without replacement characters was decoded from its encoding. -/
theorem encode_decode (hclean : replacement ∉ decode bytes) : encode (decode bytes) = bytes :=
  Pending.idle.encode_run hclean

theorem encode_of_ascii {text : List Char} (hascii : ∀ char ∈ text, char.toNat < 128) :
    encode text = text.map fun char ↦ UInt8.ofNat char.toNat := by
  induction text with
  | nil => rfl
  | cons char rest ih =>
    have hone : char.val.toNat ≤ 0x7F := Nat.le_of_lt_succ (hascii char List.mem_cons_self)
    have hencode : encode (char :: rest) = String.utf8EncodeChar char ++ encode rest := rfl
    rw [hencode, ih fun other hother ↦ hascii other (List.mem_cons_of_mem _ hother),
      String.utf8EncodeChar, if_pos hone]
    rfl

def byteOrderMark : Char := '\uFEFF'

/-- Decoding that drops one leading byte order mark. -/
def decodeUnmarked (bytes : List UInt8) : List Char :=
  match decode bytes with
  | [] => []
  | char :: rest => if char = byteOrderMark then rest else char :: rest

/-- Text without replacement characters was decoded from its encoding, marked or not. -/
theorem decodeUnmarked_eq_iff {text : List Char} (hclean : replacement ∉ text)
    (hunmarked : byteOrderMark ∉ text) :
    decodeUnmarked bytes = text ↔ bytes = encode text ∨ bytes = encode (byteOrderMark :: text) := by
  constructor
  · intro hdecode
    unfold decodeUnmarked at hdecode
    split at hdecode
    · next hempty =>
      refine .inl ?_
      rw [← hdecode, ← hempty, encode_decode (by simp [hempty])]
    · next char rest hchars =>
      split_ifs at hdecode with hmark
      · refine .inr ?_
        rw [← hdecode, ← hmark, ← hchars, encode_decode]
        rw [hchars, hmark, hdecode, List.mem_cons, not_or]
        exact ⟨by decide, hclean⟩
      · refine .inl ?_
        rw [← hdecode, ← hchars, encode_decode]
        rwa [hchars, hdecode]
  · rintro (rfl | rfl)
    · unfold decodeUnmarked
      rw [decode_encode]
      cases text with
      | nil => rfl
      | cons char rest =>
        have hmark : char ≠ byteOrderMark := by
          rintro rfl
          exact hunmarked List.mem_cons_self
        exact if_neg hmark
    · unfold decodeUnmarked
      rw [decode_encode]
      exact if_pos rfl

end Mosey.Library.Utf8

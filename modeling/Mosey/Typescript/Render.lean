import Mosey.Timestamps
import Mosey.Typescript.WalletDelegation
import Mosey.Wallet.Delegation

/-!
# Both clients sign the same bytes

The two base58 loops, the two renderings of capabilities and the two ways of dropping fractions of a
second agree, and a text of ASCII characters is encoded byte by byte.
-/

namespace Mosey.Typescript

open Library

def IsAscii (text : JSString) : Prop := ∀ char ∈ text, char.toNat < 128

instance (text : JSString) : Decidable (IsAscii text) := List.decidableBAll _ text

/-- The bytes of an ASCII text. -/
def toBytes (text : JSString) : Bytes := text.map fun char ↦ UInt8.ofNat char.toNat

theorem toBytes_append (first second : JSString) :
    toBytes (first ++ second) = toBytes first ++ toBytes second :=
  List.map_append

theorem isAscii_append {first second : JSString} :
    IsAscii (first ++ second) ↔ IsAscii first ∧ IsAscii second :=
  List.forall_mem_append

theorem encode_eq_toBytes {text : JSString} (hascii : IsAscii text) :
    Utf8.encode text = toBytes text :=
  Utf8.encode_of_ascii hascii

/-- The loop writes the digits of the value in base 58. -/
theorem encodeLoop_eq (n : ℕ) (out : JSString) :
    encodeLoop n out = ((Nat.digits 58 n).map (b58Alphabet.getD · '1')).reverse ++ out := by
  fun_induction encodeLoop n out with
  | case1 out => simp
  | case2 n out hne ih =>
    rw [ih, Nat.digits_def' (by decide) (Nat.pos_of_ne_zero hne)]
    simp

theorem prependOnes_eq (bytes : Bytes) (out : JSString) :
    prependOnes bytes out = List.replicate (bytes.takeWhile (· = 0)).length '1' ++ out := by
  induction bytes generalizing out with
  | nil => rfl
  | cons byte rest ih =>
    unfold prependOnes
    by_cases hzero : byte = 0
    · rw [if_neg (not_not.mpr hzero), ih, List.takeWhile_cons_of_pos (by simpa using hzero),
        List.length_cons, List.replicate_succ', List.append_assoc, List.singleton_append]
    · rw [if_pos hzero, List.takeWhile_cons_of_neg (by simpa using hzero)]
      rfl

theorem foldl_eq_bytesValue (bytes : Bytes) :
    bytes.foldl (fun n byte ↦ n * 256 + byte.toNat) 0 = Wallet.bytesValue bytes := by
  induction bytes using List.reverseRecOn with
  | nil => rfl
  | append_singleton bytes byte ih =>
    rw [List.foldl_append, ih]
    simp [Wallet.bytesValue, Nat.ofDigits_cons, Nat.mul_comm, Nat.add_comm]

theorem mem_alphabet {index : ℕ} (hindex : index < 58) : b58Alphabet.getD index '1' ∈ b58Alphabet := by
  have hall : ∀ index : Fin 58, b58Alphabet.getD index '1' ∈ b58Alphabet := by decide
  exact hall ⟨index, hindex⟩

theorem isAscii_alphabet : IsAscii b58Alphabet := by decide

theorem toBytes_digit {digit : ℕ} (hdigit : digit < 58) :
    UInt8.ofNat (b58Alphabet.getD digit '1').toNat = Wallet.base58Digit digit := by
  have hall : ∀ digit : Fin 58,
      UInt8.ofNat (b58Alphabet.getD digit '1').toNat = Wallet.base58Digit digit := by
    decide
  exact hall ⟨digit, hdigit⟩

/-- The digits of the value behind a one for each leading zero byte. -/
theorem base58Encode_eq (bytes : Bytes) :
    base58Encode bytes =
      let out := List.replicate (bytes.takeWhile (· = 0)).length '1' ++
        ((Nat.digits 58 (Wallet.bytesValue bytes)).map (b58Alphabet.getD · '1')).reverse
      if out = [] then ['1'] else out := by
  unfold base58Encode
  dsimp only
  rw [prependOnes_eq, encodeLoop_eq, foldl_eq_bytesValue, List.append_nil]

theorem isAscii_base58Encode (bytes : Bytes) : IsAscii (base58Encode bytes) := by
  rw [base58Encode_eq]
  dsimp only
  split_ifs
  · decide
  · apply isAscii_append.mpr
    constructor
    · intro char hchar
      rw [List.eq_of_mem_replicate hchar]
      decide
    · intro char hchar
      obtain ⟨digit, hdigit, rfl⟩ := List.mem_map.mp (List.mem_reverse.mp hchar)
      exact isAscii_alphabet _ (mem_alphabet (Nat.digits_lt_base (by decide) hdigit))

/-- The two base58 encoders agree. -/
theorem toBytes_base58Encode (bytes : Bytes) :
    toBytes (base58Encode bytes) = Wallet.base58Encode bytes := by
  have hout : toBytes (List.replicate (bytes.takeWhile (· = 0)).length '1' ++
      ((Nat.digits 58 (Wallet.bytesValue bytes)).map (b58Alphabet.getD · '1')).reverse) =
      ((Nat.digits 58 (Wallet.bytesValue bytes)).map Wallet.base58Digit ++
        (bytes.takeWhile (· = 0)).map fun _ ↦ Wallet.base58Digit 0).reverse := by
    rw [List.reverse_append, List.map_const', List.reverse_replicate, toBytes_append]
    congr 1
    · exact List.map_replicate
    · rw [toBytes, List.map_reverse, List.map_map]
      congr 1
      apply List.map_congr_left
      intro digit hdigit
      exact toBytes_digit (Nat.digits_lt_base (by decide) hdigit)
  rw [base58Encode_eq, Wallet.base58Encode]
  dsimp only
  rw [← hout]
  generalize List.replicate (bytes.takeWhile (· = 0)).length '1' ++
      ((Nat.digits 58 (Wallet.bytesValue bytes)).map (b58Alphabet.getD · '1')).reverse = out
  cases out with
  | nil => rfl
  | cons char rest =>
    rw [if_neg (List.cons_ne_nil _ _)]
    exact (if_neg (List.cons_ne_nil _ _)).symm

/-- Client and server write capabilities alike. -/
theorem capsToString_eq {caps : ℕ} (hcaps : caps < 8) :
    capsToString caps = (Wallet.Caps.string (BitVec.ofNat 8 caps)).toList := by
  have hall : ∀ caps : Fin 8, capsToString caps = (Wallet.Caps.string (BitVec.ofNat 8 caps)).toList := by
    decide +kernel
  exact hall ⟨caps, hcaps⟩

theorem isAscii_capsToString {caps : ℕ} (hcaps : caps < 8) : IsAscii (capsToString caps) := by
  have hall : ∀ caps : Fin 8, IsAscii (capsToString caps) := by decide +kernel
  exact hall ⟨caps, hcaps⟩

/-- The fraction of a second in front of the zone is cut out. -/
theorem replaceFraction_append {first second third : Char} (before : JSString)
    (hfirst : first.isDigit = true) (hsecond : second.isDigit = true) (hthird : third.isDigit = true) :
    replaceFraction (before ++ ['.', first, second, third, 'Z']) = before ++ ['Z'] := by
  simp [replaceFraction, hfirst, hsecond, hthird]

theorem exists_fraction (clock : ℕ) : ∃ first second third : Char,
    (appendInt (clock % 1000) 3).toList = [first, second, third] ∧
      first.isDigit = true ∧ second.isDigit = true ∧ third.isDigit = true := by
  have hlength : (appendInt (clock % 1000) 3).toList.length = 3 := by
    rw [← length_ascii]
    exact length_appendInt (by decide) (Nat.mod_lt _ (by decide))
  have hdigits := isDigit_appendInt (clock % 1000) 3
  obtain ⟨first, second, third, hchars⟩ := List.length_eq_three.mp hlength
  rw [hchars] at hdigits
  exact ⟨first, second, third, hchars, by simpa using hdigits⟩

/-- Instants of years with four digits are far inside the times that a `Date` can hold. -/
theorem days_of_fourDigitYear {days : ℤ}
    (hyear : 0 ≤ (dateOfDays days).year ∧ (dateOfDays days).year ≤ 9999) :
    -800000 ≤ days ∧ days ≤ 3000000 := by
  obtain ⟨year, day, hdate, hday, _, hdays⟩ := dateOfDays_eq days
  rw [hdate] at hyear
  unfold dateFromMarch at hyear
  unfold eraYearStart at hdays
  dsimp only at hyear
  split_ifs at hyear <;> omega

/-- Milliseconds as nanoseconds. -/
def timeOf (milliseconds : ℤ) : Time := milliseconds * 1000000

/-- Milliseconds are cut to seconds towards the past. -/
theorem unix_timeOf (milliseconds : ℤ) : (timeOf milliseconds).unix = milliseconds / 1000 := by
  unfold timeOf Time.unix nanosPerSecond
  omega

/-- The two ways of writing an instant agree. -/
theorem formatTime_eq {milliseconds : ℤ} (hyear : (timeOf milliseconds).FourDigitYear) :
    formatTime milliseconds = some (formatRFC3339 (timeOf milliseconds)).toList := by
  unfold Time.FourDigitYear at hyear
  rw [unix_timeOf] at hyear
  have hdays := days_of_fourDigitYear hyear
  have hday : milliseconds / 1000 / 86400 = milliseconds / 86400000 := by omega
  have hclock : (milliseconds / 1000 % 86400).toNat = (milliseconds % 86400000).toNat / 1000 := by omega
  unfold formatTime toISOString formatRFC3339
  rw [if_neg (by omega)]
  dsimp only
  rw [unix_timeOf, hclock, hday, Option.map_some]
  rw [hday] at hyear
  generalize dateOfDays (milliseconds / 86400000) = date at hyear ⊢
  generalize (milliseconds % 86400000).toNat = clock
  have hsign : ¬ date.year < 0 := by omega
  have hhour : clock / 1000 / 3600 = clock / 3600000 := Nat.div_div_eq_div_mul _ _ _
  have hminute : clock / 1000 / 60 % 60 = clock / 60000 % 60 := by rw [Nat.div_div_eq_div_mul]
  obtain ⟨first, second, third, hfraction, hdigits⟩ := exists_fraction clock
  rw [if_pos hyear, if_neg hsign, hhour, hminute, String.toList_append, String.toList_append,
    String.toList_append, hfraction, List.append_assoc, List.append_assoc, Option.some.injEq]
  exact (replaceFraction_append _ hdigits.1 hdigits.2.1 hdigits.2.2).trans (by simp)

theorem isAscii_appendInt (value width : ℕ) : IsAscii (appendInt value width).toList := by
  intro char hchar
  have hdigit := isDigit_appendInt value width char hchar
  have hbounds : 48 ≤ char.toNat ∧ char.toNat ≤ 57 := by
    simpa [Char.isDigit, UInt32.le_iff_toNat_le] using hdigit
  omega

theorem isAscii_formatRFC3339 (instant : Time) : IsAscii (formatRFC3339 instant).toList := by
  have hseparators : IsAscii "-".toList ∧ IsAscii "T".toList ∧ IsAscii ":".toList ∧
      IsAscii "Z".toList ∧ IsAscii "".toList := by decide
  unfold formatRFC3339
  dsimp only
  simp only [String.toList_append, isAscii_append, isAscii_appendInt, hseparators, and_true]
  split_ifs
  · exact hseparators.1
  · exact hseparators.2.2.2.2

/-- The record that a client makes of instants which it formatted. -/
def Fields.ofWallet (fields : Wallet.Fields) : Fields :=
  ⟨fields.sessionID, fields.delegator, fields.delegate, fields.caps.toNat,
    (formatRFC3339 fields.notBefore).toList, (formatRFC3339 fields.notAfter).toList, fields.nonce⟩

/-- The lines of a delegation are ASCII if its timestamps are. -/
theorem isAscii_lines {fields : Fields} (hcaps : fields.caps < 8) (hnotBefore : IsAscii fields.notBefore)
    (hnotAfter : IsAscii fields.notAfter) : ∀ line ∈ fields.lines, IsAscii line := by
  have hkeys : IsAscii contentHeader ∧ IsAscii "session: ".toList ∧ IsAscii "delegator: ".toList ∧
      IsAscii "delegate: ".toList ∧ IsAscii "caps: ".toList ∧ IsAscii "not-before: ".toList ∧
      IsAscii "not-after: ".toList ∧ IsAscii "nonce: ".toList ∧ IsAscii [] := by decide
  have hcapsText := isAscii_capsToString hcaps
  simp only [Fields.lines, List.forall_mem_cons, isAscii_append, isAscii_base58Encode, hkeys, hcapsText,
    hnotBefore, hnotAfter, true_and]
  simp

theorem isAscii_joinLines {lines : List JSString} (hlines : ∀ line ∈ lines, IsAscii line) :
    IsAscii (['\n'].intercalate lines) := by
  have hnewline : IsAscii ['\n'] := by decide
  exact forall_mem_intercalate hnewline hlines

/-- Lines of ASCII are encoded byte by byte. -/
theorem renderContent_eq_toBytes {fields : Fields} (hlines : ∀ line ∈ fields.lines, IsAscii line) :
    renderContent fields = [10].intercalate (fields.lines.map toBytes) := by
  rw [renderContent, encode_eq_toBytes (isAscii_joinLines hlines)]
  exact map_intercalate _ _ _

/-- The client renders a record as the Go package renders the fields that it came from. -/
theorem renderContent_ofWallet {fields : Wallet.Fields} (hcaps : fields.caps.toNat < 8) :
    renderContent (.ofWallet fields) = fields.render := by
  have hnotBefore : IsAscii (Fields.ofWallet fields).notBefore := by
    dsimp only [Fields.ofWallet]
    exact isAscii_formatRFC3339 fields.notBefore
  have hnotAfter : IsAscii (Fields.ofWallet fields).notAfter := by
    dsimp only [Fields.ofWallet]
    exact isAscii_formatRFC3339 fields.notAfter
  have hlines := @isAscii_lines (.ofWallet fields) hcaps hnotBefore hnotAfter
  have hcapsText : toBytes (capsToString fields.caps.toNat) = ascii fields.caps.string := by
    rw [capsToString_eq hcaps, BitVec.ofNat_toNat]
    rfl
  rw [renderContent_eq_toBytes hlines, Wallet.Fields.render, Wallet.join]
  simp only [Fields.lines, Fields.ofWallet, List.map_cons, List.map_nil, toBytes_append,
    toBytes_base58Encode, hcapsText]
  rfl

/-- **The bytes to sign.** With timestamps of its own making the client renders the same bytes as the Go
package, for all keys and nonces, all capabilities and all instants of years with four digits. -/
theorem renderContent_eq_render (session delegator delegate nonce : Bytes) {caps : ℕ} (hcaps : caps < 8)
    {notBefore notAfter : ℤ} (hnotBefore : (timeOf notBefore).FourDigitYear)
    (hnotAfter : (timeOf notAfter).FourDigitYear) :
    ∃ notBeforeText notAfterText, formatTime notBefore = some notBeforeText ∧
      formatTime notAfter = some notAfterText ∧
      renderContent ⟨session, delegator, delegate, caps, notBeforeText, notAfterText, nonce⟩ =
        Wallet.Fields.render ⟨session, delegator, delegate, BitVec.ofNat 8 caps, timeOf notBefore,
          timeOf notAfter, nonce⟩ := by
  refine ⟨_, _, formatTime_eq hnotBefore, formatTime_eq hnotAfter, ?_⟩
  have hbits : (BitVec.ofNat 8 caps).toNat = caps := by
    rw [BitVec.toNat_ofNat, Nat.mod_eq_of_lt (by omega)]
  rw [← renderContent_ofWallet (by rwa [hbits])]
  simp only [Fields.ofWallet, hbits]

theorem renderContent_leapDay : ∃ notBeforeText notAfterText,
    formatTime 951827696789 = some notBeforeText ∧ formatTime 951914096999 = some notAfterText ∧
      renderContent ⟨List.replicate 32 0, 0 :: List.replicate 31 7, List.replicate 32 9, 5,
          notBeforeText, notAfterText, List.replicate 16 3⟩ =
        Wallet.Fields.render ⟨List.replicate 32 0, 0 :: List.replicate 31 7, List.replicate 32 9, 5,
          timeOf 951827696789, timeOf 951914096999, List.replicate 16 3⟩ :=
  renderContent_eq_render _ _ _ _ (by decide) (by decide +kernel) (by decide +kernel)

end Mosey.Typescript

import Mosey.Typescript.Render
import Mosey.Wallet.Canonical

/-!
# Where the two parsers agree

The client's parser accepts what it can render with timestamps of the right shape, marked with a byte
order mark or not. The Go package's parser accepts only timestamps that it renders itself. So they agree
on every text but those with a mark and those whose timestamps have the shape of one and name no instant.
-/

namespace Mosey.Typescript

open Library

theorem ofNat_toNat_inj {first second : Char} (hfirst : first.toNat < 128) (hsecond : second.toNat < 128) :
    UInt8.ofNat first.toNat = UInt8.ofNat second.toNat ↔ first = second := by
  constructor
  · intro hbytes
    have hvalues := congrArg UInt8.toNat hbytes
    rw [Utf8.toNat_ofNat (by omega), Utf8.toNat_ofNat (by omega)] at hvalues
    rw [← Char.ofNat_toNat first, hvalues, Char.ofNat_toNat]
  · rintro rfl
    rfl

theorem toBytes_inj {first second : JSString} (hfirst : IsAscii first) (hsecond : IsAscii second)
    (hbytes : toBytes first = toBytes second) : first = second := by
  induction first generalizing second with
  | nil => exact (List.map_eq_nil_iff.mp hbytes.symm).symm
  | cons char rest ih =>
    obtain ⟨other, others, rfl, hchar, hrest⟩ := List.map_eq_cons_iff.mp hbytes.symm
    obtain ⟨hfirstChar, hfirstRest⟩ := List.forall_mem_cons.mp hfirst
    obtain ⟨hsecondChar, hsecondRest⟩ := List.forall_mem_cons.mp hsecond
    rw [(ofNat_toNat_inj hsecondChar hfirstChar).mp hchar, ih hfirstRest hsecondRest hrest.symm]

variable {text : JSString} {bytes : Bytes} {fields : Fields} {content : Bytes}

theorem idxOf?_toBytes {char : Char} (hascii : IsAscii text) (hchar : char.toNat < 128) :
    (toBytes text).idxOf? (UInt8.ofNat char.toNat) = text.idxOf? char := by
  induction text with
  | nil => rfl
  | cons first rest ih =>
    obtain ⟨hfirst, hrest⟩ := List.forall_mem_cons.mp hascii
    have hequal : (UInt8.ofNat first.toNat == UInt8.ofNat char.toNat) = (first == char) := by
      rw [beq_eq_decide, beq_eq_decide, decide_eq_decide]
      exact ofNat_toNat_inj hfirst hchar
    rw [toBytes, List.map_cons, List.idxOf?_cons, List.idxOf?_cons, hequal]
    exact congrArg _ (congrArg _ (ih hrest))

/-- Both sides look a character up in one alphabet. -/
theorem idxOf?_alphabet (char : Char) :
    b58Alphabet.idxOf? char = if char.toNat < 128 then
      Wallet.base58Alphabet.idxOf? (UInt8.ofNat char.toNat) else none := by
  split_ifs with hchar
  · exact (idxOf?_toBytes isAscii_alphabet hchar).symm
  · rw [List.idxOf?_eq_none_iff]
    intro hmem
    exact hchar (isAscii_alphabet char hmem)

/-- The decoding loops agree, and the client's stops at characters beyond ASCII. -/
theorem base58Value_eq_ok {n : ℕ} :
    base58Value text = .ok n ↔ IsAscii text ∧ Wallet.base58Value (toBytes text) = .ok n := by
  unfold base58Value Wallet.base58Value
  generalize 0 = start
  induction text generalizing start with
  | nil => simp [IsAscii, toBytes, pure, Except.pure]
  | cons char rest ih =>
    have hcons : IsAscii (char :: rest) ↔ char.toNat < 128 ∧ IsAscii rest := List.forall_mem_cons
    rw [List.foldlM_cons, idxOf?_alphabet, hcons]
    by_cases hascii : char.toNat < 128
    · rw [if_pos hascii, toBytes, List.map_cons, List.foldlM_cons]
      cases hindex : Wallet.base58Alphabet.idxOf? (UInt8.ofNat char.toNat) with
      | none => simp [bind, Except.bind]
      | some index =>
        simp only [bind, Except.bind, hascii, true_and]
        exact ih _
    · simp [hascii, bind, Except.bind]

/-- The loop of the client writes the bytes of the value. -/
theorem decodeLoop_eq (n : ℕ) (bytes : Bytes) : decodeLoop n bytes = Wallet.valueBytes n ++ bytes := by
  fun_induction decodeLoop n bytes with
  | case1 bytes => rfl
  | case2 n bytes hne ih =>
    rw [ih, Wallet.valueBytes, Wallet.valueBytes,
      Nat.digits_def' (by decide) (Nat.pos_of_ne_zero hne)]
    simp

/-- A zero byte is put in front for each leading one. -/
theorem prependZeros_eq (text : JSString) (bytes : Bytes) :
    prependZeros text bytes = List.replicate (text.takeWhile (· = '1')).length 0 ++ bytes := by
  induction text generalizing bytes with
  | nil => rfl
  | cons char rest ih =>
    unfold prependZeros
    by_cases hone : char = '1'
    · rw [if_pos hone, ih, List.takeWhile_cons_of_pos (by simpa using hone),
        List.length_cons, List.replicate_succ', List.append_assoc, List.singleton_append]
    · rw [if_neg hone, List.takeWhile_cons_of_neg (by simpa using hone)]
      rfl

theorem length_takeWhile_ones (hascii : IsAscii text) :
    ((toBytes text).takeWhile (· = Wallet.base58Digit 0)).length = (text.takeWhile (· = '1')).length := by
  induction text with
  | nil => rfl
  | cons char rest ih =>
    obtain ⟨hchar, hrest⟩ := List.forall_mem_cons.mp hascii
    have hone : UInt8.ofNat char.toNat = Wallet.base58Digit 0 ↔ char = '1' :=
      ofNat_toNat_inj hchar (by decide)
    rw [toBytes, List.map_cons]
    by_cases heq : char = '1'
    · rw [List.takeWhile_cons_of_pos (by simpa using hone.mpr heq),
        List.takeWhile_cons_of_pos (by simpa using heq), List.length_cons, List.length_cons]
      exact congrArg (· + 1) (ih hrest)
    · rw [List.takeWhile_cons_of_neg (by simpa using fun hbyte ↦ heq (hone.mp hbyte)),
        List.takeWhile_cons_of_neg (by simpa using heq)]
      rfl

/-- The two base58 decoders agree, and the client's refuses characters beyond ASCII. -/
theorem base58Decode_eq_ok :
    base58Decode text = .ok bytes ↔ IsAscii text ∧ Wallet.base58Decode (toBytes text) = .ok bytes := by
  have hbytes (hascii : IsAscii text) (n : ℕ) : prependZeros text (decodeLoop n []) =
      ((toBytes text).takeWhile (· = Wallet.base58Digit 0)).map (fun _ ↦ 0) ++ Wallet.valueBytes n := by
    rw [prependZeros_eq, decodeLoop_eq, List.append_nil, List.map_const', length_takeWhile_ones hascii]
  unfold base58Decode Wallet.base58Decode
  rw [bind_eq_ok]
  constructor
  · rintro ⟨n, hvalue, hresult⟩
    obtain ⟨hascii, hvalue⟩ := base58Value_eq_ok.mp hvalue
    refine ⟨hascii, ?_⟩
    rw [hvalue, ← Except.ok.inj hresult, hbytes hascii]
  · rintro ⟨hascii, hdecode⟩
    split at hdecode
    · cases hdecode
    · next n hvalue =>
      refine ⟨n, base58Value_eq_ok.mpr ⟨hascii, hvalue⟩, ?_⟩
      rw [hbytes hascii, ← Except.ok.inj hdecode]
      rfl

/-- Bytes have one spelling for the client as well. -/
theorem base58Decode_eq_ok_iff (hne : bytes ≠ []) :
    base58Decode text = .ok bytes ↔ text = base58Encode bytes := by
  rw [base58Decode_eq_ok]
  constructor
  · rintro ⟨hascii, hdecode⟩
    apply toBytes_inj hascii (isAscii_base58Encode bytes)
    rw [toBytes_base58Encode, Wallet.base58Encode_base58Decode hdecode hne]
  · rintro rfl
    refine ⟨isAscii_base58Encode bytes, ?_⟩
    rw [toBytes_base58Encode, Wallet.base58Decode_base58Encode hne]

theorem newline_notMem_base58Encode (hne : bytes ≠ []) : '\n' ∉ base58Encode bytes := by
  intro hmem
  apply Wallet.newline_notMem_base58Encode hne
  rw [← toBytes_base58Encode]
  exact List.mem_map_of_mem hmem

section Fields

variable {lines : List JSString} {index : ℕ} {key : String}

/-- A field is what follows its key on its line. -/
theorem value_eq_ok {text : JSString} :
    value lines index key = .ok text ↔ lines.getD index [] = (key ++ ": ").toList ++ text := by
  unfold value
  exact ite_drop_eq_ok

variable {bytes : Bytes}

/-- Bytes of one length, as both keys and nonces are read. -/
theorem sized_eq_ok {size : ℕ} (hsize : 0 < size) (wrongLength : ℕ → DelegationError) :
    ((value lines index key).bind base58Decode >>= fun decoded ↦
      if decoded.length ≠ size then .error (wrongLength decoded.length) else .ok decoded) = .ok bytes ↔
      bytes.length = size ∧ lines.getD index [] = (key ++ ": ").toList ++ base58Encode bytes := by
  rw [bind_eq_ok]
  constructor
  · rintro ⟨decoded, hdecode, hresult⟩
    split_ifs at hresult with hlength
    obtain rfl := Except.ok.inj hresult
    obtain ⟨text, htext, hdecode⟩ := bind_eq_ok.mp hdecode
    have hdecoded := not_not.mp hlength
    rw [base58Decode_eq_ok_iff (Wallet.ne_nil_of_length hdecoded hsize)] at hdecode
    rw [hdecode] at htext
    exact ⟨hdecoded, value_eq_ok.mp htext⟩
  · rintro ⟨hlength, hline⟩
    have hdecode := (base58Decode_eq_ok_iff (Wallet.ne_nil_of_length hlength hsize)).mpr rfl
    refine ⟨bytes, bind_eq_ok.mpr ⟨_, value_eq_ok.mpr hline, hdecode⟩, ?_⟩
    exact if_neg (not_not.mpr hlength)

theorem key32_eq_ok :
    key32 lines index key = .ok bytes ↔ bytes.length = pubkeySize ∧
      lines.getD index [] = (key ++ ": ").toList ++ base58Encode bytes :=
  sized_eq_ok (by decide) (.keyLength key)

theorem parseNonce_eq_ok :
    parseNonce lines = .ok bytes ↔ bytes.length = nonceSize ∧
      lines.getD 8 [] = "nonce: ".toList ++ base58Encode bytes :=
  sized_eq_ok (by decide) .nonceLength

/-- A timestamp is read as it stands if it has the right shape. -/
theorem ts_eq_ok {text : JSString} :
    ts lines index key = .ok text ↔ isTimestamp text = true ∧
      lines.getD index [] = (key ++ ": ").toList ++ text := by
  unfold ts
  rw [bind_eq_ok]
  constructor
  · rintro ⟨found, hvalue, hresult⟩
    split_ifs at hresult with hshape
    obtain rfl := Except.ok.inj hresult
    exact ⟨by simpa using hshape, value_eq_ok.mp hvalue⟩
  · rintro ⟨hshape, hline⟩
    exact ⟨text, value_eq_ok.mpr hline, if_neg (by simp [hshape])⟩

end Fields

/-- Every token sets a bit of the known capabilities. -/
theorem parseCapsToken_le {caps next : ℕ} {token : JSString} (hcaps : caps ≤ AllCaps)
    (htoken : parseCapsToken caps token = .ok next) : next ≤ AllCaps := by
  have hall : ∀ caps : Fin 8, caps.1 ||| CapWrite ≤ AllCaps ∧ caps.1 ||| CapResize ≤ AllCaps ∧
      caps.1 ||| CapForge ≤ AllCaps := by
    decide
  obtain ⟨hwrite, hresize, hforge⟩ := hall ⟨caps, Nat.lt_succ_of_le hcaps⟩
  unfold parseCapsToken at htoken
  split_ifs at htoken
  · rwa [← Except.ok.inj htoken]
  · rwa [← Except.ok.inj htoken]
  · rwa [← Except.ok.inj htoken]

/-- The only text that is read as these capabilities is the one written for them. -/
theorem parseCaps_eq_ok {caps : ℕ} :
    parseCaps text = .ok caps ↔ caps ≤ AllCaps ∧ text = capsToString caps := by
  constructor
  · intro hparse
    unfold parseCaps at hparse
    split_ifs at hparse with hview
    · rw [← Except.ok.inj hparse, hview]
      decide
    · split at hparse
      · cases hparse
      · next parsed hfold =>
        split_ifs at hparse with hcanonical
        obtain rfl := Except.ok.inj hparse
        refine ⟨?_, (not_not.mp hcanonical).symm⟩
        exact foldlM_invariant (fun _ _ _ hcaps htoken ↦ parseCapsToken_le hcaps htoken)
          (Nat.zero_le _) hfold
  · rintro ⟨hcaps, rfl⟩
    have hall : ∀ caps : Fin 8, parseCaps (capsToString caps) = .ok caps.1 := by decide +kernel
    exact hall ⟨caps, Nat.lt_succ_of_le hcaps⟩

theorem newline_notMem_capsToString {caps : ℕ} (hcaps : caps ≤ AllCaps) : '\n' ∉ capsToString caps := by
  have hall : ∀ caps : Fin 8, '\n' ∉ capsToString caps := by decide +kernel
  exact hall ⟨caps, Nat.lt_succ_of_le hcaps⟩

/-- Every character of a matching text is admitted somewhere in the pattern. -/
theorem exists_of_matchesPattern {pattern : List (Char → Bool)}
    (hmatches : matchesPattern pattern text = true) :
    ∀ char ∈ text, ∃ admits ∈ pattern, admits char = true := by
  fun_induction matchesPattern pattern text with
  | case1 => simp
  | case2 admits pattern char text ih =>
    rw [Bool.and_eq_true] at hmatches
    intro other hother
    rcases List.mem_cons.mp hother with rfl | hother
    · exact ⟨admits, List.mem_cons_self, hmatches.1⟩
    · obtain ⟨found, hfound, hadmits⟩ := ih hmatches.2 other hother
      exact ⟨found, List.mem_cons_of_mem _ hfound, hadmits⟩
  | case3 => cases hmatches

def isPrintable (char : Char) : Prop := 32 ≤ char.toNat ∧ char.toNat < 128

theorem isPrintable_of_digits {count : ℕ} :
    ∀ admits ∈ digits count, ∀ char, admits char = true → isPrintable char := by
  intro admits hadmits char hmatch
  rw [List.eq_of_mem_replicate hadmits] at hmatch
  have hbounds : 48 ≤ char.toNat ∧ char.toNat ≤ 57 := by
    simpa [Char.isDigit, UInt32.le_iff_toNat_le] using hmatch
  unfold isPrintable
  omega

theorem isPrintable_of_literal {expected : Char} (hexpected : isPrintable expected) :
    ∀ admits ∈ literal expected, ∀ char, admits char = true → isPrintable char := by
  intro admits hadmits char hmatch
  rw [List.mem_singleton.mp hadmits, decide_eq_true_eq] at hmatch
  rwa [hmatch]

theorem isPrintable_of_isTimestamp (hshape : isTimestamp text = true) :
    ∀ char ∈ text, isPrintable char := by
  have hpattern : ∀ admits ∈ timestampPattern, ∀ char, admits char = true → isPrintable char := by
    have hseparators : isPrintable '-' ∧ isPrintable 'T' ∧ isPrintable ':' ∧ isPrintable 'Z' := by
      unfold isPrintable
      decide
    simp only [timestampPattern, List.forall_mem_append, and_assoc]
    exact ⟨isPrintable_of_digits, isPrintable_of_literal hseparators.1, isPrintable_of_digits,
      isPrintable_of_literal hseparators.1, isPrintable_of_digits,
      isPrintable_of_literal hseparators.2.1, isPrintable_of_digits,
      isPrintable_of_literal hseparators.2.2.1, isPrintable_of_digits,
      isPrintable_of_literal hseparators.2.2.1, isPrintable_of_digits,
      isPrintable_of_literal hseparators.2.2.2⟩
  intro char hchar
  obtain ⟨admits, hadmits, hmatch⟩ := exists_of_matchesPattern hshape char hchar
  exact hpattern admits hadmits char hmatch

theorem matchesPattern_digits {chars text : JSString} (pattern : List (Char → Bool))
    (hdigits : ∀ char ∈ chars, char.isDigit = true) :
    matchesPattern (digits chars.length ++ pattern) (chars ++ text) = matchesPattern pattern text := by
  induction chars with
  | nil => rfl
  | cons char rest ih =>
    obtain ⟨hchar, hrest⟩ := List.forall_mem_cons.mp hdigits
    change (char.isDigit && matchesPattern (digits rest.length ++ pattern) (rest ++ text)) = _
    rw [hchar, Bool.true_and, ih hrest]

theorem matchesPattern_appendInt {value width : ℕ} (hwidth : 0 < width) (hvalue : value < 10 ^ width)
    (pattern : List (Char → Bool)) (text : JSString) :
    matchesPattern (digits width ++ pattern) ((appendInt value width).toList ++ text) =
      matchesPattern pattern text := by
  have hlength : (appendInt value width).toList.length = width := by
    rw [← length_ascii]
    exact length_appendInt hwidth hvalue
  have hmatch := @matchesPattern_digits _ text pattern (isDigit_appendInt value width)
  rwa [hlength] at hmatch

theorem matchesPattern_literal (pattern : List (Char → Bool)) (char : Char) (text : JSString) :
    matchesPattern (literal char ++ pattern) ([char] ++ text) = matchesPattern pattern text := by
  change (decide (char = char) && matchesPattern pattern text) = _
  rw [decide_eq_true rfl, Bool.true_and]

/-- The timestamps of years with four digits have the shape. -/
theorem isTimestamp_formatRFC3339 {instant : Time} (hyear : instant.FourDigitYear) :
    isTimestamp (formatRFC3339 instant).toList = true := by
  obtain ⟨_, hmonth, _, hday, _⟩ := dateOfDays_valid (instant.unix / 86400)
  unfold Time.FourDigitYear at hyear
  unfold isTimestamp formatRFC3339
  dsimp only
  generalize dateOfDays (instant.unix / 86400) = date at hyear hmonth hday ⊢
  have hdays := hday.trans (daysIn_le date.month date.year)
  have hsign : ¬ date.year < 0 := by omega
  have hclock : (instant.unix % 86400).toNat < 86400 := by omega
  generalize (instant.unix % 86400).toNat = clock at hclock ⊢
  have hseparators : "".toList = [] ∧ "-".toList = ['-'] ∧ "T".toList = ['T'] ∧ ":".toList = [':'] ∧
      "Z".toList = ['Z'] := ⟨rfl, rfl, rfl, rfl, rfl⟩
  rw [if_neg hsign]
  simp only [timestampPattern, String.toList_append, List.append_assoc, hseparators, List.nil_append]
  rw [matchesPattern_appendInt (by decide) (by omega), matchesPattern_literal,
    matchesPattern_appendInt (by decide) (by omega), matchesPattern_literal,
    matchesPattern_appendInt (by decide) (by omega), matchesPattern_literal,
    matchesPattern_appendInt (by decide) (by omega), matchesPattern_literal,
    matchesPattern_appendInt (by decide) (by omega), matchesPattern_literal,
    matchesPattern_appendInt (by decide) (by omega)]
  rfl

/-- Records that the client's grammar can express. -/
structure Fields.WellShaped (fields : Fields) : Prop where
  session : fields.session.length = pubkeySize
  delegator : fields.delegator.length = pubkeySize
  delegate : fields.delegate.length = pubkeySize
  caps : fields.caps ≤ AllCaps
  notBefore : isTimestamp fields.notBefore = true
  notAfter : isTimestamp fields.notAfter = true
  nonce : fields.nonce.length = nonceSize

theorem Fields.WellShaped.newline_notMem (hshape : fields.WellShaped) :
    ∀ line ∈ fields.lines, '\n' ∉ line := by
  have hkeys : '\n' ∉ contentHeader ∧ '\n' ∉ "session: ".toList ∧ '\n' ∉ "delegator: ".toList ∧
      '\n' ∉ "delegate: ".toList ∧ '\n' ∉ "caps: ".toList ∧ '\n' ∉ "not-before: ".toList ∧
      '\n' ∉ "not-after: ".toList ∧ '\n' ∉ "nonce: ".toList ∧ '\n' ∉ ([] : JSString) := by
    decide
  have hkey {bytes : Bytes} {size : ℕ} (hlength : bytes.length = size) (hsize : 0 < size) :=
    newline_notMem_base58Encode (Wallet.ne_nil_of_length hlength hsize)
  have htimestamp {text : JSString} (hshape : isTimestamp text = true) : '\n' ∉ text := by
    intro hmem
    exact absurd (isPrintable_of_isTimestamp hshape _ hmem).1 (by decide)
  simp only [Fields.lines, List.forall_mem_cons, List.mem_append, hkeys, hkey hshape.session (by decide),
    hkey hshape.delegator (by decide), hkey hshape.delegate (by decide),
    hkey hshape.nonce (by decide), newline_notMem_capsToString hshape.caps,
    htimestamp hshape.notBefore, htimestamp hshape.notAfter, or_self, not_false_eq_true, true_and]
  simp

theorem Fields.WellShaped.isAscii (hshape : fields.WellShaped) : ∀ line ∈ fields.lines, IsAscii line :=
  isAscii_lines (Nat.lt_succ_of_le hshape.caps)
    (fun char hchar ↦ (isPrintable_of_isTimestamp hshape.notBefore char hchar).2)
    fun char hchar ↦ (isPrintable_of_isTimestamp hshape.notAfter char hchar).2

/-- The lines that are read as these fields. -/
theorem parseLines_eq_ok {lines : List JSString} :
    parseLines lines = .ok fields ↔ fields.WellShaped ∧
      lines.getD 2 [] = "session: ".toList ++ base58Encode fields.session ∧
      lines.getD 3 [] = "delegator: ".toList ++ base58Encode fields.delegator ∧
      lines.getD 4 [] = "delegate: ".toList ++ base58Encode fields.delegate ∧
      lines.getD 5 [] = "caps: ".toList ++ capsToString fields.caps ∧
      lines.getD 6 [] = "not-before: ".toList ++ fields.notBefore ∧
      lines.getD 7 [] = "not-after: ".toList ++ fields.notAfter ∧
      lines.getD 8 [] = "nonce: ".toList ++ base58Encode fields.nonce := by
  unfold parseLines
  constructor
  · intro hparse
    obtain ⟨session, hsession, hparse⟩ := bind_eq_ok.mp hparse
    obtain ⟨delegator, hdelegator, hparse⟩ := bind_eq_ok.mp hparse
    obtain ⟨delegate, hdelegate, hparse⟩ := bind_eq_ok.mp hparse
    obtain ⟨caps, hcaps, hparse⟩ := bind_eq_ok.mp hparse
    obtain ⟨notBefore, hstart, hparse⟩ := bind_eq_ok.mp hparse
    obtain ⟨notAfter, hend, hparse⟩ := bind_eq_ok.mp hparse
    obtain ⟨nonce, hnonce, hfields⟩ := bind_eq_ok.mp hparse
    obtain rfl := Except.ok.inj hfields
    obtain ⟨hsessionLength, hsessionLine⟩ := key32_eq_ok.mp hsession
    obtain ⟨hdelegatorLength, hdelegatorLine⟩ := key32_eq_ok.mp hdelegator
    obtain ⟨hdelegateLength, hdelegateLine⟩ := key32_eq_ok.mp hdelegate
    obtain ⟨capsText, hcapsLine, hcaps⟩ := bind_eq_ok.mp hcaps
    obtain ⟨hcapsBound, rfl⟩ := parseCaps_eq_ok.mp hcaps
    obtain ⟨hstartShape, hstartLine⟩ := ts_eq_ok.mp hstart
    obtain ⟨hendShape, hendLine⟩ := ts_eq_ok.mp hend
    obtain ⟨hnonceLength, hnonceLine⟩ := parseNonce_eq_ok.mp hnonce
    exact ⟨⟨hsessionLength, hdelegatorLength, hdelegateLength, hcapsBound, hstartShape, hendShape,
      hnonceLength⟩, hsessionLine, hdelegatorLine, hdelegateLine, value_eq_ok.mp hcapsLine,
      hstartLine, hendLine, hnonceLine⟩
  · rintro ⟨hshape, hsession, hdelegator, hdelegate, hcaps, hstart, hend, hnonce⟩
    refine bind_eq_ok.mpr ⟨_, key32_eq_ok.mpr ⟨hshape.session, hsession⟩, ?_⟩
    refine bind_eq_ok.mpr ⟨_, key32_eq_ok.mpr ⟨hshape.delegator, hdelegator⟩, ?_⟩
    refine bind_eq_ok.mpr ⟨_, key32_eq_ok.mpr ⟨hshape.delegate, hdelegate⟩, ?_⟩
    refine bind_eq_ok.mpr ⟨_, bind_eq_ok.mpr ⟨_, value_eq_ok.mpr hcaps,
      parseCaps_eq_ok.mpr ⟨hshape.caps, rfl⟩⟩, ?_⟩
    refine bind_eq_ok.mpr ⟨_, ts_eq_ok.mpr ⟨hshape.notBefore, hstart⟩, ?_⟩
    refine bind_eq_ok.mpr ⟨_, ts_eq_ok.mpr ⟨hshape.notAfter, hend⟩, ?_⟩
    exact bind_eq_ok.mpr ⟨_, parseNonce_eq_ok.mpr ⟨hshape.nonce, hnonce⟩, rfl⟩

/-- The client accepts the rendered lines of fields of the right shape, and nothing else. -/
theorem parseContent_eq_ok_iff :
    parseContent content = .ok fields ↔ fields.WellShaped ∧
      Utf8.decodeUnmarked content = ['\n'].intercalate fields.lines := by
  have hsplit : split (Utf8.decodeUnmarked content) ['\n'] =
      (Utf8.decodeUnmarked content).splitOn '\n' := splitSkipping_singleton _ _
  unfold parseContent
  rw [hsplit]
  dsimp only
  generalize Utf8.decodeUnmarked content = text
  constructor
  · intro hparse
    split_ifs at hparse with hcount hheader hblank
    obtain ⟨hshape, hsession, hdelegator, hdelegate, hcaps, hnotBefore, hnotAfter, hnonce⟩ :=
      parseLines_eq_ok.mp hparse
    have hlines : text.splitOn '\n' = fields.lines := by
      refine eq_of_getD_eq [] (not_not.mp hcount) fun index hindex ↦ ?_
      have hnine : index < 9 := hindex
      interval_cases index
      exacts [not_not.mp hheader, not_not.mp hblank, hsession, hdelegator, hdelegate, hcaps,
        hnotBefore, hnotAfter, hnonce]
    refine ⟨hshape, ?_⟩
    rw [← hlines, List.intercalate_splitOn]
  · rintro ⟨hshape, rfl⟩
    rw [List.splitOn_intercalate '\n' hshape.newline_notMem (List.cons_ne_nil _ _)]
    have hcount : ¬ fields.lines.length ≠ 9 := not_not.mpr rfl
    have hheader : ¬ fields.lines.getD 0 [] ≠ contentHeader := not_not.mpr rfl
    have hblank : ¬ fields.lines.getD 1 [] ≠ [] := not_not.mpr rfl
    rw [if_neg hcount, if_neg hheader, if_neg hblank]
    exact parseLines_eq_ok.mpr ⟨hshape, rfl, rfl, rfl, rfl, rfl, rfl, rfl⟩

/-- The bytes of a byte order mark. -/
def mark : Bytes := [0xEF, 0xBB, 0xBF]

/-- The client accepts the renderings of well-shaped records, marked or not, and nothing else. -/
theorem parseContent_eq_ok :
    parseContent content = .ok fields ↔ fields.WellShaped ∧
      (content = renderContent fields ∨ content = mark ++ renderContent fields) := by
  rw [parseContent_eq_ok_iff]
  apply and_congr_right
  intro hshape
  have hascii := isAscii_joinLines hshape.isAscii
  have hclean : Utf8.replacement ∉ ['\n'].intercalate fields.lines := by
    intro hmem
    exact absurd (hascii _ hmem) (by decide)
  have hunmarked : Utf8.byteOrderMark ∉ ['\n'].intercalate fields.lines := by
    intro hmem
    exact absurd (hascii _ hmem) (by decide)
  exact Utf8.decodeUnmarked_eq_iff hclean hunmarked

/-! ## Agreement -/

/-- Both parsers refuse the text or both accept it with the same fields. -/
def Agree (content : Bytes) : Prop :=
  match parseContent content, Wallet.parseContent content with
  | .ok fields, .ok walletFields => fields = .ofWallet walletFields
  | .error _, .error _ => True
  | _, _ => False

/-- The text is the timestamp of an instant. -/
def IsInstant (text : JSString) : Prop :=
  ∃ instant : Time, instant.Canonical ∧ text = (formatRFC3339 instant).toList

theorem caps_lt_iff {caps : Wallet.Caps} : caps.subset Wallet.allCaps = true ↔ caps.toNat < 8 := by
  have hall : ∀ caps : Wallet.Caps, caps.subset Wallet.allCaps = true ↔ caps.toNat < 8 := by
    decide +kernel
  exact hall caps

/-- Canonical fields of the server have the shape that the client requires. -/
theorem wellShaped_ofWallet {fields : Wallet.Fields} (hcanonical : fields.Canonical) :
    (Fields.ofWallet fields).WellShaped where
  session := hcanonical.sessionID
  delegator := hcanonical.delegator
  delegate := hcanonical.delegate
  caps := Nat.le_of_lt_succ (caps_lt_iff.mp hcanonical.caps)
  notBefore := by
    dsimp only [Fields.ofWallet]
    exact isTimestamp_formatRFC3339 hcanonical.notBefore.1
  notAfter := by
    dsimp only [Fields.ofWallet]
    exact isTimestamp_formatRFC3339 hcanonical.notAfter.1
  nonce := hcanonical.nonce

/-- What the Go package accepts, the client accepts with the same fields. -/
theorem parseContent_of_wallet {fields : Wallet.Fields}
    (hparse : Wallet.parseContent content = .ok fields) :
    parseContent content = .ok (.ofWallet fields) := by
  obtain ⟨hcanonical, rfl⟩ := Wallet.parseContent_eq_ok.mp hparse
  refine parseContent_eq_ok.mpr ⟨wellShaped_ofWallet hcanonical, .inl ?_⟩
  exact (renderContent_ofWallet (caps_lt_iff.mp hcanonical.caps)).symm

/-- A record whose timestamps name instants is one of the Go package. -/
theorem exists_wallet_fields (hshape : fields.WellShaped) (hnotBefore : IsInstant fields.notBefore)
    (hnotAfter : IsInstant fields.notAfter) :
    ∃ walletFields : Wallet.Fields, walletFields.Canonical ∧ Fields.ofWallet walletFields = fields := by
  obtain ⟨notBefore, hstart, hstartText⟩ := hnotBefore
  obtain ⟨notAfter, hend, hendText⟩ := hnotAfter
  have hcaps : fields.caps < 8 := Nat.lt_succ_of_le hshape.caps
  have hbits : (BitVec.ofNat 8 fields.caps).toNat = fields.caps := by
    rw [BitVec.toNat_ofNat, Nat.mod_eq_of_lt (by omega)]
  refine ⟨⟨fields.session, fields.delegator, fields.delegate, BitVec.ofNat 8 fields.caps, notBefore,
    notAfter, fields.nonce⟩, ⟨⟨hshape.session, hshape.delegator, hshape.delegate,
    caps_lt_iff.mpr (by rwa [hbits]), hshape.nonce⟩, hstart, hend⟩, ?_⟩
  simp only [Fields.ofWallet, hbits, ← hstartText, ← hendText]

/-- A text of the Go package does not start with a byte order mark. -/
theorem render_ne_marked (fields : Wallet.Fields) (rest : Bytes) : fields.render ≠ mark ++ rest := by
  intro heq
  have hhead := congrArg List.head? heq
  cases hhead

/-- The Go package accepts nothing that the client refuses, so they agree where it accepts all that the
client does. -/
theorem agree_iff_accepted :
    Agree content ↔ ∀ fields, parseContent content = .ok fields →
      ∃ walletFields, Wallet.parseContent content = .ok walletFields := by
  unfold Agree
  cases hwallet : Wallet.parseContent content with
  | ok walletFields =>
    rw [parseContent_of_wallet hwallet]
    simp
  | error err =>
    cases hparse : parseContent content with
    | ok | error => simp

/-- **Agreement.** The two parsers agree on a text if and only if it is not one of the client's grammar
behind a byte order mark, nor one whose timestamps name no instant. -/
theorem agree_iff (content : Bytes) :
    Agree content ↔ ∀ fields : Fields, fields.WellShaped →
      content ≠ mark ++ renderContent fields ∧
      (content = renderContent fields → IsInstant fields.notBefore ∧ IsInstant fields.notAfter) := by
  rw [agree_iff_accepted]
  constructor
  · intro haccepted fields hshape
    constructor
    · intro hcontent
      obtain ⟨walletFields, hwallet⟩ :=
        haccepted fields (parseContent_eq_ok.mpr ⟨hshape, .inr hcontent⟩)
      have hrender := (Wallet.parseContent_eq_ok.mp hwallet).2
      exact render_ne_marked walletFields _ (hrender.symm.trans hcontent)
    · intro hcontent
      have hparse := parseContent_eq_ok.mpr ⟨hshape, .inl hcontent⟩
      obtain ⟨walletFields, hwallet⟩ := haccepted fields hparse
      have hcanonical := (Wallet.parseContent_eq_ok.mp hwallet).1
      rw [parseContent_of_wallet hwallet] at hparse
      rw [← Except.ok.inj hparse]
      dsimp only [Fields.ofWallet]
      exact ⟨⟨_, hcanonical.notBefore, rfl⟩, ⟨_, hcanonical.notAfter, rfl⟩⟩
  · intro hcondition fields hparse
    obtain ⟨hshape, hcontent⟩ := parseContent_eq_ok.mp hparse
    obtain ⟨hunmarked, hinstants⟩ := hcondition fields hshape
    have hrender := hcontent.resolve_right hunmarked
    obtain ⟨hnotBefore, hnotAfter⟩ := hinstants hrender
    obtain ⟨walletFields, hcanonical, rfl⟩ := exists_wallet_fields hshape hnotBefore hnotAfter
    rw [renderContent_ofWallet (caps_lt_iff.mp hcanonical.caps)] at hrender
    exact ⟨walletFields, Wallet.parseContent_eq_ok.mpr ⟨hcanonical, hrender⟩⟩

/-- A record of zero keys with these timestamps. -/
def zeroFields (timestamp : String) : Fields :=
  ⟨List.replicate 32 0, List.replicate 32 0, List.replicate 32 0, 0, timestamp.toList,
    timestamp.toList, List.replicate 16 0⟩

/-- The lines of that record after the first. -/
def zeroLines (timestamp : String) : List Bytes :=
  [[], ascii "session: 11111111111111111111111111111111",
    ascii "delegator: 11111111111111111111111111111111",
    ascii "delegate: 11111111111111111111111111111111", ascii "caps: view-only",
    ascii "not-before: " ++ ascii timestamp, ascii "not-after: " ++ ascii timestamp,
    ascii "nonce: 1111111111111111"]

def zeroText (timestamp : String) : Bytes :=
  Wallet.join "\n" (ascii "mosey session authorization v1" :: zeroLines timestamp)

theorem wellShaped_zeroFields {timestamp : String} (hshape : isTimestamp timestamp.toList = true) :
    (zeroFields timestamp).WellShaped :=
  ⟨rfl, rfl, rfl, Nat.zero_le _, hshape, hshape, rfl⟩

theorem zero_keys :
    Wallet.base58Encode (List.replicate 32 0) = ascii "11111111111111111111111111111111" ∧
      Wallet.base58Encode (List.replicate 16 0) = ascii "1111111111111111" := by
  decide

theorem zero_key_lines :
    ascii "session: 11111111111111111111111111111111" =
        ascii ("session" ++ ": ") ++ Wallet.base58Encode (List.replicate 32 0) ∧
      ascii "delegator: 11111111111111111111111111111111" =
        ascii ("delegator" ++ ": ") ++ Wallet.base58Encode (List.replicate 32 0) ∧
      ascii "delegate: 11111111111111111111111111111111" =
        ascii ("delegate" ++ ": ") ++ Wallet.base58Encode (List.replicate 32 0) := by
  rw [zero_keys.1]
  decide +kernel

theorem lines_zeroFields (timestamp : String) : (zeroFields timestamp).lines.map toBytes =
    ascii "mosey session authorization v1" :: zeroLines timestamp := by
  simp only [Fields.lines, zeroFields, zeroLines, List.map_cons, List.map_nil, toBytes_append,
    toBytes_base58Encode, zero_key_lines, zero_keys.2]
  rfl

section Zero

variable {timestamp : String} (hshape : isTimestamp timestamp.toList = true)
include hshape

theorem renderContent_zeroFields : renderContent (zeroFields timestamp) = zeroText timestamp := by
  rw [renderContent_eq_toBytes (wellShaped_zeroFields hshape).isAscii, lines_zeroFields]
  rfl

theorem newline_notMem_zeroText :
    ∀ line ∈ ascii "mosey session authorization v1" :: zeroLines timestamp, 10 ∉ line := by
  intro line hline hmem
  rw [← lines_zeroFields] at hline
  obtain ⟨text, htext, rfl⟩ := List.mem_map.mp hline
  obtain ⟨char, hchar, hbyte⟩ := List.mem_map.mp hmem
  have hascii := (wellShaped_zeroFields hshape).isAscii text htext char hchar
  have hnewline : char = '\n' := (ofNat_toNat_inj hascii (by decide)).mp hbyte
  rw [hnewline] at hchar
  exact (wellShaped_zeroFields hshape).newline_notMem text htext hchar

/-- The Go package refuses a timestamp of the right shape that names no instant. -/
theorem wallet_parseContent_zeroText (htime : parseRFC3339 (ascii timestamp) = none) :
    Wallet.parseContent (zeroText timestamp) = .error (.badTimestamp (ascii timestamp)) := by
  have hsplit := Wallet.split_join_newline (newline_notMem_zeroText hshape) (List.cons_ne_nil _ _)
  unfold Wallet.parseContent zeroText
  rw [hsplit]
  have hcount : ¬ (ascii "mosey session authorization v1" :: zeroLines timestamp).length ≠ 9 :=
    not_not.mpr rfl
  have hheader : ¬ (ascii "mosey session authorization v1" :: zeroLines timestamp).getD 0 [] ≠
      ascii Wallet.contentHeader := not_not.mpr rfl
  have hblank : ¬ (ascii "mosey session authorization v1" :: zeroLines timestamp).getD 1 [] ≠ [] :=
    not_not.mpr rfl
  dsimp only
  rw [if_neg hcount, if_neg hheader, if_neg hblank]
  have hkey (index : ℕ) (name : String) (hline : (ascii "mosey session authorization v1" ::
      zeroLines timestamp).getD index [] =
        ascii (name ++ ": ") ++ Wallet.base58Encode (List.replicate 32 0)) :
      Wallet.key32At (ascii "mosey session authorization v1" :: zeroLines timestamp) index name =
        .ok (List.replicate 32 0) := Wallet.key32At_eq_ok.mpr ⟨rfl, hline⟩
  have hnotBefore : Wallet.parseTime (ascii timestamp) = .error (.badTimestamp (ascii timestamp)) := by
    rw [Wallet.parseTime, htime]
  refine bind_eq_error.mpr (.inr ⟨_, hkey 2 "session" zero_key_lines.1, ?_⟩)
  refine bind_eq_error.mpr (.inr ⟨_, hkey 3 "delegator" zero_key_lines.2.1, ?_⟩)
  refine bind_eq_error.mpr (.inr ⟨_, hkey 4 "delegate" zero_key_lines.2.2, ?_⟩)
  refine bind_eq_error.mpr (.inr ⟨0, bind_eq_ok.mpr
    ⟨ascii "view-only", Wallet.fieldAt_eq_ok.mpr rfl, rfl⟩, ?_⟩)
  exact bind_eq_error.mpr (.inl (bind_eq_error.mpr
    (.inr ⟨_, Wallet.fieldAt_eq_ok.mpr rfl, hnotBefore⟩)))

/-- The Go package refuses a text behind a byte order mark by its first line. -/
theorem wallet_parseContent_marked :
    Wallet.parseContent (mark ++ zeroText timestamp) =
      .error (.badHeader (mark ++ ascii "mosey session authorization v1")) := by
  have hnewline : ∀ line ∈ (mark ++ ascii "mosey session authorization v1") :: zeroLines timestamp,
      10 ∉ line := by
    rw [List.forall_mem_cons]
    exact ⟨by decide, fun line hline ↦ newline_notMem_zeroText hshape line (List.mem_cons_of_mem _ hline)⟩
  have hsplit := Wallet.split_join_newline hnewline (List.cons_ne_nil _ _)
  have hcontent : mark ++ zeroText timestamp = Wallet.join "\n"
      ((mark ++ ascii "mosey session authorization v1") :: zeroLines timestamp) := rfl
  unfold Wallet.parseContent
  have hcount : ¬ ((mark ++ ascii "mosey session authorization v1") :: zeroLines timestamp).length ≠ 9 :=
    not_not.mpr rfl
  have hheader : mark ++ ascii "mosey session authorization v1" ≠ ascii Wallet.contentHeader := by decide
  rw [hcontent, hsplit]
  dsimp only
  rw [if_neg hcount]
  exact if_pos hheader

end Zero

/-- The client accepts a month that there is not, and a text behind a byte order mark. -/
theorem parsers_disagree :
    (parseContent (zeroText "2024-13-45T99:99:99Z") = .ok (zeroFields "2024-13-45T99:99:99Z") ∧
      Wallet.parseContent (zeroText "2024-13-45T99:99:99Z") =
        .error (.badTimestamp (ascii "2024-13-45T99:99:99Z"))) ∧
      parseContent (mark ++ zeroText "2024-12-31T23:59:59Z") = .ok (zeroFields "2024-12-31T23:59:59Z") ∧
      Wallet.parseContent (mark ++ zeroText "2024-12-31T23:59:59Z") =
        .error (.badHeader (mark ++ ascii "mosey session authorization v1")) := by
  have hmonth : isTimestamp "2024-13-45T99:99:99Z".toList = true := by decide
  have hlast : isTimestamp "2024-12-31T23:59:59Z".toList = true := by decide
  refine ⟨⟨?_, wallet_parseContent_zeroText hmonth (by decide)⟩, ?_, wallet_parseContent_marked hlast⟩
  · exact parseContent_eq_ok.mpr
      ⟨wellShaped_zeroFields hmonth, .inl (renderContent_zeroFields hmonth).symm⟩
  · refine parseContent_eq_ok.mpr ⟨wellShaped_zeroFields hlast, .inr ?_⟩
    rw [renderContent_zeroFields hlast]

end Mosey.Typescript

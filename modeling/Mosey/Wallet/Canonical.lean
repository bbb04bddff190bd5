import Mosey.Timestamps
import Mosey.Wallet.Delegation

/-!
# Canonical delegation texts

The parser accepts exactly the texts that `render` writes for fields in their proper ranges. Each part
of a line has one spelling: base58 text without spare ones, capabilities in their order, timestamps in
UTC and without fractions.
-/

namespace Mosey.Wallet

open Library

theorem splitFrom_eq (separator : Bytes) (skip : ℕ) (text : Bytes) :
    splitFrom separator skip text = splitSkipping separator skip text := by
  induction text generalizing skip with
  | nil => cases skip <;> rfl
  | cons byte rest ih =>
    cases skip with
    | succ skip => exact ih skip
    | zero =>
      rw [splitFrom, splitSkipping, ih, ih]
      cases hparts : splitSkipping separator 0 rest with
      | nil => exact absurd hparts (splitSkipping_ne_nil _ _ _)
      | cons head parts => rfl

theorem split_newline (text : Bytes) : split "\n" text = text.splitOn 10 := by
  rw [split, splitFrom_eq]
  exact splitSkipping_singleton 10 text

theorem join_split_newline (text : Bytes) : join "\n" (split "\n" text) = text := by
  rw [split_newline]
  exact List.intercalate_splitOn 10

theorem split_join_newline {parts : List Bytes} (hparts : ∀ part ∈ parts, 10 ∉ part)
    (hne : parts ≠ []) : split "\n" (join "\n" parts) = parts := by
  rw [split_newline]
  exact List.splitOn_intercalate 10 hparts hne

variable {key : String} {text : Bytes} {index : ℕ} {bytes : Bytes} {caps : Caps} {fields : Fields}

/-- A line has a value under a key if it is written that way. -/
theorem fieldAt_eq_ok {lines : List Bytes} :
    fieldAt lines index key = .ok text ↔ lines.getD index [] = ascii (key ++ ": ") ++ text := by
  unfold fieldAt
  exact ite_drop_eq_ok

theorem newline_notMem_of_base58Decode {text bytes : Bytes} (hdecode : base58Decode text = .ok bytes) :
    10 ∉ text := by
  unfold base58Decode at hdecode
  split at hdecode
  · cases hdecode
  · next value hvalue =>
    obtain ⟨digits, hdigits, rfl⟩ := exists_digits_of_base58Value hvalue
    have hall : ∀ digit : Fin 58, base58Digit digit ≠ 10 := by decide
    intro hmem
    obtain ⟨digit, hdigit, hbyte⟩ := List.mem_map.mp (List.mem_reverse.mp hmem)
    exact hall ⟨digit, hdigits digit hdigit⟩ hbyte

theorem newline_notMem_base58Encode (hne : bytes ≠ []) : 10 ∉ base58Encode bytes :=
  newline_notMem_of_base58Decode (base58Decode_base58Encode hne)

theorem ne_nil_of_length {size : ℕ} (hlength : bytes.length = size) (hsize : 0 < size) :
    bytes ≠ [] := by
  apply List.ne_nil_of_length_pos
  rwa [hlength]

/-- Bytes stand in a line if the line spells them in base58. -/
theorem decodeAt_eq_ok {lines : List Bytes} (hne : bytes ≠ []) :
    decodeAt lines index key = .ok bytes ↔
      lines.getD index [] = ascii (key ++ ": ") ++ base58Encode bytes := by
  unfold decodeAt
  constructor
  · intro hdecode
    split at hdecode
    · cases hdecode
    · next text hfield =>
      split at hdecode
      · cases hdecode
      · next decoded htext =>
        rw [Except.ok.inj hdecode] at htext
        rw [fieldAt_eq_ok.mp hfield, base58Encode_base58Decode htext hne]
  · intro hline
    rw [fieldAt_eq_ok.mpr hline]
    dsimp only
    rw [base58Decode_base58Encode hne]

/-- Bytes of one length, as both keys and nonces are read. -/
theorem sizedAt_eq_ok {lines : List Bytes} {index size : ℕ} (hsize : 0 < size)
    (tooLong : ℕ → WalletError) :
    (match decodeAt lines index key with
      | .error err => .error err
      | .ok decoded =>
        if decoded.length ≠ size then .error (tooLong decoded.length) else .ok decoded :
      Except WalletError Bytes) = .ok bytes ↔
      bytes.length = size ∧ lines.getD index [] = ascii (key ++ ": ") ++ base58Encode bytes := by
  constructor
  · intro hbytes
    split at hbytes
    · cases hbytes
    · next decoded hdecode =>
      split_ifs at hbytes with hlength
      obtain rfl := Except.ok.inj hbytes
      have hdecoded := not_not.mp hlength
      exact ⟨hdecoded, (decodeAt_eq_ok (ne_nil_of_length hdecoded hsize)).mp hdecode⟩
  · rintro ⟨hlength, hline⟩
    rw [(decodeAt_eq_ok (ne_nil_of_length hlength hsize)).mpr hline]
    exact if_neg (not_not.mpr hlength)

/-- The only line that is read as this key is the one written for it. -/
theorem key32At_eq_ok {lines : List Bytes} {name : String} {key : PublicKey} :
    key32At lines index name = .ok key ↔ key.length = publicKeySize ∧
      lines.getD index [] = ascii (name ++ ": ") ++ base58Encode key :=
  sizedAt_eq_ok (by decide) (.keyLength name)

theorem nonceAt_eq_ok {lines : List Bytes} {nonce : Bytes} :
    nonceAt lines = .ok nonce ↔ nonce.length = delegationNonceSize ∧
      lines.getD 8 [] = ascii "nonce: " ++ base58Encode nonce :=
  sizedAt_eq_ok (by decide) .nonceLength

/-- Every token sets a bit of the known capabilities. -/
theorem parseCapsToken_subset {text token : Bytes} {caps result : Caps}
    (htoken : parseCapsToken text caps token = .ok result) (hcaps : caps.subset allCaps = true) :
    result.subset allCaps = true := by
  unfold parseCapsToken at htoken
  split_ifs at htoken
  · rw [← Except.ok.inj htoken]
    exact Caps.subset_or hcaps (by decide)
  · rw [← Except.ok.inj htoken]
    exact Caps.subset_or hcaps (by decide)
  · rw [← Except.ok.inj htoken]
    exact Caps.subset_or hcaps (by decide)

theorem parseCapsLenient_subset {text : List Char} (hparse : parseCapsLenient text = .ok caps) :
    caps.subset allCaps = true := by
  unfold parseCapsLenient at hparse
  split_ifs at hparse
  · rw [← Except.ok.inj hparse]
    decide
  · refine foldlM_invariant (P := fun caps ↦ Caps.subset caps allCaps = true) ?_ (by decide) hparse
    intro state token next hstate hnext
    unfold parseCapsLenientToken at hnext
    dsimp only at hnext
    split_ifs at hnext
    · rwa [← Except.ok.inj hnext]
    · rw [← Except.ok.inj hnext]
      exact Caps.subset_or hstate (by decide)
    · rw [← Except.ok.inj hnext]
      exact Caps.subset_or hstate (by decide)
    · rw [← Except.ok.inj hnext]
      exact Caps.subset_or hstate (by decide)

/-- The only text that is read as these capabilities is the one written for them. -/
theorem parseCaps_eq_ok :
    parseCaps text = .ok caps ↔ caps.subset allCaps = true ∧ text = ascii caps.string := by
  constructor
  · intro hparse
    unfold parseCaps at hparse
    split_ifs at hparse with hview
    · rw [← Except.ok.inj hparse, hview]
      decide
    · split at hparse
      · cases hparse
      · next parsed hfold =>
        split_ifs at hparse with hcanonical
        obtain rfl := Except.ok.inj hparse
        refine ⟨?_, (not_not.mp hcanonical).symm⟩
        exact foldlM_invariant (P := fun caps ↦ Caps.subset caps allCaps = true)
          (fun _ _ _ hcaps htoken ↦ parseCapsToken_subset htoken hcaps) (by decide) hfold
  · rintro ⟨hsubset, rfl⟩
    have hall : ∀ caps : Caps, caps.subset allCaps = true → parseCaps (ascii caps.string) = .ok caps := by
      decide +kernel
    exact hall caps hsubset

theorem newline_notMem_caps (hsubset : caps.subset allCaps = true) : 10 ∉ ascii caps.string := by
  have hall : ∀ caps : Caps, caps.subset allCaps = true → 10 ∉ ascii caps.string := by
    decide +kernel
  exact hall caps hsubset

/-- The only text that is read as this time is the one written for it. -/
theorem parseTime_eq_ok {instant : Time} :
    parseTime text = .ok instant ↔ instant.Canonical ∧ text = renderTime instant := by
  constructor
  · intro hparse
    unfold parseTime at hparse
    split at hparse
    · cases hparse
    · next parsed hparsed =>
      split_ifs at hparse with hcanonical
      obtain rfl := Except.ok.inj hparse
      obtain ⟨hlength, hseconds⟩ := of_parseRFC3339 hparsed
      have hrender := not_not.mp hcanonical
      rw [← hrender] at hlength
      exact ⟨⟨fourDigitYear_of_length hlength, hseconds⟩, hrender.symm⟩
  · rintro ⟨hcanonical, htext⟩
    have hparse : parseRFC3339 (renderTime instant) = some instant := by
      rw [renderTime, parseRFC3339_formatRFC3339 hcanonical.1, hcanonical.unix_mul]
    rw [parseTime, htext, hparse]
    exact if_neg (not_not.mpr rfl)

/-- Keys, capabilities and nonce in the ranges that the grammar can express. -/
structure Fields.Sized (fields : Fields) : Prop where
  sessionID : fields.sessionID.length = publicKeySize
  delegator : fields.delegator.length = publicKeySize
  delegate : fields.delegate.length = publicKeySize
  caps : fields.caps.subset allCaps = true
  nonce : fields.nonce.length = delegationNonceSize

/-- All fields in the ranges that the grammar can express. -/
structure Fields.Canonical (fields : Fields) : Prop extends fields.Sized where
  notBefore : fields.notBefore.Canonical
  notAfter : fields.notAfter.Canonical

/-- The lines that `render` joins. -/
def Fields.lines (fields : Fields) : List Bytes :=
  [ascii contentHeader, [], ascii "session: " ++ base58Encode fields.sessionID,
    ascii "delegator: " ++ base58Encode fields.delegator,
    ascii "delegate: " ++ base58Encode fields.delegate, ascii "caps: " ++ ascii fields.caps.string,
    ascii "not-before: " ++ renderTime fields.notBefore,
    ascii "not-after: " ++ renderTime fields.notAfter, ascii "nonce: " ++ base58Encode fields.nonce]

theorem Fields.render_eq (fields : Fields) : fields.render = join "\n" fields.lines := rfl

theorem Fields.Sized.newline_notMem (hsized : fields.Sized) : ∀ line ∈ fields.lines, 10 ∉ line := by
  have hkeys : 10 ∉ ascii contentHeader ∧ 10 ∉ ascii "session: " ∧ 10 ∉ ascii "delegator: " ∧
      10 ∉ ascii "delegate: " ∧ 10 ∉ ascii "caps: " ∧ 10 ∉ ascii "not-before: " ∧
      10 ∉ ascii "not-after: " ∧ 10 ∉ ascii "nonce: " := by decide
  have hsession := newline_notMem_base58Encode (ne_nil_of_length hsized.sessionID (by decide))
  have hdelegator := newline_notMem_base58Encode (ne_nil_of_length hsized.delegator (by decide))
  have hdelegate := newline_notMem_base58Encode (ne_nil_of_length hsized.delegate (by decide))
  have hnonce := newline_notMem_base58Encode (ne_nil_of_length hsized.nonce (by decide))
  simp [Fields.lines, hkeys, hsession, hdelegator, hdelegate, hnonce, newline_notMem_caps hsized.caps,
    renderTime, newline_notMem_formatRFC3339]

/-- The rendered text is split into its lines. -/
theorem Fields.Sized.split_render (hsized : fields.Sized) :
    split "\n" fields.render = fields.lines := by
  rw [Fields.render_eq]
  exact split_join_newline hsized.newline_notMem (List.cons_ne_nil _ _)

/-- A text determines the keys and the capabilities, whatever its timestamps are. -/
theorem Fields.Sized.render_inj {first second : Fields} (hfirst : first.Sized) (hsecond : second.Sized)
    (hrender : first.render = second.render) :
    first.sessionID = second.sessionID ∧ first.delegator = second.delegator ∧
      first.delegate = second.delegate ∧ first.caps = second.caps := by
  have hlines := hsecond.split_render
  rw [← hrender, hfirst.split_render] at hlines
  have hkey {first second : PublicKey} (hfirst : first.length = publicKeySize)
      (hsecond : second.length = publicKeySize) (hencode : base58Encode first = base58Encode second) :
      first = second := by
    have hdecode := base58Decode_base58Encode (ne_nil_of_length hfirst (by decide))
    rw [hencode, base58Decode_base58Encode (ne_nil_of_length hsecond (by decide))] at hdecode
    exact (Except.ok.inj hdecode).symm
  have hcaps (hstring : ascii first.caps.string = ascii second.caps.string) :
      first.caps = second.caps := by
    have hparse := parseCaps_eq_ok.mpr ⟨hfirst.caps, rfl⟩
    rw [hstring, parseCaps_eq_ok.mpr ⟨hsecond.caps, rfl⟩] at hparse
    exact (Except.ok.inj hparse).symm
  simp only [Fields.lines, List.cons.injEq, List.append_cancel_left_eq] at hlines
  obtain ⟨_, _, hsession, hdelegator, hdelegate, hcapsText, _⟩ := hlines
  exact ⟨hkey hfirst.sessionID hsecond.sessionID hsession,
    hkey hfirst.delegator hsecond.delegator hdelegator,
    hkey hfirst.delegate hsecond.delegate hdelegate, hcaps hcapsText⟩

/-- The lines that are read as these fields. -/
theorem parseLines_eq_ok {lines : List Bytes} :
    parseLines lines = .ok fields ↔ fields.Canonical ∧
      lines.getD 2 [] = ascii "session: " ++ base58Encode fields.sessionID ∧
      lines.getD 3 [] = ascii "delegator: " ++ base58Encode fields.delegator ∧
      lines.getD 4 [] = ascii "delegate: " ++ base58Encode fields.delegate ∧
      lines.getD 5 [] = ascii "caps: " ++ ascii fields.caps.string ∧
      lines.getD 6 [] = ascii "not-before: " ++ renderTime fields.notBefore ∧
      lines.getD 7 [] = ascii "not-after: " ++ renderTime fields.notAfter ∧
      lines.getD 8 [] = ascii "nonce: " ++ base58Encode fields.nonce := by
  unfold parseLines
  constructor
  · intro hparse
    obtain ⟨sessionID, hsession, hparse⟩ := bind_eq_ok.mp hparse
    obtain ⟨delegator, hdelegator, hparse⟩ := bind_eq_ok.mp hparse
    obtain ⟨delegate, hdelegate, hparse⟩ := bind_eq_ok.mp hparse
    obtain ⟨caps, hcaps, hparse⟩ := bind_eq_ok.mp hparse
    obtain ⟨notBefore, hstart, hparse⟩ := bind_eq_ok.mp hparse
    obtain ⟨notAfter, hend, hparse⟩ := bind_eq_ok.mp hparse
    obtain ⟨nonce, hnonce, hfields⟩ := bind_eq_ok.mp hparse
    obtain rfl := Except.ok.inj hfields
    obtain ⟨hsessionLength, hsessionLine⟩ := key32At_eq_ok.mp hsession
    obtain ⟨hdelegatorLength, hdelegatorLine⟩ := key32At_eq_ok.mp hdelegator
    obtain ⟨hdelegateLength, hdelegateLine⟩ := key32At_eq_ok.mp hdelegate
    obtain ⟨capsText, hcapsLine, hcaps⟩ := bind_eq_ok.mp hcaps
    obtain ⟨hsubset, rfl⟩ := parseCaps_eq_ok.mp hcaps
    obtain ⟨startText, hstartLine, hstart⟩ := bind_eq_ok.mp hstart
    obtain ⟨hstartCanonical, hstartText⟩ := parseTime_eq_ok.mp hstart
    obtain ⟨endText, hendLine, hend⟩ := bind_eq_ok.mp hend
    obtain ⟨hendCanonical, hendText⟩ := parseTime_eq_ok.mp hend
    rw [hstartText] at hstartLine
    rw [hendText] at hendLine
    obtain ⟨hnonceLength, hnonceLine⟩ := nonceAt_eq_ok.mp hnonce
    exact ⟨⟨⟨hsessionLength, hdelegatorLength, hdelegateLength, hsubset, hnonceLength⟩,
      hstartCanonical, hendCanonical⟩, hsessionLine, hdelegatorLine, hdelegateLine,
      fieldAt_eq_ok.mp hcapsLine, fieldAt_eq_ok.mp hstartLine, fieldAt_eq_ok.mp hendLine, hnonceLine⟩
  · rintro ⟨hcanonical, hsession, hdelegator, hdelegate, hcaps, hstart, hend, hnonce⟩
    refine bind_eq_ok.mpr ⟨_, key32At_eq_ok.mpr ⟨hcanonical.sessionID, hsession⟩, ?_⟩
    refine bind_eq_ok.mpr ⟨_, key32At_eq_ok.mpr ⟨hcanonical.delegator, hdelegator⟩, ?_⟩
    refine bind_eq_ok.mpr ⟨_, key32At_eq_ok.mpr ⟨hcanonical.delegate, hdelegate⟩, ?_⟩
    refine bind_eq_ok.mpr ⟨_, bind_eq_ok.mpr ⟨_, fieldAt_eq_ok.mpr hcaps,
      parseCaps_eq_ok.mpr ⟨hcanonical.caps, rfl⟩⟩, ?_⟩
    refine bind_eq_ok.mpr ⟨_, bind_eq_ok.mpr ⟨_, fieldAt_eq_ok.mpr hstart,
      parseTime_eq_ok.mpr ⟨hcanonical.notBefore, rfl⟩⟩, ?_⟩
    refine bind_eq_ok.mpr ⟨_, bind_eq_ok.mpr ⟨_, fieldAt_eq_ok.mpr hend,
      parseTime_eq_ok.mpr ⟨hcanonical.notAfter, rfl⟩⟩, ?_⟩
    exact bind_eq_ok.mpr ⟨_, nonceAt_eq_ok.mpr ⟨hcanonical.nonce, hnonce⟩, rfl⟩

/-- The parser accepts the canonical texts and nothing else. -/
theorem parseContent_eq_ok {content : Bytes} :
    parseContent content = .ok fields ↔ fields.Canonical ∧ content = fields.render := by
  constructor
  · intro hparse
    simp only [parseContent] at hparse
    split_ifs at hparse with hcount hheader hblank
    obtain ⟨hcanonical, hsession, hdelegator, hdelegate, hcaps, hstart, hend, hnonce⟩ :=
      parseLines_eq_ok.mp hparse
    have hlines : split "\n" content = fields.lines := by
      refine eq_of_getD_eq [] (not_not.mp hcount) fun index hindex ↦ ?_
      have hnine : index < 9 := hindex
      interval_cases index
      exacts [not_not.mp hheader, not_not.mp hblank, hsession, hdelegator, hdelegate, hcaps, hstart,
        hend, hnonce]
    refine ⟨hcanonical, ?_⟩
    rw [← join_split_newline content, Fields.render_eq, hlines]
  · rintro ⟨hcanonical, rfl⟩
    simp only [parseContent, hcanonical.split_render]
    have hcount : ¬ fields.lines.length ≠ 9 := not_not.mpr rfl
    have hheader : ¬ fields.lines.getD 0 [] ≠ ascii contentHeader := not_not.mpr rfl
    have hblank : ¬ fields.lines.getD 1 [] ≠ [] := not_not.mpr rfl
    rw [if_neg hcount, if_neg hheader, if_neg hblank]
    exact parseLines_eq_ok.mpr ⟨hcanonical, rfl, rfl, rfl, rfl, rfl, rfl, rfl⟩

/-- **Canonical texts.** Rendering and parsing are inverse to each other between the fields in their
ranges and the texts that the parser accepts. -/
theorem parseContent_render_bijection :
    (∀ fields : Fields, fields.Canonical → parseContent fields.render = .ok fields) ∧
      (∀ (content : Bytes) (fields : Fields), parseContent content = .ok fields →
        fields.Canonical ∧ fields.render = content) ∧
      ∀ (first second : Bytes) (fields : Fields), parseContent first = .ok fields →
        parseContent second = .ok fields → first = second := by
  refine ⟨?_, ?_, ?_⟩
  · intro fields hcanonical
    exact parseContent_eq_ok.mpr ⟨hcanonical, rfl⟩
  · intro content fields hparse
    obtain ⟨hcanonical, hcontent⟩ := parseContent_eq_ok.mp hparse
    exact ⟨hcanonical, hcontent.symm⟩
  · intro first second fields hfirst hsecond
    rw [(parseContent_eq_ok.mp hfirst).2, (parseContent_eq_ok.mp hsecond).2]

/-- Keys with leading zero bytes, on a leap day. -/
def leapDayFields : Fields :=
  ⟨List.replicate 32 0, 0 :: List.replicate 31 7, List.replicate 32 9, capWrite ||| capForge,
    951827696 * nanosPerSecond, 951914096 * nanosPerSecond, List.replicate 16 3⟩

theorem parseContent_render_leapDay :
    leapDayFields.Canonical ∧ parseContent leapDayFields.render = .ok leapDayFields := by
  have hcanonical : leapDayFields.Canonical :=
    ⟨⟨by decide, by decide, by decide, by decide, by decide⟩, by decide +kernel, by decide +kernel⟩
  exact ⟨hcanonical, parseContent_render_bijection.1 _ hcanonical⟩

end Mosey.Wallet

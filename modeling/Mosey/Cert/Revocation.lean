import Mosey.Cert
import Mosey.Library.Lists
import Mosey.Library.Results
import Mosey.Library.Strip
import Mosey.Library.Utf8

/-!
# The revocation file

A line of the file is the serial of a revoked certificate, unless it is blank or a comment. A revocation
appends a line. The reader strips white space and stops at lines that are too long, and the writer does
not look at what the file ends with, so that a serial is read back only under conditions.
-/

namespace Mosey.Cert

open Library

def newline : UInt8 := 0x0a
def carriageReturn : UInt8 := 0x0d
/-- The byte `#`. -/
def commentMarker : UInt8 := 0x23

/-- The runes that `unicode.IsSpace` accepts. -/
def spaceRunes : List ℕ :=
  [0x09, 0x0a, 0x0b, 0x0c, 0x0d, 0x20, 0x85, 0xa0, 0x1680, 0x2000, 0x2001, 0x2002, 0x2003, 0x2004, 0x2005,
    0x2006, 0x2007, 0x2008, 0x2009, 0x200a, 0x2028, 0x2029, 0x202f, 0x205f, 0x3000]

def spaces : List Bytes := spaceRunes.map fun rune ↦ String.utf8EncodeChar (Char.ofNat rune)

/-- `strings.TrimSpace`. -/
def trimSpace (text : Bytes) : Bytes := strip spaces text

/-- The size of the scanner's buffer. A line fills it together with the byte behind it. -/
def maxScanTokenSize : ℕ := 64 * 1024

inductive RevocationError
  | emptySerial
  | forbiddenCharacter (serial : Bytes)
  | tokenTooLong
  deriving DecidableEq

def dropCR (line : Bytes) : Bytes := if line.getLast? = some carriageReturn then line.dropLast else line

/-- The serial in a line. -/
def serialOf (line : Bytes) : Option Bytes :=
  let text := trimSpace (dropCR line)
  if text = [] ∨ [commentMarker] <+: text then none else some text

/-- The loop over the lines. -/
def scan : List Bytes → Except RevocationError (List Bytes)
  | [] => .ok []
  | line :: lines =>
    if maxScanTokenSize ≤ line.length then .error .tokenTooLong
    else do
      let serials ← scan lines
      .ok ((serialOf line).toList ++ serials)

def parseRevocationReader (content : Bytes) : Except RevocationError (List Bytes) :=
  scan (content.splitOn newline)

/-- `LoadRevocationFile`; a file that is missing revokes nothing. -/
def loadRevocationFile : Option Bytes → Except RevocationError (List Bytes)
  | none => .ok []
  | some content => parseRevocationReader content

/-- `AppendRevocation`, with the file as it is afterwards. -/
def appendRevocation (file : Option Bytes) (serial : Bytes) : Except RevocationError Bytes :=
  if serial = [] then .error .emptySerial
  else if newline ∈ serial ∨ commentMarker ∈ serial then .error (.forbiddenCharacter serial)
  else .ok (file.getD [] ++ (serial ++ [newline]))

theorem separable_spaces : Separable spaces := by decide +kernel

theorem separable_reverse_spaces : Separable (spaces.map List.reverse) := by decide +kernel

theorem trimSpace_trimSpace (text : Bytes) : trimSpace (trimSpace text) = trimSpace text :=
  strip_idem separable_spaces separable_reverse_spaces text

/-- Blank text in front is trimmed away. -/
theorem trimSpace_append {blank : Bytes} (hblank : trimSpace blank = []) (text : Bytes) :
    trimSpace (blank ++ text) = trimSpace text :=
  strip_append_of_eq_nil separable_spaces separable_reverse_spaces hblank text

theorem stripped_of_trimSpace {text : Bytes} (htrimmed : trimSpace text = text) : Stripped spaces text := by
  have hstripped := stripped_strip separable_spaces separable_reverse_spaces text
  rwa [← trimSpace, htrimmed] at hstripped

/-- The carriage return that the scanner drops is white space, so that trimming is the same without it. -/
theorem trimSpace_dropCR (line : Bytes) : trimSpace (dropCR line) = trimSpace line := by
  rw [dropCR]
  split_ifs with hlast
  · obtain ⟨before, rfl⟩ := List.getLast?_eq_some_iff.mp hlast
    rw [List.dropLast_concat]
    exact (strip_concat separable_spaces separable_reverse_spaces (by decide +kernel) (by decide +kernel)
      before).symm
  · rfl

/-- A comment stays one, whatever is written behind it. -/
theorem comment_append {line : Bytes} (hcomment : [commentMarker] <+: trimSpace line) (more : Bytes) :
    [commentMarker] <+: trimSpace (line ++ more) :=
  begins_strip_append separable_spaces separable_reverse_spaces (by decide +kernel) hcomment more

/-- The text begins with the first byte of a rune, as a text in UTF-8 does. -/
def RuneStart (text : Bytes) : Prop := ∀ byte ∈ text.head?, byte.toNat < 0x80 ∨ 0xc0 ≤ byte.toNat

/-- Behind a line that is not blank a trimmed text stays as it is. -/
theorem trimSpace_append_of_ne_nil {line text : Bytes} (hline : trimSpace line ≠ [])
    (htrimmed : trimSpace text = text) (hne : text ≠ []) (hstart : RuneStart text) :
    trimSpace (line ++ text) = stripLeft spaces 0 line ++ text := by
  obtain ⟨first, others, rfl⟩ := List.exists_cons_of_ne_nil hne
  have htails : ∀ space ∈ spaces, ∀ byte ∈ space.tail, 0x80 ≤ byte.toNat ∧ byte.toNat < 0xc0 := by
    decide +kernel
  refine strip_append_of_stripped separable_spaces (stripped_of_trimSpace htrimmed) ?_ hline
  intro space hspace htail
  have hcontinues := htails space hspace first htail
  have hstarts := hstart first rfl
  omega

/-- A line has a serial unless it is blank or a comment. -/
theorem serialOf_eq (line : Bytes) : serialOf line =
    if trimSpace line = [] ∨ [commentMarker] <+: trimSpace line then none else some (trimSpace line) := by
  rw [serialOf, trimSpace_dropCR]

theorem serialOf_eq_some {line serial : Bytes} : serialOf line = some serial ↔
    trimSpace line = serial ∧ serial ≠ [] ∧ ¬ [commentMarker] <+: serial := by
  rw [serialOf_eq]
  split_ifs with hnone
  · constructor
    · intro hserial
      cases hserial
    · rintro ⟨rfl, hne, hcomment⟩
      exact absurd hnone (not_or.mpr ⟨hne, hcomment⟩)
  · rw [not_or] at hnone
    rw [Option.some.injEq]
    constructor
    · rintro rfl
      exact ⟨rfl, hnone⟩
    · exact And.left

theorem filterMap_serialOf_cons (line : Bytes) (lines : List Bytes) :
    (line :: lines).filterMap serialOf = (serialOf line).toList ++ lines.filterMap serialOf := by
  rw [List.filterMap_cons]
  cases serialOf line <;> rfl

variable {serials : List Bytes}

/-- The scanner succeeds if no line is too long, and then it keeps the serials. -/
theorem scan_eq_ok {lines : List Bytes} :
    scan lines = .ok serials ↔
      (∀ line ∈ lines, line.length < maxScanTokenSize) ∧ serials = lines.filterMap serialOf := by
  induction lines generalizing serials with
  | nil => simp [scan, eq_comm]
  | cons line lines ih =>
    rw [scan]
    split_ifs with hlong
    · constructor
      · intro herror
        cases herror
      · rintro ⟨hshort, -⟩
        exact absurd (hshort line (by simp)) (Nat.not_lt.mpr hlong)
    · rw [bind_eq_ok]
      constructor
      · rintro ⟨others, hothers, hserials⟩
        obtain ⟨hshort, rfl⟩ := ih.mp hothers
        refine ⟨?_, ?_⟩
        · simpa [Nat.lt_of_not_le hlong] using hshort
        · rw [← Except.ok.inj hserials, filterMap_serialOf_cons]
      · rintro ⟨hshort, rfl⟩
        refine ⟨lines.filterMap serialOf,
          ih.mpr ⟨fun other hother ↦ hshort other (by simp [hother]), rfl⟩, ?_⟩
        rw [filterMap_serialOf_cons]

/-- The lines of a file that end, and what stands behind them. -/
def completeLines (content : Bytes) : List Bytes := (content.splitOn newline).dropLast

def lastLine (content : Bytes) : Bytes := (content.splitOn newline).getLast?.getD []

theorem splitOn_append {content more : Bytes} (hmore : newline ∉ more) :
    (content ++ more).splitOn newline = completeLines content ++ [lastLine content ++ more] := by
  obtain ⟨parts, last, hsplit⟩ := exists_splitOn_append newline content
  have hcontent := hsplit [] (by simp)
  rw [List.append_nil] at hcontent
  rw [hsplit more hmore, completeLines, lastLine, hcontent]
  simp

theorem splitOn_append_line {content line : Bytes} (hline : newline ∉ line) :
    (content ++ (line ++ [newline])).splitOn newline =
      completeLines content ++ [lastLine content ++ line, []] := by
  rw [← List.append_assoc, List.splitOn, List.splitOnP_append_cons _ _ (by simp), ← List.splitOn,
    splitOn_append hline]
  simp

/-- The serials in the lines that end. -/
def recorded (content : Bytes) : List Bytes := (completeLines content).filterMap serialOf

/-- Reading the lines that end and one more. -/
theorem scan_concat {content line : Bytes} :
    scan (completeLines content ++ [line]) = .ok serials ↔
      (∀ line ∈ completeLines content, line.length < maxScanTokenSize) ∧
        line.length < maxScanTokenSize ∧ serials = recorded content ++ (serialOf line).toList := by
  rw [scan_eq_ok, List.filterMap_append, filterMap_serialOf_cons, List.filterMap_nil, List.append_nil,
    ← recorded]
  simp [or_imp, forall_and, and_assoc]

/-- What a file without overlong lines records, its last line taken as it stands. -/
theorem parse_eq_ok {content : Bytes} :
    parseRevocationReader content = .ok serials ↔
      (∀ line ∈ completeLines content, line.length < maxScanTokenSize) ∧
        (lastLine content).length < maxScanTokenSize ∧
        serials = recorded content ++ (serialOf (lastLine content)).toList := by
  have hsplit := @splitOn_append content [] (by simp)
  rw [List.append_nil, List.append_nil] at hsplit
  rw [parseRevocationReader, hsplit, scan_concat]

/-- Reading a file after a line was appended to it. -/
theorem parse_append_eq_ok {content serial : Bytes} (hserial : newline ∉ serial) :
    parseRevocationReader (content ++ (serial ++ [newline])) = .ok serials ↔
      (∀ line ∈ completeLines content, line.length < maxScanTokenSize) ∧
        (lastLine content ++ serial).length < maxScanTokenSize ∧
        serials = recorded content ++ (serialOf (lastLine content ++ serial)).toList := by
  have hblank : [([] : Bytes)].filterMap serialOf = [] := by decide +kernel
  have hshort : ∀ line ∈ [([] : Bytes)], line.length < maxScanTokenSize := by decide
  rw [parseRevocationReader, splitOn_append_line hserial, List.append_cons, scan_eq_ok,
    List.filterMap_append, hblank, List.append_nil, ← scan_concat, scan_eq_ok, List.forall_mem_append]
  exact and_congr_left fun _ ↦ and_iff_left hshort

/-! ## What a revocation adds -/

/-- The file can be read after a revocation, and has the revoked serial beside those it had. -/
def Adds (content : Bytes) (serial : Bytes) (loaded : List Bytes) : Prop :=
  ∃ serials, loadRevocationFile (some content) = .ok serials ∧
    ∀ entry, entry ∈ serials ↔ entry ∈ loaded ∨ entry = serial

/-- A line that ends has this text between its white space. -/
def Recorded (content text : Bytes) : Prop := ∃ line ∈ completeLines content, trimSpace line = text

/-- The serial has a line of its own already, and the line that the file ends with is a comment, or its text
before and its text with the serial behind it have lines of their own too. -/
structure Absorbed (content serial : Bytes) : Prop where
  revoked : Recorded content serial
  unfinished : [commentMarker] <+: trimSpace (lastLine content) ∨
    Recorded content (trimSpace (lastLine content)) ∧
      Recorded content (trimSpace (lastLine content ++ serial))

/-- The serial has no white space at its ends, its line is not too long, and the file ends with a
newline, or with blanks, or with a line that makes no difference. -/
structure Clean (content serial : Bytes) : Prop where
  trimmed : trimSpace serial = serial
  short : (lastLine content).length + serial.length < maxScanTokenSize
  fresh : trimSpace (lastLine content) = [] ∨ Absorbed content serial

/-- A serial is recorded if it is the trimmed text of a complete line that is not a comment. -/
theorem mem_recorded {content entry : Bytes} : entry ∈ recorded content ↔
    Recorded content entry ∧ entry ≠ [] ∧ ¬ [commentMarker] <+: entry := by
  simp only [recorded, List.mem_filterMap, serialOf_eq_some, Recorded]
  constructor
  · rintro ⟨line, hline, htext, hentry⟩
    exact ⟨⟨line, hline, htext⟩, hentry⟩
  · rintro ⟨⟨line, hline, htext⟩, hentry⟩
    exact ⟨line, hline, htext, hentry⟩

/-- A serial without newline and comment marker is appended as it is, with a newline after it. -/
theorem appendRevocation_eq_ok {file : Option Bytes} {serial content : Bytes} :
    appendRevocation file serial = .ok content ↔ serial ≠ [] ∧ newline ∉ serial ∧ commentMarker ∉ serial ∧
      content = file.getD [] ++ (serial ++ [newline]) := by
  unfold appendRevocation
  split_ifs with hempty hforbidden
  · simp [hempty]
  · constructor
    · intro herror
      cases herror
    · rintro ⟨-, hnewline, hcomment, -⟩
      exact absurd hforbidden (not_or.mpr ⟨hnewline, hcomment⟩)
  · rw [not_or] at hforbidden
    simp [hempty, hforbidden, eq_comm]

theorem loadRevocationFile_getD {file : Option Bytes} :
    loadRevocationFile file = parseRevocationReader (file.getD []) := by
  cases file with
  | none => decide +kernel
  | some content => rfl

theorem serialOf_ne_some_of_comment {line entry : Bytes} (hcomment : [commentMarker] <+: trimSpace line) :
    serialOf line ≠ some entry := by
  intro hentry
  obtain ⟨rfl, -, hplain⟩ := serialOf_eq_some.mp hentry
  exact hplain hcomment

/-- A line that is a comment, or whose text is in the file already, adds nothing. -/
theorem mem_recorded_of_serialOf {content line entry : Bytes}
    (hline : [commentMarker] <+: trimSpace line ∨ Recorded content (trimSpace line))
    (hentry : serialOf line = some entry) : entry ∈ recorded content := by
  have hrecorded := hline.resolve_left fun hcomment ↦ serialOf_ne_some_of_comment hcomment hentry
  obtain ⟨rfl, hplain⟩ := serialOf_eq_some.mp hentry
  exact mem_recorded.mpr ⟨hrecorded, hplain⟩

/-- Behind a line that is neither blank nor a comment a serial is not read by itself, but as a part of a text
that is longer than it and than what the line had. -/
theorem serialOf_append {line serial : Bytes} (hblank : trimSpace line ≠ [])
    (hcomment : ¬ [commentMarker] <+: trimSpace line) (htrimmed : trimSpace serial = serial)
    (hne : serial ≠ []) (hstart : RuneStart serial) :
    serialOf (line ++ serial) = some (trimSpace (line ++ serial)) ∧
      (trimSpace line).length < (trimSpace (line ++ serial)).length ∧
      serial.length < (trimSpace (line ++ serial)).length := by
  have hjoined := trimSpace_append_of_ne_nil hblank htrimmed hne hstart
  obtain ⟨blanks, -, hleft⟩ := stripLeft_eq_strip_append separable_reverse_spaces line
  rw [hleft, ← trimSpace, List.append_assoc] at hjoined
  have hlength := congrArg List.length hjoined
  rw [List.length_append, List.length_append] at hlength
  have hserial := List.length_pos_iff.mpr hne
  have htext := List.length_pos_iff.mpr hblank
  refine ⟨serialOf_eq_some.mpr ⟨rfl, by simp [hjoined, hne], fun hbegins ↦ hcomment ?_⟩, by omega, by omega⟩
  rw [hjoined] at hbegins
  exact List.prefix_of_prefix_length_le hbegins (List.prefix_append _ _) htext

/-- The file can be read after the revocation unless the last line is too long, and its last line counts with
the serial behind it. -/
theorem adds_append_iff {before serial : Bytes} (hnewline : newline ∉ serial)
    (hcomplete : ∀ line ∈ completeLines before, line.length < maxScanTokenSize) :
    Adds (before ++ (serial ++ [newline])) serial (recorded before ++ (serialOf (lastLine before)).toList) ↔
      (lastLine before).length + serial.length < maxScanTokenSize ∧ ∀ entry,
        entry ∈ recorded before ∨ serialOf (lastLine before ++ serial) = some entry ↔
          (entry ∈ recorded before ∨ serialOf (lastLine before) = some entry) ∨ entry = serial := by
  rw [← List.length_append]
  constructor
  · rintro ⟨serials, hparse, hsame⟩
    obtain ⟨-, hshort, rfl⟩ := (parse_append_eq_ok hnewline).mp hparse
    exact ⟨hshort, by simpa using hsame⟩
  · rintro ⟨hshort, hsame⟩
    exact ⟨_, (parse_append_eq_ok hnewline).mpr ⟨hcomplete, hshort, rfl⟩, by simpa using hsame⟩

section Revocation

variable {file : Option Bytes} {loaded : List Bytes} {serial content : Bytes}

theorem adds_iff (hload : loadRevocationFile file = .ok loaded)
    (happend : appendRevocation file serial = .ok content) :
    Adds content serial loaded ↔
      (lastLine (file.getD [])).length + serial.length < maxScanTokenSize ∧ ∀ entry,
        entry ∈ recorded (file.getD []) ∨ serialOf (lastLine (file.getD []) ++ serial) = some entry ↔
          (entry ∈ recorded (file.getD []) ∨ serialOf (lastLine (file.getD [])) = some entry) ∨
            entry = serial := by
  rw [loadRevocationFile_getD] at hload
  obtain ⟨hcomplete, -, rfl⟩ := parse_eq_ok.mp hload
  obtain ⟨-, hnewline, -, rfl⟩ := appendRevocation_eq_ok.mp happend
  exact adds_append_iff hnewline hcomplete

/-- A clean revocation adds its serial and nothing else. -/
theorem adds_of_clean (hload : loadRevocationFile file = .ok loaded)
    (happend : appendRevocation file serial = .ok content) (hclean : Clean (file.getD []) serial) :
    Adds content serial loaded := by
  obtain ⟨hne, -, hcomment, -⟩ := appendRevocation_eq_ok.mp happend
  rw [adds_iff hload happend]
  refine ⟨hclean.short, fun entry ↦ ?_⟩
  have hplain : ¬ [commentMarker] <+: serial := fun hbegins ↦ hcomment (hbegins.subset (by simp))
  rcases hclean.fresh with hblank | ⟨hrevoked, hunfinished⟩
  · have hbefore : serialOf (lastLine (file.getD [])) = none := by
      rw [serialOf_eq, if_pos (.inl hblank)]
    have hnow : serialOf (lastLine (file.getD []) ++ serial) = some serial := by
      rw [serialOf_eq_some, trimSpace_append hblank]
      exact ⟨hclean.trimmed, hne, hplain⟩
    rw [hbefore, hnow]
    simp [eq_comm]
  · have hbefore : serialOf (lastLine (file.getD [])) = some entry → entry ∈ recorded (file.getD []) :=
      mem_recorded_of_serialOf (hunfinished.imp_right And.left)
    have hnow : serialOf (lastLine (file.getD []) ++ serial) = some entry → entry ∈ recorded (file.getD []) :=
      mem_recorded_of_serialOf (hunfinished.imp (comment_append · serial) And.right)
    have hserial : entry = serial → entry ∈ recorded (file.getD []) := by
      rintro rfl
      exact mem_recorded.mpr ⟨hrevoked, hne, hplain⟩
    constructor
    · exact fun hentry ↦ .inl (.inl (hentry.elim id hnow))
    · exact fun hentry ↦ .inl (hentry.elim (fun hold ↦ hold.elim id hbefore) hserial)

/-- A revocation that adds its serial and nothing else is clean, if the serial begins with a rune. -/
theorem clean_of_adds (hload : loadRevocationFile file = .ok loaded)
    (happend : appendRevocation file serial = .ok content) (hstart : RuneStart serial)
    (hadds : Adds content serial loaded) : Clean (file.getD []) serial := by
  obtain ⟨hne, -, -, -⟩ := appendRevocation_eq_ok.mp happend
  obtain ⟨hshort, hsame⟩ := (adds_iff hload happend).mp hadds
  generalize file.getD [] = before at *
  have hrevoked := (hsame serial).mpr (.inr rfl)
  have htrimmed : trimSpace serial = serial := by
    obtain ⟨line, hline⟩ : ∃ line, trimSpace line = serial := by
      rcases hrevoked with hrecorded | hnow
      · obtain ⟨⟨line, -, hline⟩, -⟩ := mem_recorded.mp hrecorded
        exact ⟨line, hline⟩
      · exact ⟨_, (serialOf_eq_some.mp hnow).1⟩
    rw [← hline, trimSpace_trimSpace]
  refine ⟨htrimmed, hshort, or_iff_not_imp_left.mpr fun hblank ↦ ?_⟩
  by_cases hcomment : [commentMarker] <+: trimSpace (lastLine before)
  · have hrecorded :=
      hrevoked.resolve_right (serialOf_ne_some_of_comment (comment_append hcomment serial))
    exact ⟨(mem_recorded.mp hrecorded).1, .inl hcomment⟩
  · have hbefore : serialOf (lastLine before) = some (trimSpace (lastLine before)) :=
      serialOf_eq_some.mpr ⟨rfl, hblank, hcomment⟩
    obtain ⟨hnow, hlonger, hlongest⟩ := serialOf_append hblank hcomment htrimmed hne hstart
    -- a text that is shorter than that of the joined line is not read from it
    have hother : ∀ text, text.length < (trimSpace (lastLine before ++ serial)).length →
        trimSpace (lastLine before ++ serial) ≠ text := by
      rintro text hless rfl
      exact Nat.lt_irrefl _ hless
    rw [hbefore, hnow] at hsame
    simp only [Option.some.injEq] at hsame
    have hold := ((hsame _).mpr (.inl (.inr rfl))).resolve_right (hother _ hlonger)
    have hrepeated := ((hsame serial).mpr (.inr rfl)).resolve_right (hother _ hlongest)
    have hnew := (((hsame _).mp (.inr rfl)).resolve_right (hother _ hlongest)).resolve_right
      fun hequal ↦ hother _ hlonger hequal.symm
    exact ⟨(mem_recorded.mp hrepeated).1, .inr ⟨(mem_recorded.mp hold).1, (mem_recorded.mp hnew).1⟩⟩

end Revocation

/-- Revocations one after the other. -/
def appendAll : Option Bytes → List Bytes → Except RevocationError (Option Bytes)
  | file, [] => .ok file
  | file, serial :: serials => do
    let content ← appendRevocation file serial
    appendAll (some content) serials

/-- Each of the revocations is clean when it is made. -/
def CleanAlong : Option Bytes → List Bytes → Prop
  | _, [] => True
  | file, serial :: serials => Clean (file.getD []) serial ∧
      CleanAlong (some (file.getD [] ++ (serial ++ [newline]))) serials

/-- Serials that are each appended to a clean file are all read back, with those from before. -/
theorem load_appendAll {file final : Option Bytes} {loaded serials : List Bytes}
    (hload : loadRevocationFile file = .ok loaded) (happend : appendAll file serials = .ok final)
    (hclean : CleanAlong file serials) :
    ∃ after, loadRevocationFile final = .ok after ∧
      ∀ entry, entry ∈ after ↔ entry ∈ loaded ∨ entry ∈ serials := by
  induction serials generalizing file loaded with
  | nil =>
    obtain rfl := Except.ok.inj happend
    exact ⟨loaded, hload, by simp⟩
  | cons serial serials ih =>
    obtain ⟨content, hfirst, hrest⟩ := bind_eq_ok.mp happend
    obtain ⟨hserial, hothers⟩ := hclean
    obtain ⟨next, hnext, hadded⟩ := adds_of_clean hload hfirst hserial
    obtain ⟨-, -, -, rfl⟩ := appendRevocation_eq_ok.mp hfirst
    obtain ⟨after, hafter, hsame⟩ := ih hnext hrest hothers
    refine ⟨after, hafter, fun entry ↦ ?_⟩
    rw [hsame, hadded, List.mem_cons, or_assoc]

/-- A certificate that is accepted is not in the revocation set. -/
theorem serial_notMem_of_verify {Private Signature : Type} {crypto : Ed25519 Private Signature}
    {runtime : Runtime} {cert : Option (Envelope Signature)} {opts : VerifyOptions} {clock : Time}
    {claim : Claim} (hverify : verify crypto runtime cert opts clock = .ok claim) :
    claim.serial ∉ opts.revoked := by
  obtain ⟨envelope, content, -, -, -, hcheck⟩ := verify_eq_ok hverify
  simp only [checkContent] at hcheck
  split_ifs at hcheck with _ _ hrevoked
  rw [← Except.ok.inj hcheck]
  exact hrevoked

/-- A clean revocation adds its serial and nothing else, and one whose serial begins with a rune is clean if it
does so; after clean revocations no certificate with one of their serials is accepted. -/
theorem revocations_add {file : Option Bytes} {loaded : List Bytes}
    (hload : loadRevocationFile file = .ok loaded) :
    (∀ serial content, appendRevocation file serial = .ok content →
        (Clean (file.getD []) serial → Adds content serial loaded) ∧
          (RuneStart serial → Adds content serial loaded → Clean (file.getD []) serial)) ∧
      ∀ serials final, appendAll file serials = .ok final → CleanAlong file serials →
        ∃ after, loadRevocationFile final = .ok after ∧
          (∀ entry, entry ∈ after ↔ entry ∈ loaded ∨ entry ∈ serials) ∧
          ∀ (Private Signature : Type) (crypto : Ed25519 Private Signature) (runtime : Runtime)
            (cert : Option (Envelope Signature)) (opts : VerifyOptions) (clock : Time) (claim : Claim),
            (∀ text, text ∈ opts.revoked ↔ Utf8.encode text.toList ∈ after) →
            verify crypto runtime cert opts clock = .ok claim →
              Utf8.encode claim.serial.toList ∉ serials := by
  refine ⟨fun serial content happend ↦ ⟨adds_of_clean hload happend, clean_of_adds hload happend⟩,
    fun serials final happend hclean ↦ ?_⟩
  obtain ⟨after, hafter, hsame⟩ := load_appendAll hload happend hclean
  refine ⟨after, hafter, hsame, ?_⟩
  intro Private Signature crypto runtime cert opts clock claim hset hverify hrevoked
  exact serial_notMem_of_verify hverify ((hset _).mpr ((hsame _).mpr (.inr hrevoked)))

theorem revocations_add_example :
    Adds (ascii "# revoked\nserial-1\nserial-2\n") (ascii "serial-2") [ascii "serial-1"] :=
  ((@revocations_add (some (ascii "# revoked\nserial-1\n")) [ascii "serial-1"] (by decide +kernel)).1
    (ascii "serial-2") _ (by decide +kernel)).1
      ⟨by decide +kernel, by decide +kernel, .inl (by decide +kernel)⟩

/-- Behind a line without its newline a serial is lost, together with the one before; a serial with a
blank is read without it. -/
theorem revocation_lost :
    loadRevocationFile (some (ascii "serial-1")) = .ok [ascii "serial-1"] ∧
      appendRevocation (some (ascii "serial-1")) (ascii "serial-2") =
        .ok (ascii "serial-1serial-2\n") ∧
      loadRevocationFile (some (ascii "serial-1serial-2\n")) = .ok [ascii "serial-1serial-2"] ∧
      ¬ Adds (ascii "serial-1serial-2\n") (ascii "serial-2") [ascii "serial-1"] ∧
      appendRevocation none (ascii "serial-1 ") = .ok (ascii "serial-1 \n") ∧
      ¬ Adds (ascii "serial-1 \n") (ascii "serial-1 ") [] := by
  have hglued : loadRevocationFile (some (ascii "serial-1serial-2\n")) =
      .ok [ascii "serial-1serial-2"] := by decide +kernel
  have htrimmed : loadRevocationFile (some (ascii "serial-1 \n")) = .ok [ascii "serial-1"] := by
    decide +kernel
  refine ⟨by decide +kernel, by decide +kernel, hglued, ?_, by decide +kernel, ?_⟩
  · rintro ⟨serials, hload, hsame⟩
    obtain rfl := Except.ok.inj (hglued.symm.trans hload)
    exact absurd ((hsame (ascii "serial-2")).mpr (.inr rfl)) (by decide +kernel)
  · rintro ⟨serials, hload, hsame⟩
    obtain rfl := Except.ok.inj (htrimmed.symm.trans hload)
    exact absurd ((hsame (ascii "serial-1 ")).mpr (.inr rfl)) (by decide +kernel)

end Mosey.Cert

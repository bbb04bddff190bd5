import Mosey.Library.Framing
import Mosey.Typescript.Messages

/-!
# Messages with their length in front

`readProtodelim` looks for a message at the front of a buffer and returns null to wait for more bytes. It
takes every length that it cannot read for one that is cut off, also a length that no further byte can
mend, and it never throws.
-/

namespace Mosey.Typescript

open Library

/-- A message and the number of bytes it took. -/
structure Framed where
  msg : Bytes
  n : ℕ
  deriving DecidableEq

def withProtodelim (engine : Engine) (body : Bytes) : Except RangeError Bytes :=
  concat engine [encodeVarint body.length, body]

/-- The sum of the two lengths is a double. -/
def readProtodelim (buf : Bytes) : Except DecodeError (Option Framed) :=
  if buf.length = 0 then .ok none
  else
    match decodeVarint buf 0 with
    | .error _ => .ok none
    | .ok (length, headerLen) =>
      let total := numberOf (headerLen + numberOf length)
      if buf.length < total then .ok none
      else .ok (some ⟨(buf.drop headerLen).take (total - headerLen), total⟩)

example : readProtodelim [0x02, 0x68, 0x69, 0x7f] = .ok (some ⟨[0x68, 0x69], 3⟩) := by decide +kernel

variable {groups rest : Bytes}

theorem numberOf_add {header length : ℕ} (hsum : header + length < 2 ^ 53) :
    numberOf (header + numberOf length) = header + length := by
  rw [numberOf_eq (n := length) (by omega), numberOf_eq hsum]

theorem le_numberOf_add {header length : ℕ} (hsum : 2 ^ 53 ≤ header + length) :
    2 ^ 53 ≤ numberOf (header + numberOf length) := by
  apply le_numberOf
  rcases Nat.lt_or_ge length (2 ^ 53) with hsmall | hlarge
  · rwa [numberOf_eq hsmall]
  · exact (le_numberOf hlarge).trans (Nat.le_add_left _ _)

/-- What is read behind terminated groups. -/
theorem readProtodelim_groups (hgroups : Varint.Terminated groups) (rest : Bytes) :
    readProtodelim (groups ++ rest) =
      if groups.length ≤ 10 then
        let total := numberOf (groups.length + numberOf (Varint.value groups))
        if (groups ++ rest).length < total then .ok none
        else .ok (some ⟨rest.take (total - groups.length), total⟩)
      else .ok none := by
  have hne : ¬ (groups ++ rest).length = 0 := by
    rw [List.length_eq_zero_iff, List.append_eq_nil_iff]
    exact fun hnil ↦ hgroups.ne_nil hnil.1
  rw [readProtodelim, if_neg hne, decodeVarint_groups hgroups (List.drop_zero)]
  by_cases hten : groups.length ≤ 10
  · rw [if_pos hten, if_pos hten]
    dsimp only
    rw [List.drop_left]
  · rw [if_neg hten, if_neg hten]

/-- A whole message is read, whatever follows. -/
theorem readProtodelim_of_complete (hgroups : Varint.Terminated groups) (hten : groups.length ≤ 10)
    {body : Bytes} (hbody : body.length = Varint.value groups)
    (hfits : groups.length + body.length < 2 ^ 53) (rest : Bytes) :
    readProtodelim (groups ++ (body ++ rest)) = .ok (some ⟨body, groups.length + body.length⟩) := by
  have hnot : ¬ (groups ++ (body ++ rest)).length < groups.length + body.length := by
    simp only [List.length_append]
    omega
  rw [readProtodelim_groups hgroups, if_pos hten, ← hbody, numberOf_add hfits]
  dsimp only
  rw [if_neg hnot, Nat.add_sub_cancel_left, List.take_left]

/-- A message whose end is missing is waited for. -/
theorem readProtodelim_of_cut (hgroups : Varint.Terminated groups)
    (hcut : rest.length < Varint.value groups) (hfits : (groups ++ rest).length < 2 ^ 53) :
    readProtodelim (groups ++ rest) = .ok none := by
  rw [readProtodelim_groups hgroups]
  split_ifs with hten
  · have htotal : (groups ++ rest).length < numberOf (groups.length + numberOf (Varint.value groups)) := by
      rcases Nat.lt_or_ge (groups.length + Varint.value groups) (2 ^ 53) with hsmall | hlarge
      · rw [numberOf_add hsmall, List.length_append]
        omega
      · exact hfits.trans_le (le_numberOf_add hlarge)
    exact if_pos htotal
  · rfl

variable {buf : Bytes} {engine : Engine}

/-- A length whose end is missing is waited for, and so is one that is too long. -/
theorem readProtodelim_of_continued (hbuf : ∀ byte ∈ buf.take 10, 128 ≤ byte.toNat) :
    readProtodelim buf = .ok none := by
  rw [readProtodelim, decodeVarint, List.drop_zero,
    decodeVarintLoop_continued (by decide : 0 + 7 * 10 = 70) (by decide) hbuf]
  split_ifs <;> rfl

/-- The reader never throws. -/
theorem exists_readProtodelim_eq_ok (buf : Bytes) : ∃ found, readProtodelim buf = .ok found := by
  rw [readProtodelim]
  split_ifs
  · exact ⟨_, rfl⟩
  · cases decodeVarint buf 0 with
    | error err => exact ⟨_, rfl⟩
    | ok read =>
      dsimp only
      split_ifs <;> exact ⟨_, rfl⟩

/-- The beginning of a message is waited for. -/
theorem readProtodelim_of_begins {buf body : Bytes} (hbuf : buf.length < 2 ^ 53)
    (hgroups : Varint.Terminated groups) (hbody : body.length = Varint.value groups)
    (hstart : buf <+: groups ++ body) (hne : buf ≠ groups ++ body) : readProtodelim buf = .ok none := by
  rcases Varint.exists_terminated_or buf with ⟨groups', rest, hgroups', rfl⟩ | hnext
  · obtain ⟨missing, hmissing⟩ := hstart
    rw [List.append_assoc] at hmissing
    obtain ⟨rfl, rfl⟩ := hgroups'.append_inj hgroups hmissing
    refine readProtodelim_of_cut hgroups ?_ hbuf
    have hpos : 0 < missing.length := List.length_pos_iff.mpr fun hnil ↦ hne (by rw [hnil, List.append_nil])
    rw [← hbody, List.length_append]
    omega
  · exact readProtodelim_of_continued fun byte hmem ↦ hnext byte (List.mem_of_mem_take hmem)

/-- The framing as one that is read from buffers no longer than a typed array. -/
def protodelim (engine : Engine) : Framing UInt8 Bytes where
  capacity := engine.maxLength
  frame body := encodeVarint body.length ++ body
  next buffer :=
    match readProtodelim buffer with
    | .ok (some ready) => some (ready.msg, buffer.drop ready.n)
    | _ => none
  next_frame {body rest} hcapacity := by
    have hfits := hcapacity.trans_lt engine.maxLength_lt
    simp only [List.length_append] at hfits
    have hten : (encodeVarint body.length).length ≤ 10 := length_encodeVarint_le_ten (by omega)
    rw [List.append_assoc, readProtodelim_of_complete (terminated_encodeVarint _) hten
      (value_encodeVarint _).symm (by omega)]
    dsimp only
    rw [← List.append_assoc, ← List.length_append, List.drop_left]
  next_cut {body buffer} hcapacity hstart hlt := by
    rw [readProtodelim_of_begins (hcapacity.trans_lt engine.maxLength_lt) (terminated_encodeVarint _)
      (value_encodeVarint _).symm hstart fun heq ↦ hlt.ne (congrArg List.length heq)]

theorem exists_ready_of_next {buffer body rest : Bytes}
    (hnext : (protodelim engine).next buffer = some (body, rest)) :
    ∃ ready, readProtodelim buffer = .ok (some ready) ∧ ready.msg = body ∧ buffer.drop ready.n = rest := by
  dsimp only [protodelim] at hnext
  split at hnext
  · obtain ⟨rfl, rfl⟩ := Prod.mk.inj (Option.some.inj hnext)
    exact ⟨_, ‹_›, rfl, rfl⟩
  · cases hnext

theorem readProtodelim_of_next_eq_none {buffer : Bytes} (hnext : (protodelim engine).next buffer = none) :
    readProtodelim buffer = .ok none := by
  obtain ⟨found, hfound⟩ := exists_readProtodelim_eq_ok buffer
  dsimp only [protodelim] at hnext
  rw [hfound] at hnext ⊢
  cases found with
  | none => rfl
  | some ready => cases hnext

theorem withProtodelim_eq_ok {body : Bytes}
    (hfits : ((protodelim engine).frame body).length ≤ engine.maxLength) :
    withProtodelim engine body = .ok ((protodelim engine).frame body) := by
  have hflatten : [encodeVarint body.length, body].flatten = (protodelim engine).frame body := by
    rw [List.flatten_cons, List.flatten_singleton]
    rfl
  rcases writes_concat engine [encodeVarint body.length, body] with ⟨-, hok⟩ | ⟨hlong, -⟩
  · rwa [hflatten] at hok
  · rw [hflatten] at hlong
    exact absurd hfits hlong.not_ge

/-- A length below 2^64 in at most ten bytes, and as many bytes as it says. -/
def IsFrame (frame : Bytes) : Prop :=
  ∃ groups body, frame = groups ++ body ∧ Varint.Terminated groups ∧ groups.length ≤ 10 ∧
    Varint.value groups < 2 ^ 64 ∧ body.length = Varint.value groups

/-- Something is missing at the end of a frame. -/
def BeginsFrame (buf : Bytes) : Prop := ∃ frame, IsFrame frame ∧ buf <+: frame ∧ buf ≠ frame

/-- The buffer starts with a frame, or further bytes make it one. -/
def Completable (buf : Bytes) : Prop := ∃ frame, IsFrame frame ∧ (buf <+: frame ∨ frame <+: buf)

/-- Null is the answer to the beginning of a frame only, and what can never become one is an error. -/
def WaitsForFramesOnly (buf : Bytes) : Prop :=
  (readProtodelim buf = .ok none ↔ BeginsFrame buf) ∧
  (¬ Completable buf → ∃ err, readProtodelim buf = .error err)

/-- Nine bytes announce another one, and the tenth is more than one bit. -/
def HeaderOverflows (buf : Bytes) : Prop :=
  ∃ nine tenth rest, buf = nine ++ tenth :: rest ∧ nine.length = 9 ∧
    (∀ byte ∈ nine, 128 ≤ byte.toNat) ∧ 2 ≤ tenth.toNat

theorem HeaderOverflows.append (hbuf : HeaderOverflows buf) (chunk : Bytes) :
    HeaderOverflows (buf ++ chunk) := by
  obtain ⟨nine, tenth, rest, rfl, hnine, hnext, hbits⟩ := hbuf
  exact ⟨nine, tenth, rest ++ chunk, by simp, hnine, hnext, hbits⟩

theorem headerOverflows_of_continued (hten : 10 ≤ buf.length)
    (hnext : ∀ byte ∈ buf.take 10, 128 ≤ byte.toNat) : HeaderOverflows buf := by
  have hsplit : buf = buf.take 9 ++ buf[9] :: buf.drop 10 := by
    rw [List.getElem_cons_drop, List.take_append_drop]
  have htenth : buf[9] ∈ buf.take 10 := by
    rw [List.take_succ_eq_append_getElem hten]
    exact List.mem_append_right _ (List.mem_singleton_self _)
  refine ⟨_, _, _, hsplit, List.length_take_of_le (by omega), fun byte hmem ↦ hnext byte ?_,
    (hnext _ htenth).trans' (by decide)⟩
  exact (List.take_subset_take_left buf (by decide)) hmem

/-- The first groups decide whether the length overflows. -/
theorem headerOverflows_groups_iff (hgroups : Varint.Terminated groups) (rest : Bytes) :
    HeaderOverflows (groups ++ rest) ↔ ¬ (groups.length ≤ 10 ∧ Varint.value groups < 2 ^ 64) := by
  obtain ⟨init, last, rfl, hinit, hlast⟩ := Varint.terminated_iff.mp hgroups
  rw [List.length_append, List.length_singleton]
  constructor
  · rintro ⟨nine, tenth, others, heq, hnine, hnext, hbits⟩ ⟨hten, hvalue⟩
    rw [Varint.value_lt_two_pow_iff hlast (by omega)] at hvalue
    rw [List.append_assoc, List.singleton_append, List.append_eq_append_iff] at heq
    rcases heq with ⟨middle, rfl, htail⟩ | ⟨middle, rfl, htail⟩
    · cases middle with
      | nil =>
        obtain ⟨rfl, -⟩ := List.cons.inj htail
        exact hvalue ⟨by simpa using hnine, hbits⟩
      | cons byte middle =>
        obtain ⟨rfl, -⟩ := List.cons.inj htail
        exact absurd (hnext last (by simp)) hlast.not_ge
    · cases middle with
      | nil =>
        obtain ⟨rfl, -⟩ := List.cons.inj htail
        exact hvalue ⟨by simpa using hnine, hbits⟩
      | cons byte middle =>
        rw [List.length_append, List.length_cons] at hten
        omega
  · intro hlong
    by_cases hten : init.length + 1 ≤ 10
    · have hvalue : ¬ Varint.value (init ++ [last]) < 2 ^ 64 := fun hlt ↦ hlong ⟨hten, hlt⟩
      rw [Varint.value_lt_two_pow_iff hlast (by omega), not_not] at hvalue
      exact ⟨init, last, rest, by simp, hvalue.1, hinit, hvalue.2⟩
    · have hlength : 10 ≤ init.length := by omega
      refine headerOverflows_of_continued (by simp; omega) fun byte hmem ↦ hinit byte ?_
      rw [List.append_assoc, List.take_append_of_le_length hlength] at hmem
      exact List.mem_of_mem_take hmem

/-- Groups that overflow are waited for as if they went on. -/
theorem readProtodelim_of_headerOverflows (hbuf : buf.length < 2 ^ 53)
    (hoverflows : HeaderOverflows buf) : readProtodelim buf = .ok none := by
  rcases Varint.exists_terminated_or buf with ⟨groups, rest, hgroups, rfl⟩ | hnext
  · rw [headerOverflows_groups_iff hgroups] at hoverflows
    by_cases hten : groups.length ≤ 10
    · refine readProtodelim_of_cut hgroups ?_ hbuf
      have hvalue := Nat.le_of_not_lt fun hlt ↦ hoverflows ⟨hten, hlt⟩
      rw [List.length_append] at hbuf
      omega
    · rw [readProtodelim_groups hgroups, if_neg hten]
  · exact readProtodelim_of_continued fun byte hmem ↦ hnext byte (List.mem_of_mem_take hmem)

theorem IsFrame.not_headerOverflows {frame : Bytes} (hframe : IsFrame frame) (rest : Bytes) :
    ¬ HeaderOverflows (frame ++ rest) := by
  obtain ⟨groups, body, rfl, hgroups, hten, hvalue, -⟩ := hframe
  rw [List.append_assoc, headerOverflows_groups_iff hgroups, not_not]
  exact ⟨hten, hvalue⟩

/-- No further byte mends a length that overflows. -/
theorem HeaderOverflows.not_completable (hoverflows : HeaderOverflows buf) : ¬ Completable buf := by
  rintro ⟨frame, hframe, ⟨rest, rfl⟩ | ⟨rest, rfl⟩⟩
  · have hnot := hframe.not_headerOverflows []
    rw [List.append_nil] at hnot
    exact hnot (hoverflows.append rest)
  · exact hframe.not_headerOverflows rest hoverflows

theorem readProtodelim_of_isFrame {frame : Bytes} (hframe : IsFrame frame) (rest : Bytes)
    (hfits : (frame ++ rest).length < 2 ^ 53) :
    ∃ ready, readProtodelim (frame ++ rest) = .ok (some ready) := by
  obtain ⟨groups, body, rfl, hgroups, hten, -, hbody⟩ := hframe
  simp only [List.length_append] at hfits
  rw [List.append_assoc]
  exact ⟨_, readProtodelim_of_complete hgroups hten hbody (by omega) rest⟩

theorem readProtodelim_of_beginsFrame (hbuf : buf.length < 2 ^ 53) (hbegins : BeginsFrame buf) :
    readProtodelim buf = .ok none := by
  obtain ⟨frame, ⟨groups, body, rfl, hgroups, -, -, hbody⟩, hstart, hne⟩ := hbegins
  exact readProtodelim_of_begins hbuf hgroups hbody hstart hne

theorem beginsFrame_of_lt {frame buf : Bytes} (hframe : IsFrame frame) (hstart : buf <+: frame)
    (hlt : buf.length < frame.length) : BeginsFrame buf :=
  ⟨frame, hframe, hstart, fun heq ↦ hlt.ne (congrArg List.length heq)⟩

/-- The missing bytes of the message may be any. -/
theorem beginsFrame_of_cut (hgroups : Varint.Terminated groups) (hten : groups.length ≤ 10)
    (hvalue : Varint.value groups < 2 ^ 64) (hcut : rest.length < Varint.value groups) :
    BeginsFrame (groups ++ rest) := by
  have hlength : (rest ++ List.replicate (Varint.value groups - rest.length) 0).length =
      Varint.value groups := by
    rw [List.length_append, List.length_replicate]
    omega
  refine beginsFrame_of_lt ⟨groups, _, rfl, hgroups, hten, hvalue, hlength⟩ ?_ ?_
  · rw [List.prefix_append_right_inj]
    exact List.prefix_append _ _
  · rw [List.length_append, List.length_append, hlength]
    omega

/-- A last group of zero ends the length. -/
theorem beginsFrame_of_continued (hnine : buf.length ≤ 9) (hnext : ∀ byte ∈ buf, 128 ≤ byte.toNat) :
    BeginsFrame buf := by
  have hgroups : Varint.Terminated (buf ++ [0]) :=
    Varint.terminated_iff.mpr ⟨buf, 0, rfl, hnext, by decide⟩
  have hten : (buf ++ [0]).length ≤ 10 := by
    rw [List.length_append, List.length_singleton]
    omega
  have hvalue : Varint.value (buf ++ [0]) < 2 ^ 64 := by
    rw [Varint.value_lt_two_pow_iff (by decide) hnine]
    exact fun hbits ↦ absurd hbits.2 (by decide)
  refine beginsFrame_of_lt ⟨buf ++ [0], List.replicate (Varint.value (buf ++ [0])) 0, rfl, hgroups,
    hten, hvalue, List.length_replicate⟩ ?_ ?_
  · rw [List.append_assoc]
    exact List.prefix_append _ _
  · simp only [List.length_append, List.length_singleton]
    omega

/-- A buffer whose length does not overflow starts with a frame, or begins one. -/
theorem isFrame_or_beginsFrame (hfits : ¬ HeaderOverflows buf) :
    (∃ frame rest, IsFrame frame ∧ buf = frame ++ rest) ∨ BeginsFrame buf := by
  rcases Varint.exists_terminated_or buf with ⟨groups, rest, hgroups, rfl⟩ | hnext
  · rw [headerOverflows_groups_iff hgroups, not_not] at hfits
    obtain ⟨hten, hvalue⟩ := hfits
    rcases Nat.lt_or_ge rest.length (Varint.value groups) with hcut | hwhole
    · exact .inr (beginsFrame_of_cut hgroups hten hvalue hcut)
    · refine .inl ⟨groups ++ rest.take (Varint.value groups), rest.drop (Varint.value groups),
        ⟨groups, _, rfl, hgroups, hten, hvalue, List.length_take_of_le hwhole⟩, ?_⟩
      rw [List.append_assoc, List.take_append_drop]
  · right
    refine beginsFrame_of_continued ?_ hnext
    by_contra hlong
    exact hfits (headerOverflows_of_continued (by omega) fun byte hmem ↦
      hnext byte (List.mem_of_mem_take hmem))

theorem completable_of_not_headerOverflows (hfits : ¬ HeaderOverflows buf) : Completable buf := by
  rcases isFrame_or_beginsFrame hfits with ⟨frame, rest, hframe, rfl⟩ | ⟨frame, hframe, hstart, -⟩
  · exact ⟨frame, hframe, .inr (List.prefix_append _ _)⟩
  · exact ⟨frame, hframe, .inl hstart⟩

/-- The reader waits for frames only, except behind groups that overflow. -/
theorem waitsForFramesOnly_iff (hbuf : buf.length < 2 ^ 53) :
    WaitsForFramesOnly buf ↔ ¬ HeaderOverflows buf := by
  constructor
  · rintro ⟨-, hthrows⟩ hoverflows
    obtain ⟨err, herr⟩ := hthrows hoverflows.not_completable
    rw [readProtodelim_of_headerOverflows hbuf hoverflows] at herr
    cases herr
  · intro hfits
    refine ⟨?_, fun hnot ↦ absurd (completable_of_not_headerOverflows hfits) hnot⟩
    rcases isFrame_or_beginsFrame hfits with ⟨frame, rest, hframe, rfl⟩ | hbegins
    · obtain ⟨ready, hready⟩ := readProtodelim_of_isFrame hframe rest hbuf
      have hsome : readProtodelim (frame ++ rest) ≠ .ok none := by
        rw [hready]
        exact fun heq ↦ Option.some_ne_none ready (Except.ok.inj heq)
      exact iff_of_false hsome fun hbegins ↦ hsome (readProtodelim_of_beginsFrame hbuf hbegins)
    · exact iff_of_true (readProtodelim_of_beginsFrame hbuf hbegins) hbegins

end Mosey.Typescript

import Mosey.Typescript.Proto
import Mosey.Vterm.Resume

/-!
# The varints of the client and of the resume header

Three encoders and two readers of the same format are written out by hand. The readers count groups to
notice an overflow. Ten groups have room for 70 bits, and neither reader looks at what the last of them
holds: the client returns a number of more than 64 bits, and the vterm loses the highest ones.
-/

namespace Mosey.Typescript

open Library Vterm

/-- The loop of `encodeVarint`. A shift makes a number that is not zero smaller. -/
def encodeVarintLoop : ℕ → ℕ → Bytes
  | 0, value => [UInt8.ofNat value]
  | fuel + 1, value =>
    if 0x80 ≤ value then UInt8.ofNat (value &&& 0x7f ||| 0x80) :: encodeVarintLoop fuel (value >>> 7)
    else [UInt8.ofNat value]

def encodeVarint (n : ℕ) : Bytes := encodeVarintLoop n n

theorem encodeVarintLoop_eq_encode {fuel value : ℕ} (hfuel : value ≤ fuel) :
    encodeVarintLoop fuel value = Varint.encode value := by
  induction fuel generalizing value with
  | zero =>
    obtain rfl := Nat.le_zero.mp hfuel
    exact (Varint.encode_of_lt (by decide)).symm
  | succ fuel ih =>
    rw [encodeVarintLoop]
    by_cases hmore : 0x80 ≤ value
    · have hshift : value >>> 7 = value / 128 := Nat.shiftRight_eq_div_pow value 7
      have hgroup : value &&& 0x7f ||| 0x80 = value % 128 + 128 := by
        rw [Nat.and_two_pow_sub_one_eq_mod value 7]
        exact (Varint.or_shift_eq (Nat.mod_lt _ (by decide)) : value % 2 ^ 7 ||| 1 <<< 7 = _)
      rw [if_pos hmore, hgroup, hshift, ih (by omega), ← Varint.encode_of_le hmore]
    · rw [if_neg hmore, Varint.encode_of_lt (Nat.not_le.mp hmore)]

theorem encodeVarint_eq_encode (n : ℕ) : encodeVarint n = Varint.encode n :=
  encodeVarintLoop_eq_encode (Nat.le_refl n)

theorem terminated_encodeVarint (n : ℕ) : Varint.Terminated (encodeVarint n) := by
  rw [encodeVarint_eq_encode]
  exact Varint.terminated_encode n

theorem length_encodeVarint_le_ten {n : ℕ} (hn : n < 2 ^ 64) : (encodeVarint n).length ≤ 10 := by
  rw [encodeVarint_eq_encode]
  exact Varint.length_encode_le_ten hn

theorem value_encodeVarint (n : ℕ) : Varint.value (encodeVarint n) = n := by
  rw [encodeVarint_eq_encode, Varint.value_encode]

/-- The loop on groups, from any point on. The tenth group is at bit 63. -/
theorem decodeVarintLoop_groups {groups : Bytes} (hgroups : Varint.Terminated groups) (rest : Bytes)
    {shift start n count : ℕ} (hshift : shift + 7 * count = 70) (hcount : 1 ≤ count)
    (hstart : start < 2 ^ shift) :
    decodeVarintLoop shift start n (groups ++ rest) =
      if groups.length ≤ count then .ok (start + Varint.value groups * 2 ^ shift, n + groups.length)
      else .error .varintOverflow := by
  induction hgroups generalizing shift start n count with
  | @last byte hlast =>
    have hstop : byte &&& 0x80 = 0 := (Varint.and_high_eq_zero byte).mpr hlast
    rw [List.singleton_append, decodeVarintLoop, Varint.toNat_and_low, Varint.or_shift_eq hstart,
      if_pos hstop, List.length_singleton, if_pos hcount, Varint.value_singleton hlast,
      Nat.mod_eq_of_lt hlast]
  | @next byte groups hnext hgroups ih =>
    have hmore : ¬ byte &&& 0x80 = 0 := fun hstop ↦
      hnext.not_gt ((Varint.and_high_eq_zero byte).mp hstop)
    have hlength := List.length_pos_iff.mpr hgroups.ne_nil
    rw [List.cons_append, decodeVarintLoop, Varint.toNat_and_low, Varint.or_shift_eq hstart, if_neg hmore,
      List.length_cons]
    by_cases hten : 63 < shift + 7
    · rw [if_pos hten, if_neg (by omega)]
    · obtain ⟨count, rfl⟩ : ∃ left, count = left + 1 := ⟨count - 1, by omega⟩
      have hleft : shift + 7 + 7 * count = 70 := by omega
      rw [if_neg hten, ih hleft (by omega) (Varint.add_group_lt hstart byte),
        Varint.add_value_cons, Nat.add_right_comm]
      simp only [Nat.add_le_add_iff_right, Nat.add_assoc]

/-- The loop on bytes that all announce another one. -/
theorem decodeVarintLoop_continued {shift start n count : ℕ} {input : Bytes}
    (hshift : shift + 7 * count = 70) (hcount : 1 ≤ count)
    (hinput : ∀ byte ∈ input.take count, 128 ≤ byte.toNat) :
    decodeVarintLoop shift start n input =
      .error (if input.length < count then .truncatedVarint else .varintOverflow) := by
  induction count generalizing shift start n input with
  | zero => exact absurd hcount (by decide)
  | succ count ih =>
    cases input with
    | nil => rw [decodeVarintLoop, List.length_nil, if_pos (Nat.succ_pos count)]
    | cons byte input =>
      obtain ⟨hnext, hinput⟩ := List.forall_mem_cons.mp hinput
      have hmore : ¬ byte &&& 0x80 = 0 := fun hstop ↦
        hnext.not_gt ((Varint.and_high_eq_zero byte).mp hstop)
      rw [decodeVarintLoop, if_neg hmore]
      by_cases hten : 63 < shift + 7
      · rw [if_pos hten, List.length_cons, if_neg (by omega)]
      · rw [if_neg hten, ih (by omega) (by omega) hinput]
        simp only [List.length_cons, Nat.add_lt_add_iff_right]

theorem decodeVarint_groups {groups : Bytes} (hgroups : Varint.Terminated groups) {buf rest : Bytes}
    {offset : ℕ} (hbuf : buf.drop offset = groups ++ rest) :
    decodeVarint buf offset =
      if groups.length ≤ 10 then .ok (Varint.value groups, groups.length) else .error .varintOverflow := by
  have hloop := decodeVarintLoop_groups (n := 0) hgroups rest (by decide : 0 + 7 * 10 = 70) (by decide)
    (by decide : 0 < 2 ^ 0)
  rwa [Nat.zero_add, Nat.zero_add, Nat.pow_zero, Nat.mul_one, ← hbuf] at hloop

theorem exists_groups_of_decodeVarint {buf : Bytes} {offset value n : ℕ}
    (h : decodeVarint buf offset = .ok (value, n)) :
    ∃ groups, Varint.Terminated groups ∧ Varint.value groups = value ∧
      buf.drop offset = groups ++ buf.drop (offset + n) := by
  rcases Varint.exists_terminated_or (buf.drop offset) with ⟨groups, rest, hgroups, hbuf⟩ | hall
  · rw [decodeVarint_groups hgroups hbuf] at h
    split_ifs at h
    obtain ⟨rfl, rfl⟩ := Prod.mk.inj (Except.ok.inj h)
    refine ⟨groups, hgroups, rfl, ?_⟩
    rw [← List.drop_drop, hbuf, List.drop_left]
  · rw [decodeVarint, decodeVarintLoop_continued (by decide : 0 + 7 * 10 = 70) (by decide)
      fun byte hmem ↦ hall byte (List.mem_of_mem_take hmem)] at h
    cases h

/-- What is encoded is read back at its offset, with its length. -/
theorem decodeVarint_encodeVarint {n : ℕ} (hn : n < 2 ^ 64) {buf rest : Bytes} {offset : ℕ}
    (hbuf : buf.drop offset = encodeVarint n ++ rest) :
    decodeVarint buf offset = .ok (n, (encodeVarint n).length) := by
  rw [decodeVarint_groups (terminated_encodeVarint n) hbuf, if_pos (length_encodeVarint_le_ten hn),
    value_encodeVarint]

/-- The encoders agree, and both readers take from any stream exactly what was encoded. -/
theorem encoders_agree_and_read_back (v : UInt64) (before rest : Bytes) :
    readResumeSeq (Vterm.encodeVarint v ++ rest) = .ok (v.toNat, rest) ∧
    encodeResumeSeq v = Vterm.encodeVarint v ∧
    encodeVarint v.toNat = Vterm.encodeVarint v ∧
    decodeVarint (before ++ (Vterm.encodeVarint v ++ rest)) before.length =
      .ok (v.toNat, (Vterm.encodeVarint v).length) := by
  have hencode : encodeVarint v.toNat = Vterm.encodeVarint v := by
    rw [encodeVarint_eq_encode, Vterm.encodeVarint_eq_encode]
  refine ⟨readResumeSeq_encodeVarint v rest, rfl, hencode, ?_⟩
  rw [← hencode]
  exact decodeVarint_encodeVarint v.toNat_lt (List.drop_left)

/-- The rule of the protowire package: ten groups at most, and a number of 64 bits. -/
def FollowsRule {ε : Type} (input : Bytes) (read : Except ε ℕ) : Prop :=
  (∀ groups, Varint.Terminated groups → groups <+: input → groups.length ≤ 10 →
    (Varint.value groups < 2 ^ 64 → read = .ok (Varint.value groups)) ∧
    (2 ^ 64 ≤ Varint.value groups → ∃ err, read = .error err)) ∧
  (10 ≤ input.length → (∀ byte ∈ input.take 10, 128 ≤ byte.toNat) → ∃ err, read = .error err)

/-- Nine bytes announce another one, and the tenth is the last and more than one bit. -/
def TenthOverflows (input : Bytes) : Prop :=
  ∃ nine tenth rest, input = nine ++ tenth :: rest ∧ nine.length = 9 ∧
    (∀ byte ∈ nine, 128 ≤ byte.toNat) ∧ 2 ≤ tenth.toNat ∧ tenth.toNat < 128

/-- A reader that counts groups follows the rule but for the tenth of them, whatever it makes of the
number. -/
theorem followsRule_iff_of_counts {ε : Type} {input : Bytes} {read : Except ε ℕ} (cut : ℕ → ℕ)
    (hcut : ∀ value, value < 2 ^ 64 → cut value = value)
    (hread : ∀ groups, Varint.Terminated groups → groups <+: input → groups.length ≤ 10 →
      read = .ok (cut (Varint.value groups)))
    (hlong : 10 ≤ input.length → (∀ byte ∈ input.take 10, 128 ≤ byte.toNat) → ∃ err, read = .error err) :
    FollowsRule input read ↔ ¬ TenthOverflows input := by
  constructor
  · rintro ⟨hrule, -⟩ ⟨nine, tenth, rest, rfl, hnine, hnext, hbits, hlast⟩
    have hgroups : Varint.Terminated (nine ++ [tenth]) :=
      Varint.terminated_iff.mpr ⟨nine, tenth, rfl, hnext, hlast⟩
    have hstart : nine ++ [tenth] <+: nine ++ tenth :: rest := ⟨rest, List.append_assoc _ _ _⟩
    have hten : (nine ++ [tenth]).length ≤ 10 := by
      rw [List.length_append, hnine, List.length_singleton]
    have hvalue : 2 ^ 64 ≤ Varint.value (nine ++ [tenth]) := Nat.le_of_not_lt fun hlt ↦
      (Varint.value_lt_two_pow_iff hlast hnine.le).mp hlt ⟨hnine, hbits⟩
    obtain ⟨err, herr⟩ := (hrule _ hgroups hstart hten).2 hvalue
    rw [hread _ hgroups hstart hten] at herr
    cases herr
  · intro hfits
    refine ⟨fun groups hgroups hstart hten ↦ ?_, hlong⟩
    have hvalue : Varint.value groups < 2 ^ 64 := by
      obtain ⟨init, last, rfl, hinit, hlast⟩ := Varint.terminated_iff.mp hgroups
      rw [List.length_append, List.length_singleton] at hten
      rw [Varint.value_lt_two_pow_iff hlast (by omega)]
      rintro ⟨hnine, hbits⟩
      obtain ⟨rest, rfl⟩ := hstart
      exact hfits ⟨init, last, rest, by simp, hnine, hinit, hbits, hlast⟩
    refine ⟨fun _ ↦ ?_, fun hle ↦ absurd hvalue hle.not_gt⟩
    rw [hread groups hgroups hstart hten, hcut _ hvalue]

/-- Each reader follows the rule unless ten groups stand for a number of more than 64 bits. -/
theorem varints_follow_rule_iff (before input : Bytes) :
    (FollowsRule input ((readResumeSeq input).map Prod.fst) ↔ ¬ TenthOverflows input) ∧
    (FollowsRule input ((decodeVarint (before ++ input) before.length).map Prod.fst) ↔
      ¬ TenthOverflows input) := by
  have hdrop : (before ++ input).drop before.length = input := List.drop_left
  constructor
  · refine followsRule_iff_of_counts (· % 2 ^ 64) (fun value ↦ Nat.mod_eq_of_lt) ?_ ?_
    · rintro groups hgroups ⟨rest, rfl⟩ hten
      rw [readResumeSeq_groups hgroups rest, if_pos hten]
      rfl
    · intro _ hnext
      rw [readResumeSeq, resumeSeqLoop_continued hnext]
      exact ⟨_, rfl⟩
  · refine followsRule_iff_of_counts id (fun value _ ↦ rfl) ?_ ?_
    · rintro groups hgroups ⟨rest, rfl⟩ hten
      rw [decodeVarint_groups hgroups hdrop, if_pos hten]
      rfl
    · intro _ hnext
      rw [decodeVarint, hdrop, decodeVarintLoop_continued (by decide : 0 + 7 * 10 = 70) (by decide) hnext]
      exact ⟨_, rfl⟩

/-- Nine groups of ones and one more bit above them. -/
def sixtyFiveBits : Bytes := List.replicate 9 0xff ++ [0x02]

/-- One reader loses the highest bit, and the other returns it. -/
theorem sixtyFiveBits_wraps :
    readResumeSeq sixtyFiveBits = .ok (2 ^ 63 - 1, []) ∧
    decodeVarint sixtyFiveBits 0 = .ok (2 ^ 64 + 2 ^ 63 - 1, 10) ∧
    ¬ FollowsRule sixtyFiveBits ((readResumeSeq sixtyFiveBits).map Prod.fst) ∧
    ¬ FollowsRule sixtyFiveBits ((decodeVarint sixtyFiveBits 0).map Prod.fst) := by
  have hgroups : Varint.Terminated sixtyFiveBits :=
    Varint.terminated_iff.mpr ⟨List.replicate 9 0xff, 0x02, rfl, by decide +kernel, by decide⟩
  have hvalue : 2 ^ 64 ≤ Varint.value sixtyFiveBits := by decide +kernel
  have hfail {ε : Type} {read : Except ε ℕ} {n : ℕ} (hread : read = .ok n) :
      ¬ FollowsRule sixtyFiveBits read := by
    intro hrule
    obtain ⟨err, herr⟩ := (hrule.1 _ hgroups (List.prefix_refl _) (by decide)).2 hvalue
    rw [hread] at herr
    cases herr
  exact ⟨by decide +kernel, by decide +kernel, hfail (n := 2 ^ 63 - 1) (by decide +kernel),
    hfail (n := 2 ^ 64 + 2 ^ 63 - 1) (by decide +kernel)⟩

end Mosey.Typescript

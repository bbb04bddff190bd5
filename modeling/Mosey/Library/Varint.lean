import Mathlib.Data.Nat.Bitwise
import Mathlib.Data.Nat.Digits.Defs
import Mathlib.Tactic.Ring

/-!
# Varints

A number in groups of seven bits, the lowest first. The eighth bit of a byte tells whether another byte
follows.
-/

namespace Mosey.Library.Varint

/-- The number that the groups stand for. -/
def value (groups : List UInt8) : ℕ := Nat.ofDigits 128 (groups.map (·.toNat % 128))

/-- Every byte but the last announces another one. -/
inductive Terminated : List UInt8 → Prop
  | last {byte : UInt8} (hlast : byte.toNat < 128) : Terminated [byte]
  | next {byte : UInt8} {rest : List UInt8} (hnext : 128 ≤ byte.toNat) (hrest : Terminated rest) :
      Terminated (byte :: rest)

/-- The shortest groups for a number. -/
def encode (n : ℕ) : List UInt8 :=
  if n < 128 then [UInt8.ofNat n] else UInt8.ofNat (n % 128 + 128) :: encode (n / 128)
termination_by n

theorem encode_of_lt {n : ℕ} (hn : n < 128) : encode n = [UInt8.ofNat n] := by
  rw [encode, if_pos hn]

theorem encode_of_le {n : ℕ} (hn : 128 ≤ n) :
    encode n = UInt8.ofNat (n % 128 + 128) :: encode (n / 128) := by
  rw [encode, if_neg hn.not_gt]

theorem toNat_and_low (byte : UInt8) : (byte &&& 0x7f).toNat = byte.toNat % 128 :=
  (UInt8.toNat_and byte 0x7f).trans (Nat.and_two_pow_sub_one_eq_mod byte.toNat 7)

theorem and_high_eq_zero (byte : UInt8) : byte &&& 0x80 = 0 ↔ byte.toNat < 128 := by
  have hbyte := byte.toNat_lt
  have hand : (byte &&& 0x80).toNat = (byte.toNat.testBit 7).toNat * 2 ^ 7 :=
    (UInt8.toNat_and byte 0x80).trans (Nat.and_two_pow byte.toNat 7)
  have hbit : byte.toNat.testBit 7 = decide (byte.toNat / 2 ^ 7 % 2 = 1) :=
    Nat.testBit_eq_decide_div_mod_eq
  rw [← UInt8.toNat_inj, hand, hbit]
  by_cases hlow : byte.toNat < 128
  · simp [hlow, Nat.div_eq_of_lt hlow]
  · have hone : byte.toNat / 128 = 1 := by omega
    simp [hlow, hone]

/-- The byte of a group with another one behind it. -/
theorem ofNat_or_high (n : ℕ) : UInt8.ofNat n ||| 0x80 = UInt8.ofNat (n % 128 + 128) := by
  have hall : ∀ byte : Fin 256, UInt8.ofNat byte.1 ||| 0x80 = UInt8.ofNat (byte.1 % 128 + 128) := by
    decide +kernel
  have hmod : UInt8.ofNat (n % 256) = UInt8.ofNat n := UInt8.toNat_inj.mp (by simp)
  have hbyte := hall ⟨n % 256, Nat.mod_lt n (by decide)⟩
  rwa [hmod, Nat.mod_mod_of_dvd n (by decide)] at hbyte

/-- A group goes above the ones before it. -/
theorem or_shift_eq {value group shift : ℕ} (hvalue : value < 2 ^ shift) :
    value ||| group <<< shift = value + group * 2 ^ shift := by
  rw [Nat.shiftLeft_eq, Nat.or_comm, Nat.mul_comm, ← Nat.two_pow_add_eq_or_of_lt hvalue, Nat.add_comm]

theorem add_group_lt {value shift : ℕ} (hvalue : value < 2 ^ shift) (byte : UInt8) :
    value + byte.toNat % 128 * 2 ^ shift < 2 ^ (shift + 7) := by
  have hgroup : byte.toNat % 128 ≤ 127 := Nat.le_of_lt_succ (Nat.mod_lt _ (by decide))
  have hmul := Nat.mul_le_mul_right (2 ^ shift) hgroup
  rw [Nat.pow_add]
  omega

theorem value_cons (byte : UInt8) (rest : List UInt8) :
    value (byte :: rest) = byte.toNat % 128 + 128 * value rest := by
  rw [value, List.map_cons, Nat.ofDigits_cons, value]

theorem value_singleton {byte : UInt8} (hlast : byte.toNat < 128) : value [byte] = byte.toNat := by
  rw [value, List.map_singleton, Nat.ofDigits_singleton, Nat.mod_eq_of_lt hlast]

/-- The later groups count above the earlier ones. -/
theorem value_append (first second : List UInt8) :
    value (first ++ second) = value first + 128 ^ first.length * value second := by
  rw [value, List.map_append, Nat.ofDigits_append, List.length_map, value, value]

/-- Groups of seven bits bound their value. -/
theorem value_lt (groups : List UInt8) : value groups < 128 ^ groups.length := by
  have hdigits : ∀ digit ∈ groups.map (·.toNat % 128), digit < 128 := by
    intro digit hmem
    obtain ⟨byte, -, rfl⟩ := List.mem_map.mp hmem
    exact Nat.mod_lt _ (by decide)
  simpa only [value, List.length_map] using Nat.ofDigits_lt_base_pow_length (by decide) hdigits

/-- A group and those above it. -/
theorem add_value_cons (start shift : ℕ) (byte : UInt8) (rest : List UInt8) :
    start + byte.toNat % 128 * 2 ^ shift + value rest * 2 ^ (shift + 7) =
      start + value (byte :: rest) * 2 ^ shift := by
  rw [value_cons]
  ring

/-- Ten groups hold a number of 64 bits if nothing but the lowest bit is in the last. -/
theorem value_lt_two_pow_iff {init : List UInt8} {last : UInt8} (hlast : last.toNat < 128)
    (hlength : init.length ≤ 9) :
    value (init ++ [last]) < 2 ^ 64 ↔ ¬ (init.length = 9 ∧ 2 ≤ last.toNat) := by
  have hinit := value_lt init
  rw [value_append, value_singleton hlast]
  rcases Nat.lt_or_eq_of_le hlength with hshort | hnine
  · have hbound : value init + 128 ^ init.length * last.toNat < 2 ^ 64 :=
      calc value init + 128 ^ init.length * last.toNat < 128 ^ init.length * (1 + last.toNat) := by
            rw [Nat.mul_add, Nat.mul_one]
            exact Nat.add_lt_add_right hinit _
        _ ≤ 128 ^ 8 * 128 := Nat.mul_le_mul
            (Nat.pow_le_pow_right (by decide) (Nat.le_of_lt_succ hshort)) (by omega)
        _ ≤ 2 ^ 64 := by decide
    exact iff_of_true hbound fun hlong ↦ hshort.ne hlong.1
  · rw [hnine] at hinit ⊢
    norm_num at hinit ⊢
    omega

theorem Terminated.ne_nil {groups : List UInt8} (hgroups : Terminated groups) : groups ≠ [] := by
  cases hgroups <;> exact List.cons_ne_nil _ _

/-- Terminated groups end with the only byte below 128. -/
theorem terminated_iff {groups : List UInt8} :
    Terminated groups ↔
      ∃ init last, groups = init ++ [last] ∧ (∀ byte ∈ init, 128 ≤ byte.toNat) ∧ last.toNat < 128 := by
  constructor
  · intro hgroups
    induction hgroups with
    | @last byte hlast => exact ⟨[], byte, rfl, List.forall_mem_nil _, hlast⟩
    | @next byte rest hnext _ ih =>
      obtain ⟨init, last, rfl, hinit, hlast⟩ := ih
      exact ⟨byte :: init, last, rfl, List.forall_mem_cons.mpr ⟨hnext, hinit⟩, hlast⟩
  · rintro ⟨init, last, rfl, hinit, hlast⟩
    induction init with
    | nil => exact .last hlast
    | cons byte init ih =>
      obtain ⟨hnext, hinit⟩ := List.forall_mem_cons.mp hinit
      exact .next hnext (ih hinit)

/-- An input starts with one sequence of terminated groups at most. -/
theorem Terminated.append_inj {first second : List UInt8} (hfirst : Terminated first)
    (hsecond : Terminated second) {rest rest' : List UInt8} (heq : first ++ rest = second ++ rest') :
    first = second ∧ rest = rest' := by
  induction hfirst generalizing second with
  | last hlast =>
    cases hsecond with
    | last _ => simpa using heq
    | next hnext _ =>
      obtain ⟨rfl, -⟩ := List.cons.inj heq
      exact absurd hlast hnext.not_gt
  | next hnext _ ih =>
    cases hsecond with
    | last hlast =>
      obtain ⟨rfl, -⟩ := List.cons.inj heq
      exact absurd hlast hnext.not_gt
    | next _ hrest =>
      obtain ⟨rfl, htail⟩ := List.cons.inj heq
      obtain ⟨rfl, rfl⟩ := ih hrest htail
      exact ⟨rfl, rfl⟩

/-- Every input starts with terminated groups, or announces another byte to its end. -/
theorem exists_terminated_or (input : List UInt8) :
    (∃ groups rest, Terminated groups ∧ input = groups ++ rest) ∨ ∀ byte ∈ input, 128 ≤ byte.toNat := by
  induction input with
  | nil => exact .inr (List.forall_mem_nil _)
  | cons byte input ih =>
    rcases Nat.lt_or_ge byte.toNat 128 with hlast | hnext
    · exact .inl ⟨[byte], input, .last hlast, rfl⟩
    · rcases ih with ⟨groups, rest, hgroups, rfl⟩ | hall
      · exact .inl ⟨byte :: groups, rest, .next hnext hgroups, rfl⟩
      · exact .inr (List.forall_mem_cons.mpr ⟨hnext, hall⟩)

theorem toNat_continued (n : ℕ) : (UInt8.ofNat (n % 128 + 128)).toNat = n % 128 + 128 := by
  have hbyte : n % 128 + 128 < 256 := by omega
  exact UInt8.toNat_ofNat_of_lt' hbyte

theorem terminated_encode (n : ℕ) : Terminated (encode n) := by
  induction n using encode.induct with
  | case1 n hn =>
    rw [encode_of_lt hn]
    have hbyte : (UInt8.ofNat n).toNat = n := UInt8.toNat_ofNat_of_lt' (hn.trans (by decide))
    exact .last (by rwa [hbyte])
  | case2 n hn ih =>
    rw [encode_of_le (Nat.le_of_not_lt hn)]
    exact .next (by rw [toNat_continued]; omega) ih

theorem value_encode (n : ℕ) : value (encode n) = n := by
  induction n using encode.induct with
  | case1 n hn =>
    have hbyte : (UInt8.ofNat n).toNat = n := UInt8.toNat_ofNat_of_lt' (hn.trans (by decide))
    rw [encode_of_lt hn, value_singleton (by omega), hbyte]
  | case2 n hn ih =>
    rw [encode_of_le (Nat.le_of_not_lt hn), value_cons, toNat_continued, ih]
    omega

theorem length_encode_le {n count : ℕ} (hn : n < 128 ^ (count + 1)) :
    (encode n).length ≤ count + 1 := by
  induction count generalizing n with
  | zero => rw [encode_of_lt (by simpa using hn), List.length_singleton]
  | succ count ih =>
    rcases Nat.lt_or_ge n 128 with hlast | hnext
    · rw [encode_of_lt hlast, List.length_singleton]
      exact Nat.succ_le_succ (Nat.zero_le _)
    · rw [encode_of_le hnext, List.length_cons]
      refine Nat.succ_le_succ (ih ?_)
      rwa [Nat.div_lt_iff_lt_mul (by decide), ← Nat.pow_succ]

theorem length_encode_le_ten {n : ℕ} (hn : n < 2 ^ 64) : (encode n).length ≤ 10 :=
  length_encode_le (hn.trans (by decide))

end Mosey.Library.Varint

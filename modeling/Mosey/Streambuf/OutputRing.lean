import Mathlib.Data.List.Induction
import Mosey.Bytes

/-!
# The output ring

The ring retains the most recent bytes of the output stream. Bytes are numbered from 1; `firstSeq` is
the number of the oldest retained byte. `Retains` relates a ring to the whole stream written to it,
and every write keeps the relation.
-/

namespace Mosey.Streambuf

def defaultOutputRingBytes : ℕ := 256 * 1024

inductive RingError
  | seqBehindRing
  deriving DecidableEq

structure OutputRing where
  data : Bytes
  capacity : ℕ
  firstSeq : ℕ
  capacity_pos : 0 < capacity
  length_le : data.length ≤ capacity
  firstSeq_pos : 0 < firstSeq
  /-- Bytes are evicted only to make room for others. -/
  ne_nil_of_evicted : 1 < firstSeq → data ≠ []
  deriving DecidableEq

namespace OutputRing

/-- `NewOutputRing`. -/
def new (capacity : ℤ) : OutputRing where
  data := []
  capacity := if capacity ≤ 0 then defaultOutputRingBytes else capacity.toNat
  firstSeq := 1
  capacity_pos := by
    split
    · decide
    · omega
  length_le := Nat.zero_le _
  firstSeq_pos := Nat.one_pos
  ne_nil_of_evicted := fun hevicted ↦ absurd hevicted (Nat.lt_irrefl 1)

variable (ring : OutputRing)

/-- The number of the next byte. -/
def nextSeq : ℕ := ring.firstSeq + ring.data.length

/-- `Write`, with the number of the first byte written and the length. -/
def write (p : Bytes) : OutputRing × ℕ × ℕ :=
  if hempty : p = [] then (ring, ring.nextSeq, 0)
  else if hlarge : ring.capacity ≤ p.length then
    ({ ring with
        data := p.drop (p.length - ring.capacity)
        firstSeq := ring.nextSeq + (p.length - ring.capacity)
        length_le := by
          rw [List.length_drop]
          omega
        firstSeq_pos := Nat.add_pos_left (Nat.add_pos_left ring.firstSeq_pos _) _
        ne_nil_of_evicted := by
          intro _ hnil
          have hlength := congrArg List.length hnil
          rw [List.length_drop, List.length_nil] at hlength
          have := ring.capacity_pos
          omega },
      ring.nextSeq, p.length)
  else
    let overflow := ring.data.length + p.length - ring.capacity
    ({ ring with
        data := ring.data.drop overflow ++ p
        firstSeq := ring.firstSeq + overflow
        length_le := by
          rw [List.length_append, List.length_drop]
          have := ring.length_le
          omega
        firstSeq_pos := Nat.add_pos_left ring.firstSeq_pos _
        ne_nil_of_evicted := fun _ ↦ List.append_ne_nil_of_right_ne_nil _ hempty },
      ring.nextSeq, p.length)

/-- What `From` returns: the data is there also beside an error. -/
structure Replay where
  data : Bytes
  nextSeq : ℕ
  err : Option RingError
  deriving DecidableEq

/-- `From`: the retained bytes from number `since` on. -/
def fromSeq (since : ℕ) : Replay :=
  if ring.data = [] then ⟨[], ring.firstSeq, none⟩
  else if ring.nextSeq ≤ since then ⟨[], ring.nextSeq, none⟩
  else if since = 0 then ⟨ring.data, ring.nextSeq, none⟩
  else if since < ring.firstSeq then ⟨ring.data, ring.nextSeq, some .seqBehindRing⟩
  else ⟨ring.data.drop (since - ring.firstSeq), ring.nextSeq, none⟩

/-- The ring holds the end of this stream. -/
structure Retains (stream : Bytes) : Prop where
  nextSeq_eq : ring.nextSeq = stream.length + 1
  data_eq : ring.data = stream.drop (ring.firstSeq - 1)

variable {ring} {stream : Bytes}

theorem retains_new (capacity : ℤ) : (new capacity).Retains [] := ⟨rfl, rfl⟩

/-- A write keeps the end of the stream in the ring. -/
theorem retains_write (hretains : ring.Retains stream) (p : Bytes) :
    (ring.write p).1.Retains (stream ++ p) := by
  have hnext := hretains.nextSeq_eq
  have hfirst := ring.firstSeq_pos
  unfold nextSeq at hnext
  unfold write
  split
  · next hempty =>
    rw [hempty, List.append_nil]
    exact hretains
  · split
    · next hlarge =>
      constructor
      · simp only [nextSeq, List.length_drop, List.length_append]
        omega
      · simp only [nextSeq]
        have hskip : ring.firstSeq + ring.data.length + (p.length - ring.capacity) - 1 =
            stream.length + (p.length - ring.capacity) := by omega
        rw [hskip, List.drop_append, List.drop_eq_nil_of_le (Nat.le_add_right _ _),
          Nat.add_sub_cancel_left, List.nil_append]
    · next hsmall =>
      have hbound := ring.length_le
      constructor
      · simp only [nextSeq, List.length_drop, List.length_append]
        omega
      · dsimp only
        have hskip : ring.firstSeq + (ring.data.length + p.length - ring.capacity) - 1 =
            ring.firstSeq - 1 + (ring.data.length + p.length - ring.capacity) := by omega
        rw [hskip, List.drop_append_of_le_length (by omega), ← List.drop_drop, ← hretains.data_eq]

/-- A ring of this capacity after these writes. -/
def written (capacity : ℤ) (writes : List Bytes) : OutputRing :=
  writes.foldl (fun ring p ↦ (ring.write p).1) (new capacity)

/-- After any writes the ring has the end of what was written. -/
theorem retains_written (capacity : ℤ) (writes : List Bytes) :
    (written capacity writes).Retains writes.flatten := by
  induction writes using List.reverseRecOn with
  | nil => exact retains_new capacity
  | append_singleton writes p ih =>
    rw [written, List.foldl_concat, List.flatten_concat]
    exact retains_write ih p

/-- The ring after writes that make up the stream. -/
def WrittenBy (capacity : ℤ) (ring : OutputRing) (stream : Bytes) : Prop :=
  ∃ writes, ring = written capacity writes ∧ stream = writes.flatten

theorem WrittenBy.write {capacity : ℤ} (hwritten : WrittenBy capacity ring stream) (p : Bytes) :
    WrittenBy capacity (ring.write p).1 (stream ++ p) := by
  obtain ⟨writes, rfl, rfl⟩ := hwritten
  exact ⟨writes ++ [p], by rw [written, written, List.foldl_concat], by rw [List.flatten_concat]⟩

theorem WrittenBy.retains {capacity : ℤ} (hwritten : WrittenBy capacity ring stream) :
    ring.Retains stream := by
  obtain ⟨writes, rfl, rfl⟩ := hwritten
  exact retains_written capacity writes

/-- What was evicted is at most what was written. -/
theorem Retains.firstSeq_le (hretains : ring.Retains stream) : ring.firstSeq ≤ stream.length + 1 := by
  rw [← hretains.nextSeq_eq]
  exact Nat.le_add_right _ _

theorem fromSeq_zero : (ring.fromSeq 0).data = ring.data ∧ (ring.fromSeq 0).err = none := by
  unfold fromSeq
  split
  · next hempty => exact ⟨hempty.symm, rfl⟩
  · have hpos : ¬ ring.nextSeq ≤ 0 := by
      have := ring.firstSeq_pos
      unfold nextSeq
      omega
    rw [if_neg hpos, if_pos rfl]
    exact ⟨rfl, rfl⟩

/-- From a retained number on, the replay is the stream from there. -/
theorem fromSeq_of_le (hretains : ring.Retains stream) {since : ℕ} (hle : ring.firstSeq ≤ since) :
    (ring.fromSeq since).data = stream.drop (since - 1) ∧ (ring.fromSeq since).err = none := by
  have hfirst := ring.firstSeq_pos
  have hnext := hretains.nextSeq_eq
  unfold fromSeq
  split
  · next hempty =>
    have hlength : stream.length ≤ since - 1 := by
      unfold nextSeq at hnext
      rw [hempty, List.length_nil] at hnext
      omega
    exact ⟨(List.drop_eq_nil_of_le hlength).symm, rfl⟩
  · split
    · next hcurrent => exact ⟨(List.drop_eq_nil_of_le (by omega)).symm, rfl⟩
    · rw [if_neg (by omega), if_neg (by omega)]
      have hskip : ring.firstSeq - 1 + (since - ring.firstSeq) = since - 1 := by omega
      refine ⟨?_, rfl⟩
      dsimp only
      rw [hretains.data_eq, List.drop_drop, hskip]

/-- Below the oldest retained number the whole window comes with an error. -/
theorem fromSeq_of_lt {since : ℕ} (hpos : 0 < since) (hlt : since < ring.firstSeq) :
    ring.fromSeq since = ⟨ring.data, ring.nextSeq, some .seqBehindRing⟩ := by
  unfold fromSeq
  rw [if_neg (ring.ne_nil_of_evicted (by omega)), if_neg (by unfold nextSeq; omega), if_neg (by omega),
    if_pos hlt]

end OutputRing

end Mosey.Streambuf

import Mathlib.Algebra.Group.Nat.Defs
import Mathlib.Data.List.Chain
import Mosey.Streambuf.OutputRing

/-!
# The ring with its 64-bit numbers, and a reader that follows it

The sequence numbers of the source are 64 bits wide, so they wrap. `OutputRing64` is the ring with these
numbers; it has the numbers of `OutputRing` up to multiples of `2 ^ 64`, and while the next number is
below that it answers as the whole log would. A reader that passes each call the number the last one
returned gets every byte once, as long as it is not overtaken by the eviction.
-/

namespace Mosey.Streambuf

namespace OutputRing

variable {ring : OutputRing} {log : Bytes}

/-- Bytes are evicted only from a full ring. -/
def Full (ring : OutputRing) : Prop := 1 < ring.firstSeq → ring.data.length = ring.capacity

/-- A new ring has evicted nothing. -/
theorem full_new (capacity : ℤ) : (new capacity).Full := fun hevicted ↦ absurd hevicted (Nat.lt_irrefl 1)

@[simp] theorem capacity_write (ring : OutputRing) (p : Bytes) :
    (ring.write p).1.capacity = ring.capacity := by
  unfold write
  split_ifs <;> rfl

/-- Once the ring evicts, it stays at its capacity. -/
theorem Full.write (hfull : ring.Full) (p : Bytes) : (ring.write p).1.Full := by
  unfold OutputRing.write
  split_ifs with hempty hlarge
  · exact hfull
  · intro _
    simp only [List.length_drop]
    omega
  · intro hevicted
    have hlength := ring.length_le
    unfold Full at hfull
    simp only [List.length_append, List.length_drop] at hevicted ⊢
    omega

/-- A full ring holds as much of the log as it can. -/
theorem Retains.length_eq (hretains : ring.Retains log) (hfull : ring.Full) :
    ring.data.length = min ring.capacity log.length := by
  have hnext := hretains.nextSeq_eq
  have hfirst := ring.firstSeq_pos
  have hlength := ring.length_le
  unfold nextSeq at hnext
  unfold Full at hfull
  omega

/-- The first sequence number is one more than the bytes that were evicted. -/
theorem Retains.firstSeq_eq (hretains : ring.Retains log) (hfull : ring.Full) :
    ring.firstSeq = log.length - ring.capacity + 1 := by
  have hnext := hretains.nextSeq_eq
  have hlength := hretains.length_eq hfull
  unfold nextSeq at hnext
  omega

/-- `From` gives what the log has from `since` on, as far as it is retained. -/
theorem Retains.fromSeq (hretains : ring.Retains log) (since : ℕ) :
    (ring.fromSeq since).data = log.drop (max ring.firstSeq since - 1) ∧
      (ring.fromSeq since).nextSeq = log.length + 1 ∧
      ((ring.fromSeq since).err = some .seqBehindRing ↔ 0 < since ∧ since < ring.firstSeq) := by
  have hnext : (ring.fromSeq since).nextSeq = log.length + 1 := by
    rw [← hretains.nextSeq_eq]
    unfold OutputRing.fromSeq
    split_ifs with hempty
    · simp [nextSeq, hempty]
    all_goals rfl
  rcases Nat.lt_or_ge since ring.firstSeq with hlt | hle
  · rw [Nat.max_eq_left hlt.le, ← hretains.data_eq]
    rcases Nat.eq_zero_or_pos since with rfl | hpos
    · exact ⟨fromSeq_zero.1, hnext, by simp [fromSeq_zero.2]⟩
    · have hbehind := fromSeq_of_lt hpos hlt
      exact ⟨by rw [hbehind], hnext, by simp [hbehind, hpos, hlt]⟩
  · obtain ⟨hdata, herr⟩ := fromSeq_of_le hretains hle
    rw [Nat.max_eq_right hle]
    exact ⟨hdata, hnext, by simp [herr, Nat.not_lt.mpr hle]⟩

end OutputRing

/-- The builtin `copy`, whose source may overlap the destination. -/
def copy (destination source : Bytes) : Bytes :=
  source.take destination.length ++ destination.drop source.length

structure OutputRing64 where
  data : Bytes
  capacity : ℕ
  firstSeq : UInt64
  deriving DecidableEq

namespace OutputRing64

/-- `NewOutputRing`. -/
def new (capacity : ℤ) : OutputRing64 where
  data := []
  capacity := if capacity ≤ 0 then defaultOutputRingBytes else capacity.toNat
  firstSeq := 1

variable (ring : OutputRing64)

def nextSeqLocked : UInt64 := ring.firstSeq + .ofNat ring.data.length

/-- The oldest bytes make room for others by a shift in place. -/
def evict (overflow : ℕ) : OutputRing64 :=
  { ring with
    data := (copy ring.data (ring.data.drop overflow)).take (ring.data.length - overflow)
    firstSeq := ring.firstSeq + .ofNat overflow }

/-- `Write`, with the number of the first byte written and the length. -/
def write (p : Bytes) : OutputRing64 × UInt64 × ℕ :=
  if p.length = 0 then (ring, ring.nextSeqLocked, 0)
  else if ring.capacity ≤ p.length then
    ({ ring with
        data := p.drop (p.length - ring.capacity)
        firstSeq := ring.nextSeqLocked + .ofNat (p.length - ring.capacity) },
      ring.nextSeqLocked, p.length)
  else
    let overflow : ℤ := ring.data.length + p.length - ring.capacity
    let evicted := if 0 < overflow then ring.evict overflow.toNat else ring
    ({ evicted with data := evicted.data ++ p }, ring.nextSeqLocked, p.length)

/-- What `From` returns: the data is there also beside an error. -/
structure Replay where
  data : Bytes
  nextSeq : UInt64
  err : Option RingError
  deriving DecidableEq

/-- `From`: the retained bytes from number `since` on. -/
def fromSeq (since : UInt64) : Replay :=
  if ring.data.length = 0 then ⟨[], ring.firstSeq, none⟩
  else if ring.nextSeqLocked ≤ since then ⟨[], ring.nextSeqLocked, none⟩
  else if since = 0 then ⟨ring.data, ring.nextSeqLocked, none⟩
  else if since < ring.firstSeq then ⟨ring.data, ring.nextSeqLocked, some .seqBehindRing⟩
  else ⟨ring.data.drop (since - ring.firstSeq).toNat, ring.nextSeqLocked, none⟩

/-- The ring is `counted`, with the numbers cut to 64 bits. -/
structure Follows (counted : OutputRing) : Prop where
  data_eq : ring.data = counted.data
  capacity_eq : ring.capacity = counted.capacity
  firstSeq_eq : ring.firstSeq = .ofNat counted.firstSeq

variable {ring} {counted : OutputRing}

/-- The ring of the source after these writes. -/
def written (capacity : ℤ) (writes : List Bytes) : OutputRing64 :=
  writes.foldl (fun ring p ↦ (ring.write p).1) (new capacity)

theorem follows_new (capacity : ℤ) : (new capacity).Follows (.new capacity) := ⟨rfl, rfl, rfl⟩

namespace Follows

variable (hfollows : ring.Follows counted)
include hfollows

theorem nextSeq_eq : ring.nextSeqLocked = .ofNat counted.nextSeq := by
  rw [nextSeqLocked, hfollows.firstSeq_eq, hfollows.data_eq, OutputRing.nextSeq, UInt64.ofNat_add]

theorem data_evict (overflow : ℕ) : (ring.evict overflow).data = counted.data.drop overflow := by
  have hshort : (counted.data.drop overflow).length ≤ counted.data.length := by
    rw [List.length_drop]
    omega
  simp [evict, copy, hfollows.data_eq, List.take_of_length_le hshort]

/-- A write of the 64-bit ring follows one of the unbounded ring. -/
theorem write (p : Bytes) :
    (ring.write p).1.Follows (counted.write p).1 ∧ (ring.write p).2.1 = .ofNat counted.nextSeq ∧
      (ring.write p).2.2 = p.length := by
  have hnext := hfollows.nextSeq_eq
  unfold OutputRing64.write OutputRing.write
  by_cases hempty : p = []
  · simp [hempty, hfollows, hnext]
  · rw [if_neg (by simpa using hempty), dif_neg hempty, hfollows.capacity_eq]
    by_cases hlarge : counted.capacity ≤ p.length
    · rw [if_pos hlarge, dif_pos hlarge]
      exact ⟨⟨rfl, rfl, by simp [hnext, UInt64.ofNat_add]⟩, hnext, rfl⟩
    · rw [if_neg hlarge, dif_neg hlarge]
      refine ⟨?_, hnext, rfl⟩
      dsimp only
      have hover : ((ring.data.length + p.length - counted.capacity : ℤ)).toNat =
          counted.data.length + p.length - counted.capacity := by
        rw [hfollows.data_eq]
        omega
      split
      · rw [hover]
        refine ⟨by rw [hfollows.data_evict], hfollows.capacity_eq, ?_⟩
        simp [evict, hfollows.firstSeq_eq, UInt64.ofNat_add]
      · next hfits =>
        have hzero : counted.data.length + p.length - counted.capacity = 0 := by omega
        exact ⟨by simp [hzero, hfollows.data_eq], hfollows.capacity_eq,
          by simp [hzero, hfollows.firstSeq_eq]⟩

theorem toNat_nextSeq (hbound : counted.nextSeq < 2 ^ 64) : ring.nextSeqLocked.toNat = counted.nextSeq := by
  rw [hfollows.nextSeq_eq, UInt64.toNat_ofNat_of_lt' hbound]

/-- Until the numbers wrap, the first sequence number is the one without wrapping. -/
theorem toNat_firstSeq (hbound : counted.nextSeq < 2 ^ 64) : ring.firstSeq.toNat = counted.firstSeq := by
  have hle : counted.firstSeq ≤ counted.nextSeq := Nat.le_add_right _ _
  rw [hfollows.firstSeq_eq, UInt64.toNat_ofNat_of_lt' (hle.trans_lt hbound)]

/-- Below the first number that wraps both rings give the same. -/
theorem fromSeq (hbound : counted.nextSeq < 2 ^ 64) (since : UInt64) :
    (ring.fromSeq since).data = (counted.fromSeq since.toNat).data ∧
      (ring.fromSeq since).nextSeq.toNat = (counted.fromSeq since.toNat).nextSeq ∧
      (ring.fromSeq since).err = (counted.fromSeq since.toNat).err := by
  have hnext := hfollows.toNat_nextSeq hbound
  have hfirst := hfollows.toNat_firstSeq hbound
  have hempty : ring.data.length = 0 ↔ counted.data = [] := by
    rw [hfollows.data_eq, List.length_eq_zero_iff]
  have hcurrent : ring.nextSeqLocked ≤ since ↔ counted.nextSeq ≤ since.toNat := by
    rw [UInt64.le_iff_toNat_le, hnext]
  have hfresh : since = 0 ↔ since.toNat = 0 := by rw [← UInt64.toNat_inj, UInt64.toNat_zero]
  have hbehind : since < ring.firstSeq ↔ since.toNat < counted.firstSeq := by
    rw [UInt64.lt_iff_toNat_lt, hfirst]
  simp only [OutputRing64.fromSeq, OutputRing.fromSeq, hempty, hcurrent, hfresh, hbehind]
  split_ifs with _ _ _ hlt
  · exact ⟨rfl, hfirst, rfl⟩
  · exact ⟨rfl, hnext, rfl⟩
  · exact ⟨hfollows.data_eq, hnext, rfl⟩
  · exact ⟨hfollows.data_eq, hnext, rfl⟩
  · have hle : ring.firstSeq ≤ since := by
      rw [UInt64.le_iff_toNat_le, hfirst]
      omega
    exact ⟨by rw [hfollows.data_eq, UInt64.toNat_sub_of_le _ _ hle, hfirst], hnext, rfl⟩

end Follows

theorem follows_written (capacity : ℤ) (writes : List Bytes) :
    (written capacity writes).Follows (.written capacity writes) := by
  induction writes using List.reverseRecOn with
  | nil => exact follows_new capacity
  | append_singleton writes p ih =>
    rw [written, OutputRing.written, List.foldl_concat, List.foldl_concat]
    exact (ih.write p).1

/-! ## The log -/

/-- The ring of this capacity answers as the whole log does, as far as it retains it. -/
structure RefinesLog (capacity : ℕ) (log : Bytes) (ring : OutputRing64) : Prop where
  data_eq : ring.data = log.drop (log.length - min capacity log.length)
  firstSeq_eq : ring.firstSeq.toNat = log.length - ring.data.length + 1
  write_eq (p : Bytes) : (ring.write p).2.1.toNat = log.length + 1 ∧ (ring.write p).2.2 = p.length
  data_fromSeq (since : UInt64) :
    (ring.fromSeq since).data = log.drop (max ring.firstSeq.toNat since.toNat - 1)
  nextSeq_fromSeq (since : UInt64) : (ring.fromSeq since).nextSeq.toNat = log.length + 1
  err_fromSeq (since : UInt64) :
    (ring.fromSeq since).err = some .seqBehindRing ↔ 0 < since ∧ since < ring.firstSeq

/-- What the ring has of the log, whatever its numbers. -/
structure Tracks (capacity : ℕ) (log : Bytes) (ring : OutputRing64) (counted : OutputRing) : Prop where
  follows : ring.Follows counted
  retains : counted.Retains log
  full : counted.Full
  capacity_eq : counted.capacity = capacity

namespace Tracks

variable {capacity : ℕ} {log : Bytes}

theorem new (hcapacity : 0 < capacity) : Tracks capacity [] (.new capacity) (.new capacity) where
  follows := follows_new capacity
  retains := OutputRing.retains_new capacity
  full := OutputRing.full_new capacity
  capacity_eq := by
    simp [OutputRing.new, hcapacity.ne']

theorem write (htracks : Tracks capacity log ring counted) (p : Bytes) :
    Tracks capacity (log ++ p) (ring.write p).1 (counted.write p).1 where
  follows := (htracks.follows.write p).1
  retains := OutputRing.retains_write htracks.retains p
  full := htracks.full.write p
  capacity_eq := by rw [OutputRing.capacity_write, htracks.capacity_eq]

theorem firstSeq_eq (htracks : Tracks capacity log ring counted) (hbound : log.length + 1 < 2 ^ 64) :
    ring.firstSeq.toNat = log.length - capacity + 1 := by
  rw [htracks.follows.toNat_firstSeq (htracks.retains.nextSeq_eq ▸ hbound),
    htracks.retains.firstSeq_eq htracks.full, htracks.capacity_eq]

/-- Until the numbers wrap, the ring answers every read as the log does. -/
theorem refinesLog (htracks : Tracks capacity log ring counted) (hbound : log.length + 1 < 2 ^ 64) :
    RefinesLog capacity log ring := by
  have hnext := htracks.retains.nextSeq_eq
  have hnextBound : counted.nextSeq < 2 ^ 64 := hnext ▸ hbound
  have hfirst := htracks.follows.toNat_firstSeq hnextBound
  have hfirstSeq := htracks.retains.firstSeq_eq htracks.full
  have hlength := htracks.retains.length_eq htracks.full
  rw [htracks.capacity_eq] at hfirstSeq hlength
  constructor
  case data_eq =>
    rw [htracks.follows.data_eq, htracks.retains.data_eq, hfirstSeq]
    congr 1
    omega
  case firstSeq_eq =>
    rw [htracks.firstSeq_eq hbound, htracks.follows.data_eq, hlength]
    omega
  case write_eq =>
    intro p
    obtain ⟨-, hseq, hcount⟩ := htracks.follows.write p
    rw [hseq, hnext, UInt64.toNat_ofNat_of_lt' hbound]
    exact ⟨rfl, hcount⟩
  case data_fromSeq =>
    intro since
    rw [(htracks.follows.fromSeq hnextBound since).1, (htracks.retains.fromSeq since.toNat).1, hfirst]
  case nextSeq_fromSeq =>
    intro since
    rw [(htracks.follows.fromSeq hnextBound since).2.1, (htracks.retains.fromSeq since.toNat).2.1]
  case err_fromSeq =>
    intro since
    rw [(htracks.follows.fromSeq hnextBound since).2.2, (htracks.retains.fromSeq since.toNat).2.2,
      UInt64.lt_iff_toNat_lt, UInt64.lt_iff_toNat_lt, hfirst, UInt64.toNat_zero]

end Tracks

end OutputRing64

inductive Call
  | write (p : Bytes)
  | read
  deriving DecidableEq

/-- One `From` of the reader, with the log at its time. -/
structure Read where
  log : Bytes
  replay : OutputRing64.Replay
  deriving DecidableEq

/-- A ring, what was written to it, and a reader with the number it asks for next. -/
structure Reader where
  ring : OutputRing64
  log : Bytes
  since : UInt64
  reads : List Read
  deriving DecidableEq

namespace Reader

def start (capacity : ℕ) : Reader := ⟨.new capacity, [], 0, []⟩

def step (reader : Reader) : Call → Reader
  | .write p => { reader with ring := (reader.ring.write p).1, log := reader.log ++ p }
  | .read =>
    let replay := reader.ring.fromSeq reader.since
    { reader with since := replay.nextSeq, reads := reader.reads ++ [⟨reader.log, replay⟩] }

/-- A reader that starts with `From(0)`, among writes. -/
def run (capacity : ℕ) (calls : List Call) : Reader := calls.foldl step (start capacity)

theorem run_concat (capacity : ℕ) (calls : List Call) (call : Call) :
    run capacity (calls ++ [call]) = (run capacity calls).step call := List.foldl_concat _ _ _ _

/-- The later read returns what was written since the earlier one, as far as it is still there, and an
error where it is not. -/
def Continues (capacity : ℕ) (earlier later : Read) : Prop :=
  earlier.log <+: later.log ∧
    later.replay.data = later.log.drop (max earlier.log.length (later.log.length - capacity)) ∧
    (later.replay.err = some .seqBehindRing ↔
      ∃ position, earlier.log.length < position ∧ position ≤ later.log.length - capacity)

/-- The first read returns what is there. -/
def Begins (capacity : ℕ) (first : Read) : Prop :=
  first.replay.data = first.log.drop (first.log.length - capacity) ∧ first.replay.err = none

/-- What holds of a reader along its calls. -/
structure Sound (capacity : ℕ) (reader : Reader) : Prop where
  fresh : reader.reads = [] → reader.since = 0
  current : ∀ last ∈ reader.reads.getLast?,
    last.log <+: reader.log ∧ reader.since.toNat = last.log.length + 1
  begins : ∀ first ∈ reader.reads.head?, Begins capacity first
  continues : reader.reads.IsChain (Continues capacity)

variable {capacity : ℕ} {reader : Reader}

theorem sound_start (capacity : ℕ) : (start capacity).Sound capacity where
  fresh _ := rfl
  current := by simp [start]
  begins := by simp [start]
  continues := .nil

theorem Sound.write (hsound : reader.Sound capacity) (p : Bytes) :
    (reader.step (.write p)).Sound capacity where
  fresh := hsound.fresh
  current last hlast :=
    ⟨(hsound.current last hlast).1.trans (List.prefix_append _ _), (hsound.current last hlast).2⟩
  begins := hsound.begins
  continues := hsound.continues

/-- A call of `From` that is the first, or follows another. -/
theorem Sound.answer (hsound : reader.Sound capacity) {counted : OutputRing}
    (htracks : reader.ring.Tracks capacity reader.log counted) (hbound : reader.log.length + 1 < 2 ^ 64) :
    (reader.reads = [] → Begins capacity ⟨reader.log, reader.ring.fromSeq reader.since⟩) ∧
      ∀ last ∈ reader.reads.getLast?,
        Continues capacity last ⟨reader.log, reader.ring.fromSeq reader.since⟩ := by
  have hfirst := htracks.firstSeq_eq hbound
  have hrefines := htracks.refinesLog hbound
  have hdata := hrefines.data_fromSeq reader.since
  have herr := hrefines.err_fromSeq reader.since
  rw [hfirst] at hdata
  constructor
  · intro hempty
    rw [hsound.fresh hempty] at hdata herr ⊢
    refine ⟨by simpa using hdata, ?_⟩
    cases hresult : (reader.ring.fromSeq 0).err with
    | none => rfl
    | some error =>
      cases error
      exact absurd (herr.mp hresult).1 (by decide)
  · intro last hlast
    obtain ⟨hearlier, hsince⟩ := hsound.current last hlast
    refine ⟨hearlier, ?_, ?_⟩
    · dsimp only
      rw [hdata, hsince]
      congr 1
      omega
    · dsimp only
      rw [herr, UInt64.lt_iff_toNat_lt, UInt64.lt_iff_toNat_lt, hfirst, hsince, UInt64.toNat_zero]
      constructor
      · intro hbehind
        exact ⟨last.log.length + 1, by omega, by omega⟩
      · rintro ⟨position, hafter, hevicted⟩
        omega

/-- A read gives what the log has from the reader's position on, or says what is lost. -/
theorem Sound.read (hsound : reader.Sound capacity) {counted : OutputRing}
    (htracks : reader.ring.Tracks capacity reader.log counted) (hbound : reader.log.length + 1 < 2 ^ 64) :
    (reader.step .read).Sound capacity where
  fresh := by simp [step]
  current := by
    simpa [step] using (htracks.refinesLog hbound).nextSeq_fromSeq reader.since
  begins := by
    intro first hfirst
    cases hreads : reader.reads with
    | nil =>
      obtain rfl : _ = first := by simpa [step, hreads] using hfirst
      exact (hsound.answer htracks hbound).1 hreads
    | cons read reads =>
      obtain rfl : read = first := by simpa [step, hreads] using hfirst
      exact hsound.begins read (by simp [hreads])
  continues := by
    refine List.isChain_append.mpr ⟨hsound.continues, .singleton _, ?_⟩
    intro last hlast next hnext
    obtain rfl : _ = next := by simpa using hnext
    exact (hsound.answer htracks hbound).2 last hlast

/-- The bytes that these calls write. -/
def writtenBy (calls : List Call) : Bytes :=
  calls.flatMap fun
    | .write p => p
    | .read => []

theorem log_run (capacity : ℕ) (calls : List Call) : (run capacity calls).log = writtenBy calls := by
  induction calls using List.reverseRecOn with
  | nil => rfl
  | append_singleton calls call ih =>
    rw [run_concat, writtenBy, List.flatMap_append]
    cases call <;> simp [step, ih, writtenBy]

theorem tracks_run (hcapacity : 0 < capacity) (calls : List Call) :
    ∃ counted, (run capacity calls).ring.Tracks capacity (run capacity calls).log counted := by
  induction calls using List.reverseRecOn with
  | nil => exact ⟨_, .new hcapacity⟩
  | append_singleton calls call ih =>
    obtain ⟨counted, htracks⟩ := ih
    rw [run_concat]
    cases call with
    | write p => exact ⟨_, htracks.write p⟩
    | read => exact ⟨counted, htracks⟩

/-- The reader is sound after any calls while the numbers do not wrap. -/
theorem sound_run (hcapacity : 0 < capacity) {calls : List Call}
    (hbound : (writtenBy calls).length + 1 < 2 ^ 64) : (run capacity calls).Sound capacity := by
  induction calls using List.reverseRecOn with
  | nil => exact sound_start capacity
  | append_singleton calls call ih =>
    have hbefore : (writtenBy calls).length + 1 < 2 ^ 64 := by
      simp only [writtenBy, List.flatMap_append, List.length_append] at hbound ⊢
      omega
    obtain ⟨counted, htracks⟩ := tracks_run hcapacity calls
    rw [run_concat]
    cases call with
    | write p => exact (ih hbefore).write p
    | read => exact (ih hbefore).read htracks (by rwa [log_run])

/-- Without an error the later read returns all that was written since the earlier one. -/
theorem Continues.data_eq {earlier later : Read} (hcontinues : Continues capacity earlier later)
    (hquiet : later.replay.err = none) : later.replay.data = later.log.drop earlier.log.length := by
  obtain ⟨-, hdata, herr⟩ := hcontinues
  have hretained : later.log.length - capacity ≤ earlier.log.length := by
    by_contra hevicted
    have := herr.mpr ⟨later.log.length - capacity, by omega, le_rfl⟩
    simp [hquiet] at this
  rw [hdata, Nat.max_eq_left hretained]

/-- Reads without an error return together what was written since the read before them. -/
theorem flatten_of_continues {first : Read} {reads : List Read}
    (hchain : (first :: reads).IsChain (Continues capacity))
    (hquiet : ∀ read ∈ reads, read.replay.err = none) :
    first.log <+: ((first :: reads).getLast (by simp)).log ∧
      (reads.map fun read ↦ read.replay.data).flatten =
        ((first :: reads).getLast (by simp)).log.drop first.log.length := by
  induction reads generalizing first with
  | nil => simp
  | cons next reads ih =>
    obtain ⟨hcontinues, hrest⟩ := List.isChain_cons_cons.mp hchain
    obtain ⟨hlast, hdata⟩ := ih hrest fun read hread ↦ hquiet read (by simp [hread])
    have hnext := hcontinues.data_eq (hquiet next (by simp))
    rw [List.getLast_cons (by simp), List.map_cons, List.flatten_cons, hdata, hnext]
    generalize (next :: reads).getLast _ = last at hlast
    obtain ⟨behind, hbehind⟩ := hlast
    refine ⟨hcontinues.1.trans ⟨behind, hbehind⟩, ?_⟩
    rw [← hbehind, List.drop_left, List.drop_append_of_le_length hcontinues.1.length_le]

/-- The ring answers as the log does while the next number fits into 64 bits, and a reader gets what is
retained at its first call and then all that is written, once and in order, or an error exactly where
bytes it had not got were evicted. -/
theorem run_refines_log (hcapacity : 0 < capacity) (calls : List Call)
    (hbound : (writtenBy calls).length + 1 < 2 ^ 64) :
    (run capacity calls).ring.RefinesLog capacity (writtenBy calls) ∧
      (∀ first ∈ (run capacity calls).reads.head?, Begins capacity first) ∧
      (run capacity calls).reads.IsChain (Continues capacity) ∧
      ∀ first reads, first :: reads <:+: (run capacity calls).reads →
        (∀ read ∈ reads, read.replay.err = none) →
        (reads.map fun read ↦ read.replay.data).flatten =
          ((first :: reads).getLast (by simp)).log.drop first.log.length := by
  have hsound := sound_run hcapacity hbound
  obtain ⟨counted, htracks⟩ := tracks_run hcapacity calls
  rw [log_run] at htracks
  refine ⟨htracks.refinesLog hbound, hsound.begins, hsound.continues, ?_⟩
  intro first reads hinfix hquiet
  have hchain := List.IsChain.infix hsound.continues hinfix
  exact (flatten_of_continues hchain hquiet).2

theorem run_refines_log_overtaken :
    (run 4 [.write [1, 2, 3], .read, .write [4, 5, 6, 7, 8], .read]).ring.RefinesLog 4
        [1, 2, 3, 4, 5, 6, 7, 8] ∧
      (run 4 [.write [1, 2, 3], .read, .write [4, 5, 6, 7, 8], .read]).reads.map Read.replay =
        [⟨[1, 2, 3], 4, none⟩, ⟨[5, 6, 7, 8], 9, some .seqBehindRing⟩] :=
  ⟨(@run_refines_log 4 (by decide) [.write [1, 2, 3], .read, .write [4, 5, 6, 7, 8], .read]
    (by decide)).1, by decide⟩

/-- Once the next number is zero, a fresh reader gets nothing. -/
theorem fromSeq_zero_of_wrapped (hcapacity : 0 < capacity) {calls : List Call}
    (hlength : (writtenBy calls).length + 1 = 2 ^ 64) :
    (run capacity calls).ring.data ≠ [] ∧ (run capacity calls).ring.fromSeq 0 = ⟨[], 0, none⟩ := by
  obtain ⟨counted, htracks⟩ := tracks_run hcapacity calls
  rw [log_run] at htracks
  have hnext : (run capacity calls).ring.nextSeqLocked = 0 := by
    rw [htracks.follows.nextSeq_eq, htracks.retains.nextSeq_eq, hlength]
    rfl
  have hdata : (run capacity calls).ring.data.length ≠ 0 := by
    rw [htracks.follows.data_eq, htracks.retains.length_eq htracks.full, htracks.capacity_eq]
    omega
  refine ⟨fun hempty ↦ hdata (by simp [hempty]), ?_⟩
  rw [OutputRing64.fromSeq, if_neg hdata, hnext, if_pos (UInt64.le_refl 0)]

theorem length_writtenBy_replicate (count : ℕ) (p : Bytes) :
    (writtenBy (List.replicate count (.write p))).length = count * p.length := by
  induction count with
  | zero => simp [writtenBy]
  | succ count ih =>
    rw [List.replicate_succ, writtenBy, List.flatMap_cons, List.length_append, ← writtenBy, ih,
      Nat.succ_mul, Nat.add_comm]

/-- The number behind the last byte of a log of this length does not fit into 64 bits. -/
theorem run_wraps :
    (writtenBy (.replicate (2 ^ 32 + 1) (.write (.replicate (2 ^ 32 - 1) 0)))).length < 2 ^ 64 ∧
      (run 1 (.replicate (2 ^ 32 + 1) (.write (.replicate (2 ^ 32 - 1) 0)))).ring.data ≠ [] ∧
      (run 1 (.replicate (2 ^ 32 + 1) (.write (.replicate (2 ^ 32 - 1) 0)))).ring.fromSeq 0 =
        ⟨[], 0, none⟩ := by
  have hlength := length_writtenBy_replicate (2 ^ 32 + 1) (.replicate (2 ^ 32 - 1) 0)
  rw [List.length_replicate] at hlength
  exact ⟨by rw [hlength]; decide, fromSeq_zero_of_wrapped Nat.one_pos (by rw [hlength]; decide)⟩

end Reader

end Mosey.Streambuf

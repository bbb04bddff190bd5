import Mathlib.Algebra.Ring.Nat
import Mathlib.Data.List.Induction
import Mosey.Bytes

/-!
# The input queue

Input that comes while the stream is down is queued in chunks, up to a capacity in bytes. A full queue
refuses new chunks or evicts its oldest ones. `Enqueued` says what `Enqueue` can do; a ledger counts the
bytes that were accepted, drained, dropped and discarded along a run.
-/

namespace Mosey.Streambuf

def defaultInputQueueBytes : ℕ := 64 * 1024

inductive DropPolicy
  | dropOldest
  | dropNew
  deriving DecidableEq

inductive QueueError
  | queueFull
  deriving DecidableEq

structure InputQueue where
  chunks : List Bytes
  bytes : ℤ
  capacity : ℕ
  policy : DropPolicy
  deriving DecidableEq

/-- The number of bytes in these chunks. -/
def total (chunks : List Bytes) : ℕ := (chunks.map List.length).sum

@[simp] theorem total_nil : total [] = 0 := rfl

@[simp] theorem total_cons (chunk : Bytes) (chunks : List Bytes) :
    total (chunk :: chunks) = chunk.length + total chunks := rfl

@[simp] theorem total_append (first second : List Bytes) :
    total (first ++ second) = total first + total second := by
  simp [total]

namespace InputQueue

/-- `NewInputQueue`. -/
def new (capacity : ℤ) (policy : DropPolicy) : InputQueue where
  chunks := []
  bytes := 0
  capacity := if capacity ≤ 0 then defaultInputQueueBytes else capacity.toNat
  policy := policy

/-- What the methods leave and return. -/
structure Enqueueing where
  queue : InputQueue
  dropped : ℤ
  err : Option QueueError
  deriving DecidableEq

/-- The loop of `Enqueue` that evicts the oldest chunks: what is left of the chunks, their bytes, and the
bytes dropped so far. -/
def evict (capacity size : ℕ) : List Bytes → ℤ → ℤ → List Bytes × ℤ × ℤ
  | [], bytes, dropped => ([], bytes, dropped)
  | head :: chunks, bytes, dropped =>
    if bytes + size > capacity then
      evict capacity size chunks (bytes - head.length) (dropped + head.length)
    else (head :: chunks, bytes, dropped)

variable (queue : InputQueue)

/-- `Enqueue`. -/
def enqueue (chunk : Bytes) : Enqueueing :=
  if chunk.length = 0 then ⟨queue, 0, none⟩
  else if chunk.length > queue.capacity then
    if queue.policy = .dropNew then ⟨queue, 0, some .queueFull⟩
    else
      let tail := chunk.drop (chunk.length - queue.capacity)
      ⟨{ queue with chunks := [tail], bytes := tail.length },
        queue.bytes + (chunk.length - queue.capacity : ℕ), none⟩
  else if queue.bytes + chunk.length ≤ queue.capacity then
    ⟨{ queue with chunks := queue.chunks ++ [chunk], bytes := queue.bytes + chunk.length }, 0, none⟩
  else if queue.policy = .dropNew then ⟨queue, 0, some .queueFull⟩
  else
    let (chunks, bytes, dropped) := evict queue.capacity chunk.length queue.chunks queue.bytes 0
    ⟨{ queue with chunks := chunks ++ [chunk], bytes := bytes + chunk.length }, dropped, none⟩

/-- `Drain`, with the chunks it returns. -/
def drain : InputQueue × List Bytes := ({ queue with chunks := [], bytes := 0 }, queue.chunks)

/-- `Reset`. -/
def reset : InputQueue := { queue with chunks := [], bytes := 0 }

/-- The counter is right and within the capacity, and no chunk is empty. -/
structure Counted : Prop where
  bytes_eq : queue.bytes = total queue.chunks
  bytes_le : queue.bytes ≤ queue.capacity
  ne_nil : ∀ chunk ∈ queue.chunks, chunk ≠ []

/-- What a queue keeps of a chunk. -/
def lastBytes (capacity : ℕ) (chunk : Bytes) : Bytes := chunk.drop (chunk.length - capacity)

/-- The queue without its oldest `count` chunks has room for this many bytes. -/
def Fits (count size : ℕ) : Prop := total (queue.chunks.drop count) + size ≤ queue.capacity

/-- What `Enqueue` can do. -/
inductive Enqueued (chunk : Bytes) : Enqueueing → Prop
  | empty : chunk = [] → Enqueued chunk ⟨queue, 0, none⟩
  | refused : queue.policy = .dropNew → ¬ queue.Fits 0 chunk.length →
      Enqueued chunk ⟨queue, 0, some .queueFull⟩
  | stored (count : ℕ) : chunk ≠ [] → (queue.policy = .dropNew → queue.Fits 0 chunk.length) →
      queue.Fits count (lastBytes queue.capacity chunk).length →
      (∀ fewer, queue.Fits fewer (lastBytes queue.capacity chunk).length → count ≤ fewer) →
      Enqueued chunk
        ⟨{ queue with
            chunks := queue.chunks.drop count ++ [lastBytes queue.capacity chunk]
            bytes := total (queue.chunks.drop count) + (lastBytes queue.capacity chunk).length },
          total (queue.chunks.take count) + (chunk.length - (lastBytes queue.capacity chunk).length : ℕ),
          none⟩

variable {queue}

theorem lastBytes_of_le {capacity : ℕ} {chunk : Bytes} (hle : chunk.length ≤ capacity) :
    lastBytes capacity chunk = chunk := by
  rw [lastBytes, Nat.sub_eq_zero_of_le hle, List.drop_zero]

/-- At most as many bytes are kept as the capacity allows. -/
theorem length_lastBytes (capacity : ℕ) (chunk : Bytes) :
    (lastBytes capacity chunk).length = min capacity chunk.length := by
  rw [lastBytes, List.length_drop]
  omega

/-- The loop evicts the fewest chunks after which the new one fits. -/
theorem evict_eq {capacity size : ℕ} (hsize : size ≤ capacity) (chunks : List Bytes) (dropped : ℤ) :
    ∃ count, evict capacity size chunks (total chunks) dropped =
        (chunks.drop count, (total (chunks.drop count) : ℤ), dropped + total (chunks.take count)) ∧
      total (chunks.drop count) + size ≤ capacity ∧
      ∀ fewer, total (chunks.drop fewer) + size ≤ capacity → count ≤ fewer := by
  induction chunks generalizing dropped with
  | nil => exact ⟨0, by simp [evict], by simpa using hsize, fun _ _ ↦ Nat.zero_le _⟩
  | cons head chunks ih =>
    by_cases hfits : total (head :: chunks) + size ≤ capacity
    · refine ⟨0, ?_, hfits, fun _ _ ↦ Nat.zero_le _⟩
      rw [evict, if_neg (by omega)]
      simp
    · obtain ⟨count, hevict, hroom, hfewest⟩ := ih (dropped + head.length)
      refine ⟨count + 1, ?_, by simpa using hroom, ?_⟩
      · have hbytes : (total (head :: chunks) : ℤ) - head.length = total chunks := by
          rw [total_cons]
          omega
        rw [evict, if_pos (by omega), hbytes, hevict]
        simp [Int.add_assoc]
      · intro fewer hfewer
        cases fewer with
        | zero => exact absurd hfewer hfits
        | succ fewer => exact Nat.succ_le_succ (hfewest fewer (by simpa using hfewer))

/-- Chunks that are not empty have bytes. -/
theorem eq_nil_of_total_eq_zero {chunks : List Bytes} (hchunks : ∀ chunk ∈ chunks, chunk ≠ [])
    (htotal : total chunks = 0) : chunks = [] := by
  cases chunks with
  | nil => rfl
  | cons chunk chunks =>
    have hempty : chunk = [] := by
      rw [total_cons] at htotal
      exact List.length_eq_zero_iff.mp (by omega)
    exact absurd hempty (hchunks chunk (by simp))

/-- What one call of `Enqueue` keeps and what it drops. -/
theorem enqueued (hcounted : queue.Counted) (chunk : Bytes) :
    queue.Enqueued chunk (queue.enqueue chunk) := by
  have hbytes := hcounted.bytes_eq
  have hchunk : ¬ chunk.length = 0 → chunk ≠ [] := fun h hnil ↦ h (by simp [hnil])
  unfold enqueue
  split_ifs with hempty hlarge hnew hfits hnew
  · exact .empty (List.length_eq_zero_iff.mp hempty)
  · exact .refused hnew (by simp only [Fits, List.drop_zero]; omega)
  · have hlength : (lastBytes queue.capacity chunk).length = queue.capacity := by
      rw [length_lastBytes]
      omega
    have hfewest : ∀ fewer, queue.Fits fewer (lastBytes queue.capacity chunk).length →
        queue.chunks.length ≤ fewer := by
      intro fewer hfewer
      unfold Fits at hfewer
      rw [← List.drop_eq_nil_iff]
      apply eq_nil_of_total_eq_zero (fun kept hkept ↦ hcounted.ne_nil kept (List.mem_of_mem_drop hkept))
      omega
    have hstored : queue.Enqueued chunk _ := .stored queue.chunks.length (hchunk hempty)
      (fun h ↦ absurd h hnew) (by simp [Fits, hlength]) hfewest
    rw [← lastBytes]
    simpa [hlength, hbytes] using hstored
  · have hkept : lastBytes queue.capacity chunk = chunk := lastBytes_of_le (by omega)
    have hroom : queue.Fits 0 chunk.length := by
      simp only [Fits, List.drop_zero]
      omega
    have hstored : queue.Enqueued chunk _ := .stored 0 (hchunk hempty) (fun _ ↦ hroom) (by rwa [hkept])
      (fun _ _ ↦ Nat.zero_le _)
    simpa [hkept, hbytes] using hstored
  · exact .refused hnew (by simp only [Fits, List.drop_zero]; omega)
  · have hkept : lastBytes queue.capacity chunk = chunk := lastBytes_of_le (by omega)
    obtain ⟨count, hevict, hroom, hfewest⟩ := evict_eq (by omega : chunk.length ≤ queue.capacity)
      queue.chunks 0
    have hstored : queue.Enqueued chunk _ := .stored count (hchunk hempty) (fun h ↦ absurd h hnew)
      (by rwa [hkept]) (by rwa [hkept])
    rw [hbytes, hevict]
    simpa [hkept] using hstored

/-- The byte count stays the total of the queued chunks. -/
theorem counted_enqueue (hcounted : queue.Counted) (hcapacity : 0 < queue.capacity) (chunk : Bytes) :
    (queue.enqueue chunk).queue.Counted := by
  have henqueued := enqueued hcounted chunk
  generalize queue.enqueue chunk = result at henqueued
  cases henqueued with
  | empty | refused => exact hcounted
  | stored count hchunk _ hroom _ =>
    refine ⟨by simp, by unfold Fits at hroom; dsimp only; omega, ?_⟩
    intro kept hkept
    rcases List.mem_append.mp hkept with hold | hnew
    · exact hcounted.ne_nil kept (List.mem_of_mem_drop hold)
    · rw [List.mem_singleton.mp hnew, ← List.length_pos_iff, length_lastBytes]
      exact Nat.lt_min.mpr ⟨hcapacity, List.length_pos_iff.mpr hchunk⟩

/-- What the calls of `Enqueue` on a queue do, by what they return. -/
structure Behaves (queue : InputQueue) (chunk : Bytes) : Prop where
  refused_iff : (queue.enqueue chunk).err = some .queueFull ↔
    queue.policy = .dropNew ∧ ¬ queue.Fits 0 chunk.length
  unchanged : (queue.enqueue chunk).err = some .queueFull →
    (queue.enqueue chunk).queue = queue ∧ (queue.enqueue chunk).dropped = 0
  empty : chunk = [] → queue.enqueue chunk = ⟨queue, 0, none⟩
  fewest : (queue.enqueue chunk).err = none → chunk ≠ [] →
    ∃ count, (queue.enqueue chunk).queue.chunks =
        queue.chunks.drop count ++ [lastBytes queue.capacity chunk] ∧
      (queue.enqueue chunk).dropped = total (queue.chunks.take count) +
        (chunk.length - (lastBytes queue.capacity chunk).length : ℕ) ∧
      queue.Fits count (lastBytes queue.capacity chunk).length ∧
      ∀ fewer, queue.Fits fewer (lastBytes queue.capacity chunk).length → count ≤ fewer

theorem behaves (hcounted : queue.Counted) (chunk : Bytes) : queue.Behaves chunk := by
  have henqueued := enqueued hcounted chunk
  have hfits : chunk = [] → queue.Fits 0 chunk.length := by
    rintro rfl
    have := hcounted.bytes_eq
    have := hcounted.bytes_le
    simp only [Fits, List.drop_zero, List.length_nil]
    omega
  generalize hresult : queue.enqueue chunk = result at henqueued
  cases henqueued with
  | empty hchunk =>
    exact {
      refused_iff := by simp [hresult, hfits hchunk]
      unchanged := by simp [hresult]
      empty := fun _ ↦ hresult
      fewest := fun _ hne ↦ absurd hchunk hne }
  | refused hnew hfull =>
    exact {
      refused_iff := by simp [hresult, hnew, hfull]
      unchanged := by simp [hresult]
      empty := fun hchunk ↦ absurd (hfits hchunk) hfull
      fewest := by simp [hresult] }
  | stored count hchunk hnew hroom hfewest =>
    exact {
      refused_iff := by simpa [hresult] using hnew
      unchanged := by simp [hresult]
      empty := fun hempty ↦ absurd hempty hchunk
      fewest := fun _ _ ↦ ⟨count, by rw [hresult], by rw [hresult], hroom, hfewest⟩ }

end InputQueue

inductive QueueCall
  | enqueue (chunk : Bytes)
  | drain
  | reset
  deriving DecidableEq

/-- A queue with the chunks it accepted since it was last emptied, and the bytes that were accepted,
returned by `Drain`, reported as dropped and discarded by `Reset`. -/
structure Ledger where
  queue : InputQueue
  chunks : List Bytes
  accepted : ℕ
  drained : ℕ
  dropped : ℤ
  discarded : ℕ
  deriving DecidableEq

namespace Ledger

open InputQueue (lastBytes)

def start (capacity : ℕ) (policy : DropPolicy) : Ledger := ⟨.new capacity policy, [], 0, 0, 0, 0⟩

def step (ledger : Ledger) : QueueCall → Ledger
  | .enqueue chunk =>
    let result := ledger.queue.enqueue chunk
    match result.err with
    | none =>
      { ledger with
        queue := result.queue
        chunks := ledger.chunks ++ [chunk]
        accepted := ledger.accepted + chunk.length
        dropped := ledger.dropped + result.dropped }
    | some _ => { ledger with queue := result.queue, dropped := ledger.dropped + result.dropped }
  | .drain =>
    { ledger with
      queue := ledger.queue.drain.1
      chunks := []
      drained := ledger.drained + total ledger.queue.drain.2 }
  | .reset =>
    { ledger with
      queue := ledger.queue.reset
      chunks := []
      discarded := ledger.discarded + total ledger.queue.chunks }

def run (capacity : ℕ) (policy : DropPolicy) (calls : List QueueCall) : Ledger :=
  calls.foldl step (start capacity policy)

/-- The books are right: the queue is counted, it holds the last of the accepted chunks, and no byte is
missing. -/
structure Balanced (capacity : ℕ) (policy : DropPolicy) (ledger : Ledger) : Prop where
  capacity_eq : ledger.queue.capacity = capacity
  policy_eq : ledger.queue.policy = policy
  counted : ledger.queue.Counted
  suffix : ledger.queue.chunks <:+
    (ledger.chunks.filter fun chunk ↦ chunk ≠ []).map (lastBytes capacity)
  accepted_eq : (ledger.accepted : ℤ) =
    ledger.drained + ledger.dropped + ledger.queue.bytes + ledger.discarded

variable {capacity : ℕ} {policy : DropPolicy} {ledger : Ledger}

theorem balanced_start (hcapacity : 0 < capacity) (policy : DropPolicy) :
    (start capacity policy).Balanced capacity policy where
  capacity_eq := by simp [start, InputQueue.new, Nat.pos_iff_ne_zero.mp hcapacity]
  policy_eq := rfl
  counted := ⟨rfl, Int.natCast_nonneg _, by simp [start, InputQueue.new]⟩
  suffix := by simp [start, InputQueue.new]
  accepted_eq := rfl

/-- Every byte of a chunk is queued or counted as dropped. -/
theorem Balanced.enqueue (hbalanced : ledger.Balanced capacity policy) (hcapacity : 0 < capacity)
    (chunk : Bytes) : (ledger.step (.enqueue chunk)).Balanced capacity policy := by
  have hcounted := hbalanced.counted
  have hcapacityEq := hbalanced.capacity_eq
  have hnext := InputQueue.counted_enqueue hcounted (hcapacityEq ▸ hcapacity) chunk
  have henqueued := InputQueue.enqueued hcounted chunk
  have haccepted := hbalanced.accepted_eq
  simp only [step]
  generalize ledger.queue.enqueue chunk = result at henqueued hnext
  cases henqueued with
  | empty hchunk =>
    refine ⟨hcapacityEq, hbalanced.policy_eq, hnext, ?_, ?_⟩
    · simpa [hchunk] using hbalanced.suffix
    · simpa [hchunk] using haccepted
  | refused _ _ =>
    exact ⟨hcapacityEq, hbalanced.policy_eq, hnext, hbalanced.suffix, by simpa using haccepted⟩
  | stored count hchunk _ _ _ =>
    refine ⟨hcapacityEq, hbalanced.policy_eq, hnext, ?_, ?_⟩
    · obtain ⟨older, holder⟩ := hbalanced.suffix
      refine ⟨older ++ ledger.queue.chunks.take count, ?_⟩
      dsimp only
      rw [List.append_assoc, ← List.append_assoc (ledger.queue.chunks.take count),
        List.take_append_drop, ← List.append_assoc, holder, List.filter_append, List.map_append,
        hcapacityEq]
      simp [hchunk]
    · have hcount := hcounted.bytes_eq
      have hsplit : total (ledger.queue.chunks.take count) + total (ledger.queue.chunks.drop count) =
          total ledger.queue.chunks := by rw [← total_append, List.take_append_drop]
      have hlength := InputQueue.length_lastBytes ledger.queue.capacity chunk
      dsimp only
      omega

theorem Balanced.emptied (hbalanced : ledger.Balanced capacity policy) {drained discarded : ℕ}
    (hbytes : drained + discarded = ledger.drained + ledger.discarded + total ledger.queue.chunks) :
    Balanced capacity policy { ledger with
      queue := ledger.queue.reset, chunks := [], drained := drained, discarded := discarded } where
  capacity_eq := hbalanced.capacity_eq
  policy_eq := hbalanced.policy_eq
  counted := ⟨rfl, Int.natCast_nonneg _, by simp [InputQueue.reset]⟩
  suffix := by simp [InputQueue.reset]
  accepted_eq := by
    have haccepted := hbalanced.accepted_eq
    have hcount := hbalanced.counted.bytes_eq
    simp only [InputQueue.reset]
    omega

/-- The ledger is balanced after any calls. -/
theorem balanced_run (hcapacity : 0 < capacity) (policy : DropPolicy) (calls : List QueueCall) :
    (run capacity policy calls).Balanced capacity policy := by
  induction calls using List.reverseRecOn with
  | nil => exact balanced_start hcapacity policy
  | append_singleton calls call ih =>
    rw [run, List.foldl_concat, ← run]
    cases call with
    | enqueue chunk => exact ih.enqueue hcapacity chunk
    | drain => exact ih.emptied (by simp only [InputQueue.drain]; omega)
    | reset => exact ih.emptied (by omega)

/-- Along every run the books are right, and the next chunk is refused, or stored after the fewest
evictions. -/
theorem run_accounts (hcapacity : 0 < capacity) (policy : DropPolicy) (calls : List QueueCall) :
    (run capacity policy calls).Balanced capacity policy ∧
      ∀ chunk, (run capacity policy calls).queue.Behaves chunk := by
  have hbalanced := balanced_run hcapacity policy calls
  exact ⟨hbalanced, fun chunk ↦ InputQueue.behaves hbalanced.counted chunk⟩

theorem run_accounts_oversized :
    (run 4 .dropOldest [.enqueue [1], .enqueue [2, 3], .enqueue [4, 5], .drain,
        .enqueue [6, 7, 8, 9, 10]]).Balanced 4 .dropOldest ∧
      run 4 .dropOldest [.enqueue [1], .enqueue [2, 3], .enqueue [4, 5], .drain,
          .enqueue [6, 7, 8, 9, 10]] =
        ⟨⟨[[7, 8, 9, 10]], 4, 4, .dropOldest⟩, [[6, 7, 8, 9, 10]], 10, 4, 2, 0⟩ :=
  ⟨(run_accounts (by decide) .dropOldest _).1, by decide⟩

end Ledger

end Mosey.Streambuf

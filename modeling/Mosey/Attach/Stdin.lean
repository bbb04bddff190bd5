import Mosey.Bytes
import Mosey.Library.Machine

/-!
# Copying the standard input

For each stream that `Run` dials, `pumpStream` starts one goroutine that copies the standard input to it
and returns as soon as either direction fails. Nothing stops the other goroutine: the copier of a stream
that is gone still waits for input, and finds out only when it has taken a chunk and cannot write it.
-/

namespace Mosey.Attach

open Library

/-- The goroutine that copies the standard input to one stream. -/
inductive Copier
  | waiting
  | holding (chunk : Bytes)
  | returned
  deriving DecidableEq

/-- A chunk that was read: by the copier of which stream, and which stream was the current one. -/
structure Consumed where
  copier : ℕ
  current : ℕ
  chunk : Bytes
  deriving DecidableEq

/-- Streams are numbered in the order they were dialled. -/
structure CopyRun where
  /-- The copiers of the streams that are torn down. -/
  earlier : List Copier
  copier : Copier
  /-- The current stream has not dropped. -/
  up : Bool
  consumed : List Consumed
  written : List (ℕ × Bytes)
  deriving DecidableEq

inductive CopyAction
  | read (index : ℕ) (chunk : Bytes)
  | write (index : ℕ)
  | eof (index : ℕ)
  | drop
  | redial
  deriving DecidableEq

namespace CopyRun

variable (state : CopyRun)

/-- The number of the current stream. -/
def current : ℕ := state.earlier.length

def copierAt (index : ℕ) : Option Copier :=
  if index = state.current then some state.copier else state.earlier[index]?

def setCopier (index : ℕ) (copier : Copier) : CopyRun :=
  if index = state.current then { state with copier := copier }
  else { state with earlier := state.earlier.set index copier }

def step : CopyAction → CopyRun
  | .read index chunk =>
    { state.setCopier index (.holding chunk) with
      consumed := state.consumed ++ [⟨index, state.current, chunk⟩] }
  | .write index =>
    match state.copierAt index with
    | some (.holding chunk) =>
      if index = state.current ∧ state.up then
        { state.setCopier index .waiting with written := state.written ++ [(index, chunk)] }
      else state.setCopier index .returned
    | _ => state
  | .eof index => state.setCopier index .returned
  | .drop => { state with up := false }
  | .redial => { state with earlier := state.earlier ++ [state.copier], copier := .waiting, up := true }

def allowed : CopyAction → Prop
  | .read index _ => state.copierAt index = some .waiting
  | .eof index => state.copierAt index = some .waiting
  | .write _ => True
  | .drop => state.up = true
  | .redial => state.up = false

def machine : Machine CopyRun CopyAction where
  init := ⟨[], .waiting, true, [], []⟩
  allowed := allowed
  step := step

/-- Input comes only while the current stream is up and no copier of an earlier one waits for it, and
no stream drops between a read and its write. -/
def Undisturbed : CopyAction → Prop
  | .read _ _ => state.up = true ∧ .waiting ∉ state.earlier
  | .drop => ∀ chunk, state.copier ≠ .holding chunk
  | _ => True

instance (state : CopyRun) (action : CopyAction) : Decidable (machine.allowed state action) := by
  induction action using CopyAction.casesOn <;> dsimp only [machine, allowed] <;> infer_instance

instance : (copier : Copier) → Decidable (∀ chunk, copier ≠ .holding chunk)
  | .holding chunk => .isFalse fun hnone ↦ hnone chunk rfl
  | .waiting => .isTrue nofun
  | .returned => .isTrue nofun

instance (state : CopyRun) (action : CopyAction) : Decidable (state.Undisturbed action) := by
  induction action using CopyAction.casesOn <;> dsimp only [Undisturbed] <;> infer_instance

/-- The chunks that were read, in order, each with the stream that was the current one. -/
def expected : List (ℕ × Bytes) := state.consumed.map fun entry ↦ (entry.current, entry.chunk)

/-- No copier has a chunk that it has not tried to write. -/
def Settled : Prop := ∀ chunk, state.copier ≠ .holding chunk ∧ .holding chunk ∉ state.earlier

/-- Every chunk goes to the stream that was the current one when it was read, in the order of the input,
and is read by the copier of that stream. -/
structure Delivered (state : CopyRun) : Prop where
  owner : ∀ entry ∈ state.consumed, entry.copier = entry.current
  order : state.written <+: state.expected
  complete : state.Settled → state.written = state.expected

/-- What every step of an undisturbed run keeps. -/
structure InOrder (state : CopyRun) : Prop where
  owner : ∀ entry ∈ state.consumed, entry.copier = entry.current
  earlier : ∀ chunk, .holding chunk ∉ state.earlier
  holding : ∀ chunk, state.copier = .holding chunk →
    state.up = true ∧ state.expected = state.written ++ [(state.current, chunk)]
  settled : (∀ chunk, state.copier ≠ .holding chunk) → state.expected = state.written

variable {state}

/-- Reads in order are delivered once no copier holds a chunk. -/
theorem InOrder.delivered (horder : state.InOrder) : state.Delivered where
  owner := horder.owner
  order := by
    cases hcopier : state.copier with
    | holding chunk =>
      rw [(horder.holding chunk hcopier).2]
      exact ⟨_, rfl⟩
    | _ =>
      have hexpected := horder.settled (by simp [hcopier])
      exact ⟨[], by rw [List.append_nil, hexpected]⟩
  complete hsettled := (horder.settled fun chunk ↦ (hsettled chunk).1).symm

theorem inOrder_init : machine.init.InOrder where
  owner _ hentry := by cases hentry
  earlier _ hmem := by cases hmem
  holding _ hcopier := by cases hcopier
  settled _ := rfl

/-- A chunk that comes while nothing else waits for it is read by the current copier. -/
theorem current_of_waiting {index : ℕ} (hwaiting : state.copierAt index = some .waiting)
    (hearlier : .waiting ∉ state.earlier) : index = state.current ∧ state.copier = .waiting := by
  unfold copierAt at hwaiting
  split_ifs at hwaiting with hcurrent
  · exact ⟨hcurrent, Option.some.inj hwaiting⟩
  · exact absurd (List.mem_of_getElem? hwaiting) hearlier

/-- With no other copier waiting, it is the copier of the current stream that reads. -/
theorem inOrder_read (horder : state.InOrder) {index : ℕ} {chunk : Bytes}
    (hallowed : state.allowed (.read index chunk)) (hcondition : state.Undisturbed (.read index chunk)) :
    (state.step (.read index chunk)).InOrder := by
  obtain ⟨rfl, hcopier⟩ := current_of_waiting hallowed hcondition.2
  have hexpected := horder.settled (by simp [hcopier])
  simp only [step, setCopier, if_true]
  refine ⟨?_, horder.earlier, ?_, fun hsettled ↦ absurd rfl (hsettled chunk)⟩
  · intro entry hentry
    rcases List.mem_append.mp hentry with hentry | hnew
    · exact horder.owner entry hentry
    · rw [List.mem_singleton.mp hnew]
  · intro held hheld
    obtain rfl := Copier.holding.inj hheld
    refine ⟨hcondition.1, ?_⟩
    rw [← hexpected]
    simp [expected, current]

theorem inOrder_write (horder : state.InOrder) (index : ℕ) : (state.step (.write index)).InOrder := by
  cases hcopier : state.copierAt index with
  | none => simpa [step, hcopier] using horder
  | some copier =>
    cases copier with
    | waiting | returned => simpa [step, hcopier] using horder
    | holding chunk =>
      have hcurrent : index = state.current ∧ state.copier = .holding chunk := by
        unfold copierAt at hcopier
        split_ifs at hcopier with hindex
        · exact ⟨hindex, Option.some.inj hcopier⟩
        · exact absurd (List.mem_of_getElem? hcopier) (horder.earlier chunk)
      obtain ⟨rfl, hholding⟩ := hcurrent
      obtain ⟨hup, hexpected⟩ := horder.holding chunk hholding
      simp only [step, hcopier, hup, and_self, if_true, setCopier]
      exact ⟨horder.owner, horder.earlier, by simp, fun _ ↦ hexpected⟩

theorem inOrder_eof (horder : state.InOrder) {index : ℕ} (hallowed : state.allowed (.eof index)) :
    (state.step (.eof index)).InOrder := by
  have hwaiting : state.copierAt index = some .waiting := hallowed
  simp only [step, setCopier]
  split_ifs with hcurrent
  · have hcopier : state.copier = .waiting := by simpa [copierAt, hcurrent] using hwaiting
    exact ⟨horder.owner, horder.earlier, by simp, fun _ ↦ horder.settled (by simp [hcopier])⟩
  · refine ⟨horder.owner, fun chunk hmem ↦ ?_, fun chunk hholding ↦ ?_, horder.settled⟩
    · rcases List.mem_or_eq_of_mem_set hmem with hbefore | hreturned
      · exact horder.earlier chunk hbefore
      · cases hreturned
    · simpa [expected, current] using horder.holding chunk hholding

theorem inOrder_drop (horder : state.InOrder) (hcondition : state.Undisturbed .drop) :
    (state.step .drop).InOrder :=
  ⟨horder.owner, horder.earlier, fun chunk hholding ↦ absurd hholding (hcondition chunk), horder.settled⟩

/-- A redial starts a copier for the new stream and leaves the older one behind. -/
theorem inOrder_redial (horder : state.InOrder) (hallowed : state.allowed .redial) :
    (state.step .redial).InOrder := by
  have hdown : state.up = false := hallowed
  have hcopier : ∀ chunk, state.copier ≠ .holding chunk := by
    intro chunk hholding
    have hup := (horder.holding chunk hholding).1
    rw [hdown] at hup
    cases hup
  refine ⟨horder.owner, fun chunk hmem ↦ ?_, by simp [step], fun _ ↦ horder.settled hcopier⟩
  rcases List.mem_append.mp hmem with hbefore | hlast
  · exact horder.earlier chunk hbefore
  · exact hcopier chunk (List.mem_singleton.mp hlast).symm

/-- In every run whose steps are undisturbed, the input reaches the streams in order and complete. -/
theorem input_delivered (hreach : (machine.restrict Undisturbed).Reachable state) : state.Delivered := by
  apply InOrder.delivered
  apply hreach.invariant (P := InOrder) inOrder_init
  intro before action _ horder hallowed
  cases action with
  | read index chunk => exact inOrder_read horder hallowed.1 hallowed.2
  | write index => exact inOrder_write horder index
  | eof index => exact inOrder_eof horder hallowed.1
  | drop => exact inOrder_drop horder hallowed.2
  | redial => exact inOrder_redial horder hallowed.1

end CopyRun

/-- Two chunks are written before the stream drops. -/
def exampleTyped : List CopyAction :=
  [.read 0 [97], .write 0, .read 0 [98], .write 0, .drop, .redial]

theorem input_delivered_example :
    (CopyRun.machine.run CopyRun.machine.init exampleTyped).written = [(0, [97]), (0, [98])] ∧
      (CopyRun.machine.run CopyRun.machine.init exampleTyped).Delivered := by
  have hlegal : (CopyRun.machine.restrict CopyRun.Undisturbed).Legal CopyRun.machine.init exampleTyped :=
    Machine.legal_restrict _ (by decide) (by decide)
  exact ⟨by decide, CopyRun.input_delivered (Machine.Reachable.init.run hlegal)⟩

/-- After a reconnect, the copier of the first stream takes the next chunk. -/
def exampleSwallowed : List CopyAction := [.drop, .redial, .read 0 [97], .write 0]

/-- A copier that outlives its link consumes a keystroke and writes it nowhere. -/
theorem input_not_delivered :
    CopyRun.machine.Legal CopyRun.machine.init exampleSwallowed ∧
      (CopyRun.machine.run CopyRun.machine.init exampleSwallowed).consumed = [⟨0, 1, [97]⟩] ∧
      (CopyRun.machine.run CopyRun.machine.init exampleSwallowed).written = [] ∧
      ¬ (CopyRun.machine.run CopyRun.machine.init exampleSwallowed).Delivered := by
  refine ⟨by decide, by decide, by decide, fun hdelivered ↦ ?_⟩
  have howner := hdelivered.owner ⟨0, 1, [97]⟩ (by decide)
  revert howner
  decide

end Mosey.Attach

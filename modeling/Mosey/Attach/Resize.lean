import Mathlib.Algebra.Group.Nat.Defs
import Mosey.Library.Channel
import Mosey.Library.Machine

/-!
# Forwarding the size of a browser's terminal

The web gateway reads resize frames from a browser and passes them on through a bounded channel, which
drops a frame when it is full. One goroutine takes the sizes from the channel, notes each one as the last
size and sends it on the control stream. After each attach, `Run` loads the last size and sends it again
on the same stream, without a lock around the two.
-/

namespace Mosey.Attach

open Library

structure Size where
  cols : UInt32
  rows : UInt32
  deriving DecidableEq

namespace Size

/-- A size that is forwarded. -/
def Nonzero (size : Size) : Prop := size.cols ≠ 0 ∧ size.rows ≠ 0

instance (size : Size) : Decidable size.Nonzero := inferInstanceAs (Decidable (_ ∧ _))

/-- The word that `lastSize` holds. -/
def pack (size : Size) : UInt64 := size.cols.toUInt64 <<< 32 ||| size.rows.toUInt64

def unpack (packed : UInt64) : Size := ⟨(packed >>> 32).toUInt32, packed.toUInt32⟩

/-- The packed size holds the columns above the 32 bits of the rows. -/
theorem toNat_pack (size : Size) : size.pack.toNat = size.cols.toNat * 2 ^ 32 + size.rows.toNat := by
  have hcols := size.cols.toNat_lt
  have hrows := size.rows.toNat_lt
  have hshift : (size.cols.toUInt64 <<< 32).toNat = size.cols.toNat <<< 32 := by
    rw [UInt64.toNat_shiftLeft, UInt32.toNat_toUInt64, Nat.mod_eq_of_lt]
    · rfl
    · have hthirtyTwo : (32 : UInt64).toNat % 64 = 32 := rfl
      rw [hthirtyTwo, Nat.shiftLeft_eq]
      omega
  rw [pack, UInt64.toNat_or, hshift, UInt32.toNat_toUInt64, ← Nat.shiftLeft_add_eq_or_of_lt hrows,
    Nat.shiftLeft_eq]

/-- What is packed into one 64-bit word is unpacked again. -/
theorem unpack_pack (size : Size) : unpack size.pack = size := by
  have hpack := size.toNat_pack
  have hrows := size.rows.toNat_lt
  have hcols := size.cols.toNat_lt
  have hfirst : (size.pack >>> 32).toUInt32 = size.cols := by
    apply UInt32.toNat_inj.mp
    have hthirtyTwo : (32 : UInt64).toNat % 64 = 32 := rfl
    rw [UInt64.toNat_toUInt32, UInt64.toNat_shiftRight, hthirtyTwo, hpack, Nat.shiftRight_eq_div_pow]
    omega
  have hsecond : size.pack.toUInt32 = size.rows := by
    apply UInt32.toNat_inj.mp
    rw [UInt64.toNat_toUInt32, hpack]
    omega
  unfold unpack
  rw [hfirst, hsecond]

/-- No size is packed into the word that stands for no size. -/
theorem pack_ne_zero {size : Size} (hsize : size.Nonzero) : size.pack ≠ 0 := by
  intro hzero
  apply hsize.1
  rw [← unpack_pack size, hzero]
  rfl

end Size

/-- The goroutine of `forwardResizes`. -/
inductive Forwarder
  | idle
  | holding (size : Size)
  /-- `lastSize` is stored and the size is not yet sent. -/
  | stored (size : Size)
  deriving DecidableEq

structure ResizeRun where
  /-- The resize frames the browser sent, and those of them that the gateway has yet to read. -/
  frames : List Size
  unread : List Size
  resizeC : Channel Size 8
  forwarder : Forwarder
  lastSize : UInt64
  /-- What `Run` has loaded after an attach and not yet sent. -/
  loaded : Option UInt64
  /-- The Resize messages on the control stream. -/
  control : List Size

inductive ResizeAction
  | browse (size : Size)
  | readFrame
  | receive
  | store
  | forward
  | load
  | resend
  deriving DecidableEq

namespace ResizeRun

def step (state : ResizeRun) : ResizeAction → ResizeRun
  | .browse size =>
    { state with frames := state.frames ++ [size], unread := state.unread ++ [size] }
  | .readFrame =>
    match state.unread with
    | [] => state
    | size :: rest =>
      { state with unread := rest, resizeC := (state.resizeC.trySend size).getD state.resizeC }
  | .receive =>
    match state.resizeC.queued with
    | [] => state
    | size :: _ =>
      { state with
        resizeC := state.resizeC.receive
        forwarder := if size.cols = 0 ∨ size.rows = 0 then .idle else .holding size }
  | .store =>
    match state.forwarder with
    | .holding size => { state with lastSize := size.pack, forwarder := .stored size }
    | _ => state
  | .forward =>
    match state.forwarder with
    | .stored size => { state with control := state.control ++ [size], forwarder := .idle }
    | _ => state
  | .load => { state with loaded := if state.lastSize = 0 then none else some state.lastSize }
  | .resend =>
    match state.loaded with
    | none => state
    | some packed => { state with control := state.control ++ [Size.unpack packed], loaded := none }

/-- The forwarder takes a size when it is done with the one before, and `Run` loads the last size again
when it has sent what it loaded. -/
def allowed (state : ResizeRun) : ResizeAction → Prop
  | .receive => state.forwarder = .idle
  | .load => state.loaded = none
  | _ => True

def machine : Machine ResizeRun ResizeAction where
  init := ⟨[], [], .empty, .idle, 0, none, []⟩
  allowed := allowed
  step := step

/-- The gateway reads no size while the channel is full, and `Run` sends what it loaded while it is still
the last size or while a newer one is about to be sent. -/
def Current (state : ResizeRun) : ResizeAction → Prop
  | .readFrame => ∀ size ∈ state.unread.head?, size.Nonzero → state.resizeC.HasRoom
  | .resend => ∀ packed ∈ state.loaded,
      packed = state.lastSize ∨ ∃ size, state.forwarder = .stored size
  | _ => True

/-- The last size with a nonzero geometry among these. -/
def lastOf (sizes : List Size) : Option Size := (sizes.filter fun size ↦ size.Nonzero).getLast?

/-- Every frame is read, the channel is empty and no send is in progress. -/
structure Quiet (state : ResizeRun) : Prop where
  unread : state.unread = []
  queued : state.resizeC.queued = []
  forwarder : state.forwarder = .idle
  loaded : state.loaded = none

/-- Once all is quiet, the last message on the control stream has the last size the browser sent. -/
def Converged (state : ResizeRun) : Prop :=
  state.Quiet → ∀ size ∈ lastOf state.frames, state.control.getLast? = some size

instance (state : ResizeRun) (action : ResizeAction) : Decidable (machine.allowed state action) := by
  induction action using ResizeAction.casesOn <;> dsimp only [machine, allowed] <;> infer_instance

instance : (forwarder : Forwarder) → Decidable (∃ size, forwarder = .stored size)
  | .stored size => .isTrue ⟨size, rfl⟩
  | .idle => .isFalse nofun
  | .holding _ => .isFalse nofun

instance (state : ResizeRun) : (action : ResizeAction) → Decidable (state.Current action)
  | .readFrame | .resend => Option.decidableForallMem _
  | .browse _ | .receive | .store | .forward | .load => .isTrue trivial

/-- The size that `lastSize` stands for. -/
def noted (lastSize : UInt64) : Option Size := if lastSize = 0 then none else some (.unpack lastSize)

theorem lastOf_concat (sizes : List Size) (size : Size) :
    lastOf (sizes ++ [size]) = if size.Nonzero then some size else lastOf sizes := by
  unfold lastOf
  by_cases hsize : size.Nonzero <;> simp [hsize, List.filter_append]

/-- The size noted last depends on the nonzero sizes alone. -/
theorem lastOf_congr {first second : List Size}
    (hfilter : first.filter (fun size ↦ size.Nonzero) = second.filter fun size ↦ size.Nonzero) :
    lastOf first = lastOf second := by
  unfold lastOf
  rw [hfilter]

/-- The sizes of the frames are those that went into the channel and those yet to be read, and the last
one that left the channel is noted and sent unless the forwarder still has it. -/
structure Tracks (state : ResizeRun) : Prop where
  frames : state.frames.filter (fun size ↦ size.Nonzero) =
    (state.resizeC.sent ++ state.unread).filter fun size ↦ size.Nonzero
  idle : state.forwarder = .idle →
    noted state.lastSize = lastOf state.resizeC.taken ∧ state.control.getLast? = noted state.lastSize
  holding : ∀ size, state.forwarder = .holding size →
    size.Nonzero ∧ lastOf state.resizeC.taken = some size ∧ state.control.getLast? = noted state.lastSize
  stored : ∀ size, state.forwarder = .stored size →
    lastOf state.resizeC.taken = some size ∧ noted state.lastSize = some size
  loaded : ∀ packed ∈ state.loaded, packed ≠ 0

variable {state : ResizeRun}

theorem tracks_init : machine.init.Tracks where
  frames := rfl
  idle _ := ⟨rfl, rfl⟩
  holding _ hstage := by cases hstage
  stored _ hstage := by cases hstage
  loaded _ hloaded := by cases hloaded

/-- Once all is quiet, the last size of the frames has been noted and sent. -/
theorem Tracks.converged (htracks : state.Tracks) : state.Converged := by
  intro hquiet size hsize
  obtain ⟨hnoted, hcontrol⟩ := htracks.idle hquiet.forwarder
  have htaken : state.resizeC.taken = state.resizeC.sent := by
    have hall := state.resizeC.taken_append_queued
    rwa [hquiet.queued, List.append_nil] at hall
  have hframes : lastOf state.frames = lastOf state.resizeC.sent := by
    apply lastOf_congr
    rw [htracks.frames, hquiet.unread, List.append_nil]
  calc state.control.getLast? = noted state.lastSize := hcontrol
    _ = lastOf state.resizeC.taken := hnoted
    _ = lastOf state.frames := by rw [htaken, hframes]
    _ = some size := hsize

theorem tracks_browse (htracks : state.Tracks) (size : Size) : (state.step (.browse size)).Tracks where
  frames := by
    simp only [step]
    rw [List.filter_append, htracks.frames, ← List.filter_append, List.append_assoc]
  idle := htracks.idle
  holding := htracks.holding
  stored := htracks.stored
  loaded := htracks.loaded

/-- A frame that is read while the channel has room goes in behind the others. -/
theorem tracks_readFrame (htracks : state.Tracks) (hcurrent : state.Current .readFrame) :
    (state.step .readFrame).Tracks := by
  cases hunread : state.unread with
  | nil => simpa [step, hunread] using htracks
  | cons size rest =>
    have hframes := htracks.frames
    rw [hunread] at hframes
    simp only [step, hunread]
    cases hsend : state.resizeC.trySend size with
    | some resizeC =>
      obtain ⟨_, hsent, _⟩ := Channel.trySend_eq_some hsend
      have htaken := Channel.taken_trySend hsend
      rw [Option.getD_some]
      refine ⟨?_, ?_, ?_, ?_, htracks.loaded⟩
      · rw [hframes, hsent, List.append_assoc]
        rfl
      · simpa only [htaken] using htracks.idle
      · simpa only [htaken] using htracks.holding
      · simpa only [htaken] using htracks.stored
    | none =>
      -- only a frame without a size can be dropped
      have hzero : ¬ size.Nonzero := by
        intro hnonzero
        exact Channel.trySend_eq_none.mp hsend (hcurrent size (by simp [hunread]) hnonzero)
      rw [Option.getD_none]
      refine ⟨?_, htracks.idle, htracks.holding, htracks.stored, htracks.loaded⟩
      rw [hframes]
      simp [List.filter_append, hzero]

theorem tracks_receive (htracks : state.Tracks) (hallowed : state.forwarder = .idle) :
    (state.step .receive).Tracks := by
  cases hqueued : state.resizeC.queued with
  | nil => simpa [step, hqueued] using htracks
  | cons size rest =>
    obtain ⟨hnoted, hcontrol⟩ := htracks.idle hallowed
    have htaken := Channel.taken_receive hqueued
    simp only [step, hqueued]
    by_cases hsize : size.Nonzero
    · have hkept : ¬ (size.cols = 0 ∨ size.rows = 0) := fun hzero ↦ hzero.elim hsize.1 hsize.2
      rw [if_neg hkept]
      refine ⟨?_, by simp, ?_, by simp, htracks.loaded⟩
      · simpa using htracks.frames
      · intro held hheld
        obtain rfl := Forwarder.holding.inj hheld
        refine ⟨hsize, ?_, hcontrol⟩
        rw [htaken, lastOf_concat, if_pos hsize]
    · have hskipped : size.cols = 0 ∨ size.rows = 0 := by
        by_contra hnone
        exact hsize ⟨fun hcols ↦ hnone (.inl hcols), fun hrows ↦ hnone (.inr hrows)⟩
      rw [if_pos hskipped]
      refine ⟨?_, fun _ ↦ ⟨?_, hcontrol⟩, by simp, by simp, htracks.loaded⟩
      · simpa using htracks.frames
      · rw [htaken, lastOf_concat, if_neg hsize]
        exact hnoted

theorem tracks_store (htracks : state.Tracks) : (state.step .store).Tracks := by
  cases hstage : state.forwarder with
  | holding size =>
    obtain ⟨hsize, htaken, _⟩ := htracks.holding size hstage
    simp only [step, hstage]
    refine ⟨htracks.frames, by simp, by simp, ?_, htracks.loaded⟩
    intro stored hstored
    obtain rfl := Forwarder.stored.inj hstored
    refine ⟨htaken, ?_⟩
    unfold noted
    rw [if_neg (Size.pack_ne_zero hsize), Size.unpack_pack]
  | _ => simpa [step, hstage] using htracks

theorem tracks_forward (htracks : state.Tracks) : (state.step .forward).Tracks := by
  cases hstage : state.forwarder with
  | stored size =>
    obtain ⟨htaken, hnoted⟩ := htracks.stored size hstage
    simp only [step, hstage]
    refine ⟨htracks.frames, fun _ ↦ ⟨?_, ?_⟩, by simp, by simp, htracks.loaded⟩
    · rw [htaken]
      exact hnoted
    · rw [List.getLast?_concat]
      exact hnoted.symm
  | _ => simpa [step, hstage] using htracks

theorem tracks_load (htracks : state.Tracks) : (state.step .load).Tracks where
  frames := htracks.frames
  idle := htracks.idle
  holding := htracks.holding
  stored := htracks.stored
  loaded := by
    intro packed hpacked
    simp only [step, Option.mem_def, Option.ite_none_left_eq_some, Option.some.injEq] at hpacked
    rw [← hpacked.2]
    exact hpacked.1

/-- What `Run` sends again is the last size, or a newer one is sent after it. -/
theorem tracks_resend (htracks : state.Tracks) (hcurrent : state.Current .resend) :
    (state.step .resend).Tracks := by
  cases hloaded : state.loaded with
  | none => simpa [step, hloaded] using htracks
  | some packed =>
    have hstep : state.step .resend =
        { state with control := state.control ++ [Size.unpack packed], loaded := none } := by
      simp [step, hloaded]
    rw [hstep]
    rcases hcurrent packed hloaded with hlast | ⟨size, hstage⟩
    · have hnoted : noted state.lastSize = some (Size.unpack packed) := by
        unfold noted
        rw [← hlast, if_neg (htracks.loaded packed hloaded)]
      have hcontrol : (state.control ++ [Size.unpack packed]).getLast? = noted state.lastSize := by
        rw [List.getLast?_concat, hnoted]
      refine ⟨htracks.frames, fun hidle ↦ ⟨(htracks.idle hidle).1, hcontrol⟩, fun size hholding ↦ ?_,
        htracks.stored, by simp⟩
      obtain ⟨hsize, htaken, _⟩ := htracks.holding size hholding
      exact ⟨hsize, htaken, hcontrol⟩
    · exact ⟨htracks.frames, by simp [hstage], by simp [hstage], htracks.stored, by simp⟩

/-- In every run whose steps are `Current`, the remote ends up with the size the browser sent last. -/
theorem resize_converged (hreach : (machine.restrict Current).Reachable state) : state.Converged := by
  apply Tracks.converged
  apply hreach.invariant (P := Tracks) tracks_init
  intro before action _ htracks hallowed
  cases action with
  | browse size => exact tracks_browse htracks size
  | readFrame => exact tracks_readFrame htracks hallowed.2
  | receive => exact tracks_receive htracks hallowed.1
  | store => exact tracks_store htracks
  | forward => exact tracks_forward htracks
  | load => exact tracks_load htracks
  | resend => exact tracks_resend htracks hallowed.2

end ResizeRun

section Example

/-- The browser's terminal grows while `Run` attaches again. -/
def exampleForwarded : List ResizeAction :=
  [.browse ⟨80, 24⟩, .readFrame, .receive, .store, .load, .resend, .forward, .browse ⟨100, 40⟩,
    .browse ⟨0, 40⟩, .readFrame, .readFrame, .receive, .store, .forward, .receive, .load, .resend]

theorem resize_converged_example :
    (ResizeRun.machine.run ResizeRun.machine.init exampleForwarded).control =
        [⟨80, 24⟩, ⟨80, 24⟩, ⟨100, 40⟩, ⟨100, 40⟩] ∧
      (ResizeRun.machine.run ResizeRun.machine.init exampleForwarded).Converged := by
  have hlegal : (ResizeRun.machine.restrict ResizeRun.Current).Legal ResizeRun.machine.init
      exampleForwarded := Machine.legal_restrict _ (by decide +kernel) (by decide +kernel)
  exact ⟨by decide +kernel, ResizeRun.resize_converged (Machine.Reachable.init.run hlegal)⟩

/-- `Run` loads the last size, a newer one is forwarded, and `Run` sends what it has loaded. -/
def exampleStale : List ResizeAction :=
  [.browse ⟨80, 24⟩, .readFrame, .receive, .store, .forward, .load, .browse ⟨100, 40⟩, .readFrame,
    .receive, .store, .forward, .resend]

/-- The browser sends a size and the gateway reads it. -/
def exampleSized (cols : UInt32) : List ResizeAction := [.browse ⟨cols, 24⟩, .readFrame]

/-- A burst of ten sizes is read while the forwarder still holds the first one. -/
def exampleBurst : List ResizeAction :=
  List.flatten [exampleSized 80, [.receive], [81, 82, 83, 84, 85, 86, 87, 88, 89].flatMap exampleSized,
    [.store, .forward], (List.replicate 8 [.receive, .store, .forward]).flatten]

/-- A resend that races the forwarder, or a burst of frames, leaves an older size last. -/
theorem resize_not_converged :
    ResizeRun.machine.Legal ResizeRun.machine.init exampleStale ∧
      (ResizeRun.machine.run ResizeRun.machine.init exampleStale).control.getLast? = some ⟨80, 24⟩ ∧
      ¬ (ResizeRun.machine.run ResizeRun.machine.init exampleStale).Converged ∧
    ResizeRun.machine.Legal ResizeRun.machine.init exampleBurst ∧
      (ResizeRun.machine.run ResizeRun.machine.init exampleBurst).control.getLast? = some ⟨88, 24⟩ ∧
      ¬ (ResizeRun.machine.run ResizeRun.machine.init exampleBurst).Converged := by
  refine ⟨by decide +kernel, by decide +kernel, fun hconverged ↦ ?_, by decide +kernel,
    by decide +kernel, fun hconverged ↦ ?_⟩
  · have hlast := hconverged ⟨by decide +kernel, by decide +kernel, by decide +kernel,
      by decide +kernel⟩ ⟨100, 40⟩ (by decide +kernel)
    revert hlast
    decide +kernel
  · have hlast := hconverged ⟨by decide +kernel, by decide +kernel, by decide +kernel,
      by decide +kernel⟩ ⟨89, 24⟩ (by decide +kernel)
    revert hlast
    decide +kernel

end Example

end Mosey.Attach

import Mosey.Library.Machine
import Mosey.Library.Varint
import Mosey.Streambuf.Reader

/-!
# Resuming an attach

A client that lost its stream dials again and sends, as a varint, how many bytes it has rendered: the
number of the last byte it has seen. The vterm hands that number to the ring as the first byte wanted,
and takes the ring's error for an old number as a reason to replay nothing.

The ring here has numbers that do not wrap. The ring of the source has the same replays for the first
`2 ^ 64 - 2` bytes.
-/

namespace Mosey.Vterm

open Library Streambuf

/-- The loop of `encodeVarint` and of `encodeResumeSeq`; ten bytes hold 64 bits. -/
def varintLoop : ℕ → ℕ → Bytes
  | 0, _ => []
  | fuel + 1, v =>
    if 0x80 ≤ v then (UInt8.ofNat v ||| 0x80) :: varintLoop fuel (v >>> 7) else [UInt8.ofNat v]

/-- `attach.encodeVarint`. -/
def encodeVarint (v : UInt64) : Bytes := varintLoop 10 v.toNat

/-- The encoder of the vterm, which `attach.encodeVarint` repeats. -/
def encodeResumeSeq (v : UInt64) : Bytes := varintLoop 10 v.toNat

/-- The loop of `readResumeSeq`. -/
def resumeSeqLoop : ℕ → ℕ → ℕ → Bytes → Except String (ℕ × Bytes)
  | 0, _, _, _ => .error "resume_seq varint overflow"
  | _ + 1, _, _, [] => .error "EOF"
  | count + 1, shift, result, b :: rest =>
    let result := result ||| ((b &&& 0x7f).toNat <<< shift) % 2 ^ 64
    if b &&& 0x80 = 0 then .ok (result, rest) else resumeSeqLoop count (shift + 7) result rest

/-- `readResumeSeq`, with what it leaves on the stream. -/
def readResumeSeq (stream : Bytes) : Except String (ℕ × Bytes) := resumeSeqLoop 10 0 0 stream

theorem varintLoop_eq_encode {fuel v : ℕ} (hv : v < 128 ^ (fuel + 1)) :
    varintLoop (fuel + 1) v = Varint.encode v := by
  induction fuel generalizing v with
  | zero =>
    have hlast : v < 128 := by simpa using hv
    rw [varintLoop, if_neg (Nat.not_le.mpr hlast), Varint.encode_of_lt hlast]
  | succ fuel ih =>
    rw [varintLoop]
    by_cases hmore : 0x80 ≤ v
    · have hshift : v >>> 7 = v / 128 := Nat.shiftRight_eq_div_pow v 7
      have hlow : v / 128 < 128 ^ (fuel + 1) := by
        rwa [Nat.div_lt_iff_lt_mul (by decide), ← Nat.pow_succ]
      rw [if_pos hmore, Varint.ofNat_or_high, hshift, ih hlow, ← Varint.encode_of_le hmore]
    · rw [if_neg hmore, Varint.encode_of_lt (Nat.not_le.mp hmore)]

theorem encodeVarint_eq_encode (v : UInt64) : encodeVarint v = Varint.encode v.toNat :=
  varintLoop_eq_encode (v.toNat_lt.trans (by decide))

/-- A group that does not fit is cut off. -/
theorem or_shiftLeft_mod {result group shift : ℕ} (hresult : result < 2 ^ shift) (hshift : shift ≤ 64) :
    result ||| (group <<< shift) % 2 ^ 64 = (result + group * 2 ^ shift) % 2 ^ 64 := by
  have hpow : 2 ^ 64 = 2 ^ (64 - shift) * 2 ^ shift := by rw [← Nat.pow_add, Nat.sub_add_cancel hshift]
  have hcut : group * 2 ^ shift % 2 ^ 64 = group % 2 ^ (64 - shift) * 2 ^ shift := by
    rw [hpow, Nat.mul_mod_mul_right]
  have hfits : result + group * 2 ^ shift % 2 ^ 64 < 2 ^ 64 := by
    have hgroup : group % 2 ^ (64 - shift) + 1 ≤ 2 ^ (64 - shift) := Nat.mod_lt _ (Nat.two_pow_pos _)
    have hmul := Nat.mul_le_mul_right (2 ^ shift) hgroup
    rw [hcut]
    rw [← hpow, Nat.add_mul] at hmul
    omega
  calc result ||| (group <<< shift) % 2 ^ 64
      = result ||| (group % 2 ^ (64 - shift)) <<< shift := by rw [Nat.shiftLeft_eq, Nat.shiftLeft_eq, hcut]
    _ = result + group * 2 ^ shift % 2 ^ 64 := by rw [Varint.or_shift_eq hresult, hcut]
    _ = (result + group * 2 ^ shift) % 2 ^ 64 := by rw [← Nat.add_mod_mod, Nat.mod_eq_of_lt hfits]

/-- The loop on groups, from any point on. -/
theorem resumeSeqLoop_groups {groups : Bytes} (hgroups : Varint.Terminated groups) (rest : Bytes)
    {count shift result : ℕ} (hshift : shift + 7 * count ≤ 70) (hresult : result < 2 ^ shift) :
    resumeSeqLoop count shift result (groups ++ rest) =
      if groups.length ≤ count then .ok ((result + Varint.value groups * 2 ^ shift) % 2 ^ 64, rest)
      else .error "resume_seq varint overflow" := by
  induction hgroups generalizing count shift result with
  | @last byte hlast =>
    cases count with
    | zero => rfl
    | succ count =>
      have hstop : byte &&& 0x80 = 0 := (Varint.and_high_eq_zero byte).mpr hlast
      have hone : [byte].length ≤ count + 1 := Nat.succ_le_succ (Nat.zero_le count)
      rw [List.singleton_append, resumeSeqLoop, Varint.toNat_and_low, or_shiftLeft_mod hresult (by omega),
        if_pos hstop, if_pos hone, Varint.value_singleton hlast, Nat.mod_eq_of_lt hlast]
  | @next byte groups hnext hgroups ih =>
    cases count with
    | zero => rfl
    | succ count =>
      have hmore : ¬ byte &&& 0x80 = 0 := fun hstop ↦
        hnext.not_gt ((Varint.and_high_eq_zero byte).mp hstop)
      have hresult' : (result + byte.toNat % 128 * 2 ^ shift) % 2 ^ 64 < 2 ^ (shift + 7) :=
        Nat.lt_of_le_of_lt (Nat.mod_le _ _) (Varint.add_group_lt hresult byte)
      rw [List.cons_append, resumeSeqLoop, Varint.toNat_and_low, or_shiftLeft_mod hresult (by omega),
        if_neg hmore, ih (by omega) hresult', Nat.mod_add_mod, Varint.add_value_cons]
      simp only [List.length_cons, Nat.add_le_add_iff_right]

/-- The loop on bytes that all announce another one. -/
theorem resumeSeqLoop_continued {count shift result : ℕ} {input : Bytes}
    (hinput : ∀ byte ∈ input.take count, 128 ≤ byte.toNat) :
    resumeSeqLoop count shift result input =
      .error (if input.length < count then "EOF" else "resume_seq varint overflow") := by
  induction count generalizing shift result input with
  | zero => rfl
  | succ count ih =>
    cases input with
    | nil => rfl
    | cons byte input =>
      obtain ⟨hnext, hinput⟩ := List.forall_mem_cons.mp hinput
      have hmore : ¬ byte &&& 0x80 = 0 := fun hstop ↦
        hnext.not_gt ((Varint.and_high_eq_zero byte).mp hstop)
      rw [resumeSeqLoop, if_neg hmore, ih hinput]
      simp only [List.length_cons, Nat.add_lt_add_iff_right]

theorem readResumeSeq_groups {groups : Bytes} (hgroups : Varint.Terminated groups) (rest : Bytes) :
    readResumeSeq (groups ++ rest) =
      if groups.length ≤ 10 then .ok (Varint.value groups % 2 ^ 64, rest)
      else .error "resume_seq varint overflow" := by
  have hloop := resumeSeqLoop_groups hgroups rest (by decide : 0 + 7 * 10 ≤ 70)
    (by decide : 0 < 2 ^ 0)
  rwa [Nat.zero_add, Nat.pow_zero, Nat.mul_one] at hloop

/-- The header is read back, and nothing after it. -/
theorem readResumeSeq_encodeVarint (v : UInt64) (rest : Bytes) :
    readResumeSeq (encodeVarint v ++ rest) = .ok (v.toNat, rest) := by
  have hten := Varint.length_encode_le_ten v.toNat_lt
  rw [encodeVarint_eq_encode, readResumeSeq_groups (Varint.terminated_encode _), if_pos hten,
    Varint.value_encode, Nat.mod_eq_of_lt v.toNat_lt]

/-- The initial replay of `bridgeClient`: what it puts on the channel of the new client. -/
def bridgeReplay (ring : OutputRing) (fromSeq : ℕ) : Bytes :=
  let replay := ring.fromSeq fromSeq
  if replay.err = none ∧ 0 < replay.data.length then replay.data else []

/-- `handlePTY`. -/
def handlePTY (ring : OutputRing) : Bytes := bridgeReplay ring 0

/-- `handlePTYResume`, given the client's first bytes; a bad header closes the stream. -/
def handlePTYResume (ring : OutputRing) (stream : Bytes) : Except String Bytes :=
  match readResumeSeq stream with
  | .error err => .error err
  | .ok (resume, _) => .ok (bridgeReplay ring resume)

theorem handlePTYResume_encodeVarint (ring : OutputRing) (rendered : UInt64) :
    handlePTYResume ring (encodeVarint rendered) = .ok (bridgeReplay ring rendered.toNat) := by
  have hread := readResumeSeq_encodeVarint rendered []
  rw [List.append_nil] at hread
  rw [handlePTYResume, hread]

variable {ring : OutputRing} {stream : Bytes}

theorem bridgeReplay_eq {fromSeq : ℕ} (herr : (ring.fromSeq fromSeq).err = none) :
    bridgeReplay ring fromSeq = (ring.fromSeq fromSeq).data := by
  unfold bridgeReplay
  by_cases hdata : (ring.fromSeq fromSeq).data = []
  · simp [hdata]
  · exact if_pos ⟨herr, List.length_pos_iff.mpr hdata⟩

theorem bridgeReplay_zero (ring : OutputRing) : bridgeReplay ring 0 = ring.data := by
  rw [bridgeReplay_eq OutputRing.fromSeq_zero.2, OutputRing.fromSeq_zero.1]

/-- From a retained byte on, the replay starts with that byte. -/
theorem bridgeReplay_of_le (hretains : ring.Retains stream) {fromSeq : ℕ}
    (hle : ring.firstSeq ≤ fromSeq) : bridgeReplay ring fromSeq = stream.drop (fromSeq - 1) := by
  obtain ⟨hdata, herr⟩ := OutputRing.fromSeq_of_le hretains hle
  rw [bridgeReplay_eq herr, hdata]

/-- From an evicted byte on, nothing is replayed. -/
theorem bridgeReplay_of_lt {fromSeq : ℕ} (hpos : 0 < fromSeq) (hlt : fromSeq < ring.firstSeq) :
    bridgeReplay ring fromSeq = [] := by
  unfold bridgeReplay
  rw [OutputRing.fromSeq_of_lt hpos hlt]
  exact if_neg fun hreplay ↦ absurd hreplay.1 (by simp)

/-- With every byte after the rendered ones retained, the replay starts right behind them only if there
are none: otherwise the last rendered byte is sent again or, if just that one is evicted, nothing is. -/
theorem bridgeReplay_eq_drop_iff (hretains : ring.Retains stream) {rendered : ℕ}
    (hrendered : rendered ≤ stream.length) (hretained : ring.firstSeq ≤ rendered + 1) :
    bridgeReplay ring rendered = stream.drop rendered ↔ rendered = 0 := by
  constructor
  · intro hreplay
    by_contra hne
    have hpos : 0 < rendered := Nat.pos_of_ne_zero hne
    have hlength := congrArg List.length hreplay
    rcases Nat.lt_or_ge rendered ring.firstSeq with hevicted | hkept
    · rw [bridgeReplay_of_lt hpos hevicted, List.length_nil, List.length_drop] at hlength
      have hdata := ring.ne_nil_of_evicted (by omega)
      apply hdata
      rw [hretains.data_eq, List.drop_eq_nil_iff]
      omega
    · rw [bridgeReplay_of_le hretains hkept, List.length_drop, List.length_drop] at hlength
      omega
  · rintro rfl
    have hfirst : ring.firstSeq - 1 = 0 := by omega
    rw [bridgeReplay_zero, hretains.data_eq, hfirst]

/-- `bridgeReplay` on the ring of the source, whose numbers wrap. -/
def bridgeReplay64 (ring : OutputRing64) (fromSeq : UInt64) : Bytes :=
  let replay := ring.fromSeq fromSeq
  if replay.err = none ∧ 0 < replay.data.length then replay.data else []

/-- As long as the next number does not wrap, a replay is the one of the source after the same writes. -/
theorem bridgeReplay_eq_source {capacity : ℤ} (hwritten : OutputRing.WrittenBy capacity ring stream)
    (hbound : stream.length + 1 < 2 ^ 64) :
    ∃ writes, stream = writes.flatten ∧ ∀ fromSeq : UInt64,
      bridgeReplay ring fromSeq.toNat = bridgeReplay64 (.written capacity writes) fromSeq := by
  obtain ⟨writes, rfl, rfl⟩ := hwritten
  refine ⟨writes, rfl, fun fromSeq ↦ ?_⟩
  have hnext := (OutputRing.retains_written capacity writes).nextSeq_eq
  obtain ⟨hdata, -, herr⟩ :=
    (OutputRing64.follows_written capacity writes).fromSeq (hnext ▸ hbound) fromSeq
  rw [bridgeReplay64, bridgeReplay, hdata, herr]

/-! ## Runs of drops and resumes -/

/-- A client and the output it renders. The stream is everything the child has written. -/
structure ResumeRun where
  ring : OutputRing
  stream : Bytes
  /-- `attach.Run` has dialed before. -/
  dialed : Bool
  /-- What is on its way to the client, while it is connected. -/
  link : Option Bytes
  rendered : Bytes

inductive ResumeAction
  | write (chunk : Bytes)
  | dial
  | render (count : ℕ)
  | drop

namespace ResumeRun

/-- `renderedBytes`. -/
def renderedBytes (state : ResumeRun) : UInt64 := UInt64.ofNat state.rendered.length

/-- The first dial opens `/mosey/pty/`, later ones `/mosey/pty-resume/` with the header. -/
def dial (state : ResumeRun) : ResumeRun :=
  if state.dialed then
    match handlePTYResume state.ring (encodeVarint state.renderedBytes) with
    | .error _ => state
    | .ok replay => { state with link := some replay }
  else { state with dialed := true, link := some (handlePTY state.ring) }

def step (state : ResumeRun) : ResumeAction → ResumeRun
  | .write chunk =>
    { state with
      ring := (state.ring.write chunk).1
      stream := state.stream ++ chunk
      link := state.link.map (· ++ chunk) }
  | .dial => state.dial
  | .render count =>
    match state.link with
    | none => state
    | some bytes =>
      { state with link := some (bytes.drop count), rendered := state.rendered ++ bytes.take count }
  | .drop => { state with link := none }

/-- The client dials only without a stream, and while the ring retains every byte after the rendered
ones, whose number fits its counter. -/
def allowed (state : ResumeRun) : ResumeAction → Prop
  | .dial => state.link = none ∧ state.ring.firstSeq ≤ state.rendered.length + 1 ∧
      state.rendered.length < 2 ^ 64
  | _ => True

def machine (capacity : ℤ) : Machine ResumeRun ResumeAction where
  init := ⟨.new capacity, [], false, none, []⟩
  allowed := allowed
  step := step

instance (capacity : ℤ) (state : ResumeRun) (action : ResumeAction) :
    Decidable ((machine capacity).allowed state action) := by
  induction action using ResumeAction.casesOn <;> dsimp only [machine, allowed] <;> infer_instance

/-- Nothing is rendered when the client dials again. -/
def NothingRendered (state : ResumeRun) : ResumeAction → Prop
  | .dial => state.rendered = []
  | _ => True

instance (state : ResumeRun) (action : ResumeAction) : Decidable (state.NothingRendered action) := by
  induction action using ResumeAction.casesOn <;> dsimp only [NothingRendered] <;> infer_instance

/-- What is rendered, and what is on its way behind it. -/
structure InStep (state : ResumeRun) : Prop where
  retains : state.ring.Retains state.stream
  rendered : state.rendered <+: state.stream
  link : ∀ bytes, state.link = some bytes → state.rendered ++ bytes = state.stream

variable {state : ResumeRun} {action : ResumeAction}

/-- With nothing rendered, a dial replays the stream from its start. -/
theorem link_dial (hretains : state.ring.Retains state.stream) (hrendered : state.rendered = [])
    (hretained : state.ring.firstSeq ≤ state.rendered.length + 1) :
    state.dial.link = some state.stream := by
  have hfirst : state.ring.firstSeq - 1 = 0 := by
    rw [hrendered, List.length_nil] at hretained
    omega
  have hreplay : bridgeReplay state.ring 0 = state.stream := by
    rw [bridgeReplay_zero, hretains.data_eq, hfirst, List.drop_zero]
  unfold dial
  split
  · rw [handlePTYResume_encodeVarint, renderedBytes, hrendered]
    exact congrArg some hreplay
  · exact congrArg some hreplay

theorem dial_keeps (state : ResumeRun) :
    state.dial.ring = state.ring ∧ state.dial.stream = state.stream ∧
      state.dial.rendered = state.rendered := by
  unfold dial
  split
  · split <;> exact ⟨rfl, rfl, rfl⟩
  · exact ⟨rfl, rfl, rfl⟩

theorem inStep_step (hin : state.InStep) (hallowed : state.allowed action)
    (hnothing : state.NothingRendered action) : (state.step action).InStep := by
  cases action with
  | write chunk =>
    refine ⟨OutputRing.retains_write hin.retains chunk, ?_, ?_⟩
    · exact hin.rendered.trans (List.prefix_append ..)
    · intro bytes hbytes
      obtain ⟨earlier, hearlier, rfl⟩ := Option.map_eq_some_iff.mp hbytes
      change state.rendered ++ (earlier ++ chunk) = state.stream ++ chunk
      rw [← List.append_assoc, hin.link earlier hearlier]
  | dial =>
    obtain ⟨_, hretained, _⟩ := hallowed
    obtain ⟨hring, hstream, hrendered⟩ := dial_keeps state
    have hlink := link_dial hin.retains hnothing hretained
    refine ⟨?_, ?_, ?_⟩
    · rw [step, hring, hstream]
      exact hin.retains
    · rw [step, hrendered, hstream]
      exact hin.rendered
    · intro bytes hbytes
      rw [step, hlink] at hbytes
      obtain rfl := Option.some.inj hbytes
      rw [step, hrendered, hstream, hnothing, List.nil_append]
  | render count =>
    cases hlink : state.link with
    | none => simpa [step, hlink] using hin
    | some bytes =>
      have hall := hin.link bytes hlink
      simp only [step, hlink]
      refine ⟨hin.retains, ?_, ?_⟩
      · change state.rendered ++ bytes.take count <+: state.stream
        rw [← hall]
        exact (List.prefix_append_right_inj _).mpr (List.take_prefix ..)
      · intro later hlater
        obtain rfl := Option.some.inj hlater
        change state.rendered ++ bytes.take count ++ bytes.drop count = state.stream
        rw [List.append_assoc, List.take_append_drop, hall]
  | drop =>
    refine ⟨hin.retains, hin.rendered, ?_⟩
    intro bytes hbytes
    cases hbytes

/-- The ring is only written to, so its replays are those of the source for the first `2 ^ 64 - 2` bytes. -/
theorem replay_eq_source {capacity : ℤ} (hreach : (machine capacity).Reachable state)
    (hbound : state.stream.length + 1 < 2 ^ 64) :
    ∃ writes, state.stream = writes.flatten ∧ ∀ fromSeq : UInt64,
      bridgeReplay state.ring fromSeq.toNat = bridgeReplay64 (.written capacity writes) fromSeq := by
  refine bridgeReplay_eq_source ?_ hbound
  refine hreach.invariant (P := fun state ↦ OutputRing.WrittenBy capacity state.ring state.stream)
    ⟨[], rfl, rfl⟩ ?_
  intro before action _ hwritten _
  cases action with
  | write chunk => exact hwritten.write chunk
  | dial =>
    obtain ⟨hring, hstream, -⟩ := dial_keeps before
    change OutputRing.WrittenBy capacity before.dial.ring before.dial.stream
    rwa [hring, hstream]
  | render count => cases hlink : before.link <;> simpa [machine, step, hlink] using hwritten
  | drop => exact hwritten

theorem inStep_of_reachable {capacity : ℤ}
    (hreach : ((machine capacity).restrict NothingRendered).Reachable state) : state.InStep := by
  refine hreach.invariant (P := InStep) ?_ ?_
  · refine ⟨OutputRing.retains_new capacity, List.prefix_refl _, ?_⟩
    intro bytes hbytes
    cases hbytes
  · intro before action _ hin hallowed
    exact inStep_step hin hallowed.1 hallowed.2

end ResumeRun

/-- A resume that finds every byte after the rendered ones retained replays exactly those bytes if and
only if nothing was rendered; and as long as every dial is made with nothing rendered, what the client
renders is a beginning of the output. -/
theorem resume_exact_iff (capacity : ℤ) :
    (∀ (writes : List Bytes) (rendered : UInt64), rendered.toNat ≤ writes.flatten.length →
      (OutputRing.written capacity writes).firstSeq ≤ rendered.toNat + 1 →
      (handlePTYResume (.written capacity writes) (encodeVarint rendered) =
        .ok (writes.flatten.drop rendered.toNat) ↔ rendered = 0)) ∧
    ∀ state, ((ResumeRun.machine capacity).restrict ResumeRun.NothingRendered).Reachable state →
      state.rendered <+: state.stream := by
  constructor
  · intro writes rendered hrendered hretained
    have hreplay := bridgeReplay_eq_drop_iff (OutputRing.retains_written capacity writes) hrendered
      hretained
    rw [handlePTYResume_encodeVarint, Except.ok.injEq, hreplay]
    exact ⟨fun hzero ↦ UInt64.toNat_inj.mp hzero, fun hzero ↦ congrArg UInt64.toNat hzero⟩
  · intro state hreach
    exact (ResumeRun.inStep_of_reachable hreach).rendered

/-- The client's first stream drops before anything is rendered. -/
def exampleFreshResume : List ResumeAction :=
  [.write [97, 98], .dial, .drop, .write [99], .dial, .render 2]

theorem resume_exact_example :
    handlePTYResume (.written 16 [[97, 98], [99]]) (encodeVarint 0) = .ok [97, 98, 99] ∧
      ((ResumeRun.machine 16).run (ResumeRun.machine 16).init exampleFreshResume).rendered <+:
        ((ResumeRun.machine 16).run (ResumeRun.machine 16).init exampleFreshResume).stream := by
  have hlegal : ((ResumeRun.machine 16).restrict ResumeRun.NothingRendered).Legal
      (ResumeRun.machine 16).init exampleFreshResume :=
    Machine.legal_restrict _ (by decide) (by decide)
  exact ⟨((resume_exact_iff 16).1 [[97, 98], [99]] 0 (by decide) (by decide)).mpr rfl,
    (resume_exact_iff 16).2 _ (Machine.Reachable.init.run hlegal)⟩

/-- The client renders two bytes of three and resumes. -/
def exampleResume : List ResumeAction :=
  [.write [97, 98, 99], .dial, .render 2, .drop, .dial, .render 2]

/-- The second byte comes again. -/
theorem resume_repeats_last_byte :
    handlePTYResume (.written 16 [[97, 98, 99]]) (encodeVarint 2) = .ok [98, 99] ∧
      (ResumeRun.machine 16).Legal (ResumeRun.machine 16).init exampleResume ∧
      ((ResumeRun.machine 16).run (ResumeRun.machine 16).init exampleResume).stream = [97, 98, 99] ∧
      ((ResumeRun.machine 16).run (ResumeRun.machine 16).init exampleResume).rendered =
        [97, 98, 98, 99] := by
  decide +kernel

/-- Once a byte after the rendered ones is evicted, the whole window is replayed if and only if nothing
was rendered; otherwise nothing is. -/
theorem overrun_replays_window_iff (ring : OutputRing) (rendered : UInt64)
    (hevicted : rendered.toNat + 1 < ring.firstSeq) :
    handlePTYResume ring (encodeVarint rendered) = .ok ring.data ↔ rendered = 0 := by
  rw [handlePTYResume_encodeVarint, Except.ok.injEq]
  constructor
  · intro hreplay
    by_contra hne
    have hpos : 0 < rendered.toNat := Nat.pos_of_ne_zero fun hzero ↦ hne (UInt64.toNat_inj.mp hzero)
    rw [bridgeReplay_of_lt hpos (by omega)] at hreplay
    exact ring.ne_nil_of_evicted (by omega) hreplay.symm
  · rintro rfl
    exact bridgeReplay_zero ring

/-- A fresh resume of a ring of four bytes, after six. -/
theorem overrun_replays_window_example :
    handlePTYResume (.written 4 [[1, 2, 3, 4, 5, 6]]) (encodeVarint 0) = .ok [3, 4, 5, 6] :=
  (overrun_replays_window_iff (.written 4 [[1, 2, 3, 4, 5, 6]]) 0 (by decide)).mpr rfl

theorem overrun_replays_nothing :
    (OutputRing.written 4 [[1, 2, 3, 4, 5, 6]]).data = [3, 4, 5, 6] ∧
      (OutputRing.written 4 [[1, 2, 3, 4, 5, 6]]).firstSeq = 3 ∧
      handlePTYResume (.written 4 [[1, 2, 3, 4, 5, 6]]) (encodeVarint 1) = .ok [] := by
  decide +kernel

end Mosey.Vterm

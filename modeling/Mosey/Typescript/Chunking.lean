import Mosey.Typescript.Stream

/-!
# Frames cut anywhere

The messages of a stream and the raw bytes behind them arrive in binary frames that are cut in any places,
while `readFramed` is called at any times. Where the stream stands depends only on the bytes that have
arrived and on the number of calls, as long as what is not yet read fits into one array.
-/

namespace Mosey.Typescript

open Library

/-- The stream when some bytes have arrived and some calls are made, and the first of the calls have their
messages. -/
def streamAfter (engine : Engine) (bodies : List Bytes) (received : Bytes) (calls count : ℕ) : Stream :=
  { newStream with
    buffer := (protodelim engine).unread bodies received count
    pendingResolvers := List.range' count (calls - count)
    reads := (bodies.take count).map .resolved ++ List.replicate (calls - count) .pending }

variable {engine : Engine} {bodies : List Bytes} {raw received : Bytes} {calls count : ℕ}

theorem length_map_take (hcount : count ≤ bodies.length) :
    ((bodies.take count).map Promise.resolved).length = count := by
  rw [List.length_map, List.length_take_of_le hcount]

theorem modify_reads (hcount : count < bodies.length) (left : ℕ) :
    ((bodies.take count).map Promise.resolved ++ List.replicate (left + 1) Promise.pending).modify count
        (Promise.resolved bodies[count]).settle =
      (bodies.take (count + 1)).map Promise.resolved ++ List.replicate left .pending := by
  rw [List.modify_eq_take_drop, List.take_left' (length_map_take hcount.le),
    List.drop_left' (length_map_take hcount.le), List.replicate_succ, List.modifyHead_cons,
    List.take_succ_eq_append_getElem hcount, List.map_append, List.append_assoc]
  rfl

/-- The first call that waits gets the message that has arrived. -/
theorem serve_streamAfter (hcalls : count < calls) (hcount : count < bodies.length)
    (hnext : (protodelim engine).next ((protodelim engine).unread bodies received count) =
      some (bodies[count], (protodelim engine).unread bodies received (count + 1))) :
    (streamAfter engine bodies received calls count).serve (List.range' count (calls - count)) =
      (streamAfter engine bodies received calls (count + 1)).serve
        (List.range' (count + 1) (calls - (count + 1))) := by
  obtain ⟨left, hleft⟩ : ∃ left, calls - count = left + 1 := ⟨calls - count - 1, by omega⟩
  have hothers : calls - (count + 1) = left := by omega
  rw [hleft, List.range'_succ, Stream.serve_of_some hnext, hothers, streamAfter, streamAfter, hleft,
    hothers]
  dsimp only
  rw [modify_reads hcount]

/-- One more call waits behind the others. -/
theorem streamAfter_waits (hcalls : count ≤ calls) (hcount : count ≤ bodies.length)
    (hnext : (protodelim engine).next ((protodelim engine).unread bodies received count) = none) :
    (streamAfter engine bodies received calls count).readFramed =
      streamAfter engine bodies received (calls + 1) count := by
  have hlength : ((bodies.take count).map Promise.resolved ++
      List.replicate (calls - count) Promise.pending).length = count + (calls - count) := by
    rw [List.length_append, length_map_take hcount, List.length_replicate]
  rw [Stream.readFramed_of_none (readProtodelim_of_next_eq_none hnext) rfl, streamAfter, streamAfter,
    Nat.succ_sub hcalls]
  dsimp only
  rw [hlength, ← List.range'_1_concat, List.append_assoc, ← List.replicate_succ']

/-- A call that finds its message waits for nothing. -/
theorem streamAfter_finds (hcount : count < bodies.length)
    (hnext : (protodelim engine).next ((protodelim engine).unread bodies received count) =
      some (bodies[count], (protodelim engine).unread bodies received (count + 1))) :
    (streamAfter engine bodies received count count).readFramed =
      streamAfter engine bodies received (count + 1) (count + 1) := by
  rw [Stream.readFramed_of_some hnext, streamAfter, streamAfter, Nat.sub_self, Nat.sub_self]
  dsimp only
  rw [List.take_succ_eq_append_getElem hcount, List.map_append, List.replicate_zero, List.append_nil,
    List.append_nil]
  rfl

/-- Where a stream stands. Calls beyond the messages take something from the raw bytes, but the messages
went to the calls before them. -/
inductive Follows (engine : Engine) (bodies : List Bytes) (received : Bytes) (calls : ℕ) (stream : Stream) :
    Prop
  | standing {count : ℕ} (hstanding : (protodelim engine).Standing bodies received calls count)
      (hcapacity : stream.buffer.length ≤ engine.maxLength)
      (heq : stream = streamAfter engine bodies received calls count)
  | past (hcalls : bodies.length < calls)
      (harrived : ((protodelim engine).wire bodies).length ≤ received.length)
      (hreads : bodies.map .resolved <+: stream.reads)

theorem Stream.Keeps.resolved_reads {stream next : Stream} (hkeeps : stream.Keeps next)
    (hreads : bodies.map .resolved <+: stream.reads) : bodies.map .resolved <+: next.reads := by
  rw [List.prefix_iff_getElem?] at hreads ⊢
  intro index hindex
  refine hkeeps index _ ?_ (hreads index hindex)
  rw [List.getElem_map]
  intro hpending
  cases hpending

theorem resolved_streamAfter :
    bodies.map .resolved <+: (streamAfter engine bodies received calls bodies.length).reads := by
  rw [streamAfter, List.take_length]
  exact List.prefix_append _ _

/-- The loop of `onMessage` serves as many calls as it can. -/
theorem follows_serve (hbegins : received <+: (protodelim engine).wire bodies ++ raw)
    (hcalls : count ≤ calls) (hcount : count ≤ bodies.length)
    (harrived : ((protodelim engine).wire (bodies.take count)).length ≤ received.length)
    (hcapacity : ((protodelim engine).unread bodies received count).length ≤ engine.maxLength) :
    Follows engine bodies received calls
      ((streamAfter engine bodies received calls count).serve (List.range' count (calls - count))) := by
  -- by induction on the number of calls that wait
  induction hleft : calls - count generalizing count with
  | zero =>
    have hlast : ¬ count < calls := by omega
    exact .standing ⟨hcalls, hcount, harrived, fun hlt ↦ absurd hlt hlast⟩ hcapacity rfl
  | succ left ih =>
    have hwaiting : count < calls := by omega
    rw [← hleft]
    rcases hcount.lt_or_eq with hmore | rfl
    · by_cases hnext : ((protodelim engine).wire (bodies.take (count + 1))).length ≤ received.length
      · have hothers : calls - (count + 1) = left := by omega
        have hfinds := Framing.next_unread_of_le hmore hbegins hnext hcapacity
        rw [serve_streamAfter hwaiting hmore hfinds, hothers]
        exact ih hwaiting hmore hnext (Framing.length_unread_succ_le.trans hcapacity) hothers
      · have hcut := Nat.lt_of_not_le hnext
        have hnone := Framing.next_unread_of_lt hmore hbegins harrived hcut hcapacity
        rw [Stream.serve_of_none (readProtodelim_of_next_eq_none hnone)]
        exact .standing ⟨hcalls, hcount, harrived, fun _ ↦ ⟨hmore, hcut⟩⟩ hcapacity rfl
    · -- what the other calls get is not one of the messages
      rw [List.take_length] at harrived
      exact .past hwaiting harrived ((Stream.keeps_serve _ _).resolved_reads resolved_streamAfter)

variable {stream : Stream}

theorem Follows.onBinary {chunk : Bytes} (hfollows : Follows engine bodies received calls stream)
    (hbegins : received ++ chunk <+: (protodelim engine).wire bodies ++ raw)
    (hfits : stream.buffer.length + chunk.length ≤ engine.maxLength) :
    Follows engine bodies (received ++ chunk) calls (stream.onMessage engine (.arrayBuffer chunk)) := by
  cases hfollows with
  | past hcalls harrived hreads =>
    refine .past hcalls ?_ ((Stream.keeps_onMessage engine stream _).resolved_reads hreads)
    rw [List.length_append]
    exact harrived.trans (Nat.le_add_right _ _)
  | @standing count hstanding hcapacity heq =>
    obtain ⟨hcallsLe, hcount, harrived, -⟩ := hstanding
    subst heq
    have hbuffer := Framing.unread_append harrived chunk
    have happended : Stream.appended engine ((protodelim engine).unread bodies received count) chunk =
        .ok ((protodelim engine).unread bodies (received ++ chunk) count) := by
      rw [Stream.appended, hbuffer]
      split_ifs with hempty hlong
      · rw [List.length_eq_zero_iff.mp hempty, List.nil_append]
      · exact absurd hfits hlong.not_ge
      · rfl
    have hserve : (streamAfter engine bodies received calls count).onMessage engine (.arrayBuffer chunk) =
        (streamAfter engine bodies (received ++ chunk) calls count).serve
          (List.range' count (calls - count)) := by
      rw [Stream.onMessage, Stream.onBinary]
      simp only [streamAfter, newStream, happended]
    rw [hserve]
    refine follows_serve hbegins hcallsLe hcount ?_ ?_
    · rw [List.length_append]
      exact harrived.trans (Nat.le_add_right _ _)
    · rw [hbuffer, List.length_append]
      exact hfits

theorem Follows.readFramed (hfollows : Follows engine bodies received calls stream)
    (hbegins : received <+: (protodelim engine).wire bodies ++ raw) :
    Follows engine bodies received (calls + 1) stream.readFramed := by
  cases hfollows with
  | past hcalls harrived hreads =>
    exact .past (Nat.lt_succ_of_lt hcalls) harrived ((Stream.keeps_readFramed stream).resolved_reads hreads)
  | @standing count hstanding hcapacity heq =>
    obtain ⟨hcalls, hcount, harrived, hwaits⟩ := hstanding
    subst heq
    by_cases hcut : count < bodies.length ∧
        received.length < ((protodelim engine).wire (bodies.take (count + 1))).length
    · have hnone := Framing.next_unread_of_lt hcut.1 hbegins harrived hcut.2 hcapacity
      rw [streamAfter_waits hcalls hcount hnone]
      exact .standing ⟨Nat.le_succ_of_le hcalls, hcount, harrived, fun _ ↦ hcut⟩ hcapacity rfl
    · -- no call waits, so the next message is for this one
      obtain rfl : count = calls := hcalls.eq_of_not_lt fun hlt ↦ hcut (hwaits hlt)
      rcases hcount.lt_or_eq with hmore | rfl
      · have hnext := Nat.le_of_not_lt fun hlt ↦ hcut ⟨hmore, hlt⟩
        rw [streamAfter_finds hmore (Framing.next_unread_of_le hmore hbegins hnext hcapacity)]
        exact .standing ⟨Nat.le_refl _, hmore, hnext, fun hlt ↦ absurd hlt (Nat.lt_irrefl _)⟩
          (Framing.length_unread_succ_le.trans hcapacity) rfl
      · rw [List.take_length] at harrived
        exact .past (Nat.lt_succ_self _) harrived
          ((Stream.keeps_readFramed _).resolved_reads resolved_streamAfter)

/-! ## Runs -/

/-- The bytes that an event brings. -/
def StreamEvent.chunk : StreamEvent → Bytes
  | message (.arrayBuffer chunk) => chunk
  | _ => []

/-- A binary frame, or a call of `readFramed`. -/
def StreamEvent.isReading : StreamEvent → Bool
  | message (.arrayBuffer _) => true
  | readFramed => true
  | _ => false

def arrived (events : List StreamEvent) : Bytes := events.flatMap StreamEvent.chunk

def readCalls (events : List StreamEvent) : ℕ := events.count .readFramed

/-- What is not yet read and what arrives fit into one array. -/
def FitsBuffer (engine : Engine) (stream : Stream) (event : StreamEvent) : Prop :=
  stream.buffer.length + event.chunk.length ≤ engine.maxLength

instance (engine : Engine) (stream : Stream) (event : StreamEvent) :
    Decidable (FitsBuffer engine stream event) :=
  inferInstanceAs (Decidable (stream.buffer.length + event.chunk.length ≤ engine.maxLength))

theorem Follows.step {event : StreamEvent} (hfollows : Follows engine bodies received calls stream)
    (hreading : event.isReading = true) (hfits : FitsBuffer engine stream event)
    (hbegins : received ++ event.chunk <+: (protodelim engine).wire bodies ++ raw) :
    Follows engine bodies (received ++ event.chunk) (calls + readCalls [event])
      ((streamMachine engine).step stream event) := by
  cases event with
  | message data =>
    cases data with
    | text text => cases hreading
    | arrayBuffer chunk => exact hfollows.onBinary hbegins hfits
  | readFramed =>
    have hchunk : received ++ StreamEvent.readFramed.chunk = received := List.append_nil received
    rw [hchunk] at hbegins ⊢
    exact hfollows.readFramed hbegins
  | _ => cases hreading

/-- Events that only bring bytes and read take the stream along the messages. -/
theorem Follows.run {events : List StreamEvent} (hfollows : Follows engine bodies received calls stream)
    (hreading : ∀ event ∈ events, event.isReading = true)
    (hfits : (streamMachine engine).Along (FitsBuffer engine) stream events)
    (hbegins : received ++ arrived events <+: (protodelim engine).wire bodies ++ raw) :
    Follows engine bodies (received ++ arrived events) (calls + readCalls events)
      ((streamMachine engine).run stream events) := by
  induction events generalizing received calls stream with
  | nil =>
    rw [arrived, List.flatMap_nil, List.append_nil]
    exact hfollows
  | cons event events ih =>
    have hcalls : readCalls (event :: events) = readCalls [event] + readCalls events := by
      rw [← List.singleton_append, readCalls, List.count_append, readCalls, readCalls]
    rw [arrived, List.flatMap_cons, ← List.append_assoc] at hbegins ⊢
    rw [hcalls, ← Nat.add_assoc]
    have hstep := hfollows.step (hreading event List.mem_cons_self) hfits.1
      ((List.prefix_append _ _).trans hbegins)
    exact ih hstep (fun later hmem ↦ hreading later (List.mem_cons_of_mem event hmem)) hfits.2 hbegins

theorem follows_newStream : Follows engine bodies [] 0 newStream :=
  .standing ⟨Nat.le_refl 0, Nat.zero_le _, Nat.le_refl 0, fun hlt ↦ absurd hlt (Nat.lt_irrefl 0)⟩
    (Nat.zero_le _) (by simp [streamAfter, newStream, Framing.unread])

/-- Each of the first calls has its message as soon as the frame has arrived, and waits before. -/
theorem Follows.getElem?_reads (hfollows : Follows engine bodies received calls stream) {index : ℕ}
    (hindex : index < bodies.length) (hcall : index < calls) :
    stream.reads[index]? = some
      (if ((protodelim engine).wire (bodies.take (index + 1))).length ≤ received.length then
        .resolved bodies[index] else .pending) := by
  cases hfollows with
  | past hcalls harrived hreads =>
    have hle : ((protodelim engine).wire (bodies.take (index + 1))).length ≤
        ((protodelim engine).wire (bodies.take bodies.length)).length :=
      Framing.length_wire_take_mono hindex
    rw [List.take_length] at hle
    rw [if_pos (hle.trans harrived), ← List.getElem_map Promise.resolved (h := by rwa [List.length_map])]
    exact List.prefix_iff_getElem?.mp hreads index _
  | @standing count hstanding hcapacity heq =>
    subst heq
    dsimp only [streamAfter]
    rcases Nat.lt_or_ge index count with hserved | hwaits
    · have harrived := (Framing.length_wire_take_mono (Nat.succ_le_of_lt hserved)).trans hstanding.arrived
      rw [if_pos harrived, List.getElem?_append_left (by rwa [length_map_take hstanding.le_length]),
        List.getElem?_map, List.getElem?_take_of_lt hserved, List.getElem?_eq_getElem hindex,
        Option.map_some]
    · have hcut := (hstanding.waits (hwaits.trans_lt hcall)).2
      have hlater : ((protodelim engine).wire (bodies.take (count + 1))).length ≤
          ((protodelim engine).wire (bodies.take (index + 1))).length :=
        Framing.length_wire_take_mono (Nat.succ_le_succ hwaits)
      have hlength := length_map_take hstanding.le_length
      rw [if_neg (hcut.trans_le hlater).not_ge, List.getElem?_append_right (by rwa [hlength]), hlength,
        List.getElem?_replicate, if_pos (by omega)]

/-- In data mode every frame goes to the handler. -/
theorem run_dataMode {handler : ℕ} (hmode : stream.dataMode = true)
    (hhandler : stream.dataHandler = some handler) (chunks : List Bytes) :
    (streamMachine engine).run stream (chunks.map .binary) =
      { stream with delivered := stream.delivered ++ chunks.map (handler, ·) } := by
  induction chunks generalizing stream with
  | nil => rw [List.map_nil, List.map_nil, List.append_nil, Machine.run_nil]
  | cons chunk chunks ih =>
    have hstep : (streamMachine engine).step stream (.binary chunk) = stream.deliver handler chunk := by
      simp only [streamMachine, Stream.onMessage, Stream.onBinary, hmode, hhandler]
    have hlater := @ih (stream.deliver handler chunk) hmode hhandler
    rw [List.map_cons, Machine.run_cons, hstep, hlater, List.map_cons, ← List.singleton_append,
      ← List.append_assoc]
    rfl

theorem onData_eq (stream : Stream) (handler : ℕ) :
    stream.onData handler =
      { stream with
        buffer := []
        dataHandler := some handler
        dataMode := true
        delivered := stream.delivered ++
          if stream.buffer = [] then [] else [(handler, stream.buffer)] } := by
  rw [Stream.onData]
  rcases List.eq_nil_or_concat stream.buffer with hempty | ⟨init, last, hbuffer⟩
  · simp [hempty]
  · simp [hbuffer, Stream.deliver]

/-- The handler gets what is left, and then what arrives. -/
theorem run_onData (stream : Stream) (handler : ℕ) (chunks : List Bytes) :
    (streamMachine engine).run stream (.onData handler :: chunks.map .binary) =
      { stream with
        buffer := []
        dataHandler := some handler
        dataMode := true
        delivered := stream.delivered ++ (if stream.buffer = [] then [] else [(handler, stream.buffer)]) ++
          chunks.map (handler, ·) } := by
  have hstep : (streamMachine engine).step stream (.onData handler) = stream.onData handler := rfl
  rw [Machine.run_cons, hstep, onData_eq, run_dataMode rfl rfl]

theorem delivered_parts (handler : ℕ) (buffer : Bytes) (chunks : List Bytes) :
    let parts := (if buffer = [] then [] else [(handler, buffer)]) ++ chunks.map (handler, ·)
    (∀ part ∈ parts, part.1 = handler) ∧ (parts.map Prod.snd).flatten = buffer ++ chunks.flatten := by
  have hsnd : (chunks.map (handler, ·)).map Prod.snd = chunks := by
    rw [List.map_map]
    exact List.map_id chunks
  refine ⟨fun part hpart ↦ ?_, ?_⟩
  · rcases List.mem_append.mp hpart with hflushed | hlater
    · split_ifs at hflushed with hempty
      · cases hflushed
      · rw [List.mem_singleton.mp hflushed]
    · obtain ⟨chunk, -, rfl⟩ := List.mem_map.mp hlater
      rfl
  · rw [List.map_append, hsnd, List.flatten_append]
    split_ifs with hempty
    · rw [hempty, List.map_nil, List.flatten_nil]
    · rw [List.map_singleton, List.flatten_singleton]

/-- When every message is read, the handler gets the raw bytes. -/
theorem Follows.run_onData (hfollows : Follows engine bodies received bodies.length stream)
    (hnone : stream.pendingResolvers = [])
    (hbegins : received <+: (protodelim engine).wire bodies ++ raw) {chunks : List Bytes}
    (hall : received ++ chunks.flatten = (protodelim engine).wire bodies ++ raw) (handler : ℕ) :
    let final := (streamMachine engine).run stream (.onData handler :: chunks.map .binary)
    final.reads = bodies.map .resolved ∧ (∀ part ∈ final.delivered, part.1 = handler) ∧
      (final.delivered.map Prod.snd).flatten = raw := by
  cases hfollows with
  | past hmore => exact absurd hmore (Nat.lt_irrefl _)
  | @standing count hstanding hcapacity heq =>
    subst heq
    have hleft : bodies.length - count = 0 := List.range'_eq_nil_iff.mp hnone
    obtain rfl : count = bodies.length :=
      hstanding.le_length.antisymm (Nat.sub_eq_zero_iff_le.mp hleft)
    have hsplit := Framing.wire_take_append_unread hbegins hstanding.arrived
    rw [List.take_length] at hsplit
    have hraw : (protodelim engine).unread bodies received bodies.length ++ chunks.flatten = raw := by
      rw [← hsplit, List.append_assoc] at hall
      exact List.append_cancel_left hall
    have hreads : (streamAfter engine bodies received bodies.length bodies.length).reads =
        bodies.map .resolved := by
      rw [streamAfter, List.take_length, Nat.sub_self, List.replicate_zero, List.append_nil]
    obtain ⟨hhandler, hparts⟩ := delivered_parts handler
      ((protodelim engine).unread bodies received bodies.length) chunks
    rw [Typescript.run_onData]
    exact ⟨hreads, hhandler, hparts.trans hraw⟩

/-- Whatever the frames are cut into, each call gets its message and the handler gets the rest. -/
theorem stream_ignores_chunking (engine : Engine) (bodies : List Bytes) (raw : Bytes)
    (before : List StreamEvent) (hreading : ∀ event ∈ before, event.isReading = true)
    (hfits : (streamMachine engine).Along (FitsBuffer engine) newStream before)
    (hbegins : arrived before <+: (protodelim engine).wire bodies ++ raw) :
    (∀ body, ((protodelim engine).frame body).length ≤ engine.maxLength →
      withProtodelim engine body = .ok ((protodelim engine).frame body)) ∧
    (∀ (index : ℕ) (hindex : index < bodies.length), index < readCalls before →
      ((streamMachine engine).run newStream before).reads[index]? = some
        (if ((protodelim engine).wire (bodies.take (index + 1))).length ≤ (arrived before).length then
          .resolved bodies[index] else .pending)) ∧
    (∀ later, ((streamMachine engine).run newStream before).Keeps
      ((streamMachine engine).run newStream (before ++ later))) ∧
    (∀ (handler : ℕ) (chunks : List Bytes), readCalls before = bodies.length →
      ((streamMachine engine).run newStream before).pendingResolvers = [] →
      arrived before ++ chunks.flatten = (protodelim engine).wire bodies ++ raw →
      let final := (streamMachine engine).run newStream (before ++ .onData handler :: chunks.map .binary)
      final.reads = bodies.map .resolved ∧ (∀ part ∈ final.delivered, part.1 = handler) ∧
        (final.delivered.map Prod.snd).flatten = raw) := by
  have hfollows := follows_newStream.run hreading hfits (by rwa [List.nil_append])
  rw [List.nil_append, Nat.zero_add] at hfollows
  refine ⟨fun body ↦ withProtodelim_eq_ok, fun index hindex hcall ↦ hfollows.getElem?_reads hindex hcall,
    fun later ↦ ?_, ?_⟩
  · rw [Machine.run_append]
    exact Stream.keeps_run engine _ later
  · intro handler chunks hcalls hnone hall
    rw [hcalls] at hfollows
    rw [Machine.run_append]
    exact hfollows.run_onData hnone hbegins hall handler

/-- Two messages and raw bytes, cut in the wrong places. -/
def cutEvents : List StreamEvent :=
  [.readFramed, .binary [0x02], .binary [0x68, 0x69, 0x01], .readFramed, .binary [0x7f, 0x0a]]

theorem stream_ignores_chunking_example :
    let final := (streamMachine exampleEngine).run newStream (cutEvents ++ [.onData 0, .binary [0x0d]])
    final.reads = [.resolved [0x68, 0x69], .resolved [0x7f]] ∧ (∀ part ∈ final.delivered, part.1 = 0) ∧
      (final.delivered.map Prod.snd).flatten = [0x0a, 0x0d] :=
  (stream_ignores_chunking exampleEngine [[0x68, 0x69], [0x7f]] [0x0a, 0x0d] cutEvents (by decide)
    (by decide +kernel) (by decide +kernel)).2.2.2 0 [[0x0d]] rfl (by decide +kernel) (by decide +kernel)

def zeros (length : ℕ) : Bytes := List.replicate length 0

/-- A call, and a message of zeros in two frames. -/
def zerosEvents (length : ℕ) : List StreamEvent :=
  [.readFramed, .binary (encodeVarint length ++ zeros 1), .binary (zeros (length - 1))]

theorem arrived_zerosEvents {length : ℕ} (hlength : 1 ≤ length) :
    arrived (zerosEvents length) = (protodelim engine).wire [zeros length] := by
  have hzeros : zeros 1 ++ zeros (length - 1) = zeros length := by
    rw [zeros, zeros, zeros, List.replicate_append_replicate, Nat.add_sub_cancel' hlength]
  have hframe : (protodelim engine).wire [zeros length] = encodeVarint length ++ zeros length := by
    rw [Framing.wire, List.flatMap_singleton]
    dsimp only [protodelim]
    rw [zeros, List.length_replicate]
  rw [hframe, ← hzeros, arrived, zerosEvents]
  simp only [List.flatMap_cons, List.flatMap_nil, StreamEvent.chunk, List.nil_append, List.append_nil,
    List.append_assoc]

/-- The second frame is lost, and the call waits on. -/
theorem run_zerosEvents {length : ℕ} (htwo : 2 ≤ length) (hlength : length < 2 ^ 53)
    (hlong : engine.maxLength < (encodeVarint length).length + length) :
    (streamMachine engine).run newStream (zerosEvents length) =
      { newStream with
        buffer := encodeVarint length ++ zeros 1
        pendingResolvers := [0]
        reads := [.pending]
        thrown := [.range ⟨(encodeVarint length).length + length⟩] } := by
  have hheader : (encodeVarint length).length ≤ 10 := length_encodeVarint_le_ten (by omega)
  have hone : (encodeVarint length ++ zeros 1).length = (encodeVarint length).length + 1 := by
    rw [List.length_append, zeros, List.length_replicate]
  have hnone : readProtodelim (encodeVarint length ++ zeros 1) = .ok none := by
    refine readProtodelim_of_cut (terminated_encodeVarint length) ?_ (by omega)
    rw [value_encodeVarint, zeros, List.length_replicate]
    omega
  have hfirst : (streamMachine engine).run newStream
      [.readFramed, .binary (encodeVarint length ++ zeros 1)] =
        { newStream with
          buffer := encodeVarint length ++ zeros 1
          pendingResolvers := [0]
          reads := [.pending] } :=
    Stream.serve_of_none hnone [0]
  have hsum : (encodeVarint length ++ zeros 1).length + (zeros (length - 1)).length =
      (encodeVarint length).length + length := by
    rw [hone, zeros, List.length_replicate]
    omega
  have happended : Stream.appended engine (encodeVarint length ++ zeros 1) (zeros (length - 1)) =
      .error ⟨(encodeVarint length).length + length⟩ := by
    rw [Stream.appended, if_neg (by omega), hsum, if_pos hlong]
  have hsplit : zerosEvents length = [.readFramed, .binary (encodeVarint length ++ zeros 1)] ++
      [.binary (zeros (length - 1))] := rfl
  rw [hsplit, Machine.run_append, hfirst, Machine.run_cons, Machine.run_nil]
  simp only [streamMachine, Stream.onMessage, Stream.onBinary, newStream, happended]
  rfl

/-- A message as long as the longest array never reaches the call that waits for it, and a call too many
takes raw bytes for a message. -/
theorem long_message_lost :
    (zeros (2 ^ 32)).length < 2 ^ 53 ∧
    arrived (zerosEvents (2 ^ 32)) = (protodelim exampleEngine).wire [zeros (2 ^ 32)] ∧
    ((streamMachine exampleEngine).run newStream (zerosEvents (2 ^ 32))).reads = [.pending] ∧
    ((streamMachine exampleEngine).run newStream (zerosEvents (2 ^ 32))).thrown = [.range ⟨5 + 2 ^ 32⟩] ∧
    ((streamMachine exampleEngine).run newStream [.readFramed, .binary [0x00], .onData 0]).reads =
      [.resolved []] ∧
    ((streamMachine exampleEngine).run newStream [.readFramed, .binary [0x00], .onData 0]).delivered =
      [] := by
  have hheader : (encodeVarint (2 ^ 32)).length = 5 := by decide +kernel
  have hrun : (streamMachine exampleEngine).run newStream (zerosEvents (2 ^ 32)) = _ :=
    run_zerosEvents (by decide) (by decide) (by rw [hheader]; decide)
  refine ⟨?_, arrived_zerosEvents (by decide), ?_, ?_, by decide +kernel, by decide +kernel⟩
  · rw [zeros, List.length_replicate]
    decide
  · rw [hrun]
  · rw [hrun, hheader]

end Mosey.Typescript

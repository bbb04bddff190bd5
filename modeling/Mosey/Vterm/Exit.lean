import Mosey.Vterm.ExitRun

/-!
# The end of a session

Output is lost when the shutdown overtakes the pump, when an output goroutine sees `done` before its channel
is empty, and when the pump ends while the responder holds the beginning of a query that does not come. In
a run without these every client gets everything.
-/

namespace Mosey.Vterm

open Library Auth Streambuf

/-- The output side in an orderly run: what was broadcast is what the responder let through, the ring has
it and what is about to be broadcast, a pump that has returned has handled everything, and the shutdown
came after it. -/
structure OutputSide.Handled (side : OutputSide) : Prop where
  responder : (DAResponder.idle.process side.consumed).responder = side.responder
  out : (DAResponder.idle.process side.consumed).out = side.fannedOut ++ side.pump.pending
  retains : side.ring.Retains side.ringed
  returned : side.pump = .returned →
    side.exited = true ∧ side.unread = [] ∧ side.responder.held = []
  late : side.exit = .shutDown ∨ side.exit = .closed ∨ side.dismissed ≠ [] → side.pump = .returned

namespace ExitRun

variable {state : ExitRun}

/-- A pump that has not returned was not overtaken by the shutdown. -/
theorem not_late (hhandled : state.Handled) (hpump : state.pump ≠ .returned) :
    ¬(state.exit = .shutDown ∨ state.exit = .closed ∨ state.dismissed ≠ []) :=
  fun hlate ↦ hpump (hhandled.late hlate)

theorem handled_read (hhandled : state.Handled) (hreading : state.pump = .reading) (n : ℕ) :
    (state.step (.read n)).Handled := by
  have happend := DAResponder.process_append .idle state.consumed (state.unread.take n)
  rw [hhandled.responder, hhandled.out, hreading] at happend
  have hpending : (state.step (.read n)).pump.pending =
      (state.responder.process (state.unread.take n)).out := by
    simp only [step]
    split
    · next hempty => exact hempty.symm
    · rfl
  have hringed : (state.step (.read n)).ringed = state.ringed := by
    simp only [step, OutputSide.ringed, hreading]
    split <;> rfl
  constructor
  · simp only [step, happend]
  · rw [hpending]
    simp [step, happend, OutputPump.pending]
  · rw [hringed]
    exact hhandled.retains
  · intro hreturned
    simp only [step] at hreturned
    split at hreturned <;> cases hreturned
  · exact fun hlate ↦ (not_late hhandled (by simp [hreading]) hlate).elim

/-- What is written to the ring is what was read and handled. -/
theorem handled_writeRing (hhandled : state.Handled) : (state.step .writeRing).Handled := by
  cases hpump : state.pump with
  | writing out =>
    have hout := hhandled.out
    have hretains := hhandled.retains
    rw [hpump] at hout
    simp only [OutputSide.ringed, hpump, OutputPump.inRing, List.append_nil] at hretains
    refine ⟨?_, ?_, ?_, ?_, ?_⟩
    · simpa [step, hpump] using hhandled.responder
    · simpa [step, hpump, OutputPump.pending] using hout
    · simpa [step, hpump, OutputSide.ringed, OutputPump.inRing] using
        OutputRing.retains_write hretains out
    · intro hreturned
      simp [step, hpump] at hreturned
    · intro hlate
      exact (not_late hhandled (by simp [hpump]) (by simpa [step, hpump] using hlate)).elim
  | _ => simpa [step, hpump] using hhandled

theorem handled_broadcast (hhandled : state.Handled) : (state.step .broadcast).Handled := by
  cases hpump : state.pump with
  | sending out =>
    have hout := hhandled.out
    have hretains := hhandled.retains
    rw [hpump] at hout
    rw [OutputSide.ringed, hpump, OutputPump.inRing] at hretains
    refine ⟨?_, ?_, ?_, ?_, ?_⟩
    · simpa [step, hpump] using hhandled.responder
    · simpa [step, hpump, OutputPump.pending] using hout
    · simpa [step, hpump, OutputSide.ringed, OutputPump.inRing] using hretains
    · intro hreturned
      simp [step, hpump] at hreturned
    · intro hlate
      exact (not_late hhandled (by simp [hpump]) (by simpa [step, hpump] using hlate)).elim
  | _ => simpa [step, hpump] using hhandled

variable {action : ExitAction}

/-- A pump that returns while the responder holds nothing has handled everything. -/
theorem handled_pumpReturn (hhandled : state.Handled) (hallowed : allowed state .pumpReturn)
    (horderly : state.Orderly .pumpReturn) : (state.step .pumpReturn).Handled := by
  obtain ⟨hreading, hend⟩ := hallowed
  have hopen : state.exit ≠ .closed := by
    intro hclosed
    exact not_late hhandled (by simp [hreading]) (.inr (.inl hclosed))
  obtain ⟨hexited, hunread⟩ := hend.resolve_right hopen
  have hout := hhandled.out
  have hretains := hhandled.retains
  rw [hreading] at hout
  rw [OutputSide.ringed, hreading] at hretains
  exact ⟨hhandled.responder, hout, hretains, fun _ ↦ ⟨hexited, hunread, horderly⟩, fun _ ↦ rfl⟩

/-- In an orderly run every step handles what it reads. -/
theorem handled_step (hhandled : state.Handled) (hallowed : allowed state action)
    (horderly : state.Orderly action) : (state.step action).Handled := by
  have hof_same (hside : (state.step action).toOutputSide = state.toOutputSide) :
      (state.step action).Handled := by
    rw [hside]
    exact hhandled
  cases action with
  | addClient | enqueueReplay | deliver =>
    apply hof_same
    simp only [step]
    split <;> rfl
  | childWrite bytes =>
    refine ⟨hhandled.responder, hhandled.out, hhandled.retains, ?_, hhandled.late⟩
    intro hreturned
    have hexited := (hhandled.returned hreturned).1
    rw [hallowed] at hexited
    cases hexited
  | childExit =>
    refine ⟨hhandled.responder, hhandled.out, hhandled.retains, ?_, hhandled.late⟩
    exact fun hreturned ↦ ⟨rfl, (hhandled.returned hreturned).2⟩
  | read n => exact handled_read hhandled hallowed.1 n
  | writeRing => exact handled_writeRing hhandled
  | broadcast => exact handled_broadcast hhandled
  | pumpReturn => exact handled_pumpReturn hhandled hallowed horderly
  | wait =>
    refine ⟨hhandled.responder, hhandled.out, hhandled.retains, hhandled.returned, ?_⟩
    rintro (hexit | hexit | hdismissed)
    · cases hexit
    · cases hexit
    · exact hhandled.late (.inr (.inr hdismissed))
  | shutdown =>
    exact ⟨hhandled.responder, hhandled.out, hhandled.retains, hhandled.returned, fun _ ↦ horderly⟩
  | closePTY =>
    refine ⟨hhandled.responder, hhandled.out, hhandled.retains, hhandled.returned, ?_⟩
    exact fun _ ↦ hhandled.late (.inl hallowed)
  | _ => exact hof_same rfl

theorem numbered_step (hnumbered : state.session.Numbered) (action : ExitAction) :
    (state.step action).session.Numbered := by
  cases action with
  | addClient identity remote fromSeq =>
    cases hadd : state.session.addClientLocked identity remote with
    | none => simpa [step, hadd] using hnumbered
    | some result =>
      obtain ⟨added, client, size⟩ := result
      have hadded := Session.numbered_step hnumbered (.addClient identity remote)
      rw [Session.step_addClient hadd] at hadded
      simpa [step, hadd] using hadded
  | enqueueReplay | deliver =>
    simp only [step]
    split
    · exact hnumbered
    · exact Session.numbered_step hnumbered _
  | operate action => exact Session.numbered_step hnumbered action
  | writeRing =>
    simp only [step]
    split <;> exact hnumbered
  | broadcast =>
    simp only [step]
    split
    · exact Session.numbered_step hnumbered _
    · exact hnumbered
  | removeClient | shutdown => exact Session.numbered_step hnumbered _
  | _ => exact hnumbered

/-- In an orderly run every step serves every client. -/
theorem allServed_step (hnumbered : state.session.Numbered) (hserved : state.AllServed)
    (hhandled : state.Handled) (hallowed : allowed state action) (horderly : state.Orderly action) :
    (state.step action).AllServed := by
  cases action with
  | addClient identity remote fromSeq =>
    exact allServed_addClient hnumbered hserved identity remote fromSeq
  | readReplay id => exact allServed_readReplay hhandled.retains hserved hallowed
  | enqueueReplay id => exact allServed_enqueueReplay hserved hallowed
  | operate action => exact allServed_operate hserved hallowed
  | read n =>
    have hringed : state.ringed <+: (state.step (.read n)).ringed := by
      simp only [step, OutputSide.ringed, hallowed.1]
      split <;> exact List.prefix_rfl
    exact fun client hclient ↦ (hserved client hclient).of_same rfl rfl hringed rfl
  | writeRing => exact allServed_writeRing hserved
  | broadcast =>
    exact allServed_broadcast hserved (fun hsome ↦ hhandled.late (.inr (.inr hsome))) horderly
  | pumpReturn =>
    have hringed : state.ringed <+: (state.step .pumpReturn).ringed := by
      simp only [step, OutputSide.ringed, hallowed.1]
      exact List.prefix_rfl
    exact fun client hclient ↦ (hserved client hclient).of_same rfl rfl hringed rfl
  | deliver id => exact allServed_deliver hnumbered hserved hallowed
  | stop id =>
    apply allServed_setStage hserved (by simp [Attachment.replayed, hallowed.1])
    rintro - client hclient rfl
    rw [← queue_eq hnumbered hclient]
    exact horderly
  | closeStream id =>
    have hstopped : (state.attachments id).stage = .stopped := hallowed
    apply allServed_setStage hserved (by simp [Attachment.replayed, hstopped])
    rintro - client hclient rfl
    apply (hserved client hclient).drained
    simp [hstopped, StreamStage.Live]
  | removeClient id => exact allServed_removeClient hserved id
  | shutdown => exact allServed_shutdown hnumbered hserved
  | _ => exact fun client hclient ↦ (hserved client hclient).of_same rfl rfl List.prefix_rfl rfl

/-- In an orderly run every client is served what is sent to it. -/
theorem served_of_reachable {mode : Mode}
    (hreach : ((machine mode).restrict Orderly).Reachable state) :
    state.session.Numbered ∧ state.AllServed ∧ state.Handled := by
  refine hreach.invariant
    (P := fun state ↦ state.session.Numbered ∧ state.AllServed ∧ state.Handled) ?_ ?_
  · refine ⟨rfl, fun client hclient ↦ absurd hclient List.not_mem_nil, rfl, rfl, ?_, ?_, ?_⟩
    · exact OutputRing.retains_new outputRingCapacity
    · intro hreturned
      cases hreturned
    · rintro (hexit | hexit | hsome)
      · cases hexit
      · cases hexit
      · exact absurd rfl hsome
  · rintro before action _ ⟨hnumbered, hserved, hhandled⟩ ⟨hallowed, horderly⟩
    exact ⟨numbered_step hnumbered action,
      allServed_step hnumbered hserved hhandled hallowed horderly,
      handled_step hhandled hallowed horderly⟩

/-- A stream is closed when everything from the channel is on it, the replay too. When the pump is done,
everything that the child wrote, queries apart, is on the channel of every client that was there until the
shutdown and never skipped, from its attach on; beside it there is the replay, which reaches to the attach
at least. -/
structure NothingLost (state : ExitRun) : Prop where
  written : ∀ client ∈ state.session.clients, (state.attachments client.id).stage = .closed →
    (state.attachments client.id).written = client.outCh.sent.flatten
  sent : state.pump = .returned → ∃ out replies, Answered state.output out replies ∧
    ∀ client ∈ state.session.clients, client.registered = true ∨ client.id ∈ state.dismissed →
      client.dropped = 0 → Carries client.outCh.sent out (state.attachments client.id) ∧
        IsReplay out (state.attachments client.id).joined (state.attachments client.id).replay

end ExitRun

/-- In an orderly exit no byte of the output is lost. -/
theorem exit_loses_nothing (mode : Mode) {state : ExitRun}
    (hreach : ((ExitRun.machine mode).restrict ExitRun.Orderly).Reachable state) :
    state.NothingLost := by
  obtain ⟨_, hserved, hhandled⟩ := ExitRun.served_of_reachable hreach
  constructor
  · intro client hclient hclosed
    have hclient_served := hserved client hclient
    have hqueued : client.outCh.queued = [] :=
      hclient_served.drained (by simp [hclosed, StreamStage.Live])
    have htaken := client.outCh.taken_append_queued
    rw [hqueued, List.append_nil] at htaken
    rw [← htaken]
    exact hclient_served.written
  · intro hreturned
    obtain ⟨_, hunread, hheld⟩ := hhandled.returned hreturned
    have hanswered := DAResponder.answered_process .idle state.consumed
    rw [hhandled.responder, hhandled.out, hheld, hreturned] at hanswered
    refine ⟨state.fannedOut, (DAResponder.idle.process state.consumed).resp, ?_, ?_⟩
    · simpa [ExitRun.output, hunread, OutputPump.pending] using hanswered
    · intro client hclient hthere hdropped
      have hreplay := (hserved client hclient).replay
      simp only [OutputSide.ringed, hreturned, OutputPump.inRing, List.append_nil] at hreplay
      exact ⟨(hserved client hclient).sent hthere hdropped, hreplay⟩

section Example

abbrev exampleExit : Machine ExitRun ExitAction := ExitRun.machine .multiWrite

/-- A client attaches, and the child writes a byte. -/
def exampleByte (byte : UInt8) : List ExitAction :=
  [.addClient exampleWriter "alpha" 0, .readReplay 1, .enqueueReplay 1, .childWrite [byte]]

/-- One byte is in the ring when the client attaches, and one comes afterwards. -/
def exampleOrderly : List ExitAction :=
  [.childWrite [119], .read 1, .writeRing, .broadcast] ++ exampleByte 120 ++
    [.read 1, .writeRing, .broadcast, .childExit, .pumpReturn, .wait, .shutdown, .closePTY, .deliver 1,
      .deliver 1, .stop 1, .closeStream 1]

theorem exit_loses_nothing_example :
    (exampleExit.run exampleExit.init exampleOrderly).NothingLost ∧
      ((exampleExit.run exampleExit.init exampleOrderly).attachments 1).written = [119, 120] := by
  have hlegal : (exampleExit.restrict ExitRun.Orderly).Legal exampleExit.init exampleOrderly :=
    Machine.legal_restrict _ (by decide +kernel) (by decide +kernel)
  exact ⟨exit_loses_nothing .multiWrite (Machine.Reachable.init.run hlegal), by decide +kernel⟩

/-- The shutdown overtakes the pump. -/
def exampleOvertaken : List ExitAction :=
  exampleByte 120 ++ [.childExit, .wait, .shutdown, .closePTY, .pumpReturn]

/-- The output goroutine takes `done` while a chunk waits. -/
def exampleAbandoned : List ExitAction :=
  exampleByte 120 ++ [.read 1, .writeRing, .broadcast, .childExit, .pumpReturn, .wait, .shutdown, .stop 1,
    .closeStream 1]

/-- The output ends with an escape. -/
def exampleWithheld : List ExitAction :=
  exampleByte escape ++ [.read 1, .childExit, .pumpReturn]

theorem answered_singleton (b : UInt8) : Answered [b] [b] [] := by
  refine .byte ?_ .nil
  rintro ⟨query, response⟩ hentry hquery
  obtain ⟨params, _, rfl, _⟩ := mem_queries.mp hentry
  simpa using hquery.length_le

/-- A client that was there and was sent nothing of the one byte that the child wrote. -/
theorem lost_of_byte {state : ExitRun} {byte : UInt8} (houtput : state.output = [byte])
    (hreturned : state.pump = .returned)
    (hclient : ∃ client ∈ state.session.clients,
      (client.registered = true ∨ client.id ∈ state.dismissed) ∧ client.dropped = 0 ∧
        client.outCh.sent = [] ∧ (state.attachments client.id).joined = 0) : ¬ state.NothingLost := by
  intro hlost
  obtain ⟨client, hmem, hthere, hdropped, hsent, hjoined⟩ := hclient
  obtain ⟨out, replies, hanswered, hall⟩ := hlost.sent hreturned
  rw [houtput] at hanswered
  obtain ⟨rfl, _⟩ := hanswered.unique (answered_singleton byte)
  obtain ⟨⟨earlier, later, hnone, hbytes⟩, -⟩ := hall client hmem hthere hdropped
  rw [hsent] at hnone
  simp only [List.nil_eq, List.append_eq_nil_iff] at hnone
  rw [hnone.1.1, hnone.2, hjoined] at hbytes
  cases hbytes

/-- Output is lost when the shutdown overtakes the pump, when a bridge leaves its queue behind and when the
responder still holds bytes. -/
theorem exit_loses_output :
    (exampleExit.Legal exampleExit.init exampleOvertaken ∧
        ¬ (exampleExit.run exampleExit.init exampleOvertaken).NothingLost) ∧
      (exampleExit.Legal exampleExit.init exampleAbandoned ∧
        ¬ (exampleExit.run exampleExit.init exampleAbandoned).NothingLost) ∧
      exampleExit.Legal exampleExit.init exampleWithheld ∧
        ¬ (exampleExit.run exampleExit.init exampleWithheld).NothingLost := by
  refine ⟨⟨by decide +kernel, ?_⟩, ⟨by decide +kernel, ?_⟩, by decide +kernel, ?_⟩
  · exact lost_of_byte rfl rfl (by decide +kernel)
  · intro hlost
    have hclosed : ∃ client ∈ (exampleExit.run exampleExit.init exampleAbandoned).session.clients,
        ((exampleExit.run exampleExit.init exampleAbandoned).attachments client.id).stage = .closed ∧
          ((exampleExit.run exampleExit.init exampleAbandoned).attachments client.id).written ≠
            client.outCh.sent.flatten := by
      decide +kernel
    obtain ⟨client, hmem, hstage, hwritten⟩ := hclosed
    exact hwritten (hlost.written client hmem hstage)
  · exact lost_of_byte rfl rfl (by decide +kernel)

end Example

end Mosey.Vterm

import Mathlib.Data.List.Induction
import Mosey.Library.Lists
import Mosey.Library.Machine
import Mosey.Library.Authenticity

/-!
# Concurrent sessions under an active adversary

A protocol is a state machine for one session: it is fed one input for each segment of code between
two reads, moves to its next state, and reports what it wrote and what it signed. A world is a list
of sessions, each no more than its role and the inputs it has been fed, so a session's state is
recomputed and never assumed. The adversary starts sessions, chooses which one runs next and
chooses every input, subject to two guards: a nonce that a segment draws has never occurred before,
and every tag it presents is one it can derive.

Two facts hold in every reachable world of every protocol. A presented tag that is valid for an
uncorrupted key was known from the start or signed by a session of the world (`authentic`), and no
nonce is drawn twice (`draws_unique`).
-/

namespace Mosey.Library

/-- What one segment of a session leaves behind. -/
structure Effects (Message Key Content : Type*) where
  written : List Message
  signed : List (Key × Content)

structure Protocol (Role Run Input Message Key Content : Type*) where
  initial : Role → Run
  receive : Run → Input → Run × Effects Message Key Content

structure Session (Role Input : Type*) where
  role : Role
  inputs : List Input

namespace Effects

variable {Message Key Content : Type*}

def none : Effects Message Key Content := ⟨[], []⟩

def append (first second : Effects Message Key Content) : Effects Message Key Content :=
  ⟨first.written ++ second.written, first.signed ++ second.signed⟩

@[simp] theorem none_written : (none : Effects Message Key Content).written = [] := rfl

@[simp] theorem none_signed : (none : Effects Message Key Content).signed = [] := rfl

@[simp] theorem append_written (first second : Effects Message Key Content) :
    (first.append second).written = first.written ++ second.written := rfl

@[simp] theorem append_signed (first second : Effects Message Key Content) :
    (first.append second).signed = first.signed ++ second.signed := rfl

end Effects

namespace Protocol

variable {Role Run Input Message Key Content : Type*}
variable (protocol : Protocol Role Run Input Message Key Content)

/-- One segment, with the effects of the segments before it kept. -/
def advance (reached : Run × Effects Message Key Content) (input : Input) :
    Run × Effects Message Key Content :=
  ((protocol.receive reached.1 input).1, reached.2.append (protocol.receive reached.1 input).2)

/-- The state and the effects of a session after its inputs. -/
def exec (session : Session Role Input) : Run × Effects Message Key Content :=
  session.inputs.foldl protocol.advance (protocol.initial session.role, Effects.none)

def state (session : Session Role Input) : Run := (protocol.exec session).1

def written (session : Session Role Input) : List Message := (protocol.exec session).2.written

def signed (session : Session Role Input) : List (Key × Content) := (protocol.exec session).2.signed

/-- A session goes on from where its earlier inputs have brought it. -/
theorem exec_concat (role : Role) (inputs : List Input) (input : Input) :
    protocol.exec ⟨role, inputs ++ [input]⟩ =
      protocol.advance (protocol.exec ⟨role, inputs⟩) input := by
  simp [exec, List.foldl_append]

/-- The induction over the inputs of one session. -/
theorem exec_invariant (role : Role)
    {P : List Input → Run → Effects Message Key Content → Prop}
    (hinitial : P [] (protocol.initial role) Effects.none)
    (hreceive : ∀ inputs input run effects, P inputs run effects →
      P (inputs ++ [input]) (protocol.receive run input).1
        (effects.append (protocol.receive run input).2))
    (inputs : List Input) :
    P inputs (protocol.state ⟨role, inputs⟩) (protocol.exec ⟨role, inputs⟩).2 := by
  induction inputs using List.reverseRecOn with
  | nil => exact hinitial
  | append_singleton inputs input ih =>
    rw [state, protocol.exec_concat]
    exact hreceive inputs input _ _ ih

theorem state_concat (role : Role) (inputs : List Input) (input : Input) :
    protocol.state ⟨role, inputs ++ [input]⟩ =
      (protocol.receive (protocol.state ⟨role, inputs⟩) input).1 := by
  rw [state, protocol.exec_concat]
  rfl

theorem signed_concat (role : Role) (inputs : List Input) (input : Input) :
    protocol.signed ⟨role, inputs ++ [input]⟩ = protocol.signed ⟨role, inputs⟩ ++
      (protocol.receive (protocol.state ⟨role, inputs⟩) input).2.signed := by
  rw [signed, protocol.exec_concat]
  rfl

end Protocol

/-- A protocol with what the adversary sees and controls of it: the nonces a segment draws and
hears, the tags it is presented with, the tags a role is configured with and the tags a message
carries, over an ideal scheme whose `corrupt` keys the adversary holds. -/
structure Network (Role Run Input Message Key Content Nonce Tag : Type*) extends
    Protocol Role Run Input Message Key Content where
  scheme : TagScheme Key Content Tag
  corrupt : Key → Prop
  known : Tag → Prop
  draws : Input → List Nonce
  hears : Input → List Nonce
  presents : Input → List Tag
  holds : Role → List Tag
  carries : Message → List Tag

inductive NetworkAction (Role Input : Type*)
  | spawn (role : Role)
  | feed (index : ℕ) (input : Input)

namespace Network

variable {Role Run Input Message Key Content Nonce Tag : Type*}
variable (network : Network Role Run Input Message Key Content Nonce Tag)

/-- The adversary's view: its initial knowledge and every tag of every message written so far. -/
def Seen (world : List (Session Role Input)) (tag : Tag) : Prop :=
  network.known tag ∨
    ∃ session ∈ world, ∃ message ∈ network.written session, tag ∈ network.carries message

def Derivable (world : List (Session Role Input)) (tag : Tag) : Prop :=
  network.scheme.Derivable network.corrupt (network.Seen world) tag

def Fresh (world : List (Session Role Input)) (nonce : Nonce) : Prop :=
  ∀ session ∈ world, ∀ input ∈ session.inputs,
    nonce ∉ network.draws input ∧ nonce ∉ network.hears input

def extend (input : Input) (session : Session Role Input) : Session Role Input :=
  ⟨session.role, session.inputs ++ [input]⟩

def step (world : List (Session Role Input)) :
    NetworkAction Role Input → List (Session Role Input)
  | .spawn role => world ++ [⟨role, []⟩]
  | .feed index input => world.modify index (extend input)

def allowed (world : List (Session Role Input)) : NetworkAction Role Input → Prop
  | .spawn role => ∀ tag ∈ network.holds role, network.Derivable world tag
  | .feed _ input => (∀ nonce ∈ network.draws input, network.Fresh world nonce) ∧
      ∀ tag ∈ network.presents input, network.Derivable world tag

def machine : Machine (List (Session Role Input)) (NetworkAction Role Input) where
  init := []
  allowed := network.allowed
  step := step

variable {network}

/-- An input reaches one session and leaves the others alone. -/
theorem getElem?_step_feed (world : List (Session Role Input)) (index position : ℕ)
    (input : Input) :
    (step world (.feed index input))[position]? =
      if index = position then (world[position]?).map (extend input) else world[position]? := by
  rw [step, List.getElem?_modify]
  split <;> simp

variable {world : List (Session Role Input)} {session : Session Role Input} {tag : Tag} {nonce : Nonce}

/-- A session of the next world is an old one, a new one without inputs, or the fed one. -/
theorem mem_step {action : NetworkAction Role Input} (hmem : session ∈ step world action) :
    session ∈ world ∨ (∃ role, action = .spawn role ∧ session = ⟨role, []⟩) ∨
      ∃ index input before, action = .feed index input ∧ world[index]? = some before ∧
        session = extend input before := by
  cases action with
  | spawn role =>
    rcases List.mem_append.mp hmem with hold | hnew
    · exact .inl hold
    · exact .inr (.inl ⟨role, rfl, List.mem_singleton.mp hnew⟩)
  | feed index input =>
    refine (mem_modify hmem).imp_right fun hfed ↦ .inr ?_
    obtain ⟨before, hbefore, rfl⟩ := hfed
    exact ⟨index, input, before, rfl, hbefore, rfl⟩

/-- Every session survives a step, with its role and at least its inputs. -/
theorem mem_step_of_mem (action : NetworkAction Role Input) (hmem : session ∈ world) :
    session ∈ step world action ∨ ∃ input, extend input session ∈ step world action := by
  obtain ⟨position, hposition⟩ := List.mem_iff_getElem?.mp hmem
  cases action with
  | spawn role => exact .inl (List.mem_append_left _ hmem)
  | feed index input =>
    by_cases heq : index = position
    · refine .inr ⟨input, List.mem_of_getElem? (i := position) ?_⟩
      rw [getElem?_step_feed, if_pos heq, hposition, Option.map_some]
    · refine .inl (List.mem_of_getElem? (i := position) ?_)
      rw [getElem?_step_feed, if_neg heq, hposition]

/-! ## Where presented tags come from -/

variable (network)

/-- The tags a session was configured with or presented with. -/
def Given (session : Session Role Input) (tag : Tag) : Prop :=
  tag ∈ network.holds session.role ∨ ∃ input ∈ session.inputs, tag ∈ network.presents input

/-- The tag is valid for one of the signed contents. -/
def Backed (signed : List (Key × Content)) (tag : Tag) : Prop :=
  ∃ entry ∈ signed, network.scheme.valid entry.1 entry.2 tag

/-- Every tag a session writes is of its configuration or valid for something it signed. -/
def Traceable : Prop :=
  ∀ session : Session Role Input, ∀ message ∈ network.written session,
    ∀ tag ∈ network.carries message, tag ∈ network.holds session.role ∨
      network.Backed (network.signed session) tag

def Signed (world : List (Session Role Input)) (key : Key) (content : Content) : Prop :=
  ∃ session ∈ world, (key, content) ∈ network.signed session

/-- Whatever uncorrupted key `tag` is valid for, it was known initially or signed in `world`. -/
def Attributed (world : List (Session Role Input)) (tag : Tag) : Prop :=
  ∀ key content, network.scheme.valid key content tag →
    network.corrupt key ∨ network.known tag ∨ network.Signed world key content

variable {network}

theorem Backed.append_left {signed extra : List (Key × Content)} (hbacked : network.Backed signed tag) :
    network.Backed (signed ++ extra) tag := by
  obtain ⟨entry, hentry, hvalid⟩ := hbacked
  exact ⟨entry, List.mem_append_left _ hentry, hvalid⟩

theorem Backed.append_right {signed extra : List (Key × Content)} (hbacked : network.Backed extra tag) :
    network.Backed (signed ++ extra) tag := by
  obtain ⟨entry, hentry, hvalid⟩ := hbacked
  exact ⟨entry, List.mem_append_right _ hentry, hvalid⟩

/-- A protocol is traceable when each segment writes and keeps only tags its session owned before,
from its configuration at first, and tags it signs in that same segment. -/
theorem traceable_of_receive (owned : Run → Tag → Prop)
    (hinitial : ∀ role tag, owned (network.initial role) tag → tag ∈ network.holds role)
    (hkeep : ∀ run input tag, owned (network.receive run input).1 tag →
      owned run tag ∨ network.Backed (network.receive run input).2.signed tag)
    (hwrite : ∀ run input, ∀ message ∈ (network.receive run input).2.written,
      ∀ tag ∈ network.carries message,
        owned run tag ∨ network.Backed (network.receive run input).2.signed tag) :
    network.Traceable := by
  rintro ⟨role, inputs⟩
  have hlocal := network.exec_invariant role
    (P := fun _ run effects ↦
      (∀ tag, owned run tag → tag ∈ network.holds role ∨ network.Backed effects.signed tag) ∧
      ∀ message ∈ effects.written, ∀ tag ∈ network.carries message,
        tag ∈ network.holds role ∨ network.Backed effects.signed tag)
    ⟨fun tag htag ↦ .inl (hinitial role tag htag), by simp⟩ ?_ inputs
  · exact hlocal.2
  intro inputs input run effects ⟨howned, hold⟩
  have hextend : ∀ tag, owned run tag ∨ network.Backed (network.receive run input).2.signed tag →
      tag ∈ network.holds role ∨
        network.Backed (effects.append (network.receive run input).2).signed tag := by
    rintro tag (hbefore | hnow)
    · exact (howned tag hbefore).imp_right .append_left
    · exact .inr hnow.append_right
  refine ⟨fun tag htag ↦ hextend tag (hkeep run input tag htag), ?_⟩
  intro message hmessage tag htag
  rcases List.mem_append.mp hmessage with hbefore | hnow
  · exact (hold message hbefore tag htag).imp_right .append_left
  · exact hextend tag (hwrite run input message hnow tag htag)

theorem Signed.step {key : Key} {content : Content} (hsigned : network.Signed world key content)
    (action : NetworkAction Role Input) : network.Signed (step world action) key content := by
  obtain ⟨session, hmem, hentry⟩ := hsigned
  rcases mem_step_of_mem action hmem with hsame | ⟨input, hextended⟩
  · exact ⟨session, hsame, hentry⟩
  · refine ⟨extend input session, hextended, ?_⟩
    rw [extend, network.signed_concat]
    exact List.mem_append_left _ hentry

theorem Attributed.step (hattributed : network.Attributed world tag) (action : NetworkAction Role Input) :
    network.Attributed (step world action) tag := by
  intro key content hvalid
  exact (hattributed key content hvalid).imp_right (Or.imp_right fun hsigned ↦ hsigned.step action)

/-- What can be derived from attributed tags is attributed. -/
theorem attributed_of_derivable (htrace : network.Traceable)
    (hgiven : ∀ session ∈ world, ∀ tag, network.Given session tag → network.Attributed world tag)
    (hderiv : network.Derivable world tag) : network.Attributed world tag := by
  intro key content hvalid
  rcases hderiv with hseen | hcorrupt
  · rcases hseen with hknown | ⟨session, hmem, message, hmessage, htag⟩
    · exact .inr (.inl hknown)
    · rcases htrace session message hmessage tag htag with hown | ⟨entry, hentry, hentryValid⟩
      · exact hgiven session hmem tag (.inl hown) key content hvalid
      · obtain ⟨hkey, hcontent⟩ := network.scheme.valid_unique hvalid hentryValid
        exact .inr (.inr ⟨session, hmem, by rw [hkey, hcontent]; exact hentry⟩)
  · exact .inl (hcorrupt key content hvalid)

/-- The induction over a run: a tag given in a step was derivable then, so it is attributed. -/
theorem given_attributed (htrace : network.Traceable) (hreach : network.machine.Reachable world) :
    ∀ session ∈ world, ∀ tag, network.Given session tag → network.Attributed world tag := by
  refine hreach.invariant (P := fun world ↦ ∀ session ∈ world, ∀ tag,
    network.Given session tag → network.Attributed world tag) ?_ ?_
  · intro session hmem
    cases hmem
  intro world action _ ih hallowed session hmem tag hgiven
  suffices hbefore : network.Attributed world tag from hbefore.step action
  rcases mem_step hmem with hold | ⟨role, rfl, rfl⟩ | ⟨index, input, before, rfl, hbefore, rfl⟩
  · exact ih session hold tag hgiven
  · rcases hgiven with hheld | ⟨input, hinput, _⟩
    · exact attributed_of_derivable htrace ih (hallowed tag hheld)
    · exact nomatch hinput
  · have hbeforeMem : before ∈ world := List.mem_of_getElem? hbefore
    rcases hgiven with hheld | ⟨fed, hfed, htag⟩
    · exact ih before hbeforeMem tag (.inl hheld)
    · rcases List.mem_append.mp hfed with hold | hnew
      · exact ih before hbeforeMem tag (.inr ⟨fed, hold, htag⟩)
      · rw [List.mem_singleton.mp hnew] at htag
        exact attributed_of_derivable htrace ih (hallowed.2 tag htag)

/-- A presented tag that is valid for an uncorrupted key was known initially or signed. -/
theorem authentic (htrace : network.Traceable) (hreach : network.machine.Reachable world)
    (hmem : session ∈ world) {input : Input} (hinput : input ∈ session.inputs)
    (htag : tag ∈ network.presents input) {key : Key} {content : Content}
    (hvalid : network.scheme.valid key content tag) (hkey : ¬ network.corrupt key) :
    network.known tag ∨ network.Signed world key content :=
  (given_attributed htrace hreach session hmem tag (.inr ⟨input, hinput, htag⟩) key content
    hvalid).resolve_left hkey

/-- `nonce` was drawn by the input at `position` of session `index`. -/
def DrawnAt (network : Network Role Run Input Message Key Content Nonce Tag)
    (world : List (Session Role Input)) (index position : ℕ) (nonce : Nonce) : Prop :=
  ∃ session input, world[index]? = some session ∧ session.inputs[position]? = some input ∧
    nonce ∈ network.draws input

/-- A nonce drawn in the next world was drawn before or by the input just fed. -/
theorem DrawnAt.of_step {action : NetworkAction Role Input} {index position : ℕ}
    (hdrawn : network.DrawnAt (step world action) index position nonce) :
    network.DrawnAt world index position nonce ∨
      ∃ input before, action = .feed index input ∧ world[index]? = some before ∧
        position = before.inputs.length ∧ nonce ∈ network.draws input := by
  obtain ⟨session, input, hsession, hinput, hnonce⟩ := hdrawn
  cases action with
  | spawn role =>
    rcases getElem?_concat_eq_some.mp hsession with hsession | ⟨_, rfl⟩
    · exact .inl ⟨session, input, hsession, hinput, hnonce⟩
    · cases hinput
  | feed fedIndex fed =>
    rw [getElem?_step_feed] at hsession
    split at hsession
    · next heq =>
      subst heq
      obtain ⟨before, hbefore, rfl⟩ := Option.map_eq_some_iff.mp hsession
      rcases getElem?_concat_eq_some.mp hinput with hinput | ⟨hposition, rfl⟩
      · exact .inl ⟨before, input, hbefore, hinput, hnonce⟩
      · exact .inr ⟨input, before, rfl, hbefore, hposition, hnonce⟩
    · exact .inl ⟨session, input, hsession, hinput, hnonce⟩

theorem DrawnAt.not_fresh {index position : ℕ} (hdrawn : network.DrawnAt world index position nonce) :
    ¬ network.Fresh world nonce := by
  obtain ⟨session, input, hsession, hinput, hnonce⟩ := hdrawn
  exact fun hfresh ↦
    (hfresh session (List.mem_of_getElem? hsession) input (List.mem_of_getElem? hinput)).1 hnonce

/-- No nonce is drawn twice, neither by two sessions nor by two segments of one. -/
theorem draws_unique (hreach : network.machine.Reachable world) :
    ∀ {index index' position position' : ℕ} {nonce : Nonce},
      network.DrawnAt world index position nonce → network.DrawnAt world index' position' nonce →
        index = index' ∧ position = position' := by
  refine hreach.invariant (P := fun world ↦
    ∀ {index index' position position' : ℕ} {nonce : Nonce},
      network.DrawnAt world index position nonce → network.DrawnAt world index' position' nonce →
        index = index' ∧ position = position') ?_ ?_
  · rintro index index' position position' nonce ⟨session, _, hsession, _⟩
    cases hsession
  · intro world action _ ih hallowed index index' position position' nonce hleft hright
    change network.DrawnAt (step world action) index position nonce at hleft
    change network.DrawnAt (step world action) index' position' nonce at hright
    rcases hleft.of_step with hearlier | ⟨input, before, rfl, hbefore, hlast, hnonce⟩
    · rcases hright.of_step with hearlier' | ⟨input', before', rfl, _, _, hnonce'⟩
      · exact ih hearlier hearlier'
      · exact absurd (hallowed.1 nonce hnonce') hearlier.not_fresh
    · rcases hright.of_step with hearlier' | ⟨input', before', haction, hbefore', hlast', _⟩
      · exact absurd (hallowed.1 nonce hnonce) hearlier'.not_fresh
      · obtain ⟨rfl, rfl⟩ : index = index' ∧ input = input' := by
          injection haction with hindex hinput
          exact ⟨hindex, hinput⟩
        rw [hbefore] at hbefore'
        obtain rfl := Option.some.inj hbefore'
        exact ⟨rfl, hlast.trans hlast'.symm⟩

/-- Two sessions that drew one nonce are the same session. -/
theorem drawing_session_unique (hreach : network.machine.Reachable world) {index index' : ℕ}
    {session session' : Session Role Input} (hsession : world[index]? = some session)
    (hsession' : world[index']? = some session')
    (hdrawn : ∃ input ∈ session.inputs, nonce ∈ network.draws input)
    (hdrawn' : ∃ input ∈ session'.inputs, nonce ∈ network.draws input) : index = index' := by
  obtain ⟨input, hinput, hnonce⟩ := hdrawn
  obtain ⟨input', hinput', hnonce'⟩ := hdrawn'
  obtain ⟨position, hposition⟩ := List.mem_iff_getElem?.mp hinput
  obtain ⟨position', hposition'⟩ := List.mem_iff_getElem?.mp hinput'
  exact (draws_unique hreach ⟨session, input, hsession, hposition, hnonce⟩
    ⟨session', input', hsession', hposition', hnonce'⟩).1

/-- A guard that can be evaluated: presented tags are seen or of a kind the adversary can make. -/
def Replayable (network : Network Role Run Input Message Key Content Nonce Tag)
    (forged : Tag → Prop) (world : List (Session Role Input)) :
    NetworkAction Role Input → Prop
  | .spawn role => ∀ tag ∈ network.holds role, network.Seen world tag ∨ forged tag
  | .feed _ input => (∀ nonce ∈ network.draws input, network.Fresh world nonce) ∧
      ∀ tag ∈ network.presents input, network.Seen world tag ∨ forged tag

def Replay (network : Network Role Run Input Message Key Content Nonce Tag) (forged : Tag → Prop) :
    List (Session Role Input) → List (NetworkAction Role Input) → Prop
  | _, [] => True
  | world, action :: rest =>
    network.Replayable forged world action ∧ Replay network forged (step world action) rest

instance [DecidableEq Nonce] (world : List (Session Role Input)) (nonce : Nonce) :
    Decidable (network.Fresh world nonce) :=
  inferInstanceAs (Decidable (∀ session ∈ world, ∀ input ∈ session.inputs, _ ∧ _))

instance [DecidableEq Tag] [DecidablePred network.known] (world : List (Session Role Input))
    (tag : Tag) : Decidable (network.Seen world tag) :=
  inferInstanceAs (Decidable (_ ∨ ∃ session ∈ world, ∃ message ∈ _, _ ∈ _))

instance [DecidableEq Nonce] [DecidableEq Tag] [DecidablePred network.known]
    (forged : Tag → Prop) [DecidablePred forged] (world : List (Session Role Input)) :
    (action : NetworkAction Role Input) → Decidable (network.Replayable forged world action)
  | .spawn role =>
    inferInstanceAs (Decidable (∀ tag ∈ network.holds role, network.Seen world tag ∨ forged tag))
  | .feed _ input =>
    inferInstanceAs (Decidable ((∀ nonce ∈ network.draws input, network.Fresh world nonce) ∧
      ∀ tag ∈ network.presents input, network.Seen world tag ∨ forged tag))

instance Replay.decidable [DecidableEq Nonce] [DecidableEq Tag] [DecidablePred network.known]
    (forged : Tag → Prop) [DecidablePred forged] :
    (world : List (Session Role Input)) → (actions : List (NetworkAction Role Input)) →
      Decidable (network.Replay forged world actions)
  | _, [] => .isTrue trivial
  | world, action :: rest =>
    have := Replay.decidable forged (step world action) rest
    inferInstanceAs (Decidable
      (network.Replayable forged world action ∧ network.Replay forged (step world action) rest))

/-- A replay is a legal run of the network. -/
theorem legal_of_replay (forged : Tag → Prop)
    (hforged : ∀ tag, forged tag → ∀ key content, network.scheme.valid key content tag →
      network.corrupt key) {actions : List (NetworkAction Role Input)}
    (hreplay : network.Replay forged world actions) : network.machine.Legal world actions := by
  induction actions generalizing world with
  | nil => trivial
  | cons action rest ih =>
    refine ⟨?_, ih hreplay.2⟩
    have hderivable : ∀ tag, network.Seen world tag ∨ forged tag → network.Derivable world tag :=
      fun tag htag ↦ htag.imp_right (hforged tag)
    cases action with
    | spawn role => exact fun tag htag ↦ hderivable tag (hreplay.1 tag htag)
    | feed index input =>
      exact ⟨hreplay.1.1, fun tag htag ↦ hderivable tag (hreplay.1.2 tag htag)⟩

/-- The world after an evaluated run is reachable. -/
theorem reachable_of_replay (forged : Tag → Prop)
    (hforged : ∀ tag, forged tag → ∀ key content, network.scheme.valid key content tag →
      network.corrupt key)
    {actions : List (NetworkAction Role Input)} (hreplay : network.Replay forged [] actions) :
    network.machine.Reachable (network.machine.run [] actions) :=
  Machine.Reachable.init.run (legal_of_replay forged hforged hreplay)

end Network

end Mosey.Library

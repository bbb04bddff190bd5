import Mosey.Typescript.Messages

/-!
# Walking over nested messages

The client has two walkers over the fields of a message. They differ in the wire types they know, in the
lengths they accept, and in what they hand on of a field whose declared length runs past the end of the
message: one fills it up with zeros and the other cuts it short, and neither complains. A shape says what
the fields of a message are, to any depth, and from it follows what a reader makes of an input.
-/

namespace Mosey.Typescript

open Library

/-- A field as a walker hands it on, and whether its length runs past the end of the message. -/
structure Entry extends Field where
  overruns : Bool

structure Walker where
  /-- Fields may hold numbers. -/
  numbers : Bool
  /-- The lengths that there are arrays of. -/
  allocates : ℕ → Bool
  /-- What is handed on, given the declared length and the bytes that are left. -/
  body : ℕ → Bytes → Bytes
  body_eq : ∀ {length : ℕ} {left : Bytes}, length ≤ left.length → body length left = left.take length

/-- The fields up to the end of a message, or up to where the walker gives up. -/
structure Walk where
  entries : List Entry
  failed : Bool

def Walk.cons (entry : Entry) (walk : Walk) : Walk := { walk with entries := entry :: walk.entries }

def Walk.fields (walk : Walk) : List Field := walk.entries.map Entry.toField

def Walker.walkWithin (walker : Walker) : ℕ → Bytes → Walk
  | 0, _ => ⟨[], false⟩
  | _ + 1, [] => ⟨[], false⟩
  | fuel + 1, input@(_ :: _) =>
    match decodeVarint input 0 with
    | .error _ => ⟨[], true⟩
    | .ok (tag, tagLength) =>
      match decodeVarint (input.drop tagLength) 0 with
      | .error _ => ⟨[], true⟩
      | .ok (n, numberLength) =>
        let field := numberOf (tag >>> 3)
        let left := (input.drop tagLength).drop numberLength
        if tag &&& 0x7 = 0 ∧ walker.numbers = true then
          (walker.walkWithin fuel left).cons ⟨⟨field, .bigint n⟩, false⟩
        else if tag &&& 0x7 = 2 then
          let length := numberOf n
          let entry : Entry := ⟨⟨field, .bytes (walker.body length left)⟩, decide (left.length < length)⟩
          if walker.allocates length = true then
            (walker.walkWithin fuel (left.drop length)).cons entry
          else ⟨[entry], true⟩
        else ⟨[], true⟩

def Walker.walk (walker : Walker) (input : Bytes) : Walk := walker.walkWithin input.length input

/-- The walker of `iterFields`: a new array of the declared length, and what there is of the body in it. -/
def iterWalker (engine : Engine) : Walker where
  numbers := true
  allocates length := decide (length ≤ engine.maxLength)
  body length left := copyOf left 0 length
  body_eq {length left} hle := by
    have hpresent : (left.take length).length = length := List.length_take_of_le hle
    rw [copyOf, List.drop_zero, hpresent, Nat.sub_self, List.replicate_zero, List.append_nil]

/-- The walker of `decodeAuthMessage`: a slice of the message. -/
def authWalker : Walker where
  numbers := false
  allocates _ := true
  body length left := left.take length
  body_eq _ := rfl

/-- What a field is to its reader: nothing, bytes, text, or a message, whose fields are kept all or
only the last of a number. -/
inductive Shape
  | skipped
  | bytes
  | text
  | message (walker : Walker) (fields : ℕ → Shape) (repeated : ℕ → Bool)

/-- The fields that the readers keep. -/
def kept (repeated : ℕ → Bool) : List Field → List Field
  | [] => []
  | entry :: rest =>
    if repeated entry.field = true ∨ ∀ later ∈ rest, later.field ≠ entry.field then
      entry :: kept repeated rest
    else kept repeated rest

/-- A walker gives up somewhere, or a text is a number. -/
def Shape.malformed : Shape → JSValue → Bool
  | .text, .bigint _ => true
  | .message walker fields _, .bytes buf =>
    (walker.walk buf).failed ||
      (walker.walk buf).fields.any fun entry ↦ (fields entry.field).malformed entry.value
  | _, _ => false

/-- A length runs past the end of its message somewhere. -/
def Shape.overruns : Shape → JSValue → Bool
  | .message walker fields _, .bytes buf =>
    (walker.walk buf).entries.any fun entry ↦
      entry.overruns || (fields entry.field).overruns entry.value
  | _, _ => false

/-- What is kept where bytes are declared. -/
def Shape.survivors : Shape → JSValue → List JSValue
  | .bytes, value => [value]
  | .message walker fields repeated, .bytes buf =>
    (kept repeated (walker.walk buf).fields).flatMap fun entry ↦
      (fields entry.field).survivors entry.value
  | _, _ => []

/-- A generator yields the fields of a walk, and throws if the walk fails. -/
structure Generated.Follows (generated : Generated) (walk : Walk) : Prop where
  yields : walk.failed = false → generated = ⟨walk.fields, none⟩
  throws : walk.failed = true → generated.thrown.isSome = true

theorem follows_throws (err : DecodeError) (entries : List Entry) :
    (Generated.throws err).Follows ⟨entries, true⟩ where
  yields hfailed := by cases hfailed
  throws _ := rfl

/-- A generator that follows a walk follows it one entry earlier. -/
theorem Generated.Follows.yield {generated : Generated} {walk : Walk} (h : generated.Follows walk)
    (entry : Entry) : (generated.yield entry.toField).Follows (walk.cons entry) where
  yields hfailed := by
    rw [h.yields hfailed]
    rfl
  throws hfailed := h.throws hfailed

variable {buf : Bytes} {entry : Entry} {repeated : ℕ → Bool} {walker : Walker}

/-- A walk over the rest of a buffer, in terms of offsets. -/
theorem Walker.walkWithin_drop (walker : Walker) {off : ℕ} (hoff : off < buf.length) (fuel : ℕ) :
    walker.walkWithin (fuel + 1) (buf.drop off) =
      match decodeVarint buf off with
      | .error _ => ⟨[], true⟩
      | .ok (tag, tagLength) =>
        match decodeVarint buf (off + tagLength) with
        | .error _ => ⟨[], true⟩
        | .ok (n, numberLength) =>
          let left := off + tagLength + numberLength
          if tag &&& 0x7 = 0 ∧ walker.numbers = true then
            (walker.walkWithin fuel (buf.drop left)).cons ⟨⟨numberOf (tag >>> 3), .bigint n⟩, false⟩
          else if tag &&& 0x7 = 2 then
            let entry : Entry := ⟨⟨numberOf (tag >>> 3), .bytes (walker.body (numberOf n) (buf.drop left))⟩,
              decide ((buf.drop left).length < numberOf n)⟩
            if walker.allocates (numberOf n) = true then
              (walker.walkWithin fuel (buf.drop (left + numberOf n))).cons entry
            else ⟨[entry], true⟩
          else ⟨[], true⟩ := by
  have hdecode (off : ℕ) : decodeVarint (buf.drop off) 0 = decodeVarint buf off := rfl
  obtain ⟨byte, rest, hinput⟩ := List.exists_cons_of_ne_nil (List.drop_eq_nil_iff.not.mpr hoff.not_ge)
  rw [hinput, Walker.walkWithin, ← hinput]
  simp only [List.drop_drop, hdecode]

theorem Walker.walkWithin_done (walker : Walker) {off : ℕ} (hoff : buf.length ≤ off) (fuel : ℕ) :
    walker.walkWithin fuel (buf.drop off) = ⟨[], false⟩ := by
  rw [List.drop_eq_nil_iff.mpr hoff]
  cases fuel <;> rfl

/-- The iterator of the client walks its buffer. -/
theorem iterFieldsFrom_follows (engine : Engine) (buf : Bytes) (fuel off : ℕ) :
    (iterFieldsFrom engine buf fuel off).Follows ((iterWalker engine).walkWithin fuel (buf.drop off)) := by
  have hend : Generated.done.Follows ⟨[], false⟩ := ⟨fun _ ↦ rfl, fun hfailed ↦ by cases hfailed⟩
  induction fuel generalizing off with
  | zero => exact hend
  | succ fuel ih =>
    rcases Nat.lt_or_ge off buf.length with hoff | hoff
    · rw [iterFieldsFrom, if_pos hoff, Walker.walkWithin_drop _ hoff]
      cases htag : decodeVarint buf off with
      | error err => exact follows_throws err []
      | ok read =>
        obtain ⟨tag, tagLength⟩ := read
        dsimp only
        cases hnumber : decodeVarint buf (off + tagLength) with
        | error err =>
          dsimp only
          split_ifs
          · exact follows_throws err []
          · exact follows_throws err []
          · exact follows_throws _ []
        | ok read =>
          obtain ⟨n, numberLength⟩ := read
          dsimp only
          by_cases hzero : tag &&& 0x7 = 0
          · rw [if_pos hzero, if_pos ⟨hzero, rfl⟩]
            exact (ih _).yield ⟨⟨_, _⟩, false⟩
          · have hbytes : ¬ (tag &&& 0x7 = 0 ∧ (iterWalker engine).numbers = true) := fun h ↦ hzero h.1
            rw [if_neg hzero, if_neg hbytes]
            split_ifs with htwo hlong hallocates hallocates
            · exact absurd hlong (Nat.not_lt.mpr (of_decide_eq_true hallocates))
            · exact follows_throws _ _
            · exact (ih _).yield ⟨⟨_, _⟩, _⟩
            · exact absurd (decide_eq_true (Nat.le_of_not_lt hlong)) hallocates
            · exact follows_throws _ []
    · rw [iterFieldsFrom_done hoff, Walker.walkWithin_done _ hoff]
      exact hend

/-- A loop over the fields of a walk gives what its body makes of them, and fails with the walk. -/
structure Consumes {Message ε ε' : Type} (walk : Walk) (set : Message → Field → Except ε Message)
    (start : Message) (result : Except ε' Message) : Prop where
  result_eq : walk.failed = false → ∀ message,
    result = .ok message ↔ walk.fields.foldlM set start = .ok message
  fails : walk.failed = true → ∃ err, result = .error err

theorem Generated.Follows.consumes {Message : Type} {generated : Generated} {walk : Walk}
    (h : generated.Follows walk) (set : Message → Field → Except DecodeError Message) (start : Message) :
    Consumes walk set start (generated.forEach start set) where
  result_eq hfailed message := by rw [h.yields hfailed, Generated.forEach_done]
  fails hfailed := by
    obtain ⟨err, hthrown⟩ := Option.isSome_iff_exists.mp (h.throws hfailed)
    rw [Generated.forEach, hthrown]
    cases generated.yielded.foldlM set start with
    | error err => exact ⟨err, rfl⟩
    | ok state => exact ⟨err, rfl⟩

/-- A decoder consumes the walk of its buffer. -/
theorem decodeMessage_consumes {Message : Type} (engine : Engine) (empty : Message)
    (set : Message → Field → Except DecodeError Message) (buf : Bytes) :
    Consumes ((iterWalker engine).walk buf) set empty (decodeMessage engine empty set (.bytes buf)) :=
  (iterFieldsFrom_follows engine buf buf.length 0).consumes set empty

theorem Consumes.cons {Message ε ε' : Type} {walk : Walk} {set : Message → Field → Except ε Message}
    {start next : Message} {result : Except ε' Message} (h : Consumes walk set next result)
    (hset : set start entry.toField = .ok next) : Consumes (walk.cons entry) set start result where
  result_eq hfailed message := by
    rw [h.result_eq hfailed]
    change _ ↔ (entry.toField :: walk.fields).foldlM set start = .ok message
    rw [List.foldlM_cons, hset]
    rfl
  fails hfailed := h.fails hfailed

theorem consumes_of_error {Message ε ε' : Type} {set : Message → Field → Except ε Message}
    {start : Message} {err : ε} (hset : set start entry.toField = .error err) (walk : Walk) (err' : ε') :
    Consumes (walk.cons entry) set start (.error err') where
  result_eq _ message := by
    change _ ↔ (entry.toField :: walk.fields).foldlM set start = .ok message
    rw [List.foldlM_cons, hset]
    exact iff_of_false (fun h ↦ by cases h) fun h ↦ by cases h
  fails _ := ⟨err', rfl⟩

/-- The decoder of the shared secret, which has a loop of its own, consumes its walk. -/
theorem decodeAuthMessageFrom_consumes (engine : Engine) (buf : Bytes) (fuel off : ℕ)
    (out : AuthMessage JSValue) :
    Consumes (authWalker.walkWithin fuel (buf.drop off)) (AuthMessage.set engine) out
      (decodeAuthMessageFrom engine buf fuel off out) := by
  have hend (out : AuthMessage JSValue) :
      Consumes ⟨[], false⟩ (AuthMessage.set engine) out (.ok out : Except AuthError _) :=
    ⟨fun _ message ↦ ⟨fun h ↦ congrArg _ (Except.ok.inj h), fun h ↦ congrArg _ (Except.ok.inj h)⟩,
      fun hfailed ↦ absurd hfailed Bool.false_ne_true⟩
  have hfail (out : AuthMessage JSValue) (err : AuthError) (entries : List Entry) :
      Consumes ⟨entries, true⟩ (AuthMessage.set engine) out (.error err) :=
    ⟨fun hfailed ↦ absurd hfailed.symm Bool.false_ne_true, fun _ ↦ ⟨err, rfl⟩⟩
  induction fuel generalizing off out with
  | zero => exact hend out
  | succ fuel ih =>
    rcases Nat.lt_or_ge off buf.length with hoff | hoff
    · rw [decodeAuthMessageFrom, if_pos hoff, Walker.walkWithin_drop _ hoff]
      cases htag : decodeVarint buf off with
      | error err => exact hfail out _ []
      | ok read =>
        obtain ⟨tag, tagLength⟩ := read
        have hbytes : ¬ (tag &&& 0x7 = 0 ∧ authWalker.numbers = true) := fun h ↦ by cases h.2
        dsimp only
        cases hnumber : decodeVarint buf (off + tagLength) with
        | error err =>
          dsimp only
          split_ifs
          · exact hfail out _ []
          · exact hfail out _ []
        | ok read =>
          obtain ⟨n, numberLength⟩ := read
          dsimp only
          rw [if_neg hbytes]
          by_cases htwo : tag &&& 0x7 = 2
          · have hallocates : authWalker.allocates (numberOf n) = true := rfl
            rw [if_neg (not_not.mpr htwo), if_pos htwo, if_pos hallocates]
            cases hset : out.set engine ⟨numberOf (tag >>> 3),
                .bytes ((buf.drop (off + tagLength + numberLength)).take (numberOf n))⟩ with
            | error err => exact consumes_of_error hset _ _
            | ok next => exact (ih _ next).cons hset
          · rw [if_pos htwo, if_neg htwo]
            exact hfail out _ []
    · rw [decodeAuthMessageFrom, if_neg hoff.not_gt, Walker.walkWithin_done _ hoff]
      exact hend out

/-- What a reader made of a value has the shape's bytes in it, apart from defaults. -/
structure Shape.Gives {Message ε : Type} (shape : Shape) (value : JSValue) (result : Except ε Message)
    (values : Message → List JSValue) : Prop where
  error_iff : (∃ err, result = .error err) ↔ shape.malformed value = true
  mem_iff : ∀ message, result = .ok message → ∀ found, found ≠ .bytes [] →
    (found ∈ values message ↔ found ∈ shape.survivors value)

/-- The body of a reader's loop puts a field into the slot of its number and leaves the others alone. -/
structure Sets {Message ε : Type} (fields : ℕ → Shape) (repeated : ℕ → Bool)
    (set : Message → Field → Except ε Message) (slot : ℕ → Message → List JSValue) : Prop where
  error_iff : ∀ message entry,
    (∃ err, set message entry = .error err) ↔ (fields entry.field).malformed entry.value = true
  mem_slot : ∀ {message entry next}, set message entry = .ok next → ∀ {found}, found ≠ .bytes [] →
    ∀ number, found ∈ slot number next ↔
      if number = entry.field then
        found ∈ (fields number).survivors entry.value ∨
          (repeated number = true ∧ found ∈ slot number message)
      else found ∈ slot number message

theorem exists_mem_kept_cons {entry : Field} {rest : List Field} {P : Field → Prop} :
    (∃ found ∈ kept repeated (entry :: rest), P found) ↔
      ((repeated entry.field = true ∨ ∀ later ∈ rest, later.field ≠ entry.field) ∧ P entry) ∨
        ∃ found ∈ kept repeated rest, P found := by
  rw [kept]
  split_ifs with hkept
  · rw [List.exists_mem_cons_iff, and_iff_right hkept]
  · rw [or_iff_right fun h ↦ hkept h.1]

namespace Sets

variable {Message ε : Type} {fields : ℕ → Shape} {repeated : ℕ → Bool}
  {set : Message → Field → Except ε Message} {slot : ℕ → Message → List JSValue}

/-- Setting fields in sequence fails if and only if one of them is malformed. -/
theorem foldlM_error_iff (h : Sets fields repeated set slot) (entries : List Field) (start : Message) :
    (∃ err, entries.foldlM set start = .error err) ↔
      ∃ entry ∈ entries, (fields entry.field).malformed entry.value = true := by
  induction entries generalizing start with
  | nil => exact iff_of_false (not_exists_error _) fun ⟨_, hmem, _⟩ ↦ by cases hmem
  | cons entry entries ih =>
    rw [List.foldlM_cons, List.exists_mem_cons_iff, ← h.error_iff start]
    cases hset : set start entry with
    | error err => exact iff_of_true ⟨err, rfl⟩ (.inl ⟨err, rfl⟩)
    | ok next =>
      rw [or_iff_right (not_exists_error _)]
      exact ih next

/-- The slot of a number holds what was kept of it, and what was there if nothing replaced it. -/
theorem mem_foldlM (h : Sets fields repeated set slot) {entries : List Field} {start message : Message}
    (hfold : entries.foldlM set start = .ok message) {found : JSValue} (hfound : found ≠ .bytes [])
    (number : ℕ) :
    found ∈ slot number message ↔
      (∃ entry ∈ kept repeated entries,
        entry.field = number ∧ found ∈ (fields number).survivors entry.value) ∨
      ((repeated number = true ∨ ∀ entry ∈ entries, entry.field ≠ number) ∧ found ∈ slot number start) := by
  induction entries generalizing start with
  | nil =>
    cases hfold
    simp [kept]
  | cons entry entries ih =>
    rw [List.foldlM_cons] at hfold
    obtain ⟨next, hset, hfold⟩ := bind_eq_ok.mp hfold
    rw [ih hfold, h.mem_slot hset hfound, exists_mem_kept_cons, List.forall_mem_cons]
    generalize (∃ entry ∈ kept repeated entries, _) = later
    by_cases hnumber : number = entry.field
    · subst hnumber
      rw [if_pos rfl]
      grind
    · have hother : entry.field ≠ number := fun heq ↦ hnumber heq.symm
      rw [if_neg hnumber]
      grind

/-- A loop over the fields of a message gives what the message's shape says. -/
theorem gives {ε' : Type} (h : Sets fields repeated set slot) {values : Message → List JSValue}
    (hvalues : ∀ message found, found ∈ values message ↔ ∃ number, found ∈ slot number message)
    {empty : Message} (hempty : ∀ number, ∀ found ∈ slot number empty, found = .bytes [])
    {walker : Walker} {buf : Bytes} {result : Except ε' Message}
    (hconsumes : Consumes (walker.walk buf) set empty result) :
    (Shape.message walker fields repeated).Gives (.bytes buf) result values := by
  constructor
  · rw [Shape.malformed, Bool.or_eq_true, List.any_eq_true, ← h.foldlM_error_iff _ empty]
    cases hfailed : (walker.walk buf).failed with
    | true => exact iff_of_true (hconsumes.fails hfailed) (.inl rfl)
    | false =>
      have hok := hconsumes.result_eq hfailed
      rw [or_iff_right Bool.false_ne_true]
      cases hfold : (walker.walk buf).fields.foldlM set empty with
      | error err =>
        refine iff_of_true ?_ ⟨err, rfl⟩
        cases result with
        | error err => exact ⟨err, rfl⟩
        | ok message =>
          have herr := (hok message).mp rfl
          rw [hfold] at herr
          cases herr
      | ok message =>
        rw [(hok message).mpr hfold]
        exact iff_of_false (not_exists_error _) (not_exists_error _)
  · intro message hresult found hfound
    cases hfailed : (walker.walk buf).failed with
    | true =>
      obtain ⟨err, herr⟩ := hconsumes.fails hfailed
      rw [hresult] at herr
      cases herr
    | false =>
      have hfold := (hconsumes.result_eq hfailed message).mp hresult
      rw [hvalues, Shape.survivors, List.mem_flatMap]
      constructor
      · rintro ⟨number, hslot⟩
        rcases (h.mem_foldlM hfold hfound number).mp hslot with ⟨entry, hkept, rfl, hmem⟩ | ⟨-, hstart⟩
        · exact ⟨entry, hkept, hmem⟩
        · exact absurd (hempty number found hstart) hfound
      · rintro ⟨entry, hkept, hmem⟩
        exact ⟨entry.field, (h.mem_foldlM hfold hfound _).mpr (.inl ⟨entry, hkept, rfl, hmem⟩)⟩

end Sets

/-! ## Where bytes come from -/

/-- The bytes are the body of a field, behind the tag and their length. -/
def DeclaredIn (input body : Bytes) : Prop :=
  ∃ before tag length after, input = before ++ (tag ++ (length ++ (body ++ after))) ∧
    Varint.Terminated tag ∧ Varint.value tag % 8 = 2 ∧
    Varint.Terminated length ∧ Varint.value length = body.length

theorem DeclaredIn.trans {input middle body : Bytes} (hmiddle : DeclaredIn input middle)
    (hbody : DeclaredIn middle body) : DeclaredIn input body := by
  obtain ⟨before, tag, length, after, rfl, -⟩ := hmiddle
  obtain ⟨before', tag', length', after', rfl, hdeclared⟩ := hbody
  exact ⟨before ++ (tag ++ (length ++ before')), tag', length', after' ++ after,
    by simp only [List.append_assoc], hdeclared⟩

/-- A body that does not run past the end is declared where it is. -/
theorem declaredIn_of_decodeVarint (hbuf : buf.length < 2 ^ 53) {off tag tagLength n numberLength : ℕ}
    (htag : decodeVarint buf off = .ok (tag, tagLength)) (htwo : tag &&& 0x7 = 2)
    (hnumber : decodeVarint buf (off + tagLength) = .ok (n, numberLength))
    (hfits : numberOf n ≤ (buf.drop (off + tagLength + numberLength)).length) :
    DeclaredIn buf (walker.body (numberOf n) (buf.drop (off + tagLength + numberLength))) := by
  obtain ⟨tagGroups, htagGroups, rfl, htagDrop⟩ := exists_groups_of_decodeVarint htag
  obtain ⟨groups, hgroups, rfl, hdrop⟩ := exists_groups_of_decodeVarint hnumber
  have hexact : numberOf (Varint.value groups) = Varint.value groups := by
    apply eq_of_numberOf_lt
    rw [List.length_drop] at hfits
    omega
  rw [walker.body_eq hfits]
  refine ⟨buf.take off, tagGroups, groups,
    (buf.drop (off + tagLength + numberLength)).drop (numberOf (Varint.value groups)), ?_,
    htagGroups, ?_, hgroups, ?_⟩
  · rw [List.take_append_drop, ← hdrop, ← htagDrop, List.take_append_drop]
  · rwa [← Nat.and_two_pow_sub_one_eq_mod _ 3]
  · rw [List.length_take_of_le hfits, hexact]

/-- Bytes that do not overrun the buffer are declared in it. -/
theorem declaredIn_of_mem_walkWithin (hbuf : buf.length < 2 ^ 53) {fuel : ℕ} (off : ℕ)
    (hmem : entry ∈ (walker.walkWithin fuel (buf.drop off)).entries) (hfits : entry.overruns = false)
    {body : Bytes} (hvalue : entry.value = .bytes body) : DeclaredIn buf body := by
  induction fuel generalizing off with
  | zero => cases hmem
  | succ fuel ih =>
    rcases Nat.lt_or_ge off buf.length with hoff | hoff
    · rw [Walker.walkWithin_drop walker hoff] at hmem
      cases htag : decodeVarint buf off with
      | error err =>
        rw [htag] at hmem
        cases hmem
      | ok read =>
        obtain ⟨tag, tagLength⟩ := read
        cases hnumber : decodeVarint buf (off + tagLength) with
        | error err =>
          simp only [htag, hnumber] at hmem
          cases hmem
        | ok read =>
          obtain ⟨n, numberLength⟩ := read
          simp only [htag, hnumber] at hmem
          have hfirst (htwo : tag &&& 0x7 = 2) {field : ℕ}
              (heq : entry = ⟨⟨field, .bytes (walker.body (numberOf n)
                (buf.drop (off + tagLength + numberLength)))⟩,
                decide ((buf.drop (off + tagLength + numberLength)).length < numberOf n)⟩) :
              DeclaredIn buf body := by
            subst heq
            cases hvalue
            exact declaredIn_of_decodeVarint hbuf htag htwo hnumber
              (Nat.le_of_not_lt (of_decide_eq_false hfits))
          split_ifs at hmem with hzero htwo hallocates
          · rcases List.mem_cons.mp hmem with rfl | hmem
            · cases hvalue
            · exact ih _ hmem
          · rcases List.mem_cons.mp hmem with heq | hmem
            · exact hfirst htwo heq
            · exact ih _ hmem
          · exact hfirst htwo (List.mem_singleton.mp hmem)
          · cases hmem
    · rw [Walker.walkWithin_done walker hoff] at hmem
      cases hmem

theorem mem_of_mem_kept {entries : List Field} {entry : Field} (hmem : entry ∈ kept repeated entries) :
    entry ∈ entries := by
  induction entries with
  | nil => exact hmem
  | cons first rest ih =>
    rw [kept] at hmem
    split_ifs at hmem
    · exact List.mem_cons.mpr ((List.mem_cons.mp hmem).imp_right ih)
    · exact List.mem_cons_of_mem first (ih hmem)

theorem DeclaredIn.length_le {input body : Bytes} (h : DeclaredIn input body) :
    body.length ≤ input.length := by
  obtain ⟨before, tag, length, after, rfl, -⟩ := h
  simp only [List.length_append]
  omega

/-- Without a length that runs past the end of its message, bytes that are kept were declared. -/
theorem declaredIn_of_mem_survivors {shape : Shape} {input body : Bytes} (hinput : input.length < 2 ^ 53)
    (hfits : shape.overruns (.bytes input) = false) (hmem : .bytes body ∈ shape.survivors (.bytes input)) :
    (shape = .bytes ∧ body = input) ∨ DeclaredIn input body := by
  induction shape generalizing input with
  | skipped | text => cases hmem
  | bytes =>
    rw [Shape.survivors, List.mem_singleton, JSValue.bytes.injEq] at hmem
    exact .inl ⟨rfl, hmem⟩
  | message walker fields repeated ih =>
    rw [Shape.survivors, List.mem_flatMap] at hmem
    obtain ⟨field, hkept, hmem⟩ := hmem
    obtain ⟨entry, hentry, rfl⟩ := List.mem_map.mp (mem_of_mem_kept hkept)
    rw [Shape.overruns, List.any_eq_false] at hfits
    obtain ⟨hoverruns, hinner⟩ :=
      Bool.or_eq_false_iff.mp (Bool.eq_false_of_not_eq_true (hfits entry hentry))
    cases hvalue : entry.value with
    | bigint n =>
      rw [hvalue] at hmem
      cases hshape : fields entry.field <;> rw [hshape] at hmem <;> simp [Shape.survivors] at hmem
    | bytes middle =>
      have hmiddle : DeclaredIn input middle :=
        declaredIn_of_mem_walkWithin hinput 0 hentry hoverruns hvalue
      rw [hvalue] at hmem hinner
      rcases ih entry.field (hmiddle.length_le.trans_lt hinput) hinner hmem with ⟨-, rfl⟩ | hbody
      · exact .inr hmiddle
      · exact .inr (hmiddle.trans hbody)

/-- Every byte field is empty or declared in the input, and a length that runs past the end of its message
is an error. -/
def NeverFabricates {Message ε : Type} (shape : Shape) (input : Bytes) (result : Except ε Message)
    (values : Message → List JSValue) : Prop :=
  (∀ message, result = .ok message → ∀ found ∈ values message,
    found = .bytes [] ∨ ∃ body, found = .bytes body ∧ DeclaredIn input body) ∧
  (shape.overruns (.bytes input) = true → ∃ err, result = .error err)

/-- The input is refused for another reason, or no length runs past the end of its message and no number
is kept where bytes are declared. -/
def Shape.Harmless (shape : Shape) (input : Bytes) : Prop :=
  shape.malformed (.bytes input) = true ∨
    (shape.overruns (.bytes input) = false ∧ ∀ n, .bigint n ∉ shape.survivors (.bytes input))

/-- A decoder never fabricates bytes if and only if its input is harmless. -/
theorem Shape.Gives.neverFabricates_iff {Message ε : Type} {fields : ℕ → Shape} {input : Bytes}
    {result : Except ε Message} {values : Message → List JSValue}
    (h : (Shape.message walker fields repeated).Gives (.bytes input) result values)
    (hinput : input.length < 2 ^ 53) :
    NeverFabricates (.message walker fields repeated) input result values ↔
      (Shape.message walker fields repeated).Harmless input := by
  constructor
  · rintro ⟨hbytes, hthrows⟩
    rw [Shape.Harmless, or_iff_not_imp_left, ← h.error_iff]
    intro hreturns
    refine ⟨Bool.eq_false_of_not_eq_true fun hoverruns ↦ hreturns (hthrows hoverruns), fun n hmem ↦ ?_⟩
    cases result with
    | error err => exact hreturns ⟨err, rfl⟩
    | ok message =>
      have hfound := (h.mem_iff message rfl (.bigint n) (by simp)).mpr hmem
      rcases hbytes message rfl _ hfound with hempty | ⟨body, hbody, -⟩
      · cases hempty
      · cases hbody
  · rintro (hmalformed | ⟨hfits, hnumbers⟩)
    · obtain ⟨err, rfl⟩ := h.error_iff.mpr hmalformed
      refine ⟨fun message hresult ↦ ?_, fun _ ↦ ⟨err, rfl⟩⟩
      cases hresult
    · refine ⟨fun message hresult found hfound ↦ ?_, fun hoverruns ↦ absurd hoverruns (by simp [hfits])⟩
      rw [or_iff_not_imp_left]
      intro hne
      have hmem := (h.mem_iff message hresult found hne).mp hfound
      cases found with
      | bigint n => exact absurd hmem (hnumbers n)
      | bytes body =>
        rcases declaredIn_of_mem_survivors hinput hfits hmem with ⟨hshape, -⟩ | hdeclared
        · cases hshape
        · exact ⟨body, rfl, hdeclared⟩

end Mosey.Typescript

import Mathlib.Data.List.Infix
import Mosey.Bytes

/-!
# Device attribute queries

The vterm answers the Device Attribute queries of the child and takes them out of the output. The
responder reads the output byte by byte and holds back what may still become a query. `Answered` says
what it is for, without states and held bytes: every query is removed from the stream and replied to,
and all other bytes pass unchanged.
-/

namespace Mosey.Vterm

def escape : UInt8 := 0x1b
/-- The byte `[`. -/
def bracket : UInt8 := 0x5b
/-- The byte `0`. -/
def digitZero : UInt8 := 0x30
/-- The byte `>`. -/
def greater : UInt8 := 0x3e
/-- The byte `c`. -/
def letterC : UInt8 := 0x63

/-- Primary DA reply: VT220 with ANSI color. -/
def da1Response : Bytes := escape :: ascii "[?62;22c"

/-- Secondary DA reply: terminal id, version, 0. -/
def da2Response : Bytes := escape :: ascii "[>0;10;0c"

/-- The queries with their replies. -/
def queries : List (Bytes × Bytes) :=
  [([escape, bracket, letterC], da1Response),
    ([escape, bracket, digitZero, letterC], da1Response),
    ([escape, bracket, greater, letterC], da2Response),
    ([escape, bracket, greater, digitZero, letterC], da2Response)]

/-- No query begins here. -/
def NoQuery (input : Bytes) : Prop := ∀ entry ∈ queries, ¬ entry.1 <+: input

/-- The output without its queries, and the replies to them in order. -/
inductive Answered : Bytes → Bytes → Bytes → Prop
  | nil : Answered [] [] []
  | query {query reply rest out replies : Bytes} :
      (query, reply) ∈ queries → Answered rest out replies →
      Answered (query ++ rest) out (reply ++ replies)
  | byte {b : UInt8} {rest out replies : Bytes} :
      NoQuery (b :: rest) → Answered rest out replies → Answered (b :: rest) (b :: out) replies

inductive DAState
  | ground
  | esc
  | csi
  deriving DecidableEq

def IsParam (b : UInt8) : Prop := b = digitZero ∨ b = greater

instance (b : UInt8) : Decidable (IsParam b) := inferInstanceAs (Decidable (_ ∨ _))

/-- What is held in each state. -/
def Held : DAState → Bytes → Prop
  | .ground, held => held = []
  | .esc, held => held = [escape]
  | .csi, held => ∃ params, held = escape :: bracket :: params ∧ ∀ b ∈ params, IsParam b

theorem Held.param {held : Bytes} (hheld : Held .csi held) {b : UInt8} (hb : IsParam b) :
    Held .csi (held ++ [b]) := by
  obtain ⟨params, rfl, hparams⟩ := hheld
  refine ⟨params ++ [b], rfl, ?_⟩
  intro param hparam
  rcases List.mem_append.mp hparam with hbefore | hlast
  · exact hparams param hbefore
  · rw [List.mem_singleton.mp hlast]
    exact hb

structure DAResponder where
  state : DAState
  held : Bytes
  shape : Held state held

namespace DAResponder

def idle : DAResponder := ⟨.ground, [], rfl⟩

@[simp] theorem held_idle : idle.held = [] := rfl

/-- What `process` returns, with the responder as it leaves it. -/
structure Processed where
  responder : DAResponder
  out : Bytes
  resp : Bytes

/-- The held bytes are flushed and `b` is processed as in the ground state. -/
def reprocess (held : Bytes) (b : UInt8) : Processed :=
  if hb : b = escape then ⟨⟨.esc, [b], hb ▸ rfl⟩, held, []⟩ else ⟨idle, held ++ [b], []⟩

/-- The reply to a query with these parameters. -/
def reply (params : Bytes) : Option Bytes :=
  if params = [] ∨ params = [digitZero] then some da1Response
  else if params = [greater] ∨ params = [greater, digitZero] then some da2Response
  else none

/-- The body of the loop of `process`. -/
def consume : DAResponder → UInt8 → Processed
  | ⟨.ground, held, _⟩, b => reprocess held b
  | ⟨.esc, held, shape⟩, b =>
    if hb : b = bracket then ⟨⟨.csi, held ++ [b], ⟨[], by rw [shape, hb]; rfl, by simp⟩⟩, [], []⟩
    else reprocess held b
  | ⟨.csi, held, shape⟩, b =>
    if hb : IsParam b then ⟨⟨.csi, held ++ [b], shape.param hb⟩, [], []⟩
    else if b = letterC then
      match reply (held.drop 2) with
      | some response => ⟨idle, [], response⟩
      | none => ⟨idle, held ++ [b], []⟩
    else reprocess held b

def process (responder : DAResponder) : Bytes → Processed
  | [] => ⟨responder, [], []⟩
  | b :: rest =>
    let first := responder.consume b
    let others := first.responder.process rest
    ⟨others.responder, first.out ++ others.out, first.resp ++ others.resp⟩

/-- Processing a stream in two calls. -/
theorem process_append (responder : DAResponder) (first second : Bytes) :
    responder.process (first ++ second) =
      ⟨((responder.process first).responder.process second).responder,
        (responder.process first).out ++ ((responder.process first).responder.process second).out,
        (responder.process first).resp ++
          ((responder.process first).responder.process second).resp⟩ := by
  induction first generalizing responder with
  | nil => rfl
  | cons b rest ih => simp [process, ih]

end DAResponder

/-! ## Where a query begins -/

theorem noQuery_of_ne_escape {b : UInt8} (hb : b ≠ escape) (rest : Bytes) : NoQuery (b :: rest) := by
  intro entry hentry hquery
  simp only [queries, List.mem_cons, List.not_mem_nil, or_false] at hentry
  rcases hentry with rfl | rfl | rfl | rfl <;> exact hb (List.cons_prefix_cons.mp hquery).1.symm

/-- A query is an introducer, parameters and the letter. -/
theorem mem_queries {query response : Bytes} :
    (query, response) ∈ queries ↔ ∃ params, (∀ b ∈ params, IsParam b) ∧
      query = escape :: bracket :: (params ++ [letterC]) ∧
      DAResponder.reply params = some response := by
  constructor
  · intro hentry
    simp only [queries, List.mem_cons, Prod.mk.injEq, List.not_mem_nil, or_false] at hentry
    rcases hentry with ⟨rfl, rfl⟩ | ⟨rfl, rfl⟩ | ⟨rfl, rfl⟩ | ⟨rfl, rfl⟩
    · exact ⟨[], by simp, rfl, rfl⟩
    · exact ⟨[digitZero], by simp [IsParam], rfl, rfl⟩
    · exact ⟨[greater], by simp [IsParam], rfl, rfl⟩
    · exact ⟨[greater, digitZero], by simp [IsParam], rfl, rfl⟩
  · rintro ⟨params, _, rfl, hreply⟩
    unfold DAResponder.reply at hreply
    split_ifs at hreply with hprimary hsecondary
    · rcases hprimary with rfl | rfl <;> simp_all [queries]
    · rcases hsecondary with rfl | rfl <;> simp_all [queries]

theorem not_isParam_letterC : ¬ IsParam letterC := by decide

/-- Parameters end at the first byte that is none. -/
theorem params_eq_of_begins {params others rest : Bytes} {b : UInt8} (hparams : ∀ b ∈ params, IsParam b)
    (hothers : ∀ b ∈ others, IsParam b) (hb : ¬ IsParam b)
    (hbegins : params ++ [letterC] <+: others ++ b :: rest) : params = others ∧ b = letterC := by
  induction params generalizing others with
  | nil =>
    cases others with
    | nil => exact ⟨rfl, (List.cons_prefix_cons.mp hbegins).1.symm⟩
    | cons other others =>
      obtain rfl : letterC = other := (List.cons_prefix_cons.mp hbegins).1
      exact absurd (hothers letterC (by simp)) not_isParam_letterC
  | cons param params ih =>
    cases others with
    | nil =>
      obtain rfl : param = b := (List.cons_prefix_cons.mp hbegins).1
      exact absurd (hparams param (by simp)) hb
    | cons other others =>
      obtain ⟨rfl, hrest⟩ := List.cons_prefix_cons.mp hbegins
      obtain ⟨rfl, hletter⟩ := ih (fun b h ↦ hparams b (by simp [h]))
        (fun b h ↦ hothers b (by simp [h])) hrest
      exact ⟨rfl, hletter⟩

theorem noQuery_escape {b : UInt8} (hb : b ≠ bracket) (rest : Bytes) :
    NoQuery (escape :: b :: rest) := by
  rintro ⟨query, response⟩ hentry hquery
  obtain ⟨params, _, rfl, _⟩ := mem_queries.mp hentry
  simp only [List.cons_prefix_cons, true_and] at hquery
  exact hb hquery.1.symm

theorem noQuery_csi {params rest : Bytes} {b : UInt8} (hparams : ∀ b ∈ params, IsParam b)
    (hb : ¬ IsParam b) (hreply : b = letterC → DAResponder.reply params = none) :
    NoQuery (escape :: bracket :: (params ++ b :: rest)) := by
  rintro ⟨query, response⟩ hentry hquery
  obtain ⟨others, hothers, rfl, hresponse⟩ := mem_queries.mp hentry
  simp only [List.cons_prefix_cons, true_and] at hquery
  obtain ⟨rfl, hletter⟩ := params_eq_of_begins hothers hparams hb hquery
  simp [hreply hletter] at hresponse

namespace DAResponder

variable {responder : DAResponder}

theorem held_shape (responder : DAResponder) : responder.held = [] ∨
    ∃ tail, responder.held = escape :: tail ∧ ∀ b ∈ tail, b ≠ escape ∧ b ≠ letterC := by
  obtain ⟨state, held, shape⟩ := responder
  cases state with
  | ground => exact .inl shape
  | esc => exact .inr ⟨[], shape, by simp⟩
  | csi =>
    obtain ⟨params, rfl, hparams⟩ := shape
    refine .inr ⟨bracket :: params, rfl, ?_⟩
    intro b hb
    rcases List.mem_cons.mp hb with rfl | hparam
    · decide
    · rcases hparams b hparam with rfl | rfl <;> decide

theorem letterC_notMem_held (responder : DAResponder) : letterC ∉ responder.held := by
  intro hletter
  rcases responder.held_shape with hempty | ⟨tail, hheld, htail⟩
  · simp [hempty] at hletter
  · rw [hheld] at hletter
    rcases List.mem_cons.mp hletter with hescape | hmem
    · exact absurd hescape (by decide)
    · exact (htail letterC hmem).2 rfl

/-- What is held is not yet a query. -/
theorem noQuery_held (responder : DAResponder) : NoQuery responder.held := by
  rintro ⟨query, response⟩ hentry hquery
  obtain ⟨params, _, rfl, _⟩ := mem_queries.mp hentry
  exact responder.letterC_notMem_held (hquery.subset (by simp))

/-- Bytes other than an escape pass. -/
theorem answered_pass {passed rest out replies : Bytes} (hpassed : ∀ b ∈ passed, b ≠ escape)
    (hrest : Answered rest out replies) : Answered (passed ++ rest) (passed ++ out) replies := by
  induction passed with
  | nil => exact hrest
  | cons b passed ih =>
    exact .byte (noQuery_of_ne_escape (hpassed b (by simp)) _) (ih fun b h ↦ hpassed b (by simp [h]))

/-- Held bytes that do not become a query pass. -/
theorem answered_flush {rest out replies : Bytes} (hno : NoQuery (responder.held ++ rest))
    (hrest : Answered rest out replies) :
    Answered (responder.held ++ rest) (responder.held ++ out) replies := by
  rcases responder.held_shape with hempty | ⟨tail, hheld, htail⟩
  · rw [hempty]
    exact hrest
  · rw [hheld] at hno ⊢
    exact .byte hno (answered_pass (fun b hb ↦ (htail b hb).1) hrest)

/-- What becomes of a byte and of what is held before it. -/
inductive Consumes (responder : DAResponder) (b : UInt8) : Processed → Prop
  | hold {next : DAResponder} : next.held = responder.held ++ [b] →
      Consumes responder b ⟨next, [], []⟩
  | answer {response : Bytes} : (responder.held ++ [b], response) ∈ queries →
      Consumes responder b ⟨idle, [], response⟩
  | pass : b ≠ escape → (∀ rest, NoQuery (responder.held ++ b :: rest)) →
      Consumes responder b ⟨idle, responder.held ++ [b], []⟩
  | restart {next : DAResponder} : next.held = [b] →
      (∀ rest, NoQuery (responder.held ++ b :: rest)) →
      Consumes responder b ⟨next, responder.held, []⟩

theorem consumes_reprocess {b : UInt8} (hno : ∀ rest, NoQuery (responder.held ++ b :: rest)) :
    Consumes responder b (reprocess responder.held b) := by
  unfold reprocess
  split
  · exact .restart rfl hno
  · next hb => exact .pass hb hno

theorem consumes (responder : DAResponder) (b : UInt8) :
    Consumes responder b (responder.consume b) := by
  obtain ⟨state, held, shape⟩ := responder
  cases state with
  | ground =>
    obtain rfl : held = [] := shape
    simp only [consume, reprocess]
    split
    · exact .hold rfl
    · next hb => exact .pass hb fun rest ↦ noQuery_of_ne_escape hb rest
  | esc =>
    obtain rfl : held = [escape] := shape
    simp only [consume]
    split
    · exact .hold rfl
    · next hb => exact consumes_reprocess fun rest ↦ noQuery_escape hb rest
  | csi =>
    simp only [consume]
    obtain ⟨params, rfl, hparams⟩ := shape
    split
    · exact .hold rfl
    · next hb =>
      split
      · next hletter =>
        subst hletter
        split
        · next response hreply =>
          exact .answer (mem_queries.mpr ⟨params, hparams, rfl, hreply⟩)
        · next hreply =>
          exact .pass (by decide) fun rest ↦ noQuery_csi hparams hb fun _ ↦ hreply
      · next hletter =>
        exact consumes_reprocess fun rest ↦
          noQuery_csi hparams hb fun hc ↦ absurd hc hletter

/-- The responder removes the queries from the stream and replies to them; what it still holds may
become a query. -/
theorem answered_process (responder : DAResponder) (input : Bytes) :
    Answered (responder.held ++ input)
      ((responder.process input).out ++ (responder.process input).responder.held)
      (responder.process input).resp := by
  induction input generalizing responder with
  | nil => simpa [process] using answered_flush (by simpa using responder.noQuery_held) .nil
  | cons b rest ih =>
    have hconsumes := responder.consumes b
    simp only [process]
    cases hfirst : responder.consume b with
    | mk next out resp =>
    rw [hfirst] at hconsumes
    have hrest := ih next
    cases hconsumes with
    | hold hheld =>
      rw [hheld] at hrest
      simpa using hrest
    | answer hquery => simpa using Answered.query hquery hrest
    | pass hb hno =>
      simpa using answered_flush (hno rest) (.byte (noQuery_of_ne_escape hb rest) hrest)
    | restart hheld hno =>
      rw [hheld] at hrest
      simpa using answered_flush (hno rest) hrest

end DAResponder

/-- Of two queries none is the beginning of the other. -/
theorem eq_of_query_begins {first second : Bytes × Bytes} (hfirst : first ∈ queries)
    (hsecond : second ∈ queries) (hbegins : first.1 <+: second.1) : first = second := by
  have hall : ∀ first ∈ queries, ∀ second ∈ queries, first.1 <+: second.1 → first = second := by
    decide
  exact hall first hfirst second hsecond hbegins

/-- Of two queries that begin here both are the same. -/
theorem eq_of_begins {first second : Bytes × Bytes} (hfirst : first ∈ queries)
    (hsecond : second ∈ queries) {input : Bytes} (hfirstBegins : first.1 <+: input)
    (hsecondBegins : second.1 <+: input) : first = second := by
  rcases List.prefix_or_prefix_of_prefix hfirstBegins hsecondBegins with h | h
  · exact eq_of_query_begins hfirst hsecond h
  · exact (eq_of_query_begins hsecond hfirst h).symm

theorem Answered.unique {input out otherOut replies otherReplies : Bytes}
    (hfirst : Answered input out replies) (hsecond : Answered input otherOut otherReplies) :
    out = otherOut ∧ replies = otherReplies := by
  induction hfirst generalizing otherOut otherReplies with
  | nil =>
    generalize hinput : ([] : Bytes) = input at hsecond
    cases hsecond with
    | nil => exact ⟨rfl, rfl⟩
    | query hquery _ =>
      obtain ⟨params, _, rfl, _⟩ := mem_queries.mp hquery
      cases hinput
    | byte _ _ => cases hinput
  | @query query reply rest out replies hquery hrest ih =>
    generalize hinput : query ++ rest = input at hsecond
    cases hsecond with
    | nil =>
      obtain ⟨params, _, rfl, _⟩ := mem_queries.mp hquery
      cases hinput
    | @query other otherReply otherRest _ _ hother hotherRest =>
      have hsame : (query, reply) = (other, otherReply) :=
        eq_of_begins hquery hother ⟨rest, hinput⟩ (List.prefix_append other otherRest)
      obtain ⟨rfl, rfl⟩ := Prod.mk.inj hsame
      obtain rfl := List.append_cancel_left hinput
      obtain ⟨rfl, rfl⟩ := ih hotherRest
      exact ⟨rfl, rfl⟩
    | byte hno _ =>
      exact absurd ⟨rest, hinput⟩ (hno (query, reply) hquery)
  | @byte b rest out replies hno hrest ih =>
    generalize hinput : b :: rest = input at hsecond
    cases hsecond with
    | nil => cases hinput
    | @query other otherReply otherRest _ _ hother _ =>
      exact absurd ⟨otherRest, hinput.symm⟩ (hno (other, otherReply) hother)
    | byte _ hotherRest =>
      obtain ⟨rfl, rfl⟩ := List.cons.inj hinput
      obtain ⟨rfl, rfl⟩ := ih hotherRest
      exact ⟨rfl, rfl⟩

end Mosey.Vterm

import Mosey.Library.Lists
import Mosey.Vterm.Queries

/-!
# What attachers see of the child's output

The occurrences of the queries in a stream, by their positions, and what is left of the stream without
them. However the stream is split into calls, the responder passes on what is left and replies to the
occurrences in order. What is left can itself spell a query, where the bytes of one query were written
around others.
-/

namespace Mosey.Vterm

/-- The reply to the query that begins here. -/
def replyAt (input : Bytes) : Option Bytes :=
  (queries.find? fun entry ↦ entry.1.isPrefixOf input).map Prod.snd

/-- The replies to all queries in the stream, in the order of their positions. -/
def replies (input : Bytes) : Bytes := (input.tails.filterMap replyAt).flatten

/-- The byte at this index belongs to an occurrence of a query. -/
def Covered (input : Bytes) (index : ℕ) : Prop :=
  ∃ position < input.length, ∃ entry ∈ queries, entry.1 <+: input.drop position ∧
    position ≤ index ∧ index < position + entry.1.length

instance (input : Bytes) (index : ℕ) : Decidable (Covered input index) :=
  inferInstanceAs (Decidable (∃ position < _, _))

/-- The stream without the occurrences of queries. -/
def kept (input : Bytes) : Bytes :=
  (List.range input.length).filterMap fun index ↦ if Covered input index then none else input[index]?

namespace DAResponder

/-- The calls of `process` for successive reads. -/
def processCalls (responder : DAResponder) : List Bytes → Processed
  | [] => ⟨responder, [], []⟩
  | input :: calls =>
    let first := responder.process input
    let others := first.responder.processCalls calls
    ⟨others.responder, first.out ++ others.out, first.resp ++ others.resp⟩

/-- How the stream is cut into calls does not matter. -/
theorem processCalls_eq (responder : DAResponder) (calls : List Bytes) :
    responder.processCalls calls = responder.process calls.flatten := by
  induction calls generalizing responder with
  | nil => rfl
  | cons input calls ih => rw [processCalls, ih, List.flatten_cons, process_append]

end DAResponder

variable {entry : Bytes × Bytes} {b : UInt8} {first rest : Bytes} {input out answers : Bytes}

theorem query_shape (hentry : entry ∈ queries) :
    ∃ middle, entry.1 = escape :: (middle ++ [letterC]) ∧ ∀ b ∈ middle, b ≠ escape ∧ b ≠ letterC := by
  obtain ⟨params, hparams, hquery, -⟩ := mem_queries.mp hentry
  refine ⟨bracket :: params, by simp [hquery], ?_⟩
  intro b hb
  rcases List.mem_cons.mp hb with rfl | hparam
  · decide
  · rcases hparams b hparam with rfl | rfl <;> decide

/-- A query has no escape behind its first byte. -/
theorem tail_ne_escape (hentry : entry ∈ queries) : ∀ b ∈ entry.1.tail, b ≠ escape := by
  obtain ⟨middle, hquery, hmiddle⟩ := query_shape hentry
  intro b hb
  rw [hquery, List.tail_cons, List.mem_append, List.mem_singleton] at hb
  rcases hb with hmem | rfl
  · exact (hmiddle b hmem).1
  · decide

/-- No query begins inside another. -/
theorem noQuery_inside (hentry : entry ∈ queries) (rest : Bytes) {position : ℕ} (hpos : 0 < position)
    (hlt : position < entry.1.length) : NoQuery ((entry.1 ++ rest).drop position) := by
  have hplain : entry.1[position] ≠ escape := by
    apply tail_ne_escape hentry
    rw [List.mem_iff_getElem]
    exact ⟨position - 1, by simp; omega, by simp [Nat.sub_add_cancel hpos]⟩
  rw [List.drop_append_of_le_length hlt.le, List.drop_eq_getElem_cons hlt]
  exact noQuery_of_ne_escape hplain _

/-- The queries that begin in `first` end in it. -/
def Separate (first rest : Bytes) : Prop :=
  ∀ position < first.length, ∀ entry ∈ queries, entry.1 <+: (first ++ rest).drop position →
    position + entry.1.length ≤ first.length

/-- No query begins inside another one. -/
theorem separate_query (hentry : entry ∈ queries) (rest : Bytes) : Separate entry.1 rest := by
  intro position hposition other hother hbegins
  rcases Nat.eq_zero_or_pos position with rfl | hpos
  · rw [eq_of_begins hother hentry hbegins (List.prefix_append _ _)]
    omega
  · exact absurd hbegins (noQuery_inside hentry rest hpos hposition other hother)

theorem separate_byte {rest : Bytes} (hno : NoQuery (b :: rest)) : Separate [b] rest := by
  intro position hposition entry hentry hbegins
  obtain rfl : position = 0 := by simpa using hposition
  exact absurd hbegins (hno entry hentry)

/-! ## What is left -/

theorem covered_append (hseparate : Separate first rest) (index : ℕ) :
    Covered (first ++ rest) (first.length + index) ↔ Covered rest index := by
  constructor
  · rintro ⟨position, hposition, entry, hentry, hbegins, hle, hlt⟩
    by_cases hfirst : position < first.length
    · have := hseparate position hfirst entry hentry hbegins
      omega
    · rw [List.length_append] at hposition
      rw [List.drop_append, List.drop_eq_nil_of_le (by omega), List.nil_append] at hbegins
      exact ⟨position - first.length, by omega, entry, hentry, hbegins, by omega, by omega⟩
  · rintro ⟨position, hposition, entry, hentry, hbegins, hle, hlt⟩
    refine ⟨first.length + position, by simpa using hposition, entry, hentry, ?_, by omega, by omega⟩
    rwa [List.drop_append, List.drop_eq_nil_of_le (by omega), List.nil_append, Nat.add_sub_cancel_left]

theorem kept_append (hseparate : Separate first rest) :
    kept (first ++ rest) = ((List.range first.length).filterMap fun index ↦
      if Covered (first ++ rest) index then none else (first ++ rest)[index]?) ++ kept rest := by
  rw [kept, List.length_append, List.range_add, List.filterMap_append, List.filterMap_map]
  congr 2
  funext index
  simp only [Function.comp_apply, covered_append hseparate]
  rw [List.getElem?_append_right (by omega), Nat.add_sub_cancel_left]

/-- A query is cut out. -/
theorem kept_query (hentry : entry ∈ queries) (rest : Bytes) : kept (entry.1 ++ rest) = kept rest := by
  have hcovered : ∀ index < entry.1.length, Covered (entry.1 ++ rest) index := by
    intro index hindex
    exact ⟨0, by simp; omega, entry, hentry, List.prefix_append _ _, by omega, by omega⟩
  rw [kept_append (separate_query hentry rest), List.append_left_eq_self, List.filterMap_eq_nil_iff]
  intro index hindex
  rw [if_pos (hcovered index (List.mem_range.mp hindex))]

/-- A byte that begins no query is kept. -/
theorem kept_byte {rest : Bytes} (hno : NoQuery (b :: rest)) : kept (b :: rest) = b :: kept rest := by
  have hfree : ¬ Covered (b :: rest) 0 := by
    rintro ⟨position, -, entry, hentry, hbegins, hle, -⟩
    obtain rfl : position = 0 := by omega
    exact hno entry hentry hbegins
  simpa [hfree] using kept_append (separate_byte hno)

theorem replyAt_eq_none {input : Bytes} (hno : NoQuery input) : replyAt input = none := by
  simpa [replyAt, NoQuery] using hno

theorem replyAt_query (hentry : entry ∈ queries) (rest : Bytes) :
    replyAt (entry.1 ++ rest) = some entry.2 := by
  unfold replyAt
  cases hfind : queries.find? fun entry' ↦ entry'.1.isPrefixOf (entry.1 ++ rest) with
  | none =>
    have := List.find?_eq_none.mp hfind entry hentry
    simp at this
  | some found =>
    have hbegins : found.1 <+: entry.1 ++ rest := by simpa using List.find?_some hfind
    rw [eq_of_begins (List.mem_of_find?_eq_some hfind) hentry hbegins (List.prefix_append _ _)]
    rfl

theorem replies_byte {rest : Bytes} (hno : NoQuery (b :: rest)) :
    replies (b :: rest) = replies rest := by
  simp [replies, replyAt_eq_none hno]

theorem replies_pass {passed : Bytes} (hpassed : ∀ b ∈ passed, b ≠ escape) (rest : Bytes) :
    replies (passed ++ rest) = replies rest := by
  induction passed with
  | nil => rfl
  | cons b passed ih =>
    rw [List.cons_append, replies_byte (noQuery_of_ne_escape (hpassed b (by simp)) _)]
    exact ih fun b h ↦ hpassed b (by simp [h])

/-- A query is answered with its reply. -/
theorem replies_query (hentry : entry ∈ queries) (rest : Bytes) :
    replies (entry.1 ++ rest) = entry.2 ++ replies rest := by
  have hreply := replyAt_query hentry rest
  have hplain := tail_ne_escape hentry
  obtain ⟨middle, hquery, -⟩ := query_shape hentry
  rw [hquery, List.cons_append] at hreply
  rw [hquery, List.tail_cons] at hplain
  calc replies (entry.1 ++ rest) = replies (escape :: (middle ++ [letterC] ++ rest)) := by
        rw [hquery, List.cons_append]
    _ = entry.2 ++ replies (middle ++ [letterC] ++ rest) := by
        rw [replies, List.tails_cons, List.filterMap_cons_some hreply, List.flatten_cons, ← replies]
    _ = entry.2 ++ replies rest := by rw [replies_pass hplain]

/-- What is passed on and answered is determined by the stream. -/
theorem Answered.eq_kept (h : Answered input out answers) :
    out = kept input ∧ answers = replies input := by
  induction h with
  | nil => decide
  | query hquery _ ih =>
    obtain ⟨rfl, rfl⟩ := ih
    exact ⟨(kept_query hquery _).symm, (replies_query hquery _).symm⟩
  | byte hno _ ih =>
    obtain ⟨rfl, rfl⟩ := ih
    exact ⟨(kept_byte hno).symm, (replies_byte hno).symm⟩

namespace DAResponder

theorem held_form (responder : DAResponder) : responder.held = [] ∨ responder.held = [escape] ∨
    ∃ params, responder.held = escape :: bracket :: params ∧ ∀ b ∈ params, b = digitZero ∨ b = greater := by
  obtain ⟨state, held, shape⟩ := responder
  cases state with
  | ground => exact .inl shape
  | esc => exact .inr (.inl shape)
  | csi => exact .inr (.inr shape)

theorem answered_processCalls (calls : List Bytes) :
    Answered calls.flatten
      ((idle.processCalls calls).out ++ (idle.processCalls calls).responder.held)
      (idle.processCalls calls).resp := by
  rw [processCalls_eq]
  exact answered_process idle calls.flatten

/-- In whatever calls the stream comes, what passes and is still held is the stream without its queries,
the replies are those to the queries in order, and what is held is the beginning of a query's form. -/
theorem processCalls_filters (calls : List Bytes) :
    (idle.processCalls calls).out ++ (idle.processCalls calls).responder.held = kept calls.flatten ∧
      (idle.processCalls calls).resp = replies calls.flatten ∧
      ((idle.processCalls calls).responder.held = [] ∨
        (idle.processCalls calls).responder.held = [escape] ∨
        ∃ params, (idle.processCalls calls).responder.held = escape :: bracket :: params ∧
          ∀ b ∈ params, b = digitZero ∨ b = greater) ∧
      ∀ otherCalls : List Bytes, otherCalls.flatten = calls.flatten →
        idle.processCalls otherCalls = idle.processCalls calls := by
  have hanswered := (answered_processCalls calls).eq_kept
  refine ⟨hanswered.1, hanswered.2, held_form _, ?_⟩
  intro otherCalls hsame
  rw [processCalls_eq, processCalls_eq, hsame]

end DAResponder

example : kept [27, 91, 27, 91, 99, 48, 99] = [27, 91, 48, 99] ∧
    replies [27, 91, 27, 91, 99, 48, 99] = da1Response := by decide

/-- The bytes of `query` with whole queries between them. -/
inductive Woven : Bytes → Bytes → Prop
  | last (b : UInt8) : Woven [b] [b]
  | next (b : UInt8) {query text : Bytes} (inserted : List (Bytes × Bytes)) : inserted ⊆ queries →
      Woven query text → Woven (b :: query) (b :: ((inserted.map Prod.fst).flatten ++ text))

/-- Somewhere in the stream a query is written around other queries. -/
def Interrupted (input : Bytes) : Prop :=
  ∃ entry ∈ queries, ∃ text, Woven entry.1 text ∧ text ≠ entry.1 ∧ text <:+: input

/-- A query stands in the text. -/
def HasQuery (text : Bytes) : Prop := ∃ entry ∈ queries, entry.1 <:+: text

instance (text : Bytes) : Decidable (HasQuery text) := inferInstanceAs (Decidable (∃ _ ∈ _, _))

/-- Before a byte that passes there are only queries. -/
theorem Answered.of_cons (h : Answered input (b :: out) answers) :
    ∃ inserted rest answers', inserted ⊆ queries ∧
      input = (inserted.map Prod.fst).flatten ++ b :: rest ∧ NoQuery (b :: rest) ∧
      Answered rest out answers' := by
  generalize hout : b :: out = passed at h
  induction h with
  | nil => cases hout
  | @query query reply rest _ _ hquery _ ih =>
    obtain ⟨inserted, behind, answers', hinserted, rfl, hno, hrest⟩ := ih hout
    exact ⟨(query, reply) :: inserted, behind, answers', List.cons_subset.mpr ⟨hquery, hinserted⟩,
      by simp, hno, hrest⟩
  | byte hno hrest _ =>
    obtain ⟨rfl, rfl⟩ := List.cons.inj hout
    exact ⟨[], _, _, List.nil_subset _, rfl, hno, hrest⟩

/-- What passes was written with whole queries in between. -/
theorem Answered.exists_woven {query : Bytes} (hquery : query ≠ [])
    (h : Answered input (query ++ out) answers) :
    ∃ inserted text rest, inserted ⊆ queries ∧ Woven query text ∧
      input = (inserted.map Prod.fst).flatten ++ (text ++ rest) ∧ NoQuery (text ++ rest) := by
  induction query generalizing input answers with
  | nil => exact absurd rfl hquery
  | cons b query ih =>
    obtain ⟨inserted, rest, answers', hinserted, rfl, hno, hrest⟩ := h.of_cons
    cases query with
    | nil => exact ⟨inserted, [b], rest, hinserted, .last b, rfl, hno⟩
    | cons b' query =>
      obtain ⟨between, text, behind, hbetween, hwoven, rfl, -⟩ := ih (by simp) hrest
      exact ⟨inserted, _, behind, hinserted, .next b between hbetween hwoven, by simp,
        by simpa using hno⟩

theorem Answered.interrupted (hentry : entry ∈ queries) {before out : Bytes} {input answers : Bytes}
    (h : Answered input (before ++ (entry.1 ++ out)) answers) : Interrupted input := by
  induction before generalizing input answers with
  | nil =>
    have hne : entry.1 ≠ [] := by
      obtain ⟨middle, hquery, -⟩ := query_shape hentry
      simp [hquery]
    obtain ⟨inserted, text, rest, -, hwoven, rfl, hno⟩ := h.exists_woven hne
    refine ⟨entry, hentry, text, hwoven, ?_, List.infix_append' _ _ _⟩
    rintro rfl
    exact hno entry hentry (List.prefix_append _ _)
  | cons b before ih =>
    obtain ⟨inserted, rest, answers', -, rfl, -, hrest⟩ := h.of_cons
    obtain ⟨entry', hentry', text, hwoven, hne, hinfix⟩ := ih hrest
    refine ⟨entry', hentry', text, hwoven, hne, ?_⟩
    exact hinfix.trans ((List.suffix_cons b rest).trans (List.suffix_append _ _)).isInfix

/-- A query that begins before an escape ends before it. -/
theorem begins_before_escape (hentry : entry ∈ queries) (hfirst : first ≠ [])
    (hbegins : entry.1 <+: first ++ escape :: rest) : entry.1 <+: first := by
  rcases Library.prefix_append_cases hbegins with h | ⟨others, hothers, hbehind⟩
  · exact h
  · cases others with
    | nil => simp [hothers]
    | cons b others =>
      obtain rfl : b = escape := (List.cons_prefix_cons.mp hbehind).1
      refine absurd rfl (tail_ne_escape hentry escape ?_)
      rw [hothers, List.tail_append_of_ne_nil hfirst]
      simp

theorem separate_escape (first rest : Bytes) : Separate first (escape :: rest) := by
  intro position hposition entry hentry hbegins
  rw [List.drop_append_of_le_length hposition.le] at hbegins
  have hlength := (begins_before_escape hentry (by simpa using hposition) hbegins).length_le
  rw [List.length_drop] at hlength
  omega

theorem kept_inserted {inserted : List (Bytes × Bytes)} (hinserted : inserted ⊆ queries) (rest : Bytes) :
    kept ((inserted.map Prod.fst).flatten ++ rest) = kept rest := by
  induction inserted with
  | nil => rfl
  | cons entry inserted ih =>
    obtain ⟨hentry, hothers⟩ := List.cons_subset.mp hinserted
    rw [List.map_cons, List.flatten_cons, List.append_assoc, kept_query hentry, ih hothers]

namespace Woven

variable {query text : Bytes}

theorem head?_eq (h : Woven query text) : text.head? = query.head? := by
  cases h <;> rfl

theorem ne_nil (h : Woven query text) : query ≠ [] := by
  cases h <;> simp

/-- Without its escape a woven query passes. -/
theorem kept_append (h : Woven query text) (hplain : ∀ b ∈ query, b ≠ escape) (rest : Bytes) :
    kept (text ++ rest) = query ++ kept rest := by
  induction h with
  | last b => exact kept_byte (noQuery_of_ne_escape (hplain b (by simp)) rest)
  | next b inserted hinserted _ ih =>
    rw [List.cons_append, kept_byte (noQuery_of_ne_escape (hplain b (by simp)) _), List.append_assoc,
      kept_inserted hinserted, ih fun b h ↦ hplain b (by simp [h]), List.cons_append]

/-- The first query that is written into another. -/
theorem exists_first (h : Woven query text) (hne : text ≠ query) :
    ∃ first last rest, first ≠ [] ∧ last ≠ [] ∧ query = first ++ last ∧ text = first ++ escape :: rest := by
  induction h with
  | last b => exact absurd rfl hne
  | @next b query text inserted hinserted hwoven ih =>
    cases inserted with
    | nil =>
      obtain ⟨first, last, rest, -, hlast, rfl, rfl⟩ := ih fun h ↦ hne (by simp [h])
      exact ⟨b :: first, last, rest, by simp, hlast, by simp, by simp⟩
    | cons entry inserted =>
      obtain ⟨middle, hquery, -⟩ := query_shape (hinserted (List.mem_cons_self))
      exact ⟨[b], query, middle ++ letterC :: ((inserted.map Prod.fst).flatten ++ text), by simp,
        hwoven.ne_nil, rfl, by simp [hquery]⟩

theorem noQuery {entry : Bytes × Bytes} (hentry : entry ∈ queries) (h : Woven entry.1 text)
    (hne : text ≠ entry.1) (rest : Bytes) : NoQuery (text ++ rest) := by
  obtain ⟨first, last, behind, hfirst, hlast, hquery, rfl⟩ := h.exists_first hne
  obtain ⟨middle, hshape, hmiddle⟩ := query_shape hentry
  have hletter : letterC ∉ first := by
    intro hmem
    have hbefore : first ++ last.dropLast = escape :: middle := by
      rw [← List.dropLast_append_of_ne_nil hlast, ← hquery, hshape, ← List.cons_append,
        List.dropLast_concat]
    have hmem' : letterC ∈ escape :: middle := hbefore ▸ List.mem_append_left _ hmem
    rcases List.mem_cons.mp hmem' with hescape | hmem''
    · exact absurd hescape (by decide)
    · exact (hmiddle letterC hmem'').2 rfl
  intro other hother hbegins
  rw [List.append_assoc] at hbegins
  obtain ⟨others, hothers, -⟩ := query_shape hother
  exact hletter ((begins_before_escape hother hfirst hbegins).subset (by simp [hothers]))

end Woven

theorem kept_interrupted (hentry : entry ∈ queries) {text : Bytes} (hwoven : Woven entry.1 text)
    (hne : text ≠ entry.1) (rest : Bytes) : kept (text ++ rest) = entry.1 ++ kept rest := by
  have hno := hwoven.noQuery hentry hne rest
  have hplain := tail_ne_escape hentry
  generalize entry.1 = query at hwoven hplain
  cases hwoven with
  | last b => exact kept_byte hno
  | next b inserted hinserted hwoven =>
    rw [List.cons_append, List.append_assoc] at hno
    rw [List.cons_append, List.append_assoc, kept_byte hno, kept_inserted hinserted,
      hwoven.kept_append hplain, List.cons_append]

/-- What is left of a stream has a query where one was written around others. -/
theorem hasQuery_kept (input : Bytes) : HasQuery (kept input) ↔ Interrupted input := by
  constructor
  · rintro ⟨entry, hentry, before, behind, hout⟩
    have hanswered := DAResponder.answered_process .idle input
    rw [DAResponder.held_idle, List.nil_append, hanswered.eq_kept.1, ← hout, List.append_assoc] at hanswered
    exact hanswered.interrupted hentry
  · rintro ⟨entry, hentry, text, hwoven, hne, before, behind, rfl⟩
    obtain ⟨middle, hshape, -⟩ := query_shape hentry
    obtain ⟨others, rfl⟩ : ∃ others, text = escape :: others := by
      rw [← List.head?_eq_some_iff, hwoven.head?_eq, hshape, List.head?_cons]
    have hkept := kept_append (separate_escape before (others ++ behind))
    rw [← List.cons_append, kept_interrupted hentry hwoven hne] at hkept
    rw [List.append_assoc, hkept]
    exact ⟨entry, hentry, List.infix_append' _ _ _⟩

/-- A query ends in a byte that is never held. -/
theorem hasQuery_append_held (out : Bytes) (responder : DAResponder) :
    HasQuery (out ++ responder.held) ↔ HasQuery out := by
  constructor
  · rintro ⟨entry, hentry, before, behind, hsplit⟩
    refine ⟨entry, hentry, ?_⟩
    have hbegins : before ++ entry.1 <+: out ++ responder.held := ⟨behind, hsplit⟩
    rcases Library.prefix_append_cases hbegins with h | ⟨others, hothers, hheld⟩
    · exact (List.suffix_append before entry.1).isInfix.trans h.isInfix
    · cases others using List.reverseRecOn with
      | nil =>
        rw [List.append_nil] at hothers
        exact hothers ▸ (List.suffix_append before entry.1).isInfix
      | append_singleton others b =>
        -- The query would end in what is held.
        obtain ⟨middle, hshape, -⟩ := query_shape hentry
        rw [hshape, ← List.cons_append, ← List.append_assoc, ← List.append_assoc] at hothers
        obtain ⟨-, rfl⟩ := List.append_inj' hothers rfl |>.imp_right List.singleton_inj.mp
        exact absurd (hheld.subset (by simp)) responder.letterC_notMem_held
  · rintro ⟨entry, hentry, hinfix⟩
    exact ⟨entry, hentry, hinfix.trans (List.prefix_append _ _).isInfix⟩

namespace DAResponder

/-- What passes has no query exactly when the stream has none that is written around others. -/
theorem processCalls_strips (calls : List Bytes) :
    ¬ HasQuery (idle.processCalls calls).out ↔ ¬ Interrupted calls.flatten := by
  rw [← hasQuery_kept, ← (answered_processCalls calls).eq_kept.1, hasQuery_append_held]

/-- A query inside another: the rest of the outer one is passed on as a query. -/
theorem processCalls_interrupted :
    HasQuery (idle.processCalls [[escape, bracket, escape, bracket, letterC, letterC]]).out := by
  decide

end DAResponder

end Mosey.Vterm

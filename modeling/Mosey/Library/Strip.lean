import Mathlib.Data.List.Induction

/-!
# Stripping tokens from the ends of a list

The tokens of a fixed set, such as the encodings of white space, are stripped from the beginning of a
list, from its end or from both. Where no token begins another, stripping is determined: a list that
consists of tokens disappears before any other.
-/

namespace Mosey.Library

variable {Element : Type*} [DecidableEq Element] (tokens : List (List Element))

/-- The list without the tokens it begins with. The number counts the elements of a token that are still
to be skipped. -/
def stripLeft : ℕ → List Element → List Element
  | _, [] => []
  | skip + 1, _ :: rest => stripLeft skip rest
  | 0, element :: rest =>
    match tokens.find? fun token ↦ token.isPrefixOf (element :: rest) with
    | none => element :: rest
    | some token => stripLeft (token.length - 1) rest

/-- The list without the tokens at both ends. -/
def strip (elements : List Element) : List Element :=
  (stripLeft (tokens.map List.reverse) 0 (stripLeft tokens 0 elements).reverse).reverse

/-- No token is empty, and none begins another. -/
structure Separable : Prop where
  ne_nil : ∀ token ∈ tokens, token ≠ []
  eq_of_begins : ∀ token ∈ tokens, ∀ other ∈ tokens, token <+: other → token = other

instance : Decidable (Separable tokens) :=
  decidable_of_iff ((∀ token ∈ tokens, token ≠ []) ∧
      ∀ token ∈ tokens, ∀ other ∈ tokens, token <+: other → token = other)
    ⟨fun h ↦ ⟨h.1, h.2⟩, fun h ↦ ⟨h.1, h.2⟩⟩

variable {tokens} {elements : List Element}

theorem stripLeft_skip (elements : List Element) (skip : ℕ) :
    stripLeft tokens skip elements = stripLeft tokens 0 (elements.drop skip) := by
  induction elements generalizing skip with
  | nil => simp [stripLeft]
  | cons element rest ih =>
    cases skip with
    | zero => rfl
    | succ skip => rw [stripLeft, ih, List.drop_succ_cons]

/-- A list that begins with no token stays. -/
theorem stripLeft_of_forall (hnone : ∀ token ∈ tokens, ¬ token <+: elements) :
    stripLeft tokens 0 elements = elements := by
  cases elements with
  | nil => rfl
  | cons element rest =>
    have hfind : tokens.find? (fun token ↦ token.isPrefixOf (element :: rest)) = none := by
      simpa using hnone
    rw [stripLeft, hfind]

/-- A token that a list begins with goes first. -/
theorem stripLeft_append (hseparable : Separable tokens) {token : List Element} (htoken : token ∈ tokens)
    (rest : List Element) : stripLeft tokens 0 (token ++ rest) = stripLeft tokens 0 rest := by
  have hfind : tokens.find? (fun other ↦ other.isPrefixOf (token ++ rest)) = some token := by
    cases hfound : tokens.find? fun other ↦ other.isPrefixOf (token ++ rest) with
    | none =>
      have := List.find?_eq_none.mp hfound token htoken
      simp at this
    | some other =>
      have hbegins : other <+: token ++ rest := by simpa using List.find?_some hfound
      have hmem := List.mem_of_find?_eq_some hfound
      rcases List.prefix_or_prefix_of_prefix hbegins (List.prefix_append token rest) with h | h
      · rw [hseparable.eq_of_begins other hmem token htoken h]
      · rw [hseparable.eq_of_begins token htoken other hmem h]
  obtain ⟨first, others, rfl⟩ := List.exists_cons_of_ne_nil (hseparable.ne_nil token htoken)
  rw [List.cons_append] at hfind ⊢
  rw [stripLeft, hfind]
  dsimp only
  rw [List.length_cons, Nat.add_sub_cancel, stripLeft_skip (others ++ rest), List.drop_left]

theorem stripLeft_flatten_append (hseparable : Separable tokens) {stripped : List (List Element)}
    (hstripped : stripped ⊆ tokens) (rest : List Element) :
    stripLeft tokens 0 (stripped.flatten ++ rest) = stripLeft tokens 0 rest := by
  induction stripped with
  | nil => rfl
  | cons token stripped ih =>
    obtain ⟨htoken, hothers⟩ := List.cons_subset.mp hstripped
    rw [List.flatten_cons, List.append_assoc, stripLeft_append hseparable htoken, ih hothers]

/-- A list is some tokens and a rest that begins with none. -/
theorem exists_tokens (hseparable : Separable tokens) (elements : List Element) :
    ∃ stripped rest, stripped ⊆ tokens ∧ elements = stripped.flatten ++ rest ∧
      ∀ token ∈ tokens, ¬ token <+: rest := by
  by_cases hnone : ∀ token ∈ tokens, ¬ token <+: elements
  · exact ⟨[], elements, List.nil_subset _, rfl, hnone⟩
  · push Not at hnone
    obtain ⟨token, htoken, behind, rfl⟩ := hnone
    have hshorter : behind.length < (token ++ behind).length := by
      have := List.length_pos_iff.mpr (hseparable.ne_nil token htoken)
      rw [List.length_append]
      omega
    obtain ⟨stripped, rest, hstripped, rfl, hrest⟩ := exists_tokens hseparable behind
    exact ⟨token :: stripped, rest, List.cons_subset.mpr ⟨htoken, hstripped⟩, by simp, hrest⟩
termination_by elements.length

/-- Tokens are taken from the front until none begins the rest. -/
theorem stripLeft_spec (hseparable : Separable tokens) (elements : List Element) :
    ∃ stripped, stripped ⊆ tokens ∧ elements = stripped.flatten ++ stripLeft tokens 0 elements ∧
      ∀ token ∈ tokens, ¬ token <+: stripLeft tokens 0 elements := by
  obtain ⟨stripped, rest, hstripped, rfl, hrest⟩ := exists_tokens hseparable elements
  rw [stripLeft_flatten_append hseparable hstripped, stripLeft_of_forall hrest]
  exact ⟨stripped, hstripped, rfl, hrest⟩

theorem strip_flatten (hseparable : Separable tokens) {stripped : List (List Element)}
    (hstripped : stripped ⊆ tokens) : strip tokens stripped.flatten = [] := by
  have hleft := stripLeft_flatten_append hseparable hstripped []
  rw [List.append_nil] at hleft
  rw [strip, hleft]
  rfl

/-- No token stands at either end. -/
structure Stripped (tokens : List (List Element)) (elements : List Element) : Prop where
  left : ∀ token ∈ tokens, ¬ token <+: elements
  right : ∀ token ∈ tokens, ¬ token <:+ elements

theorem strip_of_stripped (hstripped : Stripped tokens elements) : strip tokens elements = elements := by
  have hreverse : ∀ token ∈ tokens.map List.reverse, ¬ token <+: elements.reverse := by
    intro token htoken
    obtain ⟨original, horiginal, rfl⟩ := List.mem_map.mp htoken
    rw [List.reverse_prefix]
    exact hstripped.right original horiginal
  rw [strip, stripLeft_of_forall hstripped.left, stripLeft_of_forall hreverse, List.reverse_reverse]

section Separable

variable (hseparable : Separable tokens) (hreverse : Separable (tokens.map List.reverse))
include hseparable hreverse

theorem stripped_strip (elements : List Element) : Stripped tokens (strip tokens elements) := by
  obtain ⟨-, -, -, hleft⟩ := stripLeft_spec hseparable elements
  obtain ⟨stripped, -, hsplit, hright⟩ := stripLeft_spec hreverse (stripLeft tokens 0 elements).reverse
  constructor
  · intro token htoken hbegins
    -- what the right end loses leaves the left end as it was
    refine hleft token htoken (hbegins.trans ⟨stripped.flatten.reverse, ?_⟩)
    rw [strip, ← List.reverse_append, ← hsplit, List.reverse_reverse]
  · intro token htoken hends
    apply hright token.reverse (List.mem_map_of_mem htoken)
    rwa [← List.reverse_suffix, List.reverse_reverse, ← strip]

theorem strip_idem (elements : List Element) :
    strip tokens (strip tokens elements) = strip tokens elements :=
  strip_of_stripped (stripped_strip hseparable hreverse elements)

/-- What is stripped away altogether consists of tokens, from the left too. -/
theorem stripLeft_eq_nil (hnil : strip tokens elements = []) : stripLeft tokens 0 elements = [] := by
  obtain ⟨-, -, -, hleft⟩ := stripLeft_spec hseparable elements
  obtain ⟨stripped, hstripped, hsplit, -⟩ := stripLeft_spec hreverse (stripLeft tokens 0 elements).reverse
  rw [List.reverse_eq_nil_iff.mp hnil, List.append_nil] at hsplit
  cases stripped using List.reverseRecOn with
  | nil => exact List.reverse_eq_nil_iff.mp hsplit
  | append_singleton stripped last =>
    -- the last token of the reversed list is the first of the list
    obtain ⟨token, htoken, rfl⟩ := List.mem_map.mp (hstripped (by simp : last ∈ stripped ++ [last]))
    rw [List.flatten_concat, List.reverse_eq_iff, List.reverse_append, List.reverse_reverse] at hsplit
    exact absurd ⟨_, hsplit.symm⟩ (hleft token htoken)

theorem exists_of_strip_eq_nil (hnil : strip tokens elements = []) :
    ∃ stripped, stripped ⊆ tokens ∧ elements = stripped.flatten := by
  obtain ⟨stripped, hstripped, hsplit, -⟩ := stripLeft_spec hseparable elements
  rw [stripLeft_eq_nil hseparable hreverse hnil, List.append_nil] at hsplit
  exact ⟨stripped, hstripped, hsplit⟩

theorem strip_append_of_eq_nil (hnil : strip tokens elements = []) (rest : List Element) :
    strip tokens (elements ++ rest) = strip tokens rest := by
  obtain ⟨stripped, hstripped, rfl⟩ := exists_of_strip_eq_nil hseparable hreverse hnil
  rw [strip, strip, stripLeft_flatten_append hseparable hstripped]

omit hseparable in
/-- What is left begins what the left end leaves, and tokens stand behind it. -/
theorem stripLeft_eq_strip_append (elements : List Element) :
    ∃ stripped, stripped ⊆ tokens ∧
      stripLeft tokens 0 elements = strip tokens elements ++ stripped.flatten := by
  obtain ⟨stripped, hstripped, hsplit, -⟩ := stripLeft_spec hreverse (stripLeft tokens 0 elements).reverse
  refine ⟨(stripped.map List.reverse).reverse, fun token htoken ↦ ?_, ?_⟩
  · obtain ⟨turned, hturned, rfl⟩ := List.mem_map.mp (List.mem_reverse.mp htoken)
    obtain ⟨original, horiginal, rfl⟩ := List.mem_map.mp (hstripped hturned)
    rwa [List.reverse_reverse]
  · rw [List.reverse_eq_iff] at hsplit
    rw [strip, ← List.reverse_flatten, ← List.reverse_append]
    exact hsplit

/-- An element that is a token, and in no other, is stripped from the end. -/
theorem strip_concat {element : Element} (htoken : [element] ∈ tokens)
    (honly : ∀ token ∈ tokens, element ∈ token → token = [element]) (elements : List Element) :
    strip tokens (elements ++ [element]) = strip tokens elements := by
  have halone : stripLeft tokens 0 [element] = [] := by
    simpa [stripLeft] using stripLeft_append hseparable htoken []
  obtain ⟨stripped, rest, hstripped, rfl, hrest⟩ := exists_tokens hseparable elements
  rw [strip, strip, List.append_assoc, stripLeft_flatten_append hseparable hstripped,
    stripLeft_flatten_append hseparable hstripped, stripLeft_of_forall hrest]
  by_cases hempty : rest = []
  · rw [hempty, List.nil_append, halone]
  · have hbehind : ∀ token ∈ tokens, ¬ token <+: rest ++ [element] := by
      intro token hmem hbegins
      rcases List.prefix_concat_iff.mp hbegins with rfl | hrests
      · exact hempty (by simpa using honly _ hmem (by simp))
      · exact hrest token hmem hrests
    have hturned : [element] ∈ tokens.map List.reverse := List.mem_map.mpr ⟨_, htoken, rfl⟩
    rw [stripLeft_of_forall hbehind, List.reverse_append, List.reverse_singleton,
      stripLeft_append hreverse hturned]

/-- An element of no token that stands first stays first, whatever follows. -/
theorem begins_strip_append {element : Element} (hnone : ∀ token ∈ tokens, element ∉ token)
    (hbegins : [element] <+: strip tokens elements) (more : List Element) :
    [element] <+: strip tokens (elements ++ more) := by
  obtain ⟨stripped, rest, hstripped, rfl, hrest⟩ := exists_tokens hseparable elements
  obtain ⟨behind, -, hsplit⟩ := stripLeft_eq_strip_append hreverse (stripped.flatten ++ rest)
  rw [stripLeft_flatten_append hseparable hstripped, stripLeft_of_forall hrest] at hsplit
  obtain ⟨others, rfl⟩ : [element] <+: rest := by
    rw [hsplit]
    exact hbegins.trans (List.prefix_append _ _)
  have hstays : ∀ token ∈ tokens, ¬ token <+: [element] ++ others ++ more := by
    intro token htoken htokens
    obtain ⟨first, tail, rfl⟩ := List.exists_cons_of_ne_nil (hseparable.ne_nil token htoken)
    obtain ⟨rfl, -⟩ := List.cons_prefix_cons.mp htokens
    exact hnone _ htoken (by simp)
  obtain ⟨ends, hends, hwhole⟩ :=
    stripLeft_eq_strip_append hreverse (stripped.flatten ++ ([element] ++ others) ++ more)
  rw [List.append_assoc, stripLeft_flatten_append hseparable hstripped, stripLeft_of_forall hstays] at hwhole
  rw [List.append_assoc]
  cases hleft : strip tokens (stripped.flatten ++ ([element] ++ others ++ more)) with
  | nil =>
    rw [hleft, List.nil_append] at hwhole
    have hmem : element ∈ ends.flatten := by
      rw [← hwhole]
      simp
    obtain ⟨token, htoken, helement⟩ := List.mem_flatten.mp hmem
    exact absurd helement (hnone token (hends htoken))
  | cons first left =>
    rw [hleft] at hwhole
    obtain ⟨rfl, -⟩ := List.cons.inj hwhole
    simp

omit hreverse in
/-- Behind a list that is not stripped away altogether, one without tokens at its ends stays, if its first
element does not continue a token. -/
theorem strip_append_of_stripped {first : Element} {others : List Element}
    (hmore : Stripped tokens (first :: others)) (hstarts : ∀ token ∈ tokens, first ∉ token.tail)
    (hnil : strip tokens elements ≠ []) :
    strip tokens (elements ++ first :: others) = stripLeft tokens 0 elements ++ first :: others := by
  obtain ⟨stripped, rest, hstripped, rfl, hrest⟩ := exists_tokens hseparable elements
  obtain ⟨start, behind, rfl⟩ : ∃ start behind, rest = start :: behind := by
    apply List.exists_cons_of_ne_nil
    rintro rfl
    rw [List.append_nil] at hnil
    exact hnil (strip_flatten hseparable hstripped)
  have hwhole : Stripped tokens (start :: behind ++ first :: others) := by
    constructor
    · intro token htoken hbegins
      rcases List.prefix_or_prefix_of_prefix hbegins (List.prefix_append _ _) with hshort | ⟨tail, rfl⟩
      · exact hrest token htoken hshort
      · cases tail with
        | nil => exact hrest _ htoken (by simp)
        | cons next tail =>
          obtain ⟨rfl, -⟩ := List.cons_prefix_cons.mp ((List.prefix_append_right_inj _).mp hbegins)
          exact hstarts _ htoken (by simp)
    · intro token htoken hends
      rcases List.suffix_or_suffix_of_suffix hends (List.suffix_append _ _) with hshort | ⟨front, rfl⟩
      · exact hmore.right token htoken hshort
      · cases front with
        | nil => exact hmore.right _ htoken (List.suffix_refl _)
        | cons next front => exact hstarts _ htoken (by simp)
  rw [strip, List.append_assoc, stripLeft_flatten_append hseparable hstripped,
    stripLeft_flatten_append hseparable hstripped, stripLeft_of_forall hrest]
  exact strip_of_stripped hwhole

end Separable

end Mosey.Library

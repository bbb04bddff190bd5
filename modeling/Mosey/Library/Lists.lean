import Mathlib.Data.List.Basic

/-!
# Lists

Components of a concurrent system are kept in a list and a step changes the one at its index. A text is
split into a run of one element, such as leading zeros, and the rest, or at the occurrences of a
separator.
-/

namespace Mosey.Library

variable {Element : Type*}

variable {elements : List Element} {index : ℕ} {change : Element → Element}

theorem getElem?_append_of_eq_some {element : Element} (helement : elements[index]? = some element)
    (others : List Element) : (elements ++ others)[index]? = some element := by
  have hlt := (List.getElem?_eq_some_iff.mp helement).1
  rw [List.getElem?_append_left hlt, helement]

/-- What two lists together begin with stops in the first or reaches into the second. -/
theorem prefix_append_cases {first second beginning : List Element}
    (hbegins : beginning <+: first ++ second) :
    beginning <+: first ∨ ∃ others, beginning = first ++ others ∧ others <+: second := by
  rcases List.prefix_or_prefix_of_prefix hbegins (List.prefix_append first second) with h | ⟨others, rfl⟩
  · exact .inl h
  · exact .inr ⟨others, rfl, (List.prefix_append_right_inj first).mp hbegins⟩

/-- An entry of a list that got one more is an old one or the new one. -/
theorem getElem?_concat_eq_some {last element : Element} :
    (elements ++ [last])[index]? = some element ↔
      elements[index]? = some element ∨ index = elements.length ∧ element = last := by
  constructor
  · intro helement
    rw [List.getElem?_append] at helement
    split_ifs at helement with hlt
    · exact .inl helement
    · have hzero : index - elements.length = 0 := by
        simpa using (List.getElem?_eq_some_iff.mp helement).1
      rw [hzero] at helement
      exact .inr ⟨by omega, (Option.some.inj helement).symm⟩
  · rintro (helement | ⟨rfl, rfl⟩)
    · exact getElem?_append_of_eq_some helement _
    · exact List.getElem?_concat_length

/-- Looking up what every element was turned into gives back the elements. -/
theorem mapM_map_eq_some {Source Middle Target : Type*} {turn : Source → Middle}
    {look : Middle → Option Target} {result : Source → Target} {elements : List Source}
    (hlook : ∀ element ∈ elements, look (turn element) = some (result element)) :
    (elements.map turn).mapM look = some (elements.map result) := by
  induction elements with
  | nil => rfl
  | cons element rest ih =>
    obtain ⟨hfirst, hothers⟩ := List.forall_mem_cons.mp hlook
    rw [List.map_cons, List.mapM_cons, hfirst, ih hothers]
    rfl

/-- An element of a list with one element changed is an old one or the changed one. -/
theorem mem_modify {element : Element} (hmem : element ∈ elements.modify index change) :
    element ∈ elements ∨ ∃ before, elements[index]? = some before ∧ element = change before := by
  obtain ⟨position, hposition⟩ := List.mem_iff_getElem?.mp hmem
  rw [List.getElem?_modify] at hposition
  split at hposition
  · next heq =>
    subst heq
    obtain ⟨before, hbefore, rfl⟩ := Option.map_eq_some_iff.mp hposition
    exact .inr ⟨before, hbefore, rfl⟩
  · rw [Option.map_eq_map, Option.map_id'] at hposition
    exact .inl (List.mem_of_getElem? hposition)

/-- What a change keeps of one element is kept of all. -/
theorem forall_mem_modify {P : Element → Prop} (hall : ∀ element ∈ elements, P element) (index : ℕ)
    (hchange : ∀ element, P element → P (change element)) :
    ∀ element ∈ elements.modify index change, P element := by
  intro element hmem
  rcases mem_modify hmem with hold | ⟨before, hbefore, rfl⟩
  · exact hall element hold
  · exact hchange before (hall before (List.mem_of_getElem? hbefore))

/-- A change to an element that is filtered out, before and after, is not seen. -/
theorem filter_modify_of_neg {keep : Element → Bool}
    (hdropped : ∀ element, elements[index]? = some element →
      keep element = false ∧ keep (change element) = false) :
    (elements.modify index change).filter keep = elements.filter keep := by
  induction elements generalizing index with
  | nil => simp
  | cons element rest ih =>
    cases index with
    | zero =>
      obtain ⟨hbefore, hafter⟩ := hdropped element rfl
      simp [hbefore, hafter]
    | succ index =>
      rw [List.modify_succ_cons, List.filter_cons, List.filter_cons, ih hdropped]

section Run

variable [DecidableEq Element] {filler : Element}

theorem exists_replicate_append (filler : Element) (elements : List Element) :
    ∃ (count : ℕ) (rest : List Element), elements = List.replicate count filler ++ rest ∧
      ∀ element ∈ rest.head?, element ≠ filler := by
  induction elements with
  | nil => exact ⟨0, [], rfl, by simp⟩
  | cons element elements ih =>
    by_cases heq : element = filler
    · obtain ⟨count, rest, rfl, hhead⟩ := ih
      exact ⟨count + 1, rest, by rw [heq, List.replicate_succ, List.cons_append], hhead⟩
    · refine ⟨0, element :: elements, rfl, ?_⟩
      intro head hhead
      rwa [← Option.some.inj hhead]

theorem takeWhile_replicate_append {rest : List Element}
    (hhead : ∀ element ∈ rest.head?, element ≠ filler) (count : ℕ) :
    (List.replicate count filler ++ rest).takeWhile (· = filler) = List.replicate count filler := by
  have hrest : rest.takeWhile (· = filler) = [] := by
    cases rest with
    | nil => rfl
    | cons element rest => simp [hhead element rfl]
  rw [List.takeWhile_append_of_pos (by simp), hrest, List.append_nil]

end Run

/-- Lists of one length are equal if their entries are. -/
theorem eq_of_getD_eq {first second : List Element} (filler : Element)
    (hlength : first.length = second.length)
    (hgetD : ∀ index < second.length, first.getD index filler = second.getD index filler) :
    first = second := by
  apply List.ext_getElem hlength
  intro index hfirst hsecond
  simpa [List.getD_eq_getElem?_getD, hfirst, hsecond] using hgetD index hsecond

theorem forall_mem_intercalate {P : Element → Prop} {separator : List Element}
    {parts : List (List Element)} (hseparator : ∀ element ∈ separator, P element)
    (hparts : ∀ part ∈ parts, ∀ element ∈ part, P element) :
    ∀ element ∈ separator.intercalate parts, P element := by
  induction parts with
  | nil => simp
  | cons part rest ih =>
    have hpart := hparts part List.mem_cons_self
    have hrest := ih fun other hother ↦ hparts other (List.mem_cons_of_mem _ hother)
    cases rest with
    | nil => simpa using hpart
    | cons next others =>
      rw [List.intercalate_cons_cons]
      intro element hmem
      rcases List.mem_append.mp hmem with hmem | hmem
      · rcases List.mem_append.mp hmem with hmem | hmem
        · exact hpart element hmem
        · exact hseparator element hmem
      · exact hrest element hmem

theorem map_intercalate {Target : Type*} (change : Element → Target) (separator : List Element)
    (parts : List (List Element)) :
    (separator.intercalate parts).map change =
      (separator.map change).intercalate (parts.map (List.map change)) := by
  induction parts with
  | nil => rfl
  | cons part rest ih =>
    cases rest with
    | nil => simp
    | cons next others =>
      rw [List.intercalate_cons_cons, List.map_append, List.map_append, ih]
      simp

/-- What is appended without a separator goes to the last part. -/
theorem exists_splitOn_append [BEq Element] [LawfulBEq Element] (separator : Element)
    (elements : List Element) : ∃ parts last, ∀ more, separator ∉ more →
      (elements ++ more).splitOn separator = parts ++ [last ++ more] := by
  induction elements with
  | nil => exact ⟨[], [], fun more hmore ↦ List.splitOn_eq_singleton hmore⟩
  | cons element elements ih =>
    obtain ⟨parts, last, hsplit⟩ := ih
    by_cases helement : element = separator
    · refine ⟨[] :: parts, last, fun more hmore ↦ ?_⟩
      rw [List.cons_append, List.splitOn_cons_eq_if_modifyHead, if_pos (beq_iff_eq.mpr helement),
        hsplit more hmore, List.cons_append]
    · cases parts with
      | nil =>
        refine ⟨[], element :: last, fun more hmore ↦ ?_⟩
        rw [List.cons_append, List.splitOn_cons_eq_if_modifyHead, if_neg (by simpa using helement),
          hsplit more hmore]
        rfl
      | cons part parts =>
        refine ⟨(element :: part) :: parts, last, fun more hmore ↦ ?_⟩
        rw [List.cons_append, List.splitOn_cons_eq_if_modifyHead, if_neg (by simpa using helement),
          hsplit more hmore]
        rfl

section Split

variable [BEq Element]

/-- The parts of a list between the occurrences of a separator, found from the left. The number counts
the elements of an occurrence that are still to be skipped. -/
def splitSkipping (separator : List Element) : ℕ → List Element → List (List Element)
  | _, [] => [[]]
  | skip + 1, _ :: rest => splitSkipping separator skip rest
  | 0, element :: rest =>
    if separator.isPrefixOf (element :: rest) then
      [] :: splitSkipping separator (separator.length - 1) rest
    else (splitSkipping separator 0 rest).modifyHead (element :: ·)

theorem splitSkipping_ne_nil (separator : List Element) (skip : ℕ) (elements : List Element) :
    splitSkipping separator skip elements ≠ [] := by
  fun_induction splitSkipping separator skip elements with
  | case1 => exact List.cons_ne_nil _ _
  | case2 _ _ _ ih => exact ih
  | case3 => exact List.cons_ne_nil _ _
  | case4 _ _ _ ih => simpa using ih

theorem splitSkipping_singleton [LawfulBEq Element] (separator : Element) (elements : List Element) :
    splitSkipping [separator] 0 elements = elements.splitOn separator := by
  induction elements with
  | nil => rfl
  | cons element rest ih =>
    have hleading : [separator].isPrefixOf (element :: rest) = (element == separator) := by
      simp [List.isPrefixOf, Bool.beq_comm]
    rw [List.splitOn_cons_eq_if_modifyHead, ← ih, splitSkipping, hleading]
    rfl

end Split

end Mosey.Library

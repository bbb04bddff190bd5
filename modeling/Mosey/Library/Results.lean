import Mathlib.Data.List.Basic

/-!
# Computations that may fail

Inversion of sequencing and of a check mapped over a list, for peeling a successful computation
apart.
-/

namespace Mosey.Library

universe u

variable {Failure Source Target : Type u}

theorem not_exists_error (value : Source) :
    ¬ ∃ err : Failure, (.ok value : Except Failure Source) = .error err := by
  rintro ⟨err, heq⟩
  cases heq

variable {first : Except Failure Source} {err : Failure} {elements : List Source}
  {check : Source → Except Failure Target}

/-- Two steps succeed in sequence when the first one does and the second one on its value. -/
theorem bind_eq_ok {next : Source → Except Failure Target} {result : Target} :
    first >>= next = .ok result ↔ ∃ value, first = .ok value ∧ next value = .ok result := by
  cases first with
  | error err =>
    constructor
    · intro heq
      cases heq
    · rintro ⟨value, heq, _⟩
      cases heq
  | ok value =>
    constructor
    · intro heq
      exact ⟨value, rfl, heq⟩
    · rintro ⟨other, heq, hnext⟩
      rw [← Except.ok.inj heq] at hnext
      exact hnext

theorem bind_eq_error {next : Source → Except Failure Target} :
    first >>= next = .error err ↔
      first = .error err ∨ ∃ value, first = .ok value ∧ next value = .error err := by
  cases first with
  | error cause =>
    constructor
    · intro heq
      have hcause : cause = err := Except.error.inj heq
      exact .inl (by rw [hcause])
    · rintro (heq | ⟨value, heq, _⟩)
      · rw [Except.error.inj heq]
        rfl
      · cases heq
  | ok value =>
    constructor
    · intro heq
      exact .inr ⟨value, rfl, heq⟩
    · rintro (heq | ⟨other, heq, hnext⟩)
      · cases heq
      · rw [← Except.ok.inj heq] at hnext
        exact hnext

theorem bind_pure_eq_ok {value : Source} (hfirst : first = .ok value) (f : Source → Target) :
    (first >>= fun read ↦ pure (f read)) = .ok (f value) := by
  rw [hfirst]
  rfl

theorem bind_pure_eq_some {first : Option Source} {value : Source} (hfirst : first = some value)
    (f : Source → Target) : (first >>= fun read ↦ pure (f read)) = some (f value) := by
  rw [hfirst]
  rfl

/-- The rest of a list after a leading part, which it has to begin with. -/
theorem ite_drop_eq_ok {Element : Type u} [BEq Element] [LawfulBEq Element]
    {leading elements rest : List Element} :
    (if leading.isPrefixOf elements then Except.ok (elements.drop leading.length) else .error err) =
      .ok rest ↔ elements = leading ++ rest := by
  split_ifs with hleading
  · obtain ⟨others, hothers⟩ := List.isPrefixOf_iff_prefix.mp hleading
    rw [← hothers, List.drop_left, List.append_cancel_left_eq, Except.ok.injEq]
  · constructor
    · intro herror
      cases herror
    · rintro rfl
      have hbegins : leading.isPrefixOf (leading ++ rest) = true :=
        List.isPrefixOf_iff_prefix.mpr ⟨rest, rfl⟩
      exact absurd hbegins hleading

/-- A failed loop failed in one of its steps. -/
theorem exists_of_foldlM_eq_error {step : Target → Source → Except Failure Target} {start : Target}
    (hfold : elements.foldlM step start = .error err) :
    ∃ state element, step state element = .error err := by
  induction elements generalizing start with
  | nil => cases hfold
  | cons element rest ih =>
    rw [List.foldlM_cons] at hfold
    rcases bind_eq_error.mp hfold with hfirst | ⟨next, _, hrest⟩
    · exact ⟨start, element, hfirst⟩
    · exact ih hrest

/-- What each step of a loop keeps holds when it succeeds. -/
theorem foldlM_invariant {P : Target → Prop} {step : Target → Source → Except Failure Target}
    (hstep : ∀ state element next, P state → step state element = .ok next → P next)
    {start result : Target} (hstart : P start) (hfold : elements.foldlM step start = .ok result) :
    P result := by
  induction elements generalizing start with
  | nil =>
    rw [← Except.ok.inj hfold]
    exact hstart
  | cons element rest ih =>
    rw [List.foldlM_cons] at hfold
    obtain ⟨next, hnext, hrest⟩ := bind_eq_ok.mp hfold
    exact ih (hstep start element next hstart hnext) hrest

/-- A failed check of a list failed on one of its elements. -/
theorem exists_of_mapM_eq_error (hmap : elements.mapM check = .error err) :
    ∃ element ∈ elements, check element = .error err := by
  induction elements with
  | nil => cases hmap
  | cons element rest ih =>
    rw [List.mapM_cons] at hmap
    rcases bind_eq_error.mp hmap with hfirst | ⟨first, _, hrest⟩
    · exact ⟨element, List.mem_cons_self, hfirst⟩
    · rcases bind_eq_error.mp hrest with hothers | ⟨others, _, hresult⟩
      · obtain ⟨other, hother, hfailed⟩ := ih hothers
        exact ⟨other, List.mem_cons_of_mem _ hother, hfailed⟩
      · cases hresult

theorem mapM_cons_eq_ok {element : Source} {rest : List Source} {results : List Target} :
    (element :: rest).mapM check = .ok results ↔ ∃ first others, check element = .ok first ∧
      rest.mapM check = .ok others ∧ results = first :: others := by
  rw [List.mapM_cons, bind_eq_ok]
  constructor
  · rintro ⟨first, hfirst, hrest⟩
    obtain ⟨others, hothers, hresults⟩ := bind_eq_ok.mp hrest
    exact ⟨first, others, hfirst, hothers, (Except.ok.inj hresults).symm⟩
  · rintro ⟨first, others, hfirst, hothers, rfl⟩
    exact ⟨first, hfirst, bind_eq_ok.mpr ⟨others, hothers, rfl⟩⟩

theorem forall₂_of_mapM_eq_ok {results : List Target} (hmap : elements.mapM check = .ok results) :
    List.Forall₂ (fun element result ↦ check element = .ok result) elements results := by
  induction elements generalizing results with
  | nil =>
    rw [← Except.ok.inj hmap]
    exact .nil
  | cons element rest ih =>
    obtain ⟨first, others, hfirst, hothers, rfl⟩ := mapM_cons_eq_ok.mp hmap
    exact .cons hfirst (ih hothers)

/-- A check that succeeds on every element succeeds on the list. -/
theorem exists_mapM_eq_ok (hall : ∀ element ∈ elements, ∃ result, check element = .ok result) :
    ∃ results, elements.mapM check = .ok results := by
  induction elements with
  | nil => exact ⟨[], rfl⟩
  | cons element rest ih =>
    obtain ⟨first, hfirst⟩ := hall element List.mem_cons_self
    obtain ⟨others, hothers⟩ := ih fun other hother ↦ hall other (List.mem_cons_of_mem _ hother)
    exact ⟨first :: others, mapM_cons_eq_ok.mpr ⟨first, others, hfirst, hothers, rfl⟩⟩

end Mosey.Library

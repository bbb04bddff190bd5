import Mathlib.Data.List.Induction

/-!
# The latest entry of a history

What a record says is often decided by the last entry of a history that concerns it. `Latest` states
this by position; `latest_concat` computes it along a growing history.
-/

namespace Mosey.Library

variable {Entry : Type*} {wanted counts : Entry → Prop} {history : List Entry}

/-- A wanted entry after which no entry counts. -/
def Latest (wanted counts : Entry → Prop) (history : List Entry) : Prop :=
  ∃ before entry after, history = before ++ entry :: after ∧ wanted entry ∧
    ∀ other ∈ after, ¬ counts other

theorem not_latest_nil : ¬ Latest wanted counts [] := by
  intro hlatest
  obtain ⟨before, entry, after, hnil, _⟩ := hlatest
  have hlength := congrArg List.length hnil
  simp at hlength

theorem latest_concat {entry : Entry} : Latest wanted counts (history ++ [entry]) ↔
    wanted entry ∨ ¬ counts entry ∧ Latest wanted counts history := by
  constructor
  · rintro ⟨before, found, after, hsplit, hwanted, hafter⟩
    rcases List.eq_nil_or_concat after with rfl | ⟨others, last, rfl⟩
    · have hparts := List.append_inj' hsplit rfl
      obtain rfl : entry = found := by simpa using hparts.2
      exact .inl hwanted
    · rw [List.concat_eq_append, ← List.cons_append, ← List.append_assoc] at hsplit
      have hparts := List.append_inj' hsplit rfl
      obtain rfl : entry = last := by simpa using hparts.2
      refine .inr ⟨hafter entry (by simp), before, found, others, hparts.1, hwanted, ?_⟩
      intro other hother
      exact hafter other (by simp [hother])
  · rintro (hwanted | ⟨hcounts, before, found, after, rfl, hwanted, hafter⟩)
    · exact ⟨history, entry, [], rfl, hwanted, by simp⟩
    · refine ⟨before, found, after ++ [entry], by simp, hwanted, ?_⟩
      intro other hother
      rcases List.mem_append.mp hother with hold | hnew
      · exact hafter other hold
      · rw [List.mem_singleton.mp hnew]
        exact hcounts

/-- Entries that are neither wanted nor count may be left out. -/
theorem latest_filter {keep : Entry → Bool} (hwanted : ∀ entry, wanted entry → keep entry)
    (hcounts : ∀ entry, counts entry → keep entry) :
    Latest wanted counts (history.filter keep) ↔ Latest wanted counts history := by
  induction history using List.reverseRecOn with
  | nil => rfl
  | append_singleton history entry ih =>
    rw [List.filter_append, latest_concat, ← ih]
    by_cases hkeep : keep entry
    · rw [List.filter_cons_of_pos hkeep, List.filter_nil, latest_concat]
    · rw [List.filter_cons_of_neg hkeep, List.filter_nil, List.append_nil]
      have hnot := mt (hwanted entry) hkeep
      have hskip := mt (hcounts entry) hkeep
      simp [hnot, hskip]

/-- Two latest entries of one kind are the same entry. -/
theorem Latest.exists_both {wanted' : Entry → Prop} (hcounts : ∀ entry, wanted entry → counts entry)
    (hcounts' : ∀ entry, wanted' entry → counts entry) (hlatest : Latest wanted counts history)
    (hlatest' : Latest wanted' counts history) : ∃ entry, wanted entry ∧ wanted' entry := by
  induction history using List.reverseRecOn with
  | nil => exact absurd hlatest not_latest_nil
  | append_singleton history entry ih =>
    rw [latest_concat] at hlatest hlatest'
    rcases hlatest with hentry | ⟨hskip, hbefore⟩
    · rcases hlatest' with hentry' | ⟨hskip', _⟩
      · exact ⟨entry, hentry, hentry'⟩
      · exact absurd (hcounts entry hentry) hskip'
    · rcases hlatest' with hentry' | ⟨_, hbefore'⟩
      · exact absurd (hcounts' entry hentry') hskip
      · exact ih hbefore hbefore'

/-- An entry that counts hides every wanted one before it. -/
theorem not_latest_of_counts {before after : List Entry} {entry : Entry} (hcounts : counts entry)
    (hentry : ¬ wanted entry) (hafter : ∀ other ∈ after, ¬ wanted other) :
    ¬ Latest wanted counts (before ++ entry :: after) := by
  induction after using List.reverseRecOn with
  | nil =>
    rw [latest_concat]
    exact not_or.mpr ⟨hentry, fun hbefore ↦ hbefore.1 hcounts⟩
  | append_singleton after last ih =>
    rw [← List.cons_append, ← List.append_assoc, latest_concat]
    have hlast := hafter last (by simp)
    have hrest := ih fun other hother ↦ hafter other (by simp [hother])
    exact not_or.mpr ⟨hlast, fun hbefore ↦ hrest hbefore.2⟩

end Mosey.Library

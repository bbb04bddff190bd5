import Mathlib.Data.List.Basic

/-!
# Decoders

A decoder reads a value off the front of a list of tokens and leaves the rest. It reads a value from
what was written when it does so whatever follows, and this composes with the decoders themselves.
-/

namespace Mosey.Library

abbrev Decoder (σ : Type) := StateT (List σ) Option

namespace Decoder

variable {σ α β : Type}

/-- One token. -/
def token : Decoder σ σ
  | [] => none
  | next :: rest => some (next, rest)

/-- A given number of tokens. -/
def fixed (count : ℕ) : Decoder σ { tokens : List σ // tokens.length = count } := fun input ↦
  if h : count ≤ input.length then
    some (⟨input.take count, List.length_take_of_le h⟩, input.drop count)
  else none

/-- A given number of items, one after the other. -/
def counted (item : Decoder σ α) : ℕ → Decoder σ (List α)
  | 0 => pure []
  | count + 1 => do
    let first ← item
    let others ← counted item count
    pure (first :: others)

/-- The decoder reads the value from exactly these tokens, whatever comes after them. -/
def Reads (decoder : Decoder σ α) (written : List σ) (value : α) : Prop :=
  ∀ rest, decoder (written ++ rest) = some (value, rest)

theorem reads_pure (value : α) : Reads (pure value : Decoder σ α) [] value := fun _ ↦ rfl

theorem reads_token (next : σ) : Reads token [next] next := fun _ ↦ rfl

variable {next : α → Decoder σ β} {first : Decoder σ α} {result : β} {input rest : List σ}

/-- Decoders in sequence read what was written in sequence. -/
theorem Reads.bind {written written' : List σ} {value : α} (hfirst : first.Reads written value)
    (hnext : (next value).Reads written' result) :
    Reads (first >>= next) (written ++ written') result := by
  intro rest
  calc (first >>= next) (written ++ written' ++ rest)
      = (first (written ++ (written' ++ rest))).bind fun read ↦ next read.1 read.2 := by
        rw [List.append_assoc]; rfl
    _ = next value (written' ++ rest) := by rw [hfirst, Option.bind_some]
    _ = some (result, rest) := hnext rest

theorem Reads.map {decoder : Decoder σ α} {written : List σ} {value : α}
    (hreads : decoder.Reads written value) (f : α → β) :
    Reads (decoder >>= fun read ↦ pure (f read)) written (f value) := by
  have h : Reads (decoder >>= fun read ↦ pure (f read)) (written ++ []) (f value) :=
    hreads.bind (reads_pure (f value))
  rwa [List.append_nil] at h

theorem reads_fixed {count : ℕ} (tokens : { tokens : List σ // tokens.length = count }) :
    Reads (fixed count) tokens.1 tokens := by
  intro rest
  obtain ⟨tokens, rfl⟩ := tokens
  have hle : tokens.length ≤ (tokens ++ rest).length := by simp
  simp only [fixed, hle, dif_pos, List.take_left, List.drop_left]

/-- Items written one after the other are read as a list of as many items. -/
theorem Reads.counted {item : Decoder σ α} {write : β → List σ} {value : β → α} {values : List β}
    (hitem : ∀ b ∈ values, item.Reads (write b) (value b)) :
    Reads (item.counted values.length) (values.flatMap write) (values.map value) := by
  induction values with
  | nil => exact reads_pure []
  | cons first others ih =>
    have hothers := ih fun b hb ↦ hitem b (List.mem_cons_of_mem _ hb)
    exact (hitem first List.mem_cons_self).bind (hothers.map (value first :: ·))

/-- Two decoders succeed in sequence when the second one does on what the first leaves. -/
theorem bind_eq_some :
    (first >>= next) input = some (result, rest) ↔
      ∃ value middle, first input = some (value, middle) ∧ next value middle = some (result, rest) := by
  change (first input).bind (fun read ↦ next read.1 read.2) = _ ↔ _
  rw [Option.bind_eq_some_iff, Prod.exists]

theorem pure_eq_some {value result : α} :
    (pure value : Decoder σ α) input = some (result, rest) ↔ value = result ∧ input = rest := by
  change some (value, input) = some (result, rest) ↔ _
  rw [Option.some.injEq, Prod.mk.injEq]

theorem map_eq_some {decoder : Decoder σ α} {f : α → β}
    (h : (decoder >>= fun read ↦ pure (f read)) input = some (result, rest)) :
    ∃ read, result = f read ∧ decoder input = some (read, rest) := by
  obtain ⟨read, middle, hread, h⟩ := bind_eq_some.mp h
  obtain ⟨rfl, rfl⟩ := pure_eq_some.mp h
  exact ⟨read, rfl, hread⟩

theorem fixed_eq_some {count : ℕ} {tokens : { l : List σ // l.length = count }} :
    fixed count input = some (tokens, rest) ↔ input = tokens.1 ++ rest := by
  constructor
  · intro h
    rw [fixed] at h
    split at h
    · obtain ⟨rfl, rfl⟩ := Prod.mk.inj (Option.some.inj h)
      exact (List.take_append_drop count input).symm
    · cases h
  · rintro rfl
    exact reads_fixed tokens rest

/-- What a decoder leaves is the end of what it was given. -/
def Consumes (decoder : Decoder σ α) : Prop :=
  ∀ ⦃input value rest⦄, decoder input = some (value, rest) → rest <:+ input

theorem consumes_pure (value : α) : Consumes (pure value : Decoder σ α) := fun _ _ _ h ↦
  (pure_eq_some.mp h).2 ▸ List.suffix_rfl

theorem consumes_failure : Consumes (failure : Decoder σ α) := by
  intro input value rest h
  cases h

/-- A fixed read leaves an end of its input. -/
theorem consumes_fixed (count : ℕ) : Consumes (fixed count : Decoder σ _) := fun _ tokens _ h ↦
  ⟨tokens.1, (fixed_eq_some.mp h).symm⟩

/-- Decoders that leave an end of their input do so in sequence. -/
theorem Consumes.bind (hfirst : first.Consumes) (hnext : ∀ value, (next value).Consumes) :
    Consumes (first >>= next) := by
  intro input result rest h
  obtain ⟨value, middle, hvalue, hresult⟩ := bind_eq_some.mp h
  exact (hnext value hresult).trans (hfirst hvalue)

end Decoder

end Mosey.Library

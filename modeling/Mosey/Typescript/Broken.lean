import Mosey.Cert.Content
import Mosey.Typescript.Varint

/-!
# Contents that no reader gets through

The client's walk over the fields of a certificate is more lenient than a proto3 reader in some places and
stricter in others. At a varint without an end both give up, and so they do at a field of another wire type
in something that is no message.
-/

namespace Mosey.Typescript

open Library Proto3

/-- Behind whole fields of the two wire types that the client knows, the input has a varint without an end, or
a field of another wire type in what is no message, or the body of one of the whole fields is bad itself. -/
inductive Broken (bad : ℕ → Bytes → Prop) : Bytes → Prop
  | tag {input : Bytes} (hne : input ≠ []) (hendless : Endless input) : Broken bad input
  | number {input rest : Bytes} {number wireType : ℕ}
      (htag : Proto3.tag input = some ((number, wireType), rest)) (htype : wireType = 0 ∨ wireType = 2)
      (hendless : Endless rest) : Broken bad input
  | wireType {input rest : Bytes} {number wireType : ℕ}
      (htag : Proto3.tag input = some ((number, wireType), rest)) (htype : wireType ≠ 0 ∧ wireType ≠ 2)
      (hnone : fields input = none) : Broken bad input
  | body {input rest body : Bytes} {number : ℕ}
      (hfield : Proto3.field input = some ((number, .bytes body), rest)) (hbad : bad number body) :
      Broken bad input
  | next {input rest : Bytes} {entry : ℕ × Value} {seen : Field}
      (hfield : Proto3.field input = some (entry, rest)) (hseen : Field.of entry = some seen)
      (hrest : Broken bad rest) : Broken bad input

/-- A timestamp with a broken field. None of its fields is a message. -/
def BrokenTimestamp (body : Bytes) : Prop := Broken (fun _ _ ↦ False) body

/-- The content of a certificate with a broken field, or with a broken timestamp in one of its fields. -/
def BrokenContent (content : Bytes) : Prop :=
  Broken (fun number body ↦ (number = 5 ∨ number = 6) ∧ BrokenTimestamp body) content

section Proto3

variable {bad : ℕ → Bytes → Prop} {input : Bytes}

/-- A proto3 reader finds no message, or finds the bad body. -/
theorem Broken.fields (hbroken : Broken bad input) : ∀ read, fields input = some read →
    ∃ number body, (number, .bytes body) ∈ read ∧ bad number body := by
  induction hbroken with
  | tag hne hendless =>
    intro read hread
    rw [fields_eq_none hne (field_of_tag_eq_none (tag_of_endless hendless))] at hread
    cases hread
  | @number input rest number wireType htag htype hendless =>
    intro read hread
    have hne : input ≠ [] := by
      rintro rfl
      cases htag
    rw [fields_eq_none hne (field_of_endless htag htype hendless)] at hread
    cases hread
  | wireType htag htype hnone =>
    intro read hread
    cases hnone.symm.trans hread
  | body hfield hbad =>
    intro read hread
    rw [fields_of_field hfield] at hread
    obtain ⟨others, -, rfl⟩ := Option.map_eq_some_iff.mp hread
    exact ⟨_, _, List.mem_cons_self, hbad⟩
  | next hfield hseen hrest ih =>
    intro read hread
    rw [fields_of_field hfield] at hread
    obtain ⟨others, hothers, rfl⟩ := Option.map_eq_some_iff.mp hread
    obtain ⟨number, body, hmem, hbad⟩ := ih others hothers
    exact ⟨number, body, List.mem_cons_of_mem _ hmem, hbad⟩

theorem BrokenTimestamp.mergeTimestamp {body : Bytes} (hbroken : BrokenTimestamp body)
    (timestamp : Option Cert.Timestamp) : Cert.mergeTimestamp timestamp body = none := by
  cases hread : Proto3.fields body with
  | none => rw [Cert.mergeTimestamp, hread]; rfl
  | some read =>
    obtain ⟨-, -, -, hfalse⟩ := hbroken.fields read hread
    exact hfalse.elim

theorem BrokenContent.decodeContent {content : Bytes} (hbroken : BrokenContent content) :
    Cert.decodeContent content = none := by
  rw [Cert.decodeContent]
  cases hread : Proto3.fields content with
  | none => rfl
  | some read =>
    obtain ⟨number, body, hmem, hnumber, hbody⟩ := hbroken.fields read hread
    have hset : ∀ message : Cert.ContentMessage, message.set (number, .bytes body) = none := by
      intro message
      rcases hnumber with rfl | rfl
      · rw [Cert.ContentMessage.set, hbody.mergeTimestamp]
        rfl
      · rw [Cert.ContentMessage.set, hbody.mergeTimestamp]
        rfl
    obtain ⟨before, after, rfl⟩ := List.append_of_mem hmem
    rw [Option.bind_eq_bind, Option.bind_some, List.foldlM_append]
    cases before.foldlM Cert.ContentMessage.set .empty with
    | none => rfl
    | some message =>
      simp only [Option.bind_eq_bind, Option.bind_some, List.foldlM_cons, hset, Option.bind_none]

end Proto3

section Client

variable {engine : Engine} {bad : ℕ → Bytes → Prop}

theorem decodeVarint_of_endless {buf : Bytes} {off : ℕ} (hendless : Endless (buf.drop off)) :
    ∃ err, decodeVarint buf off = .error err :=
  ⟨_, decodeVarintLoop_continued (by decide : 0 + 7 * 10 = 70) (by decide) hendless⟩

/-- The generator throws, or yields the bad body. -/
def Generated.Fails (engine : Engine) (bad : ℕ → Bytes → Prop) (generated : Generated) : Prop :=
  generated.thrown ≠ none ∨ ∃ number body, ⟨number, .bytes body⟩ ∈ generated.yielded ∧
    body.length ≤ engine.maxLength ∧ bad number body

theorem Generated.Fails.yield {generated : Generated} (hfails : generated.Fails engine bad) (first : Field) :
    (generated.yield first).Fails engine bad := by
  rcases hfails with hthrown | ⟨number, body, hmem, hbad⟩
  · exact .inl hthrown
  · exact .inr ⟨number, body, List.mem_cons_of_mem _ hmem, hbad⟩

theorem fails_throws (err : DecodeError) : (Generated.throws err).Fails engine bad :=
  .inl (by simp [Generated.throws])

/-- A field that begins with a tag of a proto3 message, as the loop reads it. -/
theorem decodeVarint_of_tag {buf rest : Bytes} {off number wireType : ℕ}
    (htag : Proto3.tag (buf.drop off) = some ((number, wireType), rest)) :
    off < buf.length ∧ ∃ tag tn, decodeVarint buf off = .ok (tag, tn) ∧ tag &&& 0x7 = wireType ∧
      buf.drop (off + tn) = rest := by
  obtain ⟨key, hkey, -, -, rfl, rfl⟩ := tag_eq_some.mp htag
  obtain ⟨tn, htn, hrest⟩ := decodeVarint_eq_ok rfl hkey
  have hlength := (varintFrom_suffix hkey).2
  rw [List.length_drop] at hlength
  exact ⟨by omega, key, tn, htn, Nat.and_two_pow_sub_one_eq_mod key 3, hrest⟩

theorem Broken.iterFieldsFrom {buf input : Bytes} (hbuf : buf.length ≤ engine.maxLength)
    (hbroken : Broken bad input) : ∀ off fuel, buf.drop off = input → input.length ≤ fuel →
      (iterFieldsFrom engine buf fuel off).Fails engine bad := by
  have hpositive : ∀ {off fuel : ℕ}, off < buf.length → (buf.drop off).length ≤ fuel →
      ∃ left, fuel = left + 1 := by
    intro off fuel hoff hfuel
    rw [List.length_drop] at hfuel
    exact ⟨fuel - 1, by omega⟩
  induction hbroken with
  | tag hne hendless =>
    rintro off fuel rfl hfuel
    have hoff := Nat.lt_of_not_le (List.drop_eq_nil_iff.not.mp hne)
    obtain ⟨fuel, rfl⟩ := hpositive hoff hfuel
    obtain ⟨err, herr⟩ := decodeVarint_of_endless hendless
    rw [Typescript.iterFieldsFrom, if_pos hoff, herr]
    exact fails_throws err
  | number htag htype hendless =>
    rintro off fuel rfl hfuel
    obtain ⟨hoff, tag, tn, hdecode, rfl, rfl⟩ := decodeVarint_of_tag htag
    obtain ⟨fuel, rfl⟩ := hpositive hoff hfuel
    obtain ⟨err, herr⟩ := decodeVarint_of_endless hendless
    rw [Typescript.iterFieldsFrom, if_pos hoff, hdecode]
    simp only [herr]
    split_ifs
    · exact fails_throws err
    · exact fails_throws err
    · exact fails_throws _
  | wireType htag htype hnone =>
    rintro off fuel rfl hfuel
    obtain ⟨hoff, tag, tn, hdecode, rfl, -⟩ := decodeVarint_of_tag htag
    obtain ⟨fuel, rfl⟩ := hpositive hoff hfuel
    rw [Typescript.iterFieldsFrom, if_pos hoff, hdecode]
    simp only [if_neg htype.1, if_neg htype.2]
    exact fails_throws _
  | body hfield hbad =>
    rintro off fuel rfl hfuel
    have hshorter := length_lt_of_field hfield
    obtain ⟨fuel, rfl⟩ : ∃ left, fuel = left + 1 := ⟨fuel - 1, by omega⟩
    obtain ⟨next, -, hloop⟩ := @iterFieldsFrom_field engine buf _ _ _ off fuel hbuf hfield rfl
    have hlength := length_lt_of_field_bytes hfield
    rw [List.length_drop] at hlength
    rw [hloop]
    exact .inr ⟨_, _, List.mem_cons_self, by omega, hbad⟩
  | next hfield hseen hrest ih =>
    rintro off fuel rfl hfuel
    have hshorter := length_lt_of_field hfield
    obtain ⟨fuel, rfl⟩ : ∃ left, fuel = left + 1 := ⟨fuel - 1, by omega⟩
    obtain ⟨next, hnext, hloop⟩ := @iterFieldsFrom_field engine buf _ _ _ off fuel hbuf hfield hseen
    rw [hloop]
    exact (ih next fuel hnext (by omega)).yield _

/-- A loop over a generator that fails does so too, if its body fails on what is bad. -/
theorem Generated.Fails.forEach {State : Type} {generated : Generated} (hfails : generated.Fails engine bad)
    {body : State → Field → Except DecodeError State}
    (hbad : ∀ number bytes, bytes.length ≤ engine.maxLength → bad number bytes →
      ∀ state, ∃ err, body state ⟨number, .bytes bytes⟩ = .error err)
    (start : State) : ∃ err, generated.forEach start body = .error err := by
  obtain ⟨yielded, thrown⟩ := generated
  rw [Generated.forEach]
  rcases hfails with hthrown | ⟨number, bytes, hmem, hbytes⟩
  · obtain ⟨err, rfl⟩ := Option.ne_none_iff_exists'.mp hthrown
    cases yielded.foldlM body start with
    | error other => exact ⟨other, rfl⟩
    | ok state => exact ⟨err, rfl⟩
  · obtain ⟨before, after, rfl⟩ := List.append_of_mem hmem
    rw [List.foldlM_append]
    cases before.foldlM body start with
    | error err => exact ⟨err, rfl⟩
    | ok state =>
      obtain ⟨err, herr⟩ := hbad number bytes hbytes.1 hbytes.2 state
      refine ⟨err, ?_⟩
      change ((body state ⟨number, .bytes bytes⟩ >>= fun next ↦ after.foldlM body next) >>= _) = _
      rw [herr]
      rfl

theorem BrokenTimestamp.decodeTimestamp {body : Bytes} (hbody : body.length ≤ engine.maxLength)
    (hbroken : BrokenTimestamp body) : ∃ err, decodeTimestamp engine (.bytes body) = .error err :=
  (hbroken.iterFieldsFrom hbody 0 _ rfl le_rfl).forEach (fun _ _ _ hfalse ↦ hfalse.elim) _

theorem BrokenContent.decodeSignedCertContent {content : Bytes} (hcontent : content.length ≤ engine.maxLength)
    (hbroken : BrokenContent content) : ∃ err, decodeSignedCertContent engine content = .error err := by
  refine (hbroken.iterFieldsFrom hcontent 0 _ rfl le_rfl).forEach ?_ _
  rintro number body hbody ⟨hnumber, htimestamp⟩ scc
  obtain ⟨err, herr⟩ := htimestamp.decodeTimestamp hbody
  refine ⟨err, ?_⟩
  rcases hnumber with rfl | rfl
  · rw [SignedCertContent.set, herr]
    rfl
  · rw [SignedCertContent.set, herr]
    rfl

end Client

end Mosey.Typescript

/-!
# The front and the end of a list

When one list begins or ends with another, and what is left of it.
-/

namespace ImportSuffix

variable {α : Type} [DecidableEq α]

/-- A list begins with `lead` exactly when the remainder, put after `lead`,
gives it back. -/
theorem isPrefixOf?_eq_some_iff {lead text rest : List α} :
    lead.isPrefixOf? text = some rest ↔ text = lead ++ rest := by
  induction lead generalizing text with
  | nil =>
      have hnil : [].isPrefixOf? text = some text := rfl
      simp [hnil]
  | cons c lead ih =>
      cases text with
      | nil =>
          have hnone : (c :: lead).isPrefixOf? [] = none := rfl
          simp [hnone]
      | cons d text =>
          have hcons : (c :: lead).isPrefixOf? (d :: text) =
              if c == d then lead.isPrefixOf? text else none := rfl
          rw [hcons]
          by_cases hcd : c = d
          · simp [hcd, ih]
          · simp [hcd, Ne.symm hcd]

@[simp]
theorem isPrefixOf?_append (lead rest : List α) :
    lead.isPrefixOf? (lead ++ rest) = some rest :=
  isPrefixOf?_eq_some_iff.2 rfl

/-- A list ends with `tail` exactly when the remainder, put before `tail`, gives
it back. -/
theorem isSuffixOf?_eq_some_iff {tail text rest : List α} :
    tail.isSuffixOf? text = some rest ↔ text = rest ++ tail := by
  have hreverse : tail.isSuffixOf? text =
      (tail.reverse.isPrefixOf? text.reverse).map List.reverse := rfl
  rw [hreverse, Option.map_eq_some_iff]
  constructor
  · rintro ⟨reversed, hreversed, rfl⟩
    have heq := congrArg List.reverse (isPrefixOf?_eq_some_iff.1 hreversed)
    simpa using heq
  · rintro rfl
    exact ⟨rest.reverse, by simp [List.reverse_append], by simp⟩

end ImportSuffix

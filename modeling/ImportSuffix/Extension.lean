import ImportSuffix.Text.Blank

/-!
# Extensions

An extension is given with or without its leading dot, and is a name that can
stand at the end of a file name and inside a specifier: it is not empty, and
holds no slash, no backslash, no single quote and no blank.
-/

namespace ImportSuffix.Extension

/-- The extension without one leading dot. -/
def bare (given : Text) : Text :=
  match given with
  | '.' :: rest => rest
  | _ => given

def isForbidden (c : Char) : Bool :=
  c = '/' || c = '\\' || c = '\'' || isBlank c

/-- The bare extension, or `none` if it is empty or holds a forbidden
character. -/
def normalize? (given : Text) : Option Text :=
  if (bare given).isEmpty || (bare given).any isForbidden then none
  else some (bare given)

theorem normalize?_eq_some_iff {given extension : Text} :
    normalize? given = some extension ↔
      extension = bare given ∧ extension ≠ [] ∧ ∀ c ∈ extension, isForbidden c = false := by
  unfold normalize?
  constructor
  · intro hnormalize
    split at hnormalize
    next => simp at hnormalize
    next hvalid =>
      obtain rfl := Option.some.inj hnormalize
      simpa using hvalid
  · rintro ⟨rfl, hnonempty, hallowed⟩
    rw [if_neg]
    simpa [hnonempty] using hallowed

end ImportSuffix.Extension

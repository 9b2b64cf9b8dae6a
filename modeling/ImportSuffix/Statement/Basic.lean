import ImportSuffix.Text.Front
import ImportSuffix.Text.Utf8

/-!
# Import statements

A statement names what it binds and, between single quotes, the module that it
binds from, as in `import { map, filter } from './lists';`.  Its bindings stay on
one line, and its specifier stays on that line and holds no single quote.

`read?` reads a statement from the front of a text, with the
shortest bindings that a whole clause follows; what it reads is always the front
of the text as written (`read?_eq_some`).
-/

namespace ImportSuffix

/-- What an import statement binds, and the specifier of the module. -/
structure Statement where
  bindings : Text
  specifier : Text
deriving DecidableEq, Repr

namespace Statement

def opening : Text := ['i', 'm', 'p', 'o', 'r', 't', ' ']

def fromQuote : Text := [' ', 'f', 'r', 'o', 'm', ' ', '\'']

def closing : Text := ['\'', ';']

def render (statement : Statement) : Text :=
  opening ++ statement.bindings ++ fromQuote ++ statement.specifier ++ closing

/-- A specifier ends before a single quote or the end of its line. -/
def inSpecifier (c : Char) : Bool :=
  c != '\'' && c != '\n'

/-- Reads the clause that names a module, from the space before `from` to the
semicolon: the specifier, and the text after the clause. -/
def clause? (text : Text) : Option (Text × Text) :=
  match fromQuote.isPrefixOf? text with
  | none => none
  | some body =>
      (closing.isPrefixOf? (body.dropWhile inSpecifier)).map fun rest =>
        (body.takeWhile inSpecifier, rest)

/-- Reads bindings up to the first whole clause on the line, and that clause;
`before` holds the bindings read so far, in reverse order. -/
def bound? (before : Text) (text : Text) : Option (Statement × Text) :=
  match clause? text with
  | some (specifier, rest) => some (⟨before.reverse, specifier⟩, rest)
  | none =>
      match text with
      | [] => none
      | c :: text => if c = '\n' then none else bound? (c :: before) text

/-- Reads the statement at the front of a text: the statement, and the text
after it. -/
def read? (text : Text) : Option (Statement × Text) :=
  match opening.isPrefixOf? text with
  | none => none
  | some body => bound? [] body

/-- A clause is read from the front of the text as it is written there. -/
theorem clause?_eq_some {text specifier rest : Text}
    (hclause : clause? text = some (specifier, rest)) :
    text = fromQuote ++ specifier ++ closing ++ rest := by
  unfold clause? at hclause
  split at hclause
  next => simp at hclause
  next body hbody =>
    obtain ⟨rest', hclosing, heq⟩ := Option.map_eq_some_iff.1 hclause
    obtain ⟨rfl, rfl⟩ := Prod.mk.inj heq
    have hfrom := isPrefixOf?_eq_some_iff.1 hbody
    have hclose := isPrefixOf?_eq_some_iff.1 hclosing
    rw [hfrom, List.append_assoc, List.append_assoc, ← hclose, List.takeWhile_append_dropWhile]

/-- Bindings are read as written, and a clause follows them. -/
theorem bound?_eq_some {before text rest : Text} {statement : Statement}
    (hbound : bound? before text = some (statement, rest)) :
    before.reverse ++ text =
      statement.bindings ++ fromQuote ++ statement.specifier ++ closing ++ rest := by
  induction text generalizing before with
  | nil =>
      unfold bound? at hbound
      split at hbound
      next specifier rest' hclause =>
        obtain ⟨rfl, rfl⟩ := Prod.mk.inj (Option.some.inj hbound)
        rw [clause?_eq_some hclause]
        simp
      next => simp at hbound
  | cons c text ih =>
      unfold bound? at hbound
      split at hbound
      next specifier rest' hclause =>
        obtain ⟨rfl, rfl⟩ := Prod.mk.inj (Option.some.inj hbound)
        rw [clause?_eq_some hclause]
        simp
      next =>
        dsimp only at hbound
        split at hbound
        next => simp at hbound
        next => simpa using ih hbound

/-- A statement is read from the front of the text as it is written there. -/
theorem read?_eq_some {text rest : Text} {statement : Statement}
    (hread : read? text = some (statement, rest)) :
    text = statement.render ++ rest := by
  unfold read? at hread
  split at hread
  next => simp at hread
  next body hbody =>
    rw [isPrefixOf?_eq_some_iff.1 hbody]
    simpa [render] using bound?_eq_some hread

theorem length_render (statement : Statement) :
    statement.render.length =
      statement.bindings.length + statement.specifier.length + 16 := by
  simp [render, opening, fromQuote, closing]
  omega

/-- What follows a statement is shorter than the text. -/
theorem length_lt_of_read? {text rest : Text} {statement : Statement}
    (hread : read? text = some (statement, rest)) : rest.length < text.length := by
  rw [read?_eq_some hread, List.length_append, length_render]
  omega

end Statement

end ImportSuffix

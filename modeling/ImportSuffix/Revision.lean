import ImportSuffix.Statement.Outline

/-!
# Adding the extension

A revision of a text gives the extension to every statement whose specifier
lacks it, and keeps all else.  It tells which statements were changed, as they
were before.
-/

namespace ImportSuffix

/-- What a specifier with the extension ends with: a dot and the extension. -/
def dotted (extension : Text) : Text :=
  '.' :: extension

namespace Statement

def carries (extension : Text) (statement : Statement) : Bool :=
  (dotted extension).isSuffixOf statement.specifier

/-- The statement with the extension, added only where it is missing. -/
def extend (extension : Text) (statement : Statement) : Statement :=
  if statement.carries extension then statement
  else { statement with specifier := statement.specifier ++ dotted extension }

end Statement

/-- A revised text, and the statements that were changed, as they were before. -/
structure Revision where
  text : Text
  changed : List Statement
deriving DecidableEq, Repr

def Revision.isChanged (revision : Revision) : Bool :=
  !revision.changed.isEmpty

/-- Adds the extension to every statement of the text that lacks it. -/
def revise (extension : Text) (text : Text) : Revision :=
  let outline := Outline.ofText text
  { text := (outline.map (Statement.extend extension)).render
    changed := outline.statements.filter fun statement => !statement.carries extension }

/-- The revisions of a text by one extension after the other. -/
def reviseChain (text : Text) : (extensions : List Text) → List Revision
  | [] => []
  | extension :: extensions =>
      let revision := revise extension text
      revision :: reviseChain revision.text extensions

end ImportSuffix

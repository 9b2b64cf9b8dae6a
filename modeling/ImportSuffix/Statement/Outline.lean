import ImportSuffix.Statement.Basic

/-!
# The statements of a text

A text is cut at its import statements: the outline holds each statement with
the text before it, and the text after the last one.  Statements are found from
left to right, none overlaps another, and the search goes on right behind the
one found last.

The main statement is `render_ofText`: cutting loses nothing, so an outline
written out is the text that it came from.
-/

namespace ImportSuffix

/-- A text as its statements, each with the text before it, and the text after
the last one. -/
structure Outline where
  sections : List (Text × Statement)
  rest : Text
deriving DecidableEq, Repr

namespace Outline

def cons (gap : Text) (statement : Statement) (outline : Outline) : Outline :=
  ⟨(gap, statement) :: outline.sections, outline.rest⟩

def render (outline : Outline) : Text :=
  outline.sections.flatMap (fun part => part.1 ++ part.2.render) ++ outline.rest

def statements (outline : Outline) : List Statement :=
  outline.sections.map Prod.snd

def map (change : Statement → Statement) (outline : Outline) : Outline :=
  ⟨outline.sections.map fun part => (part.1, change part.2), outline.rest⟩

/-- Cuts a text at its statements; `gap` holds the text since the last
statement, in reverse order.

Where a line has an opening with no whole clause behind it, no later opening on
that line has one either.  With `abandon`, such an opening closes the line: what
is left of it is not searched, so each line is searched once. -/
def scanFrom (abandon : Bool) (closed : Bool) (gap : Text) (text : Text) : Outline :=
  match text with
  | [] => ⟨[], gap.reverse⟩
  | c :: text =>
      if closed && c != '\n' then scanFrom abandon true (c :: gap) text
      else
        match hread : Statement.read? (c :: text) with
        | some (statement, rest) =>
            have := Statement.length_lt_of_read? hread
            (scanFrom abandon false [] rest).cons gap.reverse statement
        | none =>
            scanFrom abandon (abandon && Statement.opening.isPrefixOf (c :: text))
              (c :: gap) text
termination_by text.length
decreasing_by
  · exact Nat.lt_succ_self _
  · assumption
  · exact Nat.lt_succ_self _

def ofText (text : Text) : Outline :=
  scanFrom true false [] text

@[simp]
theorem render_cons (gap : Text) (statement : Statement) (outline : Outline) :
    (outline.cons gap statement).render = gap ++ statement.render ++ outline.render := by
  simp [cons, render]

@[simp]
theorem statements_cons (gap : Text) (statement : Statement) (outline : Outline) :
    (outline.cons gap statement).statements = statement :: outline.statements := rfl

@[simp]
theorem map_cons (change : Statement → Statement) (gap : Text) (statement : Statement)
    (outline : Outline) :
    (outline.cons gap statement).map change =
      (outline.map change).cons gap (change statement) := rfl

@[simp]
theorem statements_map (change : Statement → Statement) (outline : Outline) :
    (outline.map change).statements = outline.statements.map change := by
  simp [map, statements, Function.comp_def]

theorem render_scanFrom (abandon closed : Bool) (gap text : Text) :
    (scanFrom abandon closed gap text).render = gap.reverse ++ text := by
  fun_induction scanFrom abandon closed gap text with
  | case1 => simp [render]
  | case2 closed gap c text hclosed ih => simpa using ih
  | case3 closed gap c text hclosed statement rest hread _ ih =>
      simp [ih, Statement.read?_eq_some hread]
  | case4 closed gap c text hclosed hread ih => simpa using ih

/-- Cutting a text at its statements loses nothing. -/
@[simp]
theorem render_ofText (text : Text) : (ofText text).render = text := by
  simp [ofText, render_scanFrom]

end Outline

end ImportSuffix

import ImportSuffix.Proofs.Revision.Chain

/-!
# Where the statements of a text stand

`FoundFrom` says in the open what a search finds from some position of a text on: each
match is a statement that is written where the match begins, with the shortest bindings
that can be read there, and no statement begins between the end of one match and the next
match, or behind the last one.  It mentions neither the order in which positions are tried
nor the outline.

A text has exactly one such list (`foundFrom_iff`): what is found first is settled by the
first position where any statement begins, and what is found next by the end of that match.
The statements that a revision changes are those of the list that lack the extension.
-/

namespace ImportSuffix

open Statement

/-- A statement that was found in a text, and the position where it begins. -/
structure Match where
  start : Nat
  statement : Statement
deriving DecidableEq, Repr

/-- The position behind the last character of a match. -/
def Match.stop (found : Match) : Nat :=
  found.start + found.statement.render.length

def StandsAt (text : Text) (position : Nat) (statement : Statement) : Prop :=
  ∃ rest, Reads (text.drop position) statement rest

/-- The matches in a text from a position on. -/
inductive FoundFrom (text : Text) : (position : Nat) → List Match → Prop
  | nil {position : Nat}
      (hnone : ∀ later statement, position ≤ later → ¬StandsAt text later statement) :
      FoundFrom text position []
  | cons {position : Nat} {found : Match} {behind : List Match}
      (hordered : position ≤ found.start)
      (hstands : StandsAt text found.start found.statement)
      (hshortest : ∀ other, StandsAt text found.start other →
        found.statement.bindings.length ≤ other.bindings.length)
      (hfirst : ∀ earlier statement, position ≤ earlier → earlier < found.start →
        ¬StandsAt text earlier statement)
      (hbehind : FoundFrom text found.stop behind) :
      FoundFrom text position (found :: behind)

theorem StandsAt.add_length_le {text : Text} {position : Nat} {statement : Statement}
    (hstands : StandsAt text position statement) :
    position + statement.render.length ≤ text.length := by
  obtain ⟨rest, hreads⟩ := hstands
  have hlength := congrArg List.length hreads.text_eq
  rw [List.length_drop, List.length_append] at hlength
  have hpos : 0 < statement.render.length := by
    rw [length_render]
    omega
  omega

theorem exists_standsAt_iff {text : Text} {position : Nat} :
    (∃ statement, StandsAt text position statement) ↔ Readable (text.drop position) :=
  Iff.rfl

/-! ## At most one list -/

/-- Two statements with the shortest bindings at one position are the same. -/
theorem eq_of_shortest {text : Text} {position : Nat} {left right : Statement}
    (hleft : StandsAt text position left) (hright : StandsAt text position right)
    (hshortest : ∀ other, StandsAt text position other →
      left.bindings.length ≤ other.bindings.length)
    (hshortest' : ∀ other, StandsAt text position other →
      right.bindings.length ≤ other.bindings.length) : left = right := by
  obtain ⟨rest, hreads⟩ := hleft
  obtain ⟨rest', hreads'⟩ := hright
  have hread : read? (text.drop position) = some (left, rest) :=
    read?_eq_some_iff.2 ⟨hreads, fun other _ hother => hshortest other ⟨_, hother⟩⟩
  have hread' : read? (text.drop position) = some (right, rest') :=
    read?_eq_some_iff.2 ⟨hreads', fun other _ hother => hshortest' other ⟨_, hother⟩⟩
  rw [hread] at hread'
  exact congrArg Prod.fst (Option.some.inj hread')

theorem FoundFrom.unique {text : Text} {position : Nat} {found found' : List Match}
    (hfound : FoundFrom text position found) (hfound' : FoundFrom text position found') :
    found = found' := by
  induction hfound generalizing found' with
  | nil hnone =>
      cases hfound' with
      | nil _ => rfl
      | cons hordered hstands _ _ _ => exact absurd hstands (hnone _ _ hordered)
  | @cons position first behind hordered hstands hshortest hfirst _ ih =>
      cases hfound' with
      | nil hnone => exact absurd hstands (hnone _ _ hordered)
      | @cons _ first' behind' hordered' hstands' hshortest' hfirst' hbehind' =>
          obtain ⟨start, statement⟩ := first
          obtain ⟨start', statement'⟩ := first'
          -- neither match begins before the other, since nothing begins before a match
          obtain rfl : start = start' := by
            rcases Nat.lt_trichotomy start start' with hlt | heq | hlt
            · exact absurd hstands (hfirst' _ _ hordered hlt)
            · exact heq
            · exact absurd hstands' (hfirst _ _ hordered' hlt)
          obtain rfl : statement = statement' :=
            eq_of_shortest hstands hstands' hshortest hshortest'
          rw [ih hbehind']

/-! ## The matches of an outline -/

/-- The statements of an outline that begins at a position, with the positions where they
begin. -/
def matchesFrom (position : Nat) : (sections : List (Text × Statement)) → List Match
  | [] => []
  | (gap, statement) :: sections =>
      let found : Match := ⟨position + gap.length, statement⟩
      found :: matchesFrom found.stop sections

theorem map_statement_matchesFrom (position : Nat) (sections : List (Text × Statement)) :
    (matchesFrom position sections).map Match.statement = sections.map Prod.snd := by
  induction sections generalizing position with
  | nil => rfl
  | cons part sections ih => simp only [matchesFrom, List.map_cons, ih]

section Positions

variable {text gap behind : Text} {position later : Nat}

/-- From inside a quiet text no statement begins. -/
theorem not_readable_drop_of_quiet (hquiet : Outline.Quiet gap behind)
    (htext : text.drop position = gap ++ behind) (hle : position ≤ later)
    (hlt : later < position + gap.length) : ¬Readable (text.drop later) := by
  have hinside : later - position < gap.length := by omega
  have hdrop : text.drop later = gap.drop (later - position) ++ behind := by
    rw [← Nat.add_sub_of_le hle, ← List.drop_drop, htext, Nat.add_sub_cancel_left,
      List.drop_append_of_le_length (Nat.le_of_lt hinside)]
  rw [hdrop]
  refine hquiet _ (List.drop_suffix _ _) ?_
  rw [← List.length_pos_iff, List.length_drop]
  omega

theorem not_readable_drop_of_length_le (hle : text.length ≤ position) :
    ¬Readable (text.drop position) := by
  rintro ⟨statement, rest, hreads⟩
  have hstop := StandsAt.add_length_le ⟨rest, hreads⟩
  rw [length_render] at hstop
  omega

end Positions

/-- The statements of a leftmost outline are the matches in its text. -/
theorem Outline.IsLeftmost.foundFrom {text : Text} {outline : Outline} {position : Nat}
    (hleftmost : outline.IsLeftmost) (htext : text.drop position = outline.render) :
    FoundFrom text position (matchesFrom position outline.sections) := by
  induction hleftmost generalizing position with
  | @rest rest hquiet =>
      have hrest : text.drop position = rest ++ [] := by
        simpa [Outline.render] using htext
      refine .nil fun later statement hle hstands => ?_
      have hreadable := exists_standsAt_iff.1 ⟨statement, hstands⟩
      by_cases hinside : later < position + rest.length
      · exact not_readable_drop_of_quiet hquiet hrest hle hinside hreadable
      · have hlength := congrArg List.length hrest
        rw [List.length_drop, List.append_nil] at hlength
        exact not_readable_drop_of_length_le (by omega) hreadable
  | @cons gap statement outline hquiet hlegible _ ih =>
      rw [render_cons, List.append_assoc] at htext
      have hstart : text.drop (position + gap.length) = statement.render ++ outline.render := by
        rw [← List.drop_drop, htext, List.drop_left]
      have hread := read?_eq_some_iff.1
        (read?_render_append_iff.2 hlegible : read? (statement.render ++ outline.render) = _)
      rw [← hstart] at hread
      refine .cons (Nat.le_add_right _ _) ⟨_, hread.1⟩ ?_ ?_ (ih ?_)
      · rintro other ⟨rest, hother⟩
        exact hread.2 other rest hother
      · intro earlier other hle hlt hstands
        exact not_readable_drop_of_quiet hquiet htext hle hlt
          (exists_standsAt_iff.1 ⟨other, hstands⟩)
      · rw [Match.stop, ← List.drop_drop, hstart, List.drop_left]

/-- The matches in a text from a position on are the statements that a scan from there finds,
whether or not it abandons lines. -/
theorem foundFrom_scan_iff (abandon : Bool) {text : Text} {position : Nat} {found : List Match} :
    FoundFrom text position found ↔
      found = matchesFrom position
        (Outline.scanFrom abandon false [] (text.drop position)).sections := by
  have hscan : FoundFrom text position (matchesFrom position
      (Outline.scanFrom abandon false [] (text.drop position)).sections) :=
    (Outline.isLeftmost_scan abandon _).foundFrom (by simp [Outline.render_scanFrom])
  constructor
  · exact fun hfound => hfound.unique hscan
  · rintro rfl
    exact hscan

theorem foundFrom_iff {text : Text} {found : List Match} :
    FoundFrom text 0 found ↔ found = matchesFrom 0 (Outline.ofText text).sections :=
  foundFrom_scan_iff true

/-- A search may skip a part of the text where no statement begins. -/
theorem foundFrom_skip_iff {text : Text} {position later : Nat} {found : List Match}
    (hle : position ≤ later)
    (hnone : ∀ between statement, position ≤ between → between < later →
      ¬StandsAt text between statement) :
    FoundFrom text position found ↔ FoundFrom text later found := by
  constructor
  · intro hfound
    cases hfound with
    | nil hbehind =>
        exact .nil fun behind statement hbetween => hbehind behind statement (hle.trans hbetween)
    | cons hordered hstands hshortest hfirst hbehind =>
        refine .cons ?_ hstands hshortest ?_ hbehind
        · exact Nat.le_of_not_lt fun hlt => hnone _ _ hordered hlt hstands
        · exact fun earlier statement hbetween => hfirst earlier statement (hle.trans hbetween)
  · intro hfound
    cases hfound with
    | nil hbehind =>
        refine .nil fun behind statement hbetween hstands => ?_
        rcases Nat.lt_or_ge behind later with hlt | hge
        · exact hnone behind statement hbetween hlt hstands
        · exact hbehind behind statement hge hstands
    | cons hordered hstands hshortest hfirst hbehind =>
        refine .cons (hle.trans hordered) hstands hshortest ?_ hbehind
        intro earlier statement hbetween hearlier
        rcases Nat.lt_or_ge earlier later with hlt | hge
        · exact hnone earlier statement hbetween hlt
        · exact hfirst earlier statement hge hearlier

/-- A text has exactly one list of matches, and a revision by any extension reports those
whose specifiers lack it, in their order. -/
theorem changed_revise_eq_filter_found (text : Text) :
    ∃ found : List Match, (∀ other, FoundFrom text 0 other ↔ other = found) ∧
      ∀ extension, (revise extension text).changed =
        (found.map Match.statement).filter
          fun statement => ¬dotted extension <:+ statement.specifier := by
  refine ⟨_, fun other => foundFrom_iff, fun extension => ?_⟩
  rw [map_statement_matchesFrom]
  exact changed_revise extension text

end ImportSuffix

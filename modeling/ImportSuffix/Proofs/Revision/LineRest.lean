import ImportSuffix.Proofs.Revision.Search
import Mathlib.Order.Nat

/-!
# What is left of a line

A search that goes on at some place of a text has the rest of that line before it, and then
the lines behind it.  All readings in the rest of a line share the clauses that it holds: a
reading from one opening is also one from every opening before it on that line
(`exists_standsAt_line_iff`).  So the first opening settles the line.  The leftmost match begins
there and its bindings run to the first completed clause behind it; and where no clause is
left for that opening, none is left for any other, and the search may go on with the next
line (`match_begins_at_first_opening`).
-/

namespace ImportSuffix

open Statement

/-- What is left, for a search that goes on at `offset`, of the line that begins at `start`:
the characters from the later of the two up to the newline or the end of the text. -/
def lineRest (text : Text) (offset start : Nat) : Text :=
  ((text.drop start).takeWhile (· != '\n')).drop (offset - start)

def ClauseAt (text : Text) (position : Nat) : Prop :=
  ∃ specifier rest, '\'' ∉ specifier ∧
    text.drop position = " from '".toList ++ specifier ++ "';".toList ++ rest

def openings (text : Text) : Set Nat :=
  {position | "import ".toList <+: text.drop position}

def clausesFrom (text : Text) (position : Nat) : Set Nat :=
  {later | position ≤ later ∧ ClauseAt text later}

/-- The match stands in the text, and all of it in the rest of a line. -/
structure Match.LiesInRest (text : Text) (offset start : Nat) (found : Match) : Prop where
  le_start : max offset start ≤ found.start
  stop_le : found.stop ≤ max offset start + (lineRest text offset start).length
  standsAt : StandsAt text found.start found.statement

/-! ## Statements on one line -/

section Line

variable {line : Text} {position clause : Nat} {statement : Statement}

/-- On a line a specifier without a quote is one that a reading may have. -/
theorem clauseAt_iff_startsClause (hline : '\n' ∉ line) :
    ClauseAt line position ↔ StartsClause (line.drop position) := by
  constructor
  · rintro ⟨specifier, rest, hquote, htext⟩
    refine ⟨specifier, rest, fun c hc => ⟨?_, ?_⟩, htext⟩
    · rintro rfl
      exact hquote hc
    · rintro rfl
      have hmem : '\n' ∈ line.drop position := by simp [htext, hc]
      exact hline (List.mem_of_mem_drop hmem)
  · rintro ⟨specifier, rest, hunquoted, htext⟩
    exact ⟨specifier, rest, hunquoted.quote_notMem, htext⟩

/-- A statement begins with an opening, and its bindings end at a clause. -/
theorem StandsAt.opening_and_clause (hstands : StandsAt line position statement) :
    position ∈ openings line ∧
      ClauseAt line (position + opening.length + statement.bindings.length) := by
  obtain ⟨rest, hreads⟩ := hstands
  have htext : line.drop position = opening ++ (statement.bindings ++
      (fromQuote ++ statement.specifier ++ closing ++ rest)) := by
    simpa [render] using hreads.text_eq
  constructor
  · exact ⟨_, htext.symm⟩
  · refine ⟨statement.specifier, rest, hreads.unquoted.quote_notMem, ?_⟩
    rw [Nat.add_assoc, ← List.drop_drop, htext, ← List.drop_drop, List.drop_left, List.drop_left]
    rfl

/-- From an opening on a line a statement can be read up to any clause behind it. -/
theorem exists_standsAt_line_iff (hline : '\n' ∉ line) :
    (∃ statement, StandsAt line position statement ∧
        position + opening.length + statement.bindings.length = clause) ↔
      position ∈ openings line ∧ clause ∈ clausesFrom line (position + opening.length) := by
  constructor
  · rintro ⟨statement, hstands, rfl⟩
    obtain ⟨hopening, hclause⟩ := hstands.opening_and_clause
    exact ⟨hopening, Nat.le_add_right _ _, hclause⟩
  · rintro ⟨⟨body, (hbody : opening ++ body = line.drop position)⟩, hle, hclause⟩
    rw [clauseAt_iff_startsClause hline] at hclause
    obtain ⟨specifier, rest, hunquoted, htext⟩ := hclause
    obtain ⟨width, rfl⟩ := Nat.exists_eq_add_of_le hle
    have hbehind : body.drop width = fromQuote ++ specifier ++ closing ++ rest := by
      rw [← htext, Nat.add_assoc, ← List.drop_drop, ← hbody, ← List.drop_drop, List.drop_left]
    refine ⟨⟨body.take width, specifier⟩, ⟨rest, ?_, ?_, hunquoted⟩, ?_⟩
    · calc
        line.drop position = opening ++ body := hbody.symm
        _ = opening ++ (body.take width ++ (fromQuote ++ specifier ++ closing ++ rest)) := by
          rw [← hbehind, List.take_append_drop]
        _ = render ⟨body.take width, specifier⟩ ++ rest := by simp [render]
    · intro hmem
      have hbehind' : '\n' ∈ line.drop position := by
        rw [← hbody]
        exact List.mem_append_right opening (List.mem_of_mem_take hmem)
      exact hline (List.mem_of_mem_drop hbehind')
    · have hlength := congrArg List.length hbehind
      simp only [List.length_drop, List.length_append, fromQuote, List.length_cons] at hlength
      simp only [List.length_take]
      omega

theorem exists_isLeast_openings (hnonempty : (openings line).Nonempty) :
    ∃ first, IsLeast (openings line) first := by
  classical
  exact ⟨_, hnonempty.isLeast_natFind⟩

/-- A statement stands on a line just when a clause is completed behind the first opening: a
clause behind a later opening is behind the first one too. -/
theorem exists_standsAt_iff_of_isLeast (hline : '\n' ∉ line) {first : Nat}
    (hfirst : IsLeast (openings line) first) :
    (∃ position statement, StandsAt line position statement) ↔
      (clausesFrom line (first + opening.length)).Nonempty := by
  constructor
  · rintro ⟨position, statement, hstands⟩
    obtain ⟨hopening, hclause⟩ := hstands.opening_and_clause
    have hle : first ≤ position := hfirst.2 hopening
    exact ⟨_, by omega, hclause⟩
  · rintro ⟨clause, hclause⟩
    obtain ⟨statement, hstands, -⟩ := (exists_standsAt_line_iff hline).2 ⟨hfirst.1, hclause⟩
    exact ⟨first, statement, hstands⟩

end Line

/-! ## The rest of a line and the text -/

section LineRest

variable {text : Text} {offset start distance : Nat} {statement : Statement}

theorem newline_notMem_lineRest (text : Text) (offset start : Nat) :
    '\n' ∉ lineRest text offset start := by
  intro hmem
  have hinside := List.all_eq_true.1 List.all_takeWhile _ (List.mem_of_mem_drop hmem)
  simp at hinside

/-- The text goes on with the rest of the line, and behind it with a newline if it goes on at
all. -/
theorem exists_drop_eq_lineRest_append (hnonempty : lineRest text offset start ≠ []) :
    ∃ behind, text.drop (max offset start) = lineRest text offset start ++ behind ∧
      (behind = [] ∨ ∃ later, behind = '\n' :: later) := by
  have hdistance : offset - start ≤ ((text.drop start).takeWhile (· != '\n')).length := by
    have hpos := List.length_pos_of_ne_nil hnonempty
    rw [lineRest, List.length_drop] at hpos
    omega
  refine ⟨(text.drop start).dropWhile (· != '\n'), ?_, ?_⟩
  · calc
      text.drop (max offset start) = (text.drop start).drop (offset - start) := by
        rw [List.drop_drop]
        congr 1
        omega
      _ = ((text.drop start).takeWhile (· != '\n') ++
            (text.drop start).dropWhile (· != '\n')).drop (offset - start) := by
        rw [List.takeWhile_append_dropWhile]
      _ = lineRest text offset start ++ (text.drop start).dropWhile (· != '\n') := by
        rw [List.drop_append_of_le_length hdistance, lineRest]
  · cases hbehind : (text.drop start).dropWhile (· != '\n') with
    | nil => exact .inl rfl
    | cons c later =>
        have hc := List.head?_dropWhile_not (· != '\n') (text.drop start)
        rw [hbehind] at hc
        exact .inr ⟨later, by simpa using hc⟩

/-- What stands in the text from inside the rest of a line on is what stands in that rest
alone. -/
theorem standsAt_lineRest_iff (hdistance : distance < (lineRest text offset start).length) :
    StandsAt text (max offset start + distance) statement ↔
      StandsAt (lineRest text offset start) distance statement := by
  obtain ⟨behind, htext, hbehind⟩ :=
    exists_drop_eq_lineRest_append (List.ne_nil_of_length_pos (Nat.zero_lt_of_lt hdistance))
  rw [StandsAt, ← List.drop_drop, htext, List.drop_append_of_le_length (Nat.le_of_lt hdistance)]
  rcases hbehind with rfl | ⟨later, rfl⟩
  · rw [List.append_nil, StandsAt]
  · simp only [reads_append_newline_iff, StandsAt]
    constructor
    · rintro ⟨rest, rest', hreads, -⟩
      exact ⟨rest', hreads⟩
    · rintro ⟨rest, hreads⟩
      exact ⟨_, rest, hreads, rfl⟩

/-- A match lies in the rest of a line where a statement stands in that rest. -/
theorem liesInRest_iff :
    Match.LiesInRest text offset start ⟨max offset start + distance, statement⟩ ↔
      StandsAt (lineRest text offset start) distance statement := by
  have hlength := length_render statement
  constructor
  · rintro ⟨-, hstop, hstands⟩
    change max offset start + distance + statement.render.length ≤ _ at hstop
    exact (standsAt_lineRest_iff (by omega)).1 hstands
  · intro hstands
    have hle := hstands.add_length_le
    refine ⟨Nat.le_add_right _ _, ?_, (standsAt_lineRest_iff (by omega)).2 hstands⟩
    change max offset start + distance + statement.render.length ≤ _
    omega

theorem exists_liesInRest_iff :
    (∃ found, Match.LiesInRest text offset start found) ↔
      ∃ distance statement, StandsAt (lineRest text offset start) distance statement := by
  constructor
  · rintro ⟨⟨place, statement⟩, hlies⟩
    obtain ⟨distance, rfl⟩ := Nat.exists_eq_add_of_le hlies.le_start
    exact ⟨distance, statement, liesInRest_iff.1 hlies⟩
  · rintro ⟨distance, statement, hstands⟩
    exact ⟨_, liesInRest_iff.2 hstands⟩

/-- The leftmost match in the rest of a line begins at its first opening, and its bindings end
at the first clause behind that. -/
theorem exists_foundFrom_of_isLeast {first clause : Nat}
    (hfirst : IsLeast (openings (lineRest text offset start)) first)
    (hclause : IsLeast (clausesFrom (lineRest text offset start) (first + opening.length))
      clause) :
    ∃ found behind, FoundFrom text (max offset start) (found :: behind) ∧
      found.LiesInRest text offset start ∧ found.start = max offset start + first ∧
      found.start + opening.length + found.statement.bindings.length =
        max offset start + clause := by
  have hline := newline_notMem_lineRest text offset start
  obtain ⟨statement, hstands, rfl⟩ := (exists_standsAt_line_iff hline).2 ⟨hfirst.1, hclause.1⟩
  have hinside : first < (lineRest text offset start).length := by
    have hle := hstands.add_length_le
    have hlength := length_render statement
    omega
  refine ⟨⟨max offset start + first, statement⟩, _,
    .cons (Nat.le_add_right _ _) ((standsAt_lineRest_iff hinside).2 hstands) ?_ ?_
      ((foundFrom_scan_iff true).2 rfl), liesInRest_iff.2 hstands, rfl,
    by simp only [Nat.add_assoc]⟩
  · intro other hother
    have hother' := ((standsAt_lineRest_iff hinside).1 hother).opening_and_clause.2
    have hle := hclause.2 ⟨Nat.le_add_right _ _, hother'⟩
    exact Nat.le_of_add_le_add_left hle
  · intro earlier other hle hlt hother
    obtain ⟨distance, rfl⟩ := Nat.exists_eq_add_of_le hle
    have hbefore : distance < first := Nat.lt_of_add_lt_add_left hlt
    have hother' := (standsAt_lineRest_iff (hbefore.trans hinside)).1 hother
    exact absurd (hfirst.2 hother'.opening_and_clause.1) (Nat.not_le.2 hbefore)

/-- Where the first opening in the rest of a line has no clause behind it, the search may go on
behind the line. -/
theorem foundFrom_lineEnd_iff {first : Nat}
    (hfirst : IsLeast (openings (lineRest text offset start)) first)
    (hnone : ¬(clausesFrom (lineRest text offset start) (first + opening.length)).Nonempty)
    {found : List Match} :
    FoundFrom text (max offset start) found ↔
      FoundFrom text (max offset start + (lineRest text offset start).length) found := by
  apply foundFrom_skip_iff (Nat.le_add_right _ _)
  intro between statement hle hlt hstands
  obtain ⟨distance, rfl⟩ := Nat.exists_eq_add_of_le hle
  have hstands' := (standsAt_lineRest_iff (Nat.lt_of_add_lt_add_left hlt)).1 hstands
  have hclause := (exists_standsAt_iff_of_isLeast (newline_notMem_lineRest text offset start)
    hfirst).1 ⟨distance, statement, hstands'⟩
  exact hnone hclause

end LineRest

/-! ## The scan with and without abandoned lines -/

/-- The revision of a text that was scanned with or without abandoning lines. -/
def reviseScanned (abandon : Bool) (extension text : Text) : Revision :=
  let outline := Outline.scanFrom abandon false [] text
  { text := (outline.map (Statement.extend extension)).render
    changed := outline.statements.filter fun statement => !statement.carries extension }

theorem reviseScanned_eq (abandon : Bool) (extension text : Text) :
    reviseScanned abandon extension text = revise extension text := by
  rw [reviseScanned, Outline.scanFrom_eq_scanFrom abandon true]
  rfl

/-- In what is left of a line, from any offset on, a match lies just when a clause is completed
behind the first opening there.  The leftmost match then begins at that opening, and its
bindings end at the first such clause.  Where there is none, a search from the offset finds
what a search from the end of the line finds.  So a scan finds the same matches from every
offset whether or not it abandons such lines, and a revision is the same with both scans. -/
theorem match_begins_at_first_opening (text : Text) (offset start : Nat) :
    ((∃ found : Match, found.LiesInRest text offset start) ↔
        ∃ first, IsLeast (openings (lineRest text offset start)) first ∧
          (clausesFrom (lineRest text offset start) (first + "import ".length)).Nonempty) ∧
      (∀ first clause, IsLeast (openings (lineRest text offset start)) first →
        IsLeast (clausesFrom (lineRest text offset start) (first + "import ".length)) clause →
          ∃ found behind, FoundFrom text (max offset start) (found :: behind) ∧
            found.LiesInRest text offset start ∧ found.start = max offset start + first ∧
            found.start + "import ".length + found.statement.bindings.length =
              max offset start + clause) ∧
      (∀ first, IsLeast (openings (lineRest text offset start)) first →
        ¬(clausesFrom (lineRest text offset start) (first + "import ".length)).Nonempty →
          ∀ found, FoundFrom text (max offset start) found ↔
            FoundFrom text (max offset start + (lineRest text offset start).length) found) ∧
      (∀ abandon found, FoundFrom text offset found ↔
        found = matchesFrom offset
          (Outline.scanFrom abandon false [] (text.drop offset)).sections) ∧
      ∀ abandon extension, reviseScanned abandon extension text = revise extension text := by
  have hline := newline_notMem_lineRest text offset start
  refine ⟨?_, fun first clause => exists_foundFrom_of_isLeast,
    fun first hfirst hnone found => foundFrom_lineEnd_iff hfirst hnone,
    fun abandon found => foundFrom_scan_iff abandon,
    fun abandon extension => reviseScanned_eq abandon extension text⟩
  rw [exists_liesInRest_iff]
  constructor
  · rintro ⟨distance, statement, hstands⟩
    obtain ⟨first, hfirst⟩ := exists_isLeast_openings ⟨_, hstands.opening_and_clause.1⟩
    have hclause := (exists_standsAt_iff_of_isLeast hline hfirst).1 ⟨_, _, hstands⟩
    exact ⟨first, hfirst, hclause⟩
  · rintro ⟨first, hfirst, hclause⟩
    exact (exists_standsAt_iff_of_isLeast hline hfirst).2 hclause

/-- Three lines.  On the first, behind a whole statement, a second opening and a broken clause
stand between an opening and its clause.  On the second the clause is not completed. -/
def unevenLines : Text :=
  "import a from './a'; import b, import c from 'x' from './c';\n".toList ++
    "import d from './d'\nimport e from './e';".toList

/-- Behind the first statement the next match begins at the first of two openings and takes the
broken clause for bindings, and the second line may be skipped. -/
theorem match_begins_at_first_opening_unevenLines :
    (IsLeast (openings (lineRest unevenLines 20 0)) 1 ∧
      IsLeast (clausesFrom (lineRest unevenLines 20 0) (1 + "import ".length)) 28 ∧
      ∃ found behind, FoundFrom unevenLines 20 (found :: behind) ∧
        found.LiesInRest unevenLines 20 0 ∧ found.start = 21 ∧
        found.start + "import ".length + found.statement.bindings.length = 48) ∧
    IsLeast (openings (lineRest unevenLines 20 61)) 0 ∧
      ¬(clausesFrom (lineRest unevenLines 20 61) (0 + "import ".length)).Nonempty ∧
      ∀ found, FoundFrom unevenLines 61 found ↔ FoundFrom unevenLines 80 found := by
  have hfirst : IsLeast (openings (lineRest unevenLines 20 0)) 1 := by
    have hhere : opening <+: (lineRest unevenLines 20 0).drop 1 := by decide +kernel
    have hbefore : ∀ earlier < 1, ¬opening <+: (lineRest unevenLines 20 0).drop earlier := by
      decide +kernel
    exact ⟨hhere, fun position hopening =>
      Nat.le_of_not_lt fun hlt => hbefore position hlt hopening⟩
  have hclause : IsLeast (clausesFrom (lineRest unevenLines 20 0) (1 + opening.length)) 28 := by
    have hline := newline_notMem_lineRest unevenLines 20 0
    have hhere : StartsClause ((lineRest unevenLines 20 0).drop 28) := by decide +kernel
    have hbefore : ∀ earlier < 28, 1 + opening.length ≤ earlier →
        ¬StartsClause ((lineRest unevenLines 20 0).drop earlier) := by
      decide +kernel
    refine ⟨⟨by decide, (clauseAt_iff_startsClause hline).2 hhere⟩, ?_⟩
    rintro position ⟨hle, hclause⟩
    rw [clauseAt_iff_startsClause hline] at hclause
    exact Nat.le_of_not_lt fun hlt => hbefore position hlt hle hclause
  have hsecond : IsLeast (openings (lineRest unevenLines 20 61)) 0 := by
    have hhere : opening <+: (lineRest unevenLines 20 61).drop 0 := by decide +kernel
    exact ⟨hhere, fun _ _ => Nat.zero_le _⟩
  have hnone : ¬(clausesFrom (lineRest unevenLines 20 61) (0 + opening.length)).Nonempty := by
    have hline := newline_notMem_lineRest unevenLines 20 61
    have hclauseless : ∀ position < 19,
        ¬StartsClause ((lineRest unevenLines 20 61).drop position) := by
      decide +kernel
    rintro ⟨position, -, hclause⟩
    rw [clauseAt_iff_startsClause hline] at hclause
    rcases Nat.lt_or_ge position 19 with hlt | hge
    · exact hclauseless position hlt hclause
    · rw [List.drop_of_length_le (Nat.le_trans (by decide +kernel) hge)] at hclause
      exact absurd hclause (by decide)
  have hmatch := (match_begins_at_first_opening unevenLines 20 0).2.1 1 28 hfirst hclause
  have hskip := (match_begins_at_first_opening unevenLines 20 61).2.2.1 0 hsecond hnone
  exact ⟨⟨hfirst, hclause, hmatch⟩, hsecond, hnone, hskip⟩

end ImportSuffix

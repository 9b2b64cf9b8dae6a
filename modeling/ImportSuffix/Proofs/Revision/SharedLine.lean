import ImportSuffix.Extension
import ImportSuffix.Proofs.Revision.Parts
import ImportSuffix.Proofs.Statement.Clauseless

/-!
# Statements that share a line

Statements that name a module come in more shapes than the one that is read: the clause
may be missing, the quotes may be double, and `export` may stand for `import`.  Each of
these alone is left as it is.  On one line with others that is not so, because an opening
without a clause of its own takes the next clause on the line, whatever stands between:
behind an `import './a';` the specifier of an `export` is extended too.

`reviseLine` says what becomes of the statements of a line one by one, with no more than
one bit carried from each to the next.  The statements are revised as they are alone if
and only if no `export` without the extension stands behind such an opening
(`revise_line`).
-/

namespace ImportSuffix

open Statement

/-- A text without quotes and semicolons, on one line. -/
def IsBare (text : Text) : Prop :=
  ∀ c ∈ text, c ≠ '\'' ∧ c ≠ '"' ∧ c ≠ ';' ∧ c ≠ '\n'

instance (text : Text) : Decidable (IsBare text) :=
  List.decidableBAll (fun c => c ≠ '\'' ∧ c ≠ '"' ∧ c ≠ ';' ∧ c ≠ '\n') text

/-- A statement on one line that names a module. -/
inductive LineStatement where
  /-- An import with bindings, which is the shape that is read. -/
  | importFrom (bindings specifier : Text)
  /-- An import without bindings. -/
  | importOnly (specifier : Text)
  | importOnlyDouble (specifier : Text)
  /-- An import with bindings whose specifier is between double quotes. -/
  | importFromDouble (bindings specifier : Text)
  | exportFrom (bindings specifier : Text)
deriving DecidableEq, Repr

namespace LineStatement

def exportOpening : Text := ['e', 'x', 'p', 'o', 'r', 't', ' ']

def doubleQuoted (specifier : Text) : Text :=
  '"' :: specifier ++ ['"', ';']

def render : LineStatement → Text
  | importFrom bindings specifier => opening ++ bindings ++ fromQuote ++ specifier ++ closing
  | importOnly specifier => opening ++ '\'' :: (specifier ++ closing)
  | importOnlyDouble specifier => opening ++ doubleQuoted specifier
  | importFromDouble bindings specifier =>
      opening ++ bindings ++ fromWord ++ doubleQuoted specifier
  | exportFrom bindings specifier =>
      exportOpening ++ bindings ++ fromQuote ++ specifier ++ closing

/-- Bindings and specifier hold no quote and no semicolon, and no opening stands in the
bindings. -/
def Plain : LineStatement → Prop
  | importFrom bindings specifier => IsBare bindings ∧ ¬opening <:+: bindings ∧ IsBare specifier
  | importOnly specifier => IsBare specifier
  | importOnlyDouble specifier => IsBare specifier
  | importFromDouble bindings specifier =>
      IsBare bindings ∧ ¬opening <:+: bindings ∧ IsBare specifier
  | exportFrom bindings specifier => IsBare bindings ∧ ¬opening <:+: bindings ∧ IsBare specifier

instance : DecidablePred Plain
  | importFrom _ _ => inferInstanceAs (Decidable (_ ∧ _ ∧ _))
  | importOnly specifier => inferInstanceAs (Decidable (IsBare specifier))
  | importOnlyDouble specifier => inferInstanceAs (Decidable (IsBare specifier))
  | importFromDouble _ _ => inferInstanceAs (Decidable (_ ∧ _ ∧ _))
  | exportFrom _ _ => inferInstanceAs (Decidable (_ ∧ _ ∧ _))

/-- The statement after a revision; `isOpen` says whether an opening before it on the line
has no clause yet. -/
def revised (extension : Text) (isOpen : Bool) : LineStatement → LineStatement
  | importFrom bindings specifier =>
      importFrom bindings (extendSpecifier specifier extension)
  | exportFrom bindings specifier =>
      exportFrom bindings (if isOpen then extendSpecifier specifier extension else specifier)
  | statement => statement

/-- Whether an opening has no clause yet behind the statement. -/
def leavesOpen (isOpen : Bool) : LineStatement → Bool
  | importFrom _ _ => false
  | exportFrom bindings specifier =>
      !isOpen && decide (opening <:+: (exportFrom bindings specifier).render)
  | _ => true

end LineStatement

/-- Statements on one line, with single spaces between them. -/
def line (statements : List LineStatement) : Text :=
  [' '].intercalate (statements.map LineStatement.render)

def reviseLine (extension : Text) (isOpen : Bool) : List LineStatement → List LineStatement
  | [] => []
  | statement :: rest =>
      statement.revised extension isOpen ::
        reviseLine extension (statement.leavesOpen isOpen) rest

/-- Whether an opening has no clause yet behind some statements of a line. -/
def openAfter (statements : List LineStatement) : Bool :=
  statements.foldl LineStatement.leavesOpen false

/-! ## Bare text -/

theorem IsBare.quote_notMem {text : Text} (hbare : IsBare text) : '\'' ∉ text :=
  fun hmem => (hbare _ hmem).1 rfl

theorem IsBare.semicolon_notMem {text : Text} (hbare : IsBare text) : ';' ∉ text :=
  fun hmem => (hbare _ hmem).2.2.1 rfl

theorem IsBare.newline_notMem {text : Text} (hbare : IsBare text) : '\n' ∉ text :=
  fun hmem => (hbare _ hmem).2.2.2 rfl

theorem IsBare.unquoted {text : Text} (hbare : IsBare text) : Unquoted text :=
  fun c hmem => ⟨(hbare c hmem).1, (hbare c hmem).2.2.2⟩

namespace LineStatement

variable {statement : LineStatement} {bindings specifier : Text}

theorem Plain.newline_notMem_render (hplain : statement.Plain) : '\n' ∉ statement.render := by
  cases statement with
  | importFrom bindings specifier =>
      obtain ⟨hbindings, -, hspecifier⟩ := hplain
      simp [render, opening, fromQuote, closing, hbindings.newline_notMem,
        hspecifier.newline_notMem]
  | importOnly specifier =>
      have hspecifier : '\n' ∉ specifier := IsBare.newline_notMem hplain
      simp [render, opening, closing, hspecifier]
  | importOnlyDouble specifier =>
      have hspecifier : '\n' ∉ specifier := IsBare.newline_notMem hplain
      simp [render, opening, doubleQuoted, hspecifier]
  | importFromDouble bindings specifier =>
      obtain ⟨hbindings, -, hspecifier⟩ := hplain
      simp [render, opening, fromWord, doubleQuoted, hbindings.newline_notMem,
        hspecifier.newline_notMem]
  | exportFrom bindings specifier =>
      obtain ⟨hbindings, -, hspecifier⟩ := hplain
      simp [render, exportOpening, fromQuote, closing, hbindings.newline_notMem,
        hspecifier.newline_notMem]

/-! ## Statements without a clause -/

theorem not_fromWord_isSuffix_opening (before : Text) :
    ¬fromWord <:+ before ++ ' ' :: opening := by
  intro hsuffix
  have hopening := List.suffix_of_suffix_length_le hsuffix
    (List.suffix_append before (' ' :: opening)) (by decide)
  exact absurd hopening (by decide)

/-- An import without a clause keeps the text behind it guarded. -/
theorem guarded_of_leavesOpen (hplain : statement.Plain)
    (hopen : statement.leavesOpen true = true) {behind : Text} (hguarded : Guarded behind) :
    Guarded (' ' :: statement.render ++ behind) := by
  cases statement with
  | importFrom bindings specifier => contradiction
  | importOnly specifier =>
      have hspecifier : IsBare specifier := hplain
      have hquoted := hguarded.quoted (by decide : '\'' ∉ ' ' :: opening)
        not_fromWord_isSuffix_opening hspecifier.quote_notMem hspecifier.semicolon_notMem
      simpa [render] using hquoted
  | importOnlyDouble specifier =>
      have hspecifier : '\'' ∉ specifier := IsBare.quote_notMem hplain
      exact hguarded.append (by simp [render, opening, doubleQuoted, hspecifier])
  | importFromDouble bindings specifier =>
      obtain ⟨hbindings, -, hspecifier⟩ := hplain
      exact hguarded.append (by simp [render, opening, fromWord, doubleQuoted,
        hbindings.quote_notMem, hspecifier.quote_notMem])
  | exportFrom bindings specifier => contradiction

theorem opening_isPrefix_of_leavesOpen (hopen : statement.leavesOpen true = true) :
    opening <+: statement.render := by
  cases statement with
  | importFrom bindings specifier => contradiction
  | importOnly specifier => exact List.prefix_append _ _
  | importOnlyDouble specifier => exact List.prefix_append _ _
  | importFromDouble bindings specifier =>
      exact ⟨bindings ++ fromWord ++ doubleQuoted specifier, by simp [render]⟩
  | exportFrom bindings specifier => contradiction

/-- No opening stands in an export as far as its bindings go. -/
theorem not_opening_in_export (hbindings : ¬opening <:+: bindings) {gap body : Text} :
    exportOpening ++ bindings ≠ gap ++ (opening ++ body) := by
  intro heq
  rcases List.append_eq_append_iff.1 heq with ⟨seam, -, hover⟩ | ⟨seam, hover, hbody⟩
  · exact hbindings ⟨seam, body, by simp [hover]⟩
  · cases seam with
    | nil => exact hbindings ⟨[], body, by simpa using hbody⟩
    | cons c seam =>
        obtain rfl : 'i' = c := (List.cons.inj hbody).1
        have hmem : 'i' ∈ exportOpening := by simp [hover]
        exact absurd hmem (by decide)

/-- An opening in an export stands in the last letters of its bindings and the space behind
them, or in its specifier. -/
theorem isSuffix_of_opening_in_export (hplain : (exportFrom bindings specifier).Plain)
    {gap body : Text}
    (hrender : (exportFrom bindings specifier).render = gap ++ (opening ++ body)) :
    body <:+ fromWord.tail ++ '\'' :: (specifier ++ closing) := by
  have hparts : (exportOpening ++ bindings ++ [' ']) ++
      (fromWord.tail ++ '\'' :: (specifier ++ closing)) = gap ++ (opening ++ body) := by
    rw [← hrender]
    simp [render, fromWord, fromQuote]
  rcases List.append_eq_append_iff.1 hparts with ⟨seam, -, hbehind⟩ | ⟨seam, hfront, hbody⟩
  · exact ⟨seam ++ opening, by simp [hbehind]⟩
  rcases List.append_eq_append_iff.1 hbody with ⟨seam', rfl, hbehind⟩ | ⟨seam', -, hbehind⟩
  · obtain rfl | ⟨inner, c, rfl⟩ := List.eq_nil_or_concat' seam'
    · exact ⟨[], hbehind⟩
    · -- The whole opening stands in `export` and the bindings.
      rw [← List.append_assoc, ← List.append_assoc] at hfront
      have hinside := (List.append_inj' hfront rfl).1
      rw [List.append_assoc] at hinside
      exact absurd hinside (not_opening_in_export hplain.2.1)
  · exact ⟨seam', hbehind.symm⟩

theorem pending_of_opening_in_export (hplain : (exportFrom bindings specifier).Plain)
    {gap body : Text}
    (hrender : (exportFrom bindings specifier).render = gap ++ (opening ++ body)) :
    Pending body := by
  have hspecifier := hplain.2.2
  have hpending : Pending (fromWord.tail ++ '\'' :: (specifier ++ closing)) := by
    intro behind hbehind
    rw [List.append_assoc, List.cons_append]
    apply clauseless_append_quote (by decide) (hbehind.clauseless_quoted hspecifier.quote_notMem)
    exact fun hsuffix => absurd hsuffix (by decide)
  exact hpending.of_isSuffix (isSuffix_of_opening_in_export hplain hrender)

/-- A first opening in the statement, with pending text behind it. -/
structure OpensWith (statement : LineStatement) (gap body : Text) : Prop where
  render_eq : statement.render = gap ++ (opening ++ body)
  quiet : ∀ behind, Outline.Quiet gap (opening ++ body ++ behind)
  newline_notMem : '\n' ∉ body
  pending : Pending body

theorem exists_opensWith_of_import (hplain : statement.Plain)
    (hopen : statement.leavesOpen true = true) : ∃ body, statement.OpensWith [] body := by
  obtain ⟨body, hbody⟩ := opening_isPrefix_of_leavesOpen hopen
  have hline := hplain.newline_notMem_render
  rw [← hbody, List.mem_append, not_or] at hline
  refine ⟨body, hbody.symm, fun _ => Outline.quiet_nil _, hline.2, ?_⟩
  intro behind hbehind
  apply (guarded_of_leavesOpen hplain hopen hbehind).clauseless.of_isSuffix
  exact ⟨' ' :: opening, by simp [← hbody]⟩

/-- A statement that leaves an opening without a clause has nothing but pending text behind
the first one. -/
theorem exists_opensWith (hplain : statement.Plain) (hopen : statement.leavesOpen false = true) :
    ∃ gap body, statement.OpensWith gap body := by
  cases statement with
  | importFrom bindings specifier => contradiction
  | importOnly specifier => exact ⟨[], exists_opensWith_of_import hplain rfl⟩
  | importOnlyDouble specifier => exact ⟨[], exists_opensWith_of_import hplain rfl⟩
  | importFromDouble bindings specifier => exact ⟨[], exists_opensWith_of_import hplain rfl⟩
  | exportFrom bindings specifier =>
      have hopening : opening <:+: (exportFrom bindings specifier).render := by
        simpa [leavesOpen] using hopen
      obtain ⟨gap, body, hrender, hquiet⟩ := exists_first_opening hopening
      have hline := hplain.newline_notMem_render
      rw [hrender] at hline
      refine ⟨gap, body, hrender, hquiet, ?_, pending_of_opening_in_export hplain hrender⟩
      exact fun hmem => hline (by simp [hmem])

theorem revised_of_leavesOpen {isOpen : Bool} (hopen : statement.leavesOpen isOpen = true)
    (extension : Text) : statement.revised extension isOpen = statement := by
  cases statement with
  | importFrom bindings specifier => contradiction
  | importOnly specifier => rfl
  | importOnlyDouble specifier => rfl
  | importFromDouble bindings specifier => rfl
  | exportFrom bindings specifier =>
      have hclosed : isOpen = false := by
        cases isOpen with
        | false => rfl
        | true => contradiction
      simp [revised, hclosed]

end LineStatement

/-! ## Lines -/

section Lines

variable {extension : Text} {statements : List LineStatement}

def spaced (statements : List LineStatement) : Text :=
  statements.flatMap fun statement => ' ' :: statement.render

@[simp]
theorem spaced_nil : spaced [] = [] := rfl

@[simp]
theorem spaced_cons (statement : LineStatement) (rest : List LineStatement) :
    spaced (statement :: rest) = ' ' :: statement.render ++ spaced rest := rfl

theorem spaced_eq_cons_line (hne : statements ≠ []) :
    spaced statements = ' ' :: line statements := by
  induction statements with
  | nil => contradiction
  | cons statement rest ih =>
      cases rest with
      | nil => simp [line]
      | cons next rest =>
          rw [spaced_cons, ih (by simp)]
          simp [line]

theorem quiet_space {gap behind : Text} (hquiet : Outline.Quiet gap behind) :
    Outline.Quiet (' ' :: gap) behind := by
  intro tail htail hne hreadable
  rcases List.suffix_cons_iff.1 htail with rfl | htail
  · have hleads := opening_isPrefix_of_readable hreadable
    rw [List.cons_append, opening, List.cons_prefix_cons] at hleads
    exact absurd hleads.1 (by decide)
  · exact hquiet tail htail hne hreadable

/-- An opening with pending text behind it takes the next clause: its specifier is
extended. -/
theorem revise_pending_clause {body word specifier : Text} (hline : '\n' ∉ body)
    (hpending : Pending body) (hword : Unquoted word) (hspecifier : IsBare specifier)
    (rest : Text) :
    (revise extension (opening ++ body ++ (word ++ fromQuote ++ specifier ++ closing) ++ rest)).text =
      opening ++ body ++ (word ++ fromQuote ++ extendSpecifier specifier extension ++ closing) ++
        (revise extension rest).text := by
  have hlegible : Statement.Legible ⟨body ++ word, specifier⟩ := by
    refine ⟨by simp [hline, hword.newline_notMem], hspecifier.unquoted, ?_, ?_⟩
    · intro tail htail _
      exact hpending.clauseless_append hword.quote_notMem tail htail
    · intro hsemicolon
      have hmem : ';' ∈ specifier := List.mem_of_head? hsemicolon
      exact absurd hmem hspecifier.semicolon_notMem
  have hrevise := @revise_render_append extension rest _ hlegible
  rw [extend_eq] at hrevise
  simpa [Statement.render] using hrevise

/-- Behind no opening, a statement that leaves none is revised as it is alone. -/
theorem revise_closed_append {statement : LineStatement} (hplain : statement.Plain)
    (hclosed : statement.leavesOpen false = false) (rest : Text) :
    (revise extension (' ' :: statement.render ++ rest)).text =
      ' ' :: (statement.revised extension false).render ++ (revise extension rest).text := by
  cases statement with
  | importFrom bindings specifier =>
      obtain ⟨hbindings, -, hspecifier⟩ := hplain
      have hpending : Pending [] := fun _ hguarded => hguarded.clauseless
      have hclause := @revise_pending_clause extension [] _ _ List.not_mem_nil hpending
        hbindings.unquoted hspecifier rest
      have hrevise := @revise_append_of_quiet extension _
        (opening ++ [] ++ (bindings ++ fromQuote ++ specifier ++ closing) ++ rest)
        (quiet_space (Outline.quiet_nil _))
      rw [hclause] at hrevise
      simpa [LineStatement.render, LineStatement.revised] using hrevise
  | importOnly specifier => contradiction
  | importOnlyDouble specifier => contradiction
  | importFromDouble bindings specifier => contradiction
  | exportFrom bindings specifier =>
      have hopening : ¬opening <:+: (LineStatement.exportFrom bindings specifier).render := by
        simpa [LineStatement.leavesOpen] using hclosed
      have hlast : (LineStatement.exportFrom bindings specifier).render =
          LineStatement.exportOpening ++ bindings ++ fromQuote ++ specifier ++ ['\''] ++ [';'] := by
        simp [LineStatement.render, closing]
      have hquiet : Outline.Quiet (LineStatement.exportFrom bindings specifier).render rest := by
        rw [hlast] at hopening ⊢
        exact quiet_of_not_opening (by decide) hopening
      exact revise_append_of_quiet (quiet_space hquiet)

/-- Behind an opening without a clause, a statement with a clause is extended. -/
theorem revise_open_append {statement : LineStatement} (hplain : statement.Plain)
    (hclosed : statement.leavesOpen true = false) {body : Text} (hline : '\n' ∉ body)
    (hpending : Pending body) (rest : Text) :
    (revise extension (opening ++ body ++ (' ' :: statement.render ++ rest))).text =
      opening ++ body ++ (' ' :: (statement.revised extension true).render ++
        (revise extension rest).text) := by
  cases statement with
  | importFrom bindings specifier =>
      obtain ⟨hbindings, -, hspecifier⟩ := hplain
      have hword : Unquoted (' ' :: opening ++ bindings) := by
        simp [opening, hbindings.unquoted]
      have hrevise := @revise_pending_clause extension _ _ _ hline hpending hword hspecifier rest
      simpa [LineStatement.render, LineStatement.revised] using hrevise
  | importOnly specifier => contradiction
  | importOnlyDouble specifier => contradiction
  | importFromDouble bindings specifier => contradiction
  | exportFrom bindings specifier =>
      obtain ⟨hbindings, -, hspecifier⟩ := hplain
      have hword : Unquoted (' ' :: LineStatement.exportOpening ++ bindings) := by
        simp [LineStatement.exportOpening, hbindings.unquoted]
      have hrevise := @revise_pending_clause extension _ _ _ hline hpending hword hspecifier rest
      simpa [LineStatement.render, LineStatement.revised] using hrevise

/-- A revision does with the statements of a line what `reviseLine` says, behind an opening
without a clause as well as behind none. -/
theorem revise_spaced (hplain : ∀ statement ∈ statements, statement.Plain) :
    (revise extension (spaced statements)).text =
        spaced (reviseLine extension false statements) ∧
      ∀ body, '\n' ∉ body → Pending body →
        (revise extension (opening ++ body ++ spaced statements)).text =
          opening ++ body ++ spaced (reviseLine extension true statements) := by
  induction statements with
  | nil =>
      refine ⟨revise_nil extension, fun body hline hpending => ?_⟩
      simp only [spaced_nil, reviseLine, List.append_nil]
      apply revise_of_quiet
      apply quiet_opening_append hline
      simpa using hpending.clauseless_append List.not_mem_nil
  | cons statement rest ih =>
      obtain ⟨hfirst, hrest⟩ := List.forall_mem_cons.1 hplain
      obtain ⟨ihclosed, ihopen⟩ := ih hrest
      constructor
      · rw [reviseLine, spaced_cons, spaced_cons]
        cases hopen : statement.leavesOpen false with
        | true =>
            obtain ⟨gap, body, hopens⟩ := LineStatement.exists_opensWith hfirst hopen
            have hrevise := @revise_append_of_quiet extension _ _
              (quiet_space (hopens.quiet (spaced rest)))
            rw [ihopen body hopens.newline_notMem hopens.pending] at hrevise
            rw [LineStatement.revised_of_leavesOpen hopen, hopens.render_eq]
            simpa using hrevise
        | false => rw [revise_closed_append hfirst hopen, ihclosed]
      · intro body hline hpending
        rw [reviseLine, spaced_cons, spaced_cons]
        cases hopen : statement.leavesOpen true with
        | true =>
            have hrevise := ihopen (body ++ ' ' :: statement.render)
              (by simp [hline, hfirst.newline_notMem_render])
              (hpending.append fun _ => LineStatement.guarded_of_leavesOpen hfirst hopen)
            rw [LineStatement.revised_of_leavesOpen hopen]
            simpa using hrevise
        | false => rw [revise_open_append hfirst hopen hline hpending, ihclosed]

theorem text_revise_line (hplain : ∀ statement ∈ statements, statement.Plain) :
    (revise extension (line statements)).text = line (reviseLine extension false statements) := by
  cases statements with
  | nil => exact revise_nil extension
  | cons statement rest =>
      have hrevise := (@revise_spaced extension _ hplain).1
      have hspace := @revise_append_of_quiet extension [' '] (line (statement :: rest))
        (quiet_space (Outline.quiet_nil _))
      rw [spaced_eq_cons_line (by simp), spaced_eq_cons_line (by simp [reviseLine])] at hrevise
      exact (List.cons.inj (hspace.symm.trans hrevise)).2

/-! ## Line by line and one by one -/

theorem text_revise_render {statement : LineStatement} (hplain : statement.Plain) :
    (revise extension statement.render).text = (statement.revised extension false).render := by
  have hrevise := @text_revise_line extension [statement] (by simpa using hplain)
  simpa [line, reviseLine] using hrevise

theorem length_extendSpecifier (specifier extension : Text) :
    specifier.length ≤ (extendSpecifier specifier extension).length ∧
      ((extendSpecifier specifier extension).length = specifier.length ↔
        dotted extension <:+ specifier) := by
  rw [extendSpecifier]
  split
  next hcarries => simp [hcarries]
  next hlacks => simpa [dotted] using hlacks

/-- A statement is no shorter behind an opening than behind none, and it is the same unless
it is an export without the extension. -/
theorem length_revised (statement : LineStatement) (isOpen : Bool) :
    (statement.revised extension false).render.length ≤
        (statement.revised extension isOpen).render.length ∧
      ((statement.revised extension isOpen).render.length =
          (statement.revised extension false).render.length →
        ∀ bindings specifier, statement = .exportFrom bindings specifier → isOpen = true →
          dotted extension <:+ specifier) := by
  cases statement with
  | exportFrom bindings specifier =>
      cases isOpen with
      | false => simp
      | true =>
          have hlength := length_extendSpecifier specifier extension
          simpa [LineStatement.revised, LineStatement.render] using hlength.imp_right Iff.mp
  | importFrom bindings specifier => simp [LineStatement.revised]
  | importOnly specifier => simp [LineStatement.revised]
  | importOnlyDouble specifier => simp [LineStatement.revised]
  | importFromDouble bindings specifier => simp [LineStatement.revised]

theorem revised_eq_of_carries {statement : LineStatement} {isOpen : Bool}
    (hcarries : ∀ bindings specifier, statement = .exportFrom bindings specifier →
      isOpen = true → dotted extension <:+ specifier) :
    statement.revised extension isOpen = statement.revised extension false := by
  cases statement with
  | exportFrom bindings specifier =>
      cases isOpen with
      | false => rfl
      | true =>
          have hsuffix := hcarries bindings specifier rfl rfl
          simp [LineStatement.revised, extendSpecifier, hsuffix]
  | importFrom bindings specifier => rfl
  | importOnly specifier => rfl
  | importOnlyDouble specifier => rfl
  | importFromDouble bindings specifier => rfl

/-- No export without the extension stands behind an opening that has no clause before it;
`isOpen` says whether there is one before the line. -/
def ExportsCarry (extension : Text) (isOpen : Bool) (statements : List LineStatement) : Prop :=
  ∀ before bindings specifier after,
    statements = before ++ .exportFrom bindings specifier :: after →
      before.foldl LineStatement.leavesOpen isOpen = true → dotted extension <:+ specifier

theorem exportsCarry_cons_iff {statement : LineStatement} {isOpen : Bool} :
    ExportsCarry extension isOpen (statement :: statements) ↔
      (∀ bindings specifier, statement = .exportFrom bindings specifier → isOpen = true →
        dotted extension <:+ specifier) ∧
      ExportsCarry extension (statement.leavesOpen isOpen) statements := by
  constructor
  · intro hcarry
    refine ⟨fun bindings specifier hfirst hopen => ?_,
      fun before bindings specifier after hrest hopen => ?_⟩
    · exact hcarry [] bindings specifier statements (by rw [hfirst]; rfl) hopen
    · exact hcarry (statement :: before) bindings specifier after (by rw [hrest]; rfl) hopen
  · rintro ⟨hfirst, hrest⟩ before bindings specifier after heq hopen
    cases before with
    | nil => exact hfirst bindings specifier (List.cons.inj heq).1 hopen
    | cons first before =>
        obtain ⟨rfl, htail⟩ := List.cons.inj heq
        exact hrest before bindings specifier after htail hopen

/-- What is added behind openings makes a line longer. -/
theorem length_reviseLine (statements : List LineStatement) (isOpen : Bool) :
    (spaced (statements.map (LineStatement.revised extension false))).length ≤
        (spaced (reviseLine extension isOpen statements)).length ∧
      ((spaced (reviseLine extension isOpen statements)).length =
          (spaced (statements.map (LineStatement.revised extension false))).length →
        ExportsCarry extension isOpen statements) := by
  induction statements generalizing isOpen with
  | nil => simp [reviseLine, ExportsCarry]
  | cons statement rest ih =>
      obtain ⟨hle, hcarry⟩ := ih (statement.leavesOpen isOpen)
      obtain ⟨hfirst, hcarries⟩ := @length_revised extension statement isOpen
      simp only [reviseLine, List.map_cons, spaced_cons, List.length_append, List.length_cons]
      refine ⟨by omega, fun heq => ?_⟩
      exact exportsCarry_cons_iff.2 ⟨hcarries (by omega), hcarry (by omega)⟩

theorem reviseLine_of_exportsCarry {isOpen : Bool}
    (hcarry : ExportsCarry extension isOpen statements) :
    reviseLine extension isOpen statements =
      statements.map (LineStatement.revised extension false) := by
  induction statements generalizing isOpen with
  | nil => rfl
  | cons statement rest ih =>
      obtain ⟨hfirst, hrest⟩ := exportsCarry_cons_iff.1 hcarry
      rw [reviseLine, List.map_cons, revised_eq_of_carries hfirst, ih hrest]

theorem line_reviseLine_eq_iff :
    line (reviseLine extension false statements) =
        line (statements.map (LineStatement.revised extension false)) ↔
      ExportsCarry extension false statements := by
  constructor
  · intro heq
    apply (@length_reviseLine extension statements false).2
    cases statements with
    | nil => rfl
    | cons statement rest =>
        rw [spaced_eq_cons_line (by simp [reviseLine]), spaced_eq_cons_line (by simp), heq]
  · intro hcarry
    rw [reviseLine_of_exportsCarry hcarry]

end Lines

/-- A revision of a line makes of its statements what `reviseLine` says.  Alone, an import
with bindings and single quotes is extended and every other statement is kept.  So the line
is revised statement by statement if and only if every export that stands behind an opening
without a clause has the extension. -/
theorem revise_line (extension : Text) {statements : List LineStatement}
    (hplain : ∀ statement ∈ statements, statement.Plain) :
    (revise extension (line statements)).text = line (reviseLine extension false statements) ∧
      (∀ statement ∈ statements,
        (revise extension statement.render).text = (statement.revised extension false).render) ∧
      ((revise extension (line statements)).text =
          [' '].intercalate (statements.map fun statement =>
            (revise extension statement.render).text) ↔
        ∀ before bindings specifier after,
          statements = before ++ .exportFrom bindings specifier :: after →
            openAfter before = true → dotted extension <:+ specifier) := by
  have halone : ∀ statement ∈ statements,
      (revise extension statement.render).text = (statement.revised extension false).render :=
    fun statement hmem => text_revise_render (hplain statement hmem)
  have hjoined : [' '].intercalate (statements.map fun statement =>
      (revise extension statement.render).text) =
        line (statements.map (LineStatement.revised extension false)) := by
    rw [line, List.map_map, List.map_congr_left halone]
    rfl
  refine ⟨text_revise_line hplain, halone, ?_⟩
  rw [text_revise_line hplain, hjoined]
  exact line_reviseLine_eq_iff

/-- An import with bindings keeps an opening before it from an export behind it. -/
def sideThenBoth : List LineStatement :=
  [.importOnly "./side".toList, .importFrom "a".toList "./a".toList,
    .exportFrom "{ x }".toList "./x".toList]

/-- The export is kept as it is alone, though an opening without a clause begins the line. -/
theorem revise_line_sideThenBoth :
    (∀ statement ∈ sideThenBoth, statement.Plain) ∧
      line sideThenBoth = "import './side'; import a from './a'; export { x } from './x';".toList ∧
      (revise "js".toList (line sideThenBoth)).text =
        "import './side'; import a from './a.js'; export { x } from './x';".toList := by
  have hplain : ∀ statement ∈ sideThenBoth, statement.Plain := by decide
  have hrevise := (revise_line "js".toList hplain).1
  exact ⟨hplain, by decide, hrevise.trans (by decide)⟩

/-- An import without bindings, and an export behind it. -/
def sideThenExport : List LineStatement :=
  [.importOnly "./side".toList, .exportFrom "{ x }".toList "./x".toList]

/-- The export takes part in what is read from the opening before it, and is extended, which
it is not alone. -/
theorem not_one_by_one_sideThenExport :
    (∀ statement ∈ sideThenExport, statement.Plain) ∧
      Extension.normalize? "js".toList = some "js".toList ∧
      line sideThenExport = "import './side'; export { x } from './x';".toList ∧
      (revise "js".toList (line sideThenExport)).text =
        "import './side'; export { x } from './x.js';".toList ∧
      (revise "js".toList (line sideThenExport)).text ≠
        [' '].intercalate (sideThenExport.map fun statement =>
          (revise "js".toList statement.render).text) := by
  have hline : (revise "js".toList (line sideThenExport)).text =
      "import './side'; export { x } from './x.js';".toList := by cbv
  have halone : [' '].intercalate (sideThenExport.map fun statement =>
      (revise "js".toList statement.render).text) =
        "import './side'; export { x } from './x';".toList := by cbv
  refine ⟨by decide, by decide, by decide, hline, ?_⟩
  rw [hline, halone]
  decide

end ImportSuffix

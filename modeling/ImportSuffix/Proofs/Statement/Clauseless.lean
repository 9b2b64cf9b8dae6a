import ImportSuffix.Proofs.Statement.Leftmost
import Mathlib.Data.List.Infix

/-!
# Text without a clause

A clause runs from one single quote to the next, with ` from ` before the first and a
semicolon behind the second.  So whether one stands in a text is settled quote by quote
(`clauseless_append_quote`): no clause begins where something else than ` from ` comes
before a quote, and none ends where the next quote has no semicolon behind it.

`Guarded` is what a text must be for no clause to begin before it that ends in it, and
`Pending` what comes before such texts.  An opening with only pending text behind it goes
on to the clause that comes next.
-/

namespace ImportSuffix.Statement

def Clauseless (text : Text) : Prop :=
  ∀ tail, tail <:+ text → ¬StartsClause tail

/-- The text goes on, inside a specifier, to the quote and semicolon that end it. -/
def Closes (text : Text) : Prop :=
  ∃ specifier rest, Unquoted specifier ∧ text = specifier ++ closing ++ rest

theorem Clauseless.of_isSuffix {text tail : Text} (hclauseless : Clauseless text)
    (htail : tail <:+ text) : Clauseless tail :=
  fun tail' htail' => hclauseless tail' (htail'.trans htail)

theorem quote_mem_of_startsClause {text : Text} (hstarts : StartsClause text) : '\'' ∈ text := by
  obtain ⟨specifier, rest, -, rfl⟩ := hstarts
  simp [fromQuote]

theorem clauseless_of_quote_notMem {text : Text} (hquote : '\'' ∉ text) : Clauseless text := by
  intro tail htail hstarts
  exact hquote (htail.subset (quote_mem_of_startsClause hstarts))

theorem not_closes_of_quote_notMem {text : Text} (hquote : '\'' ∉ text) : ¬Closes text := by
  rintro ⟨specifier, rest, -, rfl⟩
  simp [closing] at hquote

/-- A clause at a quote has ` from ` before the quote and goes on to its end behind it. -/
theorem startsClause_append_quote_iff {front behind : Text} (hfront : '\'' ∉ front) :
    StartsClause (front ++ '\'' :: behind) ↔ front = fromWord ∧ Closes behind := by
  constructor
  · rintro ⟨specifier, rest, hunquoted, heq⟩
    simp only [List.append_assoc, fromQuote_append] at heq
    obtain ⟨rfl, rfl⟩ :=
      append_cons_inj_of_notMem hfront unquoted_fromWord.quote_notMem heq
    exact ⟨rfl, specifier, rest, hunquoted, by simp⟩
  · rintro ⟨rfl, specifier, rest, hunquoted, rfl⟩
    exact ⟨specifier, rest, hunquoted, by simp [fromQuote_append]⟩

/-- No clause stands around a quote if there is none behind it and the quote itself begins
none. -/
theorem clauseless_append_quote {front behind : Text} (hfront : '\'' ∉ front)
    (hbehind : Clauseless behind) (hquote : fromWord <:+ front → ¬Closes behind) :
    Clauseless (front ++ '\'' :: behind) := by
  intro tail htail hstarts
  rcases List.suffix_or_suffix_of_suffix htail (List.suffix_append front ('\'' :: behind)) with
    hquoted | ⟨front', rfl⟩
  · rcases List.suffix_cons_iff.1 hquoted with rfl | hbehind'
    · have hempty := ((startsClause_append_quote_iff List.not_mem_nil).1 hstarts).1
      contradiction
    · exact hbehind tail hbehind' hstarts
  · have hfront' : front' <:+ front := (List.suffix_append_self_iff).1 htail
    have hnot : '\'' ∉ front' := fun hmem => hfront (hfront'.subset hmem)
    obtain ⟨rfl, hcloses⟩ := (startsClause_append_quote_iff hnot).1 hstarts
    exact hquote hfront' hcloses

/-- What is behind the quote that follows decides whether a specifier ends there. -/
theorem closes_append_quote_iff {front behind : Text} (hfront : '\'' ∉ front) :
    Closes (front ++ '\'' :: behind) ↔ Unquoted front ∧ behind.head? = some ';' := by
  constructor
  · rintro ⟨specifier, rest, hunquoted, heq⟩
    simp only [List.append_assoc, closing_append] at heq
    obtain ⟨rfl, rfl⟩ := append_cons_inj_of_notMem hfront hunquoted.quote_notMem heq
    exact ⟨hunquoted, rfl⟩
  · rintro ⟨hunquoted, hhead⟩
    obtain ⟨rest, rfl⟩ := List.head?_eq_some_iff.1 hhead
    exact ⟨front, rest, hunquoted, by simp [closing_append]⟩

/-- Whatever unquoted text stands before it, there is no clause in the text, and no
specifier that begins before it ends in it. -/
def Guarded (text : Text) : Prop :=
  ∀ front, '\'' ∉ front → Clauseless (front ++ text) ∧ ¬Closes (front ++ text)

theorem guarded_of_quote_notMem {text : Text} (hquote : '\'' ∉ text) : Guarded text := by
  intro front hfront
  have hnot : '\'' ∉ front ++ text := by simp [hfront, hquote]
  exact ⟨clauseless_of_quote_notMem hnot, not_closes_of_quote_notMem hnot⟩

theorem Guarded.append {front text : Text} (hguarded : Guarded text) (hfront : '\'' ∉ front) :
    Guarded (front ++ text) := by
  intro front' hfront'
  rw [← List.append_assoc]
  exact hguarded (front' ++ front) (by simp [hfront, hfront'])

theorem Guarded.clauseless {text : Text} (hguarded : Guarded text) : Clauseless text :=
  (hguarded [] List.not_mem_nil).1

/-- A quoted text in front of a guarded one holds no clause behind its first quote. -/
theorem Guarded.clauseless_quoted {specifier text : Text} (hguarded : Guarded text)
    (hspecifier : '\'' ∉ specifier) : Clauseless (specifier ++ closing ++ text) := by
  obtain ⟨hclauseless, hcloses⟩ := hguarded [';'] (by simp)
  rw [List.append_assoc, closing_append]
  exact clauseless_append_quote hspecifier hclauseless fun _ => hcloses

/-- Quoted text in front of a guarded one leaves it guarded, unless ` from ` comes before
it. -/
theorem Guarded.quoted {front specifier text : Text} (hguarded : Guarded text)
    (hfront : '\'' ∉ front) (hword : ∀ before, ¬fromWord <:+ before ++ front)
    (hspecifier : '\'' ∉ specifier) (hsemicolon : ';' ∉ specifier) :
    Guarded (front ++ '\'' :: (specifier ++ closing ++ text)) := by
  intro before hbefore
  have hnot : '\'' ∉ before ++ front := by simp [hbefore, hfront]
  rw [← List.append_assoc]
  constructor
  · apply clauseless_append_quote hnot (hguarded.clauseless_quoted hspecifier)
    exact fun hsuffix => absurd hsuffix (hword before)
  · rw [closes_append_quote_iff hnot]
    rintro ⟨-, hhead⟩
    cases specifier with
    | nil => simp [closing] at hhead
    | cons c specifier =>
        obtain rfl : c = ';' := by simpa using hhead
        exact hsemicolon List.mem_cons_self

/-- There is no clause in the text, with whatever guarded text behind it. -/
def Pending (text : Text) : Prop :=
  ∀ behind, Guarded behind → Clauseless (text ++ behind)

theorem Pending.append {text piece : Text} (hpending : Pending text)
    (hpiece : ∀ behind, Guarded behind → Guarded (piece ++ behind)) : Pending (text ++ piece) := by
  intro behind hbehind
  rw [List.append_assoc]
  exact hpending (piece ++ behind) (hpiece behind hbehind)

theorem Pending.of_isSuffix {text tail : Text} (hpending : Pending text) (htail : tail <:+ text) :
    Pending tail := by
  intro behind hbehind
  obtain ⟨front, rfl⟩ := htail
  exact (hpending behind hbehind).of_isSuffix ⟨front, by simp⟩

theorem Pending.clauseless_append {text behind : Text} (hpending : Pending text)
    (hbehind : '\'' ∉ behind) : Clauseless (text ++ behind) :=
  hpending behind (guarded_of_quote_notMem hbehind)

/-! ## Openings -/

theorem opening_isPrefix_of_readable {text : Text} (hreadable : Readable text) :
    opening <+: text := by
  obtain ⟨statement, rest, hreads⟩ := hreadable
  rw [hreads.text_eq]
  simp [render]

/-- Where there is an opening there is a first one, and nothing can be read before it. -/
theorem exists_first_opening {text : Text} (hopening : opening <:+: text) :
    ∃ gap body, text = gap ++ (opening ++ body) ∧
      ∀ behind, Outline.Quiet gap (opening ++ body ++ behind) := by
  induction text with
  | nil => exact absurd (List.infix_nil.1 hopening) (by decide)
  | cons c text ih =>
      by_cases hhere : opening <+: c :: text
      · obtain ⟨body, hbody⟩ := hhere
        exact ⟨[], body, hbody.symm, fun _ => Outline.quiet_nil _⟩
      · obtain ⟨gap, body, rfl, hquiet⟩ :=
          ih ((List.infix_cons_iff.1 hopening).resolve_left hhere)
        refine ⟨c :: gap, body, rfl, fun behind tail htail hne hreadable => ?_⟩
        rcases List.suffix_cons_iff.1 htail with rfl | htail
        · have hleads := opening_isPrefix_of_readable hreadable
          rw [List.append_assoc, opening_isPrefix_append_iff hne] at hleads
          exact hhere (hleads.trans (List.prefix_append (c :: gap) _))
        · exact hquiet behind tail htail hne hreadable

/-- Nothing can be read from inside a text without an opening that ends with a character
no opening holds. -/
theorem quiet_of_not_opening {text behind : Text} {last : Char} (hlast : last ∉ opening)
    (hopening : ¬opening <:+: text ++ [last]) : Outline.Quiet (text ++ [last]) behind := by
  intro tail htail hne hreadable
  have hleads := opening_isPrefix_of_readable hreadable
  rcases List.prefix_or_prefix_of_prefix hleads (List.prefix_append tail behind) with
    hinside | hacross
  · exact hopening (hinside.isInfix.trans htail.isInfix)
  · rcases List.suffix_concat_iff.1 htail with rfl | ⟨tail, rfl, -⟩
    · exact hne rfl
    · exact hlast (hacross.subset (by simp))

/-- Nothing can be read from an opening that has no clause behind it, nor from the rest of
its line. -/
theorem quiet_opening_append {body : Text} (hline : '\n' ∉ body) (hclauseless : Clauseless body) :
    Outline.Quiet (opening ++ body) [] := by
  have hreadable : ¬Readable (opening ++ body) := by
    rintro ⟨statement, rest, hreads⟩
    obtain ⟨body', hbody', hbinds⟩ := reads_iff_binds.1 hreads
    obtain rfl := List.append_cancel_left hbody'
    refine hclauseless _ ⟨statement.bindings, ?_⟩ ⟨statement.specifier, rest, hbinds.unquoted, rfl⟩
    simp [hbinds.text_eq]
  have hquiet := Outline.lineQuiet_of_opening (List.prefix_append opening body) hreadable
  rintro tail ⟨line, hline'⟩ - hreadable'
  rw [List.append_nil] at hreadable'
  refine hquiet line tail hline'.symm (fun hmem => ?_) hreadable'
  have hnewline : '\n' ∈ opening ++ body := hline' ▸ List.mem_append_left tail hmem
  rcases List.mem_append.1 hnewline with hmem | hmem
  · exact absurd hmem (by decide)
  · exact hline hmem

end ImportSuffix.Statement

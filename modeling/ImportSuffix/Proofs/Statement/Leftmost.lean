import ImportSuffix.Proofs.Statement.Legible
import ImportSuffix.Statement.Outline

/-!
# The outline of a text is the leftmost one

An outline is leftmost when nothing can be read in the text before, between and
behind its statements, and each statement is read back where it stands.  A text
has exactly one leftmost outline, which `Outline.ofText` finds
(`ofText_eq_iff`), with or without abandoning the lines that cannot hold a
statement any more (`scanFrom_eq_scanFrom`).
-/

namespace ImportSuffix.Outline

open Statement

/-- No statement can be read from inside `text`, when `behind` follows it. -/
def Quiet (text behind : Text) : Prop :=
  ∀ tail, tail <:+ text → tail ≠ [] → ¬Readable (tail ++ behind)

theorem quiet_nil (behind : Text) : Quiet [] behind := by
  intro tail htail hnonempty
  exact absurd (List.suffix_nil.1 htail) hnonempty

theorem Quiet.snoc {text behind : Text} {c : Char} (hquiet : Quiet text (c :: behind))
    (hhere : ¬Readable (c :: behind)) : Quiet (text ++ [c]) behind := by
  intro tail htail hnonempty
  rcases List.suffix_concat_iff.1 htail with rfl | ⟨tail, rfl, htail⟩
  · exact absurd rfl hnonempty
  · rw [List.append_assoc, List.singleton_append]
    by_cases hempty : tail = []
    · simpa [hempty] using hhere
    · exact hquiet tail ((List.suffix_append_self_iff).1 htail) hempty

/-- Every statement is the first that can be read behind the one before it, and is
read back as it stands; behind the last one nothing can be read. -/
inductive IsLeftmost : Outline → Prop
  | rest {rest : Text} (hquiet : Quiet rest []) : IsLeftmost ⟨[], rest⟩
  | cons {gap : Text} {statement : Statement} {outline : Outline}
      (hquiet : Quiet gap (statement.render ++ outline.render))
      (hlegible : statement.Legible) (hleftmost : IsLeftmost outline) :
      IsLeftmost (outline.cons gap statement)

/-- A closed line cannot hold a statement any more. -/
def LineQuiet (text : Text) : Prop :=
  ∀ line behind, text = line ++ behind → '\n' ∉ line → ¬Readable behind

/-- If no statement can be read from an opening, none can be read from a later
place on its line. -/
theorem lineQuiet_of_opening {text : Text} (hopening : opening <+: text)
    (hreadable : ¬Readable text) : LineQuiet text := by
  rintro line behind rfl hline ⟨statement, rest, rfl, hbindings, hunquoted⟩
  by_cases hempty : line = []
  · exact hreadable ⟨statement, rest, by simp [hempty], hbindings, hunquoted⟩
  · apply hreadable
    rw [readable_append_render_iff hempty hbindings hunquoted]
    simp only [Statement.render, List.append_assoc] at hopening
    exact ⟨(opening_isPrefix_append_iff hempty).1 hopening, fun hmem => absurd hmem hline⟩

theorem LineQuiet.tail {c : Char} {text : Text} (hquiet : LineQuiet (c :: text))
    (hc : c ≠ '\n') : LineQuiet text := by
  rintro line behind rfl hline
  exact hquiet (c :: line) behind rfl (by simp [Ne.symm hc, hline])

/-- A scan that begins behind a quiet gap, on a line that is closed only if it can
hold no statement, finds the leftmost outline. -/
theorem isLeftmost_scanFrom {abandon closed : Bool} {gap text : Text}
    (hgap : Quiet gap.reverse text) (hclosed : closed = true → LineQuiet text) :
    (scanFrom abandon closed gap text).IsLeftmost := by
  fun_induction scanFrom abandon closed gap text with
  | case1 closed gap => exact .rest hgap
  | case2 closed gap c text hskip ih =>
      obtain ⟨hclosed', hc⟩ : closed = true ∧ c ≠ '\n' := by simpa using hskip
      have hline := hclosed hclosed'
      refine ih ?_ fun _ => hline.tail hc
      simpa using hgap.snoc (hline [] _ rfl (by simp))
  | case3 closed gap c text hskip statement rest hread _ ih =>
      refine .cons ?_ (legible_of_read? hread) (ih (quiet_nil rest) (by simp))
      rwa [render_scanFrom, List.reverse_nil, List.nil_append, ← read?_eq_some hread]
  | case4 closed gap c text hskip hread ih =>
      have hreadable := read?_eq_none_iff.1 hread
      refine ih (by simpa using hgap.snoc hreadable) fun hopening => ?_
      have hleads := List.isPrefixOf_iff_prefix.1 (Bool.and_eq_true_iff.1 hopening).2
      obtain ⟨rfl, -⟩ := List.cons_prefix_cons.1 hleads
      exact (lineQuiet_of_opening hleads hreadable).tail (by decide)

/-! ## One leftmost outline for each text -/

/-- Two leftmost outlines of one text begin with the same gap: the shorter of two
gaps cannot end where the longer one is quiet. -/
theorem gap_eq_of_quiet {gap gap' behind behind' : Text} (hquiet : Quiet gap behind)
    (hquiet' : Quiet gap' behind') (hreadable : Readable behind)
    (hreadable' : Readable behind') (heq : gap ++ behind = gap' ++ behind') :
    gap = gap' ∧ behind = behind' := by
  rcases List.append_eq_append_iff.1 heq with ⟨seam, hgap, hbehind⟩ | ⟨seam, hgap, hbehind⟩
  · by_cases hempty : seam = []
    · simp_all
    · rw [hbehind] at hreadable
      exact absurd hreadable (hquiet' seam ⟨gap, hgap.symm⟩ hempty)
  · by_cases hempty : seam = []
    · simp_all
    · rw [hbehind] at hreadable'
      exact absurd hreadable' (hquiet seam ⟨gap', hgap.symm⟩ hempty)

theorem not_quiet_append_of_readable {gap behind : Text} (hreadable : Readable behind) :
    ¬Quiet (gap ++ behind) [] := by
  intro hquiet
  obtain ⟨statement, rest, hreads⟩ := hreadable
  have hnonempty : behind ≠ [] := by simp [hreads.text_eq, Statement.render, opening]
  refine hquiet behind (List.suffix_append _ _) hnonempty ⟨statement, rest, ?_⟩
  simpa using hreads

theorem IsLeftmost.unique {outline other : Outline} (hleftmost : outline.IsLeftmost)
    (hother : other.IsLeftmost) (heq : outline.render = other.render) : outline = other := by
  induction hleftmost generalizing other with
  | @rest rest hquiet =>
      cases hother with
      | rest _ => simpa [Outline.render] using heq
      | @cons gap statement inner _ hlegible _ =>
          rw [render_cons, List.append_assoc] at heq
          have hrest : rest = gap ++ (statement.render ++ inner.render) := by
            simpa [Outline.render] using heq
          rw [hrest] at hquiet
          exact absurd hquiet (not_quiet_append_of_readable (hlegible.readable _))
  | @cons gap statement inner hquiet hlegible _ ih =>
      cases hother with
      | @rest rest hquiet' =>
          rw [render_cons, List.append_assoc] at heq
          have hrest : rest = gap ++ (statement.render ++ inner.render) := by
            simpa [Outline.render] using heq.symm
          rw [hrest] at hquiet'
          exact absurd hquiet' (not_quiet_append_of_readable (hlegible.readable _))
      | @cons gap' statement' inner' hquiet' hlegible' hleftmost' =>
          simp only [render_cons, List.append_assoc] at heq
          obtain ⟨rfl, hbehind⟩ := gap_eq_of_quiet hquiet hquiet' (hlegible.readable _)
            (hlegible'.readable _) heq
          have hread : read? (statement.render ++ inner.render) = some (statement, inner.render) :=
            read?_render_append_iff.2 hlegible
          rw [hbehind, read?_render_append_iff.2 hlegible'] at hread
          obtain ⟨rfl, hinner⟩ := Prod.mk.inj (Option.some.inj hread)
          rw [ih hleftmost' hinner.symm]

theorem isLeftmost_scan (abandon : Bool) (text : Text) :
    (scanFrom abandon false [] text).IsLeftmost :=
  isLeftmost_scanFrom (by simpa using quiet_nil text) (by simp)

theorem isLeftmost_ofText (text : Text) : (ofText text).IsLeftmost :=
  isLeftmost_scan true text

/-- The outline of a text is its one leftmost outline. -/
theorem ofText_eq_iff {text : Text} {outline : Outline} :
    ofText text = outline ↔ outline.IsLeftmost ∧ outline.render = text := by
  constructor
  · rintro rfl
    exact ⟨isLeftmost_ofText text, render_ofText text⟩
  · rintro ⟨hleftmost, rfl⟩
    exact (isLeftmost_ofText _).unique hleftmost (render_ofText _)

/-- Abandoning a line changes nothing in what is found. -/
theorem scanFrom_eq_scanFrom (abandon abandon' : Bool) (text : Text) :
    scanFrom abandon false [] text = scanFrom abandon' false [] text :=
  (isLeftmost_scan abandon text).unique (isLeftmost_scan abandon' text)
    (by simp [render_scanFrom])

/-! ## Changing statements -/

/-- A gap stays quiet when the statement behind it, and all that follows, is
replaced. -/
theorem Quiet.replace {gap behind behind' : Text} {statement statement' : Statement}
    (hlegible : statement.Legible) (hlegible' : statement'.Legible)
    (hquiet : Quiet gap (statement.render ++ behind)) :
    Quiet gap (statement'.render ++ behind') := by
  intro tail htail hnonempty hreadable
  apply hquiet tail htail hnonempty
  rw [readable_append_render_iff hnonempty hlegible.newline_notMem hlegible.unquoted]
  rwa [readable_append_render_iff hnonempty hlegible'.newline_notMem hlegible'.unquoted]
    at hreadable

/-- An outline stays the leftmost one under every change of its statements that
keeps them legible. -/
theorem IsLeftmost.map {change : Statement → Statement} {outline : Outline}
    (hchange : ∀ statement : Statement, statement.Legible → (change statement).Legible)
    (hleftmost : outline.IsLeftmost) : (outline.map change).IsLeftmost := by
  induction hleftmost with
  | rest hquiet => exact .rest hquiet
  | cons hquiet hlegible _ ih =>
      rw [map_cons]
      have hlegible' := hchange _ hlegible
      exact .cons (hquiet.replace hlegible hlegible') hlegible' ih

theorem map_map (change change' : Statement → Statement) (outline : Outline) :
    (outline.map change).map change' = outline.map (change' ∘ change) := by
  simp [map, Function.comp_def]

theorem map_eq_self {change : Statement → Statement} {outline : Outline}
    (hchange : ∀ statement ∈ outline.statements, change statement = statement) :
    outline.map change = outline := by
  have hsections : outline.sections.map (fun part => (part.1, change part.2)) =
      outline.sections.map id := by
    apply List.map_congr_left
    intro part hpart
    have hpart' := hchange part.2 (List.mem_map_of_mem hpart)
    rw [hpart', id]
  rw [List.map_id] at hsections
  rw [map, hsections]

end ImportSuffix.Outline

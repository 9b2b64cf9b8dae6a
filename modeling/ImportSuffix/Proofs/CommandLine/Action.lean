import ImportSuffix.Proofs.CommandLine.Grammar
import ImportSuffix.Proofs.CommandLine.Held

/-!
# What an item does

What was read so far is what the items say together (`Mentions.given`).  An item that comes
next is read exactly when what it says is still allowed, and adds that
(`conclude_item_iff`).  Options and roots are held back while they are read, but since
`conclude_held_iff` that need not be followed any further.
-/

namespace ImportSuffix

def NamedOption.argument : NamedOption → Valued
  | exclude => .exclude
  | extension => .extension

namespace Mentions

/-- What is set when so much was said. -/
def given (mentions : Mentions) : Given :=
  ⟨mentions.roots.head?, mentions.exclude, mentions.extensions.head?,
    min mentions.verbosity Given.verbosityLimit, decide (mentions.dryRuns ≠ 0)⟩

theorem settings_given (mentions : Mentions) : mentions.given.settings = mentions.settings := rfl

variable {mentions : Mentions}

theorem given_add_ofVerbosity (mentions : Mentions) (count : Nat) :
    (mentions.add (.ofVerbosity count)).given =
      { mentions.given with
        verbosity := min (mentions.verbosity + count) Given.verbosityLimit } := by
  simp [add, ofVerbosity, given]

/-! ## What may be said next -/

theorem Allowed.add_ofVerbosity (hallowed : mentions.Allowed) (count : Nat) :
    (mentions.add (.ofVerbosity count)).Allowed := by
  obtain ⟨hroots, hnonempty, hextensions, hdryRuns⟩ := hallowed
  constructor <;> simpa [add, ofVerbosity]

theorem Allowed.add_ofDryRun_iff (hallowed : mentions.Allowed) :
    (mentions.add .ofDryRun).Allowed ↔ mentions.dryRuns = 0 := by
  obtain ⟨hroots, hnonempty, hextensions, hdryRuns⟩ := hallowed
  constructor
  · intro hadded
    simpa [add, ofDryRun] using hadded.dryRuns_le
  · intro hnone
    constructor <;> simpa [add, ofDryRun]

theorem Allowed.add_ofRoot_iff (hallowed : mentions.Allowed) {path : Path} :
    (mentions.add (.ofRoot path)).Allowed ↔ mentions.roots = [] ∧ path ≠ [] := by
  obtain ⟨hroots, hnonempty, hextensions, hdryRuns⟩ := hallowed
  constructor
  · intro hadded
    have hnone : mentions.roots.length + 1 ≤ 1 := by
      simpa [add, ofRoot] using hadded.roots_le
    exact ⟨List.eq_nil_of_length_eq_zero (by omega),
      hadded.root_ne_nil path (by simp [add, ofRoot])⟩
  · rintro ⟨hnone, hpath⟩
    exact ⟨by simp [add, ofRoot, hnone], by simpa [add, ofRoot, hnone],
      by simpa [add, ofRoot], by simpa [add, ofRoot]⟩

theorem Allowed.add_exclude (hallowed : mentions.Allowed) (value : Text) :
    (mentions.add (NamedOption.exclude.mentions value)).Allowed := by
  obtain ⟨hroots, hnonempty, hextensions, hdryRuns⟩ := hallowed
  constructor <;> simpa [add, NamedOption.mentions]

theorem Allowed.add_extension_iff (hallowed : mentions.Allowed) {value : Text} :
    (mentions.add (NamedOption.extension.mentions value)).Allowed ↔
      mentions.extensions = [] := by
  obtain ⟨hroots, hnonempty, hextensions, hdryRuns⟩ := hallowed
  constructor
  · intro hadded
    have hnone : mentions.extensions.length + 1 ≤ 1 := by
      simpa [add, NamedOption.mentions] using hadded.extensions_le
    exact List.eq_nil_of_length_eq_zero (by omega)
  · intro hnone
    exact ⟨by simpa [add, NamedOption.mentions], by simpa [add, NamedOption.mentions],
      by simp [add, NamedOption.mentions, hnone], by simpa [add, NamedOption.mentions]⟩

/-! ## What is taken next -/

variable {next : Given} {program : Text}

theorem takeFlag_verbose (mentions : Mentions) (program : Text) :
    mentions.given.takeFlag program .verbose = .ok (mentions.add (.ofVerbosity 1)).given := by
  rw [given_add_ofVerbosity, Given.takeFlag]
  have hcount : min (min mentions.verbosity Given.verbosityLimit + 1) Given.verbosityLimit =
      min (mentions.verbosity + 1) Given.verbosityLimit := by omega
  simp only [given, hcount]

theorem takeFlag_dryRun_eq_ok_iff (hallowed : mentions.Allowed) :
    mentions.given.takeFlag program .dryRun = .ok next ↔
      (mentions.add .ofDryRun).Allowed ∧ next = (mentions.add .ofDryRun).given := by
  rw [hallowed.add_ofDryRun_iff, Given.takeFlag]
  by_cases hnone : mentions.dryRuns = 0
  · simp [given, add, ofDryRun, hnone, eq_comm]
  · simp [given, hnone]

/-- A value of an option that is UTF-8 is taken exactly when it is allowed. -/
theorem takeValue_encode_iff (hallowed : mentions.Allowed) {option : NamedOption} {text : Text} :
    mentions.given.takeValue (Utf8.encode text) option.argument = .ok next ↔
      (mentions.add (option.mentions text)).Allowed ∧
        next = (mentions.add (option.mentions text)).given := by
  cases option with
  | exclude =>
      simp only [NamedOption.argument, Given.takeValue_exclude_eq_ok_iff, Utf8.decode?_encode,
        hallowed.add_exclude, true_and]
      simp [given, add, NamedOption.mentions, Given.listed]
  | extension =>
      simp only [NamedOption.argument, Given.takeValue_extension_eq_ok_iff, Utf8.decode?_encode,
        hallowed.add_extension_iff]
      by_cases hnone : mentions.extensions = []
      · simp [given, add, NamedOption.mentions, hnone]
      · simp [given, hnone]

/-- A root is taken exactly when it is the first one, and not empty. -/
theorem root_eq_none_and_takeValue_iff (hallowed : mentions.Allowed) {path : Path} :
    mentions.given.root = none ∧ mentions.given.takeValue path .root = .ok next ↔
      (mentions.add (.ofRoot path)).Allowed ∧ next = (mentions.add (.ofRoot path)).given := by
  rw [hallowed.add_ofRoot_iff, Given.takeValue_root_eq_ok_iff, ← and_assoc]
  by_cases hnone : mentions.roots = []
  · simp [given, add, ofRoot, hnone]
  · simp [given, hnone]

end Mentions

namespace Reading

section Steps

variable {program : Text} {reading : Reading} {given last : Given} {element : Bytes}
  {rest : List Bytes} {taken : Except Stop Given}

/-- Where an element is taken at once, the rest is read from there. -/
theorem conclude_cons_map_iff (hread : reading.read program element = taken.map continued) :
    reading.conclude program (element :: rest) = .ok last ↔
      ∃ next, taken = .ok next ∧ (continued next).conclude program rest = .ok last := by
  cases taken with
  | error stop => simp [conclude_cons_of_error hread]
  | ok next => simp [conclude_cons_of_ok hread]

/-- What is held with its value might as well be taken before the rest is read. -/
theorem conclude_held_iff {argument : Valued} {value : Bytes} :
    conclude program ⟨given, some ⟨argument, some value⟩, false⟩ rest = .ok last ↔
      ∃ next, given.takeValue value argument = .ok next ∧
        (continued next).conclude program rest = .ok last := by
  constructor
  · intro hok
    rcases exists_settled_of_conclude hok with ⟨next, hsettled⟩ | ⟨-, _, _, _, hheld, -⟩
    · exact ⟨next, hsettled, (conclude_of_settled hsettled rest).symm.trans hok⟩
    · simp at hheld
  · rintro ⟨next, htaken, hok⟩
    have hsettled : (⟨given, some ⟨argument, some value⟩, false⟩ : Reading).settled = .ok next :=
      htaken
    exact (conclude_of_settled hsettled rest).trans hok

/-- An option without a value takes the next element for it, if that is a word. -/
theorem conclude_waits_iff {argument : Valued} :
    conclude program ⟨given, some ⟨argument, none⟩, false⟩ rest = .ok last ↔
      ∃ value rest' next, rest = value :: rest' ∧ Token.IsWord value ∧
        given.takeValue value argument = .ok next ∧
          (continued next).conclude program rest' = .ok last := by
  constructor
  · intro hok
    rcases exists_settled_of_conclude hok with ⟨next, hsettled⟩ |
        ⟨-, _, value, rest', hheld, rfl, hword, hrest⟩
    · contradiction
    · obtain rfl : argument = _ := by simpa using hheld
      obtain ⟨next, htaken, hnext⟩ := conclude_held_iff.1 hrest
      exact ⟨value, rest', next, rfl, hword, htaken, hnext⟩
  · rintro ⟨value, rest', next, rfl, hword, htaken, hok⟩
    have htoken := Token.ofBytes_eq_word_iff.2 ⟨rfl, hword⟩
    rw [conclude_cons_of_ok (read_word_of_waits rfl rfl htoken)]
    exact conclude_held_iff.2 ⟨next, htaken, hok⟩

theorem conclude_root_iff {path : Path} (hword : Token.IsWord path) :
    (continued given).conclude program (path :: rest) = .ok last ↔
      ∃ next, (given.root = none ∧ given.takeValue path .root = .ok next) ∧
        (continued next).conclude program rest = .ok last := by
  have hread : (continued given).read program path = (continued given).readRoot path := by
    simp [read, continued, Token.ofBytes_eq_word_iff.2 ⟨rfl, hword⟩, readWord]
  cases hroot : given.root with
  | some root =>
      have hstop : (continued given).readRoot path =
          .error (.unexpectedArgument (Utf8.lossy path)) := by
        simp [readRoot, hasRoot, continued, hroot]
      simp [conclude_cons_of_error (hread.trans hstop)]
  | none =>
      have hheld : (continued given).readRoot path =
          .ok ⟨given, some ⟨.root, some path⟩, false⟩ := by
        simp [readRoot, hasRoot, continued, hroot, settled]
      rw [conclude_cons_of_ok (hread.trans hheld), conclude_held_iff]
      simp

end Steps

section Letters

variable {program : Text} {reading : Reading}

theorem readBundle_append (mentions : Mentions) (count : Nat) (letters : Bytes) :
    (continued mentions.given).readBundle program (List.replicate count 0x76 ++ letters) =
      (continued (mentions.add (.ofVerbosity count)).given).readBundle program letters := by
  induction count generalizing mentions with
  | zero => rw [show Mentions.ofVerbosity 0 = .nothing from rfl, Mentions.add_nothing]; rfl
  | succ count ih =>
      have hflag : (continued mentions.given).beginFlag program .verbose =
          .ok (continued (mentions.add (.ofVerbosity 1)).given) := by
        simp [beginFlag, settled, continued, Mentions.takeFlag_verbose, Except.map]
      have hsum : (mentions.add (.ofVerbosity 1)).add (.ofVerbosity count) =
          mentions.add (.ofVerbosity (count + 1)) := by
        simp [Mentions.add, Mentions.ofVerbosity, Nat.add_assoc, Nat.add_comm 1]
      rw [List.replicate_succ, List.cons_append, readBundle,
        show Argument.ofLetter? 0x76 = some (.flag .verbose) from rfl]
      dsimp only
      rw [hflag]
      dsimp only
      rw [ih, hsum]

theorem readBundle_exclude (attached : Bytes) :
    reading.readBundle program (0x65 :: attached) =
      reading.beginValued .exclude (joinedValue? attached) := by
  rw [readBundle]
  rfl

theorem joinedValue?_encode {attached : Text} (hattached : attached ≠ []) :
    joinedValue? (Utf8.encode attached) = some (Utf8.encode (Item.withoutEquals attached)) := by
  obtain ⟨c, attached, rfl⟩ := List.exists_cons_of_ne_nil hattached
  by_cases hc : c = '='
  · subst hc
    rfl
  · have hkept : Item.withoutEquals (c :: attached) = c :: attached := by
      simp [Item.withoutEquals, hc]
    have hnonempty : String.utf8EncodeChar c ≠ [] := String.utf8EncodeChar_ne_nil
    obtain ⟨first, more, hencode⟩ := List.exists_cons_of_ne_nil hnonempty
    have hfirst : first ≠ Token.equals := by
      rintro rfl
      have hmem : Token.equals ∈ Utf8.encode [c] := by simp [Utf8.encode, hencode]
      have hchar : '=' ∈ [c] := (Utf8.mem_encode_iff (by decide)).1 hmem
      exact hc (List.mem_singleton.1 hchar).symm
    rw [hkept, Utf8.encode_cons, hencode, List.cons_append, joinedValue?, if_neg hfirst]

theorem exists_encode_of_joinedValue? {attached : Bytes} {value : Text}
    (hjoined : joinedValue? attached = some (Utf8.encode value)) :
    ∃ text, text ≠ [] ∧ Utf8.encode text = attached := by
  cases attached with
  | nil => contradiction
  | cons first rest =>
      rw [joinedValue?] at hjoined
      split at hjoined
      next hfirst =>
        obtain rfl := Option.some.inj hjoined
        exact ⟨'=' :: value, List.cons_ne_nil _ _, by rw [hfirst]; rfl⟩
      next =>
        refine ⟨value, ?_, (Option.some.inj hjoined).symm⟩
        rintro rfl
        simp [Utf8.encode_nil] at hjoined

end Letters

section Items

variable {program : Text} {mentions : Mentions} {last : Given} {rest : List Bytes}

theorem encode_joined (option : NamedOption) (value : Text) :
    Utf8.encode ("--".toList ++ option.name ++ '=' :: value) =
      Token.dash :: Token.dash ::
        Token.joinedTo (Utf8.encode option.name) (some (Utf8.encode value)) := by
  rw [Utf8.encode_append, Utf8.encode_append]
  rfl

theorem encode_apart (option : NamedOption) :
    Utf8.encode ("--".toList ++ option.name) =
      Token.dash :: Token.dash :: Token.joinedTo (Utf8.encode option.name) none := by
  rw [Utf8.encode_append]
  rfl

theorem encode_letters (count : Nat) (letters : Text) :
    Utf8.encode ('-' :: (List.replicate count 'v' ++ letters)) =
      Token.dash :: (List.replicate count 0x76 ++ Utf8.encode letters) := by
  have hcounted : Utf8.encode (List.replicate count 'v') = List.replicate count 0x76 := by
    induction count with
    | zero => rfl
    | succ count ih =>
        rw [List.replicate_succ, Utf8.encode_cons, ih]
        rfl
  rw [Utf8.encode_cons, Utf8.encode_append, hcounted]
  rfl

theorem read_long {reading : Reading} {element name : Bytes} {joined : Option Bytes}
    (hoptions : reading.optionsEnded = false)
    (htoken : Token.ofBytes element = .long name joined) :
    reading.read program element = reading.readLong program name joined := by
  simp [read, hoptions, htoken]

theorem read_bundle {reading : Reading} {element letters : Bytes}
    (hoptions : reading.optionsEnded = false) (htoken : Token.ofBytes element = .bundle letters) :
    reading.read program element = reading.readBundle program letters := by
  simp [read, hoptions, htoken]

theorem read_option {reading : Reading} (hoptions : reading.optionsEnded = false)
    (option : NamedOption) (joined : Option Bytes) :
    reading.read program
        (Token.dash :: Token.dash :: Token.joinedTo (Utf8.encode option.name) joined) =
      reading.beginValued option.argument joined := by
  have hname : Token.equals ∉ Utf8.encode option.name := by cases option <;> decide
  have hnonempty : Utf8.encode option.name ≠ [] := by cases option <;> decide
  have hlookup : Argument.ofLongName? (Utf8.encode option.name) =
      some (.valued option.argument) := by
    cases option <;> rfl
  rw [read_long hoptions (Token.ofBytes_long hname hnonempty joined), readLong, hlookup]

theorem read_joined {given : Given} (option : NamedOption) (value : Text) :
    (continued given).read program
        (Utf8.encode ("--".toList ++ option.name ++ '=' :: value)) =
      (given.takeValue (Utf8.encode value) option.argument).map continued := by
  rw [encode_joined, read_option rfl]
  rfl

theorem read_apart {given : Given} (option : NamedOption) :
    (continued given).read program (Utf8.encode ("--".toList ++ option.name)) =
      .ok ⟨given, some ⟨option.argument, none⟩, false⟩ := by
  rw [encode_apart, read_option rfl]
  rfl

/-- Behind letters `v` the others are read, and the first letter is no dash. -/
theorem read_letters (mentions : Mentions) {count : Nat} {letters : Bytes}
    (hdash : letters.head? ≠ some Token.dash) (hsome : count ≠ 0 ∨ letters ≠ []) :
    (continued mentions.given).read program
        (Token.dash :: (List.replicate count 0x76 ++ letters)) =
      (continued (mentions.add (.ofVerbosity count)).given).readBundle program letters := by
  obtain ⟨first, more, hcons⟩ :
      ∃ first more, List.replicate count 0x76 ++ letters = first :: more :=
    List.exists_cons_of_ne_nil (by rcases hsome with h | h <;> simp [h])
  have hfirst : first ≠ Token.dash := by
    cases count with
    | zero =>
        rw [List.replicate_zero, List.nil_append] at hcons
        simpa [hcons] using hdash
    | succ count =>
        obtain ⟨rfl, -⟩ := List.cons.inj hcons
        decide
  rw [hcons, read_bundle rfl (Token.ofBytes_bundle hfirst more), ← hcons, readBundle_append]

/-- Letters `v` and the letter `e` begin the option for excluded names. -/
theorem read_letters_exclude (mentions : Mentions) (count : Nat) (attached : Text) :
    (continued mentions.given).read program
        (Utf8.encode ('-' :: (List.replicate count 'v' ++ 'e' :: attached))) =
      (continued (mentions.add (.ofVerbosity count)).given).beginValued
        NamedOption.exclude.argument (joinedValue? (Utf8.encode attached)) := by
  have hexclude : Utf8.encode ('e' :: attached) = 0x65 :: Utf8.encode attached := rfl
  have hdash : (0x65 :: Utf8.encode attached).head? ≠ some Token.dash := by
    simp [Token.dash]
  rw [encode_letters, hexclude, read_letters mentions hdash (.inr (List.cons_ne_nil _ _)),
    readBundle_exclude]
  rfl

/-- An item is read exactly when what it says is still allowed, and adds that. -/
theorem conclude_item_iff (hallowed : mentions.Allowed) {item : Item} (hitem : item.WellFormed) :
    (continued mentions.given).conclude program (item.elements ++ rest) = .ok last ↔
      (mentions.add item.mentions).Allowed ∧
        (continued (mentions.add item.mentions).given).conclude program rest = .ok last := by
  -- in a bundle the letters `v` come first, and a value is allowed or not behind these
  have hcounted : ∀ count, (mentions.add (.ofVerbosity count)).Allowed := hallowed.add_ofVerbosity
  cases item with
  | joined option value =>
      rw [Item.elements, Item.mentions, List.singleton_append,
        conclude_cons_map_iff (read_joined option value)]
      simp [Mentions.takeValue_encode_iff hallowed, and_assoc]
  | apart option value =>
      have hword : Token.IsWord (Utf8.encode value) := hitem
      simp only [Item.elements, Item.mentions, List.cons_append, List.nil_append]
      rw [conclude_cons_of_ok (read_apart option), conclude_waits_iff]
      simp [Mentions.takeValue_encode_iff hallowed, hword, and_assoc]
  | bundleJoined count attached =>
      have hread : (continued mentions.given).read program
          (Utf8.encode ('-' :: (List.replicate count 'v' ++ 'e' :: attached))) =
          ((mentions.add (.ofVerbosity count)).given.takeValue
            (Utf8.encode (Item.withoutEquals attached)) NamedOption.exclude.argument).map
              continued := by
        rw [read_letters_exclude, joinedValue?_encode hitem]
        rfl
      rw [Item.elements, Item.mentions, List.singleton_append, conclude_cons_map_iff hread]
      simp [Mentions.takeValue_encode_iff (hcounted count), Mentions.add_assoc, and_assoc]
  | bundleApart count value =>
      have hread : (continued mentions.given).read program
          (Utf8.encode ('-' :: (List.replicate count 'v' ++ ['e']))) =
          .ok ⟨(mentions.add (.ofVerbosity count)).given,
            some ⟨NamedOption.exclude.argument, none⟩, false⟩ :=
        read_letters_exclude mentions count []
      have hword : Token.IsWord (Utf8.encode value) := hitem
      simp only [Item.elements, Item.mentions, List.cons_append, List.nil_append]
      rw [conclude_cons_of_ok hread, conclude_waits_iff]
      simp [Mentions.takeValue_encode_iff (hcounted count), hword, Mentions.add_assoc, and_assoc]
  | bundle count =>
      have hread : (continued mentions.given).read program
          (Utf8.encode ('-' :: List.replicate count 'v')) =
          .ok (continued (mentions.add (.ofVerbosity count)).given) := by
        have helement := encode_letters count []
        rw [List.append_nil] at helement
        rw [helement, read_letters mentions (by decide) (.inl hitem)]
        rfl
      rw [Item.elements, Item.mentions, List.singleton_append, conclude_cons_of_ok hread]
      simp [hcounted]
  | verbose =>
      have htoken : Token.ofBytes (Utf8.encode "--verbose".toList) =
          .long (Utf8.encode "verbose".toList) none := by decide
      have hread : (continued mentions.given).read program (Utf8.encode "--verbose".toList) =
          (mentions.given.takeFlag program .verbose).map continued := read_long rfl htoken
      rw [Item.elements, Item.mentions, List.singleton_append, conclude_cons_map_iff hread]
      simp [Mentions.takeFlag_verbose, hcounted]
  | dryRun =>
      have htoken : Token.ofBytes (Utf8.encode "--dry-run".toList) =
          .long (Utf8.encode "dry-run".toList) none := by decide
      have hread : (continued mentions.given).read program (Utf8.encode "--dry-run".toList) =
          (mentions.given.takeFlag program .dryRun).map continued := read_long rfl htoken
      rw [Item.elements, Item.mentions, List.singleton_append, conclude_cons_map_iff hread]
      simp [Mentions.takeFlag_dryRun_eq_ok_iff hallowed, and_assoc]
  | root path =>
      have hword : Token.IsWord path := hitem
      rw [Item.elements, Item.mentions, List.singleton_append, conclude_root_iff hword]
      simp [Mentions.root_eq_none_and_takeValue_iff hallowed, and_assoc]

end Items

end Reading

end ImportSuffix

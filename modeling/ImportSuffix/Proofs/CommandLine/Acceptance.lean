import ImportSuffix.Proofs.CommandLine.Action

/-!
# Which command lines are accepted

Where a reading succeeds, an item or two dashes stand at the front of what is left
(`exists_item`), and behind two dashes stands one root at most.  With what an item does this
gives the grammar: a command line is accepted exactly when it has a wording that is well
formed, and its settings are what that wording asks for
(`Settings.ofCommandLine_eq_ok_iff`).
-/

namespace ImportSuffix

namespace Argument

theorem mem_of_lookup {A : Type} [BEq A] [LawfulBEq A] {B : Type} {table : List (A × B)} {key : A}
    {value : B} (hlookup : table.lookup key = some value) : (key, value) ∈ table := by
  obtain ⟨before, after, rfl, -⟩ := List.lookup_eq_some_iff.1 hlookup
  simp

/-- A long name belongs to an option or to a flag, and only two flags are no request for
information about the program. -/
theorem ofLongName?_eq_some {name : Bytes} {argument : Argument}
    (hname : ofLongName? name = some argument) :
    (∃ option : NamedOption, name = Utf8.encode option.name ∧
      argument = .valued option.argument) ∨
    name = Utf8.encode "verbose".toList ∧ argument = .flag .verbose ∨
    name = Utf8.encode "dry-run".toList ∧ argument = .flag .dryRun ∨
    ∃ flag, (flag = .help ∨ flag = .version) ∧ argument = .flag flag := by
  have hmem := mem_of_lookup hname
  simp only [longNames, List.mem_cons, Prod.mk.injEq, List.not_mem_nil, or_false] at hmem
  rcases hmem with ⟨rfl, rfl⟩ | ⟨rfl, rfl⟩ | ⟨rfl, rfl⟩ | ⟨rfl, rfl⟩ | ⟨-, rfl⟩ | ⟨-, rfl⟩
  · exact .inl ⟨.exclude, rfl, rfl⟩
  · exact .inl ⟨.extension, rfl, rfl⟩
  · exact .inr (.inl ⟨rfl, rfl⟩)
  · exact .inr (.inr (.inl ⟨rfl, rfl⟩))
  · exact .inr (.inr (.inr ⟨.help, .inl rfl, rfl⟩))
  · exact .inr (.inr (.inr ⟨.version, .inr rfl, rfl⟩))

theorem ofLetter?_eq_some {letter : UInt8} {argument : Argument}
    (hletter : ofLetter? letter = some argument) :
    letter = 0x65 ∧ argument = .valued .exclude ∨
    letter = 0x76 ∧ argument = .flag .verbose ∨
    ∃ flag, (flag = .help ∨ flag = .version) ∧ argument = .flag flag := by
  have hmem := mem_of_lookup hletter
  simp only [letters, List.mem_cons, Prod.mk.injEq, List.not_mem_nil, or_false] at hmem
  rcases hmem with h | h | ⟨-, h⟩ | ⟨-, h⟩
  · exact .inl h
  · exact .inr (.inl h)
  · exact .inr (.inr ⟨.help, .inl rfl, h⟩)
  · exact .inr (.inr ⟨.version, .inr rfl, h⟩)

end Argument

namespace Reading

variable {program : Text} {given last : Given} {element : Bytes} {rest : List Bytes}

theorem exists_encode_of_takeValue (option : NamedOption) {value : Bytes} {next : Given}
    (htaken : given.takeValue value option.argument = .ok next) :
    ∃ text, value = Utf8.encode text := by
  cases option with
  | exclude =>
      obtain ⟨text, hdecode, -⟩ := Given.takeValue_exclude_eq_ok_iff.1 htaken
      exact ⟨text, (Utf8.encode_of_decode? hdecode).symm⟩
  | extension =>
      obtain ⟨-, text, hdecode, -⟩ := Given.takeValue_extension_eq_ok_iff.1 htaken
      exact ⟨text, (Utf8.encode_of_decode? hdecode).symm⟩

/-- Who asks for information about the program gets no settings. -/
theorem beginFlag_ne_ok {reading next : Reading} {flag : Flag}
    (hflag : flag = .help ∨ flag = .version) : reading.beginFlag program flag ≠ .ok next := by
  intro hread
  rw [beginFlag] at hread
  rcases hflag with rfl | rfl <;> split at hread <;> contradiction

/-- Letters that are read are letters `v`, and maybe the letter `e` with what follows. -/
theorem exists_letters_of_readBundle {letters : Bytes} {next : Reading}
    (hread : (continued given).readBundle program letters = .ok next) :
    ∃ count, letters = List.replicate count 0x76 ∨
      ∃ attached before, letters = List.replicate count 0x76 ++ 0x65 :: attached ∧
        (continued before).beginValued .exclude (joinedValue? attached) = .ok next := by
  induction letters generalizing given with
  | nil => exact ⟨0, .inl rfl⟩
  | cons letter rest ih =>
      rw [readBundle] at hread
      cases hletter : Argument.ofLetter? letter with
      | none => simp [hletter] at hread
      | some argument =>
          rw [hletter] at hread
          rcases Argument.ofLetter?_eq_some hletter with
            ⟨rfl, rfl⟩ | ⟨rfl, rfl⟩ | ⟨flag, hflag, rfl⟩
          · exact ⟨0, .inr ⟨rest, given, rfl, hread⟩⟩
          · obtain ⟨count, rfl | ⟨attached, before, rfl, hbegin⟩⟩ := ih hread
            · exact ⟨count + 1, .inl rfl⟩
            · exact ⟨count + 1, .inr ⟨attached, before, rfl, hbegin⟩⟩
          · dsimp only at hread
            split at hread
            next => contradiction
            next next' hnext => exact absurd hnext (beginFlag_ne_ok hflag)

theorem exists_encode_of_joined (option : NamedOption) {value : Bytes} {next : Reading}
    (hread : (continued given).beginValued option.argument (some value) = .ok next) :
    ∃ text, value = Utf8.encode text := by
  cases htaken : given.takeValue value option.argument with
  | error stop => simp [beginValued, continued, settled, htaken, Except.map] at hread
  | ok taken => exact exists_encode_of_takeValue option htaken

/-- Where an option waits for its value, a word is left that is UTF-8. -/
theorem exists_encode_of_waits (option : NamedOption) {next : Reading}
    (hread : (continued given).beginValued option.argument none = .ok next)
    (hok : next.conclude program rest = .ok last) :
    ∃ text rest', rest = Utf8.encode text :: rest' ∧ Token.IsWord (Utf8.encode text) := by
  obtain rfl := Except.ok.inj hread
  obtain ⟨value, rest', taken, rfl, hword, htaken, -⟩ := conclude_waits_iff.1 hok
  obtain ⟨text, rfl⟩ := exists_encode_of_takeValue option htaken
  exact ⟨text, rest', rfl, hword⟩

theorem exists_item_of_option {option : NamedOption} {joined : Option Bytes} {next : Reading}
    (hread : (continued given).beginValued option.argument joined = .ok next)
    (hok : next.conclude program rest = .ok last) :
    ∃ item : Item, item.WellFormed ∧ item.elements <+:
      (Token.dash :: Token.dash :: Token.joinedTo (Utf8.encode option.name) joined) :: rest := by
  cases joined with
  | some value =>
      obtain ⟨text, rfl⟩ := exists_encode_of_joined option hread
      refine ⟨.joined option text, trivial, rest, ?_⟩
      rw [Item.elements, encode_joined, List.singleton_append]
  | none =>
      obtain ⟨text, rest', rfl, hword⟩ := exists_encode_of_waits option hread hok
      refine ⟨.apart option text, hword, rest', ?_⟩
      rw [Item.elements, encode_apart]
      rfl

/-- A bundle that is read is one of the three. -/
theorem exists_item_of_bundle {letters : Bytes} {next : Reading} (hletters : letters ≠ [])
    (hread : (continued given).readBundle program letters = .ok next)
    (hok : next.conclude program rest = .ok last) :
    ∃ item : Item, item.WellFormed ∧ item.elements <+: (Token.dash :: letters) :: rest := by
  obtain ⟨count, rfl | ⟨attached, before, rfl, hbegin⟩⟩ := exists_letters_of_readBundle hread
  · have hcount : count ≠ 0 := by
      rintro rfl
      exact hletters rfl
    have helement := encode_letters count []
    rw [List.append_nil, Utf8.encode_nil, List.append_nil] at helement
    exact ⟨.bundle count, hcount, rest, by rw [Item.elements, helement]; rfl⟩
  cases hjoined : joinedValue? attached with
  | none =>
      obtain rfl : attached = [] := by
        cases attached with
        | nil => rfl
        | cons first more =>
            rw [joinedValue?] at hjoined
            split at hjoined <;> contradiction
      obtain ⟨text, rest', rfl, hword⟩ := exists_encode_of_waits .exclude hbegin hok
      refine ⟨.bundleApart count text, hword, rest', ?_⟩
      rw [Item.elements, encode_letters]
      rfl
  | some value =>
      rw [hjoined] at hbegin
      obtain ⟨text, rfl⟩ := exists_encode_of_joined .exclude hbegin
      obtain ⟨attached, hattached, hencode⟩ := exists_encode_of_joinedValue? hjoined
      refine ⟨.bundleJoined count attached, hattached, rest, ?_⟩
      rw [Item.elements, encode_letters, Utf8.encode_cons, hencode]
      rfl

/-- Where a command line is accepted, it begins with an item, unless with two dashes. -/
theorem exists_item (hok : (continued given).conclude program (element :: rest) = .ok last)
    (helement : Token.ofBytes element ≠ .endOfOptions) :
    ∃ item : Item, item.WellFormed ∧ item.elements <+: element :: rest := by
  obtain ⟨next, hread, hnext⟩ := exists_read_of_conclude hok
  -- a token keeps all bytes of its element, so it tells how the element was written
  have hwritten := Token.written_ofBytes element
  cases htoken : Token.ofBytes element with
  | endOfOptions => contradiction
  | long name joined =>
      rw [read_long rfl htoken, readLong] at hread
      rw [htoken, Token.written] at hwritten
      subst hwritten
      cases hname : Argument.ofLongName? name with
      | none => simp [hname] at hread
      | some argument =>
          rw [hname] at hread
          rcases Argument.ofLongName?_eq_some hname with
            ⟨option, rfl, rfl⟩ | ⟨rfl, rfl⟩ | ⟨rfl, rfl⟩ | ⟨flag, hflag, rfl⟩
          · exact exists_item_of_option hread hnext
          · cases joined with
            | none => exact ⟨.verbose, trivial, rest, rfl⟩
            | some value => contradiction
          · cases joined with
            | none => exact ⟨.dryRun, trivial, rest, rfl⟩
            | some value => contradiction
          · cases joined with
            | none => exact absurd hread (beginFlag_ne_ok hflag)
            | some value => contradiction
  | bundle letters =>
      rw [read_bundle rfl htoken] at hread
      rw [htoken, Token.written] at hwritten
      subst hwritten
      exact exists_item_of_bundle (Token.ne_nil_of_ofBytes_eq_bundle htoken) hread hnext
  | word word =>
      obtain ⟨-, hword⟩ := Token.ofBytes_eq_word_iff.1 htoken
      exact ⟨.root element, hword, rest, rfl⟩

/-! ## Behind two dashes -/

/-- Behind two dashes any element is read as the root, where there is none. -/
theorem conclude_ended_root_iff {path : Path} :
    conclude program ⟨given, none, true⟩ [path] = .ok last ↔
      given.root = none ∧ given.takeValue path .root = .ok last := by
  cases hroot : given.root with
  | some root => simp [conclude, readAll, read, readRoot, hasRoot, hroot]
  | none => simp [conclude, readAll, read, readRoot, hasRoot, hroot, settled]

/-- Two elements behind two dashes are one too many. -/
theorem conclude_ended_ne_ok {first second : Bytes} :
    conclude program ⟨given, none, true⟩ (first :: second :: rest) ≠ .ok last := by
  cases hroot : given.root with
  | some root => simp [conclude, readAll, read, readRoot, hasRoot, hroot]
  | none => simp [conclude, readAll, read, readRoot, hasRoot, hroot, settled]

theorem conclude_dashes :
    (continued given).conclude program (Utf8.encode "--".toList :: rest) =
      conclude program ⟨given, none, true⟩ rest :=
  conclude_cons_of_ok (read_endOfOptions rfl (by decide))

theorem conclude_remainder_iff {mentions : Mentions} (hallowed : mentions.Allowed)
    (remainder : Remainder) :
    (continued mentions.given).conclude program remainder.elements = .ok last ↔
      (mentions.add remainder.mentions).Allowed ∧
        last = (mentions.add remainder.mentions).given := by
  cases remainder with
  | absent =>
      simp [Remainder.elements, Remainder.mentions, conclude, readAll, continued, settled,
        hallowed, eq_comm]
  | empty =>
      rw [Remainder.elements, conclude_dashes]
      simp [Remainder.mentions, conclude, readAll, settled, hallowed, eq_comm]
  | root path =>
      rw [Remainder.elements, conclude_dashes, conclude_ended_root_iff,
        Mentions.root_eq_none_and_takeValue_iff hallowed]
      rfl

/-- Where a command line is accepted, two dashes are the end or have one root behind them. -/
theorem exists_remainder
    (hok : (continued given).conclude program (Utf8.encode "--".toList :: rest) = .ok last) :
    ∃ remainder : Remainder, remainder.elements = Utf8.encode "--".toList :: rest := by
  rw [conclude_dashes] at hok
  match rest, hok with
  | [], _ => exact ⟨.empty, rfl⟩
  | [path], _ => exact ⟨.root path, rfl⟩
  | _ :: _ :: _, hok => exact absurd hok conclude_ended_ne_ok

/-! ## The whole command line -/

/-- What is written in words that are well formed is read exactly when it is allowed, and
says what they say. -/
theorem conclude_wording_iff {mentions : Mentions} (hallowed : mentions.Allowed)
    {wording : Wording} (hitems : ∀ item ∈ wording.items, item.WellFormed) :
    (continued mentions.given).conclude program wording.elements = .ok last ↔
      (mentions.add wording.mentions).Allowed ∧ last = (mentions.add wording.mentions).given := by
  obtain ⟨items, remainder⟩ := wording
  -- each item moves from the wording to what was said before it
  induction items generalizing mentions with
  | nil => exact conclude_remainder_iff hallowed remainder
  | cons item items ih =>
      have hitem : item.WellFormed := hitems item List.mem_cons_self
      have hrest : ∀ item ∈ items, item.WellFormed :=
        fun item hmem => hitems item (List.mem_cons_of_mem _ hmem)
      have helements : Wording.elements ⟨item :: items, remainder⟩ =
          item.elements ++ Wording.elements ⟨items, remainder⟩ := by
        simp [Wording.elements]
      have hmentions : mentions.add (Wording.mentions ⟨item :: items, remainder⟩) =
          (mentions.add item.mentions).add (Wording.mentions ⟨items, remainder⟩) :=
        (Mentions.add_assoc _ _ _).symm
      rw [helements, hmentions, conclude_item_iff hallowed hitem]
      constructor
      · rintro ⟨hadded, hok⟩
        exact (ih hadded hrest).1 hok
      · rintro ⟨hadded, hlast⟩
        exact ⟨hadded.of_add, (ih hadded.of_add hrest).2 ⟨hadded, hlast⟩⟩

/-- Whatever is accepted is made of items that are well formed, and of what may stand behind
them. -/
theorem exists_wording {mentions : Mentions} (hallowed : mentions.Allowed) {elements : List Bytes}
    (hok : (continued mentions.given).conclude program elements = .ok last) :
    ∃ wording : Wording, wording.elements = elements ∧
      ∀ item ∈ wording.items, item.WellFormed := by
  match elements, hok with
  | [], _ => exact ⟨⟨[], .absent⟩, rfl, nofun⟩
  | element :: rest, hok =>
      -- two dashes end the items, and anything else begins one
      by_cases htoken : Token.ofBytes element = .endOfOptions
      · obtain rfl : Utf8.encode "--".toList = element := by
          rw [← Token.written_ofBytes element, htoken]
          rfl
        obtain ⟨remainder, hremainder⟩ := exists_remainder hok
        exact ⟨⟨[], remainder⟩, hremainder, nofun⟩
      · obtain ⟨item, hitem, rest', hrest⟩ := exists_item hok htoken
        rw [← hrest] at hok
        obtain ⟨hadded, hok'⟩ := (conclude_item_iff hallowed hitem).1 hok
        have hshorter : rest'.length < (element :: rest).length := by
          have hpos := List.length_pos_iff.2 item.elements_ne_nil
          rw [← hrest, List.length_append]
          omega
        obtain ⟨wording, hwording, hitems⟩ := exists_wording hadded hok'
        refine ⟨⟨item :: wording.items, wording.remainder⟩, ?_, ?_⟩
        · rw [← hrest, ← hwording]
          simp [Wording.elements]
        · exact List.forall_mem_cons.2 ⟨hitem, hitems⟩
termination_by elements.length
decreasing_by
  exact hshorter

end Reading

namespace Settings

/-- What a command line sets is what is read from the start, up to its end. -/
theorem ofCommandLine_cons (program : Path) (elements : List Bytes) :
    ofCommandLine (program :: elements) =
      (Reading.start.conclude (calledName program) elements).map Given.settings := by
  rw [ofCommandLine, Reading.conclude, List.headD_cons, List.tail_cons]
  cases Reading.start.readAll (calledName program) elements <;> rfl

/-- A command line is accepted exactly when it is made of well-formed items, and maybe two
dashes and one more root, and names no root, extension or dry run twice.  The settings are
what these say, with defaults for the rest. -/
theorem ofCommandLine_eq_ok_iff {program : Path} {elements : List Bytes} {settings : Settings} :
    ofCommandLine (program :: elements) = .ok settings ↔
      ∃ wording : Wording, wording.elements = elements ∧ wording.WellFormed ∧
        wording.mentions.settings = settings := by
  have hstart : Reading.start = Reading.continued Mentions.nothing.given := rfl
  rw [ofCommandLine_cons, hstart]
  constructor
  · intro hok
    cases hconclude : (Reading.continued Mentions.nothing.given).conclude (calledName program)
        elements with
    | error stop => simp [hconclude, Except.map] at hok
    | ok last =>
        obtain rfl : last.settings = settings := by simpa [hconclude, Except.map] using hok
        obtain ⟨wording, rfl, hitems⟩ :=
          Reading.exists_wording Mentions.allowed_nothing hconclude
        obtain ⟨hallowed, rfl⟩ :=
          (Reading.conclude_wording_iff Mentions.allowed_nothing hitems).1 hconclude
        rw [Mentions.nothing_add] at hallowed ⊢
        exact ⟨wording, rfl, ⟨hitems, hallowed⟩, wording.mentions.settings_given.symm⟩
  · rintro ⟨wording, rfl, ⟨hitems, hallowed⟩, rfl⟩
    have hconclude : (Reading.continued Mentions.nothing.given).conclude (calledName program)
        wording.elements = .ok (Mentions.nothing.add wording.mentions).given :=
      (Reading.conclude_wording_iff Mentions.allowed_nothing hitems).2
        ⟨by rwa [Mentions.nothing_add], rfl⟩
    rw [hconclude, Mentions.nothing_add, ← wording.mentions.settings_given]
    rfl

end Settings

end ImportSuffix

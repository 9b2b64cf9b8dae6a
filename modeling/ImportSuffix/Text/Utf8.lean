/-!
# Text and its UTF-8 bytes

A text is a list of characters, and a byte string is a list of bytes.  File
contents, file names and command line arguments are byte strings that need not
be UTF-8, so decoding has two forms: `decode?` refuses ill-formed input, and
`lossy` shows every maximal ill-formed part as U+FFFD.

The main statement is `decode?_encode`: decoding an encoded text gives it back.
-/

namespace ImportSuffix

/-- A text is the list of its characters. -/
abbrev Text := List Char

/-- A byte string, which need not be UTF-8. -/
abbrev Bytes := List UInt8

namespace Utf8

def encode (text : Text) : Bytes :=
  text.flatMap String.utf8EncodeChar

/-- Bytes `80` to `BF` continue a sequence. -/
def isContinuation (byte : UInt8) : Bool :=
  0x80 ≤ byte.toNat && byte.toNat ≤ 0xbf

/-- The second byte of a three-byte sequence, given its first: `E0` would be
overlong below `A0`, and `ED` would encode a surrogate above `9F`. -/
def isSecondOfThree (first second : UInt8) : Bool :=
  (if first.toNat = 0xe0 then 0xa0 else 0x80) ≤ second.toNat &&
    second.toNat ≤ (if first.toNat = 0xed then 0x9f else 0xbf)

/-- The second byte of a four-byte sequence, given its first: `F0` would be
overlong below `90`, and `F4` would pass U+10FFFF above `8F`. -/
def isSecondOfFour (first second : UInt8) : Bool :=
  (if first.toNat = 0xf0 then 0x90 else 0x80) ≤ second.toNat &&
    second.toNat ≤ (if first.toNat = 0xf4 then 0x8f else 0xbf)

/-- What a byte string begins with: a character, or `none` for a maximal
ill-formed part, and how many bytes after the first belong to it. -/
def front (first : UInt8) (rest : Bytes) : Option Char × Nat :=
  if first.toNat < 0x80 then (some (Char.ofNat first.toNat), 0)
  else if 0xc2 ≤ first.toNat ∧ first.toNat ≤ 0xdf then
    match rest with
    | second :: _ =>
        if isContinuation second then
          (some (Char.ofNat ((first.toNat - 0xc0) * 64 + (second.toNat - 0x80))), 1)
        else (none, 0)
    | [] => (none, 0)
  else if 0xe0 ≤ first.toNat ∧ first.toNat ≤ 0xef then
    match rest with
    | second :: rest =>
        if isSecondOfThree first second then
          match rest with
          | third :: _ =>
              if isContinuation third then
                (some (Char.ofNat ((first.toNat - 0xe0) * 4096 +
                  (second.toNat - 0x80) * 64 + (third.toNat - 0x80))), 2)
              else (none, 1)
          | [] => (none, 1)
        else (none, 0)
    | [] => (none, 0)
  else if 0xf0 ≤ first.toNat ∧ first.toNat ≤ 0xf4 then
    match rest with
    | second :: rest =>
        if isSecondOfFour first second then
          match rest with
          | third :: rest =>
              if isContinuation third then
                match rest with
                | fourth :: _ =>
                    if isContinuation fourth then
                      (some (Char.ofNat ((first.toNat - 0xf0) * 262144 +
                        (second.toNat - 0x80) * 4096 + (third.toNat - 0x80) * 64 +
                          (fourth.toNat - 0x80))), 3)
                    else (none, 2)
                | [] => (none, 2)
              else (none, 1)
          | [] => (none, 1)
        else (none, 0)
    | [] => (none, 0)
  else (none, 0)

/-- Reads the units of a byte string onto `done`, which is in reverse order;
the first `skip` bytes belong to a unit that was already read. -/
def unitsOnto (done : List (Option Char)) : (skip : Nat) → Bytes → List (Option Char)
  | _, [] => done.reverse
  | skip + 1, _ :: rest => unitsOnto done skip rest
  | 0, first :: rest =>
      unitsOnto ((front first rest).1 :: done) (front first rest).2 rest

/-- The characters of a byte string in order, with `none` for every maximal
ill-formed part. -/
def units (bytes : Bytes) : List (Option Char) :=
  unitsOnto [] 0 bytes

/-- The text that the bytes encode, or `none` if they are not UTF-8. -/
def decode? (bytes : Bytes) : Option Text :=
  (units bytes).mapM id

/-- The text that the bytes are shown as: every maximal ill-formed part becomes
U+FFFD. -/
def lossy (bytes : Bytes) : Text :=
  (units bytes).map (·.getD '\ufffd')

theorem encode_nil : encode [] = [] := rfl

@[simp]
theorem encode_cons (c : Char) (text : Text) :
    encode (c :: text) = String.utf8EncodeChar c ++ encode text := rfl

@[simp]
theorem encode_append (left right : Text) :
    encode (left ++ right) = encode left ++ encode right := by
  simp [encode]

/-- What was read before stays in front of what is read next. -/
theorem unitsOnto_eq_append (done : List (Option Char)) (skip : Nat) (bytes : Bytes) :
    unitsOnto done skip bytes = done.reverse ++ unitsOnto [] skip bytes := by
  induction bytes generalizing done skip with
  | nil => cases skip <;> simp [unitsOnto]
  | cons first rest ih =>
      cases skip with
      | succ skip => simpa [unitsOnto] using ih done skip
      | zero =>
          rw [unitsOnto, ih, unitsOnto, ih [(front first rest).1]]
          simp

theorem unitsOnto_skip (done : List (Option Char)) (skip : Nat) (bytes : Bytes) :
    unitsOnto done skip bytes = unitsOnto done 0 (bytes.drop skip) := by
  induction bytes generalizing skip with
  | nil => cases skip <;> simp [unitsOnto]
  | cons first rest ih =>
      cases skip with
      | succ skip => simpa [unitsOnto] using ih skip
      | zero => rfl

/-- A byte string is its first unit, and then the units of what follows. -/
theorem units_cons (first : UInt8) (rest : Bytes) :
    units (first :: rest) =
      (front first rest).1 :: units (rest.drop (front first rest).2) := by
  rw [units, unitsOnto, unitsOnto_eq_append, unitsOnto_skip]
  rfl

theorem toNat_ofNat_of_lt {n : Nat} (hlt : n < 256) : (UInt8.ofNat n).toNat = n := by
  rw [UInt8.toNat_ofNat']
  exact Nat.mod_eq_of_lt hlt

/-- A byte below `80` is a character. -/
theorem front_of_one {first : Nat} (hfirst : first < 0x80) (rest : Bytes) :
    front (UInt8.ofNat first) rest = (some (Char.ofNat first), 0) := by
  have hvalue := toNat_ofNat_of_lt (show first < 256 by omega)
  simp only [front, hvalue]
  rw [if_pos hfirst]

theorem front_of_two {first second : Nat} (hfirst : 0xc2 ≤ first ∧ first ≤ 0xdf)
    (hsecond : 0x80 ≤ second ∧ second ≤ 0xbf) (rest : Bytes) :
    front (UInt8.ofNat first) (UInt8.ofNat second :: rest) =
      (some (Char.ofNat ((first - 0xc0) * 64 + (second - 0x80))), 1) := by
  have hvalue := toNat_ofNat_of_lt (show first < 256 by omega)
  have hvalue₂ := toNat_ofNat_of_lt (show second < 256 by omega)
  simp only [front, isContinuation, hvalue, hvalue₂, Bool.and_eq_true, decide_eq_true_eq]
  rw [if_neg (by omega), if_pos hfirst, if_pos hsecond]

theorem front_of_three {first second third : Nat} (hfirst : 0xe0 ≤ first ∧ first ≤ 0xef)
    (hsecond : (if first = 0xe0 then 0xa0 else 0x80) ≤ second ∧
      second ≤ (if first = 0xed then 0x9f else 0xbf))
    (hthird : 0x80 ≤ third ∧ third ≤ 0xbf) (rest : Bytes) :
    front (UInt8.ofNat first) (UInt8.ofNat second :: UInt8.ofNat third :: rest) =
      (some (Char.ofNat ((first - 0xe0) * 4096 + (second - 0x80) * 64 + (third - 0x80))), 2) := by
  have hvalue := toNat_ofNat_of_lt (show first < 256 by omega)
  have hbound : second < 256 := by
    have := hsecond.2
    split at this <;> omega
  have hvalue₂ := toNat_ofNat_of_lt hbound
  have hvalue₃ := toNat_ofNat_of_lt (show third < 256 by omega)
  simp only [front, isContinuation, isSecondOfThree, hvalue, hvalue₂, hvalue₃, Bool.and_eq_true,
    decide_eq_true_eq]
  rw [if_neg (by omega), if_neg (by omega), if_pos hfirst, if_pos hsecond, if_pos hthird]

theorem front_of_four {first second third fourth : Nat} (hfirst : 0xf0 ≤ first ∧ first ≤ 0xf4)
    (hsecond : (if first = 0xf0 then 0x90 else 0x80) ≤ second ∧
      second ≤ (if first = 0xf4 then 0x8f else 0xbf))
    (hthird : 0x80 ≤ third ∧ third ≤ 0xbf) (hfourth : 0x80 ≤ fourth ∧ fourth ≤ 0xbf)
    (rest : Bytes) :
    front (UInt8.ofNat first)
        (UInt8.ofNat second :: UInt8.ofNat third :: UInt8.ofNat fourth :: rest) =
      (some (Char.ofNat ((first - 0xf0) * 262144 + (second - 0x80) * 4096 +
        (third - 0x80) * 64 + (fourth - 0x80))), 3) := by
  have hvalue := toNat_ofNat_of_lt (show first < 256 by omega)
  have hbound : second < 256 := by
    have := hsecond.2
    split at this <;> omega
  have hvalue₂ := toNat_ofNat_of_lt hbound
  have hvalue₃ := toNat_ofNat_of_lt (show third < 256 by omega)
  have hvalue₄ := toNat_ofNat_of_lt (show fourth < 256 by omega)
  simp only [front, isContinuation, isSecondOfFour, hvalue, hvalue₂, hvalue₃, hvalue₄,
    Bool.and_eq_true, decide_eq_true_eq]
  rw [if_neg (by omega), if_neg (by omega), if_neg (by omega), if_pos hfirst, if_pos hsecond,
    if_pos hthird, if_pos hfourth]

/-- The first unit of an encoded character is that character, and no byte of it
is left over. -/
theorem units_encodeChar_append (c : Char) (rest : Bytes) :
    units (String.utf8EncodeChar c ++ rest) = some c :: units rest := by
  have hvalid : c.val.toNat < 0xd800 ∨ 0xdfff < c.val.toNat ∧ c.val.toNat < 0x110000 :=
    c.valid
  have hchar : Char.ofNat c.val.toNat = c := Char.ofNat_toNat c
  unfold String.utf8EncodeChar
  generalize c.val.toNat = code at hvalid hchar
  dsimp only
  split
  next hone =>
    rw [List.singleton_append, units_cons, front_of_one (by omega), hchar]
    rfl
  next hone =>
  split
  next htwo =>
    have hsum : (code / 64 % 32 + 192 - 0xc0) * 64 + (code % 64 + 128 - 0x80) = code := by omega
    simp only [List.cons_append, List.nil_append]
    rw [units_cons, front_of_two (by omega) (by omega), hsum, hchar]
    rfl
  next htwo =>
  split
  next hthree =>
    have hsum : (code / 4096 % 16 + 224 - 0xe0) * 4096 + (code / 64 % 64 + 128 - 0x80) * 64 +
        (code % 64 + 128 - 0x80) = code := by omega
    simp only [List.cons_append, List.nil_append]
    rw [units_cons, front_of_three (by omega) (by split <;> split <;> omega) (by omega), hsum,
      hchar]
    rfl
  next hthree =>
    have hsum : (code / 262144 % 8 + 240 - 0xf0) * 262144 +
        (code / 4096 % 64 + 128 - 0x80) * 4096 + (code / 64 % 64 + 128 - 0x80) * 64 +
          (code % 64 + 128 - 0x80) = code := by omega
    simp only [List.cons_append, List.nil_append]
    rw [units_cons, front_of_four (by omega) (by split <;> split <;> omega) (by omega) (by omega),
      hsum, hchar]
    rfl

@[simp]
theorem units_encode (text : Text) : units (encode text) = text.map some := by
  induction text with
  | nil => rfl
  | cons c text ih => simp [units_encodeChar_append, ih]

@[simp]
theorem decode?_encode (text : Text) : decode? (encode text) = some text := by
  simp only [decode?, units_encode]
  induction text with
  | nil => rfl
  | cons c text ih => simp [ih]

theorem encode_injective {left right : Text} (heq : encode left = encode right) :
    left = right := by
  simpa using congrArg decode? heq

end Utf8

end ImportSuffix

import ImportSuffix.Text.Utf8

/-!
# Encoding undoes decoding

Every well-formed sequence is the one sequence of the character that it stands for:
overlong sequences and surrogates are ill-formed.  So a byte string that can be
decoded is what its text encodes to (`encode_of_decode?`).
-/

namespace ImportSuffix.Utf8

theorem encodeChar_ofNat {code : Nat} (hvalid : code.isValidChar) :
    String.utf8EncodeChar (Char.ofNat code) =
      if code ≤ 0x7f then [UInt8.ofNat code]
      else if code ≤ 0x7ff then
        [UInt8.ofNat (code / 64 % 0x20 + 0xc0), UInt8.ofNat (code % 0x40 + 0x80)]
      else if code ≤ 0xffff then
        [UInt8.ofNat (code / 4096 % 0x10 + 0xe0), UInt8.ofNat (code / 64 % 0x40 + 0x80),
          UInt8.ofNat (code % 0x40 + 0x80)]
      else
        [UInt8.ofNat (code / 262144 % 0x08 + 0xf0), UInt8.ofNat (code / 4096 % 0x40 + 0x80),
          UInt8.ofNat (code / 64 % 0x40 + 0x80), UInt8.ofNat (code % 0x40 + 0x80)] := by
  have hvalue : (Char.ofNat code).val.toNat = code := by
    rw [Char.ofNat, dif_pos hvalid]
    rfl
  simp only [String.utf8EncodeChar, hvalue]

theorem encodeChar_one {first : UInt8} (hfirst : first.toNat < 0x80) :
    String.utf8EncodeChar (Char.ofNat first.toNat) = [first] := by
  rw [encodeChar_ofNat (.inl (by omega)), if_pos (by omega), UInt8.ofNat_toNat]

theorem ofNat_eq (byte : UInt8) {n : Nat} (heq : n = byte.toNat) : UInt8.ofNat n = byte := by
  rw [heq, UInt8.ofNat_toNat]

theorem isContinuation_iff {byte : UInt8} :
    isContinuation byte = true ↔ 0x80 ≤ byte.toNat ∧ byte.toNat ≤ 0xbf := by
  simp [isContinuation]

theorem encodeChar_two {first second : UInt8}
    (hfirst : 0xc2 ≤ first.toNat ∧ first.toNat ≤ 0xdf) (hsecond : isContinuation second) :
    String.utf8EncodeChar
        (Char.ofNat ((first.toNat - 0xc0) * 64 + (second.toNat - 0x80))) = [first, second] := by
  rw [isContinuation_iff] at hsecond
  generalize hcode : (first.toNat - 0xc0) * 64 + (second.toNat - 0x80) = code
  rw [encodeChar_ofNat (.inl (by omega)), if_neg (by omega), if_pos (by omega),
    ofNat_eq first (by omega), ofNat_eq second (by omega)]

theorem encodeChar_three {first second third : UInt8}
    (hfirst : 0xe0 ≤ first.toNat ∧ first.toNat ≤ 0xef)
    (hsecond : isSecondOfThree first second) (hthird : isContinuation third) :
    String.utf8EncodeChar (Char.ofNat ((first.toNat - 0xe0) * 4096 +
        (second.toNat - 0x80) * 64 + (third.toNat - 0x80))) = [first, second, third] := by
  rw [isContinuation_iff] at hthird
  simp only [isSecondOfThree, Bool.and_eq_true, decide_eq_true_eq] at hsecond
  generalize hcode : (first.toNat - 0xe0) * 4096 + (second.toNat - 0x80) * 64 +
    (third.toNat - 0x80) = code
  have hlow : 0x80 ≤ second.toNat ∧ second.toNat ≤ 0xbf := by
    split at hsecond <;> split at hsecond <;> omega
  have hvalid : code.isValidChar := by
    split at hsecond <;> split at hsecond <;> omega
  have hlarge : ¬code ≤ 0x7ff := by
    split at hsecond <;> omega
  rw [encodeChar_ofNat hvalid, if_neg (by omega), if_neg hlarge, if_pos (by omega),
    ofNat_eq first (by omega), ofNat_eq second (by omega), ofNat_eq third (by omega)]

theorem encodeChar_four {first second third fourth : UInt8}
    (hfirst : 0xf0 ≤ first.toNat ∧ first.toNat ≤ 0xf4)
    (hsecond : isSecondOfFour first second) (hthird : isContinuation third)
    (hfourth : isContinuation fourth) :
    String.utf8EncodeChar (Char.ofNat ((first.toNat - 0xf0) * 262144 +
        (second.toNat - 0x80) * 4096 + (third.toNat - 0x80) * 64 + (fourth.toNat - 0x80))) =
      [first, second, third, fourth] := by
  rw [isContinuation_iff] at hthird hfourth
  simp only [isSecondOfFour, Bool.and_eq_true, decide_eq_true_eq] at hsecond
  generalize hcode : (first.toNat - 0xf0) * 262144 + (second.toNat - 0x80) * 4096 +
    (third.toNat - 0x80) * 64 + (fourth.toNat - 0x80) = code
  have hlow : 0x80 ≤ second.toNat ∧ second.toNat ≤ 0xbf := by
    split at hsecond <;> split at hsecond <;> omega
  have hvalid : 0xffff < code ∧ code < 0x110000 := by
    split at hsecond <;> split at hsecond <;> omega
  rw [encodeChar_ofNat (.inr (by omega)), if_neg (by omega), if_neg (by omega),
    if_neg (by omega), ofNat_eq first (by omega), ofNat_eq second (by omega),
    ofNat_eq third (by omega), ofNat_eq fourth (by omega)]

/-- What a byte string begins with is how its first character is encoded. -/
theorem encodeChar_of_front {first : UInt8} {rest : Bytes} {c : Char}
    (hfront : (front first rest).1 = some c) :
    String.utf8EncodeChar c ++ rest.drop (front first rest).2 = first :: rest := by
  revert hfront
  fun_cases front first rest
  case case1 hfirst =>
    intro hfront
    rw [← Option.some.inj hfront, encodeChar_one hfirst]
    rfl
  case case2 hfirst second rest hsecond =>
    intro hfront
    rw [← Option.some.inj hfront, encodeChar_two hfirst hsecond]
    rfl
  case case5 hfirst second hsecond third rest hthird =>
    intro hfront
    rw [← Option.some.inj hfront, encodeChar_three hfirst hsecond hthird]
    rfl
  case case10 hfirst second hsecond third hthird fourth rest hfourth =>
    intro hfront
    rw [← Option.some.inj hfront, encodeChar_four hfirst hsecond hthird hfourth]
    rfl
  -- what remains is ill-formed
  all_goals exact nofun

/-- The text of a byte string is its first character and the text of what follows. -/
theorem decode?_cons_eq_some_iff {first : UInt8} {rest : Bytes} {text : Text} :
    decode? (first :: rest) = some text ↔
      ∃ c later, (front first rest).1 = some c ∧
        decode? (rest.drop (front first rest).2) = some later ∧ text = c :: later := by
  rw [decode?, units_cons, decode?, List.mapM_cons]
  cases (front first rest).1 with
  | none => simp
  | some c =>
      generalize (units (rest.drop (front first rest).2)).mapM id = later?
      cases later? with
      | none => simp
      | some later => simp [eq_comm]

/-- Encoding undoes decoding. -/
theorem encode_of_decode? {data : Bytes} {text : Text} (hdecode : decode? data = some text) :
    encode text = data := by
  match data with
  | [] =>
      obtain rfl : [] = text := Option.some.inj hdecode
      rfl
  | first :: rest =>
      obtain ⟨c, later, hfront, hlater, rfl⟩ := decode?_cons_eq_some_iff.1 hdecode
      rw [encode_cons, encode_of_decode? hlater]
      exact encodeChar_of_front hfront
termination_by data.length
decreasing_by
  rw [List.length_cons, List.length_drop]
  exact Nat.lt_succ_of_le (Nat.sub_le _ _)

/-- A byte below `80` is the whole of one character and no part of any other. -/
theorem mem_encodeChar_iff {byte : UInt8} (hbyte : byte.toNat < 0x80) {c : Char} :
    byte ∈ String.utf8EncodeChar c ↔ c.toNat = byte.toNat := by
  have hlimit : c.val.toNat < 0xd800 ∨ 0xdfff < c.val.toNat ∧ c.val.toNat < 0x110000 :=
    c.valid
  change byte ∈ String.utf8EncodeChar c ↔ c.val.toNat = byte.toNat
  unfold String.utf8EncodeChar
  generalize c.val.toNat = code at hlimit
  dsimp only
  split
  next hone =>
    simp [← UInt8.toNat_inj]
    omega
  next =>
  split
  next htwo =>
    simp [← UInt8.toNat_inj]
    omega
  next =>
  split
  next hthree =>
    simp [← UInt8.toNat_inj]
    omega
  next =>
    simp [← UInt8.toNat_inj]
    omega

/-- A text holds a character whose only byte is below `80` where its bytes hold that
byte. -/
theorem mem_encode_iff {byte : UInt8} (hbyte : byte.toNat < 0x80) {text : Text} :
    byte ∈ encode text ↔ Char.ofNat byte.toNat ∈ text := by
  simp only [encode, List.mem_flatMap, mem_encodeChar_iff hbyte]
  constructor
  · rintro ⟨c, hmem, hcode⟩
    rwa [← hcode, Char.ofNat_toNat]
  · intro hmem
    refine ⟨_, hmem, ?_⟩
    rw [Char.ofNat, dif_pos (.inl (by omega))]
    rfl

/-- A byte below `80` begins a character, so what it begins ends the bytes of a text just when
its characters end the text. -/
theorem cons_encode_isSuffix_iff {byte : UInt8} (hbyte : byte.toNat < 0x80) {tail text : Text} :
    byte :: encode tail <:+ encode text ↔ Char.ofNat byte.toNat :: tail <:+ text := by
  have hencode : encode (Char.ofNat byte.toNat :: tail) = byte :: encode tail := by
    rw [encode_cons, encodeChar_one hbyte, List.singleton_append]
  constructor
  · intro hsuffix
    induction text with
    | nil => simp [encode_nil] at hsuffix
    | cons c text ih =>
        obtain ⟨front, hfront⟩ := hsuffix
        rw [encode_cons] at hfront
        rcases List.append_eq_append_iff.1 hfront with
          ⟨seam, hchar, hbytes⟩ | ⟨seam, -, htext⟩
        · cases seam with
          | nil => exact (ih ⟨[], by simpa using hbytes⟩).trans (List.suffix_cons c text)
          | cons first seam =>
              -- a byte below `80` in a character is the whole of it
              obtain ⟨rfl, htail⟩ := List.cons.inj hbytes
              have hmem : byte ∈ String.utf8EncodeChar c := by simp [hchar]
              have hc : Char.ofNat byte.toNat = c := by
                rw [← (mem_encodeChar_iff hbyte).1 hmem, Char.ofNat_toNat]
              rw [← hc, encodeChar_one hbyte] at hchar
              have hlength := congrArg List.length hchar
              simp only [List.length_append, List.length_cons, List.length_nil] at hlength
              obtain rfl : seam = [] := List.length_eq_zero_iff.1 (by omega)
              exact ⟨[], by rw [hc, encode_injective htail, List.nil_append]⟩
        · exact (ih ⟨seam, htext.symm⟩).trans (List.suffix_cons c text)
  · rintro ⟨front, rfl⟩
    exact ⟨encode front, by rw [encode_append, hencode]⟩

end ImportSuffix.Utf8

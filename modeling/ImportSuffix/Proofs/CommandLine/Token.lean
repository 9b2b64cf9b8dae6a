import ImportSuffix.CommandLine.Reading
import ImportSuffix.Proofs.Text.Utf8

/-!
# Elements and what they are taken for

What an element is taken for says how it was written, so no byte of it is lost
(`written_ofBytes`).  The other way round, what is written as a word, as a long name or as
letters is taken for that.
-/

namespace ImportSuffix

namespace Token

/-- The element is taken for a word: it does not begin with a dash, or is nothing else. -/
def IsWord (element : Bytes) : Prop :=
  element.head? = some dash → element = [dash]

instance (element : Bytes) : Decidable (IsWord element) :=
  inferInstanceAs (Decidable (_ → _))

/-- A name, and the value that an equals sign joins to it. -/
def joinedTo (name : Bytes) : (value : Option Bytes) → Bytes
  | none => name
  | some value => name ++ equals :: value

def written : Token → Bytes
  | .endOfOptions => [dash, dash]
  | .long name value => dash :: dash :: joinedTo name value
  | .bundle letters => dash :: letters
  | .word bytes => bytes

theorem joinedTo_cutAtEquals (text : Bytes) :
    joinedTo (cutAtEquals text).1 (cutAtEquals text).2 = text := by
  have hhead := List.head?_dropWhile_not (fun byte => decide (byte ≠ equals)) text
  rw [cutAtEquals]
  split
  next => rfl
  next c value hdrop =>
    rw [hdrop] at hhead
    obtain rfl : c = equals := by simpa using hhead
    rw [joinedTo, ← hdrop, List.takeWhile_append_dropWhile]

theorem cutAtEquals_joinedTo {name : Bytes} (hname : equals ∉ name) (value : Option Bytes) :
    cutAtEquals (joinedTo name value) = (name, value) := by
  have hin : ∀ byte ∈ name, decide (byte ≠ equals) = true := by
    intro byte hbyte
    simpa using ne_of_mem_of_not_mem hbyte hname
  cases value with
  | none =>
      have hdrop : name.dropWhile (fun byte => decide (byte ≠ equals)) = [] := by
        rw [← List.append_nil name, List.dropWhile_append_of_pos hin]
        rfl
      rw [joinedTo, cutAtEquals, hdrop]
  | some value =>
      have hdrop : (name ++ equals :: value).dropWhile (fun byte => decide (byte ≠ equals)) =
          equals :: value := by
        rw [List.dropWhile_append_of_pos hin]
        simp
      rw [joinedTo, cutAtEquals, hdrop, List.takeWhile_append_of_pos hin]
      simp

/-- What an element is taken for says how it was written. -/
theorem written_ofBytes (element : Bytes) : (ofBytes element).written = element := by
  fun_cases ofBytes element with
  | case1 => rfl
  | case2 first rest hfirst => rfl
  | case3 first hfirst => rfl
  | case4 first hfirst second more hsecond =>
      obtain rfl : first = dash := by simpa using hfirst
      rfl
  | case5 first hfirst second hsecond =>
      obtain rfl : first = dash := by simpa using hfirst
      obtain rfl : second = dash := by simpa using hsecond
      rfl
  | case6 first hfirst second more hsecond hmore =>
      obtain rfl : first = dash := by simpa using hfirst
      obtain rfl : second = dash := by simpa using hsecond
      rw [written, joinedTo_cutAtEquals]

theorem ofBytes_eq_word_iff {element word : Bytes} :
    ofBytes element = .word word ↔ element = word ∧ IsWord element := by
  constructor
  · intro hword
    obtain rfl : element = word := by
      rw [← written_ofBytes element, hword, written]
    refine ⟨rfl, ?_⟩
    revert hword
    fun_cases ofBytes element with
    | case1 => simp [IsWord]
    | case2 first rest hfirst => simp [IsWord, hfirst]
    | case3 first hfirst => simp [IsWord]
    | case4 => exact nofun
    | case5 => exact nofun
    | case6 => exact nofun
  · rintro ⟨rfl, hword⟩
    cases element with
    | nil => rfl
    | cons first rest =>
        by_cases hfirst : first = dash
        · obtain rfl : rest = [] := by simpa [IsWord, hfirst] using hword
          simp [ofBytes, hfirst]
        · simp [ofBytes, hfirst]

theorem ofBytes_eq_endOfOptions_iff {element : Bytes} :
    ofBytes element = .endOfOptions ↔ element = [dash, dash] := by
  constructor
  · intro htoken
    rw [← written_ofBytes element, htoken, written]
  · rintro rfl
    decide

theorem ofBytes_long {name : Bytes} (hname : equals ∉ name) (hnonempty : name ≠ [])
    (value : Option Bytes) :
    ofBytes (dash :: dash :: joinedTo name value) = .long name value := by
  have hmore : joinedTo name value ≠ [] := by
    cases value <;> simp [joinedTo, hnonempty]
  simp [ofBytes, hmore, cutAtEquals_joinedTo hname]

theorem ofBytes_bundle {letter : UInt8} (hletter : letter ≠ dash) (letters : Bytes) :
    ofBytes (dash :: letter :: letters) = .bundle (letter :: letters) := by
  simp [ofBytes, hletter]

theorem ne_nil_of_ofBytes_eq_bundle {element letters : Bytes}
    (hbundle : ofBytes element = .bundle letters) : letters ≠ [] := by
  revert hbundle
  fun_cases ofBytes element <;> simp +contextual [eq_comm]

end Token

end ImportSuffix

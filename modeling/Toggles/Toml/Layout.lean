/-! Blanks, comments and line endings of TOML text. -/

set_option autoImplicit false

namespace Toggles.Toml

def isBlank (c : Char) : Bool :=
  c == ' ' || c == '\t'

/-- Characters that comments and texts may hold: all but controls, and the tab. -/
def isShown (c : Char) : Bool :=
  c == '\t' || (0x20 ≤ c.toNat && c.toNat != 0x7F)

def skipBlanks (text : List Char) : List Char :=
  text.dropWhile isBlank

def skipLayout? (inComment : Bool) : List Char → Option (List Char)
  | [] => some []
  | '\n' :: rest => skipLayout? false rest
  | '\r' :: '\n' :: rest => skipLayout? false rest
  | c :: rest =>
      if inComment then if isShown c then skipLayout? true rest else none
      else if c = '#' then skipLayout? true rest
      else if isBlank c then skipLayout? false rest
      else some (c :: rest)

/-- Pass over what may end a line: blanks, a comment, and the line ending unless the
text is over. -/
def endLine? (inComment : Bool) : List Char → Option (List Char)
  | [] => some []
  | '\n' :: rest => some rest
  | '\r' :: '\n' :: rest => some rest
  | c :: rest =>
      if inComment then if isShown c then endLine? true rest else none
      else if c = '#' then endLine? true rest
      else if isBlank c then endLine? false rest
      else none

theorem length_skipBlanks_le (text : List Char) : (skipBlanks text).length ≤ text.length :=
  (List.dropWhile_sublist isBlank).length_le

theorem length_skipLayout?_le {inComment : Bool} {text rest : List Char}
    (skipped : skipLayout? inComment text = some rest) : rest.length ≤ text.length := by
  fun_induction skipLayout? inComment text <;> simp_all <;> omega

theorem length_endLine?_le {inComment : Bool} {text rest : List Char}
    (ended : endLine? inComment text = some rest) : rest.length ≤ text.length := by
  fun_induction endLine? inComment text <;> simp_all <;> omega

theorem length_endLine?_lt {inComment : Bool} {c : Char} {text rest : List Char}
    (ended : endLine? inComment (c :: text) = some rest) : rest.length < (c :: text).length := by
  unfold endLine? at ended
  split at ended
  · contradiction
  · simp_all
  · next same =>
    cases same
    cases ended
    simp only [List.length_cons]
    omega
  · next same =>
    cases same
    simp only [List.length_cons]
    repeat' split at ended
    all_goals first
      | contradiction
      | exact Nat.lt_succ_of_le (length_endLine?_le ended)

end Toggles.Toml

import Mathlib.Tactic.Common
import Mathlib.Data.Nat.Digits.Defs
import SeedPeg.Text.Quoted

/-!
# Escapes

Quoted texts can be told from each other and from what follows them. A character is read back from the way
in which it stands between quotes (`readChar_escape`), the code of one that is not shown as it is by the
value of its digits, and no such way begins with the quote. So the text ends with the first quote that no
character begins with, and its quotes, its characters and what follows are determined
(`quoted_unambiguous`), whatever characters are shown as they are.
-/

namespace SeedPeg.Text

/-! ## Codes -/

/-- The value of a hexadecimal digit. -/
def digitValue (c : Char) : Nat := if c.isDigit then c.toNat - 48 else c.toNat - 87

/-- The number that is written in some hexadecimal digits. -/
def readDigits (digits : List Char) : Nat := digits.foldl (fun n c => 16 * n + digitValue c) 0

theorem digitValue_digitChar : ∀ d < 16, digitValue d.digitChar = d := by decide

theorem readDigits_concat (digits : List Char) (c : Char) :
    readDigits (digits ++ [c]) = 16 * readDigits digits + digitValue c := by
  simp [readDigits]

theorem readDigits_zeros (count : Nat) (digits : List Char) :
    readDigits (List.replicate count '0' ++ digits) = readDigits digits := by
  induction count with
  | zero => rfl
  | succ count ih => exact ih

theorem readDigits_toDigits (n : Nat) : readDigits (Nat.toDigits 16 n) = n := by
  induction n using Nat.strongRecOn with
  | ind n ih =>
    rw [Nat.toDigits_eq_if (by decide)]
    split
    · simpa [readDigits] using digitValue_digitChar n ‹_›
    · rw [readDigits_concat, ih (n / 16) (by omega), digitValue_digitChar _ (Nat.mod_lt _ (by decide)),
        Nat.div_add_mod]

theorem readDigits_hexadecimal (width n : Nat) : readDigits (hexadecimal width n) = n := by
  rw [hexadecimal, readDigits_zeros, readDigits_toDigits]

theorem length_hexadecimal {width n : Nat} (some : 0 < width) (small : n < 16 ^ width) :
    (hexadecimal width n).length = width := by
  have few := Nat.toDigits_length 16 n width some small
  simp only [hexadecimal, List.length_append, List.length_replicate]
  omega

/-! ## Characters -/

/-- The character whose code is written in the digits that come first, and what follows them. -/
def readCode (width : Nat) (cs : List Char) : Char × List Char :=
  (.ofNat (readDigits (cs.take width)), cs.drop width)

/-- The character that a backslash and the next character stand for, and what follows. -/
def readEscape (c : Char) (rest : List Char) : Char × List Char :=
  if c = 't' then ('\t', rest)
  else if c = 'n' then ('\n', rest)
  else if c = 'r' then ('\r', rest)
  else if c = 'x' then readCode 2 rest
  else if c = 'u' then readCode 4 rest
  else if c = 'U' then readCode 8 rest
  else (c, rest)

/-- The first character of what stands between quotes, and what follows. -/
def readChar : List Char → Option (Char × List Char)
  | [] => none
  | c :: rest =>
    if c = '\\' then rest.head?.map (readEscape · rest.tail) else some (c, rest)

section

variable {plain : Char → Bool} {quote : Char} {cs ds u v : List Char}

theorem readCode_hexadecimal {width : Nat} {c : Char} (some : 0 < width) (small : c.toNat < 16 ^ width)
    (rest : List Char) : readCode width (hexadecimal width c.toNat ++ rest) = (c, rest) := by
  have long := length_hexadecimal some small
  rw [readCode, List.take_left' long, List.drop_left' long, readDigits_hexadecimal, Char.ofNat_toNat]

variable (kind : quote = singleQuote ∨ quote = doubleQuote)
include kind

/-- A character is read back from the way it stands between quotes. -/
theorem readChar_escape (c : Char) (rest : List Char) :
    readChar (escape plain quote c ++ rest) = some (c, rest) := by
  unfold escape
  split
  · rename_i special
    rcases special with rfl | rfl
    · rcases kind with rfl | rfl <;> rfl
    · rfl
  · rename_i other
    split_ifs with tabulator feed carriage shown short middle
    · rw [tabulator]; rfl
    · rw [feed]; rfl
    · rw [carriage]; rfl
    · exact if_neg fun same => other (.inr same)
    · exact congrArg some (readCode_hexadecimal (by decide) short rest)
    · exact congrArg some (readCode_hexadecimal (by decide) middle rest)
    · have bounded : c.toNat < 16 ^ 8 := c.val.toNat_lt
      exact congrArg some (readCode_hexadecimal (by decide) bounded rest)

/-- No character begins with the quote that it stands between. -/
theorem escape_apart (c : Char) : quote :: u ≠ escape plain quote c ++ v := by
  have backslash : quote ≠ '\\' := by rcases kind with rfl | rfl <;> decide
  unfold escape
  intro same
  split at same
  · exact backslash (List.cons.inj same).1
  · rename_i other
    split_ifs at same <;> try exact backslash (List.cons.inj same).1
    exact other (.inl (List.cons.inj same).1.symm)

/-- What stands between quotes ends where the quote comes. -/
theorem escaped_unambiguous
    (same : cs.flatMap (escape plain quote) ++ quote :: u = ds.flatMap (escape plain quote) ++ quote :: v) :
    cs = ds ∧ u = v := by
  induction cs generalizing ds with
  | nil =>
    cases ds with
    | nil => exact ⟨rfl, (List.cons.inj same).2⟩
    | cons d ds =>
      rw [List.flatMap_cons, List.append_assoc] at same
      exact absurd same (escape_apart kind d)
  | cons c cs ih =>
    cases ds with
    | nil =>
      rw [List.flatMap_cons, List.append_assoc] at same
      exact absurd same.symm (escape_apart kind c)
    | cons d ds =>
      simp only [List.flatMap_cons, List.append_assoc] at same
      have read := congrArg readChar same
      rw [readChar_escape kind, readChar_escape kind] at read
      obtain ⟨rfl, rest⟩ := Prod.mk.inj (Option.some.inj read)
      obtain ⟨rfl, rfl⟩ := ih rest
      exact ⟨rfl, rfl⟩

end

/-! ## Texts -/

theorem quoteFor_kind (cs : List Char) : quoteFor cs = singleQuote ∨ quoteFor cs = doubleQuote := by
  unfold quoteFor
  split
  · exact .inr rfl
  · exact .inl rfl

/-- Quoted texts that agree with what follows them are of the same text, and the same follows them. -/
theorem quoted_unambiguous {plain : Char → Bool} {cs ds u v : List Char}
    (same : quoted plain cs ++ u = quoted plain ds ++ v) : cs = ds ∧ u = v := by
  simp only [quoted, List.cons_append, List.append_assoc, List.cons.injEq] at same
  obtain ⟨quotes, inner⟩ := same
  rw [← quotes] at inner
  exact escaped_unambiguous (quoteFor_kind cs) inner

end SeedPeg.Text

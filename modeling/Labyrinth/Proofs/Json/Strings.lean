import Labyrinth.Json.Printer
import Labyrinth.Json.Reader

/-!
# Written strings are read back

**Theorem (`string?_written`).** A string is read back from its written form, whatever follows its
closing quote.

Each character is written so that its code point is read next (`codePoints?_escapedChar`): escaped
by a letter or by four hexadecimal digits, or as it is. No character is half of a surrogate pair,
and so the code points stand for the characters one by one (`joinHalves?_toNat`).
-/

namespace Labyrinth.Json

variable {c : Char} {cs rest : List Char}

/-! ## Escapes -/

theorem controlEscape_eq (control : c.toNat < 0x20) :
    ∃ a b, (controlEscape c).toList = ['\\', 'u', '0', '0', a, b] ∧
      hex4? '0' '0' a b = some c.toNat := by
  have digits : ∀ n < 0x20,
      List.replicate (4 - (Nat.toDigits 16 n).length) '0' ++ Nat.toDigits 16 n =
          ['0', '0', (n / 16).digitChar, (n % 16).digitChar] ∧
        hex4? '0' '0' (n / 16).digitChar (n % 16).digitChar = some n := by
    decide
  obtain ⟨written, read⟩ := digits c.toNat control
  refine ⟨_, _, ?_, read⟩
  rw [controlEscape, String.toList_append, written]
  simp

/-- The code point of a character is read from its written form. -/
theorem codePoints?_escapedChar (c : Char) (rest : List Char) :
    codePoints? ((escapedChar c).toList ++ rest) =
      (codePoints? rest).map fun (points, rest) => (c.toNat :: points, rest) := by
  have letter {c' : Char} {n : Nat} (short : shortEscape? c' = some n) (notU : c' ≠ 'u') :
      codePoints? ('\\' :: c' :: rest) =
        (codePoints? rest).map fun (points, rest) => (n :: points, rest) := by
    rw [codePoints?]
    · rw [short]
      cases codePoints? rest <;> rfl
    · intro _ _ _ _ _ isU
      exact absurd isU notU
  unfold escapedChar
  split
  · exact letter rfl (by decide)
  · exact letter rfl (by decide)
  · exact letter rfl (by decide)
  · exact letter rfl (by decide)
  · exact letter rfl (by decide)
  · exact letter rfl (by decide)
  · exact letter rfl (by decide)
  · next quote backslash newline carriage tab backspace feed =>
    split
    · next control =>
      obtain ⟨a, b, written, read⟩ := controlEscape_eq control
      rw [written]
      simp only [List.cons_append, List.nil_append, codePoints?, read]
      cases codePoints? rest <;> rfl
    · next plain =>
      have itself : c.toString.toList = [c] := by simp
      rw [itself, List.singleton_append, codePoints?]
      · rw [if_neg plain]
        cases codePoints? rest <;> rfl
      · exact quote
      · exact fun _ _ _ _ _ same => absurd same backslash
      · exact fun _ _ same => absurd same backslash

theorem codePoints?_written (cs rest : List Char) :
    codePoints? (cs.flatMap (fun c => (escapedChar c).toList) ++ '"' :: rest) =
      some (cs.map Char.toNat, rest) := by
  induction cs with
  | nil => simp [codePoints?]
  | cons c cs ih =>
    rw [List.flatMap_cons, List.append_assoc, codePoints?_escapedChar, ih]
    rfl

/-! ## Code points -/

theorem isHighHalf_toNat (c : Char) : isHighHalf c.toNat = false := by
  have valid : c.toNat < 0xd800 ∨ (0xdfff < c.toNat ∧ c.toNat < 0x110000) := c.valid
  simp only [isHighHalf, Bool.and_eq_false_iff, decide_eq_false_iff_not]
  omega

theorem isLowHalf_toNat (c : Char) : isLowHalf c.toNat = false := by
  have valid : c.toNat < 0xd800 ∨ (0xdfff < c.toNat ∧ c.toNat < 0x110000) := c.valid
  simp only [isLowHalf, Bool.and_eq_false_iff, decide_eq_false_iff_not]
  omega

/-- Code points of characters stand for the characters. -/
theorem joinHalves?_toNat (cs : List Char) : joinHalves? (cs.map Char.toNat) = some cs := by
  induction cs with
  | nil => simp [joinHalves?]
  | cons c rest ih =>
    cases rest with
    | nil => simp [joinHalves?, isHighHalf_toNat, isLowHalf_toNat]
    | cons d rest =>
      rw [List.map_cons] at ih
      simp [joinHalves?, isHighHalf_toNat, isLowHalf_toNat, ih]

theorem toList_writtenText (s : String) :
    (writtenText s).toList =
      '"' :: (s.toList.flatMap (fun c => (escapedChar c).toList) ++ ['"']) := by
  rw [writtenText, String.toList_append, String.toList_append, String.toList_join, List.flatMap_map]
  rfl

/-- **A written string is read back.** -/
theorem string?_written (s : String) (rest : List Char) :
    string? (s.toList.flatMap (fun c => (escapedChar c).toList) ++ '"' :: rest) =
      some (some s, rest) := by
  rw [string?, codePoints?_written, Option.map_some]
  simp only [joinHalves?_toNat, Option.map_some, String.ofList_toList]

end Labyrinth.Json

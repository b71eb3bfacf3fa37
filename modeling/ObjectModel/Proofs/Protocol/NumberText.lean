import ObjectModel.Proofs.Number.HexDigits
import ObjectModel.Proofs.Number.Numeral
import ObjectModel.Proofs.Protocol.Outcome

/-!
# The number of a string

`toNumber` reads a string as a number. There are two questions about it: which strings are numbers at
all, and which number a string stands for.

* The strings that are numbers are those of the grammar `IsNumericText`, with the next-line control
  among the blanks. For a script that control is no blank, so the answer is the standard's on the
  strings without it.
* The second question is answered for hexadecimal literals of any length. Their digits are rounded one
  after the other, so those that come when the number no longer fits into 53 bits are lost. The result
  is the Number value of what is held, and it is that of the literal itself unless the lost digits would
  have decided a tie.
-/

namespace ObjectModel

namespace Protocol

variable {σ : Type}

/-! ## Which strings are numbers -/

/-- A string converts to a number other than NaN if it is a numeral between blanks, or blanks alone,
where the next-line control counts as a blank. Without that control in the string, these are the strings
that are numbers by the standard. -/
theorem toNumber_string (run : Callback σ) (w : World σ) (text : String) :
    ∃ x, (toNumber run (.string text)).outcome w = (.ok x, w)
      ∧ (x ≠ .nan ↔ IsNumericText (fun c => IsSpace c ∨ c = nextLine) text)
      ∧ (IsNumericText IsSpace text ↔ x ≠ .nan ∧ nextLine ∉ text.toList) := by
  have hread : Number.ofText text ≠ .nan ↔ IsNumericText (fun c => IsSpace c ∨ c = nextLine) text := by
    rw [Number.ofText_ne_nan_iff]
    simp only [isBlank_iff]
  refine ⟨Number.ofText text, outcome_toNumber run rfl w, hread, ?_⟩
  rw [isNumericText_isSpace_iff, hread]

/-- A string that ends with the next-line control is a number, though not by the standard. -/
theorem toNumber_nextLine :
    ((toNumber (fun _ _ _ => pure .undefined) (.string "1\x85")).outcome (⟨⟨#[]⟩, ()⟩ : World Unit)).1
        = .ok (.ofNat 1)
      ∧ ¬ IsNumericText IsSpace "1\x85" := by
  refine ⟨by decide +kernel, fun h => h.nextLine_not_mem (by decide)⟩

/-! ## The number of a hexadecimal literal -/

/-- A hexadecimal literal is read by accumulating its digits. -/
theorem ofText_hexadecimal {text : String} {ds : List Nat}
    (digits : List.Forall₂ IsHexDigit text.toList ds) (nonempty : text ≠ "") :
    Number.ofText ("0x" ++ text) = ds.foldl Number.appendHexDigit Number.zero := by
  have hsome : text.toList ≠ [] := by simpa using nonempty
  have hnumeral : IsNumeral ('0' :: 'x' :: text.toList) := .hexadecimal (Or.inl rfl) hsome digits
  have htrim : trimBlanks ('0' :: 'x' :: text.toList) = '0' :: 'x' :: text.toList := by
    have h : trimBlanks ([] ++ '0' :: 'x' :: text.toList ++ []) = '0' :: 'x' :: text.toList :=
      trimBlanks_append nofun hnumeral.not_blank nofun
    rwa [List.nil_append, List.append_nil] at h
  rw [Number.ofText, String.toList_append, show "0x".toList = ['0', 'x'] from rfl, List.cons_append,
    List.singleton_append, htrim, Number.ofTrimmed, Number.ofHexDigits_eq hsome digits]

/-- A hexadecimal literal of any length converts to the Number value of what is held of it, and to that
of the number it denotes unless a tie is dropped. -/
theorem toNumber_hexadecimal (run : Callback σ) (w : World σ) {text : String} {ds : List Nat}
    (digits : List.Forall₂ IsHexDigit text.toList ds) (nonempty : text ≠ "") :
    ∃ x, (toNumber run (.string ("0x" ++ text))).outcome w = (.ok x, w)
      ∧ x.IsNumberValue (heldValue ds)
      ∧ (x.IsNumberValue (hexValue ds) ↔ ¬ DropsTie ds) := by
  obtain ⟨hheld, hvalue⟩ := isNumberValue_foldl (lt_of_isHexDigit digits)
  refine ⟨_, ?_, hheld, hvalue⟩
  rw [outcome_toNumber run rfl w, Value.primitiveNumber, ofText_hexadecimal digits nonempty]

/-- The last digit of this literal is lost, and makes no difference. -/
theorem toNumber_hexadecimal_long :
    ∃ x, (toNumber (fun _ _ _ => pure .undefined) (.string ("0x" ++ "20000000000000f"))).outcome
        (⟨⟨#[]⟩, ()⟩ : World Unit) = (.ok x, ⟨⟨#[]⟩, ()⟩)
      ∧ x.IsNumberValue (2 ^ 57 + 15 : Nat) := by
  have hdigits : List.Forall₂ IsHexDigit "20000000000000f".toList
      [2, 0, 0, 0, 0, 0, 0, 0, 0, 0, 0, 0, 0, 0, 15] := by decide
  obtain ⟨x, hx, -, hvalue⟩ := toNumber_hexadecimal (fun _ _ _ => pure .undefined)
    (⟨⟨#[]⟩, ()⟩ : World Unit) hdigits (by decide)
  refine ⟨x, hx, hvalue.2 ?_⟩
  rintro ⟨-, m, s, htie, hlow, -⟩
  have hheld : (4 * m + 1) * 2 ^ s = 2 ^ 57 := htie.symm
  have hs : s < 4 := by
    by_contra hge
    have hpow : 2 ^ 4 ≤ 2 ^ s := Nat.pow_le_pow_right (by omega) (by omega)
    have hmul : (2 ^ 53 + 1) * 2 ^ 4 ≤ (4 * m + 1) * 2 ^ s := Nat.mul_le_mul (by omega) hpow
    omega
  obtain rfl | rfl | rfl | rfl : s = 0 ∨ s = 1 ∨ s = 2 ∨ s = 3 := by omega
  all_goals omega

/-- The last digit of this literal is lost. The fourteen digits before it lie halfway between two
numbers and are rounded down; with the last digit the literal is nearer to the upper one. -/
theorem toNumber_dropped_tie :
    ((toNumber (fun _ _ _ => pure .undefined) (.string "0x200000000000011")).outcome
        (⟨⟨#[]⟩, ()⟩ : World Unit)).1 = .ok (.ofNat (2 ^ 57))
      ∧ ¬ (Number.ofNat (2 ^ 57)).IsNumberValue (2 ^ 57 + 17 : Nat) := by
  refine ⟨by decide +kernel, fun h => ?_⟩
  rw [← div_one ((2 ^ 57 + 17 : Nat) : ℚ), ← Nat.cast_one, isNumberValue_iff_nearest _ Nat.one_pos] at h
  exact absurd h (by decide +kernel)

end Protocol

end ObjectModel

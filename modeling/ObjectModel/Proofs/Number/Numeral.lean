import ObjectModel.Number.Literal
import Mathlib.Data.List.Forall2
import Mathlib.Data.List.TakeWhile

/-!
# The texts that are numbers

`IsNumericText` is the grammar of numbers in a text: blanks, then nothing or a numeral, then blanks. It
is stated by itself, with nothing taken from the reader. `Number.ofText_ne_nan_iff` shows that the
reader accepts the texts of this grammar and no others, and answers NaN everywhere else.

There is one character on which the reader is not the standard's: it takes the next-line control for a
blank, which is neither white space nor a line terminator of a script. So the grammar has the set of
blanks as a parameter, and the two sets agree on the texts without that character
(`isNumericText_isSpace_iff`).

The parts of a numeral are sublists, and the reader finds them by running over the longest run of
digits. What links the two is that a part which follows digits never begins with one:
`readDecimal_whole` and `readDecimal_pointed` read a text from its parts.
-/

namespace ObjectModel

/-! ## The grammar -/

/-- The white space and the line terminators of a script. -/
def IsSpace (c : Char) : Prop :=
  c.toNat ∈ [0x9, 0xA, 0xB, 0xC, 0xD, 0x20, 0xA0, 0x1680, 0x2028, 0x2029, 0x202F, 0x205F, 0x3000,
      0xFEFF]
    ∨ 0x2000 ≤ c.toNat ∧ c.toNat ≤ 0x200A

instance (c : Char) : Decidable (IsSpace c) := inferInstanceAs (Decidable (_ ∨ _))

/-- The control character for the next line. -/
def nextLine : Char := '\x85'

/-- A hexadecimal digit of either case and its value. -/
def IsHexDigit (c : Char) (d : Nat) : Prop :=
  "0123456789abcdef".toList[d]? = some c ∨ "0123456789ABCDEF".toList[d]? = some c

instance (c : Char) (d : Nat) : Decidable (IsHexDigit c d) := inferInstanceAs (Decidable (_ ∨ _))

/-- Decimal digits, or nothing. -/
def IsDigits (cs : List Char) : Prop := ∀ c ∈ cs, c ∈ "0123456789".toList

/-- An optional sign. -/
inductive IsSign : List Char → Prop
  | absent : IsSign []
  | plus : IsSign ['+']
  | minus : IsSign ['-']

/-- An optional exponent part. -/
inductive IsExponent : List Char → Prop
  | absent : IsExponent []
  | present {mark : Char} {sign digits : List Char} : mark = 'e' ∨ mark = 'E' → IsSign sign →
      IsDigits digits → digits ≠ [] → IsExponent (mark :: (sign ++ digits))

/-- A decimal without a sign: digits on at least one side of an optional point, and an optional
exponent. -/
inductive IsMagnitude : List Char → Prop
  | whole {digits exponent : List Char} : IsDigits digits → digits ≠ [] → IsExponent exponent →
      IsMagnitude (digits ++ exponent)
  | pointed {digits fraction exponent : List Char} : IsDigits digits → IsDigits fraction →
      digits ≠ [] ∨ fraction ≠ [] → IsExponent exponent →
      IsMagnitude (digits ++ '.' :: (fraction ++ exponent))

/-- The three forms of a number in a text. Only the hexadecimal one has no sign. -/
inductive IsNumeral : List Char → Prop
  | infinity {sign : List Char} : IsSign sign → IsNumeral (sign ++ "Infinity".toList)
  | decimal {sign cs : List Char} : IsSign sign → IsMagnitude cs → IsNumeral (sign ++ cs)
  | hexadecimal {mark : Char} {digits : List Char} {values : List Nat} : mark = 'x' ∨ mark = 'X' →
      digits ≠ [] → List.Forall₂ IsHexDigit digits values → IsNumeral ('0' :: mark :: digits)

/-- A text of blanks around a numeral, or of blanks alone. -/
def IsNumericText (blank : Char → Prop) (text : String) : Prop :=
  ∃ before core after, text.toList = before ++ core ++ after
    ∧ (∀ c ∈ before, blank c) ∧ (∀ c ∈ after, blank c) ∧ (core = [] ∨ IsNumeral core)

/-! ## Characters -/

/-- The reader's blanks are those of a script and the next-line control. -/
theorem isBlank_iff (c : Char) : isBlank c = true ↔ IsSpace c ∨ c = nextLine := by
  have hnext : c = nextLine ↔ c.toNat = 0x85 := by
    rw [← Char.toNat_inj]
    rfl
  rw [hnext, IsSpace]
  simp only [isBlank, Bool.or_eq_true, Bool.and_eq_true, decide_eq_true_eq, beq_iff_eq,
    List.mem_cons, List.not_mem_nil, or_false]
  omega

/-- A property of the listed characters is tested on the list, and not on all characters there are. -/
private theorem forall_mem_of_all {P : Char → Prop} [DecidablePred P] {cs : List Char}
    (h : (cs.all fun c => decide (P c)) = true) : ∀ c ∈ cs, P c :=
  fun c hc => of_decide_eq_true (List.all_eq_true.1 h c hc)

/-- A property of the ASCII characters is tested by their codes. -/
private theorem ascii_forall {P : Char → Prop} (h : ∀ n < 128, P (Char.ofNat n)) (c : Char)
    (hc : c.toNat < 128) : P c := by
  have hp := h c.toNat hc
  rwa [Char.ofNat_toNat] at hp

/-- The reader's decimal digits are those of the grammar. -/
theorem isDigit_iff (c : Char) : c.isDigit = true ↔ c ∈ "0123456789".toList := by
  constructor
  · intro h
    have hc : c.toNat < 128 := by
      simp only [Char.isDigit, ge_iff_le, UInt32.le_iff_toNat_le, Bool.and_eq_true,
        decide_eq_true_eq] at h
      exact Nat.lt_of_le_of_lt h.2 (by decide)
    revert h
    exact ascii_forall (P := fun c => c.isDigit = true → c ∈ "0123456789".toList) (by decide +kernel) c hc
  · intro h
    have hdigits : ∀ c ∈ "0123456789".toList, c.isDigit = true := forall_mem_of_all (by decide)
    exact hdigits c h

/-- Only ASCII characters are hexadecimal digits, and their values are below sixteen. -/
private theorem bounds_of_hexDigit? {c : Char} {d : Nat} (h : hexDigit? c = some d) :
    c.toNat < 128 ∧ d < 16 := by
  simp only [hexDigit?, Char.le_def, UInt32.le_iff_toNat_le, ← Char.toNat_val] at h
  split at h
  · next hc =>
    obtain ⟨hlow, hhigh⟩ : 48 ≤ c.toNat ∧ c.toNat ≤ 57 := hc
    cases h
    exact ⟨by omega, show c.toNat - 48 < 16 by omega⟩
  · split at h
    · next hc =>
      obtain ⟨hlow, hhigh⟩ : 97 ≤ c.toNat ∧ c.toNat ≤ 102 := hc
      cases h
      exact ⟨by omega, show c.toNat - 97 + 10 < 16 by omega⟩
    · split at h
      · next hc =>
        obtain ⟨hlow, hhigh⟩ : 65 ≤ c.toNat ∧ c.toNat ≤ 70 := hc
        cases h
        exact ⟨by omega, show c.toNat - 65 + 10 < 16 by omega⟩
      · cases h

/-- The reader's hexadecimal digits are those of the grammar, with their values. -/
theorem hexDigit?_eq_some_iff (c : Char) (d : Nat) : hexDigit? c = some d ↔ IsHexDigit c d := by
  constructor
  · intro h
    obtain ⟨hc, hd⟩ := bounds_of_hexDigit? h
    exact ascii_forall (P := fun c => ∀ d < 16, hexDigit? c = some d → IsHexDigit c d)
      (by decide +kernel) c hc d hd h
  · rintro (h | h)
    · obtain ⟨hd, rfl⟩ := List.getElem?_eq_some_iff.1 h
      have hdigits : ∀ d, (hd : d < 16) → hexDigit? ("0123456789abcdef".toList[d]) = some d := by decide
      exact hdigits d hd
    · obtain ⟨hd, rfl⟩ := List.getElem?_eq_some_iff.1 h
      have hdigits : ∀ d, (hd : d < 16) → hexDigit? ("0123456789ABCDEF".toList[d]) = some d := by decide
      exact hdigits d hd

/-! ## Results that are numbers -/

namespace Number

/-- A rank is that of a number. -/
theorem ofRank_ne_nan (negative : Bool) (rank : Nat) : ofRank negative rank ≠ nan := by
  rw [ofRank]
  split <;> simp

/-- What is rounded is a number. -/
theorem nearest_ne_nan (negative : Bool) (num den : Nat) : nearest negative num den ≠ nan := by
  rw [nearest]
  split
  · exact nofun
  · exact ofRank_ne_nan _ _

/-- A decimal is a number. -/
theorem ofDecimal_ne_nan (negative : Bool) (digits : Nat) (exponent : Int) :
    ofDecimal negative digits exponent ≠ nan := by
  simp only [ofDecimal]
  split
  · exact nofun
  · split
    · exact nofun
    · exact nearest_ne_nan _ _ _

/-- A number followed by a digit is a number. -/
theorem appendHexDigit_ne_nan {x : Number} (hx : x ≠ nan) (d : Nat) : x.appendHexDigit d ≠ nan := by
  cases x with
  | nan => exact hx
  | infinite _ => exact hx
  | finite _ _ => exact nearest_ne_nan _ _ _

/-- A number followed by digits is a number. -/
theorem foldl_appendHexDigit_ne_nan {x : Number} (hx : x ≠ nan) (ds : List Nat) :
    ds.foldl appendHexDigit x ≠ nan := by
  induction ds generalizing x with
  | nil => exact hx
  | cons d ds ih => exact ih (appendHexDigit_ne_nan hx d)

end Number

/-! ## Hexadecimal digits -/

/-- The values that are read are those of the digits. -/
theorem mapM_hexDigit?_eq_some_iff (cs : List Char) (ds : List Nat) :
    cs.mapM hexDigit? = some ds ↔ List.Forall₂ IsHexDigit cs ds := by
  induction cs generalizing ds with
  | nil =>
    rw [List.mapM_nil, List.forall₂_nil_left_iff]
    exact Option.some_inj.trans eq_comm
  | cons c cs ih =>
    rw [List.mapM_cons, List.forall₂_cons_left_iff]
    constructor
    · intro h
      obtain ⟨d, hd, h⟩ := Option.bind_eq_some_iff.1 h
      obtain ⟨ds', hds, h⟩ := Option.bind_eq_some_iff.1 h
      cases h
      exact ⟨d, ds', (hexDigit?_eq_some_iff c d).1 hd, (ih ds').1 hds, rfl⟩
    · rintro ⟨d, ds', hd, hds, rfl⟩
      rw [(hexDigit?_eq_some_iff c d).2 hd, (ih ds').2 hds]
      rfl

/-- The value of a hexadecimal digit is below sixteen. -/
theorem lt_of_isHexDigit {cs : List Char} {ds : List Nat} (h : List.Forall₂ IsHexDigit cs ds) :
    ∀ d ∈ ds, d < 16 := by
  induction h with
  | nil => exact nofun
  | @cons c d _ _ hd _ ih =>
    have hlt : d < 16 := (bounds_of_hexDigit? ((hexDigit?_eq_some_iff c d).2 hd)).2
    exact List.forall_mem_cons.2 ⟨hlt, ih⟩

/-- The number of hexadecimal digits is accumulated from their values. -/
theorem Number.ofHexDigits_eq {cs : List Char} {ds : List Nat} (some_digit : cs ≠ [])
    (digits : List.Forall₂ IsHexDigit cs ds) : ofHexDigits cs = ds.foldl appendHexDigit zero := by
  rw [ofHexDigits, if_neg (by simpa using some_digit), (mapM_hexDigit?_eq_some_iff cs ds).2 digits]
  rfl

/-- Hexadecimal digits are read as a number if there is at least one and nothing else. -/
theorem Number.ofHexDigits_ne_nan_iff (cs : List Char) :
    ofHexDigits cs ≠ nan ↔ cs ≠ [] ∧ ∃ ds, List.Forall₂ IsHexDigit cs ds := by
  constructor
  · intro h
    have hsome : cs ≠ [] := by
      rintro rfl
      exact h rfl
    refine ⟨hsome, ?_⟩
    cases hread : cs.mapM hexDigit? with
    | none =>
      rw [ofHexDigits, if_neg (by simpa using hsome), hread] at h
      exact absurd rfl h
    | some ds => exact ⟨ds, (mapM_hexDigit?_eq_some_iff cs ds).1 hread⟩
  · rintro ⟨hsome, ds, hds⟩
    rw [ofHexDigits_eq hsome hds]
    exact foldl_appendHexDigit_ne_nan (by decide) ds

/-! ## Parts -/

/-- A sign is split off. -/
theorem exists_sign (cs : List Char) : ∃ sign, IsSign sign ∧ cs = sign ++ (splitSign cs).2 := by
  rw [splitSign.eq_def]
  split
  · exact ⟨['-'], .minus, rfl⟩
  · exact ⟨['+'], .plus, rfl⟩
  · exact ⟨[], .absent, rfl⟩

/-- What follows a sign is read from behind it, unless it begins with another sign. -/
theorem splitSign_append {sign cs : List Char} (hsign : IsSign sign)
    (unsigned : ∀ c ∈ cs.head?, c ≠ '-' ∧ c ≠ '+') : (splitSign (sign ++ cs)).2 = cs := by
  cases hsign with
  | plus | minus => rfl
  | absent =>
    rw [List.nil_append, splitSign.eq_def]
    split
    · exact absurd rfl (unsigned '-' rfl).1
    · exact absurd rfl (unsigned '+' rfl).2
    · rfl

/-- The longest run of digits ends where something else begins. -/
theorem span_digits {digits rest : List Char} (hdigits : IsDigits digits)
    (hrest : ∀ c ∈ rest.head?, c.isDigit = false) :
    (digits ++ rest).takeWhile Char.isDigit = digits
      ∧ (digits ++ rest).dropWhile Char.isDigit = rest := by
  have hall : ∀ c ∈ digits, c.isDigit = true := fun c hc => (isDigit_iff c).2 (hdigits c hc)
  rw [List.takeWhile_append_of_pos hall, List.dropWhile_append_of_pos hall]
  cases rest with
  | nil => exact ⟨List.append_nil _, rfl⟩
  | cons c cs =>
    have hc : ¬ c.isDigit = true := by simp [hrest c rfl]
    rw [List.takeWhile_cons_of_neg hc, List.dropWhile_cons_of_neg hc, List.append_nil]
    exact ⟨rfl, rfl⟩

/-- Every text begins with a longest run of digits. -/
theorem exists_span (cs : List Char) :
    ∃ digits rest, cs = digits ++ rest ∧ IsDigits digits ∧ ∀ c ∈ rest.head?, c.isDigit = false := by
  refine ⟨cs.takeWhile Char.isDigit, cs.dropWhile Char.isDigit, List.takeWhile_append_dropWhile.symm,
    fun c hc => (isDigit_iff c).1 (List.mem_takeWhile_imp hc), ?_⟩
  intro c hc
  have hnot := List.head?_dropWhile_not Char.isDigit cs
  rwa [Option.mem_def.1 hc] at hnot

/-- An exponent begins with its mark. -/
theorem IsExponent.head {cs : List Char} (h : IsExponent cs) :
    ∀ c ∈ cs.head?, c.isDigit = false ∧ c ≠ '.' := by
  cases h with
  | absent => exact nofun
  | present mark _ _ _ =>
    rintro c ⟨⟩
    obtain rfl | rfl := mark <;> decide

/-- Digits begin with no sign. -/
theorem IsDigits.head {cs : List Char} (h : IsDigits cs) : ∀ c ∈ cs.head?, c ≠ '-' ∧ c ≠ '+' := by
  intro c hc
  have hunsigned : ∀ c ∈ "0123456789".toList, c ≠ '-' ∧ c ≠ '+' := forall_mem_of_all (by decide)
  exact hunsigned c (h c (List.mem_of_mem_head? hc))

/-- An exponent part is read if it is one. -/
theorem isSome_readExponent_iff (cs : List Char) : (readExponent cs).isSome = true ↔ IsExponent cs := by
  cases cs with
  | nil => exact iff_of_true rfl .absent
  | cons c cs =>
    have hread : (readExponent (c :: cs)).isSome = true
        ↔ (c = 'e' ∨ c = 'E') ∧ (splitSign cs).2 ≠ [] ∧ IsDigits (splitSign cs).2 := by
      simp only [readExponent, IsDigits, ← isDigit_iff]
      split <;> simp_all [and_assoc]
    rw [hread]
    constructor
    · rintro ⟨mark, hsome, hdigits⟩
      obtain ⟨sign, hsign, hcs⟩ := exists_sign cs
      rw [hcs]
      exact .present mark hsign hdigits hsome
    · intro h
      cases h with
      | present mark hsign hdigits hsome =>
        rw [splitSign_append hsign hdigits.head]
        exact ⟨mark, hsome, hdigits⟩

/-- What is read of digits that no point follows. -/
theorem readDecimal_whole {digits rest : List Char} (hdigits : IsDigits digits)
    (hrest : ∀ c ∈ rest.head?, c.isDigit = false ∧ c ≠ '.') :
    (readDecimal (digits ++ rest)).isSome = true ↔ digits ≠ [] ∧ IsExponent rest := by
  obtain ⟨htake, hdrop⟩ := span_digits hdigits fun c hc => (hrest c hc).1
  rw [← isSome_readExponent_iff]
  simp only [readDecimal, htake, hdrop]
  cases rest with
  | nil => cases digits <;> simp
  | cons c cs =>
    have hc : c ≠ '.' := (hrest c rfl).2
    cases digits <;> simp [hc]

/-- What is read of digits on both sides of a point. -/
theorem readDecimal_pointed {digits fraction rest : List Char} (hdigits : IsDigits digits)
    (hfraction : IsDigits fraction) (hrest : ∀ c ∈ rest.head?, c.isDigit = false) :
    (readDecimal (digits ++ '.' :: (fraction ++ rest))).isSome = true
      ↔ (digits ≠ [] ∨ fraction ≠ []) ∧ IsExponent rest := by
  have hpoint : ∀ c ∈ ('.' :: (fraction ++ rest)).head?, c.isDigit = false := by
    rintro c ⟨⟩
    rfl
  obtain ⟨htake, hdrop⟩ := span_digits hdigits hpoint
  obtain ⟨htake', hdrop'⟩ := span_digits hfraction hrest
  rw [← isSome_readExponent_iff]
  simp only [readDecimal, htake, hdrop, htake', hdrop']
  cases digits <;> cases fraction <;> simp

/-- A decimal is read if it is one. -/
theorem isSome_readDecimal_iff (cs : List Char) : (readDecimal cs).isSome = true ↔ IsMagnitude cs := by
  constructor
  · intro h
    obtain ⟨digits, rest, rfl, hdigits, hrest⟩ := exists_span cs
    by_cases point : rest.head? = some '.'
    · obtain ⟨cs, rfl⟩ := List.head?_eq_some_iff.1 point
      obtain ⟨fraction, rest, rfl, hfraction, hrest⟩ := exists_span cs
      obtain ⟨hsome, hexponent⟩ := (readDecimal_pointed hdigits hfraction hrest).1 h
      exact .pointed hdigits hfraction hsome hexponent
    · have hhead : ∀ c ∈ rest.head?, c.isDigit = false ∧ c ≠ '.' := fun c hc =>
        ⟨hrest c hc, fun heq => point (heq ▸ hc)⟩
      obtain ⟨hsome, hexponent⟩ := (readDecimal_whole hdigits hhead).1 h
      exact .whole hdigits hsome hexponent
  · intro h
    cases h with
    | whole hdigits hsome hexponent =>
      exact (readDecimal_whole hdigits hexponent.head).2 ⟨hsome, hexponent⟩
    | pointed hdigits hfraction hsome hexponent =>
      exact (readDecimal_pointed hdigits hfraction fun c hc => (hexponent.head c hc).1).2
        ⟨hsome, hexponent⟩

/-! ## Numerals -/

/-- A decimal begins with a digit or a point. -/
theorem IsMagnitude.head {cs : List Char} (h : IsMagnitude cs) :
    ∃ c rest, cs = c :: rest ∧ c ∈ ".0123456789".toList := by
  have hdigit : "0123456789".toList ⊆ ".0123456789".toList := by decide
  cases h with
  | whole hdigits hsome _ =>
    obtain ⟨c, cs, rfl⟩ := List.exists_cons_of_ne_nil hsome
    exact ⟨c, _, rfl, hdigit (hdigits c List.mem_cons_self)⟩
  | @pointed digits _ _ hdigits _ _ _ =>
    cases digits with
    | nil => exact ⟨'.', _, rfl, by decide⟩
    | cons c cs => exact ⟨c, _, rfl, hdigit (hdigits c List.mem_cons_self)⟩

/-- The characters of an exponent part. -/
theorem IsExponent.subset {cs : List Char} (h : IsExponent cs) : cs ⊆ "0123456789.eE+-".toList := by
  have hsigns : ∀ {cs}, IsSign cs → cs ⊆ "0123456789.eE+-".toList := by
    intro cs h
    cases h <;> decide
  have hdigit : "0123456789".toList ⊆ "0123456789.eE+-".toList := by decide
  cases h with
  | absent => exact List.nil_subset _
  | present mark hsign hdigits _ =>
    have htail := List.append_subset.2 ⟨hsigns hsign, fun c hc => hdigit (hdigits c hc)⟩
    refine List.cons_subset.2 ⟨?_, htail⟩
    obtain rfl | rfl := mark <;> decide

/-- The characters of a decimal. -/
theorem IsMagnitude.subset {cs : List Char} (h : IsMagnitude cs) : cs ⊆ "0123456789.eE+-".toList := by
  have hdigit : "0123456789".toList ⊆ "0123456789.eE+-".toList := by decide
  cases h with
  | whole hdigits _ hexponent =>
    exact List.append_subset.2 ⟨fun c hc => hdigit (hdigits c hc), hexponent.subset⟩
  | pointed hdigits hfraction _ hexponent =>
    have htail := List.append_subset.2 ⟨fun c hc => hdigit (hfraction c hc), hexponent.subset⟩
    exact List.append_subset.2
      ⟨fun c hc => hdigit (hdigits c hc), List.cons_subset.2 ⟨by decide, htail⟩⟩

/-- A numeral is signed or hexadecimal. -/
theorem isNumeral_iff (cs : List Char) :
    IsNumeral cs
      ↔ (∃ sign rest, cs = sign ++ rest ∧ IsSign sign ∧ (rest = "Infinity".toList ∨ IsMagnitude rest))
        ∨ ∃ mark digits, cs = '0' :: mark :: digits ∧ (mark = 'x' ∨ mark = 'X') ∧ digits ≠ []
          ∧ ∃ values, List.Forall₂ IsHexDigit digits values := by
  constructor
  · intro h
    cases h with
    | infinity hsign => exact Or.inl ⟨_, _, rfl, hsign, Or.inl rfl⟩
    | decimal hsign hcs => exact Or.inl ⟨_, _, rfl, hsign, Or.inr hcs⟩
    | hexadecimal mark hsome hdigits => exact Or.inr ⟨_, _, rfl, mark, hsome, _, hdigits⟩
  · rintro (⟨sign, rest, rfl, hsign, rfl | hrest⟩ | ⟨mark, digits, rfl, hmark, hsome, values, hdigits⟩)
    · exact .infinity hsign
    · exact .decimal hsign hrest
    · exact .hexadecimal hmark hsome hdigits

/-- A signed number does not begin as a hexadecimal literal does. -/
theorem ne_append_of_sign {mark : Char} (hmark : mark = 'x' ∨ mark = 'X') {sign rest : List Char}
    (hsign : IsSign sign) (hrest : rest = "Infinity".toList ∨ IsMagnitude rest) (cs : List Char) :
    '0' :: mark :: cs ≠ sign ++ rest := by
  intro heq
  cases hsign with
  | plus | minus => cases heq
  | absent =>
    rcases hrest with rfl | hrest
    · cases heq
    · have hmem : mark ∈ "0123456789.eE+-".toList := by
        refine hrest.subset ?_
        rw [← List.nil_append rest, ← heq]
        exact List.mem_cons_of_mem _ List.mem_cons_self
      obtain rfl | rfl := hmark <;> exact absurd hmem (by decide)

namespace Number

/-- A signed number is read if it is an infinity or a decimal. -/
theorem ofSigned_ne_nan_iff (cs : List Char) :
    ofSigned cs ≠ nan
      ↔ ∃ sign rest, cs = sign ++ rest ∧ IsSign sign ∧ (rest = "Infinity".toList ∨ IsMagnitude rest) := by
  have hread : ofSigned cs ≠ nan
      ↔ (splitSign cs).2 = "Infinity".toList ∨ (readDecimal (splitSign cs).2).isSome = true := by
    simp only [ofSigned]
    split
    · next h => exact iff_of_true nofun (Or.inl h)
    · next h =>
      rw [or_iff_right h]
      cases readDecimal (splitSign cs).2 with
      | none => exact iff_of_false (fun h => h rfl) nofun
      | some d => exact iff_of_true (ofDecimal_ne_nan _ _ _) rfl
  rw [hread, isSome_readDecimal_iff]
  constructor
  · intro h
    obtain ⟨sign, hsign, hcs⟩ := exists_sign cs
    exact ⟨sign, _, hcs, hsign, h⟩
  · rintro ⟨sign, rest, rfl, hsign, h⟩
    have hhead : ∀ c ∈ rest.head?, c ≠ '-' ∧ c ≠ '+' := by
      rcases h with rfl | h
      · rintro c ⟨⟩
        decide
      · obtain ⟨c, cs, rfl, hc⟩ := h.head
        rintro c ⟨⟩
        have hunsigned : ∀ c ∈ ".0123456789".toList, c ≠ '-' ∧ c ≠ '+' := forall_mem_of_all (by decide)
        exact hunsigned c hc
    rw [splitSign_append hsign hhead]
    exact h

/-- A text behind the prefix of a hexadecimal literal is read if it is one. -/
theorem ofHexDigits_ne_nan_iff_isNumeral {mark : Char} (hmark : mark = 'x' ∨ mark = 'X')
    (cs : List Char) : ofHexDigits cs ≠ nan ↔ IsNumeral ('0' :: mark :: cs) := by
  rw [ofHexDigits_ne_nan_iff, isNumeral_iff]
  constructor
  · rintro ⟨hsome, hdigits⟩
    exact Or.inr ⟨mark, cs, rfl, hmark, hsome, hdigits⟩
  · rintro (⟨sign, rest, heq, hsign, hrest⟩ | ⟨_, _, heq, -, hsome, hdigits⟩)
    · exact absurd heq (ne_append_of_sign hmark hsign hrest cs)
    · cases heq
      exact ⟨hsome, hdigits⟩

/-- A text without blanks around it is read if there is nothing or a numeral. -/
theorem ofTrimmed_ne_nan_iff (cs : List Char) : ofTrimmed cs ≠ nan ↔ cs = [] ∨ IsNumeral cs := by
  rw [ofTrimmed.eq_def]
  split
  · exact iff_of_true (by decide) (Or.inl rfl)
  · next cs =>
    rw [ofHexDigits_ne_nan_iff_isNumeral (Or.inl rfl), or_iff_right (List.cons_ne_nil _ _)]
  · next cs =>
    rw [ofHexDigits_ne_nan_iff_isNumeral (Or.inr rfl), or_iff_right (List.cons_ne_nil _ _)]
  · next cs hne hx hX =>
    rw [ofSigned_ne_nan_iff, or_iff_right hne, isNumeral_iff, or_iff_left]
    rintro ⟨mark, digits, rfl, rfl | rfl, -⟩
    · exact hx digits rfl
    · exact hX digits rfl

end Number

/-! ## Blanks around a numeral -/

/-- The characters of hexadecimal digits. -/
theorem subset_of_isHexDigit {cs : List Char} {ds : List Nat} (h : List.Forall₂ IsHexDigit cs ds) :
    cs ⊆ "0123456789abcdefABCDEF".toList := by
  have hlower : "0123456789abcdef".toList ⊆ "0123456789abcdefABCDEF".toList := by decide
  have hupper : "0123456789ABCDEF".toList ⊆ "0123456789abcdefABCDEF".toList := by decide
  induction h with
  | nil => exact List.nil_subset _
  | cons hd _ ih =>
    refine List.cons_subset.2 ⟨?_, ih⟩
    rcases hd with hd | hd
    · exact hlower (List.mem_of_getElem? hd)
    · exact hupper (List.mem_of_getElem? hd)

/-- The characters of a numeral. -/
theorem IsNumeral.subset {cs : List Char} (h : IsNumeral cs) :
    cs ⊆ "0123456789abcdefABCDEFxX.+-Infity".toList := by
  have hsigns : ∀ {cs}, IsSign cs → cs ⊆ "0123456789abcdefABCDEFxX.+-Infity".toList := by
    intro cs h
    cases h <;> decide
  have hdecimal : "0123456789.eE+-".toList ⊆ "0123456789abcdefABCDEFxX.+-Infity".toList := by decide
  have hhex : "0123456789abcdefABCDEF".toList ⊆ "0123456789abcdefABCDEFxX.+-Infity".toList := by decide
  cases h with
  | infinity hsign => exact List.append_subset.2 ⟨hsigns hsign, by decide⟩
  | decimal hsign hcs => exact List.append_subset.2 ⟨hsigns hsign, List.Subset.trans hcs.subset hdecimal⟩
  | hexadecimal hmark _ hdigits =>
    refine List.cons_subset.2 ⟨by decide, List.cons_subset.2 ⟨?_, ?_⟩⟩
    · obtain rfl | rfl := hmark <;> decide
    · exact List.Subset.trans (subset_of_isHexDigit hdigits) hhex

/-- A numeral holds no blank. -/
theorem IsNumeral.not_blank {cs : List Char} (h : IsNumeral cs) : ∀ c ∈ cs, isBlank c = false := by
  have hplain : ∀ c ∈ "0123456789abcdefABCDEFxX.+-Infity".toList, isBlank c = false :=
    forall_mem_of_all (by decide)
  exact fun c hc => hplain c (h.subset hc)

/-- A text without blanks is what remains when there are blanks around it. -/
theorem trimBlanks_append {before core after : List Char} (hbefore : ∀ c ∈ before, isBlank c = true)
    (hcore : ∀ c ∈ core, isBlank c = false) (hafter : ∀ c ∈ after, isBlank c = true) :
    trimBlanks (before ++ core ++ after) = core := by
  rw [trimBlanks, List.append_assoc, List.dropWhile_append_of_pos hbefore]
  cases core with
  | nil =>
    rw [List.nil_append, List.dropWhile_eq_nil_iff.2 hafter]
    rfl
  | cons c cs =>
    have hfront : ¬ isBlank c = true := by simp [hcore c List.mem_cons_self]
    have hback : (c :: cs).reverse.dropWhile isBlank = (c :: cs).reverse := by
      refine List.dropWhile_eq_self_iff.2 fun hl => ?_
      rw [hcore _ (List.mem_reverse.1 (List.getElem_mem hl))]
      exact Bool.false_ne_true
    rw [List.cons_append, List.dropWhile_cons_of_neg hfront, ← List.cons_append, List.reverse_append,
      List.dropWhile_append_of_pos fun c hc => hafter c (List.mem_reverse.1 hc), hback,
      List.reverse_reverse]

/-- A text is what remains of it between blanks. -/
theorem exists_trimBlanks (cs : List Char) :
    ∃ before after, cs = before ++ trimBlanks cs ++ after
      ∧ (∀ c ∈ before, isBlank c = true) ∧ (∀ c ∈ after, isBlank c = true) := by
  refine ⟨cs.takeWhile isBlank, ((cs.dropWhile isBlank).reverse.takeWhile isBlank).reverse, ?_,
    fun c hc => List.mem_takeWhile_imp hc, fun c hc => List.mem_takeWhile_imp (List.mem_reverse.1 hc)⟩
  rw [trimBlanks, List.append_assoc, ← List.reverse_append, List.takeWhile_append_dropWhile,
    List.reverse_reverse, List.takeWhile_append_dropWhile]

/-- The texts that are read are those of the grammar with the reader's blanks. -/
theorem Number.ofText_ne_nan_iff (text : String) :
    ofText text ≠ nan ↔ IsNumericText (fun c => isBlank c = true) text := by
  rw [ofText, ofTrimmed_ne_nan_iff]
  constructor
  · intro h
    obtain ⟨before, after, htext, hbefore, hafter⟩ := exists_trimBlanks text.toList
    exact ⟨before, _, after, htext, hbefore, hafter, h⟩
  · rintro ⟨before, core, after, htext, hbefore, hafter, h⟩
    rw [htext, trimBlanks_append hbefore ?_ hafter]
    · exact h
    · rcases h with rfl | h
      · exact nofun
      · exact h.not_blank

/-- The next-line control is not in a text whose blanks are those of a script. -/
theorem IsNumericText.nextLine_not_mem {text : String} (h : IsNumericText IsSpace text) :
    nextLine ∉ text.toList := by
  have hspace : ¬ IsSpace nextLine := by decide
  obtain ⟨before, core, after, htext, hbefore, hafter, h⟩ := h
  rw [htext, List.mem_append, List.mem_append]
  rintro ((hmem | hmem) | hmem)
  · exact hspace (hbefore _ hmem)
  · rcases h with rfl | h
    · cases hmem
    · exact Bool.false_ne_true ((h.not_blank _ hmem).symm.trans (by decide))
  · exact hspace (hafter _ hmem)

/-- On the texts without the next-line control, the reader's blanks are those of a script. -/
theorem isNumericText_isSpace_iff (text : String) :
    IsNumericText IsSpace text
      ↔ IsNumericText (fun c => IsSpace c ∨ c = nextLine) text ∧ nextLine ∉ text.toList := by
  constructor
  · intro h
    have hnext := h.nextLine_not_mem
    obtain ⟨before, core, after, htext, hbefore, hafter, h⟩ := h
    exact ⟨⟨before, core, after, htext, fun c hc => Or.inl (hbefore c hc),
      fun c hc => Or.inl (hafter c hc), h⟩, hnext⟩
  · rintro ⟨⟨before, core, after, htext, hbefore, hafter, h⟩, hnext⟩
    rw [htext, List.mem_append, List.mem_append] at hnext
    refine ⟨before, core, after, htext, fun c hc => ?_, fun c hc => ?_, h⟩
    · refine (hbefore c hc).resolve_right ?_
      rintro rfl
      exact hnext (Or.inl (Or.inl hc))
    · refine (hafter c hc).resolve_right ?_
      rintro rfl
      exact hnext (Or.inr hc)

end ObjectModel

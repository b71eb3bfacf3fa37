import ObjectModel.Key

/-!
# Keys and their texts

A key and its text determine each other (`Key.codec`). A text that is the canonical decimal form of an
index makes the key of that index, any other text makes a name, and the text of either key is the text
that it was made from. The one 32-bit word that is no index is a name like any other.

`Index.IsDecimal` says what a canonical decimal form is, without reading or writing one. What
`Index.ofText?` reads and `Index.textOfWord` writes are both compared with it.
-/

namespace ObjectModel

namespace Index

/-! ## Decimal forms -/

/-- A text is the canonical decimal form of a number. It consists of digits, it begins with a zero only
if it is nothing else, and its digits have the number for their value. -/
structure IsDecimal (text : String) (n : Nat) : Prop where
  ne_empty : text ≠ ""
  digits : ∀ c ∈ text.toList, c.isDigit = true
  noLeadingZero : text.toList.head? = some '0' → text = "0"
  value : Nat.ofDigitChars 10 text.toList 0 = n

/-- A digit is the character of its value. -/
private theorem digitChar_of_isDigit {c : Char} (digit : c.isDigit = true) :
    c.toNat - '0'.toNat < 10 ∧ Nat.digitChar (c.toNat - '0'.toNat) = c := by
  have hc : 48 ≤ c.toNat ∧ c.toNat ≤ 57 := Char.isDigit_iff_toNat.1 digit
  have hlt : c.toNat - 48 < 10 := by omega
  refine ⟨hlt, Char.toNat_inj.1 ?_⟩
  show (Nat.digitChar (c.toNat - 48)).toNat = c.toNat
  rw [Nat.toNat_digitChar_of_lt_ten hlt]
  omega

/-- Digits that follow a number are the last digits of their joint value. -/
private theorem toDigits_append_eq {n : Nat} (pos : 0 < n) (cs : List Char)
    (digits : ∀ c ∈ cs, c.isDigit = true) :
    Nat.toDigits 10 n ++ cs = Nat.toDigits 10 (Nat.ofDigitChars 10 cs n) := by
  induction cs generalizing n with
  | nil => rw [List.append_nil, Nat.ofDigitChars_nil]
  | cons c rest ih =>
    rw [List.forall_mem_cons] at digits
    obtain ⟨hlt, hchar⟩ := digitChar_of_isDigit digits.1
    have hlast : Nat.toDigits 10 (c.toNat - '0'.toNat) = [c] := by
      rw [Nat.toDigits_of_lt_base hlt, hchar]
    have hnext : 0 < 10 * n + (c.toNat - '0'.toNat) := by omega
    rw [Nat.ofDigitChars_cons, ← ih hnext digits.2,
      ← Nat.toDigits_append_toDigits (by decide) pos hlt, hlast, List.append_assoc,
      List.singleton_append]

/-- The digits of a positive number do not begin with a zero. -/
private theorem eq_zero_of_head?_toDigits {n : Nat} (h : (Nat.toDigits 10 n).head? = some '0') :
    n = 0 := by
  induction n using Nat.base_induction 10 (by decide) with
  | single m hm =>
    rw [Nat.toDigits_of_lt_base hm, List.head?_cons, Option.some.injEq] at h
    exact Nat.digitChar_eq_zero.1 h
  | digit m k hk hm ih =>
    rw [← Nat.toDigits_append_toDigits (by decide) hm hk, List.head?_append] at h
    obtain ⟨c, hc⟩ := Option.ne_none_iff_exists'.1 (mt List.head?_eq_none_iff.1 Nat.toDigits_ne_nil)
    rw [hc, Option.some_or, ← hc] at h
    exact absurd (ih h) (Nat.ne_of_gt hm)

/-- The text of a word is its canonical decimal form. -/
theorem isDecimal_textOfWord (n : Nat) : IsDecimal (textOfWord n) n := by
  refine ⟨Nat.repr_ne_empty, fun c hc => ?_, fun hzero => ?_, ?_⟩
  · rw [textOfWord, Nat.toList_repr] at hc
    exact Nat.isDigit_of_mem_toDigits (by decide) (by decide) hc
  · rw [textOfWord, Nat.toList_repr] at hzero
    rw [eq_zero_of_head?_toDigits hzero]
    rfl
  · rw [textOfWord, Nat.toList_repr, Nat.ofDigitChars_ten_toDigits]

/-- A number has one canonical decimal form. -/
theorem IsDecimal.eq_textOfWord {text : String} {n : Nat} (h : IsDecimal text n) :
    text = textOfWord n := by
  obtain ⟨hne, hdigits, hzero, hvalue⟩ := h
  rw [← String.toList_inj, textOfWord, Nat.toList_repr, ← hvalue]
  cases hlist : text.toList with
  | nil => exact absurd (String.toList_eq_nil_iff.1 hlist) hne
  | cons c rest =>
    rw [hlist, List.forall_mem_cons] at hdigits
    by_cases hc : c = '0'
    · -- a leading zero is the whole text
      have htext := hzero (by rw [hlist, hc]; rfl)
      rw [htext] at hlist
      cases hlist
      rfl
    · obtain ⟨hlt, hchar⟩ := digitChar_of_isDigit hdigits.1
      have hpos : 0 < c.toNat - '0'.toNat := by
        refine Nat.pos_of_ne_zero fun h => hc ?_
        rw [← hchar, h]
        rfl
      have hfirst : Nat.toDigits 10 (c.toNat - '0'.toNat) = [c] := by
        rw [Nat.toDigits_of_lt_base hlt, hchar]
      rw [Nat.ofDigitChars_cons, Nat.mul_zero, Nat.zero_add, ← toDigits_append_eq hpos rest hdigits.2,
        hfirst, List.singleton_append]

/-! ## Reading -/

/-- Further digits do not make a number smaller. -/
private theorem le_ofDigitChars (cs : List Char) (n : Nat) : n ≤ Nat.ofDigitChars 10 cs n := by
  rw [Nat.ofDigitChars_eq_ofDigitChars_zero]
  have hpow : 0 < 10 ^ cs.length := Nat.pow_pos (by decide)
  exact Nat.le_trans (Nat.le_mul_of_pos_left n hpow) (Nat.le_add_right _ _)

/-- Reading goes on to the end if there are only digits and their value is an index. -/
theorem readDigits_eq_some_iff {cs : List Char} {i j : Index} :
    readDigits i cs = some j
      ↔ (∀ c ∈ cs, c.isDigit = true) ∧ Nat.ofDigitChars 10 cs i.val = j.val := by
  induction cs generalizing i with
  | nil => simp [readDigits, Fin.ext_iff]
  | cons c rest ih =>
    rw [readDigits, Nat.ofDigitChars_cons, List.forall_mem_cons]
    split
    · next h => rw [ih, and_iff_right h.1]
    · next h =>
      -- the value never shrinks, so a number that is too large stays so
      refine ⟨nofun, fun ⟨⟨hdigit, _⟩, hvalue⟩ => absurd ⟨hdigit, ?_⟩ h⟩
      exact Nat.lt_of_le_of_lt (le_ofDigitChars rest _) (hvalue ▸ j.isLt)

/-- A text is read as an index exactly if it is the canonical decimal form of it. -/
theorem ofText?_eq_some_iff {text : String} {i : Index} :
    ofText? text = some i ↔ IsDecimal text i.val := by
  rw [ofText?]
  split
  · next hlist =>
    exact ⟨nofun, fun h => absurd (String.toList_eq_nil_iff.1 hlist) h.ne_empty⟩
  · next hlist =>
    obtain rfl : text = "0" := String.toList_inj.1 hlist
    refine ⟨fun h => ?_, fun h => ?_⟩
    · cases h
      exact isDecimal_textOfWord 0
    · rw [Option.some.injEq, Fin.ext_iff, ← h.value]
      rfl
  · next rest hrest hlist =>
    refine ⟨nofun, fun h => ?_⟩
    have htext := h.noLeadingZero (by rw [hlist]; rfl)
    rw [htext] at hlist
    cases hlist
    exact absurd rfl hrest
  · next hnil _ hzero =>
    rw [readDigits_eq_some_iff]
    refine ⟨fun h => ⟨?_, h.1, fun hhead => ?_, h.2⟩, fun h => ⟨h.digits, h.value⟩⟩
    · exact fun htext => hnil (String.toList_eq_nil_iff.2 htext)
    · obtain ⟨rest, hlist⟩ := List.head?_eq_some_iff.1 hhead
      exact absurd hlist (hzero rest)

/-- The text of an index is read as that index. -/
theorem ofText?_textOfWord (i : Index) : ofText? (textOfWord i) = some i :=
  ofText?_eq_some_iff.2 (isDecimal_textOfWord i)

/-- A text that is read as an index is the text of that index. -/
theorem textOfWord_of_ofText? {text : String} {i : Index} (h : ofText? text = some i) :
    textOfWord i = text :=
  (ofText?_eq_some_iff.1 h).eq_textOfWord.symm

/-- The word of a text is an index exactly if the text is the canonical decimal form of it. -/
theorem wordOfText_eq_iff {text : String} {n : Nat} (index : n < maxLength) :
    wordOfText text = n ↔ IsDecimal text n := by
  rw [wordOfText, ← ofText?_eq_some_iff (i := ⟨n, index⟩)]
  cases ofText? text with
  | none => exact ⟨fun h => absurd h.symm (Nat.ne_of_lt index), nofun⟩
  | some i => rw [Option.elim_some, Option.some.injEq, Fin.ext_iff]

/-- The word of a text that is the canonical decimal form of no index is the one that is no index. -/
theorem wordOfText_eq_maxLength {text : String} (other : ∀ n, n < maxLength → ¬ IsDecimal text n) :
    wordOfText text = maxLength := by
  rw [wordOfText]
  cases h : ofText? text with
  | none => rfl
  | some i => exact absurd (ofText?_eq_some_iff.1 h) (other i.val i.isLt)

end Index

namespace Key

/-! ## Keys -/

/-- A key has the text that it was made from. -/
theorem text_ofText (text : String) : (ofText text).text = text := by
  rw [ofText]
  split
  · next i h => exact Index.textOfWord_of_ofText? h
  · rfl

/-- A key is made from its text. -/
theorem ofText_text (key : Key) : ofText key.text = key := by
  rw [ofText]
  split
  · next i h =>
    cases key with
    | index j =>
      rw [text, Index.ofText?_textOfWord] at h
      rw [Option.some.inj h]
    | name text notIndex =>
      rw [Key.text, notIndex] at h
      cases h
  · next h =>
    cases key with
    | index j =>
      rw [text, Index.ofText?_textOfWord] at h
      cases h
    | name text notIndex => rfl

/-- Keys with one text are one key. -/
theorem text_injective {key key' : Key} (h : key.text = key'.text) : key = key' := by
  rw [← ofText_text key, h, ofText_text]

/-- The text of a word makes the key of the word. -/
theorem ofText_textOfWord (n : Nat) : ofText (Index.textOfWord n) = ofWord n := by
  rw [ofWord]
  split
  · next h => exact ofText_text (.index ⟨n, h⟩)
  · rfl

/-- Texts, words and keys.

The word of a text is an index exactly if the text is the canonical decimal form of it, and otherwise the
one word that is no index. An index is read from its text, and a text that is read as an index is the
text of that index. A key has the text that it was made from, and the text of any word, also of the one
that is no index, makes the key of that word. Two keys are equal exactly if their texts are. -/
theorem codec :
    (∀ text n, n < maxLength → (Index.wordOfText text = n ↔ Index.IsDecimal text n))
      ∧ (∀ text, (∀ n, n < maxLength → ¬ Index.IsDecimal text n) → Index.wordOfText text = maxLength)
      ∧ (∀ i : Index, Index.ofText? (Index.textOfWord i) = some i)
      ∧ (∀ text i, Index.ofText? text = some i → Index.textOfWord i = text)
      ∧ (∀ text, (ofText text).text = text)
      ∧ (∀ n, ofText (Index.textOfWord n) = ofWord n)
      ∧ ∀ key key' : Key, key = key' ↔ key.text = key'.text := by
  refine ⟨?words, ?other, ?read, ?write, ?texts, ?keys, ?equal⟩
  case words => exact fun text n index => Index.wordOfText_eq_iff index
  case other => exact fun text => Index.wordOfText_eq_maxLength
  case read => exact Index.ofText?_textOfWord
  case write => exact fun text i => Index.textOfWord_of_ofText?
  case texts => exact text_ofText
  case keys => exact ofText_textOfWord
  case equal => exact fun key key' => ⟨congrArg text, text_injective⟩

/-- The largest index, the word that is no index, and a text with a leading zero. -/
example : (Index.wordOfText "4294967294", Index.wordOfText "4294967295", Index.wordOfText "01")
    = (4294967294, maxLength, maxLength) := by decide

end Key

end ObjectModel

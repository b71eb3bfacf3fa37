/-!
# Property keys

A property is named by an array index or by a text that is not one. An *array index* is a natural
number below `maxLength`, and the text of an index is its canonical decimal form: no sign, no leading
zero, nothing around it. Classification happens once, when a key is made. A key that is a name carries
the proof that its text is no index, so two keys are equal exactly when their texts are.
-/

namespace ObjectModel

/-- The largest length of an array. Array indices are the numbers below it, so it is itself the one
32-bit word that is not an index. -/
abbrev maxLength : Nat := 4294967295

/-- An array index. -/
abbrev Index := Fin maxLength

namespace Index

/-- Continues reading the digits of an index whose earlier digits gave `i`. -/
def readDigits (i : Index) : List Char → Option Index
  | [] => some i
  | c :: cs =>
    let n := 10 * i.val + (c.toNat - '0'.toNat)
    if h : c.isDigit ∧ n < maxLength then readDigits ⟨n, h.2⟩ cs else none

/-- The index that a text is the canonical form of. -/
def ofText? (text : String) : Option Index :=
  match text.toList with
  | [] => none
  | ['0'] => some ⟨0, by decide⟩
  | '0' :: _ => none
  | cs => readDigits ⟨0, by decide⟩ cs

/-- The 32-bit word of a text: its index, or the one word that is no index. -/
def wordOfText (text : String) : Nat :=
  (ofText? text).elim maxLength Fin.val

/-- The canonical form of a word. -/
def textOfWord (n : Nat) : String := Nat.repr n

end Index

/-- A property key. -/
inductive Key where
  /-- An array index. -/
  | index (i : Index)
  /-- A text that is not the canonical form of an index. -/
  | name (text : String) (notIndex : Index.ofText? text = none)
deriving DecidableEq

namespace Key

/-- The key that a text names. -/
def ofText (text : String) : Key :=
  match h : Index.ofText? text with
  | some i => index i
  | none => name text h

/-- The key that a 32-bit word names. The word that is no index is named by its text. -/
def ofWord (n : Nat) : Key :=
  if h : n < maxLength then index ⟨n, h⟩ else ofText (Index.textOfWord n)

/-- The text of a key. -/
def text : Key → String
  | index i => Index.textOfWord i
  | name text _ => text

/-- The index of a key that is one. -/
def index? : Key → Option Index
  | index i => some i
  | name .. => none

/-- Whether a key is the name `text`. No key that is an index is a name. -/
def isName (key : Key) (text : String) : Bool :=
  match key with
  | index _ => false
  | name t _ => t == text

/-- The key of an array's length. -/
def length : Key := name "length" (by decide)

instance : Inhabited Key := ⟨length⟩

/-- Whether a key is that of an array's length. -/
def isLength (key : Key) : Bool := key.isName "length"

/-- A key is that of a length exactly if it is the key `length`. -/
theorem isLength_iff {key : Key} : key.isLength = true ↔ key = .length := by
  cases key with
  | index i => simp [isLength, isName, length]
  | name text notIndex => rw [isLength, isName, beq_iff_eq, length, Key.name.injEq]

end Key

end ObjectModel

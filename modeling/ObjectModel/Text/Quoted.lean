import ObjectModel.Text.Escaped

/-!
# Quoted text

`quoted` is the form in which a text appears inside a larger one: between double quotes, on one line,
with everything that could be misread written as an escape. Single quotes and visible characters of
any script stay as they are.
-/

namespace ObjectModel

/-- How one character is written between the quotes. -/
def quotedChar (c : Char) : List Char :=
  match c with
  | '"' => ['\\', '"']
  | '\\' => ['\\', '\\']
  | '\n' => ['\\', 'n']
  | '\r' => ['\\', 'r']
  | '\t' => ['\\', 't']
  | '\x00' => ['\\', '0']
  | c =>
    if isEscaped c then '\\' :: 'u' :: '\x7b' :: (Nat.toDigits 16 c.toNat ++ ['\x7d'])
    else [c]

/-- The text between double quotes, with escapes. -/
def quoted (text : String) : String :=
  .ofList ('"' :: (text.toList.flatMap quotedChar ++ ['"']))

end ObjectModel

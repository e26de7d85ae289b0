import SnarkBatch.Text.Printable

/-!
# Quoted text

The written form of a string or of bytes inside a message: single quotes, or double quotes when
the text holds a single quote and no double one. The quote in use, the backslash and whatever is
not printable are escaped, so the written form determines the text.
-/

namespace SnarkBatch.Quoted

def hexDigit (n : Nat) : Char :=
  if n < 10 then Char.ofNat (48 + n) else Char.ofNat (87 + n)

/-- The lowest `width` hexadecimal digits, highest first. -/
def hex : (width : Nat) → (n : Nat) → List Char
  | 0, _ => []
  | width + 1, n => hex width (n / 16) ++ [hexDigit (n % 16)]

def quoteFor (text : List Char) : Char :=
  if '\'' ∈ text ∧ '"' ∉ text then '"' else '\''

/-- The escape of a control character, or of the quote in use; `none` if it needs none. -/
def escapeAscii (quote c : Char) : Option (List Char) :=
  if c = quote ∨ c = '\\' then some ['\\', c]
  else if c = '\t' then some ['\\', 't']
  else if c = '\n' then some ['\\', 'n']
  else if c = '\r' then some ['\\', 'r']
  else if c.val < 0x20 ∨ c.val = 0x7f then some ('\\' :: 'x' :: hex 2 c.toNat)
  else none

/-- Each byte as the character of that code; codes above ASCII are always escaped. -/
def bytes (data : List UInt8) : String :=
  let text := data.map fun b => Char.ofNat b.toNat
  let quote := quoteFor text
  let body := text.flatMap fun c =>
    (escapeAscii quote c).getD (if c.val < 0x80 then [c] else '\\' :: 'x' :: hex 2 c.toNat)
  String.ofList ('b' :: quote :: body ++ [quote])

/-- The shortest of the three escapes by code that can hold the character. -/
def escapeCode (c : Char) : List Char :=
  if c.toNat < 0x100 then '\\' :: 'x' :: hex 2 c.toNat
  else if c.toNat < 0x10000 then '\\' :: 'u' :: hex 4 c.toNat
  else '\\' :: 'U' :: hex 8 c.toNat

/-- Printable characters above ASCII stand for themselves. -/
def string (s : String) : String :=
  let quote := quoteFor s.toList
  let body := s.toList.flatMap fun c =>
    (escapeAscii quote c).getD (if c.val < 0x80 ∨ Printable.isPrintable c then [c] else escapeCode c)
  String.ofList (quote :: body ++ [quote])

end SnarkBatch.Quoted

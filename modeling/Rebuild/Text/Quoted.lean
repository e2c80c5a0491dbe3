import Rebuild.Text.Printable

namespace Rebuild.Text

/-- The last `width` hexadecimal digits of a number. -/
def hexDigits : (width : Nat) → Nat → List Char
  | 0, _ => []
  | width + 1, n => hexDigits width (n / 16) ++ [Nat.digitChar (n % 16)]

@[simp] theorem length_hexDigits (width n : Nat) : (hexDigits width n).length = width := by
  induction width generalizing n with
  | zero => rfl
  | succ width ih => simp [hexDigits, ih]

/-- The single quote, unless only the double quote avoids an escape. -/
def quoteMark (cs : List Char) : Char :=
  if cs.contains '\'' && !cs.contains '"' then '"' else '\''

/-- The escape of a character by its code point, in the shortest form that holds it. -/
def escapeCode (c : Char) : List Char :=
  let n := c.toNat
  if n < 0x100 then '\\' :: 'x' :: hexDigits 2 n
  else if n < 0x10000 then '\\' :: 'u' :: hexDigits 4 n
  else '\\' :: 'U' :: hexDigits 8 n

def escape (visible : Char → Bool) (mark c : Char) : List Char :=
  if c = mark ∨ c = '\\' then ['\\', c]
  else if c = '\n' then ['\\', 'n']
  else if c = '\r' then ['\\', 'r']
  else if c = '\t' then ['\\', 't']
  else if visible c then [c]
  else escapeCode c

def quoteChars (visible : Char → Bool) (cs : List Char) : List Char :=
  let mark := quoteMark cs
  mark :: cs.flatMap (escape visible mark) ++ [mark]

def quote (s : String) : String :=
  .ofList (quoteChars isPrintable s.toList)

def isVisibleAscii (c : Char) : Bool :=
  0x20 ≤ c.toNat && c.toNat < 0x7F

def charsOfBytes (bytes : List UInt8) : List Char :=
  bytes.map fun b => Char.ofNat b.toNat

def quoteBytes (bytes : List UInt8) : String :=
  .ofList (quoteChars isVisibleAscii (charsOfBytes bytes))

/-- Bytes of a buffer between quote marks; the single quote is escaped between double
quotes, too. -/
def quoteBuffer (bytes : List UInt8) : String :=
  let cs := charsOfBytes bytes
  let mark := quoteMark cs
  .ofList (mark ::
    cs.flatMap (fun c => if c = '\'' then ['\\', c] else escape isVisibleAscii mark c) ++ [mark])

example : quote "it's" = "\"it's\"" := by decide
example : quote "a\nb" = "'a\\nb'" := by decide
example : quoteBytes [0x61, 0xFF, 0x27, 0x22] = "'a\\xff\\'\"'" := by decide
example : quoteBytes [0x27] = "\"'\"" := by decide
example : quoteBuffer [0x27] = "\"\\'\"" := by decide

end Rebuild.Text

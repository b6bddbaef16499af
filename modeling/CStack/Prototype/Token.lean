import CStack.Value.Basic
import CStack.Float.Round

/-!
Lexemes of C function declarations such as `unsigned long f (const char* s, int n = -1)`.

Blanks (space, tab, carriage return, line feed) separate lexemes and are dropped. At each
position the longest lexeme wins, and a keyword wins over an identifier of the same length.
Numbers are decimal or `0x` hexadecimal integers, which must fit a signed 64-bit integer, and
decimals `digits.digits` (the fraction may be empty), read to the nearest binary64. Offsets are
byte offsets into the UTF-8 text.
-/

namespace CStack.Prototype

/-- Why a declaration could not be read. -/
inductive Error where
  /-- Text that is no lexeme, or a number out of range, at a byte offset. -/
  | invalidToken (text : String) (offset : Nat)
  /-- A lexeme where something else was expected. -/
  | unexpected (expected found : String) (offset : Nat)
  /-- The text ended where something was expected. -/
  | unexpectedEnd (expected : String)
  deriving DecidableEq, Repr

/-- The text of an error. -/
def Error.message : Error → String
  | .invalidToken text offset => "unrecognised text '" ++ text ++ "' at byte " ++ toString offset
  | .unexpected expected found offset =>
    "expected " ++ expected ++ " at byte " ++ toString offset ++ ", found '" ++ found ++ "'"
  | .unexpectedEnd expected => "unexpected end of declaration, expected " ++ expected

/-- The reserved words of declarations. -/
inductive Keyword where
  | void | bool | char | short | int | long | float | double | signed | unsigned | const | struct
  deriving DecidableEq, Repr

/-- The spelling of a keyword. -/
def Keyword.text : Keyword → String
  | .void => "void"
  | .bool => "bool"
  | .char => "char"
  | .short => "short"
  | .int => "int"
  | .long => "long"
  | .float => "float"
  | .double => "double"
  | .signed => "signed"
  | .unsigned => "unsigned"
  | .const => "const"
  | .struct => "struct"

/-- Every keyword. -/
def Keyword.all : List Keyword :=
  [.void, .bool, .char, .short, .int, .long, .float, .double, .signed, .unsigned, .const, .struct]

/-- The kinds of lexeme. -/
inductive Token where
  | keyword (k : Keyword)
  | star
  | openParen
  | closeParen
  | comma
  | equals
  | minus
  | ident (name : String)
  | integer (value : Int64)
  /-- A decimal, by its binary64 bit pattern. -/
  | decimal (bits : UInt64)
  deriving DecidableEq, Repr

/-- A lexeme: its token, its text and the byte offset where it starts. -/
structure Lexeme where
  token : Token
  text : String
  offset : Nat
  deriving DecidableEq, Repr

/-- Characters that separate lexemes. -/
def isBlank (c : Char) : Bool := c = ' ' || c = '\t' || c = '\r' || c = '\n'

/-- Characters that may start an identifier: ASCII letters and underscore. -/
def isIdentStart (c : Char) : Bool := c.isAlpha || c = '_'

/-- Characters that may continue an identifier. -/
def isIdentChar (c : Char) : Bool := c.isAlphanum || c = '_'

/-- ASCII hexadecimal digits. -/
def isHexDigit (c : Char) : Bool :=
  c.isDigit || ('a' ≤ c && c ≤ 'f') || ('A' ≤ c && c ≤ 'F')

/-- The value of a hexadecimal digit. -/
def hexValue (c : Char) : Nat :=
  if c.isDigit then c.toNat - '0'.toNat
  else if 'a' ≤ c && c ≤ 'f' then c.toNat - 'a'.toNat + 10
  else c.toNat - 'A'.toNat + 10

/-- The number written by digits in a base, most significant first. -/
def digitsValue (base : Nat) (digit : Char → Nat) (ds : List Char) : Nat :=
  ds.foldl (fun acc d => acc * base + digit d) 0

/-- The word for an identifier-like lexeme: a keyword if it spells one. -/
def wordToken (word : String) : Token :=
  match Keyword.all.find? (fun k => k.text == word) with
  | some k => .keyword k
  | none => .ident word

/-- A signed 64-bit integer lexeme, or the error for one out of range. -/
def integerToken (value : Nat) (text : String) (offset : Nat) : Except Error Token :=
  if value < 9223372036854775808 then .ok (.integer (Int64.ofNat value)) else .error (.invalidToken text offset)

/-- The lexeme that starts with `c`, followed by `rest`: its token and how many characters of
`rest` it takes. -/
def scan (c : Char) (rest : List Char) (offset : Nat) : Except Error (Token × Nat) :=
  if isIdentStart c then
    let word := rest.takeWhile isIdentChar
    .ok (wordToken (String.ofList (c :: word)), word.length)
  else if c.isDigit then
    let digits := rest.takeWhile Char.isDigit
    let after := rest.drop digits.length
    match after with
    | '.' :: more =>
      let fraction := more.takeWhile Char.isDigit
      let mantissa := digitsValue 10 (fun d => d.toNat - '0'.toNat) (c :: digits ++ fraction)
      .ok (.decimal (UInt64.ofNat
          (Binary.binary64.roundRatio mantissa (Nat.pow 10 fraction.length))),
        digits.length + 1 + fraction.length)
    | x :: h :: _ =>
      if c = '0' && digits.isEmpty && (x = 'x' || x = 'X') && isHexDigit h then
        let hex := after.tail.takeWhile isHexDigit
        let text := String.ofList (c :: x :: hex)
        (integerToken (digitsValue 16 hexValue hex) text offset).map (·, 1 + hex.length)
      else
        let text := String.ofList (c :: digits)
        (integerToken (digitsValue 10 (fun d => d.toNat - '0'.toNat) (c :: digits)) text offset).map
          (·, digits.length)
    | _ =>
      let text := String.ofList (c :: digits)
      (integerToken (digitsValue 10 (fun d => d.toNat - '0'.toNat) (c :: digits)) text offset).map
        (·, digits.length)
  else
    match c with
    | '*' => .ok (.star, 0)
    | '(' => .ok (.openParen, 0)
    | ')' => .ok (.closeParen, 0)
    | ',' => .ok (.comma, 0)
    | '=' => .ok (.equals, 0)
    | '-' => .ok (.minus, 0)
    | _ => .error (.invalidToken (String.singleton c) offset)

theorem length_drop_lt (rest : List Char) (n : Nat) :
    (rest.drop n).length < rest.length + 1 := by
  rw [List.length_drop]
  omega

/-- The lexemes of a text from a byte offset on. -/
def lexFrom (cs : List Char) (offset : Nat) : Except Error (List Lexeme) :=
  match cs with
  | [] => .ok []
  | c :: rest =>
    if isBlank c then lexFrom rest (offset + c.utf8Size)
    else
      match scan c rest offset with
      | .error e => .error e
      | .ok (token, n) =>
        let text := String.ofList (c :: rest.take n)
        match lexFrom (rest.drop n) (offset + text.utf8ByteSize) with
        | .error e => .error e
        | .ok tail => .ok (⟨token, text, offset⟩ :: tail)
termination_by cs.length
decreasing_by
  · simp
  · exact length_drop_lt rest n

/-- The lexemes of a declaration. -/
def lex (s : String) : Except Error (List Lexeme) := lexFrom s.toList 0

end CStack.Prototype

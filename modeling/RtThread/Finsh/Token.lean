import RtThread.Finsh

/-! The tokens of a finsh line. The buffers behind the token are lists; a line has no room to fill
them, except for buf in token_proc_char, which is not read. -/
namespace RtThread.Finsh

/-- The FINSH_ERROR_ numbers. -/
inductive FinshError where
  | ok
  | invalidToken
  | expectType
  | unknownType
  | variableExist
  | expectOperator
  | memoryFull
  | unknownOp
  | unknownNode
  | expectChar
  | unexpectEnd
  | unknownToken
  | noFloat
  | unknownSymbol
  | nullNode
  deriving DecidableEq

/-- enum finsh_token_type. -/
inductive TokenType where
  | leftParen
  | rightParen
  | comma
  | semicolon
  | mul
  | add
  | inc
  | sub
  | dec
  | div
  | mod
  | assign
  | and
  | or
  | xor
  | bitwise
  | shl
  | shr
  | void
  | char
  | short
  | int
  | long
  | unsigned
  | valueChar
  | valueInt
  | valueLong
  | valueString
  | valueNull
  | identifier
  | bad
  | eof
  deriving DecidableEq

abbrev Chars := List UInt8

def chars (s : String) : Chars := s.toList.map Char.toUInt8

def cmdSize : Nat := 80
def nameMax : Nat := 16

/-- What lies before the NUL of a command line. -/
structure Line where
  chars : Chars
  noNul : ∀ c ∈ chars, c ≠ 0
  short : chars.length ≤ cmdSize

/-- A finsh_token with global_errno; current_token is set before it is first read. -/
structure Token where
  line : Chars
  eof : Bool := false
  replay : Bool := false
  position : Nat := 0
  currentToken : TokenType := .eof
  value : Long := 0
  string : Chars := []
  errno : FinshError := .ok

def isDigit (ch : UInt8) : Bool := '0'.toUInt8 ≤ ch ∧ ch ≤ '9'.toUInt8

def isLetter (n : Nat) (ch : UInt8) : Bool :=
  'a'.toUInt8 ≤ ch ||| 0x20 ∧ (ch ||| 0x20).toNat - 'a'.toNat < n

def isAlpha : UInt8 → Bool := isLetter 26
def isXdigit (ch : UInt8) : Bool := isDigit ch || isLetter 6 ch

def isSeparator (ch : UInt8) : Bool :=
  !(('a'.toUInt8 ≤ ch ∧ ch ≤ 'z'.toUInt8) ∨ ('A'.toUInt8 ≤ ch ∧ ch ≤ 'Z'.toUInt8) ∨ isDigit ch ∨
    ch = '_'.toUInt8)

def isBlank (ch : UInt8) : Bool := ch = ' '.toUInt8 ∨ ch = '\t'.toUInt8 ∨ ch = '\r'.toUInt8
def isOctal (ch : UInt8) : Bool := '0'.toUInt8 ≤ ch ∧ ch ≤ '7'.toUInt8
def isBinary (ch : UInt8) : Bool := ch = '0'.toUInt8 ∨ ch = '1'.toUInt8

namespace Token

/-- finsh_error_set. -/
def fail (t : Token) (e : FinshError) : Token := { t with errno := e }

def nextChar (t : Token) : UInt8 × Token :=
  if t.eof then (0, t)
  else
    match t.line[t.position]? with
    | none => (0, { t with eof := true, position := 0 })
    | some ch =>
      if ch = '\n'.toUInt8 then (0, { t with eof := true, position := 0 })
      else (ch, { t with position := t.position + 1 })

def prevChar (t : Token) : Token :=
  if t.eof ∨ t.position = 0 then t else { t with position := t.position - 1 }

/-- `while (p(ch)) { *p++ = ch; ch = token_next_char(self); }`: what is stored and the last ch.
The end of the line reads as NUL, which no `p` accepts. -/
def span (p : UInt8 → Bool) : Nat → UInt8 → Token → Chars × UInt8 × Token
  | 0, ch, t => ([], ch, t)
  | fuel + 1, ch, t =>
    if p ch then
      let (next, t) := t.nextChar
      let (cs, last, t) := span p fuel next t
      (ch :: cs, last, t)
    else ([], ch, t)

def fuel (t : Token) : Nat := t.line.length + 1

def trimSpace (t : Token) : Token :=
  let (ch, t) := t.nextChar
  let (_, _, t) := t.span isBlank t.fuel ch
  t.prevChar

/-- token_get_string; behind an identifier the end of the line is forgotten. -/
def getString (t : Token) : Token :=
  let (ch, t) := t.nextChar
  if t.eof then t
  else if isDigit ch then { t with string := [] }.prevChar
  else
    let (cs, _, t) := t.span (fun ch => !isSeparator ch) t.fuel ch
    { { t with eof := false }.prevChar with string := cs }

/-- finsh_name_table. -/
def nameTable : List (Chars × TokenType) :=
  [(chars "void", .void), (chars "char", .char), (chars "short", .short), (chars "int", .int),
    (chars "long", .long), (chars "unsigned", .unsigned), (chars "NULL", .valueNull),
    (chars "null", .valueNull)]

/-- The escapes of one character that token_proc_char and token_proc_escape share. -/
def plainEscapes : List (UInt8 × UInt8) :=
  [('n'.toUInt8, 10), ('t'.toUInt8, 9), ('v'.toUInt8, 11), ('b'.toUInt8, 8), ('r'.toUInt8, 13)]

/-- The number behind a backslash reads as 0: atoi is called with the end of buf. -/
def procChar (t : Token) : Token :=
  let (ch, t) := t.nextChar
  let (ch, t) :=
    if ch = '\\'.toUInt8 then
      let (ch, t) := t.nextChar
      match (plainEscapes ++ [('\\'.toUInt8, '\\'.toUInt8), ('\''.toUInt8, '\''.toUInt8)]).lookup ch with
      | some value => (value, t)
      | none =>
        let (_, _, t) := t.span isDigit t.fuel ch
        (0, t.prevChar)
    else (ch, t)
  let (quote, t) := t.nextChar
  let t := { t with value := BitVec.ofNat 32 ch.toNat }
  if quote ≠ '\''.toUInt8 then t.prevChar.fail .expectChar else t

/-- The value of a digit of token_proc_escape. -/
def xdigit (ch : UInt8) : Nat :=
  if ch < 'A'.toUInt8 then ch.toNat - '0'.toNat else (ch ||| 0x20).toNat - 'a'.toNat + 10

def procEscape (t : Token) : UInt8 × Token :=
  let (ch, t) := t.nextChar
  match (plainEscapes ++ [('f'.toUInt8, 12), ('a'.toUInt8, 7), ('"'.toUInt8, '"'.toUInt8)]).lookup ch with
  | some value => (value, t)
  | none =>
    if ch = 'x'.toUInt8 ∨ ch = 'X'.toUInt8 then
      let (ch, t) := t.nextChar
      let (cs, _, t) := t.span isXdigit t.fuel ch
      (UInt8.ofNat (cs.foldl (fun r c => r * 16 + xdigit c) 0), t.prevChar)
    else if isOctal ch then
      let (cs, _, t) := t.span isOctal t.fuel ch
      (UInt8.ofNat (cs.foldl (fun r c => r * 8 + xdigit c) 0), t.prevChar)
    else (0, t)

def procString : Nat → Chars → Token → Token
  | 0, cs, t => { t with string := cs }
  | fuel + 1, cs, t =>
    let (ch, t) := t.nextChar
    if t.eof then { t with string := cs }.fail .unexpectEnd
    else if ch = '\\'.toUInt8 then
      let (ch, t) := t.procEscape
      procString fuel (cs ++ [ch]) t
    else if ch = '"'.toUInt8 then { t with string := cs }
    else procString fuel (cs ++ [ch]) t

/-- The value of a digit of token_spec_number. -/
def specDigit (ch : UInt8) : Nat :=
  if 'a'.toUInt8 ≤ ch ∧ ch ≤ 'f'.toUInt8 then ch.toNat - 'a'.toNat + 10
  else if 'A'.toUInt8 ≤ ch ∧ ch ≤ 'F'.toUInt8 then ch.toNat - 'A'.toNat + 10
  else ch.toNat - '0'.toNat

/-- token_spec_number; the result is the low word. -/
def specNumber (shift : Nat) (cs : Chars) : Long :=
  cs.foldl (fun v c => v <<< shift ||| BitVec.ofNat 32 (specDigit c)) 0

/-- The type of a number by the character behind it. -/
def numberSuffix (ch : UInt8) (t : Token) : Token :=
  if ch = 'l'.toUInt8 ∨ ch = 'L'.toUInt8 then { t with currentToken := .valueLong }
  else { t with currentToken := .valueInt }.prevChar

def procSpec (p : UInt8 → Bool) (shift : Nat) (ch : UInt8) (t : Token) : Token :=
  let (cs, last, t) := t.span p t.fuel ch
  numberSuffix last { t with value := specNumber shift cs }

def procNumber (t : Token) : Token :=
  let (ch, t) := t.nextChar
  if ch = '0'.toUInt8 then
    let (ch, t) := t.nextChar
    if ch = 'x'.toUInt8 ∨ ch = 'X'.toUInt8 then
      let (ch, t) := t.nextChar
      procSpec (fun ch => isDigit ch || isAlpha ch) 4 ch t
    else if ch = 'b'.toUInt8 ∨ ch = 'B'.toUInt8 then
      let (ch, t) := t.nextChar
      procSpec isBinary 1 ch t
    else if isOctal ch then procSpec isOctal 3 ch t
    else { t.prevChar with value := 0, currentToken := .valueInt }
  else
    let (cs, last, t) := t.span isDigit t.fuel ch
    let value := cs.foldl (fun v c => v * 10 + BitVec.ofNat 32 (c.toNat - '0'.toNat)) (0 : Long)
    numberSuffix last { t with value }

def singles : List (UInt8 × TokenType) :=
  [('('.toUInt8, .leftParen), (')'.toUInt8, .rightParen), (','.toUInt8, .comma),
    (';'.toUInt8, .semicolon), ('&'.toUInt8, .and), ('*'.toUInt8, .mul), ('|'.toUInt8, .or),
    ('%'.toUInt8, .mod), ('~'.toUInt8, .bitwise), ('^'.toUInt8, .xor), ('='.toUInt8, .assign)]

/-- The characters that may come twice, with the token of two and of one; `//` ends the line. -/
def doubles : List (UInt8 × TokenType × TokenType) :=
  [('+'.toUInt8, .inc, .add), ('-'.toUInt8, .dec, .sub), ('/'.toUInt8, .eof, .div),
    ('<'.toUInt8, .shl, .bad), ('>'.toUInt8, .shr, .bad)]

/-- token_run behind an empty token_get_string. -/
def runOperator (t : Token) : Token :=
  let (ch, t) := t.nextChar
  match singles.lookup ch with
  | some type => { t with currentToken := type }
  | none =>
    match doubles.lookup ch with
    | some (twice, once) =>
      let (second, t) := t.nextChar
      if second = ch then { t with currentToken := twice }
      else { t.prevChar with currentToken := once }
    | none =>
      if ch = '\''.toUInt8 then { t.procChar with currentToken := .valueChar }
      else if ch = '"'.toUInt8 then { t.procString t.fuel [] with currentToken := .valueString }
      else if isDigit ch then t.prevChar.procNumber
      else { t with currentToken := .bad }.fail .unknownToken

def run (t : Token) : Token :=
  let t := t.trimSpace.getString
  if t.eof then { t with currentToken := .eof }
  else if t.string ≠ [] then
    { t with currentToken := (nameTable.lookup t.string).getD .identifier }
  else t.runOperator

/-- finsh_token_token. -/
def next (t : Token) : TokenType × Token :=
  let t := if t.replay then { t with replay := false } else t.run
  (t.currentToken, t)

/-- finsh_token_replay. -/
def again (t : Token) : Token := { t with replay := true }

end Token

end RtThread.Finsh

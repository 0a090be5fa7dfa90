/-
  JSON texts: the values, the writer `dumps` and the reader `loads`.

  `dumps` writes ASCII only, with ", " and ": " as separators; `loads` is an automaton that
  takes one character at a time, so that reading a concatenation is reading its parts in turn
  (`exec_append`). The lexer half (`Lex`) collects strings and atoms, the parser half
  (`Parser`) keeps the open containers on a stack.

  Binary floating point is not modelled: a float is the rational it denotes, and `FloatText`
  is the text format of floats, with what a shortest-round-trip printer promises as fields.

  An object is its list of fields; a repeated field name is read as its last value (`field?`).
-/
import MiniDb.Lib.Steps
import Mathlib.Data.Rat.Defs
import Mathlib.Data.List.Basic

namespace Lib

inductive Json where
  | null
  | bool (b : Bool)
  | int (n : Int)
  | float (x : ℚ)
  | str (s : String)
  | arr (items : List Json)
  | obj (fields : List (String × Json))

namespace Json

/-- `d.get(name)` of an object; `none` when it has no such field or `v` is no object. -/
def field? (v : Json) (name : String) : Option Json :=
  match v with
  | .obj fields => (fields.reverse.find? fun p => p.1 = name).map Prod.snd
  | _ => none

/-- The number that arithmetic and comparison take a value for. -/
def number? : Json → Option ℚ
  | .bool b => some (if b then 1 else 0)
  | .int n => some n
  | .float x => some x
  | _ => none

/-- `v > w`, on numbers and on strings; `none` where comparing raises. Two arrays, which could be
    compared item by item, are refused here. -/
def greater : Json → Json → Option Bool
  | .str s, .str t => some (t < s)
  | v, w => v.number?.bind fun x => w.number?.map fun y => decide (y < x)

/-- The text format of floats: `repr` and its inverse on the values a float can take. -/
structure FloatText where
  isFloat : ℚ → Prop
  repr : ℚ → List Char
  parse : List Char → Option ℚ
  parse_repr : ∀ x, isFloat x → parse (repr x) = some x
  /-- Only digits, sign, point and exponent mark. -/
  repr_chars : ∀ x, isFloat x → ∀ c ∈ repr x, c.isDigit ∨ c = '+' ∨ c = '-' ∨ c = '.' ∨ c = 'e'
  /-- A float is never written like an integer. -/
  repr_mark : ∀ x, isFloat x → '.' ∈ repr x ∨ 'e' ∈ repr x

/-! ## Writing -/

/-- `\uXXXX` -/
def unicodeEscape (n : Nat) : List Char :=
  ['\\', 'u', Nat.digitChar (n / 4096 % 16), Nat.digitChar (n / 256 % 16),
    Nat.digitChar (n / 16 % 16), Nat.digitChar (n % 16)]

/-- The UTF-16 code units of a character. -/
def units (c : Char) : List Nat :=
  if c.toNat < 0x10000 then [c.toNat]
  else [0xD800 + (c.toNat - 0x10000) / 0x400, 0xDC00 + (c.toNat - 0x10000) % 0x400]

def escapeChar (c : Char) : List Char :=
  if c = '"' then ['\\', '"']
  else if c = '\\' then ['\\', '\\']
  else if c = '\n' then ['\\', 'n']
  else if c = '\r' then ['\\', 'r']
  else if c = '\t' then ['\\', 't']
  else if c = '\x08' then ['\\', 'b']
  else if c = '\x0c' then ['\\', 'f']
  else if 0x20 ≤ c.toNat ∧ c.toNat < 0x7f then [c]
  else (units c).flatMap unicodeEscape

def strText (s : String) : List Char :=
  '"' :: s.toList.flatMap escapeChar ++ ['"']

def intText : Int → List Char
  | .ofNat n => Nat.toDigits 10 n
  | .negSucc n => '-' :: Nat.toDigits 10 (n + 1)

mutual

def dumps (F : FloatText) : Json → List Char
  | .null => ['n', 'u', 'l', 'l']
  | .bool true => ['t', 'r', 'u', 'e']
  | .bool false => ['f', 'a', 'l', 's', 'e']
  | .int n => intText n
  | .float x => F.repr x
  | .str s => strText s
  | .arr [] => ['[', ']']
  | .arr (v :: vs) => '[' :: (dumps F v ++ dumpsItems F vs)
  | .obj [] => ['{', '}']
  | .obj ((k, v) :: fs) => '{' :: (strText k ++ ':' :: ' ' :: (dumps F v ++ dumpsFields F fs))

/-- The items after the first, with the closing bracket. -/
def dumpsItems (F : FloatText) : List Json → List Char
  | [] => [']']
  | v :: vs => ',' :: ' ' :: (dumps F v ++ dumpsItems F vs)

/-- The fields after the first, with the closing brace. -/
def dumpsFields (F : FloatText) : List (String × Json) → List Char
  | [] => ['}']
  | (k, v) :: fs => ',' :: ' ' :: (strText k ++ ':' :: ' ' :: (dumps F v ++ dumpsFields F fs))

end

mutual

/-- Every float in `v` is a value of the float type. -/
def Printable (F : FloatText) : Json → Prop
  | .null => True
  | .bool _ => True
  | .int _ => True
  | .float x => F.isFloat x
  | .str _ => True
  | .arr vs => PrintableItems F vs
  | .obj fs => PrintableFields F fs

def PrintableItems (F : FloatText) : List Json → Prop
  | [] => True
  | v :: vs => Printable F v ∧ PrintableItems F vs

def PrintableFields (F : FloatText) : List (String × Json) → Prop
  | [] => True
  | (_, v) :: fs => Printable F v ∧ PrintableFields F fs

end

/-! ## Reading -/

/-- A natural number without leading zeros. -/
def natOfText : List Char → Option Nat
  | [] => none
  | '0' :: cs => if cs = [] then some 0 else none
  | c :: cs => if (c :: cs).all Char.isDigit then some (Nat.ofDigitChars 10 (c :: cs) 0) else none

def intOfText : List Char → Option Int
  | '-' :: cs => (natOfText cs).map fun n => -(n : Int)
  | cs => (natOfText cs).map fun n => (n : Int)

/-- The value of a word or number. -/
def atomValue (F : FloatText) (cs : List Char) : Option Json :=
  if cs = ['n', 'u', 'l', 'l'] then some .null
  else if cs = ['t', 'r', 'u', 'e'] then some (.bool true)
  else if cs = ['f', 'a', 'l', 's', 'e'] then some (.bool false)
  else if '.' ∈ cs ∨ 'e' ∈ cs ∨ 'E' ∈ cs then (F.parse cs).map .float
  else (intOfText cs).map .int

/-- Code units to characters; a lone surrogate is refused. -/
def decodeUnits : List Nat → Option (List Char)
  | [] => some []
  | [u] => if 0xD800 ≤ u ∧ u < 0xE000 then none else some [Char.ofNat u]
  | u :: lo :: us =>
    if 0xD800 ≤ u ∧ u < 0xE000 then
      if u < 0xDC00 ∧ 0xDC00 ≤ lo ∧ lo < 0xE000 then
        (decodeUnits us).map (Char.ofNat (0x10000 + (u - 0xD800) * 0x400 + (lo - 0xDC00)) :: ·)
      else none
    else (decodeUnits (lo :: us)).map (Char.ofNat u :: ·)

/-- An open container around the value being read, with what came before it (latest first). -/
inductive Frame where
  | arr (items : List Json)
  | field (fields : List (String × Json)) (key : String)

/-- What may come next. -/
inductive Mode where
  | value
  | valueOrEnd
  | keyOrEnd
  | key (fields : List (String × Json))
  | colon (fields : List (String × Json)) (key : String)
  | arrNext (items : List Json)
  | objNext (fields : List (String × Json))
  | done (v : Json)

structure Parser where
  mode : Mode
  stack : List Frame

inductive Token where
  | lbrack | rbrack | lbrace | rbrace | comma | colon
  | str (s : String)
  | scalar (v : Json)

/-- A value is complete inside the containers of the stack. -/
def complete (v : Json) : List Frame → Parser
  | [] => ⟨.done v, []⟩
  | .arr items :: st => ⟨.arrNext (v :: items), st⟩
  | .field fields k :: st => ⟨.objNext ((k, v) :: fields), st⟩

/-- A token where a value is expected. -/
def Parser.pushValue (st : List Frame) : Token → Option Parser
  | .lbrack => some ⟨.valueOrEnd, .arr [] :: st⟩
  | .lbrace => some ⟨.keyOrEnd, st⟩
  | .str s => some (complete (.str s) st)
  | .scalar v => some (complete v st)
  | _ => none

def Parser.push (p : Parser) (t : Token) : Option Parser :=
  match p.mode, t with
  | .value, t => pushValue p.stack t
  | .valueOrEnd, .rbrack => some (complete (.arr []) p.stack.tail)
  | .valueOrEnd, t => pushValue p.stack t
  | .keyOrEnd, .str k => some ⟨.colon [] k, p.stack⟩
  | .keyOrEnd, .rbrace => some (complete (.obj []) p.stack)
  | .key fields, .str k => some ⟨.colon fields k, p.stack⟩
  | .colon fields k, .colon => some ⟨.value, .field fields k :: p.stack⟩
  | .arrNext items, .comma => some ⟨.value, .arr items :: p.stack⟩
  | .arrNext items, .rbrack => some (complete (.arr items.reverse) p.stack)
  | .objNext fields, .comma => some ⟨.key fields, p.stack⟩
  | .objNext fields, .rbrace => some (complete (.obj fields.reverse) p.stack)
  | _, _ => none

/-- What the lexer is inside of; collected characters and code units are kept latest first. -/
inductive Lex where
  | idle
  | str (acc : List Nat)
  | esc (acc : List Nat)
  | uni (acc : List Nat) (seen value : Nat)
  | atom (acc : List Char)

structure State where
  lex : Lex
  parser : Parser

def isSpace (c : Char) : Bool := c = ' ' || c = '\t' || c = '\n' || c = '\r'

def isAtomChar (c : Char) : Bool := c.isAlphanum || c = '+' || c = '-' || c = '.'

def punct : Char → Option Token
  | '[' => some .lbrack
  | ']' => some .rbrack
  | '{' => some .lbrace
  | '}' => some .rbrace
  | ',' => some .comma
  | ':' => some .colon
  | _ => none

def hexVal (c : Char) : Option Nat :=
  if c.isDigit then some (c.toNat - 48)
  else if 'a' ≤ c ∧ c ≤ 'f' then some (c.toNat - 87)
  else if 'A' ≤ c ∧ c ≤ 'F' then some (c.toNat - 55)
  else none

/-- The character after a backslash (`u` apart). -/
def simpleEscape : Char → Option Nat
  | '"' => some 34
  | '\\' => some 92
  | '/' => some 47
  | 'b' => some 8
  | 'f' => some 12
  | 'n' => some 10
  | 'r' => some 13
  | 't' => some 9
  | _ => none

/-- A character outside strings and atoms. After the top value only white space may come. -/
def stepIdle (p : Parser) (c : Char) : Option State :=
  if isSpace c then some ⟨.idle, p⟩
  else match p.mode with
    | .done _ => none
    | _ =>
      if c = '"' then some ⟨.str [], p⟩
      else if isAtomChar c then some ⟨.atom [c], p⟩
      else (punct c).bind fun t => (p.push t).map fun p' => ⟨.idle, p'⟩

/-- The parser once a pending atom is handed over; `none` inside a string. -/
def flush (F : FloatText) (s : State) : Option Parser :=
  match s.lex with
  | .idle => some s.parser
  | .atom acc => (atomValue F acc.reverse).bind fun v => s.parser.push (.scalar v)
  | _ => none

def readChar (F : FloatText) (s : State) (c : Char) : Option State :=
  match s.lex with
  | .idle => stepIdle s.parser c
  | .atom acc =>
    if isAtomChar c then some ⟨.atom (c :: acc), s.parser⟩
    else (flush F s).bind fun p => stepIdle p c
  | .str acc =>
    if c = '"' then
      (decodeUnits acc.reverse).bind fun cs =>
        (s.parser.push (.str (String.ofList cs))).map fun p => ⟨.idle, p⟩
    else if c = '\\' then some ⟨.esc acc, s.parser⟩
    else if c.toNat < 0x20 then none
    else some ⟨.str (c.toNat :: acc), s.parser⟩
  | .esc acc =>
    if c = 'u' then some ⟨.uni acc 0 0, s.parser⟩
    else (simpleEscape c).map fun u => ⟨.str (u :: acc), s.parser⟩
  | .uni acc seen value =>
    (hexVal c).map fun d =>
      if seen = 3 then ⟨.str ((16 * value + d) :: acc), s.parser⟩
      else ⟨.uni acc (seen + 1) (16 * value + d), s.parser⟩

def start : State := ⟨.idle, ⟨.value, []⟩⟩

/-- The value read, when the text ended after exactly one. -/
def accepted (F : FloatText) (s : State) : Option Json :=
  (flush F s).bind fun p =>
    match p.mode with
    | .done v => some v
    | _ => none

/-- `json.loads`; `none` is the decoding error. -/
def loads (F : FloatText) (text : List Char) : Option Json :=
  (exec (readChar F) start text).bind (accepted F)

end Json

end Lib

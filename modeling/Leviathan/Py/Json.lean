import Leviathan.Py.Dict

/-!
# Python's `json` module

`Json` is what `json.loads` builds, `dumps` is `json.dumps(.., separators=(",", ":"))` with its
default `ensure_ascii=True`, and `loads` is `json.loads`.

The scanner reads one character at a time: a state is the place in the grammar (`Mode`) and the
containers that are still open (`Frame`). So the scan of `a ++ b` is the scan of `b` from the state
after `a`, which is what the proofs about torn and merged lines use.

Scope: a `str` is a sequence of Unicode scalar values, so a lone surrogate escape reads as U+FFFD.
A `float` is the literal `repr` prints for it; `repr` gives different floats different literals, and
a literal that `repr` would not print is kept as it is. CPython's limits on the digits of an `int`
and on the nesting depth are not modelled.
-/

namespace Py

/-- A `str`. -/
abbrev Str := List Char

instance : LawfulBEq Str := inferInstance

/-! ## Numbers -/

/-- Where a scan of a number stands. -/
inductive NumPos where
  /-- after the sign -/
  | minus
  /-- after a leading `0` -/
  | zero
  /-- in the digits of the integer part -/
  | int
  /-- after the point -/
  | dot
  /-- in the digits of the fraction -/
  | frac
  /-- after `e` or `E` -/
  | exp
  /-- after the sign of the exponent -/
  | expSign
  /-- in the digits of the exponent -/
  | expDigits
  deriving DecidableEq, Repr

namespace NumPos

/-- The first character of a number. -/
def start (c : Char) : Option NumPos :=
  if c = '-' then some .minus
  else if c = '0' then some .zero
  else if c.isDigit then some .int
  else none

/-- One more character of the number, if it continues it. -/
def step : NumPos → Char → Option NumPos
  | .minus, c => if c = '0' then some .zero else if c.isDigit then some .int else none
  | .zero, c => if c = '.' then some .dot else if c = 'e' ∨ c = 'E' then some .exp else none
  | .int, c =>
    if c.isDigit then some .int else if c = '.' then some .dot
    else if c = 'e' ∨ c = 'E' then some .exp else none
  | .dot, c => if c.isDigit then some .frac else none
  | .frac, c =>
    if c.isDigit then some .frac else if c = 'e' ∨ c = 'E' then some .exp else none
  | .exp, c =>
    if c = '+' ∨ c = '-' then some .expSign else if c.isDigit then some .expDigits else none
  | .expSign, c => if c.isDigit then some .expDigits else none
  | .expDigits, c => if c.isDigit then some .expDigits else none

/-- The scan of a whole number, from `p` on. -/
def run : NumPos → Str → Option NumPos
  | p, [] => some p
  | p, c :: cs => match p.step c with
    | some p' => run p' cs
    | none => none

/-- A number may end here as an `int`. -/
def isInt : NumPos → Bool
  | .zero | .int => true
  | _ => false

/-- A number may end here as a `float`. -/
def isFloat : NumPos → Bool
  | .frac | .expDigits => true
  | _ => false

end NumPos

/-- The scan of a number from its first character. -/
def scanNum : Str → Option NumPos
  | [] => none
  | c :: cs => (NumPos.start c).bind (·.run cs)

/-- The literals that `json` accepts beside the numbers of the grammar. -/
def nanText : Str := ['N', 'a', 'N']
def infText : Str := ['I', 'n', 'f', 'i', 'n', 'i', 't', 'y']
def negInfText : Str := '-' :: infText

/-- `t` is the literal of a `float`. -/
def isFloatText (t : Str) : Bool :=
  t = nanText || t = infText || t = negInfText || (scanNum t).any NumPos.isFloat

/-- A `float`, by the literal that `repr` prints for it. -/
structure Float where
  text : Str
  wf : isFloatText text = true
  deriving DecidableEq

/-- The `float` of a literal. -/
def Float.ofText? (t : Str) : Option Float :=
  if h : isFloatText t = true then some ⟨t, h⟩ else none

/-- `str(i)` of an `int`. -/
def intText (i : Int) : Str :=
  if i < 0 then '-' :: Nat.toDigits 10 i.natAbs else Nat.toDigits 10 i.natAbs

/-- The `int` of a literal of the grammar. -/
def intOfText : Str → Int
  | '-' :: ds => -(Nat.ofDigitChars 10 ds 0 : Nat)
  | ds => (Nat.ofDigitChars 10 ds 0 : Nat)

/-! ## Values -/

inductive Json where
  | null
  | bool (b : Bool)
  | int (i : Int)
  | float (f : Float)
  | str (s : Str)
  | arr (xs : List Json)
  | obj (ms : List (Str × Json))

/-! ## `dumps` -/

/-- The hexadecimal digit of `n < 16`, as `format(n, "x")`. -/
def hexDigit (n : Nat) : Char := Nat.digitChar n

/-- The escape of one UTF-16 code unit. -/
def unitEscape (u : Nat) : Str :=
  ['\\', 'u', hexDigit (u / 4096 % 16), hexDigit (u / 256 % 16), hexDigit (u / 16 % 16),
    hexDigit (u % 16)]

/-- One character in a string literal: as itself in the printable ASCII range. -/
def escapeChar (c : Char) : Str :=
  if c = '"' then ['\\', '"']
  else if c = '\\' then ['\\', '\\']
  else if c = '\n' then ['\\', 'n']
  else if c = '\r' then ['\\', 'r']
  else if c = '\t' then ['\\', 't']
  else if c.toNat = 12 then ['\\', 'f']
  else if c.toNat = 8 then ['\\', 'b']
  else if 32 ≤ c.toNat ∧ c.toNat < 127 then [c]
  else if c.toNat < 65536 then unitEscape c.toNat
  else
    unitEscape (55296 + (c.toNat - 65536) / 1024) ++ unitEscape (56320 + (c.toNat - 65536) % 1024)

def dumpsStr (s : Str) : Str := '"' :: (s.flatMap escapeChar ++ ['"'])

mutual

/-- `json.dumps(v, separators=(",", ":"))`. -/
def dumps : Json → Str
  | .null => ['n', 'u', 'l', 'l']
  | .bool true => ['t', 'r', 'u', 'e']
  | .bool false => ['f', 'a', 'l', 's', 'e']
  | .int i => intText i
  | .float f => f.text
  | .str s => dumpsStr s
  | .arr xs => '[' :: dumpsElems xs
  | .obj ms => '{' :: dumpsMembers ms

/-- The elements of an array, with its closing bracket. -/
def dumpsElems : List Json → Str
  | [] => [']']
  | [x] => dumps x ++ [']']
  | x :: xs => dumps x ++ ',' :: dumpsElems xs

/-- The members of an object, with its closing brace. -/
def dumpsMembers : List (Str × Json) → Str
  | [] => ['}']
  | [(k, v)] => dumpsStr k ++ ':' :: dumps v ++ ['}']
  | (k, v) :: ms => dumpsStr k ++ ':' :: dumps v ++ ',' :: dumpsMembers ms

end

/-! ## `loads`: strings -/

/-- Where a scan of a string literal stands. -/
inductive StrPos where
  | plain
  /-- after a backslash -/
  | escape
  /-- `left + 1` digits of a `\u` escape are missing -/
  | hex (left val : Nat)
  deriving DecidableEq, Repr

/-- A string literal under scan: what it holds so far, and a high surrogate that the next escape may
complete. -/
structure StrScan where
  acc : Str
  high : Option Nat
  pos : StrPos
  deriving DecidableEq, Repr

/-- The code point `n`, or U+FFFD for a surrogate. -/
def chr (n : Nat) : Char := if n.isValidChar then Char.ofNat n else Char.ofNat 65533

def isHighSurrogate (n : Nat) : Bool := 55296 ≤ n ∧ n < 56320

def isLowSurrogate (n : Nat) : Bool := 56320 ≤ n ∧ n < 57344

/-- The value of a hexadecimal digit. -/
def hexVal (c : Char) : Option Nat :=
  if c.isDigit then some (c.toNat - 48)
  else if 'a' ≤ c ∧ c ≤ 'f' then some (c.toNat - 87)
  else if 'A' ≤ c ∧ c ≤ 'F' then some (c.toNat - 55)
  else none

/-- The character of an escape of one letter. -/
def simpleEscape (c : Char) : Option Char :=
  if c = '"' then some '"'
  else if c = '\\' then some '\\'
  else if c = '/' then some '/'
  else if c = 'b' then some (Char.ofNat 8)
  else if c = 'f' then some (Char.ofNat 12)
  else if c = 'n' then some '\n'
  else if c = 'r' then some '\r'
  else if c = 't' then some '\t'
  else none

namespace StrScan

def empty : StrScan := ⟨[], none, .plain⟩

/-- The content so far, a pending high surrogate being alone. -/
def flush (s : StrScan) : Str := match s.high with
  | none => s.acc
  | some h => s.acc ++ [chr h]

def push (s : StrScan) (c : Char) : StrScan := ⟨s.flush ++ [c], none, .plain⟩

/-- A complete `\u` escape with the code unit `u`. -/
def pushUnit (s : StrScan) (u : Nat) : StrScan :=
  match s.high with
  | some h =>
    if isLowSurrogate u then ⟨s.acc ++ [chr (65536 + (h - 55296) * 1024 + (u - 56320))], none, .plain⟩
    else if isHighSurrogate u then ⟨s.flush, some u, .plain⟩
    else s.push (chr u)
  | none => if isHighSurrogate u then ⟨s.acc, some u, .plain⟩ else s.push (chr u)

/-- One character: the literal goes on (`inl`) or ends with its content (`inr`). -/
def step (s : StrScan) (c : Char) : Option (StrScan ⊕ Str) :=
  match s.pos with
  | .plain =>
    if c = '"' then some (.inr s.flush)
    else if c = '\\' then some (.inl { s with pos := .escape })
    else if c.toNat < 32 then none
    else some (.inl (s.push c))
  | .escape =>
    if c = 'u' then some (.inl { s with pos := .hex 3 0 })
    else (simpleEscape c).map fun e => .inl (s.push e)
  | .hex left val =>
    (hexVal c).map fun d => match left with
      | 0 => .inl (s.pushUnit (val * 16 + d))
      | left + 1 => .inl { s with pos := .hex left (val * 16 + d) }

end StrScan

/-! ## `loads`: the grammar -/

/-- A container under scan that waits for a value. -/
inductive Frame where
  | arr (xs : List Json)
  | obj (ms : Dict Str Json) (key : Str)

/-- The place in the grammar. -/
inductive Mode where
  /-- a value is next; `close`: or the end of the array just opened -/
  | value (close : Bool)
  /-- a key of the object `ms` is next; `close`: or the end of the object -/
  | key (ms : Dict Str Json) (close : Bool)
  /-- the colon after a key is next -/
  | colon (ms : Dict Str Json) (key : Str)
  /-- after an element of the array `xs` -/
  | elem (xs : List Json)
  /-- after a member of the object `ms` -/
  | member (ms : Dict Str Json)
  /-- after the value of the document -/
  | done (v : Json)
  /-- in a string that is a value -/
  | str (s : StrScan)
  /-- in a string that is a key of the object `ms` -/
  | keyStr (ms : Dict Str Json) (s : StrScan)
  /-- in a number with the text `text` so far -/
  | num (pos : NumPos) (text : Str)
  /-- in a literal with the value `v`; `c :: rest` is missing -/
  | word (c : Char) (rest : Str) (v : Json)

/-- The place in the grammar and the open containers, the innermost first. -/
structure Scan where
  mode : Mode
  stack : List Frame

namespace Scan

def init : Scan := ⟨.value false, []⟩

/-- Python's whitespace of the grammar. -/
def isWs (c : Char) : Bool := c = ' ' ∨ c = '\t' ∨ c = '\n' ∨ c = '\r'

/-- The value `v` is complete: it goes to the innermost open container. -/
def give (v : Json) : List Frame → Scan
  | [] => ⟨.done v, []⟩
  | .arr xs :: st => ⟨.elem (xs ++ [v]), st⟩
  | .obj ms k :: st => ⟨.member (Dict.set ms k v), st⟩

/-- The value of a number that ends at `pos` with the text `text`. -/
def numValue (pos : NumPos) (text : Str) : Option Json :=
  if pos.isInt then some (.int (intOfText text))
  else if pos.isFloat then (Float.ofText? text).map .float
  else none

/-- A value is complete, or a number may be. -/
def settle (q : Scan) : Option Scan :=
  match q.mode with
  | .num pos text => (numValue pos text).map fun v => give v q.stack
  | _ => some q

/-- One character after a value. -/
def stepAfter (q : Scan) (c : Char) : Option Scan :=
  if isWs c then some q
  else match q.mode with
    | .elem xs =>
      if c = ',' then some ⟨.value false, .arr xs :: q.stack⟩
      else if c = ']' then some (give (.arr xs) q.stack)
      else none
    | .member ms =>
      if c = ',' then some ⟨.key ms false, q.stack⟩
      else if c = '}' then some (give (.obj ms) q.stack)
      else none
    | _ => none

/-- The first character of a value. -/
def startValue (close : Bool) (st : List Frame) (c : Char) : Option Scan :=
  if c = '"' then some ⟨.str .empty, st⟩
  else if c = '{' then some ⟨.key [] true, st⟩
  else if c = '[' then some ⟨.value true, .arr [] :: st⟩
  else if c = ']' then
    match close, st with
    | true, .arr _ :: st => some (give (.arr []) st)
    | _, _ => none
  else if c = 'n' then some ⟨.word 'u' ['l', 'l'] .null, st⟩
  else if c = 't' then some ⟨.word 'r' ['u', 'e'] (.bool true), st⟩
  else if c = 'f' then some ⟨.word 'a' ['l', 's', 'e'] (.bool false), st⟩
  else if c = 'N' then (Float.ofText? nanText).map fun f => ⟨.word 'a' ['N'] (.float f), st⟩
  else if c = 'I' then
    (Float.ofText? infText).map fun f => ⟨.word 'n' ['f', 'i', 'n', 'i', 't', 'y'] (.float f), st⟩
  else (NumPos.start c).map fun p => ⟨.num p [c], st⟩

/-- One character. `none` is a `JSONDecodeError`. -/
def step (q : Scan) (c : Char) : Option Scan :=
  match q.mode with
  | .value close => if isWs c then some q else startValue close q.stack c
  | .key ms close =>
    if isWs c then some q
    else if c = '"' then some ⟨.keyStr ms .empty, q.stack⟩
    else if c = '}' ∧ close then some (give (.obj ms) q.stack)
    else none
  | .colon ms k =>
    if isWs c then some q
    else if c = ':' then some ⟨.value false, .obj ms k :: q.stack⟩
    else none
  | .elem _ | .member _ | .done _ => stepAfter q c
  | .str s => (s.step c).map fun
    | .inl s => ⟨.str s, q.stack⟩
    | .inr t => give (.str t) q.stack
  | .keyStr ms s => (s.step c).map fun
    | .inl s => ⟨.keyStr ms s, q.stack⟩
    | .inr t => ⟨.colon ms t, q.stack⟩
  | .num pos text => match pos.step c with
    | some pos => some ⟨.num pos (text ++ [c]), q.stack⟩
    | none =>
      if pos = .minus ∧ c = 'I' then
        (Float.ofText? negInfText).map fun f =>
          ⟨.word 'n' ['f', 'i', 'n', 'i', 't', 'y'] (.float f), q.stack⟩
      else q.settle.bind (stepAfter · c)
  | .word d rest v =>
    if c = d then match rest with
      | [] => some (give v q.stack)
      | d :: rest => some ⟨.word d rest v, q.stack⟩
    else none

/-- The scan of a text. -/
def run : Str → Scan → Option Scan
  | [], q => some q
  | c :: cs, q => match q.step c with
    | some q => run cs q
    | none => none

/-- The document, if the text may end here. -/
def finish (q : Scan) : Option Json :=
  q.settle.bind fun q => match q.mode with
    | .done v => some v
    | _ => none

end Scan

/-- `json.loads(text)`. `none` is a `JSONDecodeError`. -/
def loads (text : Str) : Option Json := (Scan.run text .init).bind Scan.finish

end Py

import Leviathan.Py.Text

/-!
# The runtime under the journal

The journal rests on code that is not in the repository: the model class `TradeTick`, whose
constructor checks its fields, and the parts of the interpreter that work with floating-point
numbers and Unicode tables. `Runtime` is one choice of that code; every definition that reaches
it takes a `Runtime`.

`pyInt`, `pyFloat` and `pyStr` are the conversions `int(x)`, `float(x)` and `str(x)` of a value that
`json.loads` returned.
-/

namespace Leviathan

open Py

/-- An exception, with the text that `str(exc)` gives. -/
inductive PyError where
  | keyError (text : Str)
  | typeError (text : Str)
  | valueError (text : Str)
  | overflowError (text : Str)
  /-- a `ValueError` too -/
  | unicodeDecodeError (text : Str)
  deriving DecidableEq

theorem except_map_ok {α β : Type} {f : α → β} {result : Except PyError α} {b : β}
    (h : result.map f = .ok b) : ∃ a, result = .ok a ∧ f a = b := by
  cases result with
  | error e => cases h
  | ok a => exact ⟨a, rfl, Except.ok.inj h⟩

/-- The fields of a `TradeTick`. -/
structure TickFields where
  instId : Str
  ts : Int
  price : Py.Float
  size : Py.Float
  side : Str
  tradeId : Str
  deriving DecidableEq

/-- The code the journal calls that is not in the repository. -/
structure Runtime where
  /-- `TradeTick.__post_init__` -/
  postInit : TickFields → Except PyError Unit
  /-- `c.upper()` -/
  upper : Char → Str
  /-- `int(s)` -/
  intOfStr : Str → Except PyError Int
  /-- `int(x)` of a `float` -/
  intOfFloat : Py.Float → Except PyError Int
  /-- `float(i)` of an `int` -/
  floatOfInt : Int → Except PyError Py.Float
  /-- `float(s)` -/
  floatOfStr : Str → Except PyError Py.Float
  /-- `str(x)` of a `list` or a `dict` -/
  reprOf : Json → Str
  /-- `str(exc)` of the `json.JSONDecodeError` for a text -/
  decodeErrorText : Str → Str
  /-- `str(exc)` of the `UnicodeDecodeError` for the rest of a file -/
  unicodeErrorText : Bytes → Str
  /-- `handle.tell()` of a text handle, behind a line that it has returned -/
  tell : TextHandle → Nat
  /-- White space has no case. -/
  upper_space : ∀ c, isSpace c = true → upper c = [c]
  /-- A letter has an upper case, and white space is in none. -/
  upper_letter : ∀ c, isSpace c = false → upper c ≠ [] ∧ ∀ d ∈ upper c, isSpace d = false
  /-- The upper case of an upper case is itself. -/
  upper_upper : ∀ c, (upper c).flatMap upper = upper c
  /-- Away from a `\r`, `tell` gives the offset. -/
  tell_offset : ∀ handle, handle.AwayFromCR → tell handle = handle.position
  /-- At a `\r`, the decoder may keep it back until the next character. Then the state of the
  decoder is in the bits of the number from 64 on, which is past the end of any file. -/
  tell_cases : ∀ handle, tell handle = handle.position ∨ handle.file.length < tell handle

variable (rt : Runtime)

/-- A `TradeTick`: fields that the constructor accepted. -/
structure TradeTick where
  fields : TickFields
  valid : rt.postInit fields = .ok ()
  deriving DecidableEq

/-- `TradeTick(..)`. -/
def TradeTick.new (f : TickFields) : Except PyError (TradeTick rt) :=
  match h : rt.postInit f with
  | .ok () => .ok ⟨f, h⟩
  | .error e => .error e

variable {rt} in
theorem TradeTick.fields_of_new {fields : TickFields} {tick : TradeTick rt}
    (h : TradeTick.new rt fields = .ok tick) : tick.fields = fields := by
  unfold TradeTick.new at h
  split at h
  · cases h
    rfl
  · cases h

/-- `s.upper()`. -/
def upperStr (s : Str) : Str := s.flatMap rt.upper

variable {rt} in
theorem upperStr_upperStr (s : Str) : upperStr rt (upperStr rt s) = upperStr rt s := by
  unfold upperStr
  rw [List.flatMap_assoc]
  exact List.flatMap_congr fun c _ => rt.upper_upper c

/-! ## Conversions -/

/-- `type(x).__name__`. -/
def typeName : Json → Str
  | .null => "NoneType".toList
  | .bool _ => "bool".toList
  | .int _ => "int".toList
  | .float _ => "float".toList
  | .str _ => "str".toList
  | .arr _ => "list".toList
  | .obj _ => "dict".toList

def pyInt : Json → Except PyError Int
  | .bool b => .ok (if b then 1 else 0)
  | .int i => .ok i
  | .float f => rt.intOfFloat f
  | .str s => rt.intOfStr s
  | x => .error (.typeError
      ("int() argument must be a string, a bytes-like object or a real number, not '".toList ++
        typeName x ++ ['\'']))

def pyFloat : Json → Except PyError Py.Float
  | .bool b => rt.floatOfInt (if b then 1 else 0)
  | .int i => rt.floatOfInt i
  | .float f => .ok f
  | .str s => rt.floatOfStr s
  | x => .error (.typeError
      ("float() argument must be a string or a real number, not '".toList ++ typeName x ++ ['\'']))

/-- `str(x)` of a `float`: `repr` and `json` print the special values differently. -/
def floatStr (f : Py.Float) : Str :=
  if f.text = nanText then ['n', 'a', 'n']
  else if f.text = infText then ['i', 'n', 'f']
  else if f.text = negInfText then ['-', 'i', 'n', 'f']
  else f.text

def pyStr : Json → Str
  | .null => "None".toList
  | .bool b => if b then "True".toList else "False".toList
  | .int i => intText i
  | .float f => floatStr f
  | .str s => s
  | x => rt.reprOf x

end Leviathan

import Leviathan.Py.Json

/-!
# Bytes, text mode and white space

A file is a list of bytes. A binary handle reads lines that end with `\n` (`byteLines`); a text
handle decodes UTF-8 and reads lines in universal-newline mode: `\n`, `\r` and `\r\n` end a line,
and the text has `\n` for each.

* `textLines`: the lines of bytes that are UTF-8, all of them.
* `textRead`: what a text handle returns line by line. It decodes chunks of `chunkSize` bytes, ahead
  of the line that it returns, so a byte that is no UTF-8 raises `UnicodeDecodeError` in place of
  the lines that end in its chunk, and behind the lines that end before.
* `TextHandle`: where a handle is. Its `tell` is a number of the interpreter.
-/

namespace Py

abbrev Bytes := List UInt8

/-! ## UTF-8 -/

/-- `s.encode("utf-8")`. -/
def encodeUtf8 (s : Str) : Bytes := s.flatMap String.utf8EncodeChar

/-- The decoder in a sequence: `left` bytes are missing, the next of them is in `lo .. hi`, and
`acc` is the value so far. -/
structure Utf8State where
  left : Nat
  acc : Nat
  lo : Nat
  hi : Nat

namespace Utf8State

/-- Between two characters. -/
def start : Utf8State := ⟨0, 0, 0, 0⟩

/-- The first byte of a character. -/
def lead (n : Nat) : Option Utf8State :=
  if n < 0x80 then some ⟨0, n, 0, 0⟩
  else if n < 0xC2 then none
  else if n < 0xE0 then some ⟨1, n - 0xC0, 0x80, 0xBF⟩
  else if n = 0xE0 then some ⟨2, 0, 0xA0, 0xBF⟩
  else if n = 0xED then some ⟨2, 0xD, 0x80, 0x9F⟩
  else if n < 0xF0 then some ⟨2, n - 0xE0, 0x80, 0xBF⟩
  else if n = 0xF0 then some ⟨3, 0, 0x90, 0xBF⟩
  else if n < 0xF4 then some ⟨3, n - 0xF0, 0x80, 0xBF⟩
  else if n = 0xF4 then some ⟨3, 4, 0x80, 0x8F⟩
  else none

def step (s : Utf8State) (n : Nat) : Option Utf8State :=
  if s.left = 0 then lead n
  else if s.lo ≤ n ∧ n ≤ s.hi then some ⟨s.left - 1, s.acc * 64 + (n - 0x80), 0x80, 0xBF⟩
  else none

end Utf8State

def decodeFrom : Utf8State → Bytes → Option Str
  | s, [] => if s.left = 0 then some [] else none
  | s, b :: bs =>
    match s.step b.toNat with
    | none => none
    | some s =>
      if s.left = 0 then (decodeFrom .start bs).map (chr s.acc :: ·) else decodeFrom s bs

/-- `bs.decode("utf-8")`. `none` is a `UnicodeDecodeError`. -/
def decodeUtf8 (bs : Bytes) : Option Str := decodeFrom .start bs

/-! ## Lines -/

def LF : UInt8 := 10
def CR : UInt8 := 13

/-- The lines of a binary handle, each with its `\n`. -/
def byteLines : Bytes → List Bytes
  | [] => []
  | b :: bs =>
    match byteLines bs with
    | [] => [[b]]
    | l :: ls => if b = LF then [b] :: l :: ls else (b :: l) :: ls

/-- The lines of a text handle, as the bytes they take. -/
def universalLines : Bytes → List Bytes
  | [] => []
  | b :: bs =>
    match universalLines bs with
    | [] => [[b]]
    | l :: ls =>
      if b = LF then [b] :: l :: ls
      else if b = CR ∧ bs.head? ≠ some LF then [b] :: l :: ls
      else (b :: l) :: ls

/-- The end of a line as the text handle returns it. -/
def translateNewline : Str → Str
  | [] => []
  | ['\r', '\n'] => ['\n']
  | ['\r'] => ['\n']
  | c :: cs => c :: translateNewline cs

/-- A line of a text handle: the bytes it takes in the file, and its text. -/
structure TextLine where
  raw : Bytes
  text : Str
  deriving DecidableEq

def decodeLine (raw : Bytes) : Option TextLine :=
  (decodeUtf8 raw).map fun s => ⟨raw, translateNewline s⟩

/-- The lines of the text of `bs`. `none` is a `UnicodeDecodeError`. -/
def textLines (bs : Bytes) : Option (List TextLine) := (universalLines bs).mapM decodeLine

/-- `line.endswith("\n")`. -/
def endsWithNewline (s : Str) : Bool := s.getLast? = some '\n'

/-- `line.endswith(b"\n")`. -/
def endsWithLF (bs : Bytes) : Bool := bs.getLast? = some LF

/-! ## Text handles -/

/-- `TextIOWrapper._CHUNK_SIZE`. -/
def chunkSize : Nat := 8192

/-- The place of the first byte at which the decoder fails. A sequence that is cut off is no such
place: its end may come with the next chunk. -/
def failingByte : Utf8State → Bytes → Option Nat
  | _, [] => none
  | s, b :: bs =>
    match s.step b.toNat with
    | none => some 0
    | some s => (failingByte (if s.left = 0 then .start else s) bs).map (· + 1)

/-- The characters that a text handle has decoded when it raises: those of the chunks before the one
with the failing byte, or of all chunks when the end of the file cuts a sequence off. -/
def decodedChunks (bs : Bytes) : Bytes :=
  let chunks := match failingByte .start bs with
    | some place => bs.take (place / chunkSize * chunkSize)
    | none => bs
  (chunks.inits.filter fun chars => (decodeUtf8 chars).isSome).getLastD []

/-- What a text handle returns line by line: the lines, and whether a `UnicodeDecodeError` follows
them. -/
structure TextRead where
  lines : List TextLine
  failed : Bool

/-- The lines that `readline` returns from the place of a `seek` on, where the file goes on with
`bs`. Behind the last chunk that it can decode the handle waits for more of a line, also of one that
a `\r` may end: its `\n` may be the next character. -/
def textRead (bs : Bytes) : TextRead :=
  match textLines bs with
  | some lines => ⟨lines, false⟩
  | none =>
    let lines := (textLines (decodedChunks bs)).getD []
    ⟨if lines.getLast?.any fun line => endsWithLF line.raw then lines else lines.dropLast, true⟩

theorem textRead_some {bs : Bytes} {lines : List TextLine} (h : textLines bs = some lines) :
    textRead bs = ⟨lines, false⟩ := by
  simp only [textRead, h]

theorem textRead_none {bs : Bytes} (h : textLines bs = none) : (textRead bs).failed = true := by
  simp only [textRead, h]

/-- A text handle of a file: the place that `seek` gave it, and the one that it has read up to. -/
structure TextHandle where
  file : Bytes
  start : Nat
  position : Nat

namespace TextHandle

/-- `open(..)` and `handle.seek(offset)`. -/
def seek (file : Bytes) (offset : Nat) : TextHandle := ⟨file, offset, offset⟩

/-- What the handle returns from here on, as long as it has read nothing. -/
def read (handle : TextHandle) : TextRead := textRead (handle.file.drop handle.start)

/-- The handle when it has read up to a place. -/
def upTo (handle : TextHandle) (position : Nat) : TextHandle := { handle with position }

/-- The handle has returned the line. -/
def past (handle : TextHandle) (line : TextLine) : TextHandle :=
  handle.upTo (handle.position + line.raw.length)

/-- There is no `\r` at the handle, nor right before it. -/
def AwayFromCR (handle : TextHandle) : Prop :=
  handle.file[handle.position - 1]? ≠ some CR ∧ handle.file[handle.position]? ≠ some CR

end TextHandle

/-! ## White space -/

/-- `c.isspace()`. -/
def isSpace (c : Char) : Bool :=
  let n := c.toNat
  (9 ≤ n ∧ n ≤ 13) ∨ (28 ≤ n ∧ n ≤ 32) ∨ n = 0x85 ∨ n = 0xA0 ∨ n = 0x1680 ∨
    (0x2000 ≤ n ∧ n ≤ 0x200A) ∨ n = 0x2028 ∨ n = 0x2029 ∨ n = 0x202F ∨ n = 0x205F ∨ n = 0x3000

/-- The white space that `bytes.strip` removes. -/
def isByteSpace (b : UInt8) : Bool := (9 ≤ b ∧ b ≤ 13) ∨ b = 32

variable {α : Type}

/-- A list without the elements in `p` at its two ends. -/
def stripBy (p : α → Bool) (l : List α) : List α := (l.dropWhile p).rdropWhile p

/-- `s.strip()`. -/
def strip (s : Str) : Str := stripBy isSpace s

/-- `s.lstrip()`. -/
def lstrip (s : Str) : Str := s.dropWhile isSpace

/-- `bs.strip()` of bytes. -/
def stripBytes (bs : Bytes) : Bytes := stripBy isByteSpace bs

end Py

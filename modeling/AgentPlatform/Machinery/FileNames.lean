import Mathlib.Algebra.GroupWithZero.Nat
import AgentPlatform.Machinery.Text

/-!
# Machinery/FileNames — names of files, as they are spelled and as they are stored

A name is stored as a row of bytes and spelled as a row of code points.  A byte that is no part of
UTF-8 is spelled as a surrogate from U+DC80 to U+DCFF; any other surrogate, and U+0000, is in no
name.  Names are texts here: a mark, led by NUL, stands for whatever is not a character.
-/

namespace FileNames

/-- What leads a mark. -/
def lead : Char := Char.ofNat 0

/-- A byte that is no part of UTF-8. -/
def rawByte (b : ℕ) : Text := [lead, Char.ofNat b]

/-- U+0000. -/
def nullMark : Text := [lead, 'n']

/-- A surrogate that stands for no byte. -/
def surrogateMark : Text := [lead, 's']

/-! ## From the spelling to the name -/

def isSurrogate (n : ℕ) : Bool := 0xd800 ≤ n && n ≤ 0xdfff

/-- A surrogate that stands for a byte. -/
def isRaw (n : ℕ) : Bool := 0xdc80 ≤ n && n ≤ 0xdcff

/-- The character whose encoding the bytes begin with, and how many they are. -/
def charAt? (bytes : List UInt8) : Option (Char × ℕ) :=
  [2, 3, 4].findSome? fun k =>
    match Text.decode (bytes.take k) with
    | [c] => if String.utf8EncodeChar c = bytes.take k then some (c, k) else none
    | _ => none

/-- `bytes.decode("utf-8", "surrogateescape")`, of bytes that are not ASCII, once the first `skip`
of them are read. -/
def readBytes : ℕ → List UInt8 → Text
  | _, [] => []
  | skip + 1, _ :: bytes => readBytes skip bytes
  | 0, b :: bytes =>
    match charAt? (b :: bytes) with
    | some (c, k) => c :: readBytes (k - 1) bytes
    | none => rawByte b.toNat ++ readBytes 0 bytes

/-- A code point that is no raw byte. -/
def ofPoint (n : ℕ) : Text :=
  if n = 0 then nullMark
  else if isSurrogate n then surrogateMark
  else [Char.ofNat n]

/-- **The name that code points spell.**  Raw bytes next to each other may make up a character. -/
def ofPoints (points : List ℕ) : Text :=
  (points.splitBy fun m n => isRaw m == isRaw n).flatMap fun run =>
    if run.all isRaw then readBytes 0 (run.map fun n => UInt8.ofNat (n - 0xdc00))
    else run.flatMap ofPoint

example : ofPoints [0x61, 0xdcc3, 0xdca9, 0xdc80, 0xd800, 0]
    = ['a', 'é'] ++ rawByte 0x80 ++ surrogateMark ++ nullMark := by decide +kernel

/-- …and a text, which has no surrogates. -/
def ofText (t : Text) : Text := t.flatMap fun c => ofPoint c.toNat

/-- The characters of a name, and the replacement character for every mark. -/
def readableFrom : Bool → Text → Text
  | _, [] => []
  | true, _ :: t => readableFrom false t
  | false, c :: t =>
    if c = lead then Text.replacement :: readableFrom true t else c :: readableFrom false t

def readable (t : Text) : Text := readableFrom false t

/-! ## Looking a name up -/

/-- Why a name cannot be looked up. -/
inductive Invalid where
  | surrogate
  | null
  deriving DecidableEq, Repr

/-- A name is encoded before it is searched for U+0000. -/
def invalid? (name : Text) : Option Invalid :=
  if Text.contains surrogateMark name then some .surrogate
  else if Text.contains nullMark name then some .null
  else none

/-- The number of bytes. -/
def byteLength (name : Text) : ℕ := (name.map Char.utf8Size).sum - 2 * List.count lead name

/-- `NAME_MAX`. -/
def maxName : ℕ := 255

/-- The name is not too long. -/
def fits (name : Text) : Bool := byteLength name ≤ maxName

example : byteLength (ofPoints [0x61, 0xe9, 0xdc80]) = 4 := by decide +kernel

end FileNames

import AgentPlatform.Core.Domain
import AgentPlatform.Machinery.FileNames

/-!
# Tools/Arguments — the arguments of a tool call

A model's arguments are JSON, where a string is any row of code points.  One with an unpaired
surrogate has no encoding, but as a path it may name a file: Python spells a byte that is no text as
a surrogate.
-/

namespace AgentPlatform

/-- What looking up a name raises. -/
def PyError.ofInvalid : FileNames.Invalid → PyError
  | .surrogate => .other "UnicodeEncodeError" "surrogates not allowed"
  | .null => .other "ValueError" "embedded null byte"

/-- **A string with unpaired surrogates**, by its code points. -/
structure WideText where
  points : List ℕ
  valid : points.all (· ≤ 0x10ffff) = true
  unpaired : points.any FileNames.isSurrogate = true
  deriving DecidableEq, Repr

namespace WideText

/-- The text, with every surrogate replaced. -/
def lossy (w : WideText) : String :=
  String.ofList (w.points.map fun n =>
    if FileNames.isSurrogate n then Text.replacement else Char.ofNat n)

theorem toNat_le (c : Char) : c.toNat ≤ 0x10ffff := by
  rcases c.valid with h | ⟨-, h⟩
  · exact (Nat.le_of_lt h).trans (by decide)
  · exact Nat.le_of_lt_succ h

/-- The text between two others. -/
def between (before : Text) (w : WideText) (after : Text) : WideText where
  points := before.map Char.toNat ++ w.points ++ after.map Char.toNat
  valid := by simp [w.valid, toNat_le]
  unpaired := by simp [w.unpaired]

/-- `original.replace(old, new, 1)`, for an `old` that occurs. -/
def replaceOnce (old : Text) (new : WideText) (original : Text) : WideText :=
  let start := original.tails.findIdx old.isPrefixOf
  new.between (original.take start) (original.drop (start + old.length))

end WideText

/-- What `str()` prints for the values that are false. -/
def falsyTexts : List String := ["None", "False", "0", "0.0", "-0.0", "[]", "\x7b\x7d"]

/-- A JSON argument of a tool call. -/
inductive ArgValue where
  | str (s : String)
  | surrogates (w : WideText)
  /-- Any value that is not a string, with what `str()` prints for it. -/
  | json (repr : String)
  deriving DecidableEq, Repr

namespace ArgValue

/-- The string of code points. -/
def ofPoints (points : List ℕ) : ArgValue :=
  if h : points.all (· ≤ 0x10ffff) = true ∧ points.any FileNames.isSurrogate = true then
    .surrogates ⟨points, h.1, h.2⟩
  else .str (String.ofList (points.map Char.ofNat))

/-- `str(value)`. -/
def toStr : ArgValue → String
  | str s => s
  | surrogates w => w.lossy
  | json s => s

/-- `bool(value)`. -/
def truthy : ArgValue → Bool
  | str s => s ≠ ""
  | surrogates _ => true
  | json s => !falsyTexts.contains s

/-- The path that a string spells, with the names as they are stored. -/
def spelled : ArgValue → Option Text
  | str s => some (FileNames.ofText s.toList)
  | surrogates w => some (FileNames.ofPoints w.points)
  | json _ => none

end ArgValue

/-- The argument dictionary of a tool call. -/
abbrev Arguments := List (String × ArgValue)

end AgentPlatform

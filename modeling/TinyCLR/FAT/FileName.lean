import Mathlib

/-!
# File names

The two forms of a file name in a directory: the short name of eight and three bytes, padded with
blanks, and the long name in portions of thirteen characters. A name is a list of UTF-16 code
units, and `char` has no sign.
-/

namespace TinyCLR.FAT

/-- A string of wide characters. -/
abbrev WString := List Nat

/-- The bytes of `DIR_Name`. -/
abbrev ShortName := List Nat

/-- `MF_towupper` -/
def towupper (c : Nat) : Nat := if 97 ≤ c ∧ c ≤ 122 then c - 32 else c

/-- `WHITESPACE_CHAR` -/
def whitespaceChar : Nat := 0x20

def padTo (n : Nat) (bytes : List Nat) : List Nat :=
  bytes ++ List.replicate (n - bytes.length) whitespaceChar

/-! ## Short names -/

namespace DIR

/-- The base name up to the dot or eight characters, and what is left of the name. -/
def takeBase : Nat → Bool → WString → List Nat × WString
  | 0, _, name => ([], name)
  | _, _, [] => ([], [])
  | j + 1, isFirst, c :: name =>
      let c := c % 256
      if c = 46 then ([], name)
      else
        let c := if isFirst ∧ c = 0xE5 then 0x05 else c
        let rest := takeBase j false name
        (c :: rest.1, rest.2)

def skipDot : WString → WString
  | [] => []
  | c :: name => if c = 46 then name else c :: name

/-- `FAT_Directory::SetName` -/
def setName (name : WString) : ShortName :=
  let base := takeBase 8 true name
  padTo 8 base.1 ++ padTo 3 (((skipDot base.2).take 3).map (· % 256))

/-- `IsName` on the bytes of the base name: what is left of both, or `none` for a mismatch. -/
def matchBase : List Nat → Bool → WString → Option (List Nat × WString)
  | [], _, name => some ([], name)
  | bytes, _, [] => some (bytes, [])
  | b :: bytes, isFirst, c :: name =>
      let c := c % 256
      if c = 46 then some (b :: bytes, name)
      else if towupper b = towupper (if isFirst ∧ c = 0xE5 then 0x05 else c) then
        matchBase bytes false name
      else none

def matchExt : List Nat → WString → Bool
  | [], _ => true
  | bytes, [] => bytes.all (· == whitespaceChar)
  | b :: bytes, c :: name => towupper b == towupper (c % 256) && matchExt bytes name

/-- `FAT_Directory::IsName` -/
def isName (dirName : ShortName) (name : WString) : Bool :=
  match matchBase (dirName.take 8) true name with
  | none => false
  | some (bytes, name) =>
      bytes.all (· == whitespaceChar) && matchExt (dirName.drop 8) (skipDot name)

/-- `FAT_Directory::GetNameLength` -/
def getNameLength (dirName : ShortName) : Nat :=
  ((dirName.take 8).takeWhile (· != whitespaceChar)).length +
    (if (dirName.drop 8).headD whitespaceChar = whitespaceChar then 0 else 1) +
    ((dirName.drop 8).takeWhile (· != whitespaceChar)).length

/-- `FAT_Directory::CopyName`, with the terminator. -/
def copyName (dirName : ShortName) : WString :=
  let base := (dirName.take 8).takeWhile (· != whitespaceChar)
  let base := if base.head? = some 0x05 then 0xE5 :: base.tail else base
  let dot := if (dirName.drop 8).headD whitespaceChar = whitespaceChar then [] else [46]
  base ++ dot ++ (dirName.drop 8).takeWhile (· != whitespaceChar) ++ [0]

end DIR

/-! ## Long names -/

namespace LDIR

/-- The thirteen characters that `SetName` stores for a portion of a name. -/
def setName (portion : WString) : List Nat :=
  if portion.length < 13 then
    portion ++ 0 :: List.replicate (12 - portion.length) 0xFFFF
  else portion.take 13

/-- `FAT_LONG_Directory::IsName` -/
def isName : List Nat → WString → Bool
  | [], _ => true
  | c :: _, [] => c == 0
  | c :: chars, n :: name => towupper c == towupper n && isName chars name

/-- `FAT_LONG_Directory::GetNameLength` -/
def getNameLength (chars : List Nat) : Nat := (chars.takeWhile (· != 0)).length

/-- `FAT_LONG_Directory::CopyName`: what it writes, with the terminator if there is one. -/
def copyName : List Nat → WString
  | [] => []
  | c :: chars => if c = 0 then [0] else c :: copyName chars

end LDIR

/-- The portion of a name that the long entry with order `i` of `count` holds. -/
def namePortion (name : WString) (count i : Nat) : WString :=
  (name.drop (13 * (i - 1))).take (if i = count then (name.length - 1) % 13 + 1 else 13)

/-- `GetShortNameChksum` -/
def getShortNameChksum (shortName : ShortName) : Nat :=
  shortName.foldl (fun sum c => ((if sum % 2 = 1 then 0x80 else 0) + sum / 2 + c) % 256) 0

/-- A buffer with other characters from `i` on. -/
def overwrite (buffer : WString) (i : Nat) (chars : WString) : WString :=
  buffer.take i ++ chars ++ buffer.drop (i + chars.length)

/-! ## From long to short names -/

/-- `IsFileNameValid`; the character behind the name, a separator or the end of the path, is the
first one of an empty name. -/
def isFileNameValid (fileName : WString) (next : Nat) : Bool :=
  fileName.headD next != 0 &&
    fileName.all fun c => decide (0x20 ≤ c) && !([42, 124, 92, 58, 34, 60, 62, 63, 47].contains c)

/-- `GetFileNameExt`: what stands behind the last dot. -/
def getFileNameExt (path : WString) : WString :=
  match (path.reverse.span (· != 46)) with
  | (_, []) => []
  | (ext, _ :: _) => ext.reverse

/-- The length of the name before its extension. -/
def baseNameLen (fileName : WString) : Nat :=
  let extLen := (getFileNameExt fileName).length
  if 0 < extLen then fileName.length - extLen - 1 else fileName.length

/-- `IsFileLongName`: whether a name needs long entries. -/
def isFileLongName (fileName : WString) : Bool :=
  decide (8 < baseNameLen fileName) || decide (3 < (getFileNameExt fileName).length) ||
    fileName.any (fun c => decide (97 ≤ c ∧ c ≤ 122) || decide (255 < c) ||
      [32, 43, 44, 59, 61, 91, 93].contains c) ||
    decide (1 < fileName.count 46) || fileName.head? == some 46

/-- `SetBasisNameChar`: the character for the basis name, if any, and whether a tail is needed. -/
def setBasisNameChar (c : Nat) : Option Nat × Bool :=
  if 97 ≤ c ∧ c ≤ 122 then (some (c - 32), false)
  else if 255 < c ∨ [43, 44, 59, 61, 91, 93].contains c then (some 95, true)
  else if c ≠ whitespaceChar ∧ c ≠ 46 then (some c, false)
  else (none, true)

/-- The characters of one part of the basis name; the ones behind `room` are not looked at. -/
def basisPart : Nat → WString → List Nat × Bool
  | 0, _ => ([], false)
  | _, [] => ([], false)
  | room + 1, c :: cs =>
      match setBasisNameChar c with
      | (none, _) =>
          let rest := basisPart (room + 1) cs
          (rest.1, true)
      | (some b, needsTrail) =>
          let rest := basisPart room cs
          (b :: rest.1, needsTrail || rest.2)

/-- `GenerateBasisName`: the basis name and whether it needs a tail. -/
def generateBasisName (fileName : WString) : ShortName × Bool :=
  let ext := getFileNameExt fileName
  let baseLen := baseNameLen fileName
  -- a name that is nothing but an extension takes the extension as its base
  let base := if baseLen = 0 then fileName.drop 1 else fileName.take baseLen
  let ext := if baseLen = 0 then [] else ext
  let base' := basisPart 8 base
  let ext' := basisPart 3 ext
  (padTo 8 base'.1 ++ padTo 3 ext'.1,
    base'.2 || ext'.2 || decide (8 < base.length) || decide (3 < ext.length))

/-- `SHORTNAME_CONVERSION_MAP_SIZE` -/
def conversionMapSize : Nat := 512

/-- `CollectNumTail`, the comparison of the base names: where the tail starts, `some none` for
equal names, `none` for a mismatch. -/
def numStart (dirName : ShortName) : Nat → List Nat → List Nat → Option (Option Nat)
  | _, [], _ => some none
  | _, _, [] => some none
  | i, f :: fs, b :: bs =>
      if f = b then numStart dirName (i + 1) fs bs
      else if f = 126 ∧ (b = whitespaceChar ∨ dirName.getD 7 0 ≠ 0x20) then some (some i)
      else none

/-- The number in a tail, if it is one: digits up to a blank. -/
def tailNumber : Nat → List Nat → Option Nat
  | num, [] => some num
  | num, c :: cs =>
      if c = whitespaceChar then some num
      else if c < 48 ∨ 57 < c then none
      else tailNumber (num * 10 + (c - 48)) cs

/-- `CollectNumTail`: whether the names are equal, and the number to mark as taken. A tail at the
very start does not count, and the number zero lies outside of the map. -/
def collectNumTail (dirName basisName : ShortName) : Bool × Option Nat :=
  if dirName.drop 8 ≠ basisName.drop 8 then (false, none)
  else
    match numStart dirName 0 (dirName.take 8) (basisName.take 8) with
    | none => (false, none)
    | some none => (true, none)
    | some (some 0) => (false, none)
    | some (some i) =>
        match tailNumber 0 ((dirName.take 8).drop (i + 1)) with
        | none => (false, none)
        | some num => (false, if 0 < num ∧ num ≤ conversionMapSize then some num else none)

/-- `AttachNumTail`: the tail goes to the end of the base name, then over the blanks before it. -/
def attachNumTail (shortName : ShortName) (num : Nat) : ShortName :=
  let tail := 126 :: (Nat.toDigits 10 num).map Char.toNat
  let base := (shortName.take (8 - tail.length)).reverse.dropWhile (· == whitespaceChar)
  padTo 8 (base.reverse ++ tail) ++ shortName.drop 8

/-- The first number of the map that is not taken; `513` when all are, where the source's search
for another one takes the first candidate. -/
def firstFree (taken : List Nat) : Nat :=
  (((List.range conversionMapSize).map (· + 1)).find? fun num => !taken.contains num).getD
    (conversionMapSize + 1)

/-- `LongToShortName`, given the short names of the directory. -/
def longToShortName (longName : WString) (dirNames : List ShortName) : ShortName :=
  let (basisName, needsTail) := generateBasisName longName
  let collected := dirNames.map fun dirName => collectNumTail dirName basisName
  if needsTail || collected.any Prod.fst then
    attachNumTail basisName (firstFree (collected.filterMap Prod.snd))
  else basisName

end TinyCLR.FAT

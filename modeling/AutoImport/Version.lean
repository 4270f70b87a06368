import AutoImport.Text.Basic
import AutoImport.Text.Blank

/-!
# Versions and version ranges

A package may offer different declarations to different compilers, each under a range of versions.
A range is a row of alternatives joined by `||`; an alternative is a row of tokens that all have to
hold.  A token that ends in `.x` or `.*`, and `*`, looks at the major number only; any other token
is a comparison with a version, where parts that are not written are zero.
-/

set_option autoImplicit false

namespace AutoImport

/-- A version. -/
structure Version where
  major : Nat
  minor : Nat
  patch : Nat
  deriving Repr, DecidableEq, Inhabited

/-- How a token compares a version with its bound. -/
inductive Comparison where
  | atLeast
  | atMost
  | above
  | below
  | equal
  deriving Repr, DecidableEq

namespace Version

/-- The version of the compiler whose declarations are looked for. -/
def compiler : Version := ⟨6, 0, 0⟩

/-- Lexicographic order of the three numbers. -/
def less (v w : Version) : Bool :=
  v.major < w.major ||
    (v.major = w.major && (v.minor < w.minor || (v.minor = w.minor && v.patch < w.patch)))

/-- A part of a version, zero if it is not written. -/
def part? : Option Chars → Option Nat
  | none => some 0
  | some text => Text.unsigned32? text

/-- Reads `1`, `1.2` or `1.2.3`, with any number of letters `v` before it and anything after a `-`
or a `+`. -/
def ofChars? (text : Chars) : Option Version :=
  let unmarked := (Text.trim text).dropWhile (· = 'v')
  let core := unmarked.takeWhile fun c => c ≠ '-' ∧ c ≠ '+'
  match Text.splitOn '.' core with
  | [] => none
  | first :: rest => do
    let major ← Text.unsigned32? first
    let minor ← part? rest[0]?
    let patch ← part? rest[1]?
    some ⟨major, minor, patch⟩

end Version

namespace Comparison

/-- Whether a version stands in the relation to a bound. -/
def holds (comparison : Comparison) (version bound : Version) : Bool :=
  match comparison with
  | .atLeast => !version.less bound
  | .atMost => !bound.less version
  | .above => bound.less version
  | .below => version.less bound
  | .equal => version = bound

/-- The comparison at the beginning of a token, equality if none is written, and the bound. -/
def split : Chars → Comparison × Chars
  | '>' :: '=' :: rest => (.atLeast, rest)
  | '<' :: '=' :: rest => (.atMost, rest)
  | '>' :: rest => (.above, rest)
  | '<' :: rest => (.below, rest)
  | '=' :: rest => (.equal, rest)
  | rest => (.equal, rest)

end Comparison

namespace VersionRange

/-- Whether a token only looks at the major number. -/
def isWildcard (token : Chars) : Bool :=
  token = ['*'] || ['.', 'x'].isSuffixOf token || ['.', '*'].isSuffixOf token

/-- Whether a version meets a token.  A wildcard whose major part is no number is met by all. -/
def meetsToken (version : Version) (token : Chars) : Bool :=
  if isWildcard token then
    match (Text.splitOn '.' token).head?.bind Text.unsigned32? with
    | some major => major = version.major
    | none => true
  else
    let (comparison, rest) := Comparison.split token
    match Version.ofChars? rest with
    | some bound => comparison.holds version bound
    | none => false

/-- Whether a version meets every token of an alternative. -/
def meetsAlternative (version : Version) (alternative : Chars) : Bool :=
  (Text.words alternative).all (meetsToken version)

/-- Whether a version lies in a range. -/
def admits (range : String) (version : Version) : Bool :=
  (Text.splitOnDoubleBar range.toList).any (meetsAlternative version)

end VersionRange

end AutoImport

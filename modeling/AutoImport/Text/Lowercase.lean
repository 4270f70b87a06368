import AutoImport.Text.Basic
import AutoImport.Text.CaseRanges

/-!
# Small letters

On a file system that ignores case two spellings of a path are one path, so paths are compared by
their small-letter form.  `lowercase` is the full Unicode mapping: it may lengthen a text (`İ`
becomes two characters) and writes a capital sigma at the end of a word as `ς`.  `asciiLowercase`
changes the letters `A` to `Z` only.
-/

set_option autoImplicit false

namespace AutoImport.Text

/-- The small letter of a capital outside ASCII, by the runs of `lowerRuns`. -/
def lowerOutsideAscii (c : Char) : Char :=
  let n := c.toNat
  let isIn : Nat × Nat × Nat × Int → Bool :=
    fun (first, last, step, _) => first ≤ n && n ≤ last && (n - first) % step = 0
  match lowerRuns.find? isIn with
  | some (_, _, _, distance) => Char.ofNat (n + distance).toNat
  | none => c

/-- The small form of one character outside its context. -/
def lowerChar (c : Char) : Chars :=
  if c.toNat < 0x80 then [c.toLower]
  else if c.toNat = 0x130 then ['i', Char.ofNat 0x307]
  else [lowerOutsideAscii c]

/-- Whether the first character that is not case-ignorable is cased. -/
def meetsCased (text : Chars) : Bool :=
  match text.dropWhile fun c => inRanges caseIgnorableRanges c.toNat with
  | c :: _ => inRanges casedRanges c.toNat
  | [] => false

/-- The small form of a text, given the characters before it in reverse order. -/
def lowercaseAfter : Chars → Chars → Chars
  | _, [] => []
  | before, c :: cs =>
    let small :=
      if c = 'Σ' then
        if meetsCased before && !meetsCased cs then ['ς'] else ['σ']
      else lowerChar c
    small ++ lowercaseAfter (c :: before) cs

/-- The small form of a text. -/
def lowercase (text : Chars) : Chars :=
  lowercaseAfter [] text

/-- The text with `A` to `Z` replaced by `a` to `z`. -/
def asciiLowercase (text : Chars) : Chars :=
  text.map Char.toLower

end AutoImport.Text

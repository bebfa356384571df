import Zephirize.Text.CaseTable

/-!
# Letter case

* `lower` — a text in lower case. A capital sigma at the end of a word becomes a final sigma.
* `capitalize` — a text with its first character in upper case, as far as ASCII letters go.
-/

namespace Zephirize.Text

/-- The character lies in one of the ranges. -/
def inRanges (ranges : List (Nat × Nat)) (c : Char) : Bool :=
  ranges.any fun (lo, hi) => lo ≤ c.toNat && c.toNat ≤ hi

/-- The character is a letter with case. -/
def isCased (c : Char) : Bool := inRanges casedRanges c

/-- The case of a word passes over the character. -/
def isCaseIgnorable (c : Char) : Bool := inRanges caseIgnorableRanges c

/-- The lower-case form of a character on its own. -/
def lowerChar (c : Char) : List Char :=
  if c.toNat < 0x80 then [c.toLower]
  else if c == '\u0130' then ['i', '\u0307']
  else
    let n := c.toNat
    match lowerRanges.find? fun (lo, hi, step, _) => lo ≤ n && n ≤ hi && (n - lo) % step == 0 with
    | some (_, _, _, shift) => [Char.ofNat (n + shift).toNat]
    | none => [c]

/-- The first character that the case of a word does not pass over is a cased letter. -/
def startsCased (cs : List Char) : Bool :=
  match cs.dropWhile isCaseIgnorable with
  | c :: _ => isCased c
  | [] => false

/-- A text in lower case; `before` holds the characters before it in reverse. A capital sigma after
a cased letter and not before one ends a word. -/
def lowerFrom (before : List Char) : List Char → List Char
  | [] => []
  | c :: rest =>
    let form :=
      if c == 'Σ' then [if startsCased before && !startsCased rest then 'ς' else 'σ']
      else lowerChar c
    form ++ lowerFrom (c :: before) rest

/-- A text in lower case. -/
def lower (s : String) : String := String.ofList (lowerFrom [] s.toList)

/-- The characters outside of ASCII whose upper-case form has ASCII letters, with that form. -/
def capitalForms : List (Char × String) :=
  [('\u00DF', "SS"), ('\u0131', "I"), ('\u0149', "\u02BCN"), ('\u017F', "S"),
    ('\u01F0', "J\u030C"), ('\u1E96', "H\u0331"), ('\u1E97', "T\u0308"), ('\u1E98', "W\u030A"),
    ('\u1E99', "Y\u030A"), ('\u1E9A', "A\u02BE"), ('\uFB00', "FF"), ('\uFB01', "FI"),
    ('\uFB02', "FL"), ('\uFB03', "FFI"), ('\uFB04', "FFL"), ('\uFB05', "ST"), ('\uFB06', "ST")]

/-- The upper-case form of a character where that has ASCII letters; any other character stays. -/
def capital (c : Char) : List Char :=
  if c.toNat < 0x80 then [c.toUpper]
  else
    match capitalForms.lookup c with
    | some form => form.toList
    | none => [c]

/-- A text with its first character in upper case, as far as ASCII letters go. -/
def capitalize (s : String) : String :=
  match s.toList with
  | [] => ""
  | c :: rest => String.ofList (capital c ++ rest)

end Zephirize.Text

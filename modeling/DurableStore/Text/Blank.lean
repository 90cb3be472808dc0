/-
  DurableStore.Text.Blank
  ────────────────────────────────
  **BLANKS IN TEXT.**

  A blank is a character with the Unicode property White_Space: the ASCII
  blanks, two Latin-1 characters and the spaces and separators beyond.
  Lines of a configuration file are trimmed and cut at blanks.
-/

namespace DurableStore.Text

/-- Whether a character has the property White_Space. -/
def isBlank (c : Char) : Bool :=
  let n := c.toNat
  (9 ≤ n && n ≤ 13) || n == 0x20 || n == 0x85 || n == 0xA0 || n == 0x1680
    || (0x2000 ≤ n && n ≤ 0x200A) || n == 0x2028 || n == 0x2029 || n == 0x202F
    || n == 0x205F || n == 0x3000

/-- Drops the characters of a class at both ends. -/
def trimBy (isGone : Char → Bool) (cs : List Char) : List Char :=
  (((cs.dropWhile isGone).reverse).dropWhile isGone).reverse

/-- Drops the blanks at both ends. -/
def trim (cs : List Char) : List Char := trimBy isBlank cs

/-- Drops the double quotes at both ends. -/
def unquote (cs : List Char) : List Char := trimBy (· == '"') cs

/-- Cuts at the first blank, which belongs to neither part. -/
def cutAtBlank? (cs : List Char) : Option (List Char × List Char) :=
  match cs.dropWhile fun c => !isBlank c with
  | [] => none
  | _ :: rest => some (cs.takeWhile fun c => !isBlank c, rest)

/-- The lines of a text, without what ends them. -/
def lines : List Char → List (List Char)
  | [] => [[]]
  | c :: cs =>
    if c = '\n' then [] :: lines cs
    else
      match lines cs with
      | line :: rest => (c :: line) :: rest
      | [] => [[c]]

/-- ASCII letters in lower case. -/
def lower (cs : List Char) : List Char := cs.map Char.toLower

end DurableStore.Text

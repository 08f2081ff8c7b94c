/-!
Blanks and pieces of text. The blanks are the 25 characters that Unicode gives
the property White_Space. A text is cut into lines at newlines and into words
at runs of blanks.
-/

namespace CountedHeap

/-- The characters with the Unicode property White_Space, as ranges. -/
def blankRanges : List (Nat × Nat) :=
  [(0x09, 0x0d), (0x20, 0x20), (0x85, 0x85), (0xa0, 0xa0), (0x1680, 0x1680), (0x2000, 0x200a),
    (0x2028, 0x2029), (0x202f, 0x202f), (0x205f, 0x205f), (0x3000, 0x3000)]

def isBlank (c : Char) : Bool :=
  blankRanges.any fun (low, high) => low ≤ c.toNat && c.toNat ≤ high

/-- The pieces of a list between the elements that satisfy `p`, empty ones
included: one more piece than there are such elements. -/
def piecesAt {α : Type} (p : α → Bool) (xs : List α) : List (List α) :=
  xs.foldr
    (fun x pieces =>
      if p x then [] :: pieces
      else
        match pieces with
        | piece :: rest => (x :: piece) :: rest
        | [] => [[x]])
    [[]]

/-- A text without the blanks at both ends. -/
def trimBlanks (text : List Char) : List Char :=
  ((text.dropWhile isBlank).reverse.dropWhile isBlank).reverse

/-- The words of a text: its longest pieces without blanks. -/
def wordsOf (text : List Char) : List (List Char) :=
  (piecesAt isBlank text).filter (!·.isEmpty)

/-- A piece that a newline ended, without the carriage return before it. -/
def dropReturn (line : List Char) : List Char :=
  if line.getLast? = some '\r' then line.dropLast else line

/-- The lines of a text. A newline, with or without a carriage return before it,
ends a line; what follows the last newline is a line only if it is not empty. -/
def linesOf (text : List Char) : List (List Char) :=
  let pieces := piecesAt (· == '\n') text
  let last := pieces.getLast?.getD []
  pieces.dropLast.map dropReturn ++ (if last.isEmpty then [] else [last])

end CountedHeap

/-! # Matching with backtracking

A text is matched piece by piece. Each piece is taken from the front, and what is left is handed on;
when that is refused, the next choice for the piece is offered. A run is offered from the longest to
the shortest, and alternatives are offered in their order. -/

namespace PathQuery.Text

variable {α : Type}

def takeExactly (piece s : List Char) (next : List Char → Option α) : Option α :=
  if piece.isPrefixOf s then next (s.drop piece.length) else none

def takeOneOf (pieces : List (List Char)) (s : List Char)
    (next : List Char → List Char → Option α) : Option α :=
  pieces.findSome? fun piece => takeExactly piece s (next piece)

/-- Offer a run, given in reverse, and after a refusal the run without its last character. -/
def giveBack (next : List Char → List Char → Option α) : List Char → List Char → Option α
  | [], rest => next [] rest
  | c :: run, rest => next (c :: run).reverse rest <|> giveBack next run (c :: rest)

/-- Take a run of characters of a class, which may be empty. -/
def takeRun (p : Char → Bool) (s : List Char) (next : List Char → List Char → Option α) :
    Option α :=
  giveBack next (s.takeWhile p).reverse (s.dropWhile p)

/-- Take a run of one or more characters of a class. -/
def takeSome (p : Char → Bool) (s : List Char) (next : List Char → List Char → Option α) :
    Option α :=
  takeRun p s fun run rest => if run.isEmpty then none else next run rest

end PathQuery.Text

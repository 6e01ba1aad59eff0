import PathQuery.Segment.Reading

/-! # Paths

The text of a path is trimmed and loses one dollar sign and then one at sign in front; what is left
is cut into tokens, each of which is read as a segment. -/

namespace PathQuery.Path
open Text

/-- The signs that stand for the document, in the order in which they are dropped. -/
def sigils : List Char := ['$', '@']

def isSigil (s : List Char) : Bool := sigils.any fun sigil => s == [sigil]

def dropSigil (s : List Char) (sigil : Char) : List Char :=
  if s.head? = some sigil then s.tail else s

/-- The text of a path without surrounding blanks and the sigils of its root. -/
def normalize (path : List Char) : List Char := sigils.foldl dropSigil (trim isBlank path)

def readSegment (token : String) : Except Fault Segment :=
  match Token.ofText? token.toList with
  | some t => Segment.read t
  | none => .error (.unrecognizedSegment token)

/-- The segments of a normalized path, unless one of its tokens cannot be read. -/
def parse (normalized : List Char) : Except Fault (List Segment) :=
  (Token.scan normalized).mapM fun t => readSegment (String.ofList t.text)

end PathQuery.Path

import PathQuery.Issue
import PathQuery.Segment
import PathQuery.Segment.IntegerText

/-! # Reading segments from values

A segment is read from an object whose entry `kind` names the kind. The fields of the kind are read
in their order, and entries that are no field of the kind are refused after them. Integers are also
read from booleans, from floating-point numbers that are integral and fit a signed word, and from
text. -/

namespace PathQuery.Segment

def readText : Option Value → Checked String
  | none => .complain [] .fieldMissing
  | some (.text s) => .valid s
  | some _ => .complain [] .notAText

/-- The complaint about a floating-point number that no integer field takes. -/
def floatComplaint (x : Binary64) : Complaint :=
  if x.toInt?.isSome then .oversizedInteger
  else if x.isFinite then .fractionalNumber
  else .infiniteNumber

def readFloat (x : Binary64) : Checked Int :=
  match x.toWord? with
  | some n => .valid n
  | none => .complain [] (floatComplaint x)

def readInteger : Value → Checked Int
  | .bool b => .valid (if b then 1 else 0)
  | .number (.int n) => .valid n
  | .number (.float x) => readFloat x
  | .text s =>
    match IntegerText.read s.toList with
    | .ok n => .valid n
    | .error c => .complain [] c
  | _ => .complain [] .notAnInteger

def natural : Checked Int → Checked Nat
  | .valid n => if n < 0 then .complain [] .negativeNumber else .valid n.toNat
  | .invalid issues => .invalid issues

def readPosition : Option Value → Checked Nat
  | none => .complain [] .fieldMissing
  | some v => natural (readInteger v)

/-- A bound that is left out or null is absent. -/
def readLimit : Option Value → Checked (Option Int)
  | none => .valid none
  | some .null => .valid none
  | some v => (readInteger v).map some

def readField {α : Type} (entries : List (String × Value)) (name : String)
    (read : Option Value → Checked α) : Checked α :=
  (read (entries.lookup name)).within name

def refuseOthers (entries : List (String × Value)) (known : List String) : Checked Unit :=
  match entries.filter fun e => !known.contains e.1 with
  | [] => .valid ()
  | others => .invalid (others.map fun e => ⟨[e.1], .fieldForbidden⟩)

namespace Kind

def fieldNames : Kind → List String
  | child => ["name"]
  | recursive => ["name"]
  | wildcard => []
  | index => ["index"]
  | slice => ["start", "end"]
  | key => ["name"]
  | filter => ["expression"]

def readFields (entries : List (String × Value)) : Kind → Checked Segment
  | child => (readField entries "name" readText).map Segment.child
  | recursive => (readField entries "name" readText).map Segment.recursive
  | wildcard => .valid Segment.wildcard
  | index => (readField entries "index" readPosition).map Segment.index
  | slice =>
    ((readField entries "start" readLimit).both (readField entries "end" readLimit)).map
      fun bounds => Segment.slice bounds.1 bounds.2
  | key => (readField entries "name" readText).map Segment.key
  | filter => (readField entries "expression" readText).map Segment.filter

def read (entries : List (String × Value)) (k : Kind) : Checked Segment :=
  (((k.readFields entries).both (refuseOthers entries ("kind" :: k.fieldNames))).map
    Prod.fst).within k.name

end Kind

def ofEntries (entries : List (String × Value)) : Checked Segment :=
  match entries.lookup "kind" with
  | none => .complain [] .kindMissing
  | some (.text name) =>
    match Kind.ofName? name with
    | some k => k.read entries
    | none => .complain [] .kindUnknown
  | some _ => .complain [] .kindUnknown

def ofValue : Value → Checked Segment
  | .object entries => ofEntries entries
  | _ => .complain [] .notAnObject

/-- Read each of some values, from a given position on; all issues are kept, in order. -/
def ofValues (position : Nat) : List Value → Checked (List Segment)
  | [] => .valid []
  | v :: rest =>
    (((ofValue v).within (toString position)).both (ofValues (position + 1) rest)).map
      fun p => p.1 :: p.2

def listOfValue (v : Value) : Checked (List Segment) :=
  if v.isSequence then ofValues 0 v.members else .complain [] .notAList

end PathQuery.Segment

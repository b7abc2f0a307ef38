import Mathlib.Data.UInt
import Mathlib.Data.List.DropRight

/-!
# The configuration parser

The functions of `config_utils.c`.  A pointer into the input is the list of the bytes from it
on, with the NUL at the end; to read beyond the NUL is an error of its own.  A name or a value
is the string that stands in the input when its token is returned: what is written later lies
behind it.  `stored` lists the values that are stored, each with the bytes that its token was
read from.
-/

namespace AndroidLinux
namespace Cutils
namespace Config

def newline : UInt8 := 10

/-- `isspace` in the C locale. -/
def isspace (c : UInt8) : Bool := c == 32 || (9 ≤ c && c ≤ 13)

/-- The bytes `#`, `.`, `{` and the closing brace. -/
def hash : UInt8 := 35
def dot : UInt8 := 46
def obrace : UInt8 := 123
def cbrace : UInt8 := 125

/-- A node with its children, from `first_child` to `last_child`. -/
inductive CNode
  | mk (name value : List UInt8) (children : List CNode)

namespace CNode

def name : CNode → List UInt8
  | mk name _ _ => name

def value : CNode → List UInt8
  | mk _ value _ => value

def children : CNode → List CNode
  | mk _ _ children => children

def setValue (value : List UInt8) : CNode → CNode
  | mk name _ children => mk name value children

def setChildren (children : List CNode) : CNode → CNode
  | mk name value _ => mk name value children

end CNode

/-- The last node of a list with a name, between the nodes before and behind it. -/
def findLast (name : List UInt8) : List CNode → Option (List CNode × CNode × List CNode)
  | [] => none
  | node :: next =>
      match findLast name next with
      | some (before, found, behind) => some (node :: before, found, behind)
      | none => if node.name = name then some ([], node, next) else none

def config_find (root : CNode) (name : List UInt8) : Option CNode :=
  (findLast name root.children).map fun found => found.2.1

def config_str (root : CNode) (name default : List UInt8) : List UInt8 :=
  match config_find root name with
  | none => default
  | some node => node.value

inductive Fault
  | outside
  | unfinished
  deriving DecidableEq

inductive Token
  | eof
  | text
  | dot
  | obrace
  | cbrace
  deriving DecidableEq

structure CState where
  data : List UInt8
  text : List UInt8
  next : UInt8

/-- The bytes that the lexer goes on with: the one it has put back comes first. -/
def CState.pending (cs : CState) : List UInt8 :=
  if cs.next ≠ 0 then cs.next :: cs.data else cs.data

/-! ## The lexer -/

/-- The loop that skips blanks and comments: the next byte, and `data` behind it. -/
def skipBlanks : Bool → List UInt8 → Except Fault (UInt8 × List UInt8)
  | _, [] => .error .outside
  | true, c :: data =>
      if c = 0 then .ok (0, c :: data)
      else if c = newline then skipBlanks false data
      else skipBlanks true data
  | false, c :: data =>
      if isspace c then skipBlanks false data
      else if c = hash then skipBlanks true data
      else .ok (c, data)

/-- The loop of a name: the name, `cs->data` and `cs->next`. -/
def lexName : List UInt8 → List UInt8 → Except Fault CState
  | _, [] => .error .outside
  | name, c :: data =>
      if isspace c then .ok ⟨data, name, 0⟩
      else if c = 0 then .ok ⟨c :: data, name, 0⟩
      else if c = dot ∨ c = obrace ∨ c = cbrace then .ok ⟨data, name, c⟩
      else lexName (name ++ [c]) data

/-- The loop that strips trailing white space, on the bytes from `data` back to the first one of
the value, which stays. -/
def stripLoop : List UInt8 → List UInt8
  | c :: d :: rest => if isspace c then 0 :: stripLoop (d :: rest) else c :: d :: rest
  | bytes => bytes

/-- The string that begins where the bytes end. -/
def stringBack (bytes : List UInt8) : List UInt8 := bytes.reverse.takeWhile (· ≠ 0)

/-- The loop of a value. -/
def lexValue : List UInt8 → List UInt8 → Except Fault CState
  | _, [] => .error .outside
  | line, c :: data =>
      -- `data` points at the NUL when the stripping begins
      if c = 0 then .ok ⟨c :: data, stringBack (stripLoop (c :: line.reverse)), 0⟩
      -- and here at the last byte before the newline
      else if c = newline then .ok ⟨data, stringBack (stripLoop line.reverse), 0⟩
      else lexValue (line ++ [c]) data

/-- `_lex`.  Behind the end of the input no caller goes on. -/
def lex (cs : CState) (value : Bool) : Except Fault (Token × CState) :=
  match skipBlanks false cs.pending with
  | .error fault => .error fault
  | .ok (c, data) =>
      if c = 0 then .ok (.eof, { cs with next := 0 })
      else if c = dot then .ok (.dot, ⟨data, cs.text, 0⟩)
      else if c = obrace then .ok (.obrace, ⟨data, cs.text, 0⟩)
      else if c = cbrace then .ok (.cbrace, ⟨data, cs.text, 0⟩)
      else
        match if value then lexValue [c] data else lexName [c] data with
        | .error fault => .error fault
        | .ok cs => .ok (.text, cs)

/-! ## The parser -/

/-- A value, and the bytes that its token was read from. -/
structure Stored where
  after : List UInt8
  value : List UInt8

/-- What a function of the parser returns, and leaves in its arguments. -/
structure Outcome where
  code : Int
  cs : CState
  node : CNode
  stored : List Stored

/-- The node that `parse_expr` takes, between the children before and behind it: the last one of
the name, if it has no value, or else a new one. -/
def exprPlace (root : CNode) (name : List UInt8) : List CNode × CNode × List CNode :=
  match findLast name root.children with
  | some (before, node, behind) =>
      if node.value ≠ [] then (root.children, .mk name [] [], []) else (before, node, behind)
  | none => (root.children, .mk name [] [], [])

/-- `parse_expr`, where the loop is a parameter. -/
def parse_expr (loop : CState → CNode → Except Fault Outcome) (cs : CState) (root : CNode) :
    Except Fault Outcome :=
  let place := exprPlace root cs.text
  match loop cs place.2.1 with
  | .error fault => .error fault
  | .ok out => .ok { out with node := root.setChildren (place.1 ++ out.node :: place.2.2) }

mutual

/-- The loop of `parse_expr`, with a bound for the passes. -/
def exprLoop : Nat → CState → CNode → Except Fault Outcome
  | 0, _, _ => .error .unfinished
  | passes + 1, cs, node =>
      match lex cs true with
      | .error fault => .error fault
      | .ok (.dot, cs) =>
          match lex cs false with
          | .error fault => .error fault
          | .ok (.text, cs) =>
              match exprLoop passes cs (.mk cs.text [] []) with
              | .error fault => .error fault
              | .ok out =>
                  .ok { out with node := node.setChildren (node.children ++ [out.node]) }
          | .ok (_, cs) => .ok ⟨-1, cs, node, []⟩
      | .ok (.text, cs') => .ok ⟨0, cs', node.setValue cs'.text, [⟨cs.pending, cs'.text⟩]⟩
      | .ok (.obrace, cs) => parse_block passes cs node
      | .ok (_, cs) => .ok ⟨-1, cs, node, []⟩

def parse_block : Nat → CState → CNode → Except Fault Outcome
  | 0, _, _ => .error .unfinished
  | passes + 1, cs, node =>
      match lex cs false with
      | .error fault => .error fault
      | .ok (.text, cs) =>
          match parse_expr (exprLoop passes) cs node with
          | .error fault => .error fault
          | .ok out =>
              if out.code ≠ 0 then .ok { out with code := -1 }
              else
                match parse_block passes out.cs out.node with
                | .error fault => .error fault
                | .ok out' => .ok { out' with stored := out.stored ++ out'.stored }
      | .ok (.cbrace, cs) => .ok ⟨0, cs, node, []⟩
      | .ok (_, cs) => .ok ⟨-1, cs, node, []⟩

end

/-- The loop of `config_load`. -/
def loadLoop : Nat → CState → CNode → Except Fault (CNode × List Stored)
  | 0, _, _ => .error .unfinished
  | passes + 1, cs, root =>
      match lex cs false with
      | .error fault => .error fault
      | .ok (.text, cs) =>
          match parse_expr (exprLoop passes) cs root with
          | .error fault => .error fault
          | .ok out =>
              if out.code ≠ 0 then .ok (out.node, out.stored)
              else
                match loadLoop passes out.cs out.node with
                | .error fault => .error fault
                | .ok (root, stored) => .ok (root, out.stored ++ stored)
      | .ok _ => .ok (root, [])

def config_load (passes : Nat) (root : CNode) (data : List UInt8) :
    Except Fault (CNode × List Stored) :=
  loadLoop passes ⟨data, [], 0⟩ root

end Config
end Cutils
end AndroidLinux

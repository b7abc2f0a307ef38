import AndroidLinux.Lib.Transition

/-!
# `BufferedTextOutput`

The buffers of one thread.  The objects are numbered as they are constructed, and so are
the buffer states, of which a pointer is the number.  `gTextBuffers` with
`gFreeBufferIndex` holds the free list of indices, and `states` is the vector of the
thread.  What `writeLines` is given is not modelled.

`log` and `text` are history: the `getBuffer` calls of multithreaded outputs, each with the
state it returned, and what the operations on an output would make of a buffer of its own.
-/

namespace AndroidLinux
namespace Binder

/-! ## The text in a buffer -/

/-- `BufferState` without its number. -/
structure TextBuffer where
  buffer : List UInt8
  atFront : Bool
  indent : Int32
  bundle : Int32
  deriving DecidableEq

namespace TextBuffer

def newline : UInt8 := 10

/-- The constructor of `BufferState`. -/
def fresh : TextBuffer := ⟨[], true, 0, 0⟩

/-- `append`; `bufferSize` stays 0, so that `realloc` is asked for every text. -/
def append (b : TextBuffer) (txt : List UInt8) (granted : Bool) : Option TextBuffer :=
  if granted ∨ txt.length + b.buffer.length = 0 then some { b with buffer := b.buffer ++ txt }
  else none

def restart (b : TextBuffer) : TextBuffer := { b with buffer := [], atFront := true }

/-- The length of `indentStr`. -/
def indentStrLength : Nat := 152

def stringForIndent (indentLevel : Int32) : List UInt8 :=
  List.replicate (min indentStrLength (2 * indentLevel.toInt.toNat)) 32

/-- The next line with all empty lines that follow. -/
def nextLine (txt : List UInt8) : List UInt8 :=
  txt.takeWhile (· ≠ newline) ++ (txt.dropWhile (· ≠ newline)).takeWhile (· = newline)

def endsLine (line : List UInt8) : Bool := line.getLast? = some newline

/-- What the fast path leaves: it goes on after the last line, or one byte further on when
there is none. -/
def afterLines (rest : List UInt8) : List UInt8 :=
  if newline ∈ rest then rest.reverse.takeWhile (· ≠ newline) |>.reverse else rest.drop 1

/-- A line is appended, and written out when it is complete; `next` is the rest of the
loop. -/
def appendLine (b : TextBuffer) (line : List UInt8) (granted : Bool)
    (next : TextBuffer → TextBuffer) : TextBuffer :=
  match b.append line granted with
  | none => b
  | some c =>
      let c := { c with atFront := endsLine line }
      if c.atFront ∧ c.bundle = 0 then next c.restart else next c

/-- The loop of `print`, which takes at least one byte in each pass.  `grants` are the
answers of `realloc`, and `k` of them have been used. -/
def printLoop (grants : Nat → Bool) : Nat → Nat → TextBuffer → List UInt8 → TextBuffer
  | 0, _, b, _ => b
  | fuel + 1, k, b, txt =>
      if txt = [] then b
      else
        let first := nextLine txt
        let rest := txt.drop first.length
        if b.atFront ∧ 0 < b.indent then
          match b.append (stringForIndent b.indent) (grants k) with
          | none => b
          | some c =>
              c.appendLine first (grants (k + 1)) fun d => printLoop grants fuel (k + 2) d rest
        else if b.atFront ∧ endsLine first ∧ b.bundle = 0 then
          printLoop grants fuel k b (afterLines rest)
        else b.appendLine first (grants k) fun d => printLoop grants fuel (k + 1) d rest

def print (txt : List UInt8) (grants : Nat → Bool) (b : TextBuffer) : TextBuffer :=
  printLoop grants txt.length 0 b txt

def moveIndent (delta : Int32) (b : TextBuffer) : TextBuffer :=
  { b with indent := if b.indent + delta < 0 then 0 else b.indent + delta }

def pushBundle (b : TextBuffer) : TextBuffer := { b with bundle := b.bundle + 1 }

def popBundle (b : TextBuffer) : TextBuffer :=
  let c := { b with bundle := if b.bundle - 1 < 0 then 0 else b.bundle - 1 }
  if c.bundle = 0 ∧ c.buffer ≠ [] ∧ c.atFront then c.restart else c

end TextBuffer

/-! ## Objects and states -/

structure BufferState where
  seq : Int32
  text : TextBuffer

structure BufferedTextOutput where
  multithreaded : Bool
  mSeq : Int32
  mIndex : Int32
  mGlobalState : Nat

/-- Where an index stands in a vector. -/
def slot (mIndex : Int32) : Nat := mIndex.toUInt32.toNat

structure TextSystem where
  gSequence : Int32
  gFreeBufferIndex : Int32
  gTextBuffers : List Int32
  outputs : Nat → Option BufferedTextOutput
  made : Nat
  states : List (Option Nat)
  heap : List BufferState
  log : List (Nat × Nat)
  text : Nat → TextBuffer

namespace TextSystem

def allocBufferIndex (s : TextSystem) : Int32 × TextSystem :=
  if 0 ≤ s.gFreeBufferIndex then
    let res := s.gFreeBufferIndex
    (res, { s with
      gFreeBufferIndex := s.gTextBuffers.getD (slot res) 0
      gTextBuffers := s.gTextBuffers.set (slot res) (-1) })
  else
    (Int32.ofNat s.gTextBuffers.length, { s with gTextBuffers := s.gTextBuffers ++ [-1] })

def freeBufferIndex (s : TextSystem) (idx : Int32) : TextSystem :=
  { s with
    gTextBuffers := s.gTextBuffers.set (slot idx) s.gFreeBufferIndex
    gFreeBufferIndex := idx }

/-- A new `BufferState`. -/
def newState (s : TextSystem) (seq : Int32) : TextSystem :=
  { s with heap := s.heap ++ [⟨seq, .fresh⟩] }

/-- `BufferedTextOutput::BufferedTextOutput`. -/
def construct (s : TextSystem) (multithreaded : Bool) : TextSystem :=
  let r := s.allocBufferIndex
  let q := r.2.newState s.gSequence
  { q with
    gSequence := s.gSequence + 1
    outputs := Function.update s.outputs s.made
      (some ⟨multithreaded, s.gSequence, r.1, s.heap.length⟩)
    made := s.made + 1
    text := Function.update s.text s.made .fresh }

/-- `BufferedTextOutput::~BufferedTextOutput`. -/
def destroy (s : TextSystem) (o : Nat) (out : BufferedTextOutput) : TextSystem :=
  { s.freeBufferIndex out.mIndex with outputs := Function.update s.outputs o none }

/-- The state that the vector of the thread holds for an output. -/
def found (s : TextSystem) (out : BufferedTextOutput) : Option Nat :=
  (s.states.getD (slot out.mIndex) none).filter fun b =>
    (s.heap.map BufferState.seq)[b]? = some out.mSeq

/-- `getBuffer`; a new state gets the index as its number. -/
def getBuffer (s : TextSystem) (out : BufferedTextOutput) : Nat × TextSystem :=
  if out.multithreaded then
    let states := s.states ++ List.replicate (slot out.mIndex + 1 - s.states.length) none
    match s.found out with
    | some b => (b, { s with states := states })
    | none =>
        let q := s.newState out.mIndex
        (s.heap.length, { q with states := states.set (slot out.mIndex) (some s.heap.length) })
  else (out.mGlobalState, s)

/-- An operation works on the state that `getBuffer` returns. -/
def edit (s : TextSystem) (b : Nat) (f : TextBuffer → TextBuffer) : TextSystem :=
  { s with heap := s.heap.modify b fun x => { x with text := f x.text } }

/-- An operation on an output. -/
inductive Op
  | print (txt : List UInt8) (grants : Nat → Bool)
  | moveIndent (delta : Int32)
  | pushBundle
  | popBundle

def Op.apply : Op → TextBuffer → TextBuffer
  | .print txt grants => TextBuffer.print txt grants
  | .moveIndent delta => TextBuffer.moveIndent delta
  | .pushBundle => TextBuffer.pushBundle
  | .popBundle => TextBuffer.popBundle

/-- A call of an operation, with its history. -/
def call (s : TextSystem) (o : Nat) (out : BufferedTextOutput) (op : Op) : TextSystem :=
  let r := s.getBuffer out
  let q := r.2.edit r.1 op.apply
  if out.multithreaded then
    { q with
      log := (o, r.1) :: q.log
      text := Function.update q.text o (op.apply (q.text o)) }
  else q

inductive Action
  | construct (multithreaded : Bool)
  | destroy (o : Nat)
  | call (o : Nat) (op : Op)

def initial : TextSystem where
  gSequence := 0
  gFreeBufferIndex := -1
  gTextBuffers := []
  outputs _ := none
  made := 0
  states := []
  heap := []
  log := []
  text _ := .fresh

/-- Live objects are destroyed and called in any order. -/
def step (s : TextSystem) : Action → Option TextSystem
  | .construct multithreaded => some (s.construct multithreaded)
  | .destroy o => (s.outputs o).map fun out => s.destroy o out
  | .call o op => (s.outputs o).map fun out => s.call o out op

def machine : Lib.Machine TextSystem Action where
  init s := s = initial
  step := step

end TextSystem
end Binder
end AndroidLinux

import SecOS.Tty

/-! What typing at a terminal in canonical mode means. A line is a list of characters, each of
one byte or of a UTF-8 sequence; keys edit it, and it becomes an item for the reader when it
is ended. There are no queues here, and nothing is ever full but the line itself. -/

namespace SecOS.Tty

inductive Item where
  | line (bytes : List UInt8)
  | eof
deriving DecidableEq

def Item.bytes : Item → List UInt8
  | .line bytes => bytes
  | .eof => []

/-- The last character comes first; `literal` says that the next byte stands for itself. -/
structure Editor where
  chars : List (List UInt8)
  literal : Bool

namespace Editor

def fresh : Editor := ⟨[], false⟩

def bytes (e : Editor) : List UInt8 := e.chars.reverse.flatten

def addByte (tio : Termios) (c : UInt8) : List (List UInt8) → List (List UInt8)
  | [] => [[c]]
  | char :: rest => if continues tio c then (char ++ [c]) :: rest else [c] :: char :: rest

/-- A line takes 1023 bytes and the one that ends it. -/
def put (tio : Termios) (e : Editor) (c : UInt8) : Editor :=
  if e.bytes.length < ttyLine - 1 then { e with chars := addByte tio c e.chars } else e

def blankChar (char : List UInt8) : Bool := char = [0x20] ∨ char = [0x09]

def eraseWord (chars : List (List UInt8)) : List (List UInt8) := (chars.dropWhile blankChar).dropWhile fun char => !blankChar char

def key (tio : Termios) (e : Editor) (c : UInt8) : Editor × List Item :=
  if tio.iexten ∧ ccIs tio.vlnext c then ({ e with literal := true }, [])
  else if isErase tio c then ({ e with chars := e.chars.tail }, [])
  else if ccIs tio.vkill c then ({ e with chars := [] }, [])
  else if tio.iexten ∧ ccIs tio.vwerase c then ({ e with chars := eraseWord e.chars }, [])
  else if tio.iexten ∧ ccIs tio.vreprint c then (e, [])
  else if ccIs tio.veof c then ({ e with chars := [] }, [if e.chars = [] then .eof else .line e.bytes])
  else if isEol tio c then ({ e with chars := [] }, [.line (e.bytes ++ [c])])
  else (e.put tio c, [])

def type (tio : Termios) (e : Editor) (c : UInt8) : Editor × List Item :=
  if e.literal then ({ e with literal := false }.put tio (strip tio c), [])
  else match translate tio (strip tio c) with
    | none => (e, [])
    | some c => e.key tio c

end Editor

def typed (tio : Termios) (text : List UInt8) : Editor × List Item :=
  text.foldl (fun (e, items) c => ((e.type tio c).1, items ++ (e.type tio c).2)) (.fresh, [])

/-- The reads that go through items in order: each is a part of one line or all of it, or it
is empty and takes the end of a file. -/
inductive Served : List Item → List (List UInt8) → List Item → Prop where
  | none (items : List Item) : Served items [] items
  | eof {items rest reads} (later : Served items reads rest) : Served (.eof :: items) ([] :: reads) rest
  | part {items rest reads} {got left : List UInt8} (got_some : got ≠ []) (left_some : left ≠ [])
      (later : Served (.line left :: items) reads rest) : Served (.line (got ++ left) :: items) (got :: reads) rest
  | whole {items rest reads} {got : List UInt8} (got_some : got ≠ []) (later : Served items reads rest) :
      Served (.line got :: items) (got :: reads) rest

end SecOS.Tty

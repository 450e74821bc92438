/-!
# Places in a source text

Offsets count UTF-8 bytes from the start of the text. Lines and columns count from one, columns in
characters; only a newline ends a line. All of them are natural numbers. Where lines and columns are
kept in 32 bits, the two agree for texts with fewer than `2 ^ 32` lines and columns, and only such
texts are meant.
-/

namespace TypeAssay

/-! ## Byte lengths -/

/-- The number of bytes of some characters. -/
def byteLength : List Char → Nat
  | [] => 0
  | c :: cs => c.utf8Size + byteLength cs

/-- No characters take no bytes. -/
@[simp]
theorem byteLength_nil : byteLength [] = 0 := rfl

/-- One more character in front takes its own bytes in addition. -/
@[simp]
theorem byteLength_cons (c : Char) (cs : List Char) :
    byteLength (c :: cs) = c.utf8Size + byteLength cs := rfl

/-- Two texts behind each other take the bytes of both. -/
@[simp]
theorem byteLength_append (cs ds : List Char) :
    byteLength (cs ++ ds) = byteLength cs + byteLength ds := by
  induction cs with
  | nil => simp
  | cons c cs ih => simp [ih, Nat.add_assoc]

/-- What is left of some characters after a number of bytes. -/
def dropBytes : List Char → Nat → List Char
  | [], _ => []
  | c :: cs, n => if n = 0 then c :: cs else dropBytes cs (n - c.utf8Size)

/-- The characters within a number of bytes. -/
def takeBytes : List Char → Nat → List Char
  | [], _ => []
  | c :: cs, n => if n = 0 then [] else c :: takeBytes cs (n - c.utf8Size)

/-- Dropping the bytes of a front part leaves the rest. -/
theorem dropBytes_append (cs ds : List Char) : dropBytes (cs ++ ds) (byteLength cs) = ds := by
  induction cs with
  | nil => cases ds <;> simp [dropBytes]
  | cons c cs ih =>
    have hpos : c.utf8Size ≠ 0 := Nat.ne_of_gt c.utf8Size_pos
    simp [dropBytes, hpos, ih]

/-- Taking the bytes of a front part takes just that part. -/
theorem takeBytes_append (cs ds : List Char) : takeBytes (cs ++ ds) (byteLength cs) = cs := by
  induction cs with
  | nil => cases ds <;> simp [takeBytes]
  | cons c cs ih =>
    have hpos : c.utf8Size ≠ 0 := Nat.ne_of_gt c.utf8Size_pos
    simp [takeBytes, hpos, ih]

/-! ## Spans -/

/-- A stretch of a source text, with the line and the column of its start. Texts are meant in which
both stay below `2 ^ 32`. -/
structure Span where
  start : Nat
  stop : Nat
  line : Nat
  column : Nat
deriving DecidableEq, Repr, Inhabited

namespace Span

/-- The number of bytes. -/
def length (s : Span) : Nat := s.stop - s.start

def isEmpty (s : Span) : Bool := s.start == s.stop

/-- The smallest span that covers both. -/
def merge (s t : Span) : Span :=
  let first := if s.start ≤ t.start then s else t
  { start := min s.start t.start
    stop := max s.stop t.stop
    line := first.line
    column := first.column }

/-- The text under a span. -/
def slice (s : Span) (source : String) : String :=
  String.ofList (takeBytes (dropBytes source.toList s.start) s.length)

/-- The written form of the start. -/
def text (s : Span) : String := s!"{s.line}:{s.column}"

end Span

/-! ## Positions -/

/-- A point of a source text. -/
structure Position where
  offset : Nat := 0
  line : Nat := 1
  column : Nat := 1
deriving DecidableEq, Repr

namespace Position

/-- The point after one more character. -/
def step (p : Position) (c : Char) : Position :=
  { offset := p.offset + c.utf8Size
    line := if c = '\n' then p.line + 1 else p.line
    column := if c = '\n' then 1 else p.column + 1 }

/-- The point after some more characters. -/
def advance (p : Position) (cs : List Char) : Position := cs.foldl step p

@[simp]
theorem advance_nil (p : Position) : p.advance [] = p := rfl

/-- Advancing over two texts behind each other is advancing over one after the other. -/
theorem advance_append (p : Position) (cs ds : List Char) :
    p.advance (cs ++ ds) = (p.advance cs).advance ds := by
  simp [advance]

/-- The offset grows by the bytes that are passed. -/
@[simp]
theorem offset_advance (p : Position) (cs : List Char) :
    (p.advance cs).offset = p.offset + byteLength cs := by
  induction cs generalizing p with
  | nil => simp
  | cons c cs ih =>
    have : p.advance (c :: cs) = (p.step c).advance cs := rfl
    rw [this, ih]
    simp [step, Nat.add_assoc]

/-- The span from a point over some characters. -/
def spanOver (p : Position) (cs : List Char) : Span :=
  { start := p.offset, stop := (p.advance cs).offset, line := p.line, column := p.column }

end Position

end TypeAssay

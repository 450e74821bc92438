import TypeAssay.Report.Diagnostic
import TypeAssay.Report.Source
import TypeAssay.Text.Bisect

/-!
# Labels on lines

A label within one line is a mark under that line. A label over several lines is a bar in a column
of its own at the left: it begins at its first line, goes past the lines between, and ends under its
last line. The bars are numbered in the order of their labels.
-/

namespace TypeAssay

/-- A stretch of one line and what is said about it. -/
structure Mark where
  style : LabelStyle
  start : Nat
  stop : Nat
  message : String
deriving DecidableEq, Repr

/-- What a bar does at a line. -/
inductive BarPart where
  /-- It begins at a byte of this line. -/
  | top (start : Nat)
  /-- It goes past this line. -/
  | past
  /-- It ends at a byte of this line. -/
  | bottom (stop : Nat) (message : String)
deriving DecidableEq, Repr

/-- A bar at a line. -/
structure Bar where
  column : Nat
  style : LabelStyle
  part : BarPart
deriving DecidableEq, Repr

/-- A line with everything that is drawn at it. -/
structure MarkedLine where
  index : Nat
  text : List Char
  marks : List Mark
  bars : List Bar
deriving DecidableEq, Repr

/-! ## Extents -/

/-- A label and the lines of its ends. -/
structure Extent where
  label : Label
  first : Nat
  last : Nat
deriving DecidableEq, Repr

namespace Extent

/-- The extent of a label. -/
def of (lines : List SourceLine) (l : Label) : Extent :=
  ⟨l, lineIndex lines l.start, lineIndex lines l.stop⟩

/-- Whether a label stays on one line. -/
def isSingle (e : Extent) : Bool := e.first == e.last

end Extent

/-- Compares a mark with a stretch, by start and then by end. -/
def Mark.compareTo (start stop : Nat) (m : Mark) : Ordering :=
  (compare m.start start).then (compare m.stop stop)

/-- Adds a mark to marks that are sorted by their stretches. -/
def insertMark (m : Mark) (ms : List Mark) : List Mark :=
  let i := bisectIndex (Mark.compareTo m.start m.stop) ms
  ms.take i ++ m :: ms.drop i

/-- The byte after a byte of a line. Bytes are counted in 64 bits, so zero comes after the last
number. -/
def byteAfter (byte : Nat) : Nat := (byte + 1) % UInt64.size

/-- The byte after one that is not the last of all is the next number. -/
theorem byteAfter_of_lt {byte : Nat} (h : byte + 1 < UInt64.size) : byteAfter byte = byte + 1 :=
  Nat.mod_eq_of_lt h

/-- The mark of a label on a line. It covers one byte at least, unless it starts at the last number
there is: then it covers none and stops where its label does. -/
def Extent.mark (line : SourceLine) (e : Extent) : Mark :=
  let start := e.label.start - line.start
  { style := e.label.style
    start
    stop := max (e.label.stop - line.start) (byteAfter start)
    message := e.label.message }

/-- The bar of a label at a line with an index, if it is there. -/
def Extent.bar? (line : SourceLine) (index column : Nat) (e : Extent) : Option Bar :=
  if index = e.first then
    some ⟨column, e.label.style, .top (e.label.start - line.start)⟩
  else if index = e.last then
    some ⟨column, e.label.style, .bottom (e.label.stop - line.start) e.label.message⟩
  else if e.first < index ∧ index < e.last then some ⟨column, e.label.style, .past⟩
  else none

/-- Whether a label over several lines wants a line to be shown: its first and its last line, the
three lines after the first and the one before the last. -/
def Extent.shows (index : Nat) (e : Extent) : Bool :=
  index == e.first || index == e.last ||
    (e.first < index && index < e.last && (index - e.first ≤ 3 || e.last - index ≤ 1))

/-! ## Lines -/

/-- The labels over several lines, in order. -/
def barExtents (es : List Extent) : List Extent := es.filter (!·.isSingle)

/-- Everything that is drawn at a line. -/
def markedLine (lines : List SourceLine) (es : List Extent) (index : Nat) : MarkedLine :=
  let line := lineAt lines index
  let here := es.filter fun e => e.isSingle && e.first == index
  { index
    text := line.text
    marks := here.foldl (fun ms e => insertMark (e.mark line) ms) []
    bars := (barExtents es).zipIdx.filterMap fun (e, column) => e.bar? line index column }

/-- Whether a line has to be shown. -/
def isShown (es : List Extent) (index : Nat) : Bool :=
  es.any fun e => if e.isSingle then e.first == index else e.shows index

/-- The indices of the lines that have to be shown. -/
def shownIndices (lines : List SourceLine) (es : List Extent) : List Nat :=
  (List.range lines.length).filter (isShown es)

/-- Whether a label stands for the place of a report better than another: primary before secondary,
then the earlier one. -/
def Label.leads (l other : Label) : Bool :=
  (l.style = .primary && other.style = .secondary) ||
    (l.style = other.style && l.start < other.start)

/-- The label that stands for the place of a report. -/
def leadingLabel? : List Label → Option Label
  | [] => none
  | l :: ls => some (ls.foldl (fun best l => if l.leads best then l else best) l)

end TypeAssay

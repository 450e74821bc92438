import TypeAssay.Report.Placement
import TypeAssay.Text.Blank
import TypeAssay.Text.Width

/-!
# Drawing a line of a report

A line of the source is drawn behind its number and a border, with a column for every bar. Below it
comes a row of carets under its marks, then their messages, and then a row for every bar that begins
or ends there.

The message of the last mark stands beside the carets if nothing overlaps it. The others hang below,
the last one first, each under a row of pointers to the marks that are left.
-/

namespace TypeAssay

/-! ## Characters on a grid -/

/-- A character of a line, the offset of its first byte and the columns it takes. -/
structure Cell where
  char : Char
  offset : Nat
  width : Nat
deriving DecidableEq, Repr

/-- The distance of tab stops. -/
def tabStop : Nat := 4

/-- The cells of some characters from an offset and a column on. A tab reaches to the next stop. -/
def cellsFrom (offset column : Nat) : List Char → List Cell
  | [] => []
  | c :: cs =>
    let width := if c = '\t' then tabStop - column % tabStop else displayWidth c
    ⟨c, offset, width⟩ :: cellsFrom (offset + c.utf8Size) (column + width) cs

/-- The cells of a line. -/
def cells (cs : List Char) : List Cell := cellsFrom 0 0 cs

/-- What is shown of a line: all but what ends it. -/
def shownText (cs : List Char) : List Char :=
  trimEndWhile (fun c => c = '\n' || c = '\r' || c = '\x00') cs

/-- Whether two stretches have a byte in common. -/
def overlaps (start stop start' stop' : Nat) : Bool := max start start' < min stop stop'

/-- The bytes of white space at the start of a line. -/
def indentLength (shown : List Char) : Nat := byteLength shown - byteLength (trimStart shown)

/-! ## Gutters -/

/-- A number or nothing, right-aligned before the border. -/
def outerGutter (width : Nat) (text : String) : String :=
  String.ofList (List.replicate (width - text.length) ' ') ++ text ++ " "

/-- The columns of the bars, each drawn on its own. -/
def innerGutter (columns : Nat) (draw : Nat → String) : String :=
  String.join ((List.range columns).map draw)

/-- The bar in a column. -/
def barIn (bars : List Bar) (column : Nat) : Option Bar := bars.find? (·.column == column)

/-- Whether a bar begins before the text of its line, so that it needs no row of its own. -/
def beginsAtMargin (indent : Nat) : BarPart → Bool
  | .top start => start ≤ indent
  | _ => false

/-- A column beside the source text. -/
def sourceColumn (indent : Nat) (bars : List Bar) (column : Nat) : String :=
  match barIn bars column with
  | none => "  "
  | some b =>
    match b.part with
    | .top start => if start ≤ indent then " ╭" else "  "
    | .past | .bottom .. => " │"

/-- A column beside carets and messages. -/
def plainColumn (bars : List Bar) (column : Nat) : String :=
  match barIn bars column with
  | none => "  "
  | some b =>
    match b.part with
    | .top _ => "  "
    | .past | .bottom .. => " │"

/-- Whether a bar is still or already there in the row where another one begins or ends. -/
def continuesBeside (row : Bar) (b : Bar) : Bool :=
  match b.part with
  | .past => true
  | .top _ => b.column < row.column
  | .bottom .. => row.column < b.column

/-- A column in the row where a bar begins or ends: behind its corner a line runs to the text. -/
def cornerColumn (bars : List Bar) (row : Bar) (column : Nat) : String :=
  let underlined : Bool := row.column < column
  let filler := if underlined then "──" else "  "
  match barIn bars column with
  | none => filler
  | some b =>
    if b.column = row.column then
      match b.part with
      | .top _ => " ╭"
      | .bottom .. => " ╰"
      | .past => " │"
    else if continuesBeside row b then (if underlined then "─│" else " │")
    else filler

/-! ## Rows of marks -/

/-- The style of the marks at a stretch; primary marks are on top. -/
def styleAt (ms : List Mark) (start stop : Nat) : Option LabelStyle :=
  let here := ms.filter fun m => overlaps m.start m.stop start stop
  if here.any (·.style = .primary) then some .primary
  else if here.isEmpty then none
  else some .secondary

/-- The greatest end of some marks. -/
def lastStop (ms : List Mark) : Nat := ms.foldl (fun n m => max n m.stop) 0

/-- The greatest start of some marks. -/
def lastStart (ms : List Mark) : Nat := ms.foldl (fun n m => max n m.start) 0

/-- The row of carets. One more column behind the text stands for its end. -/
def caretRow (ms : List Mark) (shown : List Char) : String :=
  let stop := lastStop ms
  let draw (c : Cell) : List Char :=
    match styleAt ms c.offset (c.offset + c.char.utf8Size) with
    | some style => List.replicate c.width style.caret
    | none => if c.offset < stop then List.replicate c.width ' ' else []
  let behind : Cell := ⟨'\x00', byteLength shown, 1⟩
  String.ofList ((cells shown ++ [behind]).flatMap draw)

/-- The index of the mark that reaches farthest, the last of them, if it has a message. -/
def lastToEnd? (ms : List Mark) : Option Nat :=
  let step (best : Nat × Option Nat) (m : Mark × Nat) : Nat × Option Nat :=
    if best.1 ≤ m.1.stop then
      (m.1.stop, if m.1.message.isEmpty then none else some m.2)
    else best
  (ms.zipIdx.foldl step (0, none)).2

/-- The index of the mark whose message stands beside the carets. -/
def trailingIndex? (ms : List Mark) : Option Nat := do
  let i ← lastToEnd? ms
  let m ← ms[i]?
  if (ms.eraseIdx i).any fun other => overlaps m.start m.stop other.start other.stop then none
  else some i

/-- The marks whose messages hang below the carets. -/
def hangingMarks (ms : List Mark) : List Mark :=
  let trailing := trailingIndex? ms
  ms.zipIdx.filterMap fun (m, i) =>
    if m.message.isEmpty || trailing = some i then none else some m

/-- A row of pointers to the hanging marks, under the first part of a line. -/
def pointerRow (ms : List Mark) (shown : List Cell) : String :=
  let hanging := hangingMarks ms
  let start := lastStart ms
  let draw (c : Cell) : List Char :=
    let pointed := hanging.any fun m => c.offset ≤ m.start && m.start < c.offset + c.char.utf8Size
    let spaces := if c.offset ≤ start then c.width else 0
    if pointed then '│' :: List.replicate (spaces - 1) ' ' else List.replicate spaces ' '
  String.ofList (shown.flatMap draw)

/-- The rows under a line for its marks. -/
def markRows (ms : List Mark) (shown : List Char) : List String :=
  if ms.isEmpty then []
  else
    let trailing := (trailingIndex? ms).bind fun i => ms[i]?
    let carets := caretRow ms shown ++ trailing.elim "" fun m => " " ++ m.message
    match hangingMarks ms with
    | [] => [carets]
    | hanging =>
      let line := cells shown
      carets :: pointerRow ms line :: hanging.reverse.map fun m =>
        pointerRow ms (line.takeWhile (·.offset < m.start)) ++ m.message

/-! ## Rows of bars -/

/-- A horizontal line under the characters that begin before a byte. -/
def ruleBefore (stop : Nat) (shown : List Char) : String :=
  let under := (cells shown).takeWhile (·.offset < stop)
  String.ofList (under.flatMap fun c => List.replicate c.width '─')

/-- The end of the row where a bar begins or ends, behind the columns. -/
def cornerEnd (b : Bar) (shown : List Char) : String :=
  let caret := b.style.endCaret.toString
  match b.part with
  | .top start => ruleBefore (start + 1) shown ++ caret
  | .bottom stop message =>
    ruleBefore stop shown ++ caret ++ (if message.isEmpty then "" else " " ++ message)
  | .past => ""

/-- Whether a bar has a row of its own under a line. -/
def hasCorner (indent : Nat) (b : Bar) : Bool :=
  match b.part with
  | .past => false
  | part => !beginsAtMargin indent part

/-! ## Lines -/

/-- The measures that all lines of a report share. -/
structure Frame where
  /-- The width of the line numbers. -/
  numberWidth : Nat
  /-- The number of columns for bars. -/
  columns : Nat
deriving DecidableEq, Repr

namespace Frame

/-- A line of a report without a line number. -/
def blankRow (f : Frame) (border : String) (bars : List Bar) : String :=
  outerGutter f.numberWidth "" ++ border ++ innerGutter f.columns (plainColumn bars)

/-- A line of the source with all rows under it. -/
def sourceRows (f : Frame) (line : MarkedLine) : List String :=
  let shown := shownText line.text
  let indent := indentLength shown
  let text := (cells shown).flatMap fun c =>
    if c.char = '\t' then List.replicate c.width ' ' else [c.char]
  let number := outerGutter f.numberWidth (toString (line.index + 1))
  let first := number ++ "│" ++ innerGutter f.columns (sourceColumn indent line.bars) ++ " " ++
    String.ofList text
  let under := (markRows line.marks shown).map fun row =>
    f.blankRow "│" line.bars ++ " " ++ row
  let corners := (line.bars.filter (hasCorner indent)).map fun b =>
    outerGutter f.numberWidth "" ++ "│" ++
      innerGutter f.columns (cornerColumn line.bars b) ++ cornerEnd b shown
  first :: under ++ corners

end Frame

end TypeAssay

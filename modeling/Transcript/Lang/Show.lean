import Transcript.Decimal.Double
import Transcript.Lang.World
import Transcript.Text.Character

/-!
# Values as text

Each value has a form that shows what it is and a form for reading, which differ for texts and
exceptions only. A value that contains itself has no form: showing it finds no end at any depth.
-/

namespace Transcript.Lang

/-- **The notation of floating point numbers:** a point for first digits from four places behind it
to sixteen before it, else an exponent of at least two digits. -/
def floatStyle : Decimal.Style := ⟨-4, 16, 2⟩

/-- A floating point number as text. -/
def showFloat (f : Float) : List Char := Decimal.writeFloat floatStyle f

/-- An integer as text. -/
def showInt (n : Int) : List Char :=
  if n < 0 then '-' :: Nat.toDigits 10 n.natAbs else Nat.toDigits 10 n.natAbs

/-- A number below 256 in two hexadecimal digits. -/
def hexByte (n : Nat) : List Char := [Nat.digitChar (n / 16), Nat.digitChar (n % 16)]

/-- One character of a shown text. -/
def showChar (quote c : Char) : List Char :=
  if c = '\\' then ['\\', '\\']
  else if c = '\n' then ['\\', 'n']
  else if c = '\r' then ['\\', 'r']
  else if c = '\t' then ['\\', 't']
  else if c = quote then ['\\', c]
  else if c.toNat < 32 || c.toNat = 127 then '\\' :: 'x' :: hexByte c.toNat
  else [c]

/-- The quote around a text: double if only single quotes occur in it. -/
def quoteFor (s : List Char) : Char := if s.contains '\'' && !s.contains '"' then '"' else '\''

/-- A text between quotes. -/
def showText (s : List Char) : List Char :=
  let q := quoteFor s
  q :: (s.flatMap (showChar q) ++ [q])

/-- One byte of shown bytes. -/
def showByte (quote : Char) (b : UInt8) : List Char :=
  if 128 ≤ b.toNat then '\\' :: 'x' :: hexByte b.toNat else showChar quote (Char.ofNat b.toNat)

/-- Bytes between quotes. -/
def showBytes (b : List UInt8) : List Char :=
  let q := quoteFor (b.map fun x => Char.ofNat x.toNat)
  'b' :: q :: (b.flatMap (showByte q) ++ [q])

/-- Parts with commas between them. -/
def commas (parts : List (List Char)) : List Char := Text.joinWith [',', ' '] parts

/-- A tuple of shown items. -/
def showTuple (items : List (List Char)) : List Char :=
  match items with
  | [x] => '(' :: (x ++ [',', ')'])
  | _ => '(' :: (commas items ++ [')'])

/-- **The form that shows a value**, nested at most so deep. -/
def show? : Nat → World → Value → Option (List Char)
  | 0, _, _ => none
  | fuel + 1, w, v =>
    match v with
    | .none => some "None".toList
    | .bool true => some "True".toList
    | .bool false => some "False".toList
    | .int n => some (showInt n.toInt)
    | .float f => some (showFloat f)
    | .str _ s => some (showText s)
    | .bytes b => some (showBytes b)
    | .list r => ((w.list r).mapM (show? fuel w)).map fun items => '[' :: (commas items ++ [']'])
    | .tuple _ items => (items.mapM (show? fuel w)).map showTuple
    | .dict r =>
      ((w.dict r).mapM fun (k, v) => do
        return (← show? fuel w k) ++ [':', ' '] ++ (← show? fuel w v)).map fun entries =>
          '\x7b' :: (commas entries ++ ['\x7d'])
    | .range start stop step =>
      let ends := [showInt start.toInt, showInt stop.toInt]
      some ("range(".toList ++
        commas (if step = 1 then ends else ends ++ [showInt step.toInt]) ++ [')'])
    | .function r =>
      some ("<function ".toList ++ ((w.functions[r]?).getD default).definition.name.toList ++ ['>'])
    | .builtin b => some ("<built-in function ".toList ++ b.name.toList ++ ['>'])
    | .method receiver m =>
      some ("<built-in method ".toList ++ m.name.toList ++ " of ".toList ++
        receiver.typeName.toList ++ " object>".toList)
    | .module _ => some ("<module '".toList ++ concurrencyModule.toList ++ "'>".toList)
    | .coroutine r =>
      some ("<coroutine object ".toList ++ ((w.coroutines[r]?).getD default).name.toList ++ ['>'])
    | .task r =>
      let t := w.task r
      some ("<Task ".toList ++ (if t.isDone then "finished" else "pending").toList ++
        " name='".toList ++ t.name.toList ++ "'>".toList)
    | .exceptionType k => some ("<class '".toList ++ k.name.toList ++ "'>".toList)
    | .exception _ k args =>
      (args.mapM (show? fuel w)).map fun items => k.name.toList ++ '(' :: (commas items ++ [')'])

mutual

/-- The form of a value for reading, nested at most so deep. -/
def read? : Nat → World → Value → Option (List Char)
  | 0, _, _ => none
  | fuel + 1, w, v =>
    match v with
    | .str _ s => some s
    | .exception _ kind args => excMessage? fuel w kind args
    | v => show? (fuel + 1) w v

/-- The message of an exception: its argument for reading (a missing key is shown), or the tuple of
several arguments. -/
def excMessage? : Nat → World → ExceptionKind → List Value → Option (List Char)
  | 0, _, _, _ => none
  | fuel + 1, w, kind, args =>
    match args with
    | [] => some []
    | [arg] => if kind = .keyError then show? fuel w arg else read? fuel w arg
    | args => (args.mapM (show? fuel w)).map showTuple

end

/-- The depth that suffices for every value of a world that does not contain itself. -/
def World.depthFor (w : World) (v : Value) : Nat := w.nesting + 2 * v.depth + 3

/-- The form that shows a value. -/
def World.show? (w : World) (v : Value) : Option (List Char) := Lang.show? (w.depthFor v) w v

/-- The form of a value for reading. -/
def World.read? (w : World) (v : Value) : Option (List Char) := Lang.read? (w.depthFor v) w v

/-- The message of an exception. -/
def World.message? (w : World) (e : Raised) : Option (List Char) :=
  excMessage? (w.depthFor (.tuple 0 e.args)) w e.kind e.args

end Transcript.Lang

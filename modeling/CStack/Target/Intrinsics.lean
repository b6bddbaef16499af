import CStack.Target.Machine
import CStack.Prototype.Parser

/-!
Declaring intrinsics on a machine, and the intrinsics of the test bench.

An intrinsic is declared by a C declaration, parsed as a prototype, together with the host
program that implements it. The test bench is the desktop machine narrowed to a 2-byte `int`, a
4-byte `long` and 2-byte pointers, with assertions that compare two arguments at a fixed width
(or within a tolerance, for floats), `memcmp` and `memset` over cells, and `print`, which writes
the text of its argument as a line of output.
-/

namespace CStack

/-- Adds an intrinsic declared by a C declaration. -/
def Machine.addIntrinsic (m : Machine) (declaration : String) (program : HostProgram Unit) :
    Except Prototype.Error Machine := do
  let (name, signature) ← Prototype.parse declaration
  return { m with intrinsics := m.intrinsics ++ [{ name, signature, program }] }

namespace Bench

open HostProgram

/-- Fails unless the first two arguments are equal once converted to a kind. -/
def assertSame (k : Kind) : HostProgram Unit := do
  let expected := (← arg 0).convert k
  let actual := (← arg 1).convert k
  if expected = actual then return ()
  else fail (.assertionFailed expected.text actual.text)

/-- Fails unless the first two arguments, as binary64 floats, differ by at most `tolerance`. -/
def assertClose (tolerance : Float) : HostProgram Unit := do
  let expected := (← arg 0).toFloatBits
  let actual := (← arg 1).toFloatBits
  if (Float.ofBits expected - Float.ofBits actual).abs ≤ tolerance then return ()
  else fail (.assertionFailed (float64Text expected) (float64Text actual))

/-- Compares `remaining` cells from two addresses on, as bytes: the difference of the first pair
that differs, or `0`. -/
def compareCells (left right offset : UInt32) : (remaining : Nat) → HostProgram Int
  | 0 => return 0
  | remaining + 1 => do
    let a := ((← load (left + offset)).convert .uint8).toInt64.toInt
    let b := ((← load (right + offset)).convert .uint8).toInt64.toInt
    if a ≠ b then return a - b else compareCells left right (offset + 1) remaining

/-- Overwrites `remaining` cells from an address on with a value, converted to each cell's kind. -/
def fillCells (start offset : UInt32) (fill : Value) : (remaining : Nat) → HostProgram Unit
  | 0 => return ()
  | remaining + 1 => do
    let cell ← load (start + offset)
    store (start + offset) (fill.convert cell.kind)
    fillCells start (offset + 1) fill remaining

/-- The intrinsic `memcmp (s1, s2, n)`: the byte difference, pushed as a value of `resultKind`. -/
def memcmp (resultKind : Kind) : HostProgram Unit := do
  let left := (← arg 0).toAddress
  let right := (← arg 1).toAddress
  let count := (← arg 2).toInt64.toInt
  let difference ← compareCells left right 0 count.toNat
  emit ((Value.int64 (Int64.ofInt difference)).convert resultKind)

/-- The intrinsic `memset (s, c, n)`: fills `n` cells from `s` with `c`. -/
def memset : HostProgram Unit := do
  let start := (← arg 0).toAddress
  let fill ← arg 1
  let count := (← arg 2).toInt64.toInt
  fillCells start 0 fill count.toNat

/-- The intrinsic `print (value)`: one line with the value's text. -/
def print : HostProgram Unit := do
  tell (.printed (← arg 0).text)

/-- The bench's widths: the desktop machine with 2-byte `int`, 4-byte `long`, 2-byte pointers. -/
def widths : Machine := { Machine.desktop with intSize := 2, longSize := 4, pointerSize := 2 }

/-- The test bench with its ten intrinsics, in declaration order. -/
def machine : Except Prototype.Error Machine := do
  let intKind := (Kind.integer? widths.intSize true).getD .int16
  let m := widths
  let m ← m.addIntrinsic "void assertAreEqual (int expected, int actual)" (assertSame .int16)
  let m ← m.addIntrinsic "void assertU16AreEqual (unsigned int expected, unsigned int actual)"
    (assertSame .uint16)
  let m ← m.addIntrinsic "void assert32AreEqual (long expected, long actual)" (assertSame .int32)
  let m ← m.addIntrinsic "void assertU32AreEqual (unsigned long expected, unsigned long actual)"
    (assertSame .uint32)
  let m ← m.addIntrinsic "void assertBoolsAreEqual (bool expected, bool actual)" (assertSame .int32)
  let m ← m.addIntrinsic "void assertFloatsAreEqual (float expected, float actual)"
    (assertClose 1.0e-6)
  let m ← m.addIntrinsic "void assertDoublesAreEqual (double expected, double actual)"
    (assertClose 1.0e-12)
  let m ← m.addIntrinsic "int memcmp (void* s1, void* s2, int n)" (memcmp intKind)
  let m ← m.addIntrinsic "void memset (void* s, int c, int n)" memset
  m.addIntrinsic "void print (long value)" print

end Bench

end CStack

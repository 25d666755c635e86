import Gapscript.Run.Monad

/-!
# Host functions

The standard library, and a few functions that show what a host can offer to programs.
-/

namespace Gapscript

namespace Library

/-- Prints a value on a line of its own. -/
def print : HostFunction := ⟨"print", 1, fun call => do
  let text ← Run.display call.first
  modify fun s => s.write (text ++ "\n")
  pure .undefined⟩

/-- Fails unless its argument is true. -/
def assert : HostFunction := ⟨"assert", 1, fun call => do
  if call.first.toBoolean then pure .undefined
  else
    let s ← get
    throw (.runtime ⟨.assertion (s.heap.describe call.first), call.pos⟩)⟩

/-- Names the type of a value. -/
def typeof : HostFunction := ⟨"typeof", 1, fun call => pure (.string call.first.typeName)⟩

/-- Waits for a number of milliseconds. Only a ticking clock moves meanwhile. -/
def sleep : HostFunction := ⟨"sleep", 1, fun call => do
  let ms := call.first.toNumber
  if ms.isNaN || ms < 0 then
    throw (call.fault ("sleep: invalid duration " ++ (← Run.display call.first)))
  Run.debug .stdlib ("sleeping " ++ Number.write Number.duration ms ++ "ms")
  modify fun s => if s.ticking then { s with now := s.now + LifeTime.nanoseconds (ms / 1000) } else s
  pure .undefined⟩

/-- Creates a symbol. -/
def symbol : HostFunction := ⟨"Symbol", 1, fun call => do
  let description ← Run.display call.first
  modifyGet fun s =>
    let (sym, s) := s.newSymbol description
    (.symbol sym, s)⟩

/-- The functions every program can call. -/
def standard : List HostFunction := [print, assert, typeof, sleep, symbol]

/-! ## Examples of host functions -/

/-- Adds two values as the operator does. -/
def add : HostFunction := ⟨"add", 2, fun call => do
  let s ← get
  match call.args with
  | [a, b] => Run.ofFault (s.heap.binary .add a b)
  | _ => pure .undefined⟩

/-- Puts three values into an array. -/
def triple : HostFunction := ⟨"triple", 3, fun call =>
  modifyGet fun s => s.newObject (Object.ofElements call.args)⟩

/-- Fails with its argument. -/
def fail : HostFunction := ⟨"fail", 1, fun call => do
  throw (call.fault ("fail: " ++ (← Run.display call.first)))⟩

/-- Does nothing. -/
def nothing : HostFunction := ⟨"nothing", 0, fun _ => pure .undefined⟩

/-- Tells the place of the call. -/
def callPlace : HostFunction := ⟨"where", 0, fun call => pure (.string (Position.describe? call.pos))⟩

/-- Tells how many frames the call is nested in. -/
def depth : HostFunction := ⟨"depth", 0, fun _ => do
  let s ← get
  pure (.number (Number.ofInt s.depth))⟩

/-- Writes a value without ending the line, and returns it. -/
def emit : HostFunction := ⟨"emit", 1, fun call => do
  let text ← Run.display call.first
  modify fun s => s.write text
  pure call.first⟩

/-- Records a value for debugging. -/
def log : HostFunction := ⟨"log", 1, fun call => do
  Run.debug .stdlib ("log " ++ (← Run.display call.first))
  pure .undefined⟩

/-- The examples. -/
def examples : List HostFunction := [add, triple, fail, nothing, callPlace, depth, emit, log]

end Library

end Gapscript

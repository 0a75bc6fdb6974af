import Backtrack.Marks

/-! Runs of operations on a stack of marks alone. Marks are named by handles, which count them in the
order in which they were handed out. -/

namespace Backtrack.MarkStack

inductive Command where
  | new
  | withCapacity (capacity : Nat)
  | copy
  | push (p : Position)
  | last
  /-- Gets hold of a mark of the given depth that another stack has handed out. -/
  | foreign (depth : Nat)
  | get (handle : Nat)
  | release (handle : Nat)
  | isOpen (handle : Nat)
  | depthOf (handle : Nat)
  | compare (left right : Nat)
deriving DecidableEq, Repr

inductive Reply where
  | done
  | marker (m : Marker)
  | position (p : Position)
  | flag (b : Bool)
  | number (n : Nat)
  | order (o : Ordering)
deriving DecidableEq, Repr

/-- A stack and the marks that have been handed out. -/
structure Workbench where
  stack : MarkStack
  handles : Array Marker
deriving DecidableEq, Repr

namespace Workbench

def onStack {α : Type} (x : Action MarkStack α) : Action Workbench α := fun w journal =>
  match w with
  | ⟨stack, handles⟩ =>
    match x stack journal with
    | ⟨result, stack, journal⟩ => ⟨result, ⟨stack, handles⟩, journal⟩

def replaceStack (stack : MarkStack) : Action Workbench Unit :=
  Action.modify fun w => { w with stack := stack }

def handOut (m : Marker) : Action Workbench Unit :=
  Action.modify fun w => { w with handles := w.handles.push m }

def marker (handle : Nat) : Action Workbench Marker :=
  fun w journal => ⟨.ok (w.handles[handle]?.getD ⟨0⟩), w, journal⟩

def query {α : Type} (f : MarkStack → α) : Action Workbench α :=
  fun w journal => ⟨.ok (f w.stack), w, journal⟩

def perform : Command → Action Workbench Reply
  | .new => do
    replaceStack empty
    pure .done
  | .withCapacity capacity => do
    replaceStack (← Action.ofExcept (allocate capacity))
    pure .done
  | .copy => do
    replaceStack (← query fun s => s)
    pure .done
  | .push p => do
    let m ← onStack (MarkStack.push p)
    handOut m
    pure (.marker m)
  | .last => do
    let m ← query lastOpened
    handOut m
    pure (.marker m)
  | .foreign depth => do
    handOut ⟨depth⟩
    pure .done
  | .get handle => do
    .position <$> onStack (MarkStack.get (← marker handle))
  | .release handle => do
    onStack (MarkStack.release (← marker handle))
    pure .done
  | .isOpen handle => do
    let m ← marker handle
    .flag <$> query fun s => s.isOpen m
  | .depthOf handle => do
    .number <$> (Marker.depth <$> marker handle)
  | .compare left right => do
    let a ← marker left
    let b ← marker right
    pure (.order (Ord.compare a.depth b.depth))

end Workbench

/-- One step of a run: the answer or what stopped it, the depth and the number of allocated slots after
it. -/
structure Step where
  result : Except Stop Reply
  depth : Nat
  allocated : Nat

/-- Carries out commands one after another, each on the state that the one before has left. -/
def Workbench.run (w : Workbench) : List Command → List Step
  | [] => []
  | command :: commands =>
    match perform command w #[] with
    | ⟨result, w, _⟩ => ⟨result, w.stack.depth, w.stack.allocated⟩ :: run w commands

end Backtrack.MarkStack

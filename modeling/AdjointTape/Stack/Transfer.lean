import AdjointTape.Stack.Cursor

/-!
# Pushing and popping bytes under repeat levels

A repeat level protects the bytes below its `freePush`.  A protected push that would write there is
redirected to `freePush` and leaves the redirect open in `backPop`; a protected pop that lands on
`freePush` again closes the redirect and goes back.  Unprotected transfers ignore the levels.
-/

namespace AdjointTape.ByteStack

/-- The `freePush` of the active level, if the cursor lies below it. -/
def redirectTarget? (s : ByteStack) : Option Location :=
  match s.levels with
  | [] => none
  | level :: _ => if s.location < level.freePush then some level.freePush else none

/-- Where a push will write. -/
def writeStart (isProtected : Bool) (s : ByteStack) : Location :=
  if isProtected then s.redirectTarget?.getD s.location else s.location

/-- Makes sure that the blocks below a location exist. -/
def reserve (l : Location) : Action ByteStack Unit := do
  let blockSize ← Action.inspect blockSize
  onChain (Chain.ensure (blocksBelow blockSize l))

/-- Records the cursor as the place to come back to. -/
def openRedirect (s : ByteStack) : ByteStack :=
  { s with
    levels :=
      match s.levels with
      | [] => []
      | level :: outer => { level with backPop := some s.location } :: outer }

/-- Moves a cursor out of the region that the active level protects. -/
def redirect : Action ByteStack Unit := do
  match ← Action.inspect redirectTarget? with
  | none => pure ()
  | some freePush =>
    Action.update openRedirect
    seek freePush

/-- Counts bytes of a protected push. -/
def countTraffic (bytes : Nat) (s : ByteStack) : ByteStack :=
  { s with traffic := s.traffic + UInt64.ofNat bytes }

/-- Puts `data` on the stack.  Nothing changes when the chain cannot grow as far as needed. -/
def pushBytes (data : List UInt8) (isProtected : Bool) : Action ByteStack Unit := do
  let start ← Action.inspect (writeStart isProtected)
  reserve (start + data.length)
  if isProtected then
    redirect
    Action.update (countTraffic data.length)
  let hops ← Action.inspect (·.chain.size)
  copyIn hops data

/-- The `backPop` of the active level, if its redirect is open and the cursor is on its
`freePush`. -/
def rejoinTarget? (s : ByteStack) : Option Location :=
  match s.levels with
  | [] => none
  | level :: _ => if s.location = level.freePush then level.backPop else none

/-- Forgets the redirect of the active level. -/
def closeRedirect (s : ByteStack) : ByteStack :=
  { s with
    levels :=
      match s.levels with
      | [] => []
      | level :: outer => { level with backPop := none } :: outer }

/-- Goes back to the protected bytes once what was redirected is consumed. -/
def rejoin : Action ByteStack Unit := do
  match ← Action.inspect rejoinTarget? with
  | none => pure ()
  | some backPop =>
    Action.update closeRedirect
    seek backPop

/-- Takes the topmost `count` bytes.  Nothing changes when there are fewer. -/
def popBytes (count : Nat) (isProtected : Bool) : Action ByteStack (List UInt8) := do
  let available ← Action.inspect location
  if available < count then throw (.popUnderflow count available)
  let hops ← Action.inspect (·.chain.size)
  let bytes ← copyOut hops count []
  if isProtected then rejoin
  return bytes

end AdjointTape.ByteStack

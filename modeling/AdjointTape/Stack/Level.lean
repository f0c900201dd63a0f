import AdjointTape.Stack.Transfer

/-!
# Opening, restarting and closing repeat levels

A level is opened in two phases: `beginRepeat` notes where replays resume, and whatever is pushed
until `commitRepeat` becomes part of the protected region.
-/

namespace AdjointTape

/-- A level that knows where its replays resume but is not active yet. -/
structure PendingLevel where
  resume : Location
  deriving DecidableEq

namespace ByteStack

/-- First phase of opening a level.  A cursor inside the enclosing level's protected region moves to
that level's `freePush`, so that what is recorded next overwrites nothing. -/
def beginRepeat : Action ByteStack PendingLevel := do
  let resume ← Action.inspect location
  match ← Action.inspect redirectTarget? with
  | none => pure ()
  | some freePush => seek freePush
  return { resume }

/-- Makes a level the active one. -/
def openLevel (level : RepeatLevel) (s : ByteStack) : ByteStack :=
  { s with levels := level :: s.levels }

/-- Second phase of opening a level: all bytes below the cursor become protected. -/
def commitRepeat (pending : PendingLevel) : Action ByteStack Unit := do
  let freePush ← Action.inspect location
  seek pending.resume
  Action.update (openLevel { resume := pending.resume, freePush, backPop := none })

/-- Drops a pending level and returns to where it began. -/
def abandonRepeat (pending : PendingLevel) : Action ByteStack Unit :=
  seek pending.resume

/-- First phase of restarting the active level: an open redirect is forgotten and the cursor goes to
`freePush`. -/
def beginReset : Action ByteStack Unit := do
  match ← Action.inspect active? with
  | none => throw (.noActiveRepeat .resetRepeat)
  | some level =>
    Action.update closeRedirect
    seek level.freePush

/-- Second phase of restarting the active level: back to `resume`. -/
def finishReset : Action ByteStack Unit := do
  match ← Action.inspect active? with
  | none => throw (.noActiveRepeat .resetRepeat)
  | some level => seek level.resume

/-- Makes the enclosing level the active one. -/
def dropLevel (s : ByteStack) : ByteStack := { s with levels := s.levels.tail }

/-- Closes the active level and returns it.  Its own open redirect is followed back; if that leaves
the cursor on the enclosing level's `freePush` with a redirect open there, that one is too. -/
def endRepeat : Action ByteStack RepeatLevel := do
  match ← Action.inspect active? with
  | none => throw (.noActiveRepeat .endRepeat)
  | some level =>
    Action.update dropLevel
    match level.backPop with
    | none => pure ()
    | some backPop => seek backPop
    rejoin
    return level

end ByteStack

end AdjointTape

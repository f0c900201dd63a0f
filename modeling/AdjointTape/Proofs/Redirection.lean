import AdjointTape.Proofs.Agreement
import AdjointTape.Proofs.Undamaged

/-!
# A redirect is a plain stack of bytes

A protected push below the `freePush` of the active level jumps there, and the protected pops that
take off again what was pushed lead back.  In between the bytes from `freePush` on are a stack of
their own: its end is where the cursor is, and the place that the jump left is kept in `backPop`.
The jump back is told by the cursor being on `freePush`, which no pop misses, whatever lengths the
pushes had; a transfer of no bytes may make either jump too.
-/

open AdjointTape.Action

namespace AdjointTape

/-- Protected pushes and pops with what a plain stack of bytes, empty at first, answers to them, and
the bytes that are left on it.  No pop asks for more than there is. -/
inductive Transfers : List StackCall → List StackAnswer → List UInt8 → Prop where
  | none : Transfers [] [] []
  | push {calls : List StackCall} {answers : List StackAnswer} {pile : List UInt8}
    (before : Transfers calls answers pile) (data : List UInt8) :
    Transfers (calls ++ [.pushBytes data true]) (answers ++ [.unit]) (pile ++ data)
  | pop {calls : List StackCall} {answers : List StackAnswer} {pile data : List UInt8}
    (before : Transfers calls answers (pile ++ data)) :
    Transfers (calls ++ [.popBytes data.length true]) (answers ++ [.bytes data]) pile

namespace FlatStack

/-- A stack that protected transfers lead to from `home`, while `pile` is what was pushed and not
popped.  It is away when the redirect of the active level is open, and then it ends with the pile;
else there is no pile. -/
structure Detour (home s : FlatStack) (level : RepeatLevel) (outer : List RepeatLevel)
    (away : Bool) (pile : List UInt8) : Prop where
  cursor : s.cursor = if away then level.freePush + pile.length else home.cursor
  levels : s.levels = { level with backPop := if away then some home.cursor else none } :: outer
  straight : away = false → pile = []
  pile : s.bytes.read level.freePush pile.length = pile
  bytes : ∀ l < level.freePush, s.bytes l = home.bytes l

namespace Detour

variable {home s : FlatStack} {level : RepeatLevel} {outer : List RepeatLevel} {away : Bool}
  {pile data : List UInt8}

/-- A stack without an open redirect is at home. -/
lemma start (levels : home.levels = level :: outer) (straight : level.backPop = none) :
    Detour home home level outer false [] := by
  refine ⟨rfl, ?_, fun _ => rfl, rfl, fun _ _ => rfl⟩
  rw [levels, if_neg Bool.false_ne_true, ← straight]

/-- A redirect leads to the end of the pile, whether it was open before or not. -/
lemma redirected (detour : Detour home s level outer away pile)
    (below : home.cursor < level.freePush) :
    s.redirected.cursor = level.freePush + pile.length ∧
      s.redirected.levels = { level with backPop := some home.cursor } :: outer := by
  have cursor := detour.cursor
  have levels := detour.levels
  cases away with
  | false =>
    obtain rfl := detour.straight rfl
    rw [if_neg Bool.false_ne_true] at cursor
    rw [redirected_of_lt levels (cursor ▸ below), cursor]
    exact ⟨rfl, rfl⟩
  | true =>
    rw [if_pos rfl] at cursor levels
    have above : floor s.levels ≤ s.cursor := by
      rw [levels, cursor]
      exact Nat.le_add_right _ _
    rw [redirected_of_le above]
    exact ⟨cursor, levels⟩

/-- A push below the active `freePush` adds to the pile and is away. -/
lemma pushed (detour : Detour home s level outer away pile)
    (below : home.cursor < level.freePush) (data : List UInt8) :
    Detour home (s.pushed data true) level outer true (pile ++ data) := by
  obtain ⟨cursor, levels⟩ := detour.redirected below
  have bytes : (s.pushed data true).bytes = s.bytes.write (level.freePush + pile.length) data := by
    rw [bytes_pushed, FlatStack.start, if_pos rfl, cursor]
  refine ⟨?_, levels, fun home => Bool.noConfusion home, ?_, fun l low => ?_⟩
  · rw [cursor_pushed, FlatStack.start, if_pos rfl, cursor, if_pos rfl, List.length_append,
      Nat.add_assoc]
  · rw [bytes, List.length_append, ← ByteMap.read_append, ByteMap.read_write,
      ByteMap.read_write_below _ _ (Nat.le_refl _), detour.pile]
  · rw [bytes, ByteMap.write_below _ _ (Nat.lt_of_lt_of_le low (Nat.le_add_right _ _)),
      detour.bytes l low]

/-- A pop takes the end of the pile, and leads back when nothing is left of it. -/
lemma popped (detour : Detour home s level outer away (pile ++ data)) :
    pop data.length true s = .ok data (s.popped data.length true) ∧
      Detour home (s.popped data.length true) level outer (!pile.isEmpty) pile := by
  obtain ⟨cursor, levels, straight, bytes, below⟩ := detour
  cases away with
  | false =>
    -- no redirect is open, so nothing is asked for, and no jump is made
    obtain ⟨rfl, rfl⟩ := List.append_eq_nil_iff.1 (straight rfl)
    have stays : s.popped ([] : List UInt8).length true = s := by
      change s.rejoined = s
      refine rejoined_of_straight fun x mem => ?_
      rw [levels] at mem
      exact Option.some.inj mem ▸ rfl
    have run : pop ([] : List UInt8).length true s = .ok _ _ := if_neg (Nat.not_lt_zero _)
    rw [run, stays]
    exact ⟨rfl, cursor, levels, straight, bytes, below⟩
  | true =>
    rw [if_pos rfl, List.length_append] at cursor
    rw [List.length_append, ← ByteMap.read_append] at bytes
    obtain ⟨rest, last⟩ := List.append_inj bytes (ByteMap.length_read _ _ _)
    have left : s.cursor - data.length = level.freePush + pile.length := by
      rw [cursor, ← Nat.add_assoc, Nat.add_sub_cancel]
    constructor
    · rw [pop, if_neg (Nat.not_lt.2 (by lia)), top, left, last]
    · have popped : s.popped data.length true =
        (s.seek (level.freePush + pile.length)).rejoined := by rw [← left]; rfl
      rw [popped]
      -- the cursor is on `freePush` when the pile is empty, and only then
      cases pile with
      | nil =>
        rw [List.length_nil, Nat.add_zero,
          rejoined_of_eq (s := s.seek level.freePush) levels rfl rfl]
        exact ⟨rfl, rfl, fun _ => rfl, rfl, below⟩
      | cons byte bytes =>
        rw [rejoined_of_ne fun x mem _ => ?_]
        · exact ⟨rfl, levels, fun home => Bool.noConfusion home, rest, below⟩
        · have same : { level with backPop := _ } = x := Option.some.inj (levels ▸ mem)
          subst same
          exact Nat.ne_of_gt (Nat.lt_add_of_pos_right (Nat.zero_lt_succ _))

end Detour

end FlatStack

namespace FlatSession

variable {s : FlatSession}

/-- A byte string is pushed where there is room. -/
lemma pushBytes_eq {data : List UInt8} {isProtected : Bool}
    (room : ranOut (outcome ((StackCall.pushBytes data isProtected).performFlat s)) = false) :
    (StackCall.pushBytes data isProtected).performFlat s =
      .ok .unit { s with stack := s.stack.pushed data isProtected } := by
  obtain run | ⟨blocks, blockSize, full⟩ := s.stack.push_cases data isProtected
  · have first : onStack (FlatStack.push data isProtected) s =
        .ok () { s with stack := s.stack.pushed data isProtected } := by rw [onStack, run]
    exact bind_ok first
  · have first : onStack (FlatStack.push data isProtected) s =
        .error (.outOfMemory blocks blockSize) s := by rw [onStack, full]
    have fails : (StackCall.pushBytes data isProtected).performFlat s =
        .error (.outOfMemory blocks blockSize) s := bind_error first
    rw [fails] at room
    cases room

/-- A byte string is popped as it is on the stack. -/
lemma popBytes_eq {count : Nat} {isProtected : Bool} {data : List UInt8} {stack : FlatStack}
    (run : FlatStack.pop count isProtected s.stack = .ok data stack) :
    (StackCall.popBytes count isProtected).performFlat s = .ok (.bytes data) { s with stack } := by
  have first : onStack (FlatStack.pop count isProtected) s = .ok data { s with stack } := by
    rw [onStack, run]
  exact bind_ok first

/-- The induction is on the transfers, the last one taken off. -/
lemma run_transfers {level : RepeatLevel} {outer : List RepeatLevel}
    (levels : s.stack.levels = level :: outer) (straight : level.backPop = none)
    (below : s.stack.cursor < level.freePush) {calls : List StackCall} {answers : List StackAnswer}
    {pile : List UInt8} (transfers : Transfers calls answers pile)
    (room : ∀ o ∈ (runAll StackCall.performFlat calls s).1, ranOut o = false) :
    (runAll StackCall.performFlat calls s).1 = answers.map .ok ∧
      ∃ away, (away = true ↔ pile ≠ [] ∨ calls.getLast? = some (.pushBytes [] true)) ∧
        s.stack.Detour (runAll StackCall.performFlat calls s).2.stack level outer away pile := by
  induction transfers with
  | none => exact ⟨rfl, false, by simp, .start levels straight⟩
  | @push calls answers pile before data ih =>
    simp only [runAll_append, runAll_cons, runAll_nil] at room ⊢
    obtain ⟨answered, away, -, detour⟩ := ih fun o mem => room o (List.mem_append_left _ mem)
    have last := pushBytes_eq (room _ (List.mem_append_right _ List.mem_cons_self))
    rw [last, answered]
    refine ⟨by simp [outcome], true, ?_, detour.pushed below data⟩
    -- a push leaves no redirect closed: either it left bytes or it had none
    cases data with
    | nil => simp
    | cons byte rest => simp
  | @pop calls answers pile data before ih =>
    simp only [runAll_append, runAll_cons, runAll_nil] at room ⊢
    obtain ⟨answered, away, -, detour⟩ := ih fun o mem => room o (List.mem_append_left _ mem)
    obtain ⟨run, detour'⟩ := detour.popped
    rw [popBytes_eq run, answered]
    exact ⟨by simp [outcome], !pile.isEmpty, by simp, detour'⟩

end FlatSession

namespace StackSession

/-- A session that protected transfers lead to from `home`, where `last` is the last one and `pile`
what was pushed and not popped.  While there is a pile it lies from the `freePush` of the active
level up to the cursor, and `backPop` is the place to go back to; without one the cursor is back in
that place and no redirect is open, except behind a push of no bytes.  Nothing else has changed in
the levels, and no byte below `freePush`. -/
structure Detour (home s : StackSession) (level : RepeatLevel) (outer : List RepeatLevel)
    (last : Option StackCall) (pile : List UInt8) : Prop where
  back : pile = [] → last ≠ some (.pushBytes [] true) →
    s.stack.location = home.stack.location ∧ s.stack.levels = level :: outer
  away : pile ≠ [] ∨ last = some (.pushBytes [] true) →
    s.stack.location = level.freePush + pile.length ∧
      s.stack.levels = { level with backPop := some home.stack.location } :: outer
  pile : s.stack.chain.bytes.read level.freePush pile.length = pile
  bytes : ∀ l < level.freePush, s.stack.chain.bytes l = home.stack.chain.bytes l

end StackSession

/-- A redirect cannot be seen in the answers. From every session whose cursor lies below what the
active level protects, protected pushes and pops of any lengths, as long as no more is popped than
was pushed, answer what a plain stack of bytes answers, and after each of them that stack is what
lies from `freePush` on. This is asked only where memory does not run out. -/
theorem redirect_is_a_plain_stack {blockSize : Nat} {s : StackSession} (positive : 0 < blockSize)
    (reachable : s.Reachable blockSize) {level : RepeatLevel} {outer : List RepeatLevel}
    (levels : s.stack.levels = level :: outer) (straight : level.backPop = none)
    (below : s.stack.location < level.freePush) {calls : List StackCall}
    {answers : List StackAnswer} {pile : List UInt8} (transfers : Transfers calls answers pile)
    (room : ∀ o ∈ (runAll StackCall.perform calls s).1, ranOut o = false) :
    (runAll StackCall.perform calls s).1 = answers.map .ok ∧
      s.Detour (runAll StackCall.perform calls s).2 level outer calls.getLast? pile := by
  obtain ⟨wf, -⟩ := reachable.wellFormed positive
  obtain ⟨-, same, view⟩ := Commutes.all StackSession.perform_commutes calls wf
  rw [same] at room ⊢
  obtain ⟨answered, away, bent, detour⟩ :=
    FlatSession.run_transfers (s := s.flat) levels straight below transfers room
  rw [← view] at detour
  refine ⟨answered, fun none notNil => ?_, fun some => ?_, detour.pile, detour.bytes⟩
  · obtain rfl : away = false := by
      rw [← Bool.not_eq_true, bent]
      exact fun some => some.elim (absurd none) notNil
    refine ⟨detour.cursor, detour.levels.trans ?_⟩
    rw [if_neg Bool.false_ne_true, ← straight]
  · obtain rfl := bent.2 some
    exact ⟨detour.cursor, detour.levels⟩

/-- Blocks of two bytes and an outer level with an open redirect: the redirect of the inner level
opens twice, pops do not match pushes, and a push of no bytes comes last. -/
theorem redirect_is_a_plain_stack_across_blocks :
    ∃ s : StackSession, s.Reachable 2 ∧
      let level : RepeatLevel := ⟨5, 6, none⟩
      let outer : List RepeatLevel := [⟨3, 3, some 2⟩]
      let calls : List StackCall := [.pushBytes [5, 6, 7] true, .pushBytes [8] true,
        .popBytes 2 true, .popBytes 0 true, .popBytes 2 true, .popBytes 0 true, .pushBytes [] true]
      let answers : List StackAnswer := [.unit, .unit, .bytes [7, 8], .bytes [], .bytes [5, 6],
        .bytes [], .unit]
      0 < 2 ∧ s.stack.levels = level :: outer ∧ level.backPop = none ∧
        s.stack.location < level.freePush ∧ Transfers calls answers [] ∧
        (∀ o ∈ (runAll StackCall.perform calls s).1, ranOut o = false) ∧
        (runAll StackCall.perform calls s).1 = answers.map .ok ∧
        s.Detour (runAll StackCall.perform calls s).2 level outer calls.getLast? [] := by
  have created : StackSession.create 2 none = .ok _ := rfl
  have reachable := (StackSession.Reachable.create created).run [.pushBytes [1, 2, 3] true,
    .beginRepeat, .commitRepeat 0, .popBytes 1 true, .pushBytes [4, 4] true, .beginRepeat,
    .pushBytes [9] false, .commitRepeat 1, .popBytes 1 true]
  let calls : List StackCall := [.pushBytes [5, 6, 7] true, .pushBytes [8] true,
    .popBytes 2 true, .popBytes 0 true, .popBytes 2 true, .popBytes 0 true, .pushBytes [] true]
  obtain ⟨s, reachable, levels, below, room⟩ : ∃ s : StackSession, s.Reachable 2 ∧
      s.stack.levels = [⟨5, 6, none⟩, ⟨3, 3, some 2⟩] ∧ s.stack.location < 6 ∧
        ∀ o ∈ (runAll StackCall.perform calls s).1, ranOut o = false :=
    ⟨_, reachable, by decide +kernel, by decide +kernel, by decide +kernel⟩
  have pushed : Transfers _ _ ([5, 6] ++ [7, 8]) := .push (.push .none [5, 6, 7]) [8]
  have half : Transfers _ _ ([5, 6] ++ []) := .pop pushed
  have whole : Transfers _ _ ([] ++ [5, 6]) := .pop half
  have nothing : Transfers _ _ ([] ++ []) := .pop whole
  have transfers : Transfers calls _ [] := .push (.pop nothing) []
  exact ⟨s, reachable, Nat.two_pos, levels, rfl, below, transfers, room,
    redirect_is_a_plain_stack Nat.two_pos reachable levels rfl below transfers room⟩

end AdjointTape

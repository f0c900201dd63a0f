import AdjointTape.Proofs.TapeView
import AdjointTape.Proofs.Texts
import AdjointTape.Tape.Listing
import Mathlib.Data.List.Nodup

/-!
# Reading a listing back

The listing of a tape shows all that is on its blocks and in its levels.  Ranks stand in brackets,
bytes are two digits each, and the only bar in the blocks stands behind as many bytes as there are
below the cursor; so the bytes and the cursor can be read off.  What separates levels and their
locations is in none of them, so these can be read off, too.
-/

namespace AdjointTape

/-! ## Bytes -/

/-- The value of a hexadecimal digit. -/
def hexDigit (c : Char) : Nat :=
  if c.isDigit then c.toNat - '0'.toNat else c.toNat - 'a'.toNat + 10

/-- Where a reader of a listing of blocks is: in the brackets around a rank, between bytes, or in
the middle of a byte behind its first digit. -/
inductive ReaderPlace where
  | rank
  | between
  | byte (high : Char)

/-- The bytes that a listing of blocks shows from a place on: ranks are skipped, and so is what
separates bytes. -/
def shownBytes : ReaderPlace → List Char → List UInt8
  | _, [] => []
  | .rank, c :: rest => shownBytes (if c = ']' then .between else .rank) rest
  | .between, c :: rest =>
    if c = '[' then shownBytes .rank rest
    else if c = ' ' ∨ c = '.' ∨ c = '\n' then shownBytes .between rest
    else shownBytes (.byte c) rest
  | .byte high, low :: rest =>
    UInt8.ofNat (16 * hexDigit high + hexDigit low) :: shownBytes .between rest

/-- A text of a listing without a bar, before the levels, with the bytes that it shows and the
number of lines that it ends. -/
structure Shows (text : List Char) (bytes : List UInt8) (lines : Nat) : Prop where
  bar : '|' ∉ text
  heading : 'R' ∉ text
  breaks : text.count '\n' = lines
  reads : ∀ rest, shownBytes .between (text ++ rest) = bytes ++ shownBytes .between rest

namespace Shows

variable {text text' : List Char} {bytes bytes' : List UInt8} {lines lines' : Nat}

/-- The bytes that a text shows by itself. -/
lemma bytes_eq (plain : Shows text bytes lines) : shownBytes .between text = bytes := by
  have reads := plain.reads []
  rw [List.append_nil] at reads
  exact reads.trans (List.append_nil bytes)

/-- The empty text shows nothing. -/
lemma nil : Shows [] [] 0 := ⟨List.not_mem_nil, List.not_mem_nil, rfl, fun _ => rfl⟩

/-- One text behind another one shows the bytes of both. -/
lemma append (first : Shows text bytes lines) (next : Shows text' bytes' lines') :
    Shows (text ++ text') (bytes ++ bytes') (lines + lines') where
  bar mem := (List.mem_append.1 mem).elim first.bar next.bar
  heading mem := (List.mem_append.1 mem).elim first.heading next.heading
  breaks := by rw [List.count_append, first.breaks, next.breaks]
  reads rest := by rw [List.append_assoc, first.reads, next.reads, List.append_assoc]

/-- Texts for the elements of a list show the bytes of all of them. -/
lemma flatMap {α : Type} {f : α → List Char} {g : α → List UInt8} {xs : List α}
    (each : ∀ x ∈ xs, Shows (f x) (g x) lines) :
    Shows (xs.flatMap f) (xs.flatMap g) (xs.length * lines) := by
  induction xs with
  | nil =>
    rw [List.length_nil, Nat.zero_mul]
    exact nil
  | cons x xs ih =>
    have next := (each x List.mem_cons_self).append
      (ih fun y mem => each y (List.mem_cons_of_mem x mem))
    rw [List.length_cons, Nat.succ_mul, Nat.add_comm]
    exact next

/-- What separates bytes shows none. -/
lemma point : Shows ['.'] [] 0 := ⟨by decide, by decide, rfl, fun _ => rfl⟩

/-- A new line shows nothing. -/
lemma line : Shows ("\n" ++ listingMargin).toList [] 1 := by
  have margin : ("\n" ++ listingMargin).toList = '\n' :: List.replicate 8 ' ' := by
    rw [listingMargin, String.toList_append]
    rfl
  rw [margin]
  exact ⟨by decide, by decide, rfl, fun _ => rfl⟩

end Shows

/-- The brackets around a rank show nothing. -/
lemma shownBytes_rank {digits : List Char} (clear : ']' ∉ digits) (rest : List Char) :
    shownBytes .rank (digits ++ ']' :: rest) = shownBytes .between rest := by
  induction digits with
  | nil => rfl
  | cons c digits ih =>
    have other : c ≠ ']' := fun same => clear (same ▸ List.mem_cons_self)
    rw [List.cons_append, shownBytes, if_neg other]
    exact ih fun mem => clear (List.mem_cons_of_mem c mem)

/-- A rank shows none, either. -/
lemma Shows.rank (n : Nat) : Shows ("[" ++ toString n ++ "] ").toList [] 0 := by
  have clear {c : Char} (other : c.isDigit = false) : c ∉ (toString n).toList := fun mem => by
    rw [isDigit_of_mem_number mem] at other
    cases other
  rw [String.toList_append, String.toList_append]
  generalize (toString n).toList = digits at clear
  have bar : '|' ∉ digits := clear rfl
  have heading : 'R' ∉ digits := clear rfl
  have breaks : digits.count '\n' = 0 := List.count_eq_zero.2 (clear rfl)
  refine ⟨by simp [bar], by simp [heading], by simp [breaks], fun rest => ?_⟩
  rw [List.append_assoc, List.append_assoc]
  exact shownBytes_rank (clear rfl) (' ' :: rest)

/-- The digits of a byte are none of the characters that a listing sets it off with. -/
lemma digitChar_spec : ∀ d < 16, hexDigit d.digitChar = d ∧ d.digitChar ≠ '[' ∧
    ¬ (d.digitChar = ' ' ∨ d.digitChar = '.' ∨ d.digitChar = '\n') ∧
    d.digitChar ≠ '|' ∧ d.digitChar ≠ 'R' := by
  decide

/-- Two digits show the byte that they spell. -/
lemma Shows.byte (byte : UInt8) : Shows (hexText 2 byte.toNat).toList [byte] 0 := by
  have small := byte.toNat_lt
  obtain ⟨high, rank, gap, bar, heading⟩ := digitChar_spec (byte.toNat / 16) (by omega)
  obtain ⟨low, -, gap', bar', heading'⟩ := digitChar_spec (byte.toNat % 16) (by omega)
  rw [toList_hexText]
  refine ⟨?_, ?_, ?_, fun rest => ?_⟩
  · simp [bar.symm, bar'.symm]
  · simp [heading.symm, heading'.symm]
  · refine List.count_eq_zero.2 fun mem => ?_
    obtain same | same := List.mem_pair.1 mem
    · exact gap (.inr (.inr same.symm))
    · exact gap' (.inr (.inr same.symm))
  · rw [List.cons_append, shownBytes, if_neg rank, if_neg gap, List.cons_append, shownBytes, high,
      low, Nat.div_add_mod, UInt8.ofNat_toNat]
    rfl

/-! ## The bar -/

/-- A text of a listing with a single bar, with the bytes before and behind it and the number of
lines that end before it. -/
def Barred (text : List Char) (before behind : List UInt8) (lines : Nat) : Prop :=
  ∃ pre post more, text = pre ++ cursorBar.toList ++ post ∧ Shows pre before lines ∧
    Shows post behind more

namespace Barred

variable {text text' : List Char} {before behind bytes : List UInt8} {lines lines' : Nat}

/-- The bar by itself has nothing before it and nothing behind it. -/
lemma bar : Barred cursorBar.toList [] [] 0 :=
  ⟨[], [], 0, (List.append_nil _).symm, .nil, .nil⟩

/-- What stands before a text with a bar comes before the bar. -/
lemma after (barred : Barred text before behind lines) (plain : Shows text' bytes lines') :
    Barred (text' ++ text) (bytes ++ before) behind (lines' + lines) := by
  obtain ⟨pre, post, more, rfl, first, last⟩ := barred
  exact ⟨text' ++ pre, post, more, by simp only [List.append_assoc], plain.append first, last⟩

/-- What stands behind a text with a bar comes behind the bar. -/
lemma followed (barred : Barred text before behind lines) (plain : Shows text' bytes lines') :
    Barred (text ++ text') before (behind ++ bytes) lines := by
  obtain ⟨pre, post, more, rfl, first, last⟩ := barred
  exact ⟨pre, post ++ text', _, by simp only [List.append_assoc], first, last.append plain⟩

/-- Texts in lines of their own, one of them with a bar. -/
lemma intercalate {α : Type} {f : α → List Char} {g : α → List UInt8} {below above : List α} {x : α}
    (low : ∀ y ∈ below, Shows (f y) (g y) 0) (here : Barred (f x) before behind 0)
    (high : ∀ y ∈ above, Shows (f y) (g y) 0) :
    Barred (("\n" ++ listingMargin).toList.intercalate ((below ++ x :: above).map f))
      (below.flatMap g ++ before) (behind ++ above.flatMap g) below.length := by
  have first := Shows.flatMap fun y mem => (low y mem).append .line
  have last := Shows.flatMap fun y mem => Shows.line.append (high y mem)
  have barred := (here.after first).followed last
  simp only [List.append_nil, List.nil_append, Nat.add_zero, Nat.zero_add, Nat.mul_one] at barred
  rw [List.map_append, List.map_cons, intercalate_append_cons, List.flatMap_map, List.flatMap_map]
  exact barred

end Barred

/-! ## Blocks -/

/-- A place on a block other than the start of a block behind the first one is a seat. -/
lemma ByteStack.seat_of_eq {blockSize rank offset : Nat} {l : Location} (positive : 0 < blockSize)
    (here : l = rank * blockSize + offset) (within : offset ≤ blockSize)
    (lower : offset = 0 → rank = 0) : seat blockSize l = (rank, offset) := by
  subst here
  rw [seat, Nat.mul_comm]
  by_cases first : offset = 0
  · rw [first, lower first]
    rfl
  rw [if_neg (by lia)]
  obtain inside | rfl := Nat.lt_or_eq_of_le within
  · have remainder : (blockSize * rank + offset) % blockSize = offset := by
      rw [Nat.mul_add_mod, Nat.mod_eq_of_lt inside]
    rw [remainder, if_neg first, Nat.mul_add_div positive, Nat.div_eq_of_lt inside, Nat.add_zero]
  · rw [← Nat.mul_succ, Nat.mul_mod_right, if_pos rfl, Nat.mul_div_cancel_left _ positive]
    rfl

/-- Only in the first block is the start of a block a seat. -/
lemma ByteStack.seat_lower {blockSize : Nat} {l : Location} (positive : 0 < blockSize)
    (start : (seat blockSize l).2 = 0) : (seat blockSize l).1 = 0 := by
  rw [seat] at start ⊢
  split
  case isTrue => rfl
  case isFalse zero =>
    rw [if_neg zero] at start
    split at start
    case isTrue => exact absurd start (Nat.ne_of_gt positive)
    case isFalse inside => exact absurd start inside

/-- A cursor is on the block of the byte below it. -/
lemma ByteStack.seat_fst {blockSize : Nat} (positive : 0 < blockSize) (l : Location) :
    (seat blockSize l).1 = (l - 1) / blockSize := by
  have spells := seat_spells blockSize l
  have top := seat_top l positive
  have lower := seat_lower (l := l) positive
  generalize seat blockSize l = place at spells top lower
  obtain ⟨rank, offset⟩ := place
  refine (Nat.div_eq_of_lt_le ?_ ?_).symm
  · by_cases start : offset = 0
    · rw [lower start, Nat.zero_mul]
      exact Nat.zero_le _
    · dsimp only at spells ⊢
      omega
  · dsimp only at spells top ⊢
    rw [Nat.succ_mul]
    omega

namespace Block

variable {cursor start : Location} {byte : UInt8} {bytes : List UInt8} {offset : Nat}

/-- A separator shows nothing. -/
lemma separated (offset : Nat) :
    Shows (if offset ≠ 0 ∧ offset % 4 = 0 then "." else "").toList [] 0 := by
  split
  case isTrue => exact .point
  case isFalse => exact .nil

/-- A byte that the bar does not come before. -/
lemma byteText_shows (away : ¬ (cursor = start + offset ∧ ¬ (offset = 0 ∧ 0 < start))) :
    Shows (byteText cursor start byte offset).toList [byte] 0 := by
  rw [byteText, if_neg away, String.toList_append, String.toList_append]
  exact ((separated offset).append .nil).append (.byte byte)

/-- The byte that the bar comes before. -/
lemma byteText_barred (here : cursor = start + offset ∧ ¬ (offset = 0 ∧ 0 < start)) :
    Barred (byteText cursor start byte offset).toList [] [byte] 0 := by
  rw [byteText, if_pos here, String.toList_append, String.toList_append]
  exact (Barred.bar.after (separated offset)).followed (.byte byte)

/-- The listing of bytes from an offset on. -/
def row (cursor start : Location) (bytes : List UInt8) (offset : Nat) : List Char :=
  (bytes.zipIdx offset).flatMap fun (byte, offset) => (byteText cursor start byte offset).toList

/-- The first byte is listed, and then the others. -/
lemma row_cons : row cursor start (byte :: bytes) offset =
    (byteText cursor start byte offset).toList ++ row cursor start bytes (offset + 1) := by
  rw [row, List.zipIdx_cons, List.flatMap_cons]
  rfl

/-- A row that the cursor is not in shows its bytes. -/
lemma row_shows (away : ∀ i, offset ≤ i → i < offset + bytes.length →
    ¬ (cursor = start + i ∧ ¬ (i = 0 ∧ 0 < start))) :
    Shows (row cursor start bytes offset) bytes 0 := by
  induction bytes generalizing offset with
  | nil => exact .nil
  | cons byte rest ih =>
    rw [List.length_cons] at away
    rw [row_cons]
    exact (byteText_shows (away offset (Nat.le_refl _) (by omega))).append
      (ih fun i low high => away i (by omega) (by omega))

/-- A row that the cursor is in has the bar at its place. -/
lemma row_barred {place : Nat} (inside : place < bytes.length)
    (here : cursor = start + (offset + place)) (first : offset + place = 0 → start = 0) :
    Barred (row cursor start bytes offset) (bytes.take place) (bytes.drop place) 0 := by
  induction bytes generalizing offset place with
  | nil => exact absurd inside (Nat.not_lt_zero _)
  | cons byte rest ih =>
    rw [row_cons]
    cases place with
    | zero =>
      exact (byteText_barred ⟨here, fun start => by lia⟩).followed
        (row_shows fun i low _ => by lia)
    | succ place =>
      rw [List.length_cons] at inside
      rw [Nat.add_succ, ← Nat.succ_add] at here first
      have next := ih (Nat.lt_of_succ_lt_succ inside) here first
      exact next.after (byteText_shows (by lia))

variable {blockSize : Nat} {b : Block}

/-- A block is listed as its rank, its bytes and the bar if the cursor is held at its end. -/
lemma toList_text : (b.text blockSize cursor).toList =
    ("[" ++ toString b.rank ++ "] ").toList ++
      row cursor (b.rank * blockSize) b.contents.toList 0 ++
      (if cursor = b.rank * blockSize + blockSize then cursorBar else "").toList := by
  rw [text, String.toList_append, String.toList_append, String.toList_join, List.flatMap_map]
  rfl

section Placed

variable (size : b.contents.size = blockSize) (positive : 0 < blockSize)
include size positive

/-- A block that the cursor is not on. -/
lemma text_shows (away : (ByteStack.seat blockSize cursor).1 ≠ b.rank) :
    Shows (b.text blockSize cursor).toList b.contents.toList 0 := by
  rw [toList_text]
  have behind : cursor ≠ b.rank * blockSize + blockSize := fun here => away <|
    congrArg Prod.fst (ByteStack.seat_of_eq positive here (Nat.le_refl _) (by omega))
  rw [if_neg behind, String.toList_empty, List.append_nil]
  refine (Shows.rank b.rank).append (row_shows fun i _ inside here => away ?_)
  rw [Array.length_toList, size, Nat.zero_add] at inside
  have lower (zero : i = 0) : b.rank = 0 :=
    Nat.eq_zero_of_not_pos fun later => here.2 ⟨zero, Nat.mul_pos later positive⟩
  exact congrArg Prod.fst (ByteStack.seat_of_eq positive here.1 (Nat.le_of_lt inside) lower)

/-- The block that the cursor is on, with the bar where the cursor is, also at its end. -/
lemma text_barred (here : (ByteStack.seat blockSize cursor).1 = b.rank) :
    Barred (b.text blockSize cursor).toList
      (b.contents.toList.take (ByteStack.seat blockSize cursor).2)
      (b.contents.toList.drop (ByteStack.seat blockSize cursor).2) 0 := by
  have spells := ByteStack.seat_spells blockSize cursor
  have top := ByteStack.seat_top cursor positive
  have lower := ByteStack.seat_lower (l := cursor) positive
  rw [here] at spells lower
  generalize (ByteStack.seat blockSize cursor).2 = place at spells top lower ⊢
  have length : b.contents.toList.length = blockSize := by rw [Array.length_toList, size]
  rw [toList_text]
  obtain inside | rfl := Nat.lt_or_eq_of_le top
  · have before : cursor ≠ b.rank * blockSize + blockSize := by lia
    rw [if_neg before, String.toList_empty, List.append_nil]
    refine (row_barred (length ▸ inside) ?_ fun first => ?_).after (.rank b.rank)
    · rw [Nat.zero_add, spells]
    · rw [lower (by omega), Nat.zero_mul]
  · rw [if_pos spells.symm, List.take_of_length_le (Nat.le_of_eq length),
      List.drop_of_length_le (Nat.le_of_eq length)]
    have row : Shows (row cursor (b.rank * place) b.contents.toList 0) b.contents.toList 0 :=
      row_shows fun i _ inside here => by lia
    have barred := Barred.bar.after ((Shows.rank b.rank).append row)
    rw [List.nil_append, List.append_nil] at barred
    exact barred

end Placed

end Block

/-- Links lead through the blocks in order. -/
lemma Chain.WellFormed.follow_eq {c : Chain} (wf : c.WellFormed) {fuel place : Nat}
    (rest : place + fuel = c.size) :
    c.follow fuel (if place < c.size then some place else none) = c.blocks.toList.drop place := by
  induction fuel generalizing place with
  | zero =>
    rw [Nat.add_zero] at rest
    rw [List.drop_of_length_le (Nat.le_of_eq rest.symm)]
    rfl
  | succ fuel ih =>
    have inside : place < c.size := by omega
    obtain ⟨b, there, placed⟩ := wf.block inside
    have first : c.blocks.toList[place]? = some b := (Array.getElem?_toList ..).trans there
    obtain ⟨bound, here⟩ := List.getElem?_eq_some_iff.1 first
    rw [if_pos inside, Chain.follow, there, List.drop_eq_getElem_cons bound, here]
    dsimp only
    rw [placed.next, ih (by omega)]

/-- The walk through a chain meets every block, in order. -/
lemma Chain.WellFormed.toList_eq {c : Chain} (wf : c.WellFormed) :
    c.toList = c.blocks.toList := by
  have all : c.follow c.size (if 0 < c.size then some 0 else none) = c.blocks.toList.drop 0 :=
    wf.follow_eq (Nat.zero_add _)
  rw [if_pos wf.inhabited] at all
  exact all

namespace ByteStack

/-- The bytes of all blocks, in order. -/
def contents (s : ByteStack) : List UInt8 := s.chain.toList.flatMap fun b => b.contents.toList

/-- The listing of the blocks. -/
def blockTexts (s : ByteStack) : List Char :=
  ("\n" ++ listingMargin).toList.intercalate
    (s.chain.toList.map fun b => (b.text s.blockSize s.location).toList)

variable {s : ByteStack}

/-- A listing consists of the blocks and of the levels. -/
lemma toList_listing (s : ByteStack) : s.listing.toList =
    s.blockTexts ++ ("\n" ++ listingMargin).toList ++ "REPEATS:".toList ++
      (RepeatLevel.chainText s.blockSize s.levels.reverse).toList := by
  rw [listing, String.toList_append, String.toList_append, String.toList_append,
    String.toList_intercalate, List.map_map]
  rfl

/-- The block that the walk meets at a place has this place as its rank. -/
lemma WellFormed.placed (wf : s.WellFormed) {place : Nat} {b : Block}
    (there : s.chain.toList[place]? = some b) :
    b.rank = place ∧ b.contents.size = s.blockSize := by
  rw [wf.chain.toList_eq, Array.getElem?_toList] at there
  have placed := wf.chain.inPlace place b there
  exact ⟨placed.rank, placed.contents⟩

/-- The walk meets as many blocks as there are. -/
lemma WellFormed.length_toList (wf : s.WellFormed) : s.chain.toList.length = s.chain.size := by
  rw [wf.chain.toList_eq, Array.length_toList]
  rfl

/-- Links lead through the blocks in the order of their ranks. -/
lemma WellFormed.ranks (wf : s.WellFormed) :
    s.chain.toList.map Block.rank = List.range s.chain.size := by
  refine List.ext_getElem? fun place => ?_
  rw [List.getElem?_map]
  by_cases inside : place < s.chain.size
  · obtain ⟨b, there⟩ : ∃ b, s.chain.toList[place]? = some b :=
      ⟨_, List.getElem?_eq_getElem (wf.length_toList ▸ inside)⟩
    rw [there, List.getElem?_range inside, Option.map_some, (wf.placed there).1]
  · have beyond : s.chain.toList[place]? = none :=
      List.getElem?_eq_none (wf.length_toList ▸ Nat.le_of_not_lt inside)
    rw [beyond, List.getElem?_eq_none (by rw [List.length_range]; omega), Option.map_none]

/-- All blocks that the walk meets have the same size. -/
lemma WellFormed.size_of_mem (wf : s.WellFormed) {b : Block} (mem : b ∈ s.chain.toList) :
    b.contents.size = s.blockSize := by
  obtain ⟨place, there⟩ := List.mem_iff_getElem?.1 mem
  exact (wf.placed there).2

/-- The blocks below a rank, the one of that rank, and those above it. -/
lemma WellFormed.around (wf : s.WellFormed) {rank : Nat} (inside : rank < s.chain.size) :
    ∃ below b above, s.chain.toList = below ++ b :: above ∧ below.length = rank ∧ b.rank = rank ∧
      ∀ b' ∈ below ++ above, rank ≠ b'.rank := by
  rw [← wf.length_toList] at inside
  have split := (List.take_append_drop rank s.chain.toList).symm.trans
    (congrArg _ (List.drop_eq_getElem_cons inside))
  have here := (wf.placed (List.getElem?_eq_getElem inside)).1
  have distinct : (s.chain.toList.map Block.rank).Nodup := wf.ranks ▸ List.nodup_range
  rw [split, List.map_append, List.map_cons, List.nodup_middle, List.nodup_cons, here,
    ← List.map_append] at distinct
  refine ⟨_, _, _, split, List.length_take_of_le (Nat.le_of_lt inside), here, ?_⟩
  intro b' mem same
  have twice := List.mem_map_of_mem (f := Block.rank) mem
  rw [← same] at twice
  exact distinct.1 twice

/-- There is one bar in the blocks, behind as many bytes as there are below the cursor, in the line
of the byte below it. -/
lemma WellFormed.blockTexts_barred (wf : s.WellFormed) :
    Barred s.blockTexts (s.contents.take s.location) (s.contents.drop s.location)
      ((s.location - 1) / s.blockSize) := by
  have positive : 0 < s.blockSize := wf.chain.positive
  have spells := seat_spells s.blockSize s.location
  have top := seat_top s.location positive
  have inside : (seat s.blockSize s.location).1 < s.chain.size :=
    seat_rank wf.chain.inhabited wf.location_le
  obtain ⟨below, b, above, split, length, here, others⟩ := wf.around inside
  have size {b' : Block} (mem : b' ∈ below ++ b :: above) : b'.contents.size = s.blockSize :=
    wf.size_of_mem (split ▸ mem)
  have barred := Barred.intercalate
    (fun b mem => Block.text_shows (size (List.mem_append_left _ mem)) positive
      (others b (List.mem_append_left _ mem)))
    (Block.text_barred (size (List.mem_append_right _ List.mem_cons_self)) positive here.symm)
    (fun b mem => Block.text_shows (size (List.mem_append_right _ (List.mem_cons_of_mem _ mem)))
      positive (others b (List.mem_append_right _ mem)))
  rw [← split, length] at barred
  rw [← seat_fst positive]
  generalize (seat s.blockSize s.location).1 = rank at *
  generalize (seat s.blockSize s.location).2 = offset at *
  have lower : (below.flatMap fun b => b.contents.toList).length = rank * s.blockSize := by
    have each : ∀ b ∈ below, b.contents.toList.length = s.blockSize := fun b mem =>
      (Array.length_toList).trans (size (List.mem_append_left _ mem))
    rw [List.length_flatMap, List.map_eq_replicate_iff.2 each, List.sum_replicate_nat, length]
  have enough : offset ≤ b.contents.toList.length := by
    rw [Array.length_toList, size (List.mem_append_right _ List.mem_cons_self)]
    exact top
  have all : s.contents = (below.flatMap fun b => b.contents.toList) ++ (b.contents.toList ++
      above.flatMap fun b => b.contents.toList) := by
    rw [contents, split, List.flatMap_append, List.flatMap_cons]
  rw [← List.take_append_of_le_length enough, ← List.take_length_add_append,
    ← List.drop_append_of_le_length enough, ← List.drop_length_add_append, ← all, lower,
    spells] at barred
  exact barred

/-- The sizes of the blocks, one by one. -/
lemma WellFormed.lengths (wf : s.WellFormed) :
    s.chain.toList.map (fun b => b.contents.toList.length) =
      List.replicate s.chain.size s.blockSize := by
  rw [← wf.length_toList]
  refine List.map_eq_replicate_iff.2 fun b mem => ?_
  rw [Array.length_toList, wf.size_of_mem mem]

/-- The contents are as long as all blocks together. -/
lemma WellFormed.length_contents (wf : s.WellFormed) :
    s.contents.length = s.chain.size * s.blockSize := by
  rw [contents, List.length_flatMap, wf.lengths, List.sum_replicate_nat]

/-- The bytes of blocks of one size tell the blocks. -/
lemma WellFormed.blocks_of_contents {s' : ByteStack} (wf : s.WellFormed) (wf' : s'.WellFormed)
    (blockSize : s.blockSize = s'.blockSize) (same : s.contents = s'.contents) :
    s.chain.size = s'.chain.size ∧
      s.chain.toList.map Block.contents = s'.chain.toList.map Block.contents := by
  have size : s.chain.size = s'.chain.size := by
    have length := congrArg List.length same
    rw [wf.length_contents, wf'.length_contents, blockSize] at length
    exact Nat.eq_of_mul_eq_mul_right wf'.chain.positive length
  have lists : s.chain.toList.map (fun b => b.contents.toList) =
      s'.chain.toList.map (fun b => b.contents.toList) := by
    refine List.eq_iff_flatten_eq.2 ⟨same, ?_⟩
    rw [List.map_map, List.map_map]
    exact wf.lengths.trans (by rw [size, blockSize]; exact wf'.lengths.symm)
  refine ⟨size, List.map_injective_iff.2 (fun _ _ => Array.toList_inj.1) ?_⟩
  rw [List.map_map, List.map_map]
  exact lists

end ByteStack

/-! ## Levels -/

namespace Location

variable {blockSize : Nat}

/-- A location is listed as its rank and its offset with a dot between them. -/
lemma toList_text (l : Location) : (text blockSize l).toList =
    (toString (rank blockSize l)).toList ++
      '.' :: (padLeft 5 '0' (toString (offset blockSize l))).toList := by
  rw [text, String.toList_append, String.toList_append, List.append_assoc]
  rfl

/-- A location is digits and a point. -/
lemma notMem_text {l : Location} {c : Char} (digit : c.isDigit = false) (point : c ≠ '.') :
    c ∉ (text blockSize l).toList := by
  rw [toList_text, List.mem_append, List.mem_cons]
  rintro (rank | same | offset)
  · rw [isDigit_of_mem_number rank] at digit
    cases digit
  · exact point same
  · rw [isDigit_of_mem_padded offset] at digit
    cases digit

/-- A listed location tells which one it is. -/
lemma text_inj {l m : Location} (same : (text blockSize l).toList = (text blockSize m).toList) :
    l = m := by
  rw [toList_text, toList_text] at same
  have clear (n : Nat) : '.' ∉ (toString n).toList := fun mem =>
    absurd (isDigit_of_mem_number mem) (by decide)
  obtain ⟨ranks, offsets⟩ := append_cons_inj (clear _) (clear _) same
  have rank : l / blockSize = m / blockSize := number_inj ranks
  have offset : l % blockSize = m % blockSize := padded_inj offsets
  rw [← Nat.div_add_mod l blockSize, rank, offset, Nat.div_add_mod]

end Location

namespace RepeatLevel

variable {blockSize : Nat}

/-- A level is listed as its three locations between brackets. -/
lemma toList_text (level : RepeatLevel) : (level.text blockSize).toList =
    '<' :: ((level.backPop.elim "" (Location.text blockSize)).toList ++
      '|' :: ((Location.text blockSize level.resume).toList ++
        '|' :: ((Location.text blockSize level.freePush).toList ++ ['>']))) := by
  simp only [text, String.toList_append, List.append_assoc]
  rfl

/-- What separates levels and their locations is not in a redirect. -/
lemma notMem_backPop {backPop : Option Location} {c : Char} (digit : c.isDigit = false)
    (point : c ≠ '.') : c ∉ (backPop.elim "" (Location.text blockSize)).toList := by
  cases backPop with
  | none => exact List.not_mem_nil
  | some l => exact Location.notMem_text digit point

/-- A listed `backPop` tells whether there is one, and which. -/
lemma backPop_inj {backPop backPop' : Option Location}
    (same : (backPop.elim "" (Location.text blockSize)).toList =
      (backPop'.elim "" (Location.text blockSize)).toList) : backPop = backPop' := by
  have some (l : Location) : ([] : List Char) ≠ (Location.text blockSize l).toList := fun none => by
    rw [Location.toList_text] at none
    exact List.append_ne_nil_of_right_ne_nil _ (List.cons_ne_nil _ _) none.symm
  cases backPop with
  | none =>
    cases backPop' with
    | none => rfl
    | some l => exact absurd same (some l)
  | some l =>
    cases backPop' with
    | none => exact absurd same.symm (some l)
    | some m => exact congrArg Option.some (Location.text_inj same)

/-- A listed level tells which one it is. -/
lemma text_inj {level level' : RepeatLevel}
    (same : (level.text blockSize).toList = (level'.text blockSize).toList) : level = level' := by
  have clear {l : Location} : '|' ∉ (Location.text blockSize l).toList :=
    Location.notMem_text rfl (by decide)
  have clear' {l : Option Location} : '|' ∉ (l.elim "" (Location.text blockSize)).toList :=
    notMem_backPop rfl (by decide)
  obtain ⟨resume, freePush, backPop⟩ := level
  obtain ⟨resume', freePush', backPop'⟩ := level'
  rw [toList_text, toList_text] at same
  obtain ⟨first, same⟩ := append_cons_inj clear' clear' (List.cons.inj same).2
  obtain ⟨second, same⟩ := append_cons_inj clear clear same
  rw [RepeatLevel.mk.injEq]
  exact ⟨Location.text_inj second, Location.text_inj (List.append_cancel_right same),
    backPop_inj first⟩

/-- Levels have no gaps inside. -/
lemma notMem_text (level : RepeatLevel) : ' ' ∉ (level.text blockSize).toList := by
  have clear {l : Location} : ' ' ∉ (Location.text blockSize l).toList :=
    Location.notMem_text rfl (by decide)
  have clear' {l : Option Location} : ' ' ∉ (l.elim "" (Location.text blockSize)).toList :=
    notMem_backPop rfl (by decide)
  rw [toList_text]
  simp [clear, clear']

/-- Levels are listed one after the other with separators between them. -/
lemma toList_chainText {level : RepeatLevel} {levels : List RepeatLevel} :
    (chainText blockSize (level :: levels)).toList =
      [' ', ';', ' '].intercalate ((level :: levels).map fun level =>
        (level.text blockSize).toList) := by
  have some : ¬ (level :: levels).isEmpty = true := Bool.false_ne_true
  rw [chainText, if_neg some, String.toList_intercalate, List.map_map]
  rfl

/-- The text of levels tells every level. -/
lemma chainText_inj {levels levels' : List RepeatLevel}
    (same : (chainText blockSize levels).toList = (chainText blockSize levels').toList) :
    levels = levels' := by
  have some (level : RepeatLevel) (levels : List RepeatLevel) :
      (chainText blockSize []).toList ≠ (chainText blockSize (level :: levels)).toList := by
    have none : chainText blockSize [] = " none!" := rfl
    have gap : " none!".toList = [' ', 'n', 'o', 'n', 'e', '!'] := rfl
    rw [none, gap, toList_chainText, List.map_cons, intercalate_cons, toList_text]
    exact fun same => absurd (List.cons.inj same).1 (by decide)
  cases levels with
  | nil =>
    cases levels' with
    | nil => rfl
    | cons level rest => exact absurd same (some level rest)
  | cons level rest =>
    cases levels' with
    | nil => exact absurd same.symm (some level rest)
    | cons level' rest' =>
      rw [toList_chainText, toList_chainText] at same
      have clear (levels : List RepeatLevel) :
          ∀ x ∈ levels.map fun level => (level.text blockSize).toList, ' ' ∉ x := by
        intro x mem
        obtain ⟨level, -, rfl⟩ := List.mem_map.1 mem
        exact level.notMem_text
      exact List.map_injective_iff.2 (fun _ _ => text_inj) (intercalate_inj
        (List.cons_ne_nil _ _) (List.cons_ne_nil _ _) (clear _) (clear _) same)

end RepeatLevel

/-! ## Listings -/

/-- The first bar of a listing is that of the cursor, and behind it the first capital begins the
heading of the levels. -/
lemma listing_parts {pre post levels pre' post' levels' : List Char} (bar : '|' ∉ pre)
    (bar' : '|' ∉ pre') (heading : 'R' ∉ post) (heading' : 'R' ∉ post')
    (same : pre ++ cursorBar.toList ++ post ++ ("\n" ++ listingMargin).toList ++
        "REPEATS:".toList ++ levels =
      pre' ++ cursorBar.toList ++ post' ++ ("\n" ++ listingMargin).toList ++
        "REPEATS:".toList ++ levels') : pre = pre' ∧ post = post' ∧ levels = levels' := by
  have spelt : cursorBar.toList = ' ' :: '|' :: [' '] := rfl
  have capital : "REPEATS:".toList = 'R' :: ['E', 'P', 'E', 'A', 'T', 'S', ':'] := rfl
  have split (pre post levels : List Char) : pre ++ cursorBar.toList ++ post ++
      ("\n" ++ listingMargin).toList ++ "REPEATS:".toList ++ levels =
      (pre ++ [' ']) ++ '|' :: (' ' :: (post ++ ("\n" ++ listingMargin).toList) ++
        'R' :: (['E', 'P', 'E', 'A', 'T', 'S', ':'] ++ levels)) := by
    rw [spelt, capital]
    simp only [List.append_assoc, List.cons_append, List.nil_append]
  have margin : 'R' ∉ ("\n" ++ listingMargin).toList := Shows.line.heading
  generalize ("\n" ++ listingMargin).toList = line at same split margin
  rw [split, split] at same
  obtain ⟨pres, same⟩ := append_cons_inj (by simp [bar]) (by simp [bar']) same
  obtain ⟨posts, same⟩ :=
    append_cons_inj (by simp [heading, margin]) (by simp [heading', margin]) same
  exact ⟨List.append_cancel_right pres, List.append_cancel_right (List.cons.inj posts).2,
    List.append_cancel_left same⟩

/-- What two stacks with blocks of the same size have in common when they have the same listing. -/
lemma ByteStack.WellFormed.listing_inj {s s' : ByteStack} (wf : s.WellFormed)
    (wf' : s'.WellFormed) (blockSize : s.blockSize = s'.blockSize) (same : s.listing = s'.listing) :
    s.contents = s'.contents ∧ s.location = s'.location ∧ s.levels = s'.levels := by
  obtain ⟨pre, post, _, texts, first, last⟩ := wf.blockTexts_barred
  obtain ⟨pre', post', _, texts', first', last'⟩ := wf'.blockTexts_barred
  have lists := congrArg String.toList same
  rw [toList_listing, toList_listing, texts, texts', blockSize] at lists
  obtain ⟨rfl, rfl, levels⟩ :=
    listing_parts first.bar first'.bar last.heading last'.heading lists
  have before := first.bytes_eq.symm.trans first'.bytes_eq
  have behind := last.bytes_eq.symm.trans last'.bytes_eq
  refine ⟨?_, ?_, List.reverse_injective (RepeatLevel.chainText_inj levels)⟩
  · rw [← List.take_append_drop s.location s.contents, before, behind, List.take_append_drop]
  · have length := congrArg List.length before
    rw [List.length_take_of_le (wf.length_contents ▸ wf.location_le),
      List.length_take_of_le (wf'.length_contents ▸ wf'.location_le)] at length
    exact length

/-- A listing shows what is on the tape.  On every reachable tape the blocks stand in the order of
their ranks, with a single bar in them: what stands before it shows as many bytes as there are below
the cursor, and what stands behind it shows the others, and the bar is in the line of the byte below
the cursor, so at the end of the lower block if the cursor is on a boundary.  And two tapes with
blocks of the same size that have the same listing have as many blocks with the same bytes, the
cursor at the same place, and the same levels with the same redirects. -/
theorem listing_is_faithful {t u : Tape} (reachable : t.Reachable) (reachable' : u.Reachable) :
    (∃ pre post, t.listing.toList = pre ++ cursorBar.toList ++ post ++ ("\n" ++ listingMargin ++
        "REPEATS:" ++ RepeatLevel.chainText t.stack.blockSize t.stack.levels.reverse).toList ∧
      '|' ∉ pre ∧ '|' ∉ post ∧ pre.count '\n' = (t.location - 1) / t.stack.blockSize ∧
      (shownBytes .between pre).length = t.location ∧
      shownBytes .between pre ++ shownBytes .between post = t.stack.contents) ∧
    t.stack.chain.toList.map Block.rank = List.range t.peakBlocks ∧
    (t.stack.blockSize = u.stack.blockSize → t.listing = u.listing →
      t.peakBlocks = u.peakBlocks ∧
      t.stack.chain.toList.map Block.contents = u.stack.chain.toList.map Block.contents ∧
      t.location = u.location ∧ t.stack.levels = u.stack.levels) := by
  have wf := reachable.sound.blocks.stack
  have wf' := reachable'.sound.blocks.stack
  obtain ⟨pre, post, _, texts, first, last⟩ := wf.blockTexts_barred
  refine ⟨⟨pre, post, ?_, first.bar, last.bar, first.breaks, ?_, ?_⟩, wf.ranks, ?_⟩
  · rw [Tape.listing, ByteStack.toList_listing, texts]
    simp only [String.toList_append, List.append_assoc]
  · rw [first.bytes_eq]
    exact List.length_take_of_le (wf.length_contents ▸ wf.location_le)
  · rw [first.bytes_eq, last.bytes_eq]
    exact List.take_append_drop _ _
  · intro blockSize same
    obtain ⟨contents, location, levels⟩ := wf.listing_inj wf' blockSize same
    obtain ⟨size, blocks⟩ := wf.blocks_of_contents wf' blockSize contents
    exact ⟨size, blocks, location, levels⟩

/-- A cursor on the boundary between two blocks under a level, held at the start of the upper block
by one tape and at the end of the lower block by another one. -/
theorem listing_is_faithful_on_a_boundary :
    ∃ t u : Tape, t.Reachable ∧ u.Reachable ∧ (t.stack.current, t.stack.top) = (1, 0) ∧
      (u.stack.current, u.stack.top) = (0, 4) ∧
      t.listing = "[0] 01020304 | \n        [1] 05000000\n        REPEATS:<|1.00001|1.00001>" ∧
      (∃ pre post, t.listing.toList = pre ++ cursorBar.toList ++ post ++ ("\n" ++ listingMargin ++
          "REPEATS:" ++ RepeatLevel.chainText t.stack.blockSize t.stack.levels.reverse).toList ∧
        pre.count '\n' = 0 ∧ (shownBytes .between pre).length = 4) ∧
      t.listing = u.listing ∧ t.location = u.location ∧ t.stack.levels = u.stack.levels := by
  have created : Tape.create ⟨4, 2⟩ none = .ok _ := rfl
  have first := (Tape.Reachable.create created).run
    [.pushBytes [1, 2, 3, 4, 5] true, .startRepeat, .popBytes 1 true]
  have second := (Tape.Reachable.create created).run
    [.pushBytes [1, 2, 3, 4, 5] true, .startRepeat, .setLocation 4]
  obtain ⟨t, u, reachable, reachable', start, finish, place, size, shown, same, blockSize⟩ :
      ∃ t u : Tape, t.Reachable ∧ u.Reachable ∧ (t.stack.current, t.stack.top) = (1, 0) ∧
        (u.stack.current, u.stack.top) = (0, 4) ∧ t.location = 4 ∧ t.stack.blockSize = 4 ∧
        t.listing = "[0] 01020304 | \n        [1] 05000000\n        REPEATS:<|1.00001|1.00001>" ∧
        t.listing = u.listing ∧ t.stack.blockSize = u.stack.blockSize :=
    ⟨_, _, first, second, by decide +kernel, by decide +kernel, by decide +kernel,
      by decide +kernel, by decide +kernel, by decide +kernel, by decide +kernel⟩
  obtain ⟨⟨pre, post, parts, -, -, line, before, -⟩, -, alike⟩ :=
    listing_is_faithful reachable reachable'
  obtain ⟨-, -, location, levels⟩ := alike blockSize same
  rw [place, size] at line
  rw [place] at before
  exact ⟨t, u, reachable, reachable', start, finish, shown, ⟨pre, post, parts, line, before⟩, same,
    location, levels⟩

end AdjointTape

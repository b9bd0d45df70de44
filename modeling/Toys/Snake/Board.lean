import Mathlib
import Toys.Lib.ListedSet
import Toys.Snake.Game

namespace Toys.Snake

open Toys.Lib

/-!
# Snake — the board

The cells of the snake have the states `LEFT` to `DOWN`, and the other ones are listed in the array
of the free cells.

* `Cells` — the two arrays, for a set of cells that are used;
* `SnakeBody` — the body of the snake, from its tail to its head;
* `gameUpdate_snake` — one update keeps the snake, unless the head moves to the last free cell;
* `Board` — what the two arrays contain, for the body of the snake;
* `Run`, `board_iff` — the states of a run are right if and only if no head moves to that cell.
-/

variable {g g' : Game} {U : Set (Nat × Nat)} {body rest : List (Nat × Nat)} {c c' t : Nat × Nat}
variable {d i n : Nat}

/-! ### The grid -/

/-- A cell of the board. -/
def InGrid (c : Nat × Nat) : Prop := c.1 < WIDTH ∧ c.2 < HEIGHT

/-- Whether a cell is on the board can be decided. -/
instance (c : Nat × Nat) : Decidable (InGrid c) :=
  inferInstanceAs (Decidable (c.1 < WIDTH ∧ c.2 < HEIGHT))

/-- The cell after a cell in a direction, if there is one. -/
def nextCell (c : Nat × Nat) (direction : Nat) : Option (Nat × Nat) :=
  if direction = LEFT then if c.1 = 0 then none else some (c.1 - 1, c.2)
  else if direction = RIGHT then if c.1 = WIDTH - 1 then none else some (c.1 + 1, c.2)
  else if direction = UP then if c.2 = 0 then none else some (c.1, c.2 - 1)
  else if direction = DOWN then if c.2 = HEIGHT - 1 then none else some (c.1, c.2 + 1)
  else none

/-- The next cell is on the board. -/
theorem nextCell_inGrid (hc : InGrid c) (h : nextCell c d = some c') : InGrid c' := by
  simp only [InGrid, WIDTH, HEIGHT] at hc ⊢
  unfold nextCell WIDTH HEIGHT at h
  split_ifs at h
  all_goals cases h
  all_goals simp only
  all_goals omega

/-- The cells have different indices. -/
theorem index_inj (hc : InGrid c) (hc' : InGrid c') (h : c.1 + c.2 * WIDTH = c'.1 + c'.2 * WIDTH) :
    c = c' := by
  simp only [InGrid, WIDTH] at hc hc' h
  apply Prod.ext
  all_goals omega

/-- The state of a cell. -/
def cellState (g : Game) (c : Nat × Nat) : Nat := gameGetCellState g c.1 c.2

/-- The cell of the head. -/
def headCell (g : Game) : Nat × Nat := (g.headX, g.headY)

/-- The cell of the tail. -/
def tailCell (g : Game) : Nat × Nat := (g.tailX, g.tailY)

/-- The cell of the apple. -/
def appleCell (g : Game) : Nat × Nat := (g.appleX, g.appleY)

/-- The state of a cell depends on the table of the states only. -/
theorem cellState_congr (h : g'.cellStates = g.cellStates) : cellState g' c = cellState g c := by
  rw [cellState, gameGetCellState, h]
  rfl

/-- Changing the state of a cell keeps those of the others. -/
theorem cellState_set_of_ne {s : Nat} (hc : InGrid c) (hc' : InGrid c') (hne : c' ≠ c) :
    cellState (gameSetCellState g c.1 c.2 s) c' = cellState g c' := by
  have hindex : c'.1 + c'.2 * WIDTH ≠ c.1 + c.2 * WIDTH := fun h => hne (index_inj hc' hc h)
  simp only [cellState, gameGetCellState, gameSetCellState]
  rw [Function.update_of_ne hindex]

/-- The states after a change of one of them. -/
theorem cellState_set {s : Nat} (hc : InGrid c) (hc' : InGrid c') (hs : s < 2 ^ 16) :
    cellState (gameSetCellState g c.1 c.2 s) c' = if c' = c then s else cellState g c' := by
  split_ifs with heq
  · simp only [cellState, gameGetCellState, gameSetCellState, heq]
    rw [Function.update_self, Nat.mod_eq_of_lt hs]
  · exact cellState_set_of_ne hc hc' heq

/-! ### The used cells and the free cells -/

/-- The free cells of the board, when `U` is used. -/
def freeSet (U : Set (Nat × Nat)) : Set (Nat × Nat) := {c | InGrid c ∧ c ∉ U}

/-- The index of a free cell, from its state. -/
def freeIndex (g : Game) (c : Nat × Nat) : Nat := cellState g c - 4

/-- The cells that are used have a direction as state, and the free cells are listed. -/
structure Cells (g : Game) (U : Set (Nat × Nat)) : Prop where
  inGrid : ∀ c ∈ U, InGrid c
  used : ∀ c ∈ U, cellState g c < 4
  free : ∀ c ∈ freeSet U, 4 ≤ cellState g c
  listed : Listed (freeSet U) (freeIndex g) g.freeCells g.numFreeCells

/-- There are fewer free cells than cells. -/
theorem Cells.num_le (h : Cells g U) : g.numFreeCells ≤ 1450 := by
  have hcard := Finset.card_le_card_of_injOn (s := Finset.range g.numFreeCells)
    (t := Finset.range WIDTH ×ˢ Finset.range HEIGHT) g.freeCells ?_ ?_
  · simpa [WIDTH, HEIGHT] using hcard
  · intro i hi
    have hmem := (h.listed.mem i (Finset.mem_range.mp hi)).1
    exact Finset.mem_product.mpr ⟨Finset.mem_range.mpr hmem.1, Finset.mem_range.mpr hmem.2⟩
  · intro i hi j hj heq
    exact h.listed.injective (Finset.mem_range.mp hi) (Finset.mem_range.mp hj) heq

/-- What depends on the two arrays only. -/
theorem Cells.of_eq (h : Cells g U) (hstates : g'.cellStates = g.cellStates)
    (hfree : g'.freeCells = g.freeCells) (hnum : g'.numFreeCells = g.numFreeCells) : Cells g' U := by
  have hstate : ∀ c, cellState g' c = cellState g c := fun c => cellState_congr hstates
  refine ⟨h.inGrid, fun c hc => (hstate c).trans_lt (h.used c hc), fun c hc => ?_, ?_⟩
  · rw [hstate c]
    exact h.free c hc
  · rw [hfree, hnum]
    apply h.listed.congr
    intro c _
    rw [freeIndex, hstate c]
    rfl

/-- A direction is stored in a cell that is used. -/
theorem Cells.set (h : Cells g U) (hc : c ∈ U) (hd : d < 4) :
    Cells (gameSetCellState g c.1 c.2 d) U := by
  have hstate : ∀ b, InGrid b → cellState (gameSetCellState g c.1 c.2 d) b =
      if b = c then d else cellState g b := fun b hb => cellState_set (h.inGrid c hc) hb (by omega)
  have hfree : ∀ b ∈ freeSet U, cellState (gameSetCellState g c.1 c.2 d) b = cellState g b := by
    intro b hb
    rw [hstate b hb.1, if_neg]
    rintro rfl
    exact hb.2 hc
  refine ⟨h.inGrid, fun b hb => ?_, fun b hb => ?_, ?_⟩
  · rw [hstate b (h.inGrid b hb)]
    split_ifs
    · exact hd
    · exact h.used b hb
  · rw [hfree b hb]
    exact h.free b hb
  · apply h.listed.congr
    intro b hb
    rw [freeIndex, hfree b hb]
    rfl

/-- The last free cell. -/
def lastFree (g : Game) : Nat × Nat := g.freeCells (g.numFreeCells - 1)

/-- The last free cell is free, if there is one. -/
theorem Cells.lastFree_mem (h : Cells g U) (hc : c ∈ freeSet U) : lastFree g ∈ freeSet U := by
  have hlt := h.listed.index_lt hc
  exact h.listed.mem (g.numFreeCells - 1) (by omega)

/-- What `game_use_cell` changes.  The state of the last free cell is set last, even if it is the cell
    that is used. -/
theorem gameUseCell_eq (h : Cells g U) (hc : c ∈ freeSet U) : gameUseCell g c.1 c.2 d =
    { gameSetCellState (gameSetCellState g c.1 c.2 d) (lastFree g).1 (lastFree g).2 (cellState g c) with
      freeCells := Function.update g.freeCells (freeIndex g c) (lastFree g)
      numFreeCells := g.numFreeCells - 1 } := by
  have hnum := h.num_le
  have hlt := h.listed.index_lt hc
  have hfree := h.free c hc
  have hlast := (h.lastFree_mem hc).1
  unfold freeIndex at hlt
  have hindex : U64.sub (gameGetCellState g c.1 c.2) 4 = cellState g c - 4 :=
    U64.sub_eq hfree (show cellState g c < 2 ^ 64 by omega)
  have hpred : U64.sub g.numFreeCells 1 = g.numFreeCells - 1 := U64.sub_eq (by omega) (by omega)
  have hstate : U64.add (cellState g c - 4) 4 = cellState g c := by
    rw [U64.add_eq (by omega)]
    omega
  have hcoords : ((lastFree g).1 % 2 ^ 8, (lastFree g).2 % 2 ^ 8) = lastFree g := by
    have hx : (lastFree g).1 < 50 := hlast.1
    have hy : (lastFree g).2 < 29 := hlast.2
    rw [Nat.mod_eq_of_lt (by omega), Nat.mod_eq_of_lt (by omega)]
  simp only [gameUseCell, hindex, hstate]
  simp only [gameSetFreeCellCoords, gameSetCellState, gameGetFreeCellCoords, hpred]
  rw [show g.freeCells (g.numFreeCells - 1) = lastFree g from rfl, hcoords]
  rfl

/-- The states after `game_use_cell`. -/
theorem gameUseCell_states (h : Cells g U) (hc : c ∈ freeSet U) (hd : d < 4) (hc' : InGrid c') :
    cellState (gameUseCell g c.1 c.2 d) c' =
      if c' = lastFree g then cellState g c else if c' = c then d else cellState g c' := by
  have hnum := h.num_le
  have hlt := h.listed.index_lt hc
  have hlast := (h.lastFree_mem hc).1
  unfold freeIndex at hlt
  rw [gameUseCell_eq h hc]
  show cellState (gameSetCellState (gameSetCellState g c.1 c.2 d) (lastFree g).1 (lastFree g).2 _) c'
    = _
  rw [cellState_set hlast hc' (by omega), cellState_set hc.1 hc' (by omega)]

/-- A free cell that is not the last one is used. -/
theorem Cells.useCell (h : Cells g U) (hc : c ∈ freeSet U) (hlast : c ≠ lastFree g) (hd : d < 4) :
    Cells (gameUseCell g c.1 c.2 d) (insert c U) := by
  have hnum := h.num_le
  have hlt := h.listed.index_lt hc
  have hmem := h.lastFree_mem hc
  have hset : freeSet (insert c U) = freeSet U \ {c} := by
    ext b
    simp only [freeSet, Set.mem_insert_iff, Set.mem_ofPred_eq, Set.mem_sdiff, Set.mem_singleton_iff]
    tauto
  -- the last free cell takes the index of the one that is used
  have hstates : ∀ b, InGrid b → cellState (gameUseCell g c.1 c.2 d) b =
      if b = lastFree g then cellState g c else if b = c then d else cellState g b :=
    fun b hb => gameUseCell_states h hc hd hb
  refine ⟨fun b hb => ?_, fun b hb => ?_, fun b hb => ?_, ?_⟩
  · rcases Set.mem_insert_iff.mp hb with rfl | hb
    · exact hc.1
    · exact h.inGrid b hb
  · rcases Set.mem_insert_iff.mp hb with rfl | hb'
    · rw [hstates b hc.1, if_neg hlast, if_pos rfl]
      exact hd
    · have hne : b ≠ lastFree g := fun heq => hmem.2 (heq ▸ hb')
      have hne' : b ≠ c := fun heq => hc.2 (heq ▸ hb')
      rw [hstates b (h.inGrid b hb'), if_neg hne, if_neg hne']
      exact h.used b hb'
  · rw [hset] at hb
    rw [hstates b hb.1.1]
    split_ifs with hb' hb''
    · exact h.free c hc
    · exact absurd hb'' hb.2
    · exact h.free b hb.1
  · rw [hset, show (gameUseCell g c.1 c.2 d).numFreeCells = g.numFreeCells - 1 by
      rw [gameUseCell_eq h hc], show (gameUseCell g c.1 c.2 d).freeCells = Function.update g.freeCells
        (freeIndex g c) (lastFree g) by rw [gameUseCell_eq h hc]]
    have hlisted := h.listed
    rw [show g.numFreeCells = g.numFreeCells - 1 + 1 by omega] at hlisted
    apply hlisted.remove hc hlast
    · intro b hb hne hne'
      rw [freeIndex, hstates b hb.1, if_neg (show b ≠ lastFree g from hne'), if_neg hne]
      rfl
    · show freeIndex _ (lastFree g) = freeIndex g c
      rw [freeIndex, hstates _ hmem.1, if_pos rfl]
      rfl
    · intro i _ hne
      exact Function.update_of_ne hne _ _
    · exact Function.update_self _ _ _

/-- A used cell becomes the last free cell. -/
theorem Cells.freeCell (h : Cells g U) (hc : c ∈ U) : Cells (gameFreeCell g c.1 c.2) (U \ {c}) := by
  have hnum := h.num_le
  have hgrid := h.inGrid c hc
  have hset : freeSet (U \ {c}) = insert c (freeSet U) := by
    ext b
    simp only [freeSet, Set.mem_insert_iff, Set.mem_ofPred_eq, Set.mem_sdiff, Set.mem_singleton_iff]
    constructor
    · tauto
    · rintro (rfl | hb)
      · tauto
      · tauto
  have hadd : U64.add g.numFreeCells 4 = g.numFreeCells + 4 := U64.add_eq (by omega)
  have hsucc : U64.add g.numFreeCells 1 = g.numFreeCells + 1 := U64.add_eq (by omega)
  have hstates : ∀ b, InGrid b → cellState (gameFreeCell g c.1 c.2) b =
      if b = c then g.numFreeCells + 4 else cellState g b := by
    intro b hb
    rw [← cellState_set hgrid hb (by omega), ← hadd]
    rfl
  have hcoords : (c.1 % 2 ^ 8, c.2 % 2 ^ 8) = c := by
    have hx : c.1 < 50 := hgrid.1
    have hy : c.2 < 29 := hgrid.2
    rw [Nat.mod_eq_of_lt (by omega), Nat.mod_eq_of_lt (by omega)]
  have hother : ∀ b ∈ freeSet U, b ≠ c := by
    rintro b hb rfl
    exact hb.2 hc
  refine ⟨fun b hb => h.inGrid b hb.1, fun b hb => ?_, fun b hb => ?_, ?_⟩
  · rw [hstates b (h.inGrid b hb.1), if_neg (show b ≠ c from hb.2)]
    exact h.used b hb.1
  · rw [hset] at hb
    rcases Set.mem_insert_iff.mp hb with rfl | hb
    · rw [hstates b hgrid, if_pos rfl]
      omega
    · rw [hstates b hb.1, if_neg (hother b hb)]
      exact h.free b hb
  · rw [hset, show (gameFreeCell g c.1 c.2).numFreeCells = g.numFreeCells + 1 from hsucc]
    apply h.listed.append
    · rw [freeIndex, hstates c hgrid, if_pos rfl]
      omega
    · intro b hb
      rw [freeIndex, hstates b hb.1, if_neg (hother b hb)]
      rfl
    · intro i hi
      exact Function.update_of_ne (by omega) _ _
    · show Function.update g.freeCells g.numFreeCells (c.1 % 2 ^ 8, c.2 % 2 ^ 8) g.numFreeCells = c
      rw [Function.update_self, hcoords]

/-! ### The snake -/

/-- The cells of a body. -/
def bodySet (body : List (Nat × Nat)) : Set (Nat × Nat) := {c | c ∈ body}

/-- The state of each cell of the body leads to the next one. -/
def Leads (g : Game) (body : List (Nat × Nat)) : Prop :=
  body.IsChain fun c c' => nextCell c (cellState g c) = some c'

/-- The body of the snake, from its tail to its head, and the other cells. -/
structure SnakeBody (g : Game) (body : List (Nat × Nat)) : Prop where
  cells : Cells g (bodySet body)
  nodup : body.Nodup
  tail : body.head? = some (tailCell g)
  head : body.getLast? = some (headCell g)
  leads : Leads g body
  apple : appleCell g ∈ freeSet (bodySet body)
  direction : g.direction < 4

/-- The way along the body depends on the states of its cells only. -/
theorem Leads.congr (h : Leads g body) (hstates : ∀ c ∈ body, cellState g' c = cellState g c) :
    Leads g' body := by
  apply h.imp_of_mem_imp
  intro c c' hc _ hnext
  rwa [hstates c hc]

theorem direction_cases (h : d < 4) : d = LEFT ∨ d = RIGHT ∨ d = UP ∨ d = DOWN := by
  unfold LEFT RIGHT UP DOWN
  omega

/-- The cell where the head moves. -/
theorem moveHead_eq (hd : g.direction < 4) (hgrid : InGrid (headCell g)) :
    moveHead g = (nextCell (headCell g) g.direction).map fun c =>
      { g with headX := c.1, headY := c.2 } := by
  have hx : g.headX < 50 := hgrid.1
  have hy : g.headY < 29 := hgrid.2
  unfold moveHead nextCell headCell
  by_cases hleft : g.direction = LEFT
  · rw [if_pos hleft, if_pos hleft]
    by_cases h0 : g.headX = 0
    · rw [if_pos h0, if_pos h0, Option.map_none]
    · rw [if_neg h0, if_neg h0, Option.map_some, U64.sub_eq (by omega) (by omega)]
  rw [if_neg hleft, if_neg hleft]
  by_cases hright : g.direction = RIGHT
  · rw [if_pos hright, if_pos hright]
    by_cases h0 : g.headX = WIDTH - 1
    · rw [if_pos h0, if_pos h0, Option.map_none]
    · rw [if_neg h0, if_neg h0, Option.map_some, U64.add_eq (by omega)]
  rw [if_neg hright, if_neg hright]
  by_cases hup : g.direction = UP
  · rw [if_pos hup, if_pos hup]
    by_cases h0 : g.headY = 0
    · rw [if_pos h0, if_pos h0, Option.map_none]
    · rw [if_neg h0, if_neg h0, Option.map_some, U64.sub_eq (by omega) (by omega)]
  rw [if_neg hup, if_neg hup]
  have hdown : g.direction = DOWN := by
    rcases direction_cases hd with h | h | h | h
    all_goals tauto
  rw [if_pos hdown, if_pos hdown]
  by_cases h0 : g.headY = HEIGHT - 1
  · rw [if_pos h0, if_pos h0, Option.map_none]
  · rw [if_neg h0, if_neg h0, Option.map_some, U64.add_eq (by omega)]

/-- The game when the tail is in a cell. -/
def setTail (g : Game) (c : Nat × Nat) : Game := { g with tailX := c.1, tailY := c.2 }

/-- The cell where the tail moves. -/
theorem moveTail_eq (hgrid : InGrid (tailCell g)) (h : nextCell (tailCell g) d = some c) :
    moveTail g d = setTail g c := by
  have hx : g.tailX < 50 := hgrid.1
  have hy : g.tailY < 29 := hgrid.2
  unfold nextCell tailCell at h
  unfold moveTail setTail
  by_cases hleft : d = LEFT
  · rw [if_pos hleft, Option.ite_none_left_eq_some] at h
    have h0 := h.1
    rw [if_pos hleft, ← Option.some_inj.mp h.2, U64.sub_eq (by omega) (by omega)]
  rw [if_neg hleft] at h ⊢
  by_cases hright : d = RIGHT
  · rw [if_pos hright, Option.ite_none_left_eq_some] at h
    rw [if_pos hright, ← Option.some_inj.mp h.2, U64.add_eq (by omega)]
  rw [if_neg hright] at h ⊢
  by_cases hup : d = UP
  · rw [if_pos hup, Option.ite_none_left_eq_some] at h
    have h0 := h.1
    rw [if_pos hup, ← Option.some_inj.mp h.2, U64.sub_eq (by omega) (by omega)]
  rw [if_neg hup] at h ⊢
  by_cases hdown : d = DOWN
  · rw [if_pos hdown, Option.ite_none_left_eq_some] at h
    rw [if_pos hdown, ← Option.some_inj.mp h.2, U64.add_eq (by omega)]
  · rw [if_neg hdown] at h
    cases h

/-! ### What the updates keep -/

theorem gameNewApple_cellStates : (gameNewApple g).cellStates = g.cellStates := rfl
theorem gameNewApple_freeCells : (gameNewApple g).freeCells = g.freeCells := rfl
theorem gameNewApple_numFreeCells : (gameNewApple g).numFreeCells = g.numFreeCells := rfl
theorem gameNewApple_headCell : headCell (gameNewApple g) = headCell g := rfl
theorem gameNewApple_tailCell : tailCell (gameNewApple g) = tailCell g := rfl
theorem gameNewApple_direction : (gameNewApple g).direction = g.direction := rfl

theorem gameUseCell_headCell {x y : Nat} : headCell (gameUseCell g x y d) = headCell g := rfl
theorem gameUseCell_tailCell {x y : Nat} : tailCell (gameUseCell g x y d) = tailCell g := rfl
theorem gameUseCell_appleCell {x y : Nat} : appleCell (gameUseCell g x y d) = appleCell g := rfl
theorem gameUseCell_direction {x y : Nat} : (gameUseCell g x y d).direction = g.direction := rfl

theorem gameFreeCell_headCell {x y : Nat} : headCell (gameFreeCell g x y) = headCell g := rfl
theorem gameFreeCell_tailCell {x y : Nat} : tailCell (gameFreeCell g x y) = tailCell g := rfl
theorem gameFreeCell_appleCell {x y : Nat} : appleCell (gameFreeCell g x y) = appleCell g := rfl
theorem gameFreeCell_direction {x y : Nat} : (gameFreeCell g x y).direction = g.direction := rfl

theorem gameFreeCell_cellState {x y : Nat} : cellState (gameFreeCell g x y) c =
    cellState (gameSetCellState g x y (U64.add g.numFreeCells 4)) c := rfl

theorem setTail_cellStates : (setTail g c).cellStates = g.cellStates := rfl
theorem setTail_tailCell : tailCell (setTail g c) = c := rfl
theorem setTail_headCell : headCell (setTail g c) = headCell g := rfl
theorem setTail_appleCell : appleCell (setTail g c) = appleCell g := rfl
theorem setTail_direction : (setTail g c).direction = g.direction := rfl

/-- The tail is not part of the list of the free cells. -/
theorem Cells.setTail (h : Cells g U) : Cells (setTail g c) U := h.of_eq rfl rfl rfl

/-- A game with another score. -/
def setScore (g : Game) (score : Nat) : Game := { g with score := score }

theorem setScore_cellStates : (setScore g n).cellStates = g.cellStates := rfl
theorem setScore_headCell : headCell (setScore g n) = headCell g := rfl

theorem SnakeBody.setScore (h : SnakeBody g body) : SnakeBody (setScore g n) body :=
  ⟨h.cells.of_eq rfl rfl rfl, h.nodup, h.tail, h.head, h.leads, h.apple, h.direction⟩

/-! ### One update -/

/-- The game when the head moves to a cell, and the cell is used. -/
def useHead (g : Game) (c : Nat × Nat) : Game :=
  gameUseCell (gameSetCellState { g with headX := c.1, headY := c.2 } g.headX g.headY g.direction)
    c.1 c.2 0

theorem useHead_headCell : headCell (useHead g c) = c := gameUseCell_headCell
theorem useHead_tailCell : tailCell (useHead g c) = tailCell g := gameUseCell_tailCell
theorem useHead_appleCell : appleCell (useHead g c) = appleCell g := gameUseCell_appleCell
theorem useHead_direction : (useHead g c).direction = g.direction := gameUseCell_direction

/-- The two ways to return `OK`. -/
theorem gameUpdate_cases (hd : g.direction < 4) (hgrid : InGrid (headCell g))
    (h : gameUpdate g = some g') : ∃ c, nextCell (headCell g) g.direction = some c ∧
      4 ≤ cellState g c ∧
      (c = appleCell g ∧ (useHead g c).numFreeCells ≠ 0 ∧
          g' = setScore (gameNewApple (useHead g c)) (U64.add (gameNewApple (useHead g c)).score 1) ∨
        c ≠ appleCell g ∧ g' = moveTail (gameFreeCell (useHead g c) g.tailX g.tailY)
          (cellState (useHead g c) (tailCell g))) := by
  unfold gameUpdate at h
  rw [moveHead_eq hd hgrid] at h
  cases hnext : nextCell (headCell g) g.direction with
  | none =>
    rw [hnext] at h
    cases h
  | some c =>
    rw [hnext] at h
    simp only [Option.map_some] at h
    refine ⟨c, rfl, ?_⟩
    split_ifs at h with hstate happle hnum
    · refine ⟨not_lt.mp hstate, .inl ⟨Prod.ext happle.1 happle.2, hnum, ?_⟩⟩
      exact (Option.some_inj.mp h).symm
    · refine ⟨not_lt.mp hstate, .inr ⟨fun heq => happle ?_, ?_⟩⟩
      · exact ⟨congrArg Prod.fst heq, congrArg Prod.snd heq⟩
      · exact (Option.some_inj.mp h).symm

/-- One more cell at the head of the body. -/
theorem bodySet_append : bodySet (body ++ [c]) = insert c (bodySet body) := by
  ext b
  simp [bodySet, or_comm]

section
variable (h : SnakeBody g body)
include h

/-- The head is in the body. -/
theorem SnakeBody.head_mem : headCell g ∈ bodySet body := List.mem_of_getLast? h.head

theorem SnakeBody.tail_mem : tailCell g ∈ bodySet body := List.mem_of_head? h.tail

/-- The direction is stored in the cell of the head. -/
theorem SnakeBody.set_head : Cells (gameSetCellState { g with headX := c.1, headY := c.2 } g.headX g.headY
    g.direction) (bodySet body) := by
  have hcells : Cells { g with headX := c.1, headY := c.2 } (bodySet body) :=
    h.cells.of_eq rfl rfl rfl
  exact hcells.set (c := headCell g) h.head_mem h.direction

variable (hnext : nextCell (headCell g) g.direction = some c) (hstate : 4 ≤ cellState g c)
include hnext hstate

/-- The head moves to a free cell. -/
theorem SnakeBody.next_free : c ∈ freeSet (bodySet body) := by
  refine ⟨nextCell_inGrid (h.cells.inGrid _ h.head_mem) hnext, fun hmem => ?_⟩
  have hused := h.cells.used c hmem
  omega

/-- The states when the head moved. -/
theorem SnakeBody.useHead_states (hc' : InGrid c') : cellState (useHead g c) c' =
    if c' = lastFree g then cellState g c else if c' = c then 0
      else if c' = headCell g then g.direction else cellState g c' := by
  have hc := h.next_free hnext hstate
  have hd := h.direction
  have hgrid := h.cells.inGrid _ h.head_mem
  have hset : ∀ b, InGrid b → cellState (gameSetCellState { g with headX := c.1, headY := c.2 }
      g.headX g.headY g.direction) b = if b = headCell g then g.direction else cellState g b :=
    fun b hb => cellState_set (c := headCell g) hgrid hb (by omega)
  have hne : c ≠ headCell g := fun heq => hc.2 (heq ▸ h.head_mem)
  have hstates := gameUseCell_states (h.set_head (c := c)) hc (d := 0) (by omega) hc'
  rw [hset c hc.1, if_neg hne, hset c' hc'] at hstates
  exact hstates

/-- The state of a cell of the body is kept, but that of the head. -/
theorem SnakeBody.useHead_body (hc' : c' ∈ bodySet body) : cellState (useHead g c) c' =
    if c' = headCell g then g.direction else cellState g c' := by
  have hc := h.next_free hnext hstate
  have hne : c' ≠ c := fun heq => hc.2 (heq ▸ hc')
  have hne' : c' ≠ lastFree g := fun heq => (h.cells.lastFree_mem hc).2 (heq ▸ hc')
  rw [h.useHead_states hnext hstate (h.cells.inGrid c' hc'), if_neg hne', if_neg hne]

/-- The body leads from the tail to the new head. -/
theorem SnakeBody.useHead_leads : Leads (useHead g c) (body ++ [c]) := by
  rcases List.getLast?_eq_some_iff.mp h.head with ⟨init, hinit⟩
  have hinit_mem : ∀ x ∈ init, x ∈ bodySet body ∧ x ≠ headCell g := by
    intro x hx
    have hnodup := h.nodup
    rw [hinit, List.nodup_append] at hnodup
    refine ⟨?_, hnodup.2.2 x hx _ (List.mem_singleton_self _)⟩
    rw [hinit]
    exact List.mem_append_left _ hx
  have hsame : ∀ x ∈ init, cellState (useHead g c) x = cellState g x := by
    intro x hx
    rw [h.useHead_body hnext hstate (hinit_mem x hx).1, if_neg (hinit_mem x hx).2]
  have hleads := h.leads
  rw [hinit, Leads, List.isChain_append] at hleads
  rw [Leads, List.isChain_append]
  refine ⟨?_, List.isChain_singleton c, ?_⟩
  · rw [hinit, List.isChain_append]
    refine ⟨Leads.congr hleads.1 hsame, List.isChain_singleton _, ?_⟩
    intro x hx y hy
    rw [hsame x (List.mem_of_getLast? hx)]
    exact hleads.2.2 x hx y hy
  · intro x hx y hy
    rw [h.head] at hx
    cases hx
    cases hy
    rwa [h.useHead_body hnext hstate h.head_mem, if_pos rfl]

/-- If the cell is not the last free one, the body has one more cell. -/
theorem SnakeBody.useHead_cells (hlast : c ≠ lastFree g) :
    Cells (useHead g c) (bodySet (body ++ [c])) := by
  rw [bodySet_append]
  exact (h.set_head (c := c)).useCell (h.next_free hnext hstate) hlast (by omega)

end

/-- A new apple is on a free cell, if there is one. -/
theorem gameNewApple_mem (h : Cells g U) (hnum : g.numFreeCells ≠ 0) :
    appleCell (gameNewApple g) ∈ freeSet U := by
  apply h.listed.mem
  have hmod : modulo (random g.seed >>> 21) g.numFreeCells =
      (random g.seed >>> 21) % g.numFreeCells := by
    unfold modulo
    rw [Nat.mod_eq_sub_div_mul]
  rw [hmod]
  exact Nat.mod_lt _ (Nat.pos_of_ne_zero hnum)

/-- One update keeps the snake if the head does not move to the last free cell. -/
theorem gameUpdate_snake (h : SnakeBody g body) (hupdate : gameUpdate g = some g')
    (hsafe : nextCell (headCell g) g.direction ≠ some (lastFree g)) : ∃ body', SnakeBody g' body' := by
  have hgrid := h.cells.inGrid _ h.head_mem
  rcases gameUpdate_cases h.direction hgrid hupdate with ⟨c, hnext, hstate, hcases⟩
  have hlast : c ≠ lastFree g := by
    rintro rfl
    exact hsafe hnext
  have hc := h.next_free hnext hstate
  have hcells := h.useHead_cells hnext hstate hlast
  have hleads := h.useHead_leads hnext hstate
  have hnodup : (body ++ [c]).Nodup := by
    rw [List.nodup_append]
    refine ⟨h.nodup, List.nodup_singleton c, ?_⟩
    rintro x hx y hy rfl
    rw [List.mem_singleton.mp hy] at hx
    exact hc.2 hx
  rcases hcases with ⟨_, hnum, rfl⟩ | ⟨hne, rfl⟩
  · -- the snake eats the apple
    refine ⟨body ++ [c], SnakeBody.setScore ⟨hcells.of_eq gameNewApple_cellStates gameNewApple_freeCells
      gameNewApple_numFreeCells, hnodup, ?_, ?_, ?_, gameNewApple_mem hcells hnum, ?_⟩⟩
    · rw [List.head?_append, h.tail, gameNewApple_tailCell, useHead_tailCell, Option.some_or]
    · rw [List.getLast?_concat, gameNewApple_headCell, useHead_headCell]
    · exact hleads.congr fun _ _ => cellState_congr gameNewApple_cellStates
    · rw [gameNewApple_direction, useHead_direction]
      exact h.direction
  · -- the tail moves to the cell after it
    rcases List.head?_eq_some_iff.mp h.tail with ⟨rest, hrest⟩
    rw [hrest, List.cons_append] at hcells hleads hnodup
    have htail : tailCell g ∈ bodySet (tailCell g :: (rest ++ [c])) := List.mem_cons_self
    have hother : ∀ b ∈ rest ++ [c], b ≠ tailCell g := by
      rintro b hb rfl
      exact (List.nodup_cons.mp hnodup).1 hb
    have hset : bodySet (tailCell g :: (rest ++ [c])) \ {tailCell g} = bodySet (rest ++ [c]) := by
      ext b
      simp only [bodySet, Set.mem_sdiff, Set.mem_ofPred_eq, List.mem_cons, Set.mem_singleton_iff]
      constructor
      · tauto
      · intro hb
        exact ⟨.inr hb, hother b hb⟩
    have hfree := hcells.freeCell htail
    rw [hset] at hfree
    rw [Leads, List.isChain_cons] at hleads
    -- the state of the tail leads to the next cell of the body
    cases hy : (rest ++ [c]).head? with
    | none => simp at hy
    | some y =>
      have hcell : tailCell (gameFreeCell (useHead g c) g.tailX g.tailY) = tailCell g := by
        rw [gameFreeCell_tailCell, useHead_tailCell]
      rw [moveTail_eq (hcell.symm ▸ hcells.inGrid _ htail) (hcell.symm ▸ hleads.1 y hy)]
      refine ⟨rest ++ [c], ⟨hfree.setTail, (List.nodup_cons.mp hnodup).2, ?_, ?_, ?_, ?_, ?_⟩⟩
      · rw [setTail_tailCell]
        exact hy
      · rw [List.getLast?_concat, setTail_headCell, gameFreeCell_headCell, useHead_headCell]
      · apply Leads.congr hleads.2
        intro b hb
        rw [cellState_congr setTail_cellStates, gameFreeCell_cellState]
        exact cellState_set_of_ne (hcells.inGrid _ htail)
          (hcells.inGrid b (List.mem_cons_of_mem _ hb)) (hother b hb)
      · rw [setTail_appleCell, gameFreeCell_appleCell, useHead_appleCell]
        refine ⟨h.apple.1, fun hmem => ?_⟩
        rcases List.mem_append.mp hmem with hmem | hmem
        · apply h.apple.2
          rw [hrest]
          exact List.mem_cons_of_mem _ hmem
        · exact hne (List.mem_singleton.mp hmem).symm
      · rw [setTail_direction, gameFreeCell_direction, useHead_direction]
        exact h.direction

/-- Moving the tail keeps the states of the cells. -/
theorem moveTail_cellState : cellState (moveTail g d) c = cellState g c := by
  unfold moveTail
  split_ifs
  all_goals simp only [cellState, gameGetCellState]

theorem moveTail_headCell : headCell (moveTail g d) = headCell g := by
  unfold moveTail
  split_ifs
  all_goals simp only [headCell]

/-- If the head moves to the last free cell, the state of that cell is that of a free one. -/
theorem gameUpdate_lastFree (h : SnakeBody g body) (hupdate : gameUpdate g = some g')
    (hlast : nextCell (headCell g) g.direction = some (lastFree g)) :
    InGrid (headCell g') ∧ 4 ≤ cellState g' (headCell g') := by
  have hgrid := h.cells.inGrid _ h.head_mem
  rcases gameUpdate_cases h.direction hgrid hupdate with ⟨c, hnext, hstate, hcases⟩
  obtain rfl : c = lastFree g := Option.some_inj.mp (hnext.symm.trans hlast)
  have hc := h.next_free hnext hstate
  have hused : 4 ≤ cellState (useHead g (lastFree g)) (lastFree g) := by
    rwa [h.useHead_states hnext hstate hc.1, if_pos rfl]
  rcases hcases with ⟨_, _, rfl⟩ | ⟨_, rfl⟩
  · rw [cellState_congr setScore_cellStates, cellState_congr gameNewApple_cellStates,
      setScore_headCell, gameNewApple_headCell, useHead_headCell]
    exact ⟨hc.1, hused⟩
  · rw [moveTail_headCell, moveTail_cellState, gameFreeCell_headCell, useHead_headCell,
      gameFreeCell_cellState]
    have htail : lastFree g ≠ tailCell g := fun heq => hc.2 (heq ▸ h.tail_mem)
    refine ⟨hc.1, hused.trans_eq ?_⟩
    exact (cellState_set_of_ne (h.cells.inGrid _ h.tail_mem) hc.1 htail).symm

/-! ### The first state -/

/-- The cell with some index. -/
def cellAt (i : Nat) : Nat × Nat := (i % WIDTH, i / WIDTH)

/-- The cells of the board, in the order of the loops of `game_new`. -/
theorem cells_eq : cells = (List.range 1450).map cellAt := by decide +kernel

/-- They are on the board. -/
theorem cellAt_inGrid (hi : i < 1450) : InGrid (cellAt i) := by
  simp only [InGrid, cellAt, WIDTH, HEIGHT]
  omega

/-- The state of a cell, by its index. -/
theorem cellState_cellAt : cellState g (cellAt i) = g.cellStates i := by
  have hindex : i % WIDTH + i / WIDTH * WIDTH = i := by
    rw [Nat.mul_comm]
    exact Nat.mod_add_div i WIDTH
  simp only [cellState, gameGetCellState, cellAt, hindex]

/-- The state when the first cells are freed. -/
def freeFirst (memory : Game) (n : Nat) : Game :=
  { memory with
    cellStates := fun i => if i < n then i + 4 else memory.cellStates i
    freeCells := fun i => if i < n then cellAt i else memory.freeCells i
    numFreeCells := n }

/-- One more cell is free. -/
theorem freeFirst_succ (memory : Game) (hn : n < 1450) :
    gameFreeCell (freeFirst memory n) (cellAt n).1 (cellAt n).2 = freeFirst memory (n + 1) := by
  have hadd : U64.add n 4 = n + 4 := U64.add_eq (by omega)
  have hsucc : U64.add n 1 = n + 1 := U64.add_eq (by omega)
  have hindex : (cellAt n).1 + (cellAt n).2 * WIDTH = n := by
    simp only [cellAt, WIDTH]
    omega
  have hcoords : ((cellAt n).1 % 2 ^ 8, (cellAt n).2 % 2 ^ 8) = cellAt n := by
    have hgrid := cellAt_inGrid hn
    simp only [InGrid, WIDTH, HEIGHT] at hgrid
    rw [Nat.mod_eq_of_lt (by omega), Nat.mod_eq_of_lt (by omega)]
  simp only [gameFreeCell, gameSetCellState, gameSetFreeCellCoords, freeFirst, hadd, hsucc, hindex,
    hcoords, Game.mk.injEq, and_true]
  constructor
  all_goals
    ext1 i
    by_cases hi : i = n
    · rw [hi, Function.update_self, if_pos (Nat.lt_succ_self n)]
      try rw [Nat.mod_eq_of_lt (by omega)]
    · have hlt : i < n ↔ i < n + 1 := by omega
      simp only [Function.update_of_ne hi, hlt]

/-- `game_new` frees all the cells. -/
theorem gameNew_eq (memory : Game) : gameNew memory = freeFirst memory 1450 := by
  have hloop : ∀ n ≤ 1450, (List.range n).foldl
      (fun self i => gameFreeCell self (cellAt i).1 (cellAt i).2) (freeFirst memory 0) =
        freeFirst memory n := by
    intro n hn
    induction n with
    | zero => rfl
    | succ n ih =>
      rw [List.range_succ, List.foldl_append, List.foldl_cons, List.foldl_nil, ih (by omega)]
      exact freeFirst_succ memory (by omega)
  have hzero : freeFirst memory 0 = { memory with numFreeCells := 0 } := by
    simp only [freeFirst, Nat.not_lt_zero, if_false]
  rw [gameNew, cells_eq, List.foldl_map, ← hzero]
  exact hloop 1450 (le_refl 1450)

/-- The lists of the free cells and of the states, after `game_new`. -/
theorem gameNew_spec (memory : Game) : (gameNew memory).numFreeCells = 1450 ∧
    ∀ i < 1450, (gameNew memory).freeCells i = cellAt i ∧ (gameNew memory).cellStates i = i + 4 := by
  rw [gameNew_eq]
  exact ⟨rfl, fun i hi => ⟨if_pos hi, if_pos hi⟩⟩

/-- The body of the first snake, from its head on. -/
def firstCells (k : Nat) : Set (Nat × Nat) := {c | c.2 = 14 ∧ 25 ≤ c.1 ∧ c.1 < 25 + k}

/-- All the cells are free after `game_new`. -/
theorem gameNew_cells (memory : Game) : Cells (gameNew memory) (firstCells 0) := by
  rcases gameNew_spec memory with ⟨hnum, hspec⟩
  have hnone : ∀ c, c ∉ firstCells 0 := by
    rintro c ⟨_, hle, hlt⟩
    omega
  have hindex : ∀ c, InGrid c → ∃ i < 1450, cellAt i = c := by
    intro c hc
    simp only [InGrid, WIDTH, HEIGHT] at hc
    refine ⟨c.1 + c.2 * 50, by omega, ?_⟩
    apply Prod.ext
    all_goals simp only [cellAt, WIDTH]
    all_goals omega
  refine ⟨fun c hc => absurd hc (hnone c), fun c hc => absurd hc (hnone c), ?_, ?_, ?_, ?_⟩
  · rintro c ⟨hc, _⟩
    rcases hindex c hc with ⟨i, hi, rfl⟩
    rw [cellState_cellAt, (hspec i hi).2]
    omega
  · intro i hi
    rw [hnum] at hi
    rw [(hspec i hi).1, freeIndex, cellState_cellAt, (hspec i hi).2]
    omega
  · intro i hi
    rw [hnum] at hi
    rw [(hspec i hi).1]
    exact ⟨cellAt_inGrid hi, hnone _⟩
  · rintro c ⟨hc, _⟩
    rcases hindex c hc with ⟨i, hi, rfl⟩
    exact ⟨i, hnum ▸ hi, (hspec i hi).1⟩

/-- The state when the first cells of the snake are used. -/
structure FirstCells (k : Nat) (g : Game) : Prop where
  cells : Cells g (firstCells k)
  num : g.numFreeCells = 1450 - k
  free : ∀ i, 725 + k ≤ i → i < 1450 - k → g.freeCells i = cellAt i
  states : ∀ c ∈ firstCells k, cellState g c = LEFT

/-- One more cell of the first body is used. -/
theorem FirstCells.useCell {k : Nat} (h : FirstCells k g) (hk : k < 6) :
    FirstCells (k + 1) (gameUseCell g (25 + k) 14 LEFT) := by
  have hcell : cellAt (725 + k) = (25 + k, 14) := by
    apply Prod.ext
    all_goals simp only [cellAt, WIDTH]
    all_goals omega
  have hlast : lastFree g = cellAt (1449 - k) := by
    rw [lastFree, h.num, h.free _ (by omega) (by omega)]
    congr 1
    omega
  have hgrid : InGrid (25 + k, 14) := hcell ▸ cellAt_inGrid (by omega)
  have hnot : (25 + k, 14) ∉ firstCells k := fun hmem => lt_irrefl _ hmem.2.2
  have hc : (25 + k, 14) ∈ freeSet (firstCells k) := ⟨hgrid, hnot⟩
  have hne : (25 + k, 14) ≠ lastFree g := by
    rw [hlast]
    intro heq
    have hy : 14 = (1449 - k) / 50 := congrArg Prod.snd heq
    omega
  have hindex : freeIndex g (25 + k, 14) = 725 + k := by
    rw [← hcell, ← h.free _ (le_refl _) (by omega)]
    exact h.cells.listed.index_elem _ (by rw [h.num]; omega)
  -- the free cells before the one that is used, and after it, are still in their first order
  have hset : firstCells (k + 1) = insert (25 + k, 14) (firstCells k) := by
    ext c
    simp only [firstCells, Set.mem_insert_iff, Set.mem_ofPred_eq, Prod.ext_iff]
    omega
  have huse := gameUseCell_eq h.cells hc (d := LEFT)
  constructor
  · rw [hset]
    exact h.cells.useCell (c := (25 + k, 14)) (d := LEFT) hc hne (by decide)
  · rw [huse]
    show g.numFreeCells - 1 = _
    rw [h.num]
    omega
  · intro i hi hi'
    rw [huse]
    show Function.update g.freeCells (freeIndex g (25 + k, 14)) (lastFree g) i = _
    rw [hindex, Function.update_of_ne (by omega)]
    exact h.free i (by omega) (by omega)
  · intro c hmem
    rw [hset] at hmem
    rcases Set.mem_insert_iff.mp hmem with rfl | hmem
    · rw [gameUseCell_states h.cells hc (by decide) hgrid, if_neg hne, if_pos rfl]
    · have hne' : c ≠ (25 + k, 14) := fun heq => hnot (heq ▸ hmem)
      have hne'' : c ≠ lastFree g := fun heq => (h.cells.lastFree_mem hc).2 (heq ▸ hmem)
      rw [gameUseCell_states h.cells hc (by decide) (h.cells.inGrid c hmem), if_neg hne'', if_neg hne']
      exact h.states c hmem

/-- The body of the first snake, from its tail to its head. -/
def firstBody : List (Nat × Nat) := [(30, 14), (29, 14), (28, 14), (27, 14), (26, 14), (25, 14)]

/-- The cells of the first body. -/
theorem bodySet_firstBody : bodySet firstBody = firstCells 6 := by
  ext c
  simp only [bodySet, firstBody, firstCells, Set.mem_ofPred_eq, List.mem_cons, List.not_mem_nil,
    Prod.ext_iff, or_false]
  omega

/-- The game before the first cells are used. -/
def setStart (g : Game) : Game :=
  { g with headX := 25, headY := 14, tailX := 30, tailY := 14, direction := LEFT, score := 0 }

theorem setStart_freeCells : (setStart g).freeCells = g.freeCells := rfl
theorem setStart_numFreeCells : (setStart g).numFreeCells = g.numFreeCells := rfl

theorem Cells.setStart (h : Cells g U) : Cells (setStart g) U := h.of_eq rfl rfl rfl

/-- The game when some of the first cells are used. -/
def useFirst (g : Game) (k : Nat) : Game :=
  (List.range' 25 k).foldl (fun self x => gameUseCell self x 14 LEFT) (setStart g)

/-- `game_init` uses the cells of the first body, and puts the apple. -/
theorem gameInit_eq : gameInit g = gameNewApple (useFirst g 6) := rfl

/-- One more cell is used. -/
theorem useFirst_succ {k : Nat} : useFirst g (k + 1) = gameUseCell (useFirst g k) (25 + k) 14 LEFT := by
  unfold useFirst
  rw [List.range'_1_concat, List.foldl_append, List.foldl_cons, List.foldl_nil]

/-- The cells that are used change neither the head nor the tail. -/
theorem useFirst_keeps (k : Nat) : tailCell (useFirst g k) = (30, 14) ∧
    headCell (useFirst g k) = (25, 14) ∧ (useFirst g k).direction = LEFT := by
  induction k with
  | zero => exact ⟨rfl, rfl, rfl⟩
  | succ k ih =>
    rw [useFirst_succ, gameUseCell_tailCell, gameUseCell_headCell, gameUseCell_direction]
    exact ih

/-- The free cells after the first ones are used. -/
theorem useFirst_cells (memory : Game) {k : Nat} (hk : k ≤ 6) :
    FirstCells k (useFirst (gameNew memory) k) := by
  rcases gameNew_spec memory with ⟨hnum, hspec⟩
  induction k with
  | zero =>
    refine ⟨(gameNew_cells memory).setStart, setStart_numFreeCells.trans hnum, ?_, ?_⟩
    · intro i _ hi
      rw [show useFirst (gameNew memory) 0 = setStart (gameNew memory) from rfl, setStart_freeCells]
      exact (hspec i hi).1
    · rintro c ⟨_, hle, hlt⟩
      omega
  | succ k ih =>
    rw [useFirst_succ]
    exact (ih (by omega)).useCell (by omega)

/-- A game starts with the first body. -/
theorem gameInit_snake (memory : Game) : SnakeBody (gameInit (gameNew memory)) firstBody := by
  have hfirst := useFirst_cells memory (le_refl 6)
  have hcells := hfirst.cells
  rw [← bodySet_firstBody] at hcells
  rw [gameInit_eq]
  refine ⟨hcells.of_eq gameNewApple_cellStates gameNewApple_freeCells gameNewApple_numFreeCells,
    by decide, ?_, ?_, ?_, gameNewApple_mem hcells ?_, ?_⟩
  · rw [gameNewApple_tailCell, (useFirst_keeps 6).1]
    rfl
  · rw [gameNewApple_headCell, (useFirst_keeps 6).2.1]
    rfl
  · -- each cell is at the right of the next one
    have hchain : firstBody.IsChain fun c c' => nextCell c LEFT = some c' := by decide
    apply hchain.imp_of_mem_imp
    intro c c' hc _ hnext
    rwa [cellState_congr gameNewApple_cellStates, hfirst.states c (bodySet_firstBody ▸ hc)]
  · rw [hfirst.num]
    decide
  · rw [gameNewApple_direction, (useFirst_keeps 6).2.2]
    decide

/-! ### The runs -/

/-- What the arrays contain: the body of the snake, from its tail to its head, and the free cells. -/
structure Board (g : Game) (body : List (Nat × Nat)) : Prop where
  used : ∀ c, c ∈ body ↔ InGrid c ∧ cellState g c < 4
  nodup : body.Nodup
  tail : body.head? = some (tailCell g)
  head : body.getLast? = some (headCell g)
  leads : Leads g body
  freeNodup : ((List.range g.numFreeCells).map g.freeCells).Nodup
  free : ∀ c, c ∈ (List.range g.numFreeCells).map g.freeCells ↔ InGrid c ∧ c ∉ body
  states : ∀ i < g.numFreeCells, cellState g (g.freeCells i) = i + 4
  apple : appleCell g ∈ (List.range g.numFreeCells).map g.freeCells

/-- The invariant gives what is claimed of the board. -/
theorem SnakeBody.board (h : SnakeBody g body) : Board g body := by
  have hlisted := h.cells.listed
  have hfree : ∀ c, c ∈ (List.range g.numFreeCells).map g.freeCells ↔ InGrid c ∧ c ∉ body := by
    intro c
    rw [List.mem_map]
    constructor
    · rintro ⟨i, hi, rfl⟩
      exact hlisted.mem i (List.mem_range.mp hi)
    · intro hc
      rcases hlisted.exists_index c hc with ⟨i, hi, rfl⟩
      exact ⟨i, List.mem_range.mpr hi, rfl⟩
  refine ⟨fun c => ⟨fun hc => ⟨h.cells.inGrid c hc, h.cells.used c hc⟩, ?_⟩, h.nodup, h.tail, h.head,
    h.leads, ?_, hfree, fun i hi => ?_, (hfree _).mpr h.apple⟩
  · rintro ⟨hgrid, hlt⟩
    by_contra hnot
    have hle := h.cells.free c ⟨hgrid, hnot⟩
    omega
  · apply List.Nodup.map_on _ List.nodup_range
    intro i hi j hj heq
    exact hlisted.injective (List.mem_range.mp hi) (List.mem_range.mp hj) heq
  · have hle := h.cells.free _ (hlisted.mem i hi)
    have hindex := hlisted.index_elem i hi
    unfold freeIndex at hindex
    omega

/-- The states and the keys of a run whose updates return `OK`, the last one first, and the state in
    the end. -/
inductive Run : List (Game × Nat) → Game → Prop
  | start (memory : Game) : Run [] (gameInit (gameNew memory))
  | update {steps : List (Game × Nat)} {g g' : Game} (c : Nat) (h : Run steps g)
      (hupdate : gameUpdate (pressKey g c) = some g') : Run ((g, c) :: steps) g'

/-- When the key is pressed, the head does not move to the last free cell. -/
def AvoidsLastFree (step : Game × Nat) : Prop :=
  nextCell (headCell step.1) (pressKey step.1 step.2).direction ≠ some (lastFree step.1)

/-- A key changes the direction only. -/
theorem pressKey_eq (g : Game) (k : Nat) (h : g.direction < 4) :
    ∃ d < 4, pressKey g k = { g with direction := d } := by
  unfold pressKey
  split_ifs
  · exact ⟨LEFT, by decide, rfl⟩
  · exact ⟨RIGHT, by decide, rfl⟩
  · exact ⟨UP, by decide, rfl⟩
  · exact ⟨DOWN, by decide, rfl⟩
  · exact ⟨g.direction, h, rfl⟩

/-- A key keeps the body. -/
theorem SnakeBody.pressKey (h : SnakeBody g body) (k : Nat) : SnakeBody (pressKey g k) body := by
  rcases pressKey_eq g k h.direction with ⟨d, hd, heq⟩
  rw [heq]
  exact ⟨h.cells.of_eq rfl rfl rfl, h.nodup, h.tail, h.head, h.leads.congr fun _ _ => rfl, h.apple, hd⟩

/-- A key keeps the head and the free cells. -/
theorem pressKey_cells (g : Game) (k : Nat) : headCell (pressKey g k) = headCell g ∧
    lastFree (pressKey g k) = lastFree g := by
  unfold pressKey
  split_ifs
  all_goals exact ⟨rfl, rfl⟩

/-- A run in which the head avoids the last free cells keeps a snake. -/
theorem Run.snake {steps : List (Game × Nat)} (h : Run steps g) (hsafe : ∀ s ∈ steps, AvoidsLastFree s) :
    ∃ body, SnakeBody g body := by
  induction h with
  | start memory => exact ⟨firstBody, gameInit_snake memory⟩
  | @update steps g g' k _ hupdate ih =>
    rcases ih fun s hs => hsafe s (List.mem_cons_of_mem _ hs) with ⟨body, hsnake⟩
    apply gameUpdate_snake (hsnake.pressKey k) hupdate
    rw [(pressKey_cells g k).1, (pressKey_cells g k).2]
    exact hsafe (g, k) List.mem_cons_self

/-- The head of a board is a used cell. -/
theorem Board.head_used (h : Board g body) : cellState g (headCell g) < 4 :=
  ((h.used _).mp (List.mem_of_getLast? h.head)).2

/-- The states of a run are right if and only if the head always avoids the last free cell. -/
theorem board_iff {steps : List (Game × Nat)} (h : Run steps g) :
    ((∃ body, Board g body) ∧ ∀ s ∈ steps, ∃ body, Board s.1 body) ↔
      ∀ s ∈ steps, AvoidsLastFree s := by
  induction h with
  | start memory =>
    refine ⟨fun _ s hs => absurd hs List.not_mem_nil, fun _ => ⟨⟨_, (gameInit_snake memory).board⟩, ?_⟩⟩
    exact fun s hs => absurd hs List.not_mem_nil
  | @update steps g g' k hrun hupdate ih =>
    constructor
    · rintro ⟨⟨body', hboard'⟩, hboards⟩
      have hsafe := ih.mp ⟨hboards (g, k) List.mem_cons_self,
        fun s hs => hboards s (List.mem_cons_of_mem _ hs)⟩
      rcases hrun.snake hsafe with ⟨body, hsnake⟩
      intro s hs
      rcases List.mem_cons.mp hs with rfl | hs
      · intro hlast
        rw [← (pressKey_cells g k).1, ← (pressKey_cells g k).2] at hlast
        have hstate := (gameUpdate_lastFree (hsnake.pressKey k) hupdate hlast).2
        have hused := hboard'.head_used
        omega
      · exact hsafe s hs
    · intro hsafe
      rcases (hrun.update k hupdate).snake hsafe with ⟨body', hsnake'⟩
      have hboards := ih.mpr fun s hs => hsafe s (List.mem_cons_of_mem _ hs)
      refine ⟨⟨body', hsnake'.board⟩, fun s hs => ?_⟩
      rcases List.mem_cons.mp hs with rfl | hs
      · exact hboards.1
      · exact hboards.2 s hs

/-! ### A snake that bites the cell of its tail -/

/-- A memory with a seed for which the first apple is in front of the snake. -/
def appleMemory : Game where
  cellStates := fun _ => 0
  freeCells := fun _ => (0, 0)
  numFreeCells := 0
  headX := 0
  headY := 0
  tailX := 0
  tailY := 0
  appleX := 0
  appleY := 0
  direction := 0
  score := 0
  seed := 8935094041500323813

/-- The state after some keys, the last one first, if the updates return `OK`. -/
def playKeys (g : Game) : List Nat → Option Game
  | [] => some g
  | k :: keys =>
    match playKeys g keys with
    | none => none
    | some g => gameUpdate (pressKey g k)

/-- The states in which these keys are pressed, with the keys, the last one first. -/
def playSteps (g : Game) : List Nat → List (Game × Nat)
  | [] => []
  | k :: keys =>
    match playKeys g keys with
    | none => []
    | some g₁ => (g₁, k) :: playSteps g keys

/-- Pressing the keys is a run. -/
theorem playKeys_run {memory : Game} {keys : List Nat}
    (h : playKeys (gameInit (gameNew memory)) keys = some g) :
    Run (playSteps (gameInit (gameNew memory)) keys) g := by
  induction keys generalizing g with
  | nil =>
    cases Option.some_inj.mp h
    exact Run.start memory
  | cons k keys ih =>
    unfold playKeys at h
    unfold playSteps
    cases hplay : playKeys (gameInit (gameNew memory)) keys with
    | none =>
      rw [hplay] at h
      cases h
    | some g₁ =>
      rw [hplay] at h
      exact (ih hplay).update k h

/-- Whether a step avoids the last free cell can be decided. -/
instance (step : Game × Nat) : Decidable (AvoidsLastFree step) :=
  inferInstanceAs (Decidable (_ ≠ _))

/-- The keys after which the snake has eaten the apple and turned around: none, down, right, none and
    none. -/
def turnKeys : List Nat := [0, 0, ARROW_RIGHT_KEY, ARROW_DOWN_KEY, 0]

/-- The snake eats an apple in these five steps, none of which goes to the last free cell. -/
theorem turnKeys_play : (playKeys (gameInit (gameNew appleMemory)) turnKeys).any (fun g => g.score = 1) = true ∧
    (playSteps (gameInit (gameNew appleMemory)) turnKeys).length = 5 ∧
    ∀ s ∈ playSteps (gameInit (gameNew appleMemory)) turnKeys, AvoidsLastFree s := by
  rw [gameNew_eq]
  decide +kernel

/-- The states are right until the snake moves to the cell of its tail. -/
theorem board_iff_turn :
    ∃ (steps : List (Game × Nat)) (g : Game), steps.length = 5 ∧ g.score = 1 ∧ Run steps g ∧
      (∃ body, Board g body) ∧ (∀ s ∈ steps, ∃ body, Board s.1 body) ∧ ∀ s ∈ steps, AvoidsLastFree s := by
  obtain ⟨hplay, hlength, havoids⟩ := turnKeys_play
  obtain ⟨g, hg, hscore⟩ := (Option.any_eq_true _ _).mp hplay
  obtain ⟨hboard, hboards⟩ := (board_iff (playKeys_run hg)).mpr havoids
  exact ⟨_, g, hlength, of_decide_eq_true hscore, playKeys_run hg, hboard, hboards, havoids⟩

/-- The snake eats the apple, turns down, right and up, and moves to the cell that its tail left. -/
theorem not_board : ¬ ∀ (steps : List (Game × Nat)) (g : Game), Run steps g → ∃ body, Board g body := by
  intro h
  have hstate : (playKeys (gameInit (freeFirst appleMemory 1450)) (ARROW_UP_KEY :: turnKeys)).any
      (fun g => 4 ≤ cellState g (headCell g)) = true := by decide +kernel
  rcases (Option.any_eq_true _ _).mp hstate with ⟨g, hg, hle⟩
  rw [← gameNew_eq] at hg
  rcases h _ g (playKeys_run hg) with ⟨body, hboard⟩
  have hlt := hboard.head_used
  have hle := of_decide_eq_true hle
  omega

end Toys.Snake

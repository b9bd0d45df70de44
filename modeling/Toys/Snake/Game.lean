import Mathlib
import Toys.Lib.U64

namespace Toys.Snake

open Toys.Lib

/-!
# Snake — the game

The state of the game and the functions that update it.  What they draw is not modelled.

* `gameUseCell`, `gameFreeCell` — the cells of the snake and the free cells;
* `gameNew`, `gameInit` — the first state;
* `pressKey`, `gameUpdate` — the body of the loop of `main`.
-/

/-- The number of columns. -/
def WIDTH : Nat := 50

/-- The number of rows. -/
def HEIGHT : Nat := 29

/-- The direction to the left. -/
def LEFT : Nat := 0

/-- The direction to the right. -/
def RIGHT : Nat := 1

/-- The direction to the top. -/
def UP : Nat := 2

/-- The direction to the bottom. -/
def DOWN : Nat := 3

/-- The fields of `Game`.  The arrays are functions of an index. -/
structure Game where
  cellStates : Nat → Nat
  freeCells : Nat → Nat × Nat
  numFreeCells : Nat
  headX : Nat
  headY : Nat
  tailX : Nat
  tailY : Nat
  appleX : Nat
  appleY : Nat
  direction : Nat
  score : Nat
  seed : Nat

/-! ### Cells -/

/-- `game_get_cell_state`. -/
def gameGetCellState (self : Game) (x y : Nat) : Nat := self.cellStates (x + y * WIDTH)

/-- `game_set_cell_state`: the state is stored in 16 bits. -/
def gameSetCellState (self : Game) (x y state : Nat) : Game :=
  { self with cellStates := Function.update self.cellStates (x + y * WIDTH) (state % 2 ^ 16) }

/-- `game_get_free_cell_coords`. -/
def gameGetFreeCellCoords (self : Game) (index : Nat) : Nat × Nat := self.freeCells index

/-- `game_set_free_cell_coords`: each coordinate is stored in 8 bits. -/
def gameSetFreeCellCoords (self : Game) (index x y : Nat) : Game :=
  { self with freeCells := Function.update self.freeCells index (x % 2 ^ 8, y % 2 ^ 8) }

/-- `game_free_cell`. -/
def gameFreeCell (self : Game) (x y : Nat) : Game :=
  let freeCellIndex := self.numFreeCells
  let self := gameSetCellState self x y (U64.add freeCellIndex 4)
  let self := gameSetFreeCellCoords self freeCellIndex x y
  { self with numFreeCells := U64.add freeCellIndex 1 }

/-- `game_use_cell`. -/
def gameUseCell (self : Game) (x y direction : Nat) : Game :=
  let freeCellIndex := U64.sub (gameGetCellState self x y) 4
  let self := gameSetCellState self x y direction
  let lastFreeCellIndex := U64.sub self.numFreeCells 1
  let (lastX, lastY) := gameGetFreeCellCoords self lastFreeCellIndex
  let self := gameSetFreeCellCoords self freeCellIndex lastX lastY
  let self := gameSetCellState self lastX lastY (U64.add freeCellIndex 4)
  { self with numFreeCells := lastFreeCellIndex }

/-! ### The first state -/

/-- The cells, in the order of the loops of `game_new`. -/
def cells : List (Nat × Nat) :=
  (List.range HEIGHT).flatMap fun y => (List.range WIDTH).map fun x => (x, y)

/-- `game_new`, in a memory whose content is that of a state. -/
def gameNew (memory : Game) : Game :=
  cells.foldl (fun self c => gameFreeCell self c.1 c.2) { memory with numFreeCells := 0 }

/-- `random`: the result is the new value of the seed. -/
def random (seed : Nat) : Nat := (seed * 1664525 + 1013904223) % 2 ^ 64

/-- `modulo`. -/
def modulo (x m : Nat) : Nat := x - (x / m) * m

/-- `game_new_apple`. -/
def gameNewApple (self : Game) : Game :=
  let seed := random self.seed
  let index := modulo (seed >>> 21) self.numFreeCells
  let (appleX, appleY) := gameGetFreeCellCoords self index
  { self with seed := seed, appleX := appleX, appleY := appleY }

/-- `game_init`. -/
def gameInit (self : Game) : Game :=
  let headX := WIDTH / 2
  let headY := HEIGHT / 2
  let self := { self with
    headX := headX, headY := headY, tailX := headX + 5, tailY := headY, direction := LEFT, score := 0 }
  let self := (List.range' headX 6).foldl (fun self x => gameUseCell self x headY LEFT) self
  gameNewApple self

/-! ### The loop -/

/-- The key that turns to the left. -/
def ARROW_LEFT_KEY : Nat := 132

/-- The key that turns to the right. -/
def ARROW_RIGHT_KEY : Nat := 131

/-- The key that turns to the top. -/
def ARROW_UP_KEY : Nat := 129

/-- The key that turns to the bottom. -/
def ARROW_DOWN_KEY : Nat := 130

/-- The direction after a key, which is not the escape key. -/
def pressKey (self : Game) (c : Nat) : Game :=
  if c = ARROW_LEFT_KEY then { self with direction := LEFT }
  else if c = ARROW_RIGHT_KEY then { self with direction := RIGHT }
  else if c = ARROW_UP_KEY then { self with direction := UP }
  else if c = ARROW_DOWN_KEY then { self with direction := DOWN }
  else self

/-- The part of `game_update` that moves the head, or nothing if it returns `INVALID_STATE`. -/
def moveHead (self : Game) : Option Game :=
  if self.direction = LEFT then
    if self.headX = 0 then none else some { self with headX := U64.sub self.headX 1 }
  else if self.direction = RIGHT then
    if self.headX = WIDTH - 1 then none else some { self with headX := U64.add self.headX 1 }
  else if self.direction = UP then
    if self.headY = 0 then none else some { self with headY := U64.sub self.headY 1 }
  else if self.direction = DOWN then
    if self.headY = HEIGHT - 1 then none else some { self with headY := U64.add self.headY 1 }
  else some self

/-- The part of `game_update` that moves the tail. -/
def moveTail (self : Game) (tailDirection : Nat) : Game :=
  if tailDirection = LEFT then { self with tailX := U64.sub self.tailX 1 }
  else if tailDirection = RIGHT then { self with tailX := U64.add self.tailX 1 }
  else if tailDirection = UP then { self with tailY := U64.sub self.tailY 1 }
  else if tailDirection = DOWN then { self with tailY := U64.add self.tailY 1 }
  else self

/-- `game_update`: the state when it returns `OK`, and nothing when it returns `INVALID_STATE`. -/
def gameUpdate (self : Game) : Option Game :=
  let oldHeadX := self.headX
  let oldHeadY := self.headY
  match moveHead self with
  | none => none
  | some self =>
    if gameGetCellState self self.headX self.headY < 4 then none
    else
      let self := gameSetCellState self oldHeadX oldHeadY self.direction
      let self := gameUseCell self self.headX self.headY 0
      if self.headX = self.appleX ∧ self.headY = self.appleY then
        if self.numFreeCells = 0 then none
        else
          let self := gameNewApple self
          some { self with score := U64.add self.score 1 }
      else
        let tailDirection := gameGetCellState self self.tailX self.tailY
        let self := gameFreeCell self self.tailX self.tailY
        some (moveTail self tailDirection)

end Toys.Snake

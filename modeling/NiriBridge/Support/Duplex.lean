import NiriBridge.Support.Run
import Mathlib.Data.List.Basic
import Mathlib.Logic.Function.Basic

/-!
# Support — Duplex

Two parties joined by two FIFO channels.  A party is a machine `step : N → I → Option M → N × List
M`: its state, a local input, and the message it takes off its channel, if it takes one; it yields a
new state and the messages it writes.  Nothing bounds how long a message stays in flight: a label
says which party moves and whether the move takes a message, and every sequence of labels is a run.

`sent s` records everything party `s` has written; it plays no part in any step.
-/

namespace Duplex

/-- The two ends of the connection. -/
inductive Side where
  | left
  | right
deriving DecidableEq, Repr

/-- The other side. -/
def Side.other : Side → Side
  | .left => .right
  | .right => .left

@[simp] theorem Side.other_other (s : Side) : s.other.other = s := by cases s <;> rfl

@[simp] theorem Side.other_ne (s : Side) : s.other ≠ s := by cases s <;> decide

@[simp] theorem Side.ne_other (s : Side) : s ≠ s.other := by cases s <;> decide

theorem Side.eq_or_eq_other (s t : Side) : s = t ∨ s = t.other := by cases s <;> cases t <;> decide

variable {N I M : Type}

/-- Two parties and what is on its way between them. -/
structure State (N M : Type) where
  node : Side → N
  /-- The messages on their way to a party, oldest first. -/
  chan : Side → List M
  /-- Every message a party has written. -/
  sent : Side → List M

/-- Party `side` moves with the local input `input`; when `takes`, it takes the oldest message on
its way to it. -/
structure Label (I : Type) where
  side : Side
  input : I
  takes : Bool

/-- The state after party `s` went to `n`, left `rest` on its channel and wrote `out`. -/
def State.move (d : State N M) (s : Side) (n : N) (rest out : List M) : State N M where
  node := Function.update d.node s n
  chan := Function.update (Function.update d.chan s rest) s.other (d.chan s.other ++ out)
  sent := Function.update d.sent s (d.sent s ++ out)

section Move
variable (d : State N M) (s : Side) (n : N) (rest out : List M)

@[simp] theorem move_node : (d.move s n rest out).node s = n := Function.update_self ..

@[simp] theorem move_node_other : (d.move s n rest out).node s.other = d.node s.other :=
  Function.update_of_ne s.other_ne ..

@[simp] theorem move_chan : (d.move s n rest out).chan s = rest := by simp [State.move]

@[simp] theorem move_chan_other : (d.move s n rest out).chan s.other = d.chan s.other ++ out :=
  Function.update_self ..

@[simp] theorem move_sent : (d.move s n rest out).sent s = d.sent s ++ out :=
  Function.update_self ..

@[simp] theorem move_sent_other : (d.move s n rest out).sent s.other = d.sent s.other :=
  Function.update_of_ne s.other_ne ..

end Move

variable (step : N → I → Option M → N × List M)

/-- One label.  Taking from an empty channel does nothing. -/
def next (d : State N M) (l : Label I) : State N M :=
  if l.takes then
    match d.chan l.side with
    | [] => d
    | m :: rest =>
        let r := step (d.node l.side) l.input (some m)
        d.move l.side r.1 rest r.2
  else
    let r := step (d.node l.side) l.input none
    d.move l.side r.1 (d.chan l.side) r.2

/-- A label does nothing, or it is one move of its party. -/
theorem next_cases (d : State N M) (l : Label I) :
    next step d l = d ∨ ∃ m rest, m.isSome = l.takes ∧ d.chan l.side = m.toList ++ rest ∧
      next step d l = d.move l.side (step (d.node l.side) l.input m).1 rest
        (step (d.node l.side) l.input m).2 := by
  unfold next
  split_ifs with ht
  · cases hc : d.chan l.side with
    | nil => exact Or.inl rfl
    | cons m rest => exact Or.inr ⟨some m, rest, ht.symm, rfl, rfl⟩
  · exact Or.inr ⟨none, d.chan l.side, (eq_false_of_ne_true ht).symm, rfl, rfl⟩

end Duplex

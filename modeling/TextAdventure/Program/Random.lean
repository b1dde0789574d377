/-!
Random numbers.

Where random numbers come from is left open.  A generator is a stream with a place in it; a draw
gives a whole number between 1 and a limit and moves on in the stream, and what it gives is
determined by the stream, the place and the limit.

Main statements:
* `Generator` — a stream of random numbers, at a place in it;
* `Generator.upTo` — the next whole number between 1 and a limit;
* `Generator.ones` — the stream of ones.

Design notes.  A stream may pass over some of its numbers before it settles on one, but it always
settles: `Generator.draw` has an answer for every place and every limit.  This and the two bounds
are all that is assumed of a stream.
-/

namespace TextAdventure

/-- A stream of random numbers and a place in it: for each place and each limit the number that is
drawn, and the place behind. -/
structure Generator where
  draw : Nat → Nat → Nat × Nat
  place : Nat
  one_le_draw (place limit : Nat) (h : 1 ≤ limit) : 1 ≤ (draw place limit).1
  draw_le (place limit : Nat) (h : 1 ≤ limit) : (draw place limit).1 ≤ limit

namespace Generator

/-- A whole number between 1 and a positive limit. -/
def upTo (g : Generator) (limit : Nat) : Nat × Generator :=
  let (n, place) := g.draw g.place limit
  (n, { g with place := place })

theorem upTo_bounds (g : Generator) {limit : Nat} (h : 1 ≤ limit) :
    1 ≤ (g.upTo limit).1 ∧ (g.upTo limit).1 ≤ limit :=
  ⟨g.one_le_draw g.place limit h, g.draw_le g.place limit h⟩

/-- The stream of ones. -/
def ones : Generator where
  draw place _ := (1, place + 1)
  place := 0
  one_le_draw _ _ _ := Nat.le_refl 1
  draw_le _ _ h := h

end Generator

end TextAdventure

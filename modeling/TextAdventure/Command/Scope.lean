import TextAdventure.World.Tree

/-!
What a player can refer to.

Objects that the actor holds, that are in the location, or that are everywhere are in scope, and
so is what is inside an object in scope that is open or transparent.

Main statements:
* `World.visibleObjects` — the objects in scope, in the order in which they are met.
-/

namespace TextAdventure.World

/-- Whether one can see into an object. -/
def showsContents (w : World) (o : ObjectId) : Bool := w.flag o "OPENBIT" || w.flag o "TRANSBIT"

/-- Adds what a container shows to the objects in scope: each of its children but the actor and
those met before, and at once what that child shows.  Containers nest at most `depth` deep. -/
def collect (w : World) (actor : Option ObjectId) : Nat → List ObjectId → ObjectId →
    List ObjectId
  | 0, scope, _ => scope
  | depth + 1, scope, container =>
    (w.children container).foldl (fun scope child =>
      if some child = actor ∨ child ∈ scope then scope
      else
        let scope := scope ++ [child]
        if w.showsContents child then w.collect actor depth scope child else scope) scope

/-- The containers in which a search begins: the actor, the location (or else where the actor
is), and the container of what is everywhere. -/
def scopeRoots (w : World) (actor location : Option ObjectId) : List ObjectId :=
  let location := location.or (actor.bind w.parent?)
  [actor, location, w.lookup? "GLOBAL-OBJECTS"].filterMap id

/-- The objects in scope. -/
def visibleObjects (w : World) (actor location : Option ObjectId) : List ObjectId :=
  (w.scopeRoots actor location).foldl (w.collect actor (w.objects.length + 1)) []

end TextAdventure.World

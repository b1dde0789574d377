import TextAdventure.Proofs.Game.Interleaving
import TextAdventure.Proofs.Play.Reachable

/-!
The phases of loading.

Loading is three things in a row: objects come into being and flags become known; objects get
their properties and places; and then come values, routines and words.

* `introduce`, `furnish`, `complete` — the three, and `loadDeclarations_phases`, which puts them
  together;
* `introduce_evolves`, `furnish_evolves`, `declareValues_evolves` — they lead from world to world by
  single changes;
* `exists_of_load` — a loaded game comes from declarations that have gone through all of them;
* `load_of_introduce_failed`, `load_of_furnish_failed` — and where the first or the second fails,
  loading fails.
-/

namespace TextAdventure

theorem Run.ofExcept_eq_done {α : Type} {e : Except Fault α} {a : α} {m m' : Machine}
    (h : Run.ofExcept e m = (.done a, m')) : e = .ok a ∧ m' = m := by
  cases e with
  | error fault => cases h
  | ok b =>
    cases h
    exact ⟨rfl, rfl⟩

/-- All objects come into being, and all flags named in code become known. -/
def introduce (ds : List Declaration) : Run Unit := do
  Run.forEach registerObject (ds.filter (·.kind.isObject))
  Run.modifyWorld fun w => (declaredFlags ds).foldl World.declareFlag w

/-- Objects get their properties and places. -/
def furnish (settings : Settings) (fuel : Nat) (ds : List Declaration) : Run Unit :=
  Run.forEach (fillObject settings.library fuel) (ds.filter (·.kind.isObject)).reverse

/-- Globals and property defaults get their values, routines are defined, and words come last. -/
def complete (settings : Settings) (fuel : Nat) (ds : List Declaration) :
    Run (Library × Vocabulary) := do
  Run.forEach (declareValue settings.library fuel) ds
  let lib ← defineRoutines fuel settings.library (ds.filter (·.kind == .routine))
  let vocabulary ← Run.ofExcept (declareVocabulary .empty ds)
  return (lib, vocabulary)

theorem loadDeclarations_phases (settings : Settings) (fuel : Nat) (ds : List Declaration) :
    loadDeclarations settings fuel ds = (do
      introduce ds
      furnish settings fuel ds
      complete settings fuel ds) := by
  rw [introduce, Run.bind_assoc]
  rfl

/-- A loaded game comes from declarations that have gone through all phases. -/
theorem exists_of_load {settings : Settings} {fuel : Nat} {nodes : List Node} {g : Game}
    (h : load settings fuel nodes = .done g) :
    ∃ ds vocabulary, classify nodes = .ok ds ∧
      loadDeclarations settings fuel ds (.initial settings.random) =
        (.done (g.library, vocabulary), g.machine) := by
  rcases hds : classify nodes with fault | ds
  · rw [load_of_classify_eq_error hds] at h
    cases h
  · rw [load_of_classify_eq_ok hds] at h
    rcases hrun : loadDeclarations settings fuel ds (.initial settings.random) with
      ⟨⟨library, vocabulary⟩ | s | f | _, machine⟩
    all_goals rw [hrun] at h
    · cases h
      exact ⟨ds, vocabulary, rfl, hrun⟩
    · cases h
    · cases h
    · cases h

theorem Run.Evolves.forEach {α : Type} {act : α → Run Unit} (h : ∀ a, Run.Evolves (act a))
    (as : List α) : Run.Evolves (Run.forEach act as) := by
  induction as with
  | nil => exact .pure ()
  | cons a as ih => exact .bind (h a) fun _ => ih

theorem introduce_evolves (ds : List Declaration) : Run.Evolves (introduce ds) :=
  .bind (.forEach (fun d => (evolves_loadLogic.registerObject (s := ()) d).1) _) fun _ =>
    .modifyWorld (declareFlags_evolves _)

theorem furnish_evolves (settings : Settings) (fuel : Nat) (ds : List Declaration) :
    Run.Evolves (furnish settings fuel ds) :=
  .forEach (fun d => (evolves_loadLogic.fillObject (s := ()) settings.library fuel d).1) _

theorem declareValues_evolves (lib : Library) (fuel : Nat) (ds : List Declaration) :
    Run.Evolves (Run.forEach (declareValue lib fuel) ds) :=
  .forEach (fun d => (evolves_loadLogic.declareValue (s := ()) lib fuel d).1) ds

/-- A failure in the first phase is the failure of loading. -/
theorem load_of_introduce_failed {settings : Settings} {fuel : Nat} {nodes : List Node}
    {ds : List Declaration} (hds : classify nodes = .ok ds) {f : Failure} {m : Machine}
    (hintroduce : introduce ds (.initial settings.random) = (.failed f, m)) :
    load settings fuel nodes = .failed f := by
  rw [load_of_classify_eq_ok hds, loadDeclarations_phases, Run.bind_of_failed hintroduce]

/-- A failure in the second phase is the failure of loading. -/
theorem load_of_furnish_failed {settings : Settings} {fuel : Nat} {nodes : List Node}
    {ds : List Declaration} (hds : classify nodes = .ok ds) {m m' : Machine}
    (hintroduce : introduce ds (.initial settings.random) = (.done (), m)) {f : Failure}
    (hfurnish : furnish settings fuel ds m = (.failed f, m')) :
    load settings fuel nodes = .failed f := by
  rw [load_of_classify_eq_ok hds, loadDeclarations_phases, Run.bind_of_done hintroduce,
    Run.bind_of_failed hfurnish]

end TextAdventure

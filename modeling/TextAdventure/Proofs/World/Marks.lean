import Mathlib.Data.Finset.Basic
import TextAdventure.Proofs.World.History
import TextAdventure.Proofs.World.Packing

/-!
Flags as marks on objects.

By name, the flags of a world are a set of pairs of an object and a flag, kept in the plainest way:
an object comes with its marks, a flag that is known can be put on an object, and a flag can be
taken off.  Numbers, words and bits are left out.

* `FlagRecord`, `FlagRecord.after` — the marks after some demands;
* `FlagVocabulary.WellFormed` — names and numbers belong together one to one;
* `World.FlagsSound` — every bit on an object is the number of a flag and has room in its words;
* `FlagRecord.Describes.obey` — what one demand does to a world it does to the marks;
* `World.flags_refine_marks` — so it is for all demands together.
-/

namespace TextAdventure

/-! ### Marks -/

/-- What has been said about flags: the names of the objects, the flags that are known, both in
the order in which they came, and which flag is on which object. -/
structure FlagRecord where
  objects : List String
  known : List String
  marks : Finset (ObjectId × String)

namespace FlagRecord

def empty : FlagRecord := ⟨[], [], ∅⟩

/-- Makes a name known. -/
def learn (known : List String) (name : String) : List String :=
  if canonical name ∈ known then known else known ++ [canonical name]

/-- What a demand does to the marks. -/
def obey (r : FlagRecord) : World.Demand → FlagRecord
  | .call (.register spec) =>
    if canonical spec.name ∉ r.objects ∧ r.objects.length < handleLimit then
      { objects := r.objects ++ [canonical spec.name]
        known := spec.flags.foldl learn r.known
        marks := r.marks ∪ (spec.flags.map fun f => (⟨r.objects.length⟩, canonical f)).toFinset }
    else r
  | .call (.setFlag o f) =>
    if o.index < r.objects.length ∧ canonical f ∈ r.known then
      { r with marks := insert (o, canonical f) r.marks }
    else r
  | .call (.clearFlag o f) => { r with marks := r.marks.erase (o, canonical f) }
  | .declareFlag f => { r with known := learn r.known f }
  | _ => r

/-- The marks after some demands. -/
def after (demands : List World.Demand) : FlagRecord := demands.foldl obey empty

theorem mem_learn {known : List String} {name other : String} :
    other ∈ learn known name ↔ other ∈ known ∨ other = canonical name := by
  rw [learn]
  split
  · rename_i hknown
    constructor
    · exact .inl
    · rintro (h | rfl)
      · exact h
      · exact hknown
  · rw [List.mem_append, List.mem_singleton]

end FlagRecord

/-! ### Names and numbers -/

namespace FlagVocabulary

/-- No name is there twice, and each is in canonical spelling. -/
structure WellFormed (v : FlagVocabulary) : Prop where
  nodup : v.names.Nodup
  canonical_eq : ∀ name ∈ v.names, canonical name = name

theorem names_declare (v : FlagVocabulary) (name : String) :
    (v.declare name).1.names = FlagRecord.learn v.names name := by
  rw [declare, FlagRecord.learn]
  rcases hbit : v.bit? name with _ | bit
  · rw [if_neg (List.idxOf?_eq_none_iff.mp hbit)]
  · rw [if_pos]
    rw [← contains_iff_mem, contains, hbit]
    rfl

theorem WellFormed.declare {v : FlagVocabulary} (hv : v.WellFormed) (name : String) :
    (v.declare name).1.WellFormed where
  nodup := by
    rw [names_declare, FlagRecord.learn]
    split
    · exact hv.nodup
    · rename_i hnew
      refine List.nodup_append.mpr ⟨hv.nodup, List.nodup_singleton _, ?_⟩
      rintro a ha b hb rfl
      exact hnew (List.mem_singleton.mp hb ▸ ha)
  canonical_eq other hother := by
    rw [names_declare, FlagRecord.mem_learn] at hother
    rcases hother with hold | rfl
    · exact hv.canonical_eq other hold
    · exact canonical_canonical name

/-- A name that becomes known gets the first number that is free. -/
theorem bit?_declare (v : FlagVocabulary) (name : String) :
    (v.declare name).1.bit? name = some (v.declare name).2 := by
  rw [FlagVocabulary.declare]
  rcases hbit : v.bit? name with _ | bit
  · have hnew : canonical name ∉ v.names := List.idxOf?_eq_none_iff.mp hbit
    refine List.idxOf?_eq_some_iff.mpr ⟨by simp, by simp, fun j hj heq => ?_⟩
    dsimp only at hj heq
    rw [List.getElem_append_left hj] at heq
    exact hnew (heq ▸ List.getElem_mem hj)
  · exact hbit

/-- The name of the number of a flag is its canonical name, and the other way round. -/
theorem WellFormed.bit?_eq_some_iff {v : FlagVocabulary} (hv : v.WellFormed) {name : String}
    {bit : Nat} : v.bit? name = some bit ↔ v.name? bit = some (canonical name) := by
  rw [bit?, name?, List.idxOf?_eq_some_iff, List.getElem?_eq_some_iff]
  constructor
  · rintro ⟨hlt, hname, -⟩
    exact ⟨hlt, hname⟩
  · rintro ⟨hlt, hname⟩
    refine ⟨hlt, hname, fun j hj heq => ?_⟩
    -- two places with one name are one place
    have hsame := hv.nodup.getElem_inj_iff.mp (heq.trans hname.symm)
    omega

/-- The numbers in use are those below the size. -/
theorem WellFormed.lt_size_iff {v : FlagVocabulary} (hv : v.WellFormed) {bit : Nat} :
    bit < v.size ↔ ∃ name, v.bit? name = some bit := by
  constructor
  · intro hlt
    refine ⟨v.names[bit], hv.bit?_eq_some_iff.mpr ?_⟩
    rw [hv.canonical_eq _ (List.getElem_mem hlt)]
    exact List.getElem?_eq_getElem hlt
  · rintro ⟨name, hname⟩
    exact bit?_lt hname

end FlagVocabulary

namespace World

/-! ### Flags of new objects -/

theorem declareAll_concat (v : FlagVocabulary) (names : List String) (name : String) :
    declareAll v (names ++ [name]) =
      (((declareAll v names).1.declare name).1,
        (declareAll v names).2.insert ((declareAll v names).1.declare name).2) := by
  rw [declareAll, List.foldl_append]
  rfl

/-- Making flags known is learning their names, and the set that is collected holds their numbers
and has room for them. -/
theorem declareAll_collects {v : FlagVocabulary} (hv : v.WellFormed) (names : List String) :
    (declareAll v names).1.WellFormed ∧
    (declareAll v names).1.names = names.foldl FlagRecord.learn v.names ∧
    (declareAll v names).2.Fits ∧
    (∀ name ∈ names, ∃ bit, (declareAll v names).1.bit? name = some bit) ∧
    ∀ bit, (declareAll v names).2.contains bit = true ↔
      ∃ name ∈ names, (declareAll v names).1.bit? name = some bit := by
  induction names using List.reverseRecOn with
  | nil => exact ⟨hv, rfl, .empty, nofun, fun bit => by simp [declareAll]⟩
  | append_singleton names name ih =>
    obtain ⟨hformed, hnames, hfits, hknown, hbits⟩ := ih
    rw [declareAll_concat]
    generalize declareAll v names = made at hformed hnames hfits hknown hbits
    obtain ⟨made, set⟩ := made
    dsimp only at hformed hnames hfits hknown hbits ⊢
    have hkeeps {f : String} {bit : Nat} (h : made.bit? f = some bit) :
        (made.declare name).1.bit? f = some bit :=
      FlagVocabulary.bit?_of_prefix (made.prefix_declare name) h
    have hnew := made.bit?_declare name
    refine ⟨hformed.declare name, ?_, hfits.insert _, fun f hf => ?_, fun bit => ?_⟩
    · rw [FlagVocabulary.names_declare, hnames, List.foldl_append]
      rfl
    · rcases List.mem_append.mp hf with hold | hlast
      · obtain ⟨bit, hbit⟩ := hknown f hold
        exact ⟨bit, hkeeps hbit⟩
      · rw [List.mem_singleton.mp hlast]
        exact ⟨_, hnew⟩
    · rw [FlagSet.contains_insert, Bool.or_eq_true, decide_eq_true_iff, hbits]
      constructor
      · rintro (rfl | ⟨f, hf, hbit⟩)
        · exact ⟨name, by simp, hnew⟩
        · exact ⟨f, List.mem_append_left _ hf, hkeeps hbit⟩
      · rintro ⟨f, hf, hbit⟩
        rcases List.mem_append.mp hf with hold | hlast
        · -- an earlier name has kept its number
          obtain ⟨number, hnumber⟩ := hknown f hold
          obtain rfl := Option.some.inj ((hkeeps hnumber).symm.trans hbit)
          exact .inr ⟨f, hold, hnumber⟩
        · rw [List.mem_singleton.mp hlast, hnew] at hbit
          exact .inl (Option.some.inj hbit)

/-! ### Bits on objects -/

/-- Every bit on an object is the number of a flag, and the flags of an object have room in their
words. -/
structure FlagsSound (w : World) : Prop where
  vocabulary : w.flags.WellFormed
  named : w.FlagsNamed
  fits : ∀ object ∈ w.objects, object.flags.Fits

/-- All there is about flags in a world: the vocabulary, and what is on which object. -/
def flagView (w : World) : FlagVocabulary × List (String × FlagSet) :=
  (w.flags, w.objects.map fun object => (object.name, object.flags))

theorem flagView_modifyObject (w : World) (o : ObjectId) {change : GameObject → GameObject}
    (hname : ∀ object, (change object).name = object.name)
    (hflags : ∀ object, (change object).flags = object.flags) :
    (w.modifyObject o change).flagView = w.flagView := by
  rw [flagView, map_modifyObject _ w o fun object => by rw [hname, hflags]]
  rfl

theorem flagView_of_unplaced {w w' : World} (h : w'.unplaced = w.unplaced) :
    w'.flagView = w.flagView := by
  have hbare (v : World) : v.unplaced.flagView = v.flagView := by
    rw [flagView, flagView, unplaced, List.map_map]
    rfl
  rw [← hbare w', h, hbare]

theorem names_of_flagView {w w' : World} (h : w'.flagView = w.flagView) : w'.names = w.names := by
  have hlist := congrArg (fun view => view.2.map Prod.fst) h
  simpa [flagView, names, Function.comp_def] using hlist

/-- What is on an object is on the object of the same handle. -/
theorem flags_of_flagView {w w' : World} (h : w'.flagView = w.flagView) (o : ObjectId) :
    (w'.object? o).map (·.flags) = (w.object? o).map (·.flags) := by
  have hlist := congrArg (fun view => (view.2[o.index]?).map Prod.snd) h
  simpa [flagView, object?, Function.comp_def] using hlist

theorem flag_eq_true_iff {w : World} {o : ObjectId} {name : String} :
    w.flag o name = true ↔
      ∃ bit flags, w.flags.bit? name = some bit ∧ (w.object? o).map (·.flags) = some flags ∧
        flags.contains bit = true := by
  rw [flag]
  rcases w.flags.bit? name with _ | bit
  · simp
  · rcases w.object? o with _ | object
    · simp
    · simp

theorem flag_of_flagView {w w' : World} (h : w'.flagView = w.flagView) (o : ObjectId)
    (name : String) : w'.flag o name = w.flag o name := by
  have hflags : w'.flags = w.flags := congrArg Prod.fst h
  rw [Bool.eq_iff_iff, flag_eq_true_iff, flag_eq_true_iff, hflags, flags_of_flagView h]

namespace FlagsSound

theorem empty : World.empty.FlagsSound where
  vocabulary := ⟨List.nodup_nil, nofun⟩
  named := .empty
  fits := nofun

theorem congr {w w' : World} (hw : w.FlagsSound) (h : w'.flagView = w.flagView) :
    w'.FlagsSound := by
  have hflags : w'.flags = w.flags := congrArg Prod.fst h
  have hmem {object : GameObject} (hobject : object ∈ w'.objects) :
      ∃ old ∈ w.objects, object.flags = old.flags := by
    have hshown : (object.name, object.flags) ∈ w'.flagView.2 := List.mem_map_of_mem hobject
    rw [h] at hshown
    obtain ⟨old, hold, heq⟩ := List.mem_map.mp hshown
    exact ⟨old, hold, (congrArg Prod.snd heq).symm⟩
  refine ⟨hflags ▸ hw.vocabulary, fun object hobject bit hbit => ?_, fun object hobject => ?_⟩
  · obtain ⟨old, hold, heq⟩ := hmem hobject
    rw [hflags]
    exact hw.named old hold bit (heq ▸ hbit)
  · obtain ⟨old, hold, heq⟩ := hmem hobject
    exact heq ▸ hw.fits old hold

theorem changeFlag {w w' : World} (hw : w.FlagsSound) {o : ObjectId} {name : String}
    {change : FlagSet → Nat → FlagSet}
    (hcontains : ∀ s bit other, (change s bit).contains other = true →
      bit = other ∨ s.contains other = true)
    (hfits : ∀ s bit, s.Fits → (change s bit).Fits)
    (h : w.changeFlag o name change = .ok w') : w'.FlagsSound := by
  obtain ⟨-, ⟨-, rfl⟩ | ⟨bit, hbit, rfl⟩⟩ := changeFlag_eq_ok_iff.mp h
  · exact hw
  refine ⟨hw.vocabulary, fun object hobject other hother => ?_, fun object hobject => ?_⟩
  · obtain hold | ⟨old, hold, rfl⟩ := mem_modify hobject
    · exact hw.named object hold other hother
    · rcases hcontains _ _ _ hother with rfl | hcontained
      · exact FlagVocabulary.bit?_lt hbit
      · exact hw.named old hold other hcontained
  · obtain hold | ⟨old, hold, rfl⟩ := mem_modify hobject
    · exact hw.fits object hold
    · exact hfits _ bit (hw.fits old hold)

theorem register {w w' : World} (hw : w.FlagsSound) {spec : ObjectSpec} {o : ObjectId}
    (h : w.register spec = .ok (w', o)) : w'.FlagsSound := by
  have hnamed := hw.named.register h
  obtain ⟨hformed, -, hfits, -, -⟩ := declareAll_collects hw.vocabulary spec.flags
  obtain ⟨-, -, rfl, -⟩ := register_eq_ok_iff.mp h
  refine ⟨hformed, hnamed, fun object hobject => ?_⟩
  rcases List.mem_append.mp hobject with hold | hlast
  · exact hw.fits object hold
  · rw [List.mem_singleton.mp hlast]
    exact hfits

theorem declareFlag {w : World} (hw : w.FlagsSound) (name : String) :
    (w.declareFlag name).FlagsSound where
  vocabulary := hw.vocabulary.declare name
  named object hobject bit hbit :=
    (hw.named object hobject bit hbit).trans_le (w.flags.prefix_declare name).length_le
  fits := hw.fits

theorem change {w w' : World} (hw : w.FlagsSound) (h : Change w w') : w'.FlagsSound := by
  cases h with
  | program h =>
    cases h with
    | setFlag h =>
      refine hw.changeFlag (fun s bit other hother => ?_) (fun s bit hs => hs.insert bit) h
      rw [FlagSet.contains_insert, Bool.or_eq_true, decide_eq_true_iff] at hother
      exact hother
    | clearFlag h =>
      refine hw.changeFlag (fun s bit other hother => ?_) (fun s bit hs => hs.remove bit) h
      rw [FlagSet.contains_remove, Bool.and_eq_true] at hother
      exact .inr hother.2
    | putProperty h =>
      rw [putProperty_eq_ok h]
      exact hw.congr (flagView_modifyObject w _ (fun _ => rfl) fun _ => rfl)
    | move h =>
      obtain ⟨-, -, -, -, rfl⟩ := move_eq_ok h
      exact hw.congr (flagView_of_unplaced (by rw [unplaced_attach, unplaced_detach]))
    | remove h =>
      rw [remove_eq_ok h]
      exact hw.congr (flagView_of_unplaced (unplaced_detach w _))
    | setGlobal name value =>
      rw [setGlobal]
      split
      · exact hw.congr rfl
      · exact hw.congr rfl
    | newTable h =>
      obtain ⟨-, rfl, -⟩ := newTable_eq_ok_iff.mp h
      exact hw.congr rfl
    | tablePut h =>
      obtain ⟨tables, rfl⟩ := tablePut_eq_ok h
      exact hw.congr rfl
  | register h => exact hw.register h
  | declareFlag name => exact hw.declareFlag name
  | setPropertyDefault name value => exact hw.congr rfl
  | fillSlots slots => exact hw.congr rfl

theorem obey {w : World} (hw : w.FlagsSound) (d : Demand) : (w.obey d).FlagsSound := by
  rcases w.obey_eq_or_change d with heq | hchange
  · rw [heq]
    exact hw
  · exact hw.change hchange

end FlagsSound

/-- The flags of a new object are on it, and no other flag gets on or off an object. -/
theorem FlagsSound.flag_registered {w : World} (hw : w.FlagsSound) (spec : ObjectSpec)
    (x : ObjectId) (f : String) :
    (w.registered spec).flag x f = true ↔
      w.flag x f = true ∨ x = ⟨w.objects.length⟩ ∧ canonical f ∈ spec.flags.map canonical := by
  obtain ⟨hformed, -, -, hknown, hbits⟩ := declareAll_collects hw.vocabulary spec.flags
  have hgrows := (declareAll_spec w.flags spec.flags).1
  have hold : World.flag { w with flags := (declareAll w.flags spec.flags).1 } x f =
      w.flag x f := by
    apply hw.named.flag_of_prefix
    · rfl
    · exact hgrows
  rw [← hold, flag_eq_true_iff, flag_eq_true_iff]
  have hobject : ((w.registered spec).object? x).map (·.flags) =
      if x.index < w.objects.length then (w.object? x).map (·.flags)
      else if x.index = w.objects.length then some (declareAll w.flags spec.flags).2 else none := by
    rw [object?, object?, registered, List.getElem?_append]
    split
    · rfl
    · split
      · rename_i heq
        rw [heq, Nat.sub_self]
        rfl
      · rw [List.getElem?_eq_none (by simp only [List.length_singleton]; omega)]
        rfl
  have hflags : (w.registered spec).flags = (declareAll w.flags spec.flags).1 := rfl
  rw [hobject, hflags]
  by_cases hlt : x.index < w.objects.length
  · have hne : x ≠ ⟨w.objects.length⟩ := by
      rintro rfl
      exact Nat.lt_irrefl _ hlt
    rw [if_pos hlt]
    simp only [hne, false_and, or_false]
    rfl
  · have hnone : w.object? x = none := List.getElem?_eq_none (Nat.le_of_not_lt hlt)
    have hnowhere : World.object? { w with flags := (declareAll w.flags spec.flags).1 } x = none :=
      hnone
    rw [if_neg hlt, hnowhere]
    by_cases heq : x.index = w.objects.length
    · have hx : x = ⟨w.objects.length⟩ := ObjectId.ext heq
      rw [if_pos heq]
      constructor
      · rintro ⟨bit, flags, hbit, hset, hcontains⟩
        obtain rfl := Option.some.inj hset
        obtain ⟨g, hg, hnumber⟩ := (hbits bit).mp hcontains
        rw [(FlagVocabulary.bit?_eq_iff hnumber f).mp hbit]
        exact .inr ⟨hx, List.mem_map_of_mem hg⟩
      · rintro (⟨bit, flags, -, hset, -⟩ | ⟨-, hf⟩)
        · cases hset
        · obtain ⟨g, hg, hsame⟩ := List.mem_map.mp hf
          obtain ⟨bit, hbit⟩ := hknown g hg
          exact ⟨bit, _, (FlagVocabulary.bit?_eq_iff hbit f).mpr hsame.symm, rfl,
            (hbits bit).mpr ⟨g, hg, hbit⟩⟩
    · have hne : x ≠ ⟨w.objects.length⟩ := by
        rintro rfl
        exact heq rfl
      rw [if_neg heq]
      simp [hne]

theorem has_of_flag {w : World} {o : ObjectId} {f : String} (h : w.flag o f = true) :
    w.Has o ∧ w.flags.contains f = true := by
  obtain ⟨bit, flags, hbit, hflags, -⟩ := flag_eq_true_iff.mp h
  obtain ⟨object, hobject, -⟩ := Option.map_eq_some_iff.mp hflags
  refine ⟨has_of_object? hobject, ?_⟩
  rw [FlagVocabulary.contains, hbit]
  rfl

end World

/-! ### Marks describe worlds -/

namespace FlagRecord

open World (Demand)

/-- What has been said about flags is so. -/
structure Describes (r : FlagRecord) (w : World) : Prop where
  objects : w.names = r.objects
  known : w.flags.names = r.known
  flag (o : ObjectId) (f : String) : w.flag o f = true ↔ (o, canonical f) ∈ r.marks

namespace Describes

variable {r : FlagRecord} {w w' : World}

theorem empty : FlagRecord.empty.Describes World.empty where
  objects := rfl
  known := rfl
  flag _ _ := ⟨nofun, nofun⟩

theorem congr (h : r.Describes w) (hview : w'.flagView = w.flagView) : r.Describes w' where
  objects := (World.names_of_flagView hview).trans h.objects
  known := (congrArg (fun view => view.1.names) hview).trans h.known
  flag o f := by
    rw [World.flag_of_flagView hview]
    exact h.flag o f

theorem contains_iff (h : r.Describes w) {f : String} :
    w.flags.contains f = true ↔ canonical f ∈ r.known := by
  rw [FlagVocabulary.contains_iff_mem, h.known]

theorem has_iff (h : r.Describes w) {o : ObjectId} : w.Has o ↔ o.index < r.objects.length := by
  rw [World.Has, ← World.length_names, h.objects]

theorem register (h : r.Describes w) (hw : w.FlagsSound) (spec : ObjectSpec) :
    (r.obey (.call (.register spec))).Describes (w.obey (.call (.register spec))) := by
  rw [World.obey_register, obey, h.objects]
  split
  · refine ⟨?_, ?_, fun o f => ?_⟩
    · rw [← h.objects]
      exact List.map_append
    · rw [← h.known]
      exact (World.declareAll_collects hw.vocabulary spec.flags).2.1
    · have hmarks : (o, canonical f) ∈
            (spec.flags.map fun g => ((⟨r.objects.length⟩ : ObjectId), canonical g)).toFinset ↔
          o = ⟨w.objects.length⟩ ∧ canonical f ∈ spec.flags.map canonical := by
        rw [List.mem_toFinset, ← h.objects, World.length_names, List.mem_map, List.mem_map]
        constructor
        · rintro ⟨g, hg, heq⟩
          exact ⟨(congrArg Prod.fst heq).symm, g, hg, congrArg Prod.snd heq⟩
        · rintro ⟨rfl, g, hg, hsame⟩
          exact ⟨g, hg, Prod.ext rfl hsame⟩
      rw [hw.flag_registered, h.flag, Finset.mem_union, hmarks]
  · exact h

/-- A change of one flag on one object, told in marks. -/
theorem changeFlag (h : r.Describes w) {change : FlagSet → Nat → FlagSet} {on : Bool}
    (hchange : ∀ s bit other, (change s bit).contains other =
      if bit = other then on else s.contains other)
    {o : ObjectId} {f : String} (hok : w.changeFlag o f change = .ok w')
    {marks : Finset (ObjectId × String)}
    (hmarks : ∀ x other, (x, canonical other) ∈ marks ↔
      if x = o ∧ canonical other = canonical f ∧ canonical f ∈ r.known then on = true
      else (x, canonical other) ∈ r.marks) :
    Describes { r with marks := marks } w' where
  objects := by
    obtain ⟨-, ⟨-, rfl⟩ | ⟨bit, -, rfl⟩⟩ := World.changeFlag_eq_ok_iff.mp hok
    · exact h.objects
    · rw [World.names_modifyObject]
      · exact h.objects
      · exact fun _ => rfl
  known := by
    rw [World.flags_changeFlag hok]
    exact h.known
  flag x other := by
    rw [World.flag_changeFlag hchange hok, hmarks]
    simp only [h.contains_iff]
    split
    · rfl
    · exact h.flag x other

theorem setFlag (h : r.Describes w) (o : ObjectId) (f : String) :
    (r.obey (.call (.setFlag o f))).Describes (w.obey (.call (.setFlag o f))) := by
  have hinsert (s : FlagSet) (bit other : Nat) : (s.insert bit).contains other =
      if bit = other then true else s.contains other := by
    rw [FlagSet.contains_insert]
    by_cases heq : bit = other
    · simp [heq]
    · simp [heq]
  rw [obey]
  obtain ⟨fault, hfault, heq⟩ | hok := World.obey_edit (c := .setFlag o f) (f := w.setFlag o f) rfl
  · have hno := World.not_has_of_changeFlag hfault
    rw [h.has_iff] at hno
    rw [heq, if_neg fun hc => hno hc.1]
    exact h
  · have hhas := h.has_iff.mp (World.changeFlag_eq_ok_iff.mp hok).1
    by_cases hknown : canonical f ∈ r.known
    · rw [if_pos ⟨hhas, hknown⟩]
      refine h.changeFlag hinsert hok fun x other => ?_
      rw [Finset.mem_insert, Prod.mk.injEq]
      by_cases hsame : x = o ∧ canonical other = canonical f
      · simp [hsame, hknown]
      · simp only [hsame, false_or]
        rw [if_neg fun hc => hsame ⟨hc.1, hc.2.1⟩]
    · rw [if_neg fun hc => hknown hc.2]
      refine h.changeFlag hinsert hok fun x other => ?_
      rw [if_neg fun hc => hknown hc.2.2]

theorem clearFlag (h : r.Describes w) (o : ObjectId) (f : String) :
    (r.obey (.call (.clearFlag o f))).Describes (w.obey (.call (.clearFlag o f))) := by
  have hremove (s : FlagSet) (bit other : Nat) : (s.remove bit).contains other =
      if bit = other then false else s.contains other := by
    rw [FlagSet.contains_remove]
    by_cases heq : bit = other
    · simp [heq]
    · simp [heq]
  -- a mark is on an object that there is, and is that of a flag that is known
  have hmark (hmark : (o, canonical f) ∈ r.marks) : w.Has o ∧ canonical f ∈ r.known := by
    obtain ⟨hhas, hknown⟩ := World.has_of_flag ((h.flag o f).mpr hmark)
    exact ⟨hhas, h.contains_iff.mp hknown⟩
  rw [obey]
  obtain ⟨fault, hfault, heq⟩ | hok :=
    World.obey_edit (c := .clearFlag o f) (f := w.clearFlag o f) rfl
  · have hno := World.not_has_of_changeFlag hfault
    rw [heq, Finset.erase_eq_of_notMem fun hm => hno (hmark hm).1]
    exact h
  · refine h.changeFlag hremove hok fun x other => ?_
    rw [Finset.mem_erase, ne_eq, Prod.mk.injEq]
    by_cases hsame : x = o ∧ canonical other = canonical f
    · obtain ⟨rfl, hname⟩ := hsame
      rw [hname]
      by_cases hknown : canonical f ∈ r.known
      · simp [hknown]
      · simp only [hknown, and_false, if_false, and_self, not_true_eq_false, false_and, false_iff]
        exact fun hm => hknown (hmark hm).2
    · rw [if_neg fun hc => hsame ⟨hc.1, hc.2.1⟩]
      simp [hsame]

theorem declareFlag (h : r.Describes w) (hw : w.FlagsSound) (f : String) :
    (r.obey (.declareFlag f)).Describes (w.obey (.declareFlag f)) where
  objects := h.objects
  known := by
    show (w.flags.declare f).1.names = learn r.known f
    rw [FlagVocabulary.names_declare, h.known]
  flag o g := by
    have hold : (w.declareFlag f).flag o g = w.flag o g := by
      apply hw.named.flag_of_prefix
      · rfl
      · exact w.flags.prefix_declare f
    rw [World.obey, hold]
    exact h.flag o g

/-- What one demand does to a world it does to the marks. -/
theorem obey (h : r.Describes w) (hw : w.FlagsSound) (d : Demand) :
    (r.obey d).Describes (w.obey d) := by
  cases d with
  | call c =>
    cases c with
    | register spec => exact h.register hw spec
    | setFlag o f => exact h.setFlag o f
    | clearFlag o f => exact h.clearFlag o f
    | move o container =>
      exact h.congr (World.flagView_of_unplaced (w.unplaced_obey_move o container))
    | remove o => exact h.congr (World.flagView_of_unplaced (w.unplaced_obey_remove o))
    | putProperty o name value =>
      obtain ⟨fault, -, heq⟩ | hok :=
        World.obey_edit (c := .putProperty o name value) (f := w.putProperty o name value) rfl
      · rw [heq]
        exact h
      · rw [World.putProperty_eq_ok hok]
        exact h.congr (World.flagView_modifyObject w o (fun _ => rfl) fun _ => rfl)
    | newTable cells =>
      rw [World.obey_newTable]
      split
      · exact h.congr rfl
      · exact h
    | tableGet t index =>
      rw [World.obey_tableGet]
      exact h
    | tablePut t index value =>
      obtain ⟨fault, -, heq⟩ | hok :=
        World.obey_edit (c := .tablePut t index value) (f := w.tablePut t index value) rfl
      · rw [heq]
        exact h
      · obtain ⟨tables, heq⟩ := World.tablePut_eq_ok hok
        rw [heq]
        exact h.congr rfl
  | declareFlag f => exact h.declareFlag hw f
  | setPropertyDefault name value => exact h.congr rfl
  | setGlobal name value =>
    rw [World.obey, World.setGlobal]
    split
    · exact h.congr rfl
    · exact h.congr rfl
  | fillSlots slots => exact h.congr rfl

/-- The marks after some demands describe the world after them. -/
theorem after (demands : List Demand) :
    (FlagRecord.after demands).Describes (World.after demands) ∧
      (World.after demands).FlagsSound := by
  refine List.foldl_rel (r := fun r w => Describes r w ∧ w.FlagsSound) ⟨empty, .empty⟩ ?_
  rintro d - r w ⟨hdescribes, hsound⟩
  exact ⟨hdescribes.obey hsound d, hsound.obey d⟩

end Describes

end FlagRecord

namespace World

/-- Known flags stay known, with their numbers. -/
theorem Change.prefix_flags {w w' : World} (h : Change w w') :
    w.flags.names <+: w'.flags.names := by
  cases h with
  | program h => rw [(Endures.programChange h).flags]
  | register h =>
    obtain ⟨-, -, rfl, -⟩ := register_eq_ok_iff.mp h
    exact (declareAll_spec w.flags _).1
  | declareFlag name => exact w.flags.prefix_declare name
  | setPropertyDefault => exact List.prefix_rfl
  | fillSlots => exact List.prefix_rfl

theorem prefix_flags_obey (w : World) (d : Demand) :
    w.flags.names <+: (w.obey d).flags.names := by
  rcases w.obey_eq_or_change d with heq | hchange
  · rw [heq]
  · exact hchange.prefix_flags

theorem prefix_flags_after (demands more : List Demand) :
    (after demands).flags.names <+: (after (demands ++ more)).flags.names := by
  rw [after_append]
  refine List.foldlRecOn (motive := fun w => (after demands).flags.names <+: w.flags.names) more
    obey
    List.prefix_rfl ?_
  intro w hw d _
  exact hw.trans (prefix_flags_obey w d)

/-- The flags of a world are a set of marks.  After any demands a flag is on an object exactly when
the mark is in the set, and the flags that are known are those that were named.  They have the
numbers from zero on, one each: the name of the number of a flag is its canonical name, a flag that
becomes known gets the first number that is free, and keeps it whatever is demanded later; and it
is this number that a store changed in place finds in its index.  The numbers listed for an object
are those of the flags on it, in ascending order and below the size of the vocabulary; and the words
of 64 bits in which they are kept are tested, set, cleared and listed bit by bit like the set. -/
theorem flags_refine_marks (demands more : List Demand) :
    (∀ o f, (after demands).flag o f = true ↔
      (o, canonical f) ∈ (FlagRecord.after demands).marks) ∧
    (∀ f, (after demands).flags.contains f = true ↔
      canonical f ∈ (FlagRecord.after demands).known) ∧
    (∀ bit, bit < (after demands).flags.size ↔ ∃ f, (after demands).flags.bit? f = some bit) ∧
    (∀ f bit, (after demands).flags.bit? f = some bit ↔
      (after demands).flags.name? bit = some (canonical f)) ∧
    (∀ f, (after demands).flags.contains f = false →
      (after (demands ++ [.declareFlag f])).flags.bit? f = some (after demands).flags.size) ∧
    (∀ f bit, (after demands).flags.bit? f = some bit →
      (after (demands ++ more)).flags.bit? f = some bit) ∧
    (∀ f, (Store.after demands).flagBits.get? (canonical f) = (after demands).flags.bit? f) ∧
    ∀ o object, (after demands).object? o = some object →
      object.flags.toList.Pairwise (· < ·) ∧
      (∀ bit, bit ∈ object.flags.toList ↔ object.flags.contains bit = true) ∧
      (∀ bit, bit ∈ object.flags.toList ↔ ∃ f, (after demands).flags.bit? f = some bit ∧
        (o, canonical f) ∈ (FlagRecord.after demands).marks) ∧
      (∀ bit ∈ object.flags.toList, bit < (after demands).flags.size) ∧
      object.flags.Packs := by
  obtain ⟨hdescribes, hsound⟩ := FlagRecord.Describes.after demands
  have hformed := hsound.vocabulary
  refine ⟨hdescribes.flag, fun f => hdescribes.contains_iff, fun bit => hformed.lt_size_iff,
    fun f bit => hformed.bit?_eq_some_iff, fun f hnew => ?_, fun f bit hbit => ?_, fun f => ?_,
    fun o object hobject => ?_⟩
  · have hnone : (after demands).flags.bit? f = none := by
      rw [FlagVocabulary.contains] at hnew
      exact Option.isSome_eq_false_iff.mp hnew |> Option.isNone_iff_eq_none.mp
    rw [after_append]
    show ((after demands).flags.declare f).1.bit? f = _
    rw [FlagVocabulary.bit?_declare, FlagVocabulary.declare, hnone]
    rfl
  · exact FlagVocabulary.bit?_of_prefix (prefix_flags_after demands more) hbit
  · obtain ⟨hworld, hcoherent⟩ := Store.after_spec demands
    rw [hcoherent.flagBits, hworld]
  · have hmem : object ∈ (after demands).objects := List.mem_of_getElem? hobject
    have hfits := hsound.fits object hmem
    refine ⟨object.flags.toList_sorted, fun bit => FlagSet.mem_toList hfits, fun bit => ?_,
      fun bit hbit => ?_, hfits.packs⟩
    · rw [FlagSet.mem_toList hfits]
      constructor
      · intro hbit
        obtain ⟨f, hf⟩ := hformed.lt_size_iff.mp (hsound.named object hmem bit hbit)
        refine ⟨f, hf, (hdescribes.flag o f).mp ?_⟩
        rw [flag, hf, hobject]
        exact hbit
      · rintro ⟨f, hf, hmark⟩
        have hflag := (hdescribes.flag o f).mpr hmark
        rw [flag, hf, hobject] at hflag
        exact hflag
    · exact hsound.named object hmem bit ((FlagSet.mem_toList hfits).mp hbit)

/-- A lamp that can be taken is lit under another spelling, is marked with a flag that nobody knows,
and can no longer be taken: the one bit left on it is that of the light. -/
theorem flags_refine_marks_lamp :
    let demands : List Demand := [
      .call (.register { ObjectSpec.named "lamp" with flags := ["TakeBit"] }),
      .declareFlag "ONBIT",
      .call (.setFlag ⟨0⟩ "OnBit"),
      .call (.setFlag ⟨0⟩ "NOSUCHBIT"),
      .call (.clearFlag ⟨0⟩ "takebit")]
    (after demands).flag ⟨0⟩ "onbit" = true ∧
    (after demands).flag ⟨0⟩ "TAKEBIT" = false ∧
    (after (demands ++ [.declareFlag "nosuchbit"])).flags.bit? "nosuchbit" = some 2 ∧
    (after (demands ++ [.declareFlag "nosuchbit"])).flags.bit? "ONBIT" = some 1 := by
  intro demands
  obtain ⟨hflag, -, -, -, hnew, hkept, -⟩ :=
    flags_refine_marks demands [.declareFlag "nosuchbit"]
  refine ⟨(hflag _ _).mpr ?_, ?_, ?_, ?_⟩
  · decide +kernel
  · rw [Bool.eq_false_iff, ne_eq, hflag]
    decide +kernel
  · have hsize : (after demands).flags.size = 2 := by decide +kernel
    rw [← hsize]
    exact hnew "nosuchbit" (by decide +kernel)
  · exact hkept _ _ (by decide +kernel)

end World

end TextAdventure

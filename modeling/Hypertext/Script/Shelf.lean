import Hypertext.Options

/-! # Shelves of options

Options are kept under names, made from one another and compared. A step that fails leaves the
shelf as it was.
-/

namespace Hypertext

set_option autoImplicit false

abbrev Shelf := List (String × Options)

namespace Shelf

def find? (shelf : Shelf) (name : String) : Option Options :=
  (List.find? (·.1 = name) shelf).map (·.2)

def put (shelf : Shelf) (name : String) (options : Options) : Shelf :=
  (name, options) :: shelf.filter (·.1 ≠ name)

@[simp] theorem find?_put_self (shelf : Shelf) (name : String) (options : Options) :
    (shelf.put name options).find? name = some options := by
  simp [find?, put]

theorem find?_put_ne (shelf : Shelf) {name other : String} (options : Options)
    (h : other ≠ name) : (shelf.put name options).find? other = shelf.find? other := by
  unfold find? put
  rw [List.find?_cons_of_neg (by simpa using Ne.symm h), List.find?_filter]
  congr 2
  funext entry
  by_cases hEntry : entry.1 = name <;> simp [hEntry, Ne.symm h]

end Shelf

inductive ShelfStep where
  | make (target : String) (settings : List (String × Value))
  | preset (target : String) (preset : Options.Preset)
  | override (source target : String) (settings : List (String × Value))
  | copy (source target : String)
  | ofEntries (target : String) (entries : List (String × Value))
  /-- Exports options and makes options of the export. -/
  | roundTrip (source target : String)
  /-- Appends to the single tags of an export. -/
  | changeExport (target : String) (value : Value)
  | assign (target field : String) (value : Value)
  | addSingleTag (target : String) (value : Value)
  | validate (target : String)
  | look (target : String)
  | compare (left right : String)

inductive ShelfSight where
  | options (options : Options)
  | same (answer : Bool)
  | missing (name : String)

namespace ShelfStep

def keep (shelf : Shelf) (target : String) (outcome : Outcome Options) :
    Outcome ShelfSight × Shelf :=
  match outcome with
  | .ok options => (.ok (.options options), shelf.put target options)
  | .error fault => (.error fault, shelf)

def derive (shelf : Shelf) (source target : String) (f : Options → Outcome Options) :
    Outcome ShelfSight × Shelf :=
  match shelf.find? source with
  | some options => keep shelf target (f options)
  | none => (.ok (.missing source), shelf)

def run (shelf : Shelf) : ShelfStep → Outcome ShelfSight × Shelf
  | make target settings => keep shelf target (Options.ofSettings settings)
  | preset target which => keep shelf target (.ok (.ofPreset which))
  | override source target settings => derive shelf source target (·.override settings)
  | copy source target => derive shelf source target Options.copy
  | ofEntries target entries => keep shelf target (Options.ofEntries entries)
  | roundTrip source target => derive shelf source target (Options.ofEntries ·.toEntries)
  | changeExport target value =>
    derive shelf target target fun options => do
      let _ ← options.addSingleTag value
      return options
  | assign target field value => derive shelf target target (.ok <| ·.assignNamed field value)
  | addSingleTag target value => derive shelf target target (·.addSingleTag value)
  | validate target =>
    derive shelf target target fun options => do
      options.validate
      return options
  | look target => derive shelf target target .ok
  /- Options equal themselves, whatever they hold. -/
  | compare left right =>
    match shelf.find? left, shelf.find? right with
    | some a, some b => (.ok (.same (left = right || a.same b)), shelf)
    | none, _ => (.ok (.missing left), shelf)
    | _, none => (.ok (.missing right), shelf)

end ShelfStep

end Hypertext

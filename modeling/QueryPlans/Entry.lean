import QueryPlans.Scalar.Interchange

/-!
# Entry — nested entities

An entry has named properties and named navigations, each in the order of declaration.  Names may
repeat; the first of a name is the one that is found and set.
-/

namespace QueryPlans

mutual

/-- An entity with its properties and, by name, what its navigations lead to. -/
inductive Entry where
  | mk (properties : List (String × Scalar)) (navigations : List (String × Branch))

/-- What a navigation of an entry leads to. -/
inductive Branch where
  | single (entry : Option Entry)
  | collection (entries : List Entry)

end

/-! ## Finding and setting by name -/

/-- The first value of a name. -/
def findNamed? {α : Type} (name : String) (pairs : List (String × α)) : Option α :=
  (pairs.find? fun pair => pair.1 == name).map Prod.snd

/-- Replaces the first value of a name, or appends one. -/
def setNamed {α : Type} (name : String) (value : α) : List (String × α) → List (String × α)
  | [] => [(name, value)]
  | pair :: rest =>
    if pair.1 == name then (pair.1, value) :: rest else pair :: setNamed name value rest

/-- Changes the first value of a name, if there is one. -/
def updateNamed {α : Type} (name : String) (change : α → α) : List (String × α) → List (String × α)
  | [] => []
  | pair :: rest =>
    if pair.1 == name then (pair.1, change pair.2) :: rest
    else pair :: updateNamed name change rest

theorem findNamed?_setNamed {α : Type} (name : String) (value : α) (pairs : List (String × α)) :
    findNamed? name (setNamed name value pairs) = some value := by
  induction pairs with
  | nil => simp [findNamed?, setNamed]
  | cons pair rest ih =>
    rw [setNamed]
    split
    · next h => simp [findNamed?, h]
    · next h =>
      simp only [findNamed?, List.find?_cons, h]
      exact ih

namespace Entry

/-- An entry that says nothing. -/
def empty : Entry := mk [] []

/-- The properties in the order in which the layout has them. -/
def properties : Entry → List (String × Scalar)
  | mk properties _ => properties

/-- The navigations in the order in which the layout has them. -/
def navigations : Entry → List (String × Branch)
  | mk _ navigations => navigations

/-- The value of a property. -/
def get? (e : Entry) (name : String) : Option Scalar := findNamed? name e.properties

/-- Replaces a property, or appends it. -/
def set (e : Entry) (name : String) (value : Scalar) : Entry :=
  mk (setNamed name value e.properties) e.navigations

/-- What a navigation leads to. -/
def navigation? (e : Entry) (name : String) : Option Branch := findNamed? name e.navigations

/-- The entities of a collection; none where there is no collection of that name. -/
def collection (e : Entry) (name : String) : List Entry :=
  match e.navigation? name with
  | some (.collection entries) => entries
  | _ => []

/-- The entity of a single-valued navigation. -/
def single? (e : Entry) (name : String) : Option Entry :=
  match e.navigation? name with
  | some (.single entry) => entry
  | _ => none

/-- Sets the property at the end of a path over single-valued navigations.  A path that crosses a
collection or an absent entity leads nowhere. -/
def setPath (value : Scalar) : List String → Entry → Entry
  | [], e => e
  | [property], e => e.set property value
  | navigation :: rest, e =>
    let descend : Branch → Branch
      | .single (some inner) => .single (some (setPath value rest inner))
      | branch => branch
    mk e.properties (updateNamed navigation descend e.navigations)

/-! ## Equality as clients see it -/

/-- Properties with equal names and values, in order. -/
def equalProperties : List (String × Scalar) → List (String × Scalar) → Bool
  | [], [] => true
  | (name, v) :: rest, (name', v') :: rest' =>
    name == name' && v.equals v' && equalProperties rest rest'
  | _, _ => false

mutual

/-- A not-a-number differs from itself. -/
def equals : Entry → Entry → Bool
  | mk properties navigations, mk properties' navigations' =>
    equalProperties properties properties' && equalNavigations navigations navigations'

/-- Navigations with equal names and entities, in order. -/
def equalNavigations : List (String × Branch) → List (String × Branch) → Bool
  | [], [] => true
  | (name, .single none) :: rest, (name', .single none) :: rest' =>
    name == name' && equalNavigations rest rest'
  | (name, .single (some e)) :: rest, (name', .single (some e')) :: rest' =>
    name == name' && e.equals e' && equalNavigations rest rest'
  | (name, .collection es) :: rest, (name', .collection es') :: rest' =>
    name == name' && equalEntries es es' && equalNavigations rest rest'
  | _, _ => false

/-- Equal entries, in order. -/
def equalEntries : List Entry → List Entry → Bool
  | [], [] => true
  | e :: rest, e' :: rest' => e.equals e' && equalEntries rest rest'
  | _, _ => false

end

/-! ## Trees -/

mutual

/-- One object, of the properties and then the navigations. -/
def toJson : Entry → Json
  | mk properties navigations =>
    .record (properties.map (fun (name, v) => (name, v.toJson)) ++ navigationsToJson navigations)

/-- Navigations by name. -/
def navigationsToJson : List (String × Branch) → List (String × Json)
  | [] => []
  | (name, .single none) :: rest => (name, .null) :: navigationsToJson rest
  | (name, .single (some e)) :: rest => (name, e.toJson) :: navigationsToJson rest
  | (name, .collection es) :: rest => (name, .array (allToJson es)) :: navigationsToJson rest

/-- Entries in order. -/
def allToJson : List Entry → List Json
  | [] => []
  | e :: rest => e.toJson :: allToJson rest

end

/-- The compact text of an entry. -/
def render (e : Entry) : String := e.toJson.render

end Entry

end QueryPlans

import Mathlib.Data.List.Induction
import QueryPlans.Entry

/-!
# Proofs/Page/Writes — writing to the properties at the ends of paths

A path is a route over single-valued navigations and the name of a property.  Writing to it reaches
the entity at the end of the route and sets the property there; at every other entity nothing but
what lies further along the path changes (`reach?_setPath`).  So after several writes an entity has
had the writes that were addressed to it, one after the other (`properties_write`), and the writes
whose routes lead nowhere might as well be left out (`write_filter`).
-/

namespace QueryPlans

variable {α β : Type} {name name' : String} {change : α → α} {pairs : List (String × α)}

/-! ## Named values -/

/-- The first pair of a name is the one that is found. -/
theorem findNamed?_cons (name : String) (pair : String × α) (rest : List (String × α)) :
    findNamed? name (pair :: rest) =
      if pair.1 = name then some pair.2 else findNamed? name rest := by
  rw [findNamed?, List.find?_cons]
  by_cases h : pair.1 = name
  · simp [h]
  · rw [if_neg h, beq_eq_false_iff_ne.2 h]
    rfl

/-- Other names are left as they are. -/
theorem findNamed?_setNamed_of_ne {value : α} (h : name' ≠ name) (pairs : List (String × α)) :
    findNamed? name (setNamed name' value pairs) = findNamed? name pairs := by
  induction pairs with
  | nil => rw [setNamed, findNamed?_cons, if_neg h]
  | cons pair rest ih =>
    rw [setNamed]
    split
    · next heq =>
      have hne : pair.1 ≠ name := fun hname => h ((beq_iff_eq.1 heq).symm.trans hname)
      rw [findNamed?_cons, if_neg hne, findNamed?_cons, if_neg hne]
    · rw [findNamed?_cons, findNamed?_cons, ih]

/-- A change is made under its own name alone. -/
theorem findNamed?_updateNamed (name name' : String) (change : α → α)
    (pairs : List (String × α)) :
    findNamed? name (updateNamed name' change pairs) =
      if name = name' then (findNamed? name pairs).map change else findNamed? name pairs := by
  induction pairs with
  | nil => rw [updateNamed, findNamed?, List.find?_nil, Option.map_none, Option.map_none, ite_self]
  | cons pair rest ih =>
    rw [updateNamed]
    split
    · next heq =>
      obtain rfl := beq_iff_eq.1 heq
      rw [findNamed?_cons, findNamed?_cons]
      by_cases h : pair.1 = name
      · rw [if_pos h, if_pos h, if_pos h.symm, Option.map_some]
      · rw [if_neg h, if_neg h, if_neg (Ne.symm h)]
    · next hne =>
      rw [findNamed?_cons, findNamed?_cons, ih]
      by_cases h : pair.1 = name
      · rw [if_pos h, if_pos h, if_neg fun hname => hne (beq_iff_eq.2 (h.trans hname))]
      · rw [if_neg h, if_neg h]

/-- An update that leaves the value as it is. -/
theorem updateNamed_eq_self (h : ∀ a ∈ findNamed? name pairs, change a = a) :
    updateNamed name change pairs = pairs := by
  induction pairs with
  | nil => rfl
  | cons pair rest ih =>
    rw [findNamed?_cons] at h
    rw [updateNamed]
    by_cases hname : pair.1 = name
    · rw [if_pos hname] at h
      rw [if_pos (beq_iff_eq.2 hname), h pair.2 rfl]
    · rw [if_neg hname] at h
      rw [if_neg fun heq => hname (beq_iff_eq.1 heq), ih h]

/-- What an update does not change about values. -/
theorem map_updateNamed {f : α → β} (hf : ∀ a, f (change a) = f a) (name : String)
    (pairs : List (String × α)) :
    (updateNamed name change pairs).map (fun pair => (pair.1, f pair.2)) =
      pairs.map fun pair => (pair.1, f pair.2) := by
  induction pairs with
  | nil => rfl
  | cons pair rest ih =>
    rw [updateNamed]
    split
    · rw [List.map_cons, List.map_cons, hf]
    · rw [List.map_cons, List.map_cons, ih]

/-! ## One write -/

/-- A navigation without what the entity that it leads to is like. -/
def Branch.outline : Branch → Branch
  | .single (some _) => .single (some .empty)
  | branch => branch

/-- Changes the entity of a single-valued navigation. -/
def Branch.mapSingle (change : Entry → Entry) : Branch → Branch
  | .single (some inner) => .single (some (change inner))
  | branch => branch

/-- A change that keeps outlines keeps that of the branch. -/
theorem Branch.outline_mapSingle (change : Entry → Entry) (branch : Branch) :
    (branch.mapSingle change).outline = branch.outline := by
  rcases branch with (_ | _) | _ <;> rfl

namespace Entry

/-- The entity at the end of a route over single-valued navigations. -/
def reach? : List String → Entry → Option Entry
  | [], e => some e
  | step :: route, e => (e.single? step).bind (reach? route)

/-- What of a path lies behind a route; nothing does if the path leads elsewhere. -/
def behind : List String → List String → List String
  | [], path => path
  | _ :: _, [] => []
  | step :: route, step' :: path => if step = step' then behind route path else []

variable {e : Entry} {v : Scalar} {path route : List String}

theorem behind_nil_right (route : List String) : behind route [] = [] := by
  cases route <;> rfl

/-- A property lies right behind a route at the end of which it is. -/
theorem behind_eq_singleton_iff : behind route path = [name] ↔ path = route ++ [name] := by
  induction route generalizing path with
  | nil => rfl
  | cons step route ih =>
    cases path with
    | nil => simp [behind]
    | cons step' path =>
      rw [behind]
      split
      · next h => rw [ih, h, List.cons_append, List.cons.injEq, and_iff_right rfl]
      · next h => simp [Ne.symm h]

/-- A path is followed step by step. -/
theorem behind_cons (step : String) (route path : List String) :
    behind (step :: route) path = behind route (behind [step] path) := by
  cases path with
  | nil => rw [behind_nil_right, behind_nil_right, behind_nil_right]
  | cons step' path =>
    rw [behind, behind]
    split
    · rfl
    · rw [behind_nil_right]

/-- A path goes on from the entity of its first navigation. -/
theorem setPath_cons (v : Scalar) (step next : String) (rest : List String) (e : Entry) :
    e.setPath v (step :: next :: rest) =
      mk e.properties (updateNamed step (Branch.mapSingle (setPath v (next :: rest)))
        e.navigations) := by
  rw [setPath.eq_def]
  refine congrArg (fun change => mk e.properties (updateNamed step change e.navigations)) ?_
  funext branch
  rcases branch with (_ | _) | _ <;> rfl

/-- The single entry behind a step is changed if the step is the one that is taken. -/
theorem single?_mk_updateNamed (properties : List (String × Scalar)) (step step' : String)
    (change : Entry → Entry) (branches : List (String × Branch)) :
    (mk properties (updateNamed step' (Branch.mapSingle change) branches)).single? step =
      if step = step' then ((mk properties branches).single? step).map change
      else (mk properties branches).single? step := by
  rw [single?, single?, navigation?, navigation?, navigations, navigations,
    findNamed?_updateNamed]
  by_cases h : step = step'
  · rw [if_pos h, if_pos h]
    rcases findNamed? step branches with _ | (_ | _) | _ <;> rfl
  · rw [if_neg h, if_neg h]

/-- A write changes what lies further along its path. -/
theorem single?_setPath (v : Scalar) (path : List String) (e : Entry) (step : String) :
    (e.setPath v path).single? step = (e.single? step).map (setPath v (behind [step] path)) := by
  have hnothing : setPath v [] = id := funext fun e => by rw [setPath, id]
  match path with
  | [] => rw [behind_nil_right, hnothing, Option.map_id, id, id]
  | [property] =>
    have hbehind : behind [step] [property] = [] := by
      rw [behind]
      split <;> rfl
    rw [hbehind, hnothing, Option.map_id, id, setPath]
    rfl
  | step' :: next :: rest =>
    obtain ⟨properties, navigations⟩ := e
    rw [setPath_cons, behind]
    change (mk properties (updateNamed step' _ navigations)).single? step = _
    rw [single?_mk_updateNamed]
    split
    · rfl
    · rw [hnothing, Option.map_id, id]

/-- **A write changes what a route reaches** by what lies behind the route. -/
theorem reach?_setPath (v : Scalar) (path route : List String) (e : Entry) :
    (e.setPath v path).reach? route = (e.reach? route).map (setPath v (behind route path)) := by
  induction route generalizing e path with
  | nil => rfl
  | cons step route ih =>
    rw [reach?, single?_setPath, behind_cons step route path, reach?]
    cases e.single? step with
    | none => rfl
    | some inner => exact ih (behind [step] path) inner

/-- A property whose route leads nowhere is not written to. -/
theorem setPath_of_reach?_eq_none (h : e.reach? route = none) (v : Scalar) (name : String) :
    e.setPath v (route ++ [name]) = e := by
  induction route generalizing e with
  | nil => cases h
  | cons step route ih =>
    -- Behind the step the path goes on, so the write goes into the navigation.
    obtain ⟨properties, navigations⟩ := e
    obtain ⟨next, rest, hrest⟩ := List.exists_cons_of_ne_nil
      (List.append_ne_nil_of_right_ne_nil route (List.cons_ne_nil name []))
    rw [List.cons_append, hrest, setPath_cons, ← hrest]
    refine congrArg (mk properties) (updateNamed_eq_self fun branch hbranch => ?_)
    rw [reach?, single?, navigation?, Option.mem_def.1 hbranch] at h
    match branch with
    | .single (some inner) => exact congrArg (Branch.single ∘ some) (ih h)
    | .single none | .collection _ => rfl

/-- A write sets a property of an entity only at the end of its path. -/
theorem properties_setPath (v : Scalar) (path : List String) (e : Entry) :
    (e.setPath v path).properties =
      match path with
      | [name] => setNamed name v e.properties
      | _ => e.properties := by
  match path with
  | [] => rw [setPath]
  | [name] =>
    rw [setPath]
    rfl
  | _ :: _ :: _ =>
    rw [setPath_cons]
    rfl

/-- The navigations of an entity without what they lead to. -/
def outline (e : Entry) : List (String × Branch) :=
  e.navigations.map fun navigation => (navigation.1, navigation.2.outline)

/-- **Writing a value moves nothing**: branches stay, with as many entries. -/
theorem outline_setPath (v : Scalar) (path : List String) (e : Entry) :
    (e.setPath v path).outline = e.outline := by
  match path with
  | [] => rw [setPath]
  | [name] =>
    rw [setPath]
    rfl
  | _ :: _ :: _ =>
    rw [setPath_cons]
    exact map_updateNamed (Branch.outline_mapSingle _) _ _

/-- A path of one name writes that property, and any longer one leaves the properties. -/
theorem get?_setPath (v : Scalar) (path : List String) (e : Entry) (name : String) :
    (e.setPath v path).get? name = if path = [name] then some v else e.get? name := by
  rw [get?, properties_setPath, get?]
  split
  · next property =>
    by_cases h : property = name
    · rw [h, if_pos rfl, findNamed?_setNamed]
    · rw [if_neg (by simpa using h), findNamed?_setNamed_of_ne h]
  · next hpath => rw [if_neg (hpath name)]

/-! ## Several writes -/

/-- Writes values to the ends of their paths, one after the other. -/
def write (writes : List (List String × Scalar)) (e : Entry) : Entry :=
  writes.foldl (fun e w => e.setPath w.2 w.1) e

/-- The properties that writes set at the end of a route, one after the other. -/
def writesAt (route : List String) (writes : List (List String × Scalar)) :
    List (String × Scalar) :=
  writes.filterMap fun w =>
    match behind route w.1 with
    | [name] => some (name, w.2)
    | _ => none

/-- The value that was written last to the end of a path. -/
def lastWritten? (path : List String) (writes : List (List String × Scalar)) : Option Scalar :=
  (writes.reverse.find? fun w => w.1 == path).map Prod.snd

/-- **What writes have made of the entity at the end of a route**: properties were set one after the
other, and the navigations are what they were, apart from what they lead to. -/
structure Written (writes : List (List String × Scalar)) (route : List String)
    (inner inner' : Entry) : Prop where
  properties_eq : inner'.properties =
    (writesAt route writes).foldl (fun properties w => setNamed w.1 w.2 properties) inner.properties
  get?_eq : ∀ name, inner'.get? name = (lastWritten? (route ++ [name]) writes).or (inner.get? name)
  outline_eq : inner'.outline = inner.outline

variable {writes : List (List String × Scalar)}

/-- Writes are made in order. -/
theorem write_concat (writes : List (List String × Scalar)) (w : List String × Scalar)
    (e : Entry) : e.write (writes ++ [w]) = (e.write writes).setPath w.2 w.1 := by
  rw [write, List.foldl_append]
  rfl

/-- What a route reaches has had what lies behind the route of each write. -/
theorem reach?_write (writes : List (List String × Scalar)) (route : List String) (e : Entry) :
    (e.write writes).reach? route =
      (e.reach? route).map (write (writes.map fun w => (behind route w.1, w.2))) := by
  induction writes generalizing e with
  | nil => exact Option.map_id_apply.symm
  | cons w rest ih =>
    rw [write, List.foldl_cons, ← write, ih, reach?_setPath, Option.map_map]
    rfl

/-- What can be reached stays so. -/
theorem isSome_reach?_setPath (v : Scalar) (path route : List String) (e : Entry) :
    ((e.setPath v path).reach? route).isSome = (e.reach? route).isSome := by
  rw [reach?_setPath, Option.isSome_map]

/-- Several writes move nothing either. -/
theorem outline_write (writes : List (List String × Scalar)) (e : Entry) :
    (e.write writes).outline = e.outline := by
  induction writes using List.reverseRecOn with
  | nil => rfl
  | append_singleton writes w ih => rw [write_concat, outline_setPath, ih]

/-- The properties of an entry are written by the paths of one name. -/
theorem properties_write (writes : List (List String × Scalar)) (e : Entry) :
    (e.write writes).properties =
      (writesAt [] writes).foldl (fun properties w => setNamed w.1 w.2 properties)
        e.properties := by
  induction writes using List.reverseRecOn with
  | nil => rfl
  | append_singleton writes w ih =>
    rw [write_concat, properties_setPath, ih, writesAt, writesAt, List.filterMap_append,
      List.foldl_append, List.filterMap_cons, behind]
    split <;> rfl

/-- **The last write of a property** is its value. -/
theorem get?_write (writes : List (List String × Scalar)) (e : Entry) (name : String) :
    (e.write writes).get? name = (lastWritten? [name] writes).or (e.get? name) := by
  induction writes using List.reverseRecOn with
  | nil => rfl
  | append_singleton writes w ih =>
    rw [write_concat, get?_setPath, ih, lastWritten?, lastWritten?, List.reverse_append,
      List.reverse_singleton, List.singleton_append, List.find?_cons]
    by_cases h : w.1 = [name]
    · simp [h]
    · rw [if_neg h, beq_eq_false_iff_ne.2 h]

/-- **An entity that is reached has had the writes addressed to it.** -/
theorem written_of_reach? {inner : Entry} (h : e.reach? route = some inner)
    (writes : List (List String × Scalar)) :
    ∃ inner', (e.write writes).reach? route = some inner' ∧ Written writes route inner inner' := by
  refine ⟨inner.write (writes.map fun w => (behind route w.1, w.2)), ?_, ?_, fun name => ?_, ?_⟩
  · rw [reach?_write, h, Option.map_some]
  · rw [properties_write, writesAt, writesAt, List.filterMap_map]
    rfl
  · have hlast : lastWritten? [name] (writes.map fun w => (behind route w.1, w.2)) =
        lastWritten? (route ++ [name]) writes := by
      have hpath : (fun w : List String × Scalar => behind route w.1 == [name]) =
          fun w => w.1 == route ++ [name] := by
        funext w
        rw [Bool.eq_iff_iff, beq_iff_eq, beq_iff_eq, behind_eq_singleton_iff]
      rw [lastWritten?, lastWritten?, ← List.map_reverse, List.find?_map, Option.map_map]
      exact congrArg (fun p => ((writes.reverse.find? p).map Prod.snd)) hpath
    rw [get?_write, hlast]
  · exact outline_write _ _

/-- **Writes whose routes lead nowhere** might as well be left out. -/
theorem write_filter (writes : List (List String × Scalar)) (e : Entry) :
    e.write writes = e.write (writes.filter fun w => (e.reach? w.1.dropLast).isSome) := by
  induction writes generalizing e with
  | nil => rfl
  | cons w rest ih =>
    have hrest := ih (e.setPath w.2 w.1)
    simp only [isSome_reach?_setPath] at hrest
    rw [write, List.foldl_cons, ← write, hrest, List.filter_cons]
    split
    · rfl
    · next hnone =>
      have hne : w.1 ≠ [] := by
        rintro hnil
        rw [hnil] at hnone
        exact hnone rfl
      rw [Bool.not_eq_true, Option.isSome_eq_false_iff, Option.isNone_iff_eq_none] at hnone
      have hsame := setPath_of_reach?_eq_none hnone w.2 (w.1.getLast hne)
      rw [List.dropLast_concat_getLast] at hsame
      rw [hsame]

end Entry

end QueryPlans

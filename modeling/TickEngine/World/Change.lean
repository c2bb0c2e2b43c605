/-
  Changes of the world.

  Every change answers with its result and the world that it leaves, also when
  it fails.

  * `World.spawn` makes an entity with components of distinct, known types;
  * `World.despawn` destroys one, `World.insert` and `World.remove` give and
    take a component, `World.replace` overwrites one in its cell.
-/
import TickEngine.World.Basic

namespace TickEngine.World

/-- The first of two equal neighbours in a list. -/
def firstRepeat? : List TypeId → Option TypeId
  | t :: u :: rest => if t = u then some t else firstRepeat? (u :: rest)
  | _ => none

/-- The identifiers in ascending order, repeats kept. -/
def ascending (types : List TypeId) : List TypeId := types.mergeSort fun t u => rank t ≤ rank u

/-- Stores a component for an entity in the table of the component's type. -/
def storeComponent (w : World) (e : Entity) (c : Component) : Except CommandError Unit × World :=
  match w.store.insert c.typeId e c with
  | (.error err, store) => (.error (.component err), { w with store })
  | (.ok none, store) => (.error (.componentExists e c.typeId), { w with store })
  | (.ok (some _), store) => (.ok (), { w with store })

/-- Stores components for an entity one by one, up to the first failure. -/
def storeAll (e : Entity) : List Component → World → Except CommandError Unit × World
  | [], w => (.ok (), w)
  | c :: rest, w =>
    match w.storeComponent e c with
    | (.error err, w) => (.error err, w)
    | (.ok (), w) => storeAll e rest w

/-- Makes an entity with the components.  The first component without a table
    is refused, then the smallest type that is given twice. -/
def spawn (w : World) (components : List Component) : Except CommandError Entity × World :=
  let types := components.map (·.typeId)
  match types.find? (fun t => (w.store.table? t).isNone) with
  | some t => (.error (.component (.unknownType t)), w)
  | none =>
    match firstRepeat? (ascending types) with
    | some t => (.error (.duplicateComponent t), w)
    | none =>
      let (e, ids) := w.ids.allocate
      match storeAll e components { w with ids } with
      | (.error err, w) => (.error err, w)
      | (.ok (), w) => (.ok e, { w with owned := w.owned.insert e (ascending types) })

/-- Takes an entity's components of the types out of their tables. -/
def dropAll (e : Entity) (types : List TypeId) (store : Store) : Store :=
  types.foldl (fun store t => (store.remove t e).2) store

/-- Destroys an entity and its components, and takes its id back.  Answers
    whether the entity was alive. -/
def despawn (w : World) (e : Entity) : Bool × World :=
  match w.types? e with
  | none => (false, w)
  | some types =>
    (true, { w with
      ids := w.ids.release e
      owned := w.owned.erase e
      store := dropAll e types w.store })

/-- Gives a live entity a component of a type that it does not own. -/
def insert (w : World) (e : Entity) (c : Component) : Except CommandError Unit × World :=
  match w.types? e with
  | none => (.error (.entityNotFound e), w)
  | some types =>
    if types.contains c.typeId then (.error (.componentExists e c.typeId), w)
    else
      match w.storeComponent e c with
      | (.error err, w) => (.error err, w)
      | (.ok (), w) => (.ok (), { w with owned := w.owned.insert e (c.typeId.place types) })

/-- Takes a component from a live entity.  Answers whether it had one of the
    type. -/
def remove (w : World) (e : Entity) (t : TypeId) : Except CommandError Bool × World :=
  match w.types? e with
  | none => (.error (.entityNotFound e), w)
  | some types =>
    if types.contains t then
      (.ok true, { w with
        owned := w.owned.insert e (types.erase t)
        store := (w.store.remove t e).2 })
    else (.ok false, w)

/-- Overwrites a component that an entity owns.  The cell stays. -/
def replace (w : World) (e : Entity) (c : Component) : Except CommandError Unit × World :=
  match w.find? e c.typeId with
  | none => (.error (.componentMissing e c.typeId), w)
  | some r =>
    let (result, cells) := r.replace w.store.cells c
    ((result.mapError CommandError.component).map fun _ => (),
      { w with store := { w.store with cells } })

end TickEngine.World

import AnimateServer.Model.ObjectTable

/-!
# `client_markdead` where entries are missing (`server/src/client_registry.c`)

`destroyOwned` passes over a cell that does not exist or was never written. The loops of
`client_markdead` read it: they are without a result then. A table has such cells below its
count after a growth that failed, which leaves the array null and the count as it was.
-/

namespace AnimateServer

/-- One turn of a loop of `client_markdead`. -/
def markdeadTurn {ε : Type} [Entry ε] (client : ClientRef) (get : World → Table ε)
    (put : World → Table ε → World) (remove : Int → World → World × List Effect)
    (we : World × List Effect) (i : Nat) : Option (World × List Effect) :=
  match (get we.1).entryAt i with
  | none => none
  | some e =>
    if Entry.ptr e ≠ none ∧ Entry.owner e = some client then
      let (w, es) := remove i we.1
      match (get w).entryAt i with
      | none => none
      | some e => some (put w ((get w).setEntry i (Entry.setOwner e none)), we.2 ++ es)
    else some we

/-- One `for (int i = 0; i < count; i++)` loop of `client_markdead`. -/
def markdeadLoop {ε : Type} [Entry ε] (client : ClientRef) (get : World → Table ε)
    (put : World → Table ε → World) (remove : Int → World → World × List Effect)
    (we : World × List Effect) : Option (World × List Effect) :=
  (List.range (get we.1).count).foldlM (markdeadTurn client get put remove) we

/-- `client_markdead` after its locked section: the tables and the calls into libanimate, or
no result if it reads an entry that is not there. -/
def clientMarkdead (client : ClientRef) (w : World) : Option (World × List Effect) := do
  let we ← markdeadLoop client World.canvases (fun w t => { w with canvases := t })
    World.canvasRemove (w, [])
  let we ← markdeadLoop client World.sprites (fun w t => { w with sprites := t })
    World.spriteRemove we
  markdeadLoop client World.placements (fun w t => { w with placements := t })
    World.placementRemove we

end AnimateServer

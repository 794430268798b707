import AnimateServer.Lib.Transition
import AnimateServer.Model.Auth
import AnimateServer.Model.ObjectTable
import AnimateServer.Model.Task

/-!
# `worker_routine` (`server/src/threadpool.c`)

One definition for each case of the switch. A case parses the request, looks the
objects up, calls libanimate and updates the tables; the parsers are functions of
their own and return the reply code of a request they refuse. What the case
depends on outside the server is the parameter `Env`.
-/

namespace AnimateServer

open CLib

/-- The outcomes of everything a worker calls: the contents of `users.txt`, the
descriptors of a handshake that goes through, the pointer returned by an
`animate_create_*` or `animate_place_sprite`, `realloc`, and the calls of
`GENERATE`. -/
structure Env where
  usertxt : Option CStr
  hsk : Option (Int × Int)
  create : Option Handle
  realloc : Int → Option Nat
  destroySprite : Int
  openDat : Bool
  frameSize : Nat
  frameBuf : Bool
  writeFrame : Int → Bool
  closeDat : Bool
  system : Int

/-- An environment in which every call succeeds, the creating ones with the pointer
`ptr`, and nobody can log in. -/
def Env.allSucceed (ptr : Handle) : Env where
  usertxt := none
  hsk := none
  create := some ptr
  realloc := fun _ => some 1
  destroySprite := 0
  openDat := true
  frameSize := 400
  frameBuf := true
  writeFrame := fun _ => true
  closeDat := true
  system := 0

inductive ObjKind where
  | canvas
  | sprite
  | placement
deriving DecidableEq, Repr

/-- What a command did: the tables afterwards, the effects in order, the table
entries it read, changed or destroyed, the client records it read, and the reply
(`none` if it ran into undefined behaviour first). -/
structure Ran where
  world : World
  effects : List Effect
  touched : List (ObjKind × Nat)
  visited : List ClientRef
  retval : Option RetVal

/-! ## Replies -/

def ret1 (a : Int) : RetVal := ⟨a, INT_MIN, INT_MIN⟩
def ret2 (a b : Int) : RetVal := ⟨a, b, INT_MIN⟩

/-- Reply without having looked at an object. -/
def World.reply (w : World) (rv : RetVal) : Ran := ⟨w, [], [], [], some rv⟩

/-- Reply after having looked at the entries `touched`. -/
def World.replyAt (w : World) (touched : List (ObjKind × Nat)) (rv : RetVal) : Ran :=
  ⟨w, [], touched, [], some rv⟩

/-- A cell was read that does not exist or was never written. -/
def World.undefinedAt (w : World) (touched : List (ObjKind × Nat)) : Ran :=
  ⟨w, [], touched, [], none⟩

/-! ## Parsing -/

/-- `parse_int`. -/
def parseInt (s : CStr) : Option Int :=
  let (v, endptr) := strtol s
  if endptr = [] then some v else none

/-- `parse_uint`. -/
def parseUint (s : CStr) : Option Nat :=
  let (v, endptr) := strtoul s
  if endptr = [] then some v else none

/-- The requests of `DESTROY_CANVAS`: one id, in a buffer of `size` bytes. -/
def parseId (size : Nat) (request : CStr) : Except Int Int :=
  let (id, _) := strtokR (strncpyBuf size request)
  match id with
  | none => .error (-1)
  | some id =>
    match parseInt id with
    | none => .error (-2)
    | some id => .ok id

/-- `!parse_int(id_s, &id) || id < 0 || id > INT_MAX`. -/
def parseCheckedId (size : Nat) (request : CStr) : Except Int Int :=
  match parseId size request with
  | .error a => .error a
  | .ok id => if id < 0 ∨ INT_MAX < id then .error (-2) else .ok id

/-- `CREATE_CANVAS`: height, width, background. -/
def parseCreateCanvas (request : CStr) : Except Int (Nat × Nat × Int) :=
  let (h, save) := strtokR (strncpyBuf MAX_RPC_BUF_LEN request)
  let (w, save) := strtokR save
  let (c, _) := strtokR save
  match h, w, c with
  | some h, some w, some c =>
    match parseUint h, parseUint w, parseInt c with
    | some h, some w, some bg => .ok (h, w, bg)
    | _, _, _ => .error (-2)
  | _, _, _ => .error (-1)

/-- `CREATE_SPRITE`: file name. -/
def parseCreateSprite (request : CStr) : Except Int CStr :=
  match (strtokR (strncpyBuf MAX_RPC_BUF_LEN request)).1 with
  | some file => .ok file
  | none => .error (-1)

/-- `CREATE_RECTANGLE`: width, height, colour, filled. -/
def parseCreateRectangle (request : CStr) : Except Int (Nat × Nat × Int × Int) :=
  let (w, save) := strtokR (strncpyBuf 128 request)
  let (h, save) := strtokR save
  let (c, save) := strtokR save
  let (f, _) := strtokR save
  match w, h, c, f with
  | some w, some h, some c, some f =>
    match parseUint w, parseUint h, parseInt c, parseInt f with
    | some w, some h, some color, some filled => .ok (w, h, color, filled)
    | _, _, _, _ => .error (-2)
  | _, _, _, _ => .error (-1)

/-- `CREATE_CIRCLE`: radius, colour, filled. -/
def parseCreateCircle (request : CStr) : Except Int (Nat × Int × Int) :=
  let (r, save) := strtokR (strncpyBuf 128 request)
  let (c, save) := strtokR save
  let (f, _) := strtokR save
  match r, c, f with
  | some r, some c, some f =>
    match parseUint r, parseInt c, parseInt f with
    | some radius, some color, some filled => .ok (radius, color, filled)
    | _, _, _ => .error (-2)
  | _, _, _ => .error (-1)

/-- `PLACE_SPRITE`: canvas id, sprite id, x, y. -/
def parsePlaceSprite (request : CStr) : Except Int (Int × Int × Int × Int) :=
  let (c, save) := strtokR (strncpyBuf 128 request)
  let (s, save) := strtokR save
  let (x, save) := strtokR save
  let (y, _) := strtokR save
  match c, s, x, y with
  | some c, some s, some x, some y =>
    match parseInt c, parseInt s, parseInt x, parseInt y with
    | some cid, some sid, some x, some y => .ok (cid, sid, x, y)
    | _, _, _, _ => .error (-2)
  | _, _, _, _ => .error (-1)

/-- `SET_ANIM_PARAM`: placement id, velocities, accelerations. -/
def parseAnimParam (request : CStr) : Except Int (Int × Int × Int × Int × Int) :=
  let (id, save) := strtokR (strncpyBuf 128 request)
  let (vx, save) := strtokR save
  let (vy, save) := strtokR save
  let (ax, save) := strtokR save
  let (ay, _) := strtokR save
  match id, vx, vy, ax, ay with
  | some id, some vx, some vy, some ax, some ay =>
    match parseInt id, parseInt vx, parseInt vy, parseInt ax, parseInt ay with
    | some id, some vx, some vy, some ax, some ay => .ok (id, vx, vy, ax, ay)
    | _, _, _, _, _ => .error (-2)
  | _, _, _, _, _ => .error (-1)

/-- `SHARE`: canvas id, user name. -/
def parseShare (request : CStr) : Except Int (Int × CStr) :=
  let (cid, save) := strtokR (strncpyBuf MAX_RPC_BUF_LEN request)
  let (user, _) := strtokR save
  match cid, user with
  | some cid, some user =>
    match parseInt cid with
    | some cid => if cid < 0 ∨ INT_MAX < cid then .error (-2) else .ok (cid, user)
    | none => .error (-2)
  | _, _ => .error (-1)

/-- `GENERATE`: the `sscanf` with `"%d %127s %d %d %d"` and the checks after it. -/
def parseGenerate (request : CStr) : Except Int (Int × CStr × Int × Int × Int) :=
  let parsed := do
    let (canvasId, s) ← scanInt request
    let (filename, s) ← scanWord (MAX_FILENAME_LEN - 1) s
    let (start, s) ← scanInt s
    let (last, s) ← scanInt s
    let (rate, _) ← scanInt s
    some (canvasId, filename, start, last, rate)
  match parsed with
  | none => .error (-2)
  | some (canvasId, filename, start, last, rate) =>
    if start < 0 ∨ last < start ∨ rate ≤ 0 then .error (-2)
    else .ok (canvasId, filename, start, last, rate)

/-! ## Creation -/

/-- `CREATE_CANVAS`. -/
def createCanvas (env : Env) (client : ClientRef) (request : CStr) (w : World) : Ran :=
  match parseCreateCanvas request with
  | .error a => w.reply (ret1 a)
  | .ok (h, wd, bg) =>
    let call := Effect.createCanvas h wd bg env.create
    match env.create with
    | none => { w.reply (ret1 (-3)) with effects := [call] }
    | some cv =>
      match w.canvasInsert env.realloc cv client (toInt wd) (toInt h) with
      | (none, w) => { w.reply (ret1 (-3)) with effects := [call, .destroyCanvas (some cv)] }
      | (some id, w) => ⟨w, [call], [(.canvas, id)], [], some (ret2 0 id)⟩

/-- `sp` has been created by `call`: the rest of `CREATE_SPRITE`, `CREATE_RECTANGLE`
and `CREATE_CIRCLE`. -/
def keepSprite (env : Env) (call : Effect) (client : ClientRef) (w : World) : Ran :=
  match env.create with
  | none => { w.reply (ret1 (-3)) with effects := [call] }
  | some sp =>
    match w.spriteInsert env.realloc sp client with
    | (none, w) => { w.reply (ret1 (-3)) with effects := [call, .destroySprite (some sp)] }
    | (some id, w) => ⟨w, [call], [(.sprite, id)], [], some (ret2 0 id)⟩

/-- `CREATE_SPRITE`. -/
def createSprite (env : Env) (client : ClientRef) (request : CStr) (w : World) : Ran :=
  match parseCreateSprite request with
  | .error a => w.reply (ret1 a)
  | .ok file => keepSprite env (.createSprite file env.create) client w

/-- `CREATE_RECTANGLE`. -/
def createRectangle (env : Env) (client : ClientRef) (request : CStr) (w : World) : Ran :=
  match parseCreateRectangle request with
  | .error a => w.reply (ret1 a)
  | .ok (wd, h, color, filled) =>
    keepSprite env (.createRectangle wd h color (filled != 0) env.create) client w

/-- `CREATE_CIRCLE`. -/
def createCircle (env : Env) (client : ClientRef) (request : CStr) (w : World) : Ran :=
  match parseCreateCircle request with
  | .error a => w.reply (ret1 a)
  | .ok (radius, color, filled) =>
    keepSprite env (.createCircle radius color (filled != 0) env.create) client w

/-! ## Destruction -/

/-- `DESTROY_CANVAS`: the id goes to `canvas_lookup` without a range check. -/
def destroyCanvas (request : CStr) (w : World) : Ran :=
  match parseId MAX_RPC_BUF_LEN request with
  | .error a => w.reply (ret1 a)
  | .ok id =>
    match w.canvases.lookup (toInt id) with
    | none => w.reply (ret1 (-1))
    | some i =>
      match w.canvases.entryAt i with
      | none => w.undefinedAt [(.canvas, i)]
      | some ce =>
        if ce.ptr = none then w.replyAt [(.canvas, i)] (ret1 (-1))
        else
          let (w, es) := w.canvasRemove (toInt id)
          ⟨w, es, [(.canvas, i)], [], some (ret1 0)⟩

/-- `DESTROY_SPRITE`. -/
def destroySprite (env : Env) (request : CStr) (w : World) : Ran :=
  match parseCheckedId 64 request with
  | .error a => w.reply (ret1 a)
  | .ok id =>
    match w.sprites.lookup (toInt id) with
    | none => w.reply (ret1 (-1))
    | some i =>
      match w.sprites.entryAt i with
      | none => w.undefinedAt [(.sprite, i)]
      | some se =>
        if se.ptr = none then w.replyAt [(.sprite, i)] (ret1 (-1))
        else
          let (w, es) := w.spriteRemove (toInt id)
          ⟨w, es, [(.sprite, i)], [], some (ret2 0 env.destroySprite)⟩

/-! ## Placements -/

/-- `pl` has been created by `call`: the rest of `PLACE_SPRITE`, which has looked at the
entries `touched`. -/
def keepPlacement (env : Env) (call : Effect) (touched : List (ObjKind × Nat))
    (client : ClientRef) (canvas : CanvasPtr) (w : World) : Ran :=
  match env.create with
  | none => { w.replyAt touched (ret1 (-3)) with effects := [call] }
  | some pl =>
    match w.placementInsert env.realloc pl client canvas with
    | (none, w) =>
      { w.replyAt touched (ret1 (-3)) with effects := [call, .destroyPlacement (some pl)] }
    | (some id, w) => ⟨w, [call], touched ++ [(.placement, id)], [], some (ret2 0 id)⟩

/-- `PLACE_SPRITE`. -/
def placeSprite (env : Env) (client : ClientRef) (request : CStr) (w : World) : Ran :=
  match parsePlaceSprite request with
  | .error a => w.reply (ret1 a)
  | .ok (cid, sid, x, y) =>
    match w.canvases.lookup (toInt cid) with
    | none => w.reply (ret1 (-2))
    | some ci =>
      match w.canvases.entryAt ci with
      | none => w.undefinedAt [(.canvas, ci)]
      | some ce =>
        match ce.ptr, w.sprites.lookup (toInt sid) with
        | some cv, some si =>
          let touched := [(ObjKind.canvas, ci), (ObjKind.sprite, si)]
          match w.sprites.entryAt si with
          | none => w.undefinedAt touched
          | some se =>
            match se.ptr with
            | none => w.replyAt touched (ret1 (-2))
            | some sp =>
              keepPlacement env (.placeSprite cv sp x y env.create) touched client
                ⟨(w.canvases.arr.map Arr.block).getD 0, ci⟩ w
        | _, _ => w.replyAt [(.canvas, ci)] (ret1 (-2))

/-- Look a placement up by a parsed id and, if it is live, do `act` with its pointer. -/
def onPlacement (id : Int) (w : World) (act : Handle → World × List Effect) : Ran :=
  match w.placements.lookup (toInt id) with
  | none => w.reply (ret1 (-2))
  | some i =>
    match w.placements.entryAt i with
    | none => w.undefinedAt [(.placement, i)]
    | some pe =>
      match pe.ptr with
      | none => w.replyAt [(.placement, i)] (ret1 (-2))
      | some pl =>
        let (w, es) := act pl
        ⟨w, es, [(.placement, i)], [], some (ret1 0)⟩

/-- The four cases that move a placement in the drawing order. -/
def movePlacement (call : Handle → Effect) (request : CStr) (w : World) : Ran :=
  match parseCheckedId 64 request with
  | .error a => w.reply (ret1 a)
  | .ok id => onPlacement id w fun pl => (w, [call pl])

/-- `PLACEMENT_UP`. -/
def placementUp : CStr → World → Ran := movePlacement .placementUp

/-- `PLACEMENT_DOWN`. -/
def placementDown : CStr → World → Ran := movePlacement .placementDown

/-- `PLACEMENT_TOP`. -/
def placementTop : CStr → World → Ran := movePlacement .placementTop

/-- `PLACEMENT_BOTTOM`. -/
def placementBottom : CStr → World → Ran := movePlacement .placementBottom

/-- `DESTROY_PLACEMENT`. -/
def destroyPlacement (request : CStr) (w : World) : Ran :=
  match parseCheckedId 64 request with
  | .error a => w.reply (ret1 a)
  | .ok id => onPlacement id w fun _ => w.placementRemove (toInt id)

/-- `SET_ANIM_PARAM`: no range check on the id. -/
def setAnimParam (request : CStr) (w : World) : Ran :=
  match parseAnimParam request with
  | .error a => w.reply (ret1 a)
  | .ok (id, vx, vy, ax, ay) =>
    onPlacement id w fun pl => (w, [.setAnimationParams pl vx vy ax ay])

/-! ## Generation -/

/-- The frame loop: `for (i = start; i <= end; i++)`, for at most `n` turns. `some
false` after a short write, `none` when the counter overflows. -/
def frameLoop (env : Env) (datPath : CStr) (cv : Handle) (rate last : Int) :
    Nat → Int → List Effect × Option Bool
  | 0, _ => ([], none)
  | n + 1, i =>
    if i ≤ last then
      let frame := Effect.generateFrame cv i rate
      let frameBuf : Frame := ⟨cv, i, rate⟩
      let write := Effect.writeFrame datPath frameBuf env.frameSize (env.writeFrame i)
      if !env.writeFrame i then ([frame, write], some false)
      else if i = INT_MAX then ([frame, write], none)
      else
        let (frames, out) := frameLoop env datPath cv rate last n (i + 1)
        (frame :: write :: frames, out)
    else ([], some true)

/-- The command line for `ffmpeg`. -/
def ffmpegCommand (ce : CanvasEntry) (rate : Int) (datPath mp4Path logPath : CStr) : CStr :=
  ("ffmpeg -y -f rawvideo -pixel_format rgba -video_size ".toList ++ decimal ce.width ++
    "x".toList ++ decimal ce.height ++ " -framerate ".toList ++ decimal rate ++
    " -i ".toList ++ datPath ++ " ".toList ++ mp4Path ++ " > ".toList ++ logPath ++
    " 2>&1".toList).take (COMMAND_LEN - 1)

/-- `snprintf(path, MAX_PATH_LEN, "%s<suffix>", filename)`. -/
def pathOf (filename : CStr) (suffix : String) : CStr :=
  (filename ++ suffix.toList).take (MAX_PATH_LEN - 1)

/-- `GENERATE`. -/
def generate (env : Env) (request : CStr) (w : World) : Ran :=
  match parseGenerate request with
  | .error a => w.reply (ret1 a)
  | .ok (canvasId, filename, start, last, rate) =>
    match w.canvases.lookup canvasId with
    | none => w.reply (ret1 (-2))
    | some i =>
      match w.canvases.entryAt i with
      | none => w.undefinedAt [(.canvas, i)]
      | some ce =>
        match ce.ptr with
        | none => w.replyAt [(.canvas, i)] (ret1 (-2))
        | some cv =>
          let datPath := pathOf filename ".dat"
          let opened := Effect.openFile datPath
          let out (es : List Effect) (rv : Option RetVal) : Ran :=
            ⟨w, opened :: es, [(.canvas, i)], [], rv⟩
          if !env.openDat then out [] (some (ret2 0 (-1)))
          else if env.frameSize = 0 then out [] (some (ret1 (-3)))
          else if !env.frameBuf then out [] (some (ret1 (-3)))
          else
            match frameLoop env datPath cv rate last (last - start + 2).toNat start with
            | (frames, none) => out frames none
            | (frames, some false) => out frames (some (ret2 0 (-1)))
            | (frames, some true) =>
              if !env.closeDat then out frames (some (ret2 0 (-1)))
              else
                let cmd := ffmpegCommand ce rate datPath (pathOf filename ".mp4")
                  (pathOf filename ".log")
                out (frames ++ [.system cmd])
                  (some ⟨0, 0, if env.system ≠ 0 then -1 else 0⟩)

/-! ## Sharing -/

/-- `for (c = cr_clients; c; c = c->next)`, for at most `n` turns: the records read
and the first logged-in client with that name. -/
def findUser (mem : ClientRef → ActiveClient) (user : CStr) :
    Nat → Option ClientRef → List ClientRef × Option ClientRef
  | _, none => ([], none)
  | 0, some _ => ([], none)
  | n + 1, some c =>
    if (mem c).loggedIn ∧ (mem c).username = user then ([c], some c)
    else
      let (visited, found) := findUser mem user n (mem c).next
      (c :: visited, found)

/-- `SHARE`. -/
def share (request : CStr) (r : ClientRegistry) (w : World) : Ran :=
  match parseShare request with
  | .error a => w.reply (ret1 a)
  | .ok (cid, user) =>
    match w.canvases.lookup (toInt cid) with
    | none => w.reply (ret1 (-2))
    | some i =>
      match w.canvases.entryAt i with
      | none => w.undefinedAt [(.canvas, i)]
      | some ce =>
        if ce.ptr = none then w.replyAt [(.canvas, i)] (ret1 (-2))
        else
          let (visited, target) := findUser r.mem user r.brk r.clients
          match target with
          | none => { w.replyAt [(.canvas, i)] (ret1 (-2)) with visited }
          | some target =>
            if MAX_CLIENTS ≤ ce.shared.length then
              { w.replyAt [(.canvas, i)] (ret1 (-3)) with visited }
            else
              let ce := { ce with shared := ce.shared ++ [target] }
              ⟨{ w with canvases := w.canvases.setEntry i ce }, [], [(.canvas, i)], visited,
                some (ret1 0)⟩

/-! ## The switch -/

/-- The cases of the switch that post an `RPC_DONE`. -/
def runRpc (type : TaskType) (env : Env) (client : ClientRef) (request : CStr)
    (r : ClientRegistry) (w : World) : Ran :=
  match type with
  | .CREATE_CANVAS => createCanvas env client request w
  | .DESTROY_CANVAS => destroyCanvas request w
  | .CREATE_SPRITE => createSprite env client request w
  | .CREATE_RECTANGLE => createRectangle env client request w
  | .CREATE_CIRCLE => createCircle env client request w
  | .DESTROY_SPRITE => destroySprite env request w
  | .PLACE_SPRITE => placeSprite env client request w
  | .PLACEMENT_UP => placementUp request w
  | .PLACEMENT_DOWN => placementDown request w
  | .PLACEMENT_TOP => placementTop request w
  | .PLACEMENT_BOTTOM => placementBottom request w
  | .DESTROY_PLACEMENT => destroyPlacement request w
  | .SET_ANIM_PARAM => setAnimParam request w
  | .GENERATE => generate env request w
  | .SHARE => share request r w
  | .HANDSHAKE | .AUTHORISE | .BARRIER => w.undefinedAt []

/-- What a worker leaves in the RPC pipe: a result, nothing, or nothing because it
ran into undefined behaviour. -/
inductive Outcome where
  | posts (body : ResultBody)
  | silent
  | undefined
deriving DecidableEq, Repr

/-- A task that neither looks at an object nor changes one. -/
def World.untouched (w : World) : Ran := ⟨w, [], [], [], none⟩

/-- `AUTHORISE`: the user name is cut to `MAX_USERNAME_LEN - 1` bytes. -/
def authorise (env : Env) (client : ClientRef) (request : CStr) : ResultBody :=
  match usertxtGetBalance env.usertxt request with
  | (.AUTH_OK, balance) => .AUTH_OK client (strncpyBuf MAX_USERNAME_LEN request) balance
  | (.AUTH_NO, _) => .AUTH_NO client
  | (.AUTH_UN, _) => .AUTH_UN client

/-- The body of the loop of `worker_routine`, for a task that has been dequeued. -/
def workerRoutine (env : Env) (r : ClientRegistry) (w : World) (task : Task) : Ran × Outcome :=
  match task.info with
  | .handshake clientPid _ _ =>
    match env.hsk with
    | some (c2sFd, s2cFd) => (w.untouched, .posts (.HSK_OK clientPid c2sFd s2cFd))
    | none => (w.untouched, .silent)
  | .rpc client request =>
    match task.type with
    | .AUTHORISE => (w.untouched, .posts (authorise env client request))
    | .BARRIER | .HANDSHAKE => (w.untouched, .silent)
    | type =>
      let ran := runRpc type env client request r w
      match ran.retval with
      | some retval => (ran, .posts (.RPC_DONE client retval))
      | none => (ran, .undefined)

/-! ## The tables over time -/

/-- What changes the tables: a command that runs to its reply, and the cleanup after a
client. -/
inductive TableLbl where
  | rpc (type : TaskType) (env : Env) (client : ClientRef) (request : CStr)
      (reg : ClientRegistry)
  | cleanup (client : ClientRef)

def tableStep : TableLbl → World → Option World
  | .rpc type env client request r, w =>
    let ran := runRpc type env client request r w
    if ran.retval.isSome then some ran.world else none
  | .cleanup client, w => some (destroyOwned client w).1

/-- Commands and cleanups in any order, from `tables_init` on. -/
abbrev tables : Transition.LTS World TableLbl := Transition.ofStep .init tableStep

end AnimateServer

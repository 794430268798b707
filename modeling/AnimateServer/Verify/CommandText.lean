import AnimateServer.Verify.ClientRequests
import AnimateServer.Verify.Descriptors
import AnimateServer.Verify.Dimensions
import AnimateServer.Verify.Dispatch
import AnimateServer.Verify.Generation
import AnimateServer.Verify.ObjectIds
import AnimateServer.Verify.Sessions

/-!
# The language of the commands

A command is a name and its arguments, which the user types with any white space between them.
The text takes a long way: the client normalises and frames it, the server reads it back,
compares it with the names, copies what follows the name into a task, and the case of the
switch cuts it into tokens and converts them. `Command` says what is meant, and `decode` what
the case of the switch finds.
-/

namespace AnimateServer.CommandText

open CLib Whitespace Answers
open ReplyRoundTrip (IsInt decimal_ne_nil word_decimal)
open ServerSteps (IsRpc)

/-! ### Commands -/

/-- What a client can ask for, with the values that the server passes on. -/
inductive Command where
  | createCanvas (height width : Nat) (background : Int)
  | destroyCanvas (id : Int)
  | createSprite (file : CStr)
  | createRectangle (width height : Nat) (color filled : Int)
  | createCircle (radius : Nat) (color filled : Int)
  | destroySprite (id : Int)
  | placeSprite (canvas sprite x y : Int)
  | placementUp (id : Int)
  | placementDown (id : Int)
  | placementTop (id : Int)
  | placementBottom (id : Int)
  | destroyPlacement (id : Int)
  | setAnimationParams (id vx vy ax ay : Int)
  | generate (canvas : Int) (filename : CStr) (start last rate : Int)
  | shareCanvas (canvas : Int) (user : CStr)
deriving DecidableEq, Repr

namespace Command

/-- The task that a command makes. -/
def type : Command → TaskType
  | createCanvas .. => .CREATE_CANVAS
  | destroyCanvas .. => .DESTROY_CANVAS
  | createSprite .. => .CREATE_SPRITE
  | createRectangle .. => .CREATE_RECTANGLE
  | createCircle .. => .CREATE_CIRCLE
  | destroySprite .. => .DESTROY_SPRITE
  | placeSprite .. => .PLACE_SPRITE
  | placementUp .. => .PLACEMENT_UP
  | placementDown .. => .PLACEMENT_DOWN
  | placementTop .. => .PLACEMENT_TOP
  | placementBottom .. => .PLACEMENT_BOTTOM
  | destroyPlacement .. => .DESTROY_PLACEMENT
  | setAnimationParams .. => .SET_ANIM_PARAM
  | generate .. => .GENERATE
  | shareCanvas .. => .SHARE

/-- The name that the user types for a task. -/
def nameOf : TaskType → CStr
  | .CREATE_CANVAS => "create_canvas".toList
  | .DESTROY_CANVAS => "destroy_canvas".toList
  | .CREATE_SPRITE => "create_sprite".toList
  | .CREATE_RECTANGLE => "create_rectangle".toList
  | .CREATE_CIRCLE => "create_circle".toList
  | .DESTROY_SPRITE => "destroy_sprite".toList
  | .PLACE_SPRITE => "place_sprite".toList
  | .PLACEMENT_UP => "placement_up".toList
  | .PLACEMENT_DOWN => "placement_down".toList
  | .PLACEMENT_TOP => "placement_top".toList
  | .PLACEMENT_BOTTOM => "placement_bottom".toList
  | .DESTROY_PLACEMENT => "destroy_placement".toList
  | .SET_ANIM_PARAM => "set_animation_params".toList
  | .GENERATE => "generate".toList
  | .SHARE => "share_canvas".toList
  | .HANDSHAKE | .AUTHORISE | .BARRIER => []

def name (cmd : Command) : CStr := nameOf cmd.type

/-- The words behind the name. -/
def args : Command → List CStr
  | createCanvas h w bg => [decimal h, decimal w, decimal bg]
  | createSprite file => [file]
  | createRectangle w h color filled => [decimal w, decimal h, decimal color, decimal filled]
  | createCircle radius color filled => [decimal radius, decimal color, decimal filled]
  | placeSprite cid sid x y => [decimal cid, decimal sid, decimal x, decimal y]
  | setAnimationParams id vx vy ax ay =>
    [decimal id, decimal vx, decimal vy, decimal ax, decimal ay]
  | generate cid filename start last rate =>
    [decimal cid, filename, decimal start, decimal last, decimal rate]
  | shareCanvas cid user => [decimal cid, user]
  | destroyCanvas id | destroySprite id | placementUp id | placementDown id
  | placementTop id | placementBottom id | destroyPlacement id => [decimal id]

end Command

/-- The arguments of a command, as they stand behind its name. -/
def joined (ws : List CStr) : CStr := [' '].intercalate ws

/-- A value of the type `long`. -/
def IsLong (v : Int) : Prop := LONG_MIN ≤ v ∧ v ≤ LONG_MAX

/-- An id that passes `id < 0 || id > INT_MAX`. -/
def IsId (v : Int) : Prop := 0 ≤ v ∧ v ≤ INT_MAX

/-- A token without white space. -/
def IsWord (w : CStr) : Prop := Word w ∧ w ≠ []

instance (w : CStr) : Decidable (IsWord w) :=
  decidable_of_iff (w.all (fun c => !isspace c) = true ∧ w ≠ []) (by simp [IsWord, Word])

/-- The values are of the types that the server converts the arguments to, the ids that it
checks are in range, and so are the frame numbers of `generate`. -/
def Command.WellFormed : Command → Prop
  | .createCanvas h w bg => h ≤ ULONG_MAX ∧ w ≤ ULONG_MAX ∧ IsLong bg
  | .createSprite file => IsWord file
  | .createRectangle w h color filled =>
    w ≤ ULONG_MAX ∧ h ≤ ULONG_MAX ∧ IsLong color ∧ IsLong filled
  | .createCircle radius color filled => radius ≤ ULONG_MAX ∧ IsLong color ∧ IsLong filled
  | .placeSprite cid sid x y => IsLong cid ∧ IsLong sid ∧ IsLong x ∧ IsLong y
  | .setAnimationParams id vx vy ax ay =>
    IsLong id ∧ IsLong vx ∧ IsLong vy ∧ IsLong ax ∧ IsLong ay
  | .generate cid filename start last rate =>
    (IsInt cid ∧ IsInt start ∧ IsInt last ∧ IsInt rate) ∧ IsWord filename ∧
      0 ≤ start ∧ start ≤ last ∧ 0 < rate
  | .shareCanvas cid user => IsId cid ∧ IsWord user
  | .destroyCanvas id => IsLong id
  | .destroySprite id | .placementUp id | .placementDown id | .placementTop id
  | .placementBottom id | .destroyPlacement id => IsId id

/-- What the case of the switch for a task of this type finds in a request, or the code with
which it refuses it. -/
def decode (type : TaskType) (request : CStr) : Except Int Command :=
  match type with
  | .CREATE_CANVAS =>
    (parseCreateCanvas request).map fun p => .createCanvas p.1 p.2.1 p.2.2
  | .DESTROY_CANVAS => (parseId MAX_RPC_BUF_LEN request).map .destroyCanvas
  | .CREATE_SPRITE => (parseCreateSprite request).map .createSprite
  | .CREATE_RECTANGLE =>
    (parseCreateRectangle request).map fun p => .createRectangle p.1 p.2.1 p.2.2.1 p.2.2.2
  | .CREATE_CIRCLE => (parseCreateCircle request).map fun p => .createCircle p.1 p.2.1 p.2.2
  | .DESTROY_SPRITE => (parseCheckedId 64 request).map .destroySprite
  | .PLACE_SPRITE =>
    (parsePlaceSprite request).map fun p => .placeSprite p.1 p.2.1 p.2.2.1 p.2.2.2
  | .PLACEMENT_UP => (parseCheckedId 64 request).map .placementUp
  | .PLACEMENT_DOWN => (parseCheckedId 64 request).map .placementDown
  | .PLACEMENT_TOP => (parseCheckedId 64 request).map .placementTop
  | .PLACEMENT_BOTTOM => (parseCheckedId 64 request).map .placementBottom
  | .DESTROY_PLACEMENT => (parseCheckedId 64 request).map .destroyPlacement
  | .SET_ANIM_PARAM =>
    (parseAnimParam request).map fun p =>
      .setAnimationParams p.1 p.2.1 p.2.2.1 p.2.2.2.1 p.2.2.2.2
  | .GENERATE =>
    (parseGenerate request).map fun p => .generate p.1 p.2.1 p.2.2.1 p.2.2.2.1 p.2.2.2.2
  | .SHARE => (parseShare request).map fun p => .shareCanvas p.1 p.2
  | .HANDSHAKE | .AUTHORISE | .BARRIER => .error 0

/-! ### What the worker does depends on what it finds -/

section Worker

variable {env : Env} {client : ClientRef} {reg : ClientRegistry} {w : World}

/-- A constructor does not lose what it is applied to. -/
theorem eq_of_map_eq {α β ε : Type} {f : α → β} (hf : ∀ a b, f a = f b → a = b)
    {x y : Except ε α} (h : x.map f = y.map f) : x = y := by
  cases x with
  | error e =>
    cases y with
    | error e' => exact congrArg Except.error (Except.error.inj h)
    | ok b => cases h
  | ok a =>
    cases y with
    | error e' => cases h
    | ok b => exact congrArg Except.ok (hf a b (Except.ok.inj h))

/-- A case of the switch looks at the request only through its parser. -/
theorem runRpc_congr {type : TaskType} {request request' : CStr}
    (h : decode type request = decode type request') :
    runRpc type env client request reg w = runRpc type env client request' reg w := by
  -- one case for each parser, by the shape of what it returns
  cases type with
  | HANDSHAKE | AUTHORISE | BARRIER => rfl
  | CREATE_CANVAS =>
    have hparse := eq_of_map_eq (by simp [Prod.ext_iff]) h
    simp only [runRpc, createCanvas, hparse]
  | CREATE_RECTANGLE =>
    have hparse := eq_of_map_eq (by simp [Prod.ext_iff]) h
    simp only [runRpc, createRectangle, hparse]
  | CREATE_CIRCLE =>
    have hparse := eq_of_map_eq (by simp [Prod.ext_iff]) h
    simp only [runRpc, createCircle, hparse]
  | PLACE_SPRITE =>
    have hparse := eq_of_map_eq (by simp [Prod.ext_iff]) h
    simp only [runRpc, placeSprite, hparse]
  | SET_ANIM_PARAM =>
    have hparse := eq_of_map_eq (by simp [Prod.ext_iff]) h
    simp only [runRpc, setAnimParam, hparse]
  | GENERATE =>
    have hparse := eq_of_map_eq (by simp [Prod.ext_iff]) h
    simp only [runRpc, generate, hparse]
  | SHARE =>
    have hparse := eq_of_map_eq (by simp [Prod.ext_iff]) h
    simp only [runRpc, share, hparse]
  | CREATE_SPRITE =>
    have hparse := eq_of_map_eq (by simp) h
    simp only [runRpc, createSprite, hparse]
  | DESTROY_CANVAS =>
    have hparse := eq_of_map_eq (by simp) h
    simp only [runRpc, destroyCanvas, hparse]
  | DESTROY_SPRITE =>
    have hparse := eq_of_map_eq (by simp) h
    simp only [runRpc, destroySprite, hparse]
  | DESTROY_PLACEMENT =>
    have hparse := eq_of_map_eq (by simp) h
    simp only [runRpc, destroyPlacement, hparse]
  | PLACEMENT_UP | PLACEMENT_DOWN | PLACEMENT_TOP | PLACEMENT_BOTTOM =>
    have hparse := eq_of_map_eq (by simp) h
    simp only [runRpc, placementUp, placementDown, placementTop, placementBottom, movePlacement,
      hparse]

theorem eq_error_of_map {α β ε : Type} {f : α → β} {x : Except ε α} {e : ε}
    (h : x.map f = .error e) : x = .error e := by
  cases x with
  | error e' => exact congrArg Except.error (Except.error.inj h)
  | ok a => cases h

/-- A request that is refused changes nothing, and the code is the only field of the reply. -/
theorem runRpc_refused {type : TaskType} (htype : IsRpc type) {request : CStr} {a : Int}
    (h : decode type request = .error a) :
    runRpc type env client request reg w = w.reply (ret1 a) := by
  -- each handler parses before it looks at anything else
  cases type with
  | AUTHORISE => exact absurd rfl htype.1
  | BARRIER => exact absurd rfl htype.2.1
  | HANDSHAKE => exact absurd rfl htype.2.2
  | CREATE_CANVAS => simp only [runRpc, createCanvas, eq_error_of_map h]
  | CREATE_RECTANGLE => simp only [runRpc, createRectangle, eq_error_of_map h]
  | CREATE_CIRCLE => simp only [runRpc, createCircle, eq_error_of_map h]
  | PLACE_SPRITE => simp only [runRpc, placeSprite, eq_error_of_map h]
  | SET_ANIM_PARAM => simp only [runRpc, setAnimParam, eq_error_of_map h]
  | GENERATE => simp only [runRpc, generate, eq_error_of_map h]
  | SHARE => simp only [runRpc, share, eq_error_of_map h]
  | CREATE_SPRITE => simp only [runRpc, createSprite, eq_error_of_map h]
  | DESTROY_CANVAS => simp only [runRpc, destroyCanvas, eq_error_of_map h]
  | DESTROY_SPRITE => simp only [runRpc, destroySprite, eq_error_of_map h]
  | DESTROY_PLACEMENT => simp only [runRpc, destroyPlacement, eq_error_of_map h]
  | PLACEMENT_UP | PLACEMENT_DOWN | PLACEMENT_TOP | PLACEMENT_BOTTOM =>
    simp only [runRpc, placementUp, placementDown, placementTop, placementBottom, movePlacement,
      eq_error_of_map h]

end Worker

/-- The codes of a refusal are negative. -/
theorem decode_error {type : TaskType} (htype : IsRpc type) {request : CStr} {a : Int}
    (h : decode type request = .error a) : a < 0 := by
  -- the parsers give their own negative codes
  cases type with
  | AUTHORISE => exact absurd rfl htype.1
  | BARRIER => exact absurd rfl htype.2.1
  | HANDSHAKE => exact absurd rfl htype.2.2
  | CREATE_CANVAS => exact coded_parseCreateCanvas.neg (eq_error_of_map h)
  | CREATE_RECTANGLE => exact coded_parseCreateRectangle.neg (eq_error_of_map h)
  | CREATE_CIRCLE => exact coded_parseCreateCircle.neg (eq_error_of_map h)
  | CREATE_SPRITE => exact coded_parseCreateSprite.neg (eq_error_of_map h)
  | PLACE_SPRITE => exact coded_parsePlaceSprite.neg (eq_error_of_map h)
  | SET_ANIM_PARAM => exact coded_parseAnimParam.neg (eq_error_of_map h)
  | GENERATE => exact coded_parseGenerate.neg (eq_error_of_map h)
  | SHARE => exact coded_parseShare.neg (eq_error_of_map h)
  | DESTROY_CANVAS => exact coded_parseId.neg (eq_error_of_map h)
  | DESTROY_SPRITE | DESTROY_PLACEMENT | PLACEMENT_UP | PLACEMENT_DOWN | PLACEMENT_TOP
  | PLACEMENT_BOTTOM => exact coded_parseCheckedId.neg (eq_error_of_map h)

/-! ### Tokens -/

/-- The first token and the rest. -/
theorem strtokR_joined {w : CStr} (hw : IsWord w) (ws : List CStr) :
    strtokR (joined (w :: ws)) = (some w, joined ws) := by
  rcases hw with ⟨hword, hne⟩
  rcases List.exists_cons_of_ne_nil hne with ⟨c, v, rfl⟩
  -- no letter of the word is the separator
  have hspace : ∀ d ∈ c :: v, (d != ' ') = true := by
    intro d hd
    have hd' := hword d hd
    rw [bne_iff_ne]
    rintro rfl
    cases hd'
  have hhead : (joined ((c :: v) :: ws)).dropWhile (· == ' ') = (c :: v) ++ spaced ws := by
    rw [joined, intercalate_cons, List.cons_append,
      List.dropWhile_cons_of_neg (by simpa using hspace c List.mem_cons_self)]
  have htake : ((c :: v) ++ spaced ws).takeWhile (· != ' ') = c :: v ∧
      ((c :: v) ++ spaced ws).dropWhile (· != ' ') = spaced ws := by
    rw [List.takeWhile_append_of_pos hspace, List.dropWhile_append_of_pos hspace]
    cases ws <;> simp [spaced]
  -- the space behind the word is the one that is cut
  have hrest : (spaced ws).drop 1 = joined ws := by
    cases ws with
    | nil => rfl
    | cons u us => simp [joined, intercalate_cons, spaced]
  unfold strtokR
  rw [hhead]
  simp only [htake, hrest]
  rfl

theorem isWord_decimal (v : Int) : IsWord (decimal v) := ⟨word_decimal v, decimal_ne_nil v⟩

/-- A printed `long` is read back. -/
theorem parseInt_decimal {v : Int} (hv : IsLong v) : parseInt (decimal v) = some v := by
  have hend : NoDigit [] := by simp [NoDigit]
  have hsplit := splitNumber_decimal v hend
  rw [List.append_nil] at hsplit
  rcases hv with ⟨hlo, hhi⟩
  simp only [parseInt, strtol, hsplit, signed_natAbs, if_true, Option.some.injEq]
  unfold clampLong
  rw [if_neg (by omega), if_neg (by omega)]

/-- A printed number of 64 bits without a sign is read back. -/
theorem parseUint_decimal {n : Nat} (hn : n ≤ ULONG_MAX) : parseUint (decimal n) = some n := by
  have hend : NoDigit [] := by simp [NoDigit]
  have hsplit := splitNumber_decimal n hend
  have hpos : ¬((n : Int) < 0) := by omega
  rw [List.append_nil] at hsplit
  simp only [parseUint, strtoul, hsplit, Int.natAbs_natCast, hpos, decide_false, if_true]
  rw [if_neg (by omega)]
  rfl

/-! ### The scan of `generate` -/

theorem noDigit_spaced (ws : List CStr) : NoDigit (spaced ws) := by
  cases ws <;> simp [NoDigit, spaced]

/-- A number behind a space, up to the next one. -/
theorem scanInt_spaced {v : Int} (hv : IsInt v) (ws : List CStr) :
    scanInt (spaced (decimal v :: ws)) = some (v, spaced ws) :=
  scanInt_decimal hv.1 hv.2 (noDigit_spaced ws)

/-- A word behind a space, up to the next one. -/
theorem scanWord_spaced {n : Nat} {w : CStr} (hw : IsWord w) (hn : w.length ≤ n)
    (ws : List CStr) : scanWord n (spaced (w :: ws)) = some (w, spaced ws) := by
  rcases hw with ⟨hword, hne⟩
  have hhead : (spaced (w :: ws)).dropWhile isspace = w ++ spaced ws := by
    rcases List.exists_cons_of_ne_nil hne with ⟨c, v, rfl⟩
    have hc := hword c List.mem_cons_self
    have hsp : isspace ' ' = true := rfl
    simp [spaced, hc, hsp]
  -- the word ends at the next space, or with the text
  have htake : (w ++ spaced ws).takeWhile (fun c => !isspace c) = w := by
    rw [List.takeWhile_append_of_pos fun c hc => by simp [hword c hc]]
    cases ws with
    | nil => simp [spaced]
    | cons v vs =>
      have hsp : isspace ' ' = true := rfl
      simp [spaced, hsp]
  unfold scanWord
  simp only [hhead, htake, List.take_of_length_le hn, if_neg hne, List.drop_left]

/-! ### The cases of the switch -/

section Parsers

theorem IsId.isLong {v : Int} (h : IsId v) : IsLong v := by
  unfold IsId INT_MAX at h
  unfold IsLong LONG_MIN LONG_MAX
  omega

/-- The copy in the case of the switch is the whole text. -/
theorem strncpyBuf_joined {n : Nat} {ws : List CStr} (h : (joined ws).length < n) :
    strncpyBuf n (joined ws) = joined ws :=
  ObjectIds.strncpyBuf_of_le (Nat.le_sub_one_of_lt h)

/-- A single id that fits into the buffer is found. -/
theorem parseId_joined {id : Int} (hid : IsLong id) {size : Nat}
    (hlen : (joined [decimal id]).length < size) : parseId size (joined [decimal id]) = .ok id := by
  simp only [parseId, strncpyBuf_joined hlen, strtokR_joined (isWord_decimal _),
    parseInt_decimal hid]

/-- An id that is in range fits into the buffer of 64 bytes. -/
theorem parseCheckedId_joined {id : Int} (hid : IsId id) :
    parseCheckedId 64 (joined [decimal id]) = .ok id := by
  have hint : INT_MIN ≤ id := le_trans (by decide) hid.1
  have hlen : (joined [decimal id]).length < 64 := by
    have hle := length_decimal_le hint hid.2
    simp only [joined, List.intercalate_singleton]
    omega
  have hrange : ¬(id < 0 ∨ INT_MAX < id) := by
    rcases hid with ⟨hlo, hhi⟩
    omega
  simp only [parseCheckedId, parseId_joined hid.isLong hlen, if_neg hrange]

/-- `sscanf` finds the five arguments of `generate` again. -/
theorem parseGenerate_joined {cid start last rate : Int} {filename : CStr} (hcid : IsInt cid)
    (hstart : IsInt start) (hlast : IsInt last) (hrate : IsInt rate) (hfile : IsWord filename)
    (hlen : filename.length ≤ MAX_FILENAME_LEN - 1)
    (hframes : 0 ≤ start ∧ start ≤ last ∧ 0 < rate) :
    parseGenerate (joined [decimal cid, filename, decimal start, decimal last, decimal rate]) =
      .ok (cid, filename, start, last, rate) := by
  have hfirst : scanInt (joined [decimal cid, filename, decimal start, decimal last,
      decimal rate]) = some (cid, spaced [filename, decimal start, decimal last,
        decimal rate]) := by
    rw [joined, intercalate_cons]
    exact scanInt_decimal hcid.1 hcid.2 (noDigit_spaced _)
  have hrange : ¬(start < 0 ∨ last < start ∨ rate ≤ 0) := by omega
  simp only [parseGenerate, hfirst, scanWord_spaced hfile hlen, scanInt_spaced hstart,
    scanInt_spaced hlast, scanInt_spaced hrate, Option.bind_eq_bind, Option.bind_some,
    if_neg hrange]

/-- A word of a text is not longer than the text. -/
theorem length_le_joined {w : CStr} {ws : List CStr} (hw : w ∈ ws) :
    w.length ≤ (joined ws).length := by
  induction ws with
  | nil => cases hw
  | cons v vs ih =>
    rw [joined, intercalate_cons, List.length_append]
    rcases List.mem_cons.mp hw with rfl | hw
    · exact Nat.le_add_right _ _
    · have hle := ih hw
      cases vs with
      | nil => cases hw
      | cons u us =>
        rw [joined, intercalate_cons, List.length_append] at hle
        simp only [spaced, List.flatMap_cons, List.length_append, List.length_cons] at hle ⊢
        omega

/-- The case of the switch finds in the text of a command what the command says. -/
theorem decode_joined {cmd : Command} (hcmd : cmd.WellFormed)
    (hlen : (joined cmd.args).length < MAX_RPC_BUF_LEN) :
    decode cmd.type (joined cmd.args) = .ok cmd := by
  have hbuf : ∀ {n : Nat}, MAX_RPC_BUF_LEN ≤ n →
      strncpyBuf n (joined cmd.args) = joined cmd.args := fun hn =>
    strncpyBuf_joined (Nat.lt_of_lt_of_le hlen hn)
  have hcopy := hbuf (Nat.le_refl MAX_RPC_BUF_LEN)
  -- the copy is whole, and then the tokens come out one after the other
  cases cmd with
  | createCanvas h w bg =>
    rcases hcmd with ⟨hh, hw, hbg⟩
    simp only [Command.type, Command.args, decode, parseCreateCanvas] at hcopy ⊢
    simp only [hcopy, strtokR_joined (isWord_decimal _), parseUint_decimal hh,
      parseUint_decimal hw, parseInt_decimal hbg, Except.map]
  | createSprite file =>
    simp only [Command.type, Command.args, decode, parseCreateSprite] at hcopy ⊢
    simp only [hcopy, strtokR_joined hcmd, Except.map]
  | createRectangle w h color filled =>
    rcases hcmd with ⟨hw, hh, hcolor, hfilled⟩
    simp only [Command.type, Command.args, decode, parseCreateRectangle,
      MAX_RPC_BUF_LEN] at hcopy ⊢
    simp only [hcopy, strtokR_joined (isWord_decimal _), parseUint_decimal hw,
      parseUint_decimal hh, parseInt_decimal hcolor, parseInt_decimal hfilled, Except.map]
  | createCircle radius color filled =>
    rcases hcmd with ⟨hradius, hcolor, hfilled⟩
    simp only [Command.type, Command.args, decode, parseCreateCircle,
      MAX_RPC_BUF_LEN] at hcopy ⊢
    simp only [hcopy, strtokR_joined (isWord_decimal _), parseUint_decimal hradius,
      parseInt_decimal hcolor, parseInt_decimal hfilled, Except.map]
  | placeSprite cid sid x y =>
    rcases hcmd with ⟨hcid, hsid, hx, hy⟩
    simp only [Command.type, Command.args, decode, parsePlaceSprite,
      MAX_RPC_BUF_LEN] at hcopy ⊢
    simp only [hcopy, strtokR_joined (isWord_decimal _), parseInt_decimal hcid,
      parseInt_decimal hsid, parseInt_decimal hx, parseInt_decimal hy, Except.map]
  | setAnimationParams id vx vy ax ay =>
    rcases hcmd with ⟨hid, hvx, hvy, hax, hay⟩
    simp only [Command.type, Command.args, decode, parseAnimParam,
      MAX_RPC_BUF_LEN] at hcopy ⊢
    simp only [hcopy, strtokR_joined (isWord_decimal _), parseInt_decimal hid,
      parseInt_decimal hvx, parseInt_decimal hvy, parseInt_decimal hax, parseInt_decimal hay,
      Except.map]
  | generate cid filename start last rate =>
    rcases hcmd with ⟨⟨hcid, hstart, hlast, hrate⟩, hfile, hframes⟩
    have hle : filename.length ≤ MAX_FILENAME_LEN - 1 := by
      have hmem : filename ∈ (Command.generate cid filename start last rate).args := by
        simp [Command.args]
      have hword := length_le_joined hmem
      exact Nat.le_sub_one_of_lt (Nat.lt_of_le_of_lt hword hlen)
    simp only [Command.type, Command.args, decode,
      parseGenerate_joined hcid hstart hlast hrate hfile hle hframes, Except.map]
  | shareCanvas cid user =>
    rcases hcmd with ⟨hcid, huser⟩
    have hrange : ¬(cid < 0 ∨ INT_MAX < cid) := by
      rcases hcid with ⟨hlo, hhi⟩
      omega
    simp only [Command.type, Command.args, decode, parseShare] at hcopy ⊢
    simp only [hcopy, strtokR_joined (isWord_decimal _), strtokR_joined huser,
      parseInt_decimal hcid.isLong, if_neg hrange, Except.map]
  | destroyCanvas id =>
    simp only [Command.type, Command.args, decode, parseId_joined hcmd hlen,
      Except.map]
  | destroySprite id | placementUp id | placementDown id | placementTop id | placementBottom id
  | destroyPlacement id =>
    have hid : IsId id := hcmd
    simp only [Command.type, Command.args, decode, parseCheckedId_joined hid,
      Except.map]

end Parsers

/-! ### What is accepted -/

section Accepted

/-- Whatever `parse_int` returns is a `long`. -/
theorem isLong_of_parseInt {s : CStr} {v : Int} (h : parseInt s = some v) : IsLong v := by
  unfold parseInt at h
  dsimp only at h
  rcases Option.ite_none_right_eq_some.mp h with ⟨-, h⟩
  obtain rfl := Option.some.inj h
  unfold strtol IsLong clampLong LONG_MAX LONG_MIN
  grind

/-- Whatever `parse_uint` returns fits into 64 bits. -/
theorem le_of_parseUint {s : CStr} {n : Nat} (h : parseUint s = some n) : n ≤ ULONG_MAX := by
  unfold parseUint at h
  dsimp only at h
  rcases Option.ite_none_right_eq_some.mp h with ⟨-, h⟩
  obtain rfl := Option.some.inj h
  unfold strtoul
  split
  · exact Nat.zero_le _
  · dsimp only
    split
    · exact Nat.le_refl _
    · split
      · exact Nat.lt_succ_iff.mp (Nat.mod_lt _ (Nat.succ_pos _))
      · omega

/-- A text in which white space is spaces. -/
def Plain (s : CStr) : Prop := ∀ c ∈ s, isspace c = true → c = ' '

instance (s : CStr) : Decidable (Plain s) :=
  decidable_of_iff (s.all (fun c => !isspace c || c == ' ') = true) (by
    simp only [Plain, List.all_eq_true, Bool.or_eq_true, Bool.not_eq_true', beq_iff_eq]
    exact forall₂_congr fun c _ => by cases isspace c <;> simp)

/-- Part of a plain text is plain. -/
theorem Plain.sublist {s t : CStr} (h : Plain s) (ht : t.Sublist s) : Plain t :=
  fun c hc => h c (ht.subset hc)

/-- A token of a plain text is a word, and the rest is plain. -/
theorem Plain.strtokR {s : CStr} (h : Plain s) :
    (∀ t, (CLib.strtokR s).1 = some t → IsWord t) ∧ Plain (CLib.strtokR s).2 := by
  constructor
  · intro t ht
    refine ⟨fun c hc => ?_, strtokR_ne_nil ht⟩
    unfold CLib.strtokR at ht
    dsimp only at ht
    split at ht
    · cases ht
    · obtain rfl := Option.some.inj ht
      have hne : (c != ' ') = true := List.all_eq_true.mp List.all_takeWhile c hc
      have hmem : c ∈ s :=
        ((List.takeWhile_sublist _).trans (List.dropWhile_sublist _)).subset hc
      rw [Bool.eq_false_iff]
      intro hsp
      -- the only white space of a plain text is the blank, which ends a token
      rw [h c hmem hsp] at hne
      cases hne
  · unfold CLib.strtokR
    dsimp only
    split
    · intro c hc
      cases hc
    · exact h.sublist ((List.drop_sublist _ _).trans
        ((List.dropWhile_sublist _).trans (List.dropWhile_sublist _)))

theorem isLong_of_parseId {size : Nat} {request : CStr} {id : Int}
    (h : parseId size request = .ok id) : IsLong id := by
  unfold parseId at h
  dsimp only at h
  split at h
  · cases h
  · split at h
    · cases h
    · rename_i hid
      cases h
      exact isLong_of_parseInt hid

/-- A checked id is in range. -/
theorem isId_of_parseCheckedId {size : Nat} {request : CStr} {id : Int}
    (h : parseCheckedId size request = .ok id) : IsId id := by
  unfold parseCheckedId at h
  split at h
  · cases h
  · split at h
    · cases h
    · rename_i hrange
      cases h
      exact ⟨not_lt.mp fun hlo => hrange (Or.inl hlo), not_lt.mp fun hhi => hrange (Or.inr hhi)⟩

/-! The parsers with several tokens have one branch that succeeds, and there every token has
been converted. -/

theorem wellFormed_createCanvas {request : CStr} {h w : Nat} {bg : Int}
    (hp : parseCreateCanvas request = .ok (h, w, bg)) :
    (Command.createCanvas h w bg).WellFormed := by
  unfold parseCreateCanvas at hp
  dsimp only at hp
  split at hp
  · split at hp
    · rename_i hh hw hbg
      cases hp
      exact ⟨le_of_parseUint hh, le_of_parseUint hw, isLong_of_parseInt hbg⟩
    · cases hp
  · cases hp

theorem wellFormed_createRectangle {request : CStr} {w h : Nat} {color filled : Int}
    (hp : parseCreateRectangle request = .ok (w, h, color, filled)) :
    (Command.createRectangle w h color filled).WellFormed := by
  unfold parseCreateRectangle at hp
  dsimp only at hp
  split at hp
  · split at hp
    · rename_i hw hh hcolor hfilled
      cases hp
      exact ⟨le_of_parseUint hw, le_of_parseUint hh, isLong_of_parseInt hcolor,
        isLong_of_parseInt hfilled⟩
    · cases hp
  · cases hp

theorem wellFormed_createCircle {request : CStr} {radius : Nat} {color filled : Int}
    (hp : parseCreateCircle request = .ok (radius, color, filled)) :
    (Command.createCircle radius color filled).WellFormed := by
  unfold parseCreateCircle at hp
  dsimp only at hp
  split at hp
  · split at hp
    · rename_i hradius hcolor hfilled
      cases hp
      exact ⟨le_of_parseUint hradius, isLong_of_parseInt hcolor, isLong_of_parseInt hfilled⟩
    · cases hp
  · cases hp

theorem wellFormed_placeSprite {request : CStr} {cid sid x y : Int}
    (hp : parsePlaceSprite request = .ok (cid, sid, x, y)) :
    (Command.placeSprite cid sid x y).WellFormed := by
  unfold parsePlaceSprite at hp
  dsimp only at hp
  split at hp
  · split at hp
    · rename_i hcid hsid hx hy
      cases hp
      exact ⟨isLong_of_parseInt hcid, isLong_of_parseInt hsid, isLong_of_parseInt hx,
        isLong_of_parseInt hy⟩
    · cases hp
  · cases hp

theorem wellFormed_setAnimationParams {request : CStr} {id vx vy ax ay : Int}
    (hp : parseAnimParam request = .ok (id, vx, vy, ax, ay)) :
    (Command.setAnimationParams id vx vy ax ay).WellFormed := by
  unfold parseAnimParam at hp
  dsimp only at hp
  split at hp
  · split at hp
    · rename_i hid hvx hvy hax hay
      cases hp
      exact ⟨isLong_of_parseInt hid, isLong_of_parseInt hvx, isLong_of_parseInt hvy,
        isLong_of_parseInt hax, isLong_of_parseInt hay⟩
    · cases hp
  · cases hp

/-- The file of `create_sprite` is the first token. -/
theorem token_of_parseCreateSprite {request file : CStr}
    (hp : parseCreateSprite request = .ok file) :
    (strtokR (strncpyBuf MAX_RPC_BUF_LEN request)).1 = some file := by
  unfold parseCreateSprite at hp
  split at hp
  · rename_i hfile
    cases hp
    exact hfile
  · cases hp

/-- The canvas of `share_canvas` is the number in the first token, the user is the second one,
whatever is behind it. -/
theorem tokens_of_parseShare {request user : CStr} {cid : Int}
    (hp : parseShare request = .ok (cid, user)) :
    ∃ t, (strtokR (strncpyBuf MAX_RPC_BUF_LEN request)).1 = some t ∧ parseInt t = some cid ∧
      (strtokR (strtokR (strncpyBuf MAX_RPC_BUF_LEN request)).2).1 = some user ∧ IsId cid := by
  -- two tokens, a number in the first, the number in range
  unfold parseShare at hp
  dsimp only at hp
  split at hp
  · rename_i htoken huser
    split at hp
    · rename_i hcid
      split at hp
      · cases hp
      · rename_i hrange
        cases hp
        exact ⟨_, htoken, hcid, huser, not_lt.mp fun hlo => hrange (Or.inl hlo),
          not_lt.mp fun hhi => hrange (Or.inr hhi)⟩
    · cases hp
  · cases hp

/-- `generate` checks the frames and the rate, and the conversions of `sscanf` the rest. -/
theorem wellFormed_generate {request filename : CStr} {cid start last rate : Int}
    (hp : parseGenerate request = .ok (cid, filename, start, last, rate)) :
    (Command.generate cid filename start last rate).WellFormed := by
  have haccepted := Generation.parseGenerate_ok hp
  rcases haccepted.name with ⟨t, rest, hname⟩
  rcases scanWord_some hname with ⟨hne, -, hword⟩
  have hstart : IsInt start := ⟨le_trans (by decide) haccepted.nonneg,
    haccepted.ordered.trans haccepted.last_le⟩
  have hlast : IsInt last := ⟨hstart.1.trans haccepted.ordered, haccepted.last_le⟩
  have hrate : IsInt rate := ⟨le_trans (by decide) haccepted.rate_pos.le, haccepted.rate_le⟩
  exact ⟨⟨haccepted.canvas, hstart, hlast, hrate⟩, ⟨hword, hne⟩, haccepted.nonneg,
    haccepted.ordered, haccepted.rate_pos⟩

/-- What the parser of a case of the switch has found. -/
theorem exists_of_map_eq_ok {α β ε : Type} {f : α → β} {x : Except ε α} {b : β}
    (h : x.map f = .ok b) : ∃ a, x = .ok a ∧ b = f a := by
  cases x with
  | error e => cases h
  | ok a => exact ⟨a, rfl, (Except.ok.inj h).symm⟩

/-- What the worker accepts is a command of the type of the task, with values in range. -/
theorem wellFormed_of_decode {type : TaskType} {request : CStr} {cmd : Command}
    (hplain : Plain request) (h : decode type request = .ok cmd) :
    cmd.type = type ∧ cmd.WellFormed := by
  -- the handler works on a copy that is cut to the buffer
  have hcopy := hplain.sublist (List.take_sublist (MAX_RPC_BUF_LEN - 1) request)
  cases type with
  | HANDSHAKE | AUTHORISE | BARRIER => cases h
  | CREATE_CANVAS =>
    rcases exists_of_map_eq_ok h with ⟨p, hp, rfl⟩
    exact ⟨rfl, wellFormed_createCanvas hp⟩
  | CREATE_RECTANGLE =>
    rcases exists_of_map_eq_ok h with ⟨p, hp, rfl⟩
    exact ⟨rfl, wellFormed_createRectangle hp⟩
  | CREATE_CIRCLE =>
    rcases exists_of_map_eq_ok h with ⟨p, hp, rfl⟩
    exact ⟨rfl, wellFormed_createCircle hp⟩
  | PLACE_SPRITE =>
    rcases exists_of_map_eq_ok h with ⟨p, hp, rfl⟩
    exact ⟨rfl, wellFormed_placeSprite hp⟩
  | SET_ANIM_PARAM =>
    rcases exists_of_map_eq_ok h with ⟨p, hp, rfl⟩
    exact ⟨rfl, wellFormed_setAnimationParams hp⟩
  | CREATE_SPRITE =>
    rcases exists_of_map_eq_ok h with ⟨file, hp, rfl⟩
    exact ⟨rfl, hcopy.strtokR.1 _ (token_of_parseCreateSprite hp)⟩
  | DESTROY_CANVAS =>
    rcases exists_of_map_eq_ok h with ⟨id, hp, rfl⟩
    exact ⟨rfl, isLong_of_parseId hp⟩
  | DESTROY_SPRITE | PLACEMENT_UP | PLACEMENT_DOWN | PLACEMENT_TOP | PLACEMENT_BOTTOM
  | DESTROY_PLACEMENT =>
    rcases exists_of_map_eq_ok h with ⟨id, hp, rfl⟩
    exact ⟨rfl, isId_of_parseCheckedId hp⟩
  | SHARE =>
    rcases exists_of_map_eq_ok h with ⟨⟨cid, user⟩, hp, rfl⟩
    rcases tokens_of_parseShare hp with ⟨t, -, -, huser, hid⟩
    exact ⟨rfl, hid, hcopy.strtokR.2.strtokR.1 _ huser⟩
  | GENERATE =>
    rcases exists_of_map_eq_ok h with ⟨p, hp, rfl⟩
    exact ⟨rfl, wellFormed_generate hp⟩

end Accepted

/-! ### The plain text of a command fits -/

section Fits

/-- A number of 64 bits without a sign has at most twenty digits. -/
theorem length_decimal_ulong {n : Nat} (hn : n ≤ ULONG_MAX) : (decimal n).length ≤ 20 := by
  have habs : (n : Int).natAbs < 10 ^ 20 := by
    unfold ULONG_MAX at hn
    omega
  exact (length_decimal_of_lt (by decide) habs).2 (Int.natCast_nonneg n)

/-- A text of short words is short. -/
theorem length_joined_le {n : Nat} {ws : List CStr} (h : ∀ w ∈ ws, w.length ≤ n) :
    (joined ws).length ≤ ws.length * (n + 1) := by
  cases ws with
  | nil => exact Nat.zero_le _
  | cons w ws =>
    -- one space before each word but the first
    have hspaced : ∀ vs : List CStr, (∀ v ∈ vs, v.length ≤ n) →
        (spaced vs).length ≤ vs.length * (n + 1) := by
      intro vs hvs
      induction vs with
      | nil => exact Nat.zero_le _
      | cons v vs ih =>
        have hv := hvs v List.mem_cons_self
        have hrest := ih fun u hu => hvs u (List.mem_cons_of_mem _ hu)
        simp only [spaced, List.flatMap_cons, List.length_append, List.length_cons,
          Nat.succ_mul] at hrest ⊢
        omega
    have hw := h w List.mem_cons_self
    have hrest := hspaced ws fun v hv => h v (List.mem_cons_of_mem _ hv)
    rw [joined, intercalate_cons, List.length_append, List.length_cons, Nat.succ_mul]
    omega

/-- Behind a command without a name of a file or a user stand at most five numbers. -/
theorem length_numbers {cmd : Command} (hcmd : cmd.WellFormed)
    (htype : cmd.type ≠ .CREATE_SPRITE ∧ cmd.type ≠ .GENERATE ∧ cmd.type ≠ .SHARE) :
    (joined cmd.args).length ≤ 105 := by
  have hargs : cmd.args.length ≤ 5 ∧ ∀ w ∈ cmd.args, w.length ≤ 20 := by
    cases cmd with
    | createSprite => exact absurd rfl htype.1
    | generate => exact absurd rfl htype.2.1
    | shareCanvas => exact absurd rfl htype.2.2
    | createCanvas h w bg =>
      rcases hcmd with ⟨hh, hw, hbg⟩
      simp [Command.args, length_decimal_ulong hh, length_decimal_ulong hw,
        length_decimal_long hbg]
    | createRectangle w h color filled =>
      rcases hcmd with ⟨hw, hh, hcolor, hfilled⟩
      simp [Command.args, length_decimal_ulong hw, length_decimal_ulong hh,
        length_decimal_long hcolor, length_decimal_long hfilled]
    | createCircle radius color filled =>
      rcases hcmd with ⟨hradius, hcolor, hfilled⟩
      simp [Command.args, length_decimal_ulong hradius, length_decimal_long hcolor,
        length_decimal_long hfilled]
    | placeSprite cid sid x y =>
      rcases hcmd with ⟨hcid, hsid, hx, hy⟩
      simp [Command.args, length_decimal_long hcid, length_decimal_long hsid,
        length_decimal_long hx, length_decimal_long hy]
    | setAnimationParams id vx vy ax ay =>
      rcases hcmd with ⟨hid, hvx, hvy, hax, hay⟩
      simp [Command.args, length_decimal_long hid, length_decimal_long hvx,
        length_decimal_long hvy, length_decimal_long hax, length_decimal_long hay]
    | destroyCanvas id => simp [Command.args, length_decimal_long hcmd]
    | destroySprite id | placementUp id | placementDown id | placementTop id
    | placementBottom id | destroyPlacement id =>
      have hid : IsId id := hcmd
      simp [Command.args, length_decimal_long hid.isLong]
  -- at most five numbers of twenty characters, each with a space
  calc (joined cmd.args).length ≤ cmd.args.length * 21 := length_joined_le hargs.2
    _ ≤ 5 * 21 := Nat.mul_le_mul_right _ hargs.1

/-- The text of `generate` grows by the space in front of a name that follows a number at once
and by the sign of a number that the conversion to `int` has made negative. The other numbers
are not negative. -/
theorem length_generate {request filename : CStr} {cid start last rate : Int}
    (hlen : request.length < MAX_RPC_BUF_LEN)
    (hp : parseGenerate request = .ok (cid, filename, start, last, rate)) :
    (joined (Command.generate cid filename start last rate).args).length ≤
      request.length + 2 := by
  have haccepted := Generation.parseGenerate_ok hp
  unfold parseGenerate at hp
  dsimp only at hp
  split at hp
  · cases hp
  · rename_i hparsed
    split at hp
    · cases hp
    · simp only [Except.ok.injEq, Prod.mk.injEq] at hp
      rcases hp with ⟨rfl, rfl, rfl, rfl, rfl⟩
      simp only [Option.bind_eq_bind, Option.bind_eq_some_iff, Prod.exists, Option.some.injEq,
        Prod.mk.injEq] at hparsed
      obtain ⟨cid, s₁, hcid, name, s₂, hname, start, s₃, hstart, last, s₄, hlast, rate, s₅, hrate,
        rfl, rfl, rfl, rfl, rfl⟩ := hparsed
      rcases length_scanInt hcid with ⟨-, hcid, -⟩
      -- at least one byte is read for the canvas, so the name is not cut
      have hone : s₁.length ≤ MAX_FILENAME_LEN - 1 := by
        have hpos := List.length_pos_iff.mpr (decimal_ne_nil cid)
        exact Nat.le_sub_one_of_lt (Nat.lt_of_le_of_lt (by omega) hlen)
      rcases length_scanWord hname hone with ⟨hend₂, hname⟩
      rcases length_scanInt hstart with ⟨hend₃, -, hstart⟩
      rcases length_scanInt hlast with ⟨hend₄, -, hlast⟩
      rcases length_scanInt hrate with ⟨-, -, hrate⟩
      have hs := hstart hend₂ haccepted.nonneg
      have hl := hlast hend₃ (haccepted.nonneg.trans haccepted.ordered)
      have hr := hrate hend₄ haccepted.rate_pos.le
      simp only [Command.args, joined, intercalate_cons, spaced, List.flatMap_cons,
        List.flatMap_nil, List.length_append, List.length_cons, List.length_nil]
      omega

/-- An id in range is not longer than the token that it was read from. -/
theorem length_parseInt {t : CStr} {id : Int} (ht : t ≠ []) (h : parseInt t = some id)
    (hid : IsId id) : (decimal id).length ≤ t.length := by
  unfold parseInt strtol at h
  cases hsplit : splitNumber t with
  | none =>
    simp only [hsplit, if_neg ht] at h
    cases h
  | some r =>
    rcases r with ⟨neg, m, rest⟩
    simp only [hsplit] at h
    rcases Option.ite_none_right_eq_some.mp h with ⟨-, h⟩
    have hval : clampLong (signed neg m) = id := Option.some.inj h
    rcases splitNumber_some hsplit with ⟨front, ds, rfl, hne, hm, -⟩
    -- the value is below 10 to the number of digits read, so it is written with no more
    have hlt := natAbs_toInt_lt neg hm
    rw [hval, toInt_of_range (le_trans (by decide) hid.1) hid.2] at hlt
    have hle := (length_decimal_of_lt (List.length_pos_iff.mpr hne) hlt).2 hid.1
    simp only [List.length_append]
    omega

/-- The text of `share_canvas` does not grow. -/
theorem length_share {request user : CStr} {cid : Int}
    (hp : parseShare request = .ok (cid, user)) :
    (joined (Command.shareCanvas cid user).args).length ≤ request.length := by
  rcases tokens_of_parseShare hp with ⟨t, ht, hcid, huser, hid⟩
  have hcopy : (strncpyBuf MAX_RPC_BUF_LEN request).length ≤ request.length :=
    List.length_take_le' (MAX_RPC_BUF_LEN - 1) request
  rcases length_strtokR huser with ⟨hname, -⟩
  -- a second token is there, so a space stands between the two
  have hrest : (strtokR (strncpyBuf MAX_RPC_BUF_LEN request)).2 ≠ [] := by
    intro hnil
    rw [hnil] at huser
    cases huser
  have htoken := (length_strtokR ht).2 hrest
  have hnumber := length_parseInt (strtokR_ne_nil ht) hcid hid
  simp only [Command.args, joined, intercalate_cons, spaced, List.flatMap_cons,
    List.flatMap_nil, List.length_append, List.length_cons, List.length_nil]
  omega

/-- A request that is short, as all are that the server gets, does not mean a command that is
too long to be asked for. -/
theorem length_of_decode {type : TaskType} {request : CStr} {cmd : Command}
    (hplain : Plain request) (hlen : request.length + 2 < MAX_RPC_BUF_LEN)
    (h : decode type request = .ok cmd) : (joined cmd.args).length < MAX_RPC_BUF_LEN := by
  rcases wellFormed_of_decode hplain h with ⟨rfl, hcmd⟩
  by_cases hnum : cmd.type ≠ .CREATE_SPRITE ∧ cmd.type ≠ .GENERATE ∧ cmd.type ≠ .SHARE
  · exact Nat.lt_of_le_of_lt (length_numbers hcmd hnum) (by decide)
  · cases cmd with
    | createSprite file =>
      rcases exists_of_map_eq_ok h with ⟨file, hp, heq⟩
      cases heq
      have htoken := (length_strtokR (token_of_parseCreateSprite hp)).1
      -- these three carry a text of the user's, the others only numbers
      have hcopy := List.length_take_le' (MAX_RPC_BUF_LEN - 1) request
      show (joined [file]).length < _
      simp only [joined, List.intercalate_singleton]
      exact Nat.lt_of_le_of_lt (htoken.trans hcopy) (by omega)
    | generate =>
      rcases exists_of_map_eq_ok h with ⟨p, hp, heq⟩
      cases heq
      exact Nat.lt_of_le_of_lt (length_generate (by omega) hp) hlen
    | shareCanvas =>
      rcases exists_of_map_eq_ok h with ⟨p, hp, heq⟩
      cases heq
      exact Nat.lt_of_le_of_lt (length_share hp) (by omega)
    | _ => exact absurd ⟨nofun, nofun, nofun⟩ hnum

end Fits

/-! ### The way of the text -/

section RoundTrip

variable {cmd : Command}

/-- A command has one of the names that `handle_command` looks for, and no `Login`. -/
theorem mem_commands (cmd : Command) :
    (cmd.name ++ [' '], cmd.type) ∈ Dispatch.commands ∧ cmd.type ≠ .AUTHORISE := by
  unfold Command.name
  cases cmd <;>
  · simp only [Command.type]
    decide

/-- A command has arguments. -/
theorem args_ne_nil (cmd : Command) : cmd.args ≠ [] := by
  cases cmd <;> exact List.cons_ne_nil _ _

/-- The text of a command is its name, a space and its arguments. -/
theorem joined_words (cmd : Command) :
    joined (cmd.name :: cmd.args) = (cmd.name ++ [' ']) ++ joined cmd.args := by
  rcases List.exists_cons_of_ne_nil (args_ne_nil cmd) with ⟨w, ws, hargs⟩
  rw [hargs, joined, joined, intercalate_cons, intercalate_cons]
  simp [spaced]

/-- The arguments are shorter than the line. -/
theorem length_joined_args (cmd : Command) :
    (joined cmd.args).length < (joined (cmd.name :: cmd.args)).length := by
  rw [joined_words, List.length_append, List.length_append, List.length_singleton]
  omega

/-- What the client sends for a line whose words are those of a command. -/
theorem sendUserInput_command {input : CStr} (hinput : words input = cmd.name :: cmd.args)
    (hlen : input.length ≤ MAX_RPC_BUF_LEN - 1) :
    ∃ m, Client.sendUserInput (some input) = (1, some m) ∧
      m.text = joined (cmd.name :: cmd.args) ∧ m.text.length ≤ MAX_RPC_BUF_LEN - 1 ∧
      ∀ rest, ClientSide.readText (m.bytes ++ rest) = some (m.text, rest) := by
  have htext : sanitiseWhitespace input = joined (cmd.name :: cmd.args) := by
    rw [sanitiseWhitespace_eq_normalise, normalise_eq_words, hinput, joined]
  have hne : joined (cmd.name :: cmd.args) ≠ [] := by
    intro hnil
    have hlt := length_joined_args cmd
    rw [hnil] at hlt
    exact Nat.not_lt_zero _ hlt
  -- the name of a command is not that of another request
  have hdisc : joined (cmd.name :: cmd.args) ≠ "Disconnect".toList := by
    intro heq
    have hprefix : cmd.name ++ [' '] <+: joined (cmd.name :: cmd.args) := by
      rw [joined_words]
      exact List.prefix_append _ _
    exact Dispatch.not_disconnect (mem_commands cmd).1 hprefix (heq ▸ List.prefix_refl _)
  rcases sanitiseWhitespace_spec input with ⟨hnl, hle⟩
  rw [htext] at hnl hle
  refine ⟨⟨joined (cmd.name :: cmd.args),
      Client.printLine MAX_RPC_BUF_LEN (joined (cmd.name :: cmd.args))⟩,
    ?_, rfl, hle.trans hlen, fun rest => ?_⟩
  · simp only [Client.sendUserInput, htext, if_neg hne, if_neg hdisc]
  · rcases Nat.lt_or_eq_of_le (hle.trans hlen) with hroom | hfull
    · have hline : Client.printLine MAX_RPC_BUF_LEN (joined (cmd.name :: cmd.args)) =
          joined (cmd.name :: cmd.args) ++ ['\n'] :=
        List.take_of_length_le (by simpa using Nat.succ_le_of_lt hroom)
      rw [hline, List.append_assoc]
      exact Sessions.readText_line ⟨hnl, hroom⟩
    · -- the newline has no room
      have hline : Client.printLine MAX_RPC_BUF_LEN (joined (cmd.name :: cmd.args)) =
          joined (cmd.name :: cmd.args) := by
        simp [Client.printLine, ← hfull]
      rw [hline]
      exact Sessions.readText_full hnl hfull

/-- A request for a command makes a task of its type that carries the arguments. -/
theorem request_command {cfg : Config} {s : Server} {i : Nat} {c : ClientRef}
    (h : (Server.system cfg).Reachable s) (hc : s.clientAt i = some c)
    (hlen : (joined (cmd.name :: cmd.args)).length ≤ MAX_RPC_BUF_LEN - 1) :
    ∃ s' t, s.request i (joined (cmd.name :: cmd.args)) true = some s' ∧
      s'.queue = s.queue ++ [t] ∧ t.type = cmd.type ∧ t.info = .rpc c (joined cmd.args) := by
  have hwired := Descriptors.reachable_wired h
  rcases hwired.clientAt hc with ⟨hlt, hnot⟩
  have hlive : (s.reg.mem c).dead = false := by
    rw [Bool.eq_false_iff, Ne, hwired.base.reg.dead c hlt]
    exact hnot
  rcases mem_commands cmd with ⟨hentry, hlogin⟩
  have hprefix : cmd.name ++ [' '] <+: joined (cmd.name :: cmd.args) := by
    rw [joined_words]
    exact List.prefix_append _ _
  -- the command's own branch is the first whose prefix fits
  have hselects : Dispatch.Selects c (joined (cmd.name :: cmd.args)) s
      (cmd.name ++ [' '], cmd.type) :=
    ⟨hentry, hprefix, fun hauth => absurd hauth hlogin⟩
  rcases Dispatch.handleCommand_selects_live hselects hlive with ⟨s', heq, hqueue, -⟩
  obtain ⟨htype, hinfo⟩ := @Dispatch.newTask_info c _ _ hentry hlen s.history.stamp
  have hargs : (joined (cmd.name :: cmd.args)).drop (cmd.name ++ [' ']).length =
      joined cmd.args := by
    rw [joined_words, List.drop_left]
  rw [hargs] at hqueue hinfo
  refine ⟨s', _, ?_, hqueue, ?_, hinfo⟩
  · simp only [Server.request, hc, Option.map_some, heq, Bool.false_eq_true, if_false]
  · rw [hargs] at htype
    exact htype

/-- The user types a command with any white space between its words: the client sends one
message, the reader takes its text out of the FIFO whatever comes behind it, and in every
reachable state the request makes one task, behind all others, in which the worker finds what
the command says. It runs the request like any other spelling of the command. -/
theorem command_roundtrip (hcmd : cmd.WellFormed) {input : CStr}
    (hinput : words input = cmd.name :: cmd.args) (hlen : input.length ≤ MAX_RPC_BUF_LEN - 1) :
    ∃ m : Client.Message, Client.sendUserInput (some input) = (1, some m) ∧
      (∀ rest, ClientSide.readText (m.bytes ++ rest) = some (m.text, rest)) ∧
      ∀ (cfg : Config) (s : Server) (i : Nat) (c : ClientRef), (Server.system cfg).Reachable s →
        s.clientAt i = some c → ∃ s' t request, s.request i m.text true = some s' ∧
          s'.queue = s.queue ++ [t] ∧ t.type = cmd.type ∧ t.info = .rpc c request ∧
          decode t.type request = .ok cmd ∧
          ∀ request', decode t.type request' = .ok cmd → ∀ env reg w,
            runRpc t.type env c request' reg w = runRpc t.type env c request reg w := by
  rcases sendUserInput_command hinput hlen with ⟨m, hsend, htext, hshort, hread⟩
  refine ⟨m, hsend, hread, fun cfg s i c h hc => ?_⟩
  rw [htext] at hshort ⊢
  -- the arguments without the name fit the buffer that the handler parses from
  have hargs : (joined cmd.args).length < MAX_RPC_BUF_LEN :=
    Nat.lt_of_lt_of_le (length_joined_args cmd) (hshort.trans (Nat.sub_le _ _))
  rcases request_command h hc hshort with ⟨s', t, hs', hqueue, htype, hinfo⟩
  have hdecode : decode t.type (joined cmd.args) = .ok cmd := htype ▸ decode_joined hcmd hargs
  exact ⟨s', t, joined cmd.args, hs', hqueue, htype, hinfo, hdecode, fun request' hreq env reg w =>
    runRpc_congr (hreq.trans hdecode.symm)⟩

/-- A `generate` with tabs and a newline, from a client that has connected. -/
theorem command_roundtrip_generate :
    ∃ (m : Client.Message) (s s' : Server) (t : Task) (request : CStr),
      Client.sendUserInput (some " generate\t3  film 0 24 12\n".toList) = (1, some m) ∧
        s.request 2 m.text true = some s' ∧ s'.queue = s.queue ++ [t] ∧
        t.info = .rpc 0 request ∧
        decode t.type request = .ok (.generate 3 "film".toList 0 24 12) := by
  have hcmd : (Command.generate 3 "film".toList 0 24 12).WellFormed :=
    ⟨⟨⟨by decide, by decide⟩, ⟨by decide, by decide⟩, ⟨by decide, by decide⟩,
      ⟨by decide, by decide⟩⟩, by decide, by decide⟩
  -- blanks and the tab between the words do not matter
  have hwords : words " generate\t3  film 0 24 12\n".toList =
      (Command.generate 3 "film".toList 0 24 12).name ::
        (Command.generate 3 "film".toList 0 24 12).args := by decide
  obtain ⟨m, hsend, -, hserver⟩ := command_roundtrip hcmd hwords (by decide)
  obtain ⟨s, h, hp⟩ := Transition.exists_reachable_of_run (Server.init Accounting.oneWorker)
    (Server.step Accounting.oneWorker) Accounting.connection
    (fun s => decide (s.clientAt 2 = some 0)) (by decide)
  obtain ⟨s', t, request, hs', hqueue, -, hinfo, hdecode, -⟩ :=
    hserver Accounting.oneWorker s 2 0 h (of_decide_eq_true hp)
  exact ⟨m, s, s', t, request, hsend, hs', hqueue, hinfo, hdecode⟩

end RoundTrip

/-! ### Every request -/

/-- Whatever stands in a request, as long as its white space is spaces: either the worker
refuses it, and then it looks at no object and answers with a negative code, or it finds a
command of the type of the task with values in range, and does for it what it does for the
plain text of that command. The plain text has to fit into the buffer of a request, as it does
whenever the request is two bytes shorter than that. -/
theorem request_means {type : TaskType} (htype : IsRpc type) {request : CStr}
    (hplain : Plain request) :
    (∃ a, a < 0 ∧ ∀ env client reg w,
        runRpc type env client request reg w = w.reply (ret1 a)) ∨
      ∃ cmd : Command, decode type request = .ok cmd ∧ cmd.type = type ∧ cmd.WellFormed ∧
        (request.length + 2 < MAX_RPC_BUF_LEN ∨ (joined cmd.args).length < MAX_RPC_BUF_LEN →
          ∀ env client reg w, runRpc type env client request reg w =
            runRpc type env client (joined cmd.args) reg w) := by
  cases hdecode : decode type request with
  | error a => exact Or.inl ⟨a, decode_error htype hdecode, fun _ _ _ _ =>
      runRpc_refused htype hdecode⟩
  | ok cmd =>
    -- either bound makes the rewritten text fit its buffer
    have hfits := fun hlen => length_of_decode hplain hlen hdecode
    rcases wellFormed_of_decode hplain hdecode with ⟨rfl, hcmd⟩
    exact Or.inr ⟨cmd, rfl, rfl, hcmd, fun hlen _ _ _ _ =>
      runRpc_congr (hdecode.trans (decode_joined hcmd (hlen.elim hfits id)).symm)⟩

/-- A plus sign, a zero in front and a fourth argument change nothing. -/
theorem request_means_circle :
    decode .CREATE_CIRCLE "5 +08 7 7".toList = .ok (.createCircle 5 8 7) ∧
      ∀ env client reg w, runRpc .CREATE_CIRCLE env client "5 +08 7 7".toList reg w =
        runRpc .CREATE_CIRCLE env client "5 8 7".toList reg w := by
  have hplain : Plain "5 +08 7 7".toList := by decide
  have htype : IsRpc .CREATE_CIRCLE := ⟨nofun, nofun, nofun⟩
  have hfinds : decode .CREATE_CIRCLE "5 +08 7 7".toList = .ok (.createCircle 5 8 7) := by
    decide
  refine ⟨hfinds, ?_⟩
  rcases request_means htype hplain with ⟨a, ha, hrun⟩ | ⟨cmd, hdecode, -, -, hrun⟩
  · -- the circle is made
    have hmade : (runRpc .CREATE_CIRCLE (Env.allSucceed 7) 0 "5 +08 7 7".toList .init
        .init).retval = some (ret2 0 0) := by decide
    rw [hrun] at hmade
    have hcode : ret1 a = ret2 0 0 := Option.some.inj hmade
    have hzero : a = 0 := congrArg RetVal.a hcode
    exact absurd (hzero ▸ ha) (by decide)
  · cases hfinds.symm.trans hdecode
    exact hrun (Or.inl (by decide))

end AnimateServer.CommandText

import Fl2440.Gprs.ComPort

/-! `MODULE_INFO` and the functions of `cp_gprs.c` that change it. What the kernel,
the driver and the modem answer is an argument of each. -/
namespace Fl2440.Gprs

/-- The requests; `REQ_EVENT_NONE` is `none`. -/
inductive Request where
  | powerOff
  | powerOn
  | powerReset
deriving DecidableEq

inductive Ready where
  | notReady
  | moduleReady
  | checkHwinfo
  | checkRegistry
  | allReady
deriving DecidableEq

/-- `module->ready++`, for a module that is not at the end. -/
def Ready.next : Ready → Ready
  | notReady => moduleReady
  | moduleReady => checkHwinfo
  | checkHwinfo => checkRegistry
  | checkRegistry => allReady
  | allReady => allReady

def Ready.toNat : Ready → Nat
  | notReady => 0
  | moduleReady => 1
  | checkHwinfo => 2
  | checkRegistry => 3
  | allReady => 4

instance : LE Ready := ⟨fun a b => a.toNat ≤ b.toNat⟩

instance (a b : Ready) : Decidable (a ≤ b) := inferInstanceAs (Decidable (a.toNat ≤ b.toNat))

theorem moduleReady_le_iff {ready : Ready} : .moduleReady ≤ ready ↔ ready ≠ .notReady := by
  cases ready <;> decide

abbrev UChar := BitVec 8

def OFF : UChar := 0
def ON : UChar := 1

structure ModuleInfo where
  users : Int
  ready : Ready
  event : Option Request
  pwr_status : UChar
  gsmport : ComPort
  comport : List ComPort

def maxDataport : Nat := 4

def dataportName (i : Nat) : String := "/dev/gsmtty" ++ toString (i + 1)

def initGsmModule : ModuleInfo where
  users := 0
  ready := .notReady
  event := some .powerReset
  pwr_status := 0
  gsmport := comportInit "/dev/ttyS2"
  comport := (List.range maxDataport).map fun i => comportInit (dataportName i)

/-! Data ports. A pointer to a port is its index. -/

def closeGsmDataport (module : ModuleInfo) : ModuleInfo :=
  { module with comport := module.comport.map comportClose }

def openPorts : List ComPort → (Nat → OpenCalls) → List ComPort × Int
  | [], _ => ([], 0)
  | comport :: rest, calls =>
      let (comport, retval) := comportOpen comport (calls 0)
      if retval < 0 then (comport :: rest, retval)
      else
        let (rest, retval) := openPorts rest fun i => calls (i + 1)
        (comport :: rest, retval)

def openGsmDataport (module : ModuleInfo) (calls : Nat → OpenCalls) : ModuleInfo × Int :=
  let (comport, retval) := openPorts module.comport calls
  if retval < 0 then (closeGsmDataport { module with comport := comport }, retval)
  else ({ module with comport := comport }, 0)

def setUsed (used : Bool) (comport : ComPort) : ComPort := { comport with used := used }

/-- `lock` is how another caller has left the static variable of this name. -/
def allocGsmDataport (lock : Bool) (module : ModuleInfo) : ModuleInfo × Option Nat :=
  if lock then (module, none)
  else
    match module.comport.findIdx? (fun comport => !comport.used) with
    | some i =>
        ({ module with comport := module.comport.modify i (setUsed true), users := module.users + 1 }, some i)
    | none => (module, none)

/-- The second result is what the caller's pointer is afterwards. -/
def freeGsmDataport (module : ModuleInfo) (comport : Nat) : ModuleInfo × Option Nat :=
  if comport < module.comport.length then
    ({ module with comport := module.comport.modify comport (setUsed false), users := module.users - 1 }, none)
  else (module, some comport)

def portView (comport : ComPort) : String × Bool := (comport.dev_name, comport.is_connted)

structure SamePorts (module module' : ModuleInfo) : Prop where
  ready : module'.ready = module.ready
  event : module'.event = module.event
  ports : module'.comport.map portView = module.comport.map portView

theorem SamePorts.length {module module' : ModuleInfo} (h : SamePorts module module') :
    module'.comport.length = module.comport.length := by
  have hlen := congrArg List.length h.ports
  rwa [List.length_map, List.length_map] at hlen

theorem map_portView_modify (ports : List ComPort) (i : Nat) (used : Bool) :
    (ports.modify i (setUsed used)).map portView = ports.map portView := by
  apply List.ext_getElem?
  intro j
  rw [List.getElem?_map, List.getElem?_map, List.getElem?_modify]
  cases ports[j]? with
  | none => rfl
  | some comport =>
      refine congrArg some ?_
      show portView (if i = j then setUsed used comport else comport) = portView comport
      split <;> rfl

theorem samePorts_alloc {lock : Bool} {module module' : ModuleInfo} {comport : Option Nat}
    (h : allocGsmDataport lock module = (module', comport)) : SamePorts module module' := by
  unfold allocGsmDataport at h
  split at h
  · cases h
    exact ⟨rfl, rfl, rfl⟩
  · split at h
    · cases h
      exact ⟨rfl, rfl, map_portView_modify _ _ _⟩
    · cases h
      exact ⟨rfl, rfl, rfl⟩

theorem samePorts_free (module : ModuleInfo) (i : Nat) : SamePorts module (freeGsmDataport module i).1 := by
  unfold freeGsmDataport
  split
  · exact ⟨rfl, rfl, map_portView_modify _ _ _⟩
  · exact ⟨rfl, rfl, rfl⟩

theorem allocGsmDataport_lt {lock : Bool} {module module' : ModuleInfo} {i : Nat}
    (h : allocGsmDataport lock module = (module', some i)) : i < module'.comport.length := by
  rw [(samePorts_alloc h).length]
  unfold allocGsmDataport at h
  split at h
  · cases h
  · split at h
    next j hfind =>
      cases h
      exact (List.findIdx?_eq_some_iff_getElem.mp hfind).1
    next => cases h

/-! Power -/

/-- What is done to the module's hardware, in the order it is done. -/
inductive PowerEvent where
  | turnOn
  | gsmportOpened
  | atReady
  | attached
deriving DecidableEq

def atcmdCheckPowerOn (at_ready : Nat → Int) : Int :=
  if (List.range 10).any fun i => at_ready i == 0 then 1 else 0

/-- The answers that `power_on_module` gets: the calls of `hal_get_gprs_power` are
the one at the start, the one after the module is turned on, and the last one. -/
structure PowerOnCalls where
  hal_get : Int
  hal_turn : Int
  hal_get_on : Int
  gsmport : OpenCalls
  at_ready : Nat → Int
  dataport : Nat → OpenCalls
  hal_get_last : Int

def powerOnCleanup (module : ModuleInfo) (rv hal_get_last : Int) : ModuleInfo :=
  { module with
    ready := if rv = 0 then .moduleReady else .notReady
    pwr_status := .ofInt 8 hal_get_last }

/-- The two returns of -2 leave out the cleanup. -/
def powerOnModule (module : ModuleInfo) (calls : PowerOnCalls) : ModuleInfo × Int × List PowerEvent :=
  let module := { module with pwr_status := .ofInt 8 calls.hal_get }
  if module.pwr_status = ON then (powerOnCleanup module 0 calls.hal_get_last, 0, [])
  else if calls.hal_turn ≠ 0 ∨ calls.hal_get_on ≠ 1 then
    (powerOnCleanup module (-1) calls.hal_get_last, -1, [.turnOn])
  else
    let (gsmport, opened) := comportOpen module.gsmport calls.gsmport
    let module := { module with gsmport := gsmport }
    if opened < 0 then (module, -2, [.turnOn])
    else if atcmdCheckPowerOn calls.at_ready = 0 then (module, -2, [.turnOn, .gsmportOpened])
    else
      let (module, retval) := openGsmDataport module calls.dataport
      let rv := if retval ≠ 0 then -3 else 0
      (powerOnCleanup module rv calls.hal_get_last, rv, [.turnOn, .gsmportOpened, .atReady, .attached])

/-- `power_off_module` behind its wait for `users`. -/
def turnOffModule (module : ModuleInfo) (hal_get : Int) : ModuleInfo :=
  { closeGsmDataport module with
    gsmport := comportClose module.gsmport
    ready := .notReady
    pwr_status := .ofInt 8 hal_get }

def setModuleEvent (module : ModuleInfo) (request : Option Request) : ModuleInfo :=
  { module with event := request }

/-! The checks that follow. Each counts its failures in a row. -/

/-- The `cleanup` part of the three checks; the first result is `fail_cnt`. -/
def countFailure (times : Nat) (rv : Int) (fail_cnt : Nat) : Nat × Int :=
  if rv ≠ 0 then
    if fail_cnt < times then (fail_cnt + 1, 0) else (0, -1)
  else (0, 1)

structure Replies where
  at_ready : Int
  sim_valid : Int
  name : Int
  version : Int
  iemi : Int
  signal : Int
  type : Int
  carrier : Int
  mcc_mnc : Int

def atcmdCheckModuleReady (replies : Replies) (times fail_cnt : Nat) : Nat × Int :=
  countFailure times (if replies.at_ready ≠ 0 then replies.at_ready else replies.sim_valid) fail_cnt

def atcmdCheckHwinfo (replies : Replies) (times fail_cnt : Nat) : Nat × Int :=
  countFailure times
    (if replies.name ≠ 0 then replies.name
     else if replies.version ≠ 0 then replies.version else replies.iemi) fail_cnt

def atcmdCheckRegist (replies : Replies) (times fail_cnt : Nat) : Nat × Int :=
  let rv : Int :=
    if replies.signal < 2 ∧ replies.signal > 31 then -1
    else if replies.type = 1 ∨ replies.type = 5 then
      if replies.carrier ≠ 0 then -4 else if replies.mcc_mnc ≠ 0 then -4 else 0
    else if replies.type = 3 then -2 else -3
  countFailure times rv fail_cnt

end Fl2440.Gprs

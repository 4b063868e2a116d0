import Fl2440.Gprs.Gsmd

/-! What `module->ready` stands for. `power_on_module` takes a module that is on
already for one that is ready, and two of its failures leave `ready` as it was. -/
namespace Fl2440.Gprs

open Fl2440.Lib

def sincePowerUp (log : List PowerEvent) : List PowerEvent := log.takeWhile (· ≠ .turnOn)

structure InService (module : ModuleInfo) (log : List PowerEvent) : Prop where
  opened : .gsmportOpened ∈ sincePowerUp log
  at_ready : .atReady ∈ sincePowerUp log
  attached : .attached ∈ sincePowerUp log
  connected : ∀ comport ∈ module.comport, comport.is_connted = true

theorem not_moduleReady_le_notReady : ¬ Ready.moduleReady ≤ .notReady := by decide

section Module

variable {module module' : ModuleInfo} {log : List PowerEvent}

structure Sound (module : ModuleInfo) (log : List PowerEvent) : Prop where
  ports : module.comport ≠ []
  tty : ∀ comport ∈ module.comport, comport.Tty
  ready : .moduleReady ≤ module.ready ↔ InService module log

theorem tty_of_names {ports ports' : List ComPort} (htty : ∀ comport ∈ ports, comport.Tty)
    (hnames : ports'.map ComPort.dev_name = ports.map ComPort.dev_name) : ∀ comport ∈ ports', comport.Tty := by
  intro comport hcomport
  have hmem : comport.dev_name ∈ ports.map ComPort.dev_name := hnames ▸ List.mem_map_of_mem hcomport
  obtain ⟨old, hold, hname⟩ := List.mem_map.mp hmem
  have hold' := htty old hold
  rwa [ComPort.Tty, hname] at hold'

theorem InService.congr (h : InService module log)
    (hview : module'.comport.map portView = module.comport.map portView) : InService module' log := by
  refine ⟨h.opened, h.at_ready, h.attached, fun comport hcomport => ?_⟩
  have hmem : portView comport ∈ module.comport.map portView := hview ▸ List.mem_map_of_mem hcomport
  obtain ⟨old, hold, heq⟩ := List.mem_map.mp hmem
  exact (congrArg Prod.snd heq).symm.trans (h.connected old hold)

theorem ports_ne_nil {f : ComPort → α} (hports : module.comport ≠ [])
    (hmap : module'.comport.map f = module.comport.map f) : module'.comport ≠ [] := by
  intro hnil
  rw [hnil] at hmap
  exact hports (List.map_eq_nil_iff.mp hmap.symm)

theorem Sound.congr (h : Sound module log) (hready : module'.ready = module.ready)
    (hview : module'.comport.map portView = module.comport.map portView) : Sound module' log := by
  refine ⟨ports_ne_nil h.ports hview, tty_of_names h.tty ?_, ?_⟩
  · have hnames := congrArg (List.map Prod.fst) hview
    rwa [List.map_map, List.map_map] at hnames
  · rw [hready, h.ready]
    exact ⟨fun hin => hin.congr hview, fun hin => hin.congr hview.symm⟩

theorem closed_names (ports : List ComPort) :
    (ports.map comportClose).map ComPort.dev_name = ports.map ComPort.dev_name := by
  rw [List.map_map]
  rfl

theorem not_inService_closed {ports : List ComPort} (hports : ports ≠ [])
    (h : module.comport = ports.map comportClose) : ¬ InService module log := by
  intro hin
  obtain ⟨comport, hcomport⟩ := List.exists_mem_of_ne_nil _ hports
  have hclosed := hin.connected (comportClose comport) (h ▸ List.mem_map_of_mem hcomport)
  cases hclosed

theorem openPorts_names (ports : List ComPort) (calls : Nat → OpenCalls) :
    (openPorts ports calls).1.map ComPort.dev_name = ports.map ComPort.dev_name := by
  induction ports generalizing calls with
  | nil => rfl
  | cons comport rest ih =>
      unfold openPorts
      dsimp only
      split
      · simp
      · simp [ih]

theorem openPorts_connected {ports : List ComPort} {calls : Nat → OpenCalls}
    (htty : ∀ comport ∈ ports, comport.Tty) (h : ¬ (openPorts ports calls).2 < 0) :
    ∀ comport ∈ (openPorts ports calls).1, comport.is_connted = true := by
  induction ports generalizing calls with
  | nil => exact fun _ h => nomatch h
  | cons comport rest ih =>
      unfold openPorts at h ⊢
      dsimp only at h ⊢
      split at h
      next hneg => exact absurd hneg h
      next hpos =>
        rw [if_neg hpos]
        intro c hc
        rcases List.mem_cons.mp hc with rfl | hrest
        · exact comportOpen_connected comport (calls 0) (htty comport List.mem_cons_self) hpos
        · exact ih (fun c hc => htty c (List.mem_cons_of_mem _ hc)) h c hrest

theorem openGsmDataport_failed {calls : Nat → OpenCalls} (h : (openPorts module.comport calls).2 < 0) :
    openGsmDataport module calls =
      (closeGsmDataport { module with comport := (openPorts module.comport calls).1 },
        (openPorts module.comport calls).2) :=
  if_pos h

theorem openGsmDataport_opened {calls : Nat → OpenCalls} (h : ¬ (openPorts module.comport calls).2 < 0) :
    openGsmDataport module calls = ({ module with comport := (openPorts module.comport calls).1 }, 0) :=
  if_neg h

/-- The module is on, and `power_on_module` goes past its two returns of -2. -/
def ComesUp (module : ModuleInfo) (calls : PowerOnCalls) : Prop :=
  0 ≤ (comportOpen module.gsmport calls.gsmport).2 ∧ atcmdCheckPowerOn calls.at_ready ≠ 0

/-- `power_on_module` finds the module on only when it is ready, and does not return -2
for a module that is. -/
def PowersOn (module : ModuleInfo) (calls : PowerOnCalls) : Prop :=
  if BitVec.ofInt 8 calls.hal_get = ON then .moduleReady ≤ module.ready
  else calls.hal_turn = 0 → calls.hal_get_on = 1 → .moduleReady ≤ module.ready → ComesUp module calls

theorem Sound.turnOff (h : Sound module log) (hal_get : Int) : Sound (turnOffModule module hal_get) log := by
  refine ⟨?_, tty_of_names h.tty (closed_names _), iff_of_false not_moduleReady_le_notReady ?_⟩
  · exact fun hnil => h.ports (List.map_eq_nil_iff.mp hnil)
  · exact not_inService_closed h.ports rfl

inductive PoweredOn (module : ModuleInfo) (calls : PowerOnCalls) (module' : ModuleInfo)
    (events : List PowerEvent) : Prop
  | already (hget : BitVec.ofInt 8 calls.hal_get = ON) (hready : module'.ready = .moduleReady)
      (hports : module'.comport = module.comport) (hevents : events = [])
  | off (hget : BitVec.ofInt 8 calls.hal_get ≠ ON) (hturn : calls.hal_turn = 0 → calls.hal_get_on ≠ 1)
      (hready : module'.ready = .notReady) (hports : module'.comport = module.comport)
      (hevents : events = [.turnOn])
  | down (hget : BitVec.ofInt 8 calls.hal_get ≠ ON) (hturn : calls.hal_turn = 0) (hon : calls.hal_get_on = 1)
      (hdown : ¬ ComesUp module calls) (hready : module'.ready = module.ready)
      (hports : module'.comport = module.comport)
      (hevents : events = [.turnOn] ∨ events = [.turnOn, .gsmportOpened])
  | closed (hget : BitVec.ofInt 8 calls.hal_get ≠ ON) (hup : ComesUp module calls)
      (hready : module'.ready = .notReady)
      (hports : module'.comport = (openPorts module.comport calls.dataport).1.map comportClose)
  | up (hget : BitVec.ofInt 8 calls.hal_get ≠ ON) (hup : ComesUp module calls)
      (hready : module'.ready = .moduleReady)
      (hopened : ¬ (openPorts module.comport calls.dataport).2 < 0)
      (hports : module'.comport = (openPorts module.comport calls.dataport).1)
      (hevents : events = [.turnOn, .gsmportOpened, .atReady, .attached])

theorem powerOnModule_poweredOn (module : ModuleInfo) (calls : PowerOnCalls) :
    PoweredOn module calls (powerOnModule module calls).1 (powerOnModule module calls).2.2 := by
  unfold powerOnModule
  dsimp only
  by_cases hget : BitVec.ofInt 8 calls.hal_get = ON
  · rw [if_pos hget]
    exact .already hget rfl rfl rfl
  rw [if_neg hget]
  by_cases hturn : calls.hal_turn ≠ 0 ∨ calls.hal_get_on ≠ 1
  · rw [if_pos hturn]
    exact .off hget (fun hzero => hturn.resolve_left (not_not.mpr hzero)) rfl rfl rfl
  rw [if_neg hturn]
  obtain ⟨hzero, hone⟩ := not_or.mp hturn
  by_cases hopen : (comportOpen module.gsmport calls.gsmport).2 < 0
  · rw [if_pos hopen]
    exact .down hget (not_not.mp hzero) (not_not.mp hone) (fun hup => absurd hopen (Int.not_lt.mpr hup.1))
      rfl rfl (.inl rfl)
  rw [if_neg hopen]
  by_cases hat : atcmdCheckPowerOn calls.at_ready = 0
  · rw [if_pos hat]
    exact .down hget (not_not.mp hzero) (not_not.mp hone) (fun hup => hup.2 hat) rfl rfl (.inr rfl)
  rw [if_neg hat]
  have hup : ComesUp module calls := ⟨Int.not_lt.mp hopen, hat⟩
  by_cases hports : (openPorts module.comport calls.dataport).2 < 0
  · have hne : (openPorts module.comport calls.dataport).2 ≠ 0 := by omega
    rw [openGsmDataport_failed]
    · dsimp only
      rw [if_pos hne]
      exact .closed hget hup rfl rfl
    · exact hports
  · rw [openGsmDataport_opened]
    · exact .up hget hup rfl hports rfl rfl
    · exact hports

theorem not_inService_down {events : List PowerEvent}
    (hevents : events = [.turnOn] ∨ events = [.turnOn, .gsmportOpened]) :
    ¬ InService module (events.reverse ++ log) := by
  intro hin
  have hready := hin.at_ready
  rcases hevents with rfl | rfl
  · cases hready
  · rcases List.mem_singleton.mp hready

theorem PoweredOn.sound {calls : PowerOnCalls} {events : List PowerEvent} (h : Sound module log)
    (hon : PoweredOn module calls module' events) (hright : PowersOn module calls) :
    Sound module' (events.reverse ++ log) := by
  unfold PowersOn at hright
  cases hon with
  | already hget hready hports hevents =>
      rw [if_pos hget] at hright
      subst hevents
      refine ⟨hports ▸ h.ports, hports ▸ h.tty, iff_of_true (by rw [hready]; decide) ?_⟩
      exact (h.ready.mp hright).congr (by rw [hports])
  | off hget hturn hready hports hevents =>
      refine ⟨hports ▸ h.ports, hports ▸ h.tty, iff_of_false ?_ (not_inService_down (.inl hevents))⟩
      rw [hready]
      exact not_moduleReady_le_notReady
  | down hget hturn hon hdown hready hports hevents =>
      rw [if_neg hget] at hright
      refine ⟨hports ▸ h.ports, hports ▸ h.tty, iff_of_false ?_ (not_inService_down hevents)⟩
      rw [hready]
      exact fun hle => hdown (hright hturn hon hle)
  | closed hget hup hready hports =>
      have hnames := openPorts_names module.comport calls.dataport
      have hne : (openPorts module.comport calls.dataport).1 ≠ [] := by
        intro hnil
        rw [hnil] at hnames
        exact h.ports (List.map_eq_nil_iff.mp hnames.symm)
      refine ⟨?_, tty_of_names h.tty ?_, iff_of_false ?_ (not_inService_closed hne hports)⟩
      · rw [hports]
        exact fun hnil => hne (List.map_eq_nil_iff.mp hnil)
      · rw [hports, closed_names, hnames]
      · rw [hready]
        exact not_moduleReady_le_notReady
  | up hget hup hready hopened hports hevents =>
      have hnames := openPorts_names module.comport calls.dataport
      rw [← hports] at hnames
      refine ⟨ports_ne_nil h.ports hnames, tty_of_names h.tty hnames, iff_of_true ?_ ?_⟩
      · rw [hready]
        decide
      · have hsince : sincePowerUp (events.reverse ++ log) = [.attached, .atReady, .gsmportOpened] := by
          rw [hevents]
          rfl
        refine ⟨?_, ?_, ?_, hports ▸ openPorts_connected h.tty hopened⟩
        · rw [hsince]
          decide
        · rw [hsince]
          decide
        · rw [hsince]
          decide

theorem PoweredOn.breaks {calls : PowerOnCalls} {events : List PowerEvent} (h : Sound module log)
    (hon : PoweredOn module calls module' events) (hwrong : ¬ PowersOn module calls) :
    .moduleReady ≤ module'.ready ∧ ¬ InService module' (events.reverse ++ log) := by
  unfold PowersOn at hwrong
  cases hon with
  | already hget hready hports hevents =>
      rw [if_pos hget, h.ready] at hwrong
      subst hevents
      refine ⟨by rw [hready]; decide, fun hin => hwrong (hin.congr (by rw [hports]))⟩
  | off hget hturn =>
      rw [if_neg hget] at hwrong
      exact absurd (fun hzero hone => absurd hone (hturn hzero)) hwrong
  | down hget hturn hon hdown hready hports hevents =>
      rw [if_neg hget] at hwrong
      have hle : .moduleReady ≤ module.ready :=
        Classical.byContradiction fun hlt => hwrong fun _ _ hle => absurd hle hlt
      exact ⟨hready ▸ hle, not_inService_down hevents⟩
  | closed hget hup =>
      rw [if_neg hget] at hwrong
      exact absurd (fun _ _ _ => hup) hwrong
  | up hget hup =>
      rw [if_neg hget] at hwrong
      exact absurd (fun _ _ _ => hup) hwrong

end Module

namespace Gsmd

def ReadyInService (s : Gsmd) : Prop := .moduleReady ≤ s.module.ready → InService s.module s.log

def PowersOnRight (s : Gsmd) : GsmdAct → Prop
  | .ctrl (.powerOn calls) => s.ctrl = .on → PowersOn s.module calls
  | _ => True

variable {s t : Gsmd}

theorem moduleReady_le_next (ready : Ready) : .moduleReady ≤ ready.next := by
  cases ready <;> decide

theorem ready_of_check {replies : Replies} {fail : FailCnt} {rv : Int}
    (h : atcmdCheckReady s replies = (fail, some rv)) : .moduleReady ≤ s.module.ready := by
  rw [moduleReady_le_iff]
  intro hnot
  unfold atcmdCheckReady at h
  rw [hnot] at h
  cases h

theorem Controls.sound {a : CtrlAct} (h : Sound s.module s.log) (hcontrols : s.Controls a t)
    (hright : PowersOnRight s (.ctrl a)) : Sound t.module t.log := by
  cases hcontrols with
  | off => exact h.turnOff _
  | @on calls module rv events hctrl hon =>
      have hpowered := powerOnModule_poweredOn s.module calls
      rw [hon] at hpowered
      exact hpowered.sound h (hright hctrl)
  | signal _ halloc =>
      have hsame := samePorts_alloc halloc
      exact h.congr hsame.ready hsame.ports
  | check _ halloc =>
      have hsame := samePorts_alloc halloc
      exact h.congr hsame.ready hsame.ports
  | passed _ hcheck =>
      have hin := h.ready.mp (ready_of_check hcheck)
      exact ⟨h.ports, h.tty, iff_of_true (moduleReady_le_next _) (hin.congr rfl)⟩
  | @free comport =>
      have hsame := samePorts_free s.module comport
      exact h.congr hsame.ready hsame.ports
  | _ => exact h.congr rfl rfl

theorem Shares.sound {a : PppAct} {module : ModuleInfo} {log : List PowerEvent} (h : Sound s.module log)
    (hshares : s.Shares a module) : Sound module log := by
  rcases hshares.samePorts with ⟨-, rfl⟩ | ⟨-, hsame⟩
  · exact h.congr rfl rfl
  · exact h.congr hsame.ready hsame.ports

theorem sound_step {a : GsmdAct} (h : Sound s.module s.log) (hright : PowersOnRight s a)
    (hstep : s.step a = .ok t) : Sound t.module t.log := by
  cases a with
  | signal =>
      cases hstep
      exact h
  | request request =>
      cases hstep
      exact h.congr rfl rfl
  | ctrl a => exact (ctrlStep_controls hstep).sound h hright
  | ppp a =>
      obtain ⟨module, ppp, hshares, -, rfl⟩ := pppStep_shares hstep
      exact hshares.sound h

theorem breaks_step {a : GsmdAct} (h : Sound s.module s.log) (hwrong : ¬ PowersOnRight s a) :
    ∃ t, s.step a = .ok t ∧ ¬ ReadyInService t := by
  unfold PowersOnRight at hwrong
  split at hwrong
  next calls =>
    obtain ⟨hctrl, hpowers⟩ := Classical.not_imp.mp hwrong
    obtain ⟨hle, hout⟩ := (powerOnModule_poweredOn s.module calls).breaks h hpowers
    refine ⟨{ s with
      module := (powerOnModule s.module calls).1
      ctrl := if (powerOnModule s.module calls).2.1 ≠ 0 then .test else .clear
      log := (powerOnModule s.module calls).2.2.reverse ++ s.log }, ?_, fun hin => hout (hin hle)⟩
    show s.ctrlStep (.powerOn calls) = _
    unfold ctrlStep
    rw [hctrl]
  next => exact absurd trivial hwrong

theorem sound_init : Sound init.module init.log where
  ports := by decide
  tty := by decide
  ready := iff_of_false (by decide) fun hin => nomatch hin.opened

/-- In every state of a run a module that is ready is in service if and only if each call
of `power_on_module` in it meets the condition. -/
theorem readyInService_iff (acts : List GsmdAct) :
    Always step ReadyInService init acts ↔ Along step PowersOnRight init acts :=
  always_iff_along (fun _ (h : Sound _ _) hle => h.ready.mp hle)
    (fun _ _ _ h hright hstep => sound_step h hright hstep) (fun _ _ h hwrong => breaks_step h hwrong)
    sound_init

def noPort : OpenCalls := ⟨-1, false, false, false, false⟩

/-- The module is turned on, and the serial port does not open. A request to turn it on
comes, and finds it on. -/
def retried : List GsmdAct :=
  [.ctrl .next, .ctrl .next, .ctrl .next, .ctrl (.powerOff 0),
    .ctrl (.powerOn ⟨0, 0, 1, noPort, fun _ => 0, fun _ => noPort, 1⟩),
    .request .powerOn, .ctrl .next, .ctrl .next, .ctrl .next, .ctrl .next,
    .ctrl (.powerOn ⟨1, 0, 1, noPort, fun _ => 0, fun _ => noPort, 1⟩)]

theorem retried_not_inService : ¬ Always step ReadyInService init retried := by
  intro h
  have hin : InService _ [.turnOn] := (h.last rfl) (by decide)
  exact nomatch hin.opened

end Gsmd

end Fl2440.Gprs

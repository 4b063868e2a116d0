import Mathlib.Data.List.Infix

/-! A serial port as `cp_comport.c` keeps it. -/
namespace Fl2440.Gprs

structure ComPort where
  dev_name : String
  is_connted : Bool
  used : Bool
  fd : Int
deriving DecidableEq

def DEVNAME_LEN : Nat := 64

def fitting : Nat → List Char → List Char
  | _, [] => []
  | room, c :: name => if c.utf8Size ≤ room then c :: fitting (room - c.utf8Size) name else []

/-- `strncpy` cuts the name; where it leaves no room for a NUL, the byte `used` behind it is one. -/
def comportInit (dev_name : String) : ComPort :=
  ⟨String.ofList (fitting DEVNAME_LEN dev_name.toList), false, false, 0⟩

def comportClose (comport : ComPort) : ComPort := { comport with is_connted := false, fd := -1 }

def ComPort.Tty (comport : ComPort) : Prop := "tty".toList <:+: comport.dev_name.toList

instance (comport : ComPort) : Decidable comport.Tty :=
  inferInstanceAs (Decidable (_ <:+: _))

/-- What the system calls of `comport_open` give back; a call that fails is `false`. -/
structure OpenCalls where
  fd : Int
  fcntl : Bool
  tcflush : Bool
  tcgetattr : Bool
  tcsetattr : Bool

def comportOpen (comport : ComPort) (calls : OpenCalls) : ComPort × Int :=
  let comport := { comportClose comport with fd := calls.fd }
  if ¬ comport.Tty then (comport, if calls.fd < 0 then -2 else calls.fd)
  else if calls.fd < 0 then (comport, -3)
  else if !calls.fcntl then (comport, -5)
  else if !calls.tcflush then (comport, -4)
  else if !calls.tcgetattr then (comport, -6)
  else if !calls.tcsetattr then (comport, -7)
  else ({ comport with is_connted := true }, calls.fd)

variable (comport : ComPort) (calls : OpenCalls)

@[simp] theorem comportOpen_dev_name : (comportOpen comport calls).1.dev_name = comport.dev_name := by
  unfold comportOpen
  dsimp only
  split_ifs <;> rfl

@[simp] theorem comportOpen_fd : (comportOpen comport calls).1.fd = calls.fd := by
  unfold comportOpen
  dsimp only
  split_ifs <;> rfl

theorem comportOpen_connected (htty : comport.Tty) (h : ¬ (comportOpen comport calls).2 < 0) :
    (comportOpen comport calls).1.is_connted = true := by
  have htty' : ({ comportClose comport with fd := calls.fd } : ComPort).Tty := htty
  unfold comportOpen at h ⊢
  dsimp only at h ⊢
  rw [if_neg (not_not.mpr htty')] at h ⊢
  split_ifs at h ⊢
  all_goals first | rfl | simp at h

end Fl2440.Gprs

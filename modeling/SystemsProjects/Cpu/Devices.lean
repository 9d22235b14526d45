import Mathlib.Algebra.GroupWithZero.Nat
import Mathlib.Logic.Function.Iterate
import SystemsProjects.Cpu.Components

/-!
# The devices of the LC-4000a

A timer and a distance tracker. Each counts the cycles since its last interrupt was acknowledged,
asks for one when the time is up, and answers the acknowledgement with its number. The timer sees
the acknowledgement first.
-/

namespace SystemsProjects.Cpu

/-! ## One device -/

/-- What the circuits `Timer` and `Distance Timer` have in common. -/
structure Interval where
  count : Word
  INT : Bool
  DOUT : Bool

namespace Interval

section

variable (TIME : Word) (INTA : Bool) (t : Interval)

def FULL : Bool := !t.count.ult TIME

/-- The acknowledgement is for this device. -/
def MYINTA : Bool := INTA && t.FULL TIME

/-- The acknowledgement is passed on. -/
def INTA_OUT : Bool := INTA && !t.MYINTA TIME INTA && !t.DOUT

/-- A clock edge. The count waits where it is full. -/
def tick : Interval where
  count := bif t.MYINTA TIME INTA then 0 else bif t.FULL TIME then t.count else t.count + 1
  INT := t.FULL TIME && !INTA
  DOUT := t.MYINTA TIME INTA

/-- The device does not answer, and asks for an interrupt only when the time is up. -/
structure Settled : Prop where
  silent : t.DOUT = false
  full : t.INT = true → t.FULL TIME = true

end

variable {TIME : Word} {t : Interval}

theorem FULL_iff : t.FULL TIME = true ↔ TIME.toNat ≤ t.count.toNat := by
  rw [FULL, Bool.not_eq_true', BitVec.ult, decide_eq_false_iff_not, Nat.not_lt]

/-- The time stays up. -/
theorem tick_full (full : t.FULL TIME = true) : (t.tick TIME false).FULL TIME = true := by
  have same : (t.tick TIME false).count = t.count := by
    show (bif t.FULL TIME then t.count else t.count + 1) = t.count
    rw [full, cond_true]
  rw [FULL, same]
  exact full

theorem tick_restarts (full : t.FULL TIME = true) : (t.tick TIME true).count.toNat = 0 := by
  show (bif t.FULL TIME then (0 : Word) else _).toNat = 0
  rw [full]
  rfl

/-- An acknowledgement that comes too early is for another device. -/
theorem tick_waits (early : t.FULL TIME = false) :
    (t.tick TIME true).count = (t.tick TIME false).count := by
  show (bif t.FULL TIME then (0 : Word) else bif t.FULL TIME then t.count else t.count + 1) =
    bif t.FULL TIME then t.count else t.count + 1
  rw [early]
  rfl

/-- A cycle without an acknowledgement settles the device. -/
theorem tick_settled (TIME : Word) (t : Interval) : (t.tick TIME false).Settled TIME where
  silent := rfl
  full INT := tick_full ((Bool.and_true _).symm.trans INT)

theorem idle_settled (settled : t.Settled TIME) (n : Nat) :
    ((tick TIME false)^[n] t).Settled TIME := by
  cases n with
  | zero => exact settled
  | succ n =>
    rw [Function.iterate_succ_apply']
    exact tick_settled ..

theorem tick_count (TIME : Word) (t : Interval) :
    (t.tick TIME false).count.toNat = max t.count.toNat (min (t.count.toNat + 1) TIME.toNat) := by
  show (bif t.FULL TIME then t.count else t.count + 1).toNat = _
  cases full : t.FULL TIME with
  | true =>
    have least := FULL_iff.mp full
    rw [cond_true]
    omega
  | false =>
    have less : t.count.toNat < TIME.toNat := by
      rw [← Nat.not_le, ← FULL_iff, full]
      exact Bool.false_ne_true
    rw [cond_false, BitVec.toNat_add]
    have small := TIME.isLt
    show (t.count.toNat + 1) % 2 ^ 32 = _
    omega

/-- The count goes on until the time is up. -/
theorem idle_count (TIME : Word) (t : Interval) (n : Nat) : ((tick TIME false)^[n] t).count.toNat =
    max t.count.toNat (min (t.count.toNat + n) TIME.toNat) := by
  induction n with
  | zero =>
    show t.count.toNat = _
    omega
  | succ n ih =>
    rw [Function.iterate_succ_apply', tick_count, ih]
    omega

end Interval

/-- The distance tracker answers with the words of its `Key Buffer`, one after the other. -/
structure Tracker extends Interval where
  index : BitVec 4

def keyBuffer : List Word :=
  [0x009ce117, 0x0082b93f, 0x00ff9fce, 0x0073bd2b, 0x00377b65, 0x0058b86e, 0x0000d114, 0x00bb525b,
   0x00c9e7b9, 0x00e4ed1c, 0x00e3eba7, 0x0004c2c6, 0x0093faa4, 0x00d14dd6, 0x00ae6d38, 0x0068476c]

/-! ## Both devices -/

/-- The devices are numbered 0 and 1. -/
local instance two : NeZero 2 := ⟨Nat.succ_ne_zero 1⟩

structure Devices where
  timer : Interval
  tracker : Tracker

namespace Devices

/-- How many cycles a device waits. -/
def TIME : Fin 2 → Word
  | 0 => 2000
  | 1 => 1500

def OUTPUT (index : BitVec 4) : Word := keyBuffer.getD (index - 1).toNat 0

variable (d : Devices)

def interval : Fin 2 → Interval
  | 0 => d.timer
  | 1 => d.tracker.toInterval

/-- A clock edge. -/
def tick (IntAck : Bool) : Devices :=
  let passed := d.timer.INTA_OUT (TIME 0) IntAck
  { timer := d.timer.tick (TIME 0) IntAck
    tracker.toInterval := d.tracker.toInterval.tick (TIME 1) passed
    tracker.index := bif d.tracker.MYINTA (TIME 1) passed then d.tracker.index + 1
      else d.tracker.index }

/-- The data line. The address that the tracker listens to is 1. -/
def DATA (DAR : Word) : Option Word :=
  bus [(d.timer.DOUT, some 0), (d.tracker.DOUT, some 1),
    (DAR == 1 && !d.tracker.DOUT, some (OUTPUT d.tracker.index))]

/-- The line to the microcontroller, before it is masked. -/
def INT : Bool := d.timer.INT || d.tracker.INT

/-- So many cycles without an acknowledgement. -/
def idle (n : Nat) : Devices := (fun d => d.tick false)^[n] d

/-- Both devices have settled. -/
def Settled : Prop := ∀ device, (d.interval device).Settled (TIME device)

/-- Whose interrupt is acknowledged after the next cycle. -/
def asking : Fin 2 := bif ((d.tick false).interval 0).FULL (TIME 0) then 0 else 1

variable {d}

theorem idle_interval (n : Nat) (device : Fin 2) :
    (d.idle n).interval device = (Interval.tick (TIME device) false)^[n] (d.interval device) := by
  induction n with
  | zero => rfl
  | succ n ih =>
    unfold idle at ih ⊢
    rw [Function.iterate_succ_apply', Function.iterate_succ_apply', ← ih]
    match device with
    | 0 => rfl
    | 1 => rfl

theorem idle_index (n : Nat) : (d.idle n).tracker.index = d.tracker.index := by
  induction n with
  | zero => rfl
  | succ n ih =>
    rw [← ih, idle, Function.iterate_succ_apply']
    rfl

theorem Settled.idle (settled : d.Settled) (n : Nat) : (d.idle n).Settled := by
  intro device
  rw [idle_interval]
  exact Interval.idle_settled (settled device) n

/-- What a device has counted. -/
def count (d : Devices) (device : Fin 2) : Nat := (d.interval device).count.toNat

theorem idle_count (n : Nat) (device : Fin 2) : (d.idle n).count device =
    max (d.count device) (min (d.count device + n) (TIME device).toNat) := by
  rw [count, idle_interval, Interval.idle_count]
  rfl

/-! ## An interrupt -/

/-- The device that will be acknowledged has waited long enough. -/
theorem asking_full (settled : d.Settled) (INT : d.INT = true) :
    ((d.tick false).interval d.asking).FULL (TIME d.asking) = true := by
  unfold asking
  cases first : ((d.tick false).interval 0).FULL (TIME 0) with
  | true => exact first
  | false =>
    have other : d.timer.INT = false := by
      by_contra on
      have full := Interval.tick_full ((settled 0).full (Bool.not_eq_false _ ▸ on))
      exact absurd (first.symm.trans full) Bool.false_ne_true
    have asks : d.tracker.INT = true := by
      rw [Devices.INT, other, Bool.false_or] at INT
      exact INT
    exact Interval.tick_full ((settled 1).full asks)

/-- The devices after an acknowledgement in the second cycle. -/
def acknowledged (d : Devices) : Devices := (d.tick false).tick true

theorem acknowledged_DOUT (settled : d.Settled) (INT : d.INT = true) :
    d.acknowledged.timer.DOUT = (d.asking == 0) ∧
      d.acknowledged.tracker.DOUT = (d.asking == 1) := by
  have full := asking_full settled INT
  have timer : d.acknowledged.timer.DOUT = ((d.tick false).interval 0).FULL (TIME 0) := rfl
  have tracker : d.acknowledged.tracker.DOUT =
    ((!((d.tick false).interval 0).FULL (TIME 0) && !false) &&
      ((d.tick false).interval 1).FULL (TIME 1)) := rfl
  rw [timer, tracker]
  unfold asking at full ⊢
  cases first : ((d.tick false).interval 0).FULL (TIME 0) with
  | true => exact ⟨rfl, rfl⟩
  | false =>
    rw [first, cond_false] at full
    rw [full]
    exact ⟨rfl, rfl⟩

/-- The device answers with its number. -/
theorem acknowledged_DATA (settled : d.Settled) (INT : d.INT = true) {DAR : Word}
    (other : DAR ≠ 1) : d.acknowledged.DATA DAR = some (BitVec.ofNat 32 d.asking) := by
  obtain ⟨timer, tracker⟩ := acknowledged_DOUT settled INT
  rw [DATA, timer, tracker, beq_false_of_ne other]
  match d.asking with
  | 0 => rfl
  | 1 => rfl

/-- The device starts again, and the other one goes on. -/
theorem acknowledged_count (settled : d.Settled) (INT : d.INT = true) (device : Fin 2) :
    d.acknowledged.count device = if device = d.asking then 0 else (d.idle 2).count device := by
  have full := asking_full settled INT
  have timer : d.acknowledged.interval 0 = ((d.tick false).interval 0).tick (TIME 0) true := rfl
  have tracker : d.acknowledged.interval 1 = ((d.tick false).interval 1).tick (TIME 1)
    (!((d.tick false).interval 0).FULL (TIME 0) && !false) := rfl
  have later : ∀ device, (d.idle 2).interval device =
      ((d.tick false).interval device).tick (TIME device) false := by
    intro device
    match device with
    | 0 => rfl
    | 1 => rfl
  unfold asking at full ⊢
  cases first : ((d.tick false).interval 0).FULL (TIME 0) with
  | true =>
    rw [cond_true]
    match device with
    | 0 => rw [if_pos rfl, count, timer, Interval.tick_restarts first]
    | 1 =>
      rw [if_neg (by decide), count, count, tracker, first, later]
      rfl
  | false =>
    rw [first, cond_false] at full
    rw [cond_false]
    match device with
    | 0 => rw [if_neg (by decide), count, count, timer, Interval.tick_waits first, later]
    | 1 =>
      rw [if_pos rfl, count, tracker, first]
      exact Interval.tick_restarts full

end Devices

end SystemsProjects.Cpu

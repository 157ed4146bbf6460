import Mathlib.Data.Option.Basic

/-!
# Timers of the kernel

A timer is pending from the moment it is armed until it expires or is deleted. Its handler runs after
it has expired, and may arm the timer again while it runs.
-/

namespace KTimer

variable {δ : Type}

/-- A `struct timer_list`. -/
structure Timer (δ : Type) where
  /-- `timer_setup` has run on it. -/
  ready : Bool
  /-- The time at which it expires, if it is pending. -/
  expires : Option δ
  /-- Its handler is running. -/
  running : Bool
deriving DecidableEq

/-- The memory of a timer that nothing has set up. -/
def Timer.zero : Timer δ := ⟨false, none, false⟩

/-- `timer_setup`, after which the timer is not pending. -/
def Timer.setup (t : Timer δ) : Timer δ := { t with ready := true, expires := none }

/-- `mod_timer`, which arms a timer, pending or not. -/
def Timer.mod (t : Timer δ) (expires : δ) : Timer δ := { t with expires := some expires }

/-- The timer when `del_timer_sync` returns. -/
def Timer.del (t : Timer δ) : Timer δ := { t with expires := none }

/-- The timer expires, and its handler starts. -/
def Timer.expire (t : Timer δ) : Timer δ := { t with expires := none, running := true }

/-- The handler returns. -/
def Timer.finish (t : Timer δ) : Timer δ := { t with running := false }

/-- The timer is pending. -/
def Timer.Armed (t : Timer δ) : Prop := t.expires.isSome = true

instance (t : Timer δ) : Decidable t.Armed := inferInstanceAs (Decidable (_ = true))

section Armed

variable (t : Timer δ)

@[simp] theorem Timer.armed_mod (e : δ) : (t.mod e).Armed := rfl

@[simp] theorem Timer.not_armed_zero : ¬ (Timer.zero : Timer δ).Armed := Bool.false_ne_true

@[simp] theorem Timer.not_armed_setup : ¬ t.setup.Armed := Bool.false_ne_true

@[simp] theorem Timer.not_armed_del : ¬ t.del.Armed := Bool.false_ne_true

@[simp] theorem Timer.not_armed_expire : ¬ t.expire.Armed := Bool.false_ne_true

end Armed

end KTimer

import LServer.Basic

set_option autoImplicit false

namespace LServer

structure VMResource where
  taken : Bool
  holderId : Nat
  deriving DecidableEq, Repr

def VMResource.fresh : VMResource := ⟨false, 0⟩

/-- `LSVirtualMachine`; an unreferenced number reads as the entry `resources_[num]` inserts. -/
structure LSVirtualMachine where
  resources : Nat → VMResource

namespace LSVirtualMachine

def init : LSVirtualMachine := ⟨fun _ => VMResource.fresh⟩

def set (vm : LSVirtualMachine) (num : Nat) (r : VMResource) : LSVirtualMachine :=
  ⟨fun n => if n = num then r else vm.resources n⟩

@[simp] theorem set_resources (vm : LSVirtualMachine) (num n : Nat) (r : VMResource) :
    (vm.set num r).resources n = if n = num then r else vm.resources n := rfl

/-- `lock`: returns at once on cancellation, else once `wait_for` sees the resource free. -/
def lock (vm : LSVirtualMachine) (sessionId num : Nat) (cancellationRequest : Bool) :
    Option LSVirtualMachine :=
  if cancellationRequest then some vm
  else if (vm.resources num).taken then none
  else some (vm.set num ⟨true, sessionId⟩)

/-- `unlock`: clears `taken` whoever holds the resource; `session_id` is not read. -/
def unlock (vm : LSVirtualMachine) (_sessionId num : Nat) : LSVirtualMachine :=
  vm.set num { vm.resources num with taken := false }

def cleanup (vm : LSVirtualMachine) (sessionId : Nat) : LSVirtualMachine :=
  ⟨fun n => if (vm.resources n).holderId = sessionId then { vm.resources n with taken := false }
    else vm.resources n⟩

theorem lock_eq_some {vm vm' : LSVirtualMachine} {sessionId num : Nat}
    (h : vm.lock sessionId num false = some vm') :
    (vm.resources num).taken = false ∧ vm' = vm.set num ⟨true, sessionId⟩ := by
  unfold lock at h
  split at h <;> simp_all

@[simp] theorem unlock_resources (vm : LSVirtualMachine) (sessionId num n : Nat) :
    (vm.unlock sessionId num).resources n =
      if n = num then { vm.resources num with taken := false } else vm.resources n := rfl

@[simp] theorem cleanup_resources (vm : LSVirtualMachine) (sessionId n : Nat) :
    (vm.cleanup sessionId).resources n =
      if (vm.resources n).holderId = sessionId then { vm.resources n with taken := false }
      else vm.resources n := rfl

end LSVirtualMachine

inductive VmCall where
  | lock (num : Nat)
  | unlock (num : Nat)
  | sleep (us : Nat)
  | loop (cycles : Nat)
  | cleanup
  deriving DecidableEq, Repr

end LServer

import LServer.Pool.Basic
set_option autoImplicit false

namespace LServer

def queueBufferPool : Pool Nat := Pool.empty 0

namespace DynamicQueue

/-- `prepare(n)`: `queue_buffer_pool_.borrow(n)`, with the identity `POI{}`. -/
def prepare (p : Pool Nat) (n : Nat) : Option Nat × Pool Nat := p.borrow 0 n

def free (p : Pool Nat) (qb : Nat) : Pool Nat := (p.putBack qb).1

def capacity (p : Pool Nat) (qb : Nat) : Nat := p.made.getD qb 0

/-- `prepare(n)` can return a buffer smaller than `n`. -/
theorem prepare_returns_smaller_buffer {p : Pool Nat} {qb : Nat} {rest : List Nat}
    (hp : p.pool = qb :: rest) {n : Nat} (hn : capacity p qb < n) :
    (prepare p n).1 = some qb ∧ capacity (prepare p n).2 qb < n := by
  rw [prepare, Pool.borrow, Pool.tryBorrow_of_cons hp]
  exact ⟨rfl, hn⟩

theorem prepare_returns_smaller_buffer_after_free :
    Pool.new 0 false 0 = .ok queueBufferPool ∧ (prepare queueBufferPool 1).1 = some 0 ∧ (free (prepare queueBufferPool 1).2 0).pool = [0] ∧
    capacity (free (prepare queueBufferPool 1).2 0) 0 < 2 ∧
    ((prepare (free (prepare queueBufferPool 1).2 0) 2).1 = some 0 ∧
      capacity (prepare (free (prepare queueBufferPool 1).2 0) 2).2 0 < 2) :=
  ⟨rfl, rfl, rfl, by decide, prepare_returns_smaller_buffer rfl (by decide)⟩

end DynamicQueue

end LServer

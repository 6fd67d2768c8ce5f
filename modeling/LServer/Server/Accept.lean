import LServer.Basic
import Mathlib.Logic.Function.Basic

set_option autoImplicit false

namespace LServer

/-- The acceptor's state: `hold_cnt_`, the trigger, the pending accept, the sessions started. -/
structure AcceptState where
  holdCnt : Nat → Nat
  triggered : Bool
  pending : Option Nat
  sessions : Nat

namespace AcceptState

def init : AcceptState := ⟨fun _ => 0, false, none, 0⟩

def hold (s : AcceptState) (ctx : Nat) : AcceptState :=
  { s with holdCnt := Function.update s.holdCnt ctx (s.holdCnt ctx + 1) }

def unhold (s : AcceptState) (ctx : Nat) : AcceptState :=
  { s with holdCnt := Function.update s.holdCnt ctx (s.holdCnt ctx - 1) }

def dispatch (s : AcceptState) (ctx : Nat) : AcceptState :=
  let s := s.hold ctx
  if s.triggered then s else { s with pending := some ctx }

/-- The handler of the pending accept; `none` when no accept is pending. -/
def acceptHandler (s : AcceptState) (error borrowed : Bool) (next : Nat) : Option AcceptState :=
  s.pending.map fun ctx =>
    let s := { s with pending := none }
    if s.triggered then s
    else
      let s := if !error && borrowed then { s.unhold ctx with sessions := s.sessions + 1 }
        else s.unhold ctx
      s.dispatch next

def stop (s : AcceptState) : Option AcceptState :=
  if s.triggered then none else some { s with triggered := true }

inductive Reachable : AcceptState → Prop
  | start (ctx : Nat) : Reachable (init.dispatch ctx)
  | accept {s s' : AcceptState} (error borrowed : Bool) (next : Nat) :
      Reachable s → s.acceptHandler error borrowed next = some s' → Reachable s'
  | stop {s s' : AcceptState} : Reachable s → s.stop = some s' → Reachable s'

def HeldOnce (s : AcceptState) (ctx : Nat) : Prop := ∀ c, s.holdCnt c = if c = ctx then 1 else 0

def Inv (s : AcceptState) : Prop :=
  ∃ ctx, HeldOnce s ctx ∧ (s.pending = some ctx ∨ (s.triggered = true ∧ s.pending = none))

theorem dispatch_inv {s : AcceptState} (hz : ∀ c, s.holdCnt c = 0) (ht : s.triggered = false)
    (ctx : Nat) : Inv (s.dispatch ctx) :=
  ⟨ctx, fun c => by by_cases h : c = ctx <;> simp [dispatch, hold, hz, ht, h],
    .inl (by simp [dispatch, hold, ht])⟩

theorem acceptHandler_inv {s s' : AcceptState} {error borrowed : Bool} {next : Nat} (hi : Inv s)
    (h : s.acceptHandler error borrowed next = some s') : Inv s' := by
  obtain ⟨ctx, hc, hp⟩ := hi
  obtain ⟨p, hsp, rfl⟩ := Option.map_eq_some'.mp h
  have hpc : p = ctx := by
    rcases hp with hp | ⟨-, hp⟩ <;> rw [hsp] at hp
    · exact Option.some.inj hp
    · cases hp
  subst hpc
  dsimp only
  by_cases ht : s.triggered = true
  · rw [if_pos ht]
    exact ⟨p, hc, .inr ⟨ht, rfl⟩⟩
  · rw [if_neg ht]
    have hz : ∀ c, ({ s with pending := none }.unhold p).holdCnt c = 0 := fun c => by
      by_cases e : c = p
      · subst e; simp [unhold, hc c]
      · simp [unhold, hc c, e]
    split <;> refine dispatch_inv ?_ ?_ next
    all_goals first | exact hz | simpa [unhold] using ht

theorem stop_inv {s s' : AcceptState} (hi : Inv s) (h : s.stop = some s') : Inv s' := by
  unfold stop at h
  split at h
  · cases h
  · cases h
    obtain ⟨ctx, hc, hp⟩ := hi
    refine ⟨ctx, hc, ?_⟩
    rcases hp with hp | ⟨ht, -⟩
    · exact .inl hp
    · simp_all

theorem reachable_inv {s : AcceptState} (h : Reachable s) : Inv s := by
  induction h with
  | start ctx => exact dispatch_inv (fun _ => rfl) rfl ctx
  | accept _ _ _ _ hs ih => exact acceptHandler_inv ih hs
  | stop _ hs ih => exact stop_inv ih hs

theorem init_dispatch (ctx : Nat) :
    init.dispatch ctx = ⟨Function.update (fun _ => 0) ctx 1, false, some ctx, 0⟩ := rfl

theorem acceptHandler_of_one (ctx n : Nat) (error borrowed : Bool) (next : Nat) :
    (⟨Function.update (fun _ => 0) ctx 1, false, some ctx, n⟩ : AcceptState).acceptHandler
        error borrowed next =
      some ⟨Function.update (fun _ => 0) next 1, false, some next,
        if !error && borrowed then n + 1 else n⟩ := by
  have hz : Function.update (Function.update (fun _ : Nat => (0 : Nat)) ctx 1) ctx (1 - 1) =
      fun _ => 0 := by
    funext j
    by_cases e : j = ctx <;> simp [Function.update_apply, e]
  cases error <;> cases borrowed <;>
    simp [acceptHandler, unhold, dispatch, hold, hz]

end AcceptState

/-- Exactly one hold is taken at any time, over every run of the acceptor. -/
theorem one_hold_taken {s : AcceptState} (h : AcceptState.Reachable s) :
    ∃ ctx, (∀ c, s.holdCnt c = if c = ctx then 1 else 0) ∧
      (s.pending = some ctx ∨ (s.triggered = true ∧ s.pending = none)) :=
  AcceptState.reachable_inv h

/-- An accept aborted by `stop` returns at the guard, and context 0 keeps its hold. -/
theorem accept_aborted_keeps_hold :
    ((some (AcceptState.init.dispatch 0)).bind AcceptState.stop).bind
        (fun s => s.acceptHandler true false 0) =
      some ⟨Function.update (fun _ => 0) 0 1, true, none, 0⟩ := by
  rfl

theorem one_hold_taken_after_stop :
    (∀ c, (Function.update (fun _ => 0) 0 1 : Nat → Nat) c = if c = 0 then 1 else 0) ∧
      (⟨Function.update (fun _ => 0) 0 1, true, none, 0⟩ : AcceptState).pending = none := by
  obtain ⟨ctx, hc, hp⟩ := one_hold_taken (s := ⟨Function.update (fun _ => 0) 0 1, true, none, 0⟩)
    (.accept true false 0 (.stop (.start 0) rfl) rfl)
  have : ctx = 0 := by
    by_contra hne
    have := hc 0
    simp [Ne.symm hne] at this
  subst this
  exact ⟨hc, rfl⟩

end LServer

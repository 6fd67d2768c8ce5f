import LServer.Session.Cycle
import LServer.Server.ContextPool
import LServer.Server.Accept
import LServer.Pool.Accounting

/-!
The sessions of a `Server<P>` over whole runs before `Server::stop`, each handler one step.
`deactivate_context` and `LSContext::stop`, which abandon the handlers still mounted on a
context, are not steps here, nor is the acceptor pool of a separate acceptor thread.
-/

set_option autoImplicit false

namespace LServer

structure Slot (P : Type) where
  cycle : Cycle P
  lscontext : Option Nat
  strand : Option Nat

def Slot.fresh {P : Type} (p : P) : Slot P := ⟨⟨p, 0, 0, [], 0, false, false, 0⟩, none, none⟩

/-- A worker context's strand pool; `strand_pool.hpp` is not among the sources. -/
def strandPoolNew : Held Unit := ⟨Pool.empty 0, fun _ => none, none⟩

/-- A `Server<P>` between two handlers. -/
structure Server (P : Type) where
  workers : LSContextPool
  strandPools : Nat → Held Unit
  pool : Held Unit
  slots : Nat → Slot P
  pending : Nat
  acceptor : Option Nat
  acceptedCnt : Nat

namespace Cycle

variable {P : Type} (pr : Protocol P)

def setup (c : Cycle P) : Cycle P := { c with invoked := false, finalizes := 0 }

def sessionStart (c : Cycle P) : Outcome (Cycle P) :=
  asyncReceive pr { c with proto := pr.start c.proto }

structure Idle (c : Cycle P) : Prop where
  reads : c.reads = 0
  writes : c.writes = 0
  closes : c.closes = 0
  queue : c.outgoingQueue = []
  no_shutdown : c.prepareForShutdown = false

variable {pr}

theorem Idle.sessionStart_setup {c : Cycle P} (h : c.Idle) :
    sessionStart pr c.setup = begin pr c.proto := by
  obtain ⟨p, r, w, q, cl, sh, inv, f⟩ := c
  obtain ⟨hr, hw, hc, hq, hs⟩ := h
  dsimp only at hr hw hc hq hs
  subst hr hw hc hq hs
  rfl

theorem Inv.idle {c : Cycle P} (hi : c.Inv) (hf : c.finalizes = 1) : c.Idle := by
  have h1 := hi.one
  have hw := hi.writes_eq
  refine ⟨by omega, by omega, by omega, ?_, hi.no_shutdown⟩
  split at hw
  · assumption
  · omega

theorem afterData_finalizes {c c' : Cycle P} {bufs : List Bytes} {r : Feedback}
    (h : afterData pr c bufs r = .ok c') : c'.finalizes = c.finalizes := by
  cases r with
  | kContinue => simp [asyncReceive_eq h, foldl_send]
  | kClose => cases h; simp [asyncClose, foldl_send]
  | kFinished | kData => cases h; simp [foldl_send]

theorem receiveEventCb_finalizes {c c' : Cycle P} {res : Option Bytes}
    (h : receiveEventCb pr c res = .ok c') : c'.finalizes = c.finalizes := by
  cases res with
  | none => cases h; rfl
  | some chunk =>
    obtain ⟨⟨p, bufs, r⟩, -, h⟩ := Outcome.bind_eq_ok h
    exact (afterData_finalizes h).trans rfl

theorem sendEventCb_finalizes {c c' : Cycle P} {ok : Bool} (h : sendEventCb pr c ok = .ok c') :
    c'.finalizes = c.finalizes := by
  unfold sendEventCb at h
  cases ok
  · cases h; rfl
  simp only [Bool.not_true, Bool.false_eq_true, if_false] at h
  split at h
  · cases h; rfl
  · obtain ⟨c₂, ha, h⟩ := Outcome.bind_eq_ok h
    have hr : (pr.onSent c.proto).2.2 ≠ .kFinished := by
      intro e; rw [e] at ha; cases ha
    have h₂ := afterData_finalizes ((afterSent_eq hr).symm.trans ha)
    split at h <;> cases h <;> exact h₂

end Cycle

namespace Server

variable {P : Type} (pr : Protocol P)

def onContext (s : Server P) (f : LSContext → LSContext) (k : Nat) : Server P :=
  { s with workers := { s.workers with contexts := s.workers.contexts.modify f k } }

def setSlot (s : Server P) (i : Nat) (sl : Slot P) : Server P :=
  { s with slots := Function.update s.slots i sl }

def setCycle (s : Server P) (i : Nat) (c : Cycle P) : Server P :=
  s.setSlot i { s.slots i with cycle := c }

def setStrandPool (s : Server P) (k : Nat) (h : Held Unit) : Server P :=
  { s with strandPools := Function.update s.strandPools k h }

def dispatch (s : Server P) : Outcome (Server P) :=
  (fun r : Nat × LSContextPool => { s with workers := r.2, pending := r.1 }) <$>
    s.workers.getContextRoundRobin

def borrowStrand (s : Server P) (k : Nat) : Outcome (Option Nat × Server P) :=
  match s.workers.contexts[k]? with
  | none => .undefined
  | some c =>
    match c.numThreads with
    | none => .undefined
    | some n =>
      if n = 1 then .ok (none, s)
      else .ok (((s.strandPools k).borrow 0 ()).1,
        s.setStrandPool k ((s.strandPools k).borrow 0 ()).2)

def setup (s : Server P) (i k : Nat) : Outcome (Server P) :=
  (fun r : Option Nat × Server P => r.2.setSlot i ⟨(s.slots i).cycle.setup, some k, r.1⟩) <$>
    (s.onContext LSContext.ref k).borrowStrand k

def sessionStart (s : Server P) (i : Nat) : Outcome (Server P) :=
  match (s.slots i).lscontext with
  | none => .undefined
  | some k =>
    (fun c => (s.setCycle i c).onContext LSContext.unhold k) <$>
      Cycle.sessionStart pr (s.slots i).cycle

/-- The handler of the accept registered for context `pending`. -/
def acceptHandler (s : Server P) (error : Bool) : Outcome (Server P) :=
  let k := s.pending
  let started : Outcome (Server P) :=
    if error then .ok (s.onContext LSContext.unhold k)
    else
      match s.pool.borrow k () with
      | (some i, h) => do
        let s ← { s with pool := h }.setup i k
        let s ← s.sessionStart pr i
        pure { s with acceptedCnt := s.acceptedCnt + 1 }
      | (none, h) => .ok ({ s with pool := h }.onContext LSContext.unhold k)
  started >>= dispatch

def receiveEventCb (s : Server P) (i : Nat) (res : Option Bytes) : Outcome (Server P) :=
  s.setCycle i <$> Cycle.receiveEventCb pr (s.slots i).cycle res

def sendEventCb (s : Server P) (i : Nat) (ok : Bool) : Outcome (Server P) :=
  s.setCycle i <$> Cycle.sendEventCb pr (s.slots i).cycle ok

def finalize (s : Server P) (i : Nat) : Outcome (Server P) :=
  let back (s : Server P) : Server P :=
    { s.setSlot i { s.slots i with strand := none } with pool := s.pool.putBack i }
  match (s.slots i).lscontext, (s.slots i).strand with
  | some k, some j =>
    .ok ((back (s.setStrandPool k ((s.strandPools k).putBack j))).onContext LSContext.deref k)
  | some k, none => .ok ((back s).onContext LSContext.deref k)
  | none, none => .ok (back s)
  | none, some _ => .undefined

def closeOnce (s : Server P) (i : Nat) : Outcome (Server P) :=
  let c := (s.slots i).cycle
  if c.outgoingQueue = [] ∧ c.invoked = false then (s.setCycle i (Cycle.closeOnce pr c)).finalize i
  else .ok (s.setCycle i (Cycle.closeOnce pr c))

/-- `Server(config)`, then `create_server`'s first `dispatch()`. -/
def new (fresh : P) (numWorkers maxNumWorkers numThreadsPerWorker maxSessionPoolSize : Nat)
    (eagerSessionPool separateAcceptorThread : Bool) : Outcome (Server P) :=
  match LSContextPool.new numWorkers maxNumWorkers numThreadsPerWorker with
  | .error _ => .thrown
  | .ok w =>
    Pool.new maxSessionPoolSize eagerSessionPool () >>= fun q =>
    (if separateAcceptorThread then .ok (none, w)
      else (fun r : Nat × LSContextPool => (some r.1, r.2)) <$> w.getContextRoundRobin) >>= fun a =>
    dispatch ⟨a.2, fun _ => strandPoolNew, ⟨q, fun _ => none, none⟩, fun _ => Slot.fresh fresh,
      0, a.1, 0⟩

/-- A server's states from `create_server` on, over every interleaving of its handlers. -/
inductive Reachable (fresh : P) : Server P → Prop
  | new {s : Server P} {numWorkers maxNumWorkers numThreadsPerWorker maxSessionPoolSize : Nat}
      {eagerSessionPool separateAcceptorThread : Bool} :
      Server.new fresh numWorkers maxNumWorkers numThreadsPerWorker maxSessionPoolSize
        eagerSessionPool separateAcceptorThread = .ok s → Reachable fresh s
  | accept {s s' : Server P} (error : Bool) :
      Reachable fresh s → s.acceptHandler pr error = .ok s' → Reachable fresh s'
  | read {s s' : Server P} (i : Nat) (res : Option Bytes) : Reachable fresh s →
      0 < (s.slots i).cycle.reads → s.receiveEventCb pr i res = .ok s' → Reachable fresh s'
  | write {s s' : Server P} (i : Nat) (ok : Bool) : Reachable fresh s →
      0 < (s.slots i).cycle.writes → s.sendEventCb pr i ok = .ok s' → Reachable fresh s'
  | close {s s' : Server P} (i : Nat) : Reachable fresh s →
      0 < (s.slots i).cycle.closes → s.closeOnce pr i = .ok s' → Reachable fresh s'
  | addContext {s : Server P} (n : Nat) : Reachable fresh s →
      Reachable fresh { s with workers := (s.workers.addContext n).1 }

/-! ### What each handler does -/

theorem field_of_modify {α : Type} (g : LSContext → α) {f : LSContext → LSContext}
    (hf : ∀ c, g (f c) = g c) {cs : List LSContext} {i j : Nat} {c' : LSContext}
    (h : (cs.modify f i)[j]? = some c') : ∃ c, cs[j]? = some c ∧ g c' = g c := by
  obtain ⟨c, hc, rfl⟩ := LSContextPool.getElem?_modify_eq_some h
  exact ⟨c, hc, by split <;> simp [hf]⟩

section Spec

variable {pr}

theorem dispatch_eq {s s' : Server P} (h : s.dispatch = .ok s') :
    ∃ k w, s.workers.getContextRoundRobin = .ok (k, w) ∧ k < s.workers.contexts.length ∧
      w.contexts = s.workers.contexts.modify LSContext.hold k ∧
      s' = { s with workers := w, pending := k } := by
  obtain ⟨⟨k, w⟩, hg, rfl⟩ := Outcome.map_eq_ok h
  obtain ⟨hk, hw⟩ := LSContextPool.getContextRoundRobin_eq_ok hg
  exact ⟨k, w, hg, hk, by rw [hw], rfl⟩

theorem borrowStrand_eq {s s' : Server P} {k : Nat} {r : Option Nat}
    (h : s.borrowStrand k = .ok (r, s')) :
    ∃ c n, s.workers.contexts[k]? = some c ∧ c.numThreads = some n ∧
      (n = 1 ∧ r = none ∧ s' = s ∨
        n ≠ 1 ∧ r = ((s.strandPools k).borrow 0 ()).1 ∧
          s' = s.setStrandPool k ((s.strandPools k).borrow 0 ()).2) := by
  unfold borrowStrand at h
  split at h
  · cases h
  · rename_i c hc
    split at h
    · cases h
    · rename_i n hn
      refine ⟨c, n, hc, hn, ?_⟩
      split at h
      · cases h; exact .inl ⟨‹_›, rfl, rfl⟩
      · cases h; exact .inr ⟨‹_›, rfl, rfl⟩

theorem start_eq {s s₃ : Server P} {h : Held Unit} {i k : Nat}
    (hs : ({ s with pool := h }.setup i k >>= fun s => s.sessionStart pr i) = .ok s₃) :
    ∃ r sp c, (∃ c₀ n, s.workers.contexts[k]? = some c₀ ∧ c₀.numThreads = some n ∧
        (n = 1 ∧ r = none ∨ n ≠ 1 ∧ r = ((s.strandPools k).borrow 0 ()).1)) ∧
      ((r = none ∧ sp = s.strandPools) ∨
        ∃ j hj, (s.strandPools k).borrow 0 () = (some j, hj) ∧ r = some j ∧
          sp = Function.update s.strandPools k hj) ∧
      Cycle.sessionStart pr (s.slots i).cycle.setup = .ok c ∧
      s₃ = { s with
        workers := { s.workers with
          contexts := (s.workers.contexts.modify LSContext.ref k).modify LSContext.unhold k }
        pool := h
        strandPools := sp
        slots := Function.update s.slots i ⟨c, some k, r⟩ } := by
  obtain ⟨s₂, hsetup, hstart⟩ := Outcome.bind_eq_ok hs
  obtain ⟨⟨r, s₁⟩, hb, rfl⟩ := Outcome.map_eq_ok hsetup
  obtain ⟨c₀, n, hc₀, hn₀, hn⟩ := borrowStrand_eq hb
  obtain ⟨c₁, hc₁, e⟩ := field_of_modify LSContext.numThreads (f := LSContext.ref) (fun _ => rfl) hc₀
  simp only [sessionStart, setSlot, Function.update_same] at hstart
  obtain ⟨c, hc, rfl⟩ := Outcome.map_eq_ok hstart
  refine ⟨r, s₁.strandPools, c, ⟨c₁, n, hc₁, e ▸ hn₀,
    hn.imp (fun ⟨h1, h2, _⟩ => ⟨h1, h2⟩) fun ⟨h1, h2, _⟩ => ⟨h1, h2⟩⟩, ?_, hc, ?_⟩
  · rcases hn with ⟨-, rfl, rfl⟩ | ⟨-, rfl, rfl⟩
    · exact .inl ⟨rfl, rfl⟩
    · dsimp only [onContext, setStrandPool]
      have hb := @Held.borrow_of_none Unit (s.strandPools k) 0 ()
      rcases hj : (s.strandPools k).borrow 0 () with ⟨_ | j, hj'⟩
      · rw [hj] at hb
        refine .inl ⟨rfl, ?_⟩
        rw [hb rfl]
        exact Function.update_eq_self k _
      · exact .inr ⟨j, hj', rfl, rfl, rfl⟩
  · rcases hn with ⟨-, rfl, rfl⟩ | ⟨-, rfl, rfl⟩ <;>
      simp [setCycle, setSlot, setStrandPool, onContext, Function.update_idem]

theorem acceptHandler_eq {s s' : Server P} {error : Bool} (h : s.acceptHandler pr error = .ok s') :
    ∃ s₁, s₁.dispatch = .ok s' ∧
      (s₁ = s.onContext LSContext.unhold s.pending ∧
          (error = true ∨ (s.pool.borrow s.pending ()).1 = none) ∨
        ∃ i hp s₃, error = false ∧ s.pool.borrow s.pending () = (some i, hp) ∧
          ({ s with pool := hp }.setup i s.pending >>= fun s => s.sessionStart pr i) = .ok s₃ ∧
          s₁ = { s₃ with acceptedCnt := s₃.acceptedCnt + 1 }) := by
  obtain ⟨s₁, hs, hd⟩ := Outcome.bind_eq_ok h
  refine ⟨s₁, hd, ?_⟩
  cases error
  · simp only [Bool.false_eq_true, if_false] at hs
    split at hs
    · rename_i i hp hb
      obtain ⟨s₂, h2, hs⟩ := Outcome.bind_eq_ok hs
      obtain ⟨s₃, h3, hs⟩ := Outcome.bind_eq_ok hs
      cases hs
      exact .inr ⟨i, hp, s₃, rfl, hb, by rw [h2]; exact h3, rfl⟩
    · rename_i hp hb
      have he : hp = s.pool := by
        have := @Held.borrow_of_none Unit s.pool s.pending () (by rw [hb])
        rwa [hb] at this
      subst he
      cases hs
      exact .inl ⟨rfl, .inr (by rw [hb])⟩
  · cases hs
    exact .inl ⟨rfl, .inl rfl⟩

theorem finalize_eq {s s' : Server P} {i k : Nat} (hk : (s.slots i).lscontext = some k)
    (h : s.finalize i = .ok s') :
    ∃ sp, ((s.slots i).strand = none ∧ sp = s.strandPools ∨
        ∃ j, (s.slots i).strand = some j ∧
          sp = Function.update s.strandPools k ((s.strandPools k).putBack j)) ∧
      s' = { s with
        workers := { s.workers with contexts := s.workers.contexts.modify LSContext.deref k }
        pool := s.pool.putBack i
        strandPools := sp
        slots := Function.update s.slots i { s.slots i with strand := none } } := by
  unfold finalize at h
  rw [hk] at h
  cases hj : (s.slots i).strand with
  | none =>
    rw [hj] at h
    cases h
    exact ⟨_, .inl ⟨rfl, rfl⟩, rfl⟩
  | some j =>
    rw [hj] at h
    cases h
    exact ⟨_, .inr ⟨j, rfl, rfl⟩, rfl⟩

end Spec

/-! ### The invariant -/

/-- The sessions of a server, each as the pool and its context record it. -/
structure Inv (s : Server P) : Prop where
  workers : s.workers.Reachable
  pending_lt : s.pending < s.workers.contexts.length
  pool : Held.Reachable () s.pool
  no_waiter : s.pool.waiter = none
  lent : ∀ i k, s.pool.holder i = some k → k < s.workers.contexts.length ∧
    (s.slots i).lscontext = some k ∧ Cycle.Reachable pr (s.slots i).cycle ∧
    (s.slots i).cycle.finalizes = 0
  idle : ∀ i, s.pool.holder i = none → (s.slots i).cycle.Idle ∧ (s.slots i).strand = none
  refCnt : ∀ k c, s.workers.contexts[k]? = some c → c.refCnt = s.pool.heldBy k
  strandPools : ∀ k, Relation.ReflTransGen Held.Step strandPoolNew (s.strandPools k) ∧
    (s.strandPools k).waiter = none
  strand_held : ∀ k j, (s.strandPools k).holder j ≠ none ↔
    ∃ i, s.pool.holder i = some k ∧ (s.slots i).strand = some j
  strand_unique : ∀ i i' k j, s.pool.holder i = some k → s.pool.holder i' = some k →
    (s.slots i).strand = some j → (s.slots i').strand = some j → i = i'
  threads : ∀ i k c, s.pool.holder i = some k → s.workers.contexts[k]? = some c →
    ∃ n, c.numThreads = some n ∧ ((s.slots i).strand = none ↔ n = 1)

theorem strandPool_inv {h : Held Unit} (hr : Relation.ReflTransGen Held.Step strandPoolNew h) :
    h.Inv :=
  Held.reachable_inv ((@Held.Reachable.new Unit () 0 false _ rfl).steps hr)

section Steps

variable {pr} {s : Server P}

theorem Inv.heldBy_eq_zero (hi : s.Inv pr) {k : Nat} (hk : s.workers.contexts.length ≤ k) :
    s.pool.heldBy k = 0 :=
  List.countP_eq_zero.2 fun i _ h => by
    simp only [decide_eq_true_eq] at h
    exact absurd (hi.lent i k h).1 (Nat.not_lt.2 hk)

theorem Inv.heldBy_pos (hi : s.Inv pr) {i k : Nat} (hh : s.pool.holder i = some k) :
    0 < s.pool.heldBy k :=
  ((Held.reachable_inv hi.pool).heldBy_pos_iff k).2 ⟨i, hh⟩

theorem Inv.strand_isSome (hi : s.Inv pr) (k : Nat) : ((s.strandPools k).borrow 0 ()).1.isSome :=
  Held.borrow_isSome_of_unbounded _ 0 () (Held.steps_counts (hi.strandPools k).1).1

theorem Inv.strand_putBack (hi : s.Inv pr) (k j : Nat) :
    ((s.strandPools k).putBack j).holder = Function.update (s.strandPools k).holder j none ∧
      ((s.strandPools k).putBack j).waiter = none := by
  rw [Held.putBack_of_free (by
    rw [(strandPool_inv (hi.strandPools k).1).waiting, (hi.strandPools k).2]; rfl)]
  exact ⟨rfl, (hi.strandPools k).2⟩

theorem Inv.acceptedCnt (hi : s.Inv pr) (n : Nat) : Inv pr { s with acceptedCnt := n } :=
  ⟨hi.1, hi.2, hi.3, hi.4, hi.5, hi.6, hi.7, hi.8, hi.9, hi.10, hi.11⟩

theorem Inv.of_workers (hi : s.Inv pr) {w : LSContextPool} {k : Nat} (hw : w.Reachable)
    (hk : k < w.contexts.length) (hl : s.workers.contexts.length ≤ w.contexts.length)
    (hr : ∀ j c', w.contexts[j]? = some c' →
      (∃ c, s.workers.contexts[j]? = some c ∧ c'.refCnt = c.refCnt) ∨
        (s.workers.contexts.length ≤ j ∧ c'.refCnt = 0))
    (hn : ∀ j c', w.contexts[j]? = some c' → s.workers.contexts.length ≤ j ∨
      ∃ c, s.workers.contexts[j]? = some c ∧ (c'.numThreads = c.numThreads ∨ c.refCnt = 0)) :
    Inv pr { s with workers := w, pending := k } where
  workers := hw
  pending_lt := hk
  pool := hi.pool
  no_waiter := hi.no_waiter
  lent i j h := let ⟨h1, h2⟩ := hi.lent i j h; ⟨Nat.lt_of_lt_of_le h1 hl, h2⟩
  idle := hi.idle
  refCnt j c' h := by
    rcases hr j c' h with ⟨c, hc, he⟩ | ⟨hj, he⟩
    · exact he.trans (hi.refCnt j c hc)
    · exact he.trans (hi.heldBy_eq_zero hj).symm
  strandPools := hi.strandPools
  strand_held := hi.strand_held
  strand_unique := hi.strand_unique
  threads i j c' hh h := by
    rcases hn j c' h with hj | ⟨c, hc, e | h0⟩
    · exact absurd (hi.lent i j hh).1 (Nat.not_lt.2 hj)
    · rw [e]; exact hi.threads i j c hh hc
    · exact absurd (h0.symm.trans (hi.refCnt j c hc)) (hi.heldBy_pos hh).ne

theorem Inv.unhold (hi : s.Inv pr) (k : Nat) : Inv pr (s.onContext LSContext.unhold k) :=
  hi.of_workers (k := s.pending) (hi.workers.context _ k (.inl rfl))
    (by simpa [onContext] using hi.pending_lt) (by simp [onContext])
    (fun _ _ h => .inl (field_of_modify LSContext.refCnt (f := LSContext.unhold) (fun _ => rfl) h))
    fun _ _ h => .inr ((field_of_modify LSContext.numThreads (f := LSContext.unhold) (fun _ => rfl)
      h).imp fun _ ⟨hc, e⟩ => ⟨hc, .inl e⟩)

theorem Inv.dispatch (hi : s.Inv pr) {s' : Server P} (h : s.dispatch = .ok s') : s'.Inv pr := by
  obtain ⟨k, w, hg, hk, hw, rfl⟩ := dispatch_eq h
  exact hi.of_workers (hi.workers.getContextRoundRobin hg) (by simpa [hw] using hk) (by simp [hw])
    (fun _ _ h => .inl (field_of_modify LSContext.refCnt (f := LSContext.hold) (fun _ => rfl) (hw ▸ h)))
    fun _ _ h => .inr ((field_of_modify LSContext.numThreads (f := LSContext.hold) (fun _ => rfl)
      (hw ▸ h)).imp fun _ ⟨hc, e⟩ => ⟨hc, .inl e⟩)

theorem Inv.addContext (hi : s.Inv pr) (n : Nat) :
    Inv pr { s with workers := (s.workers.addContext n).1 } := by
  have hl := (LSContextPool.addContext_spec s.workers n
    (LSContextPool.reachable_inv hi.workers).bounded).2.2.1
  exact hi.of_workers (k := s.pending) (hi.workers.addContext n)
    (Nat.lt_of_lt_of_le hi.pending_lt hl) hl
    (fun _ _ h => (LSContextPool.addContext_getElem? _ n h).imp (fun ⟨c, hc, hr, _⟩ => ⟨c, hc, hr⟩)
      fun ⟨hj, hr, _⟩ => ⟨hj, hr⟩)
    fun _ _ h => (LSContextPool.addContext_getElem? _ n h).elim
      (fun ⟨c, hc, _, _, e⟩ => .inr ⟨c, hc, e.imp_right fun hu => by
        simp only [LSContext.reusable, Bool.and_eq_true, Bool.not_eq_true', beq_iff_eq] at hu
        exact hu.2⟩) fun ⟨hj, _⟩ => .inl hj

@[simp] theorem setCycle_pool (s : Server P) (i : Nat) (c : Cycle P) :
    (s.setCycle i c).pool = s.pool := rfl

@[simp] theorem setCycle_workers (s : Server P) (i : Nat) (c : Cycle P) :
    (s.setCycle i c).workers = s.workers := rfl

@[simp] theorem setCycle_strandPools (s : Server P) (i : Nat) (c : Cycle P) :
    (s.setCycle i c).strandPools = s.strandPools := rfl

theorem setCycle_slots (s : Server P) (i : Nat) (c : Cycle P) (j : Nat) :
    (s.setCycle i c).slots j = if j = i then { s.slots j with cycle := c } else s.slots j := by
  by_cases h : j = i
  · subst h; simp [setCycle, setSlot]
  · simp [setCycle, setSlot, h]

@[simp] theorem setCycle_cycle (s : Server P) (i : Nat) (c : Cycle P) (j : Nat) :
    ((s.setCycle i c).slots j).cycle = if j = i then c else (s.slots j).cycle := by
  rw [setCycle_slots]; split <;> rfl

@[simp] theorem setCycle_lscontext (s : Server P) (i : Nat) (c : Cycle P) (j : Nat) :
    ((s.setCycle i c).slots j).lscontext = (s.slots j).lscontext := by
  rw [setCycle_slots]; split <;> rfl

@[simp] theorem setCycle_strand (s : Server P) (i : Nat) (c : Cycle P) (j : Nat) :
    ((s.setCycle i c).slots j).strand = (s.slots j).strand := by
  rw [setCycle_slots]; split <;> rfl

theorem Inv.setCycle (hi : s.Inv pr) {i k : Nat} (hh : s.pool.holder i = some k) {c : Cycle P}
    (hc : Cycle.Reachable pr c) (hf : c.finalizes = 0) : Inv pr (s.setCycle i c) where
  workers := hi.workers
  pending_lt := hi.pending_lt
  pool := hi.pool
  no_waiter := hi.no_waiter
  lent j k' h := by
    obtain ⟨h1, h2, h3, h4⟩ := hi.lent j k' h
    by_cases hj : j = i
    · subst hj; simp [h1, h2, hc, hf]
    · simp [hj, h1, h2, h3, h4]
  idle j h := by
    rw [setCycle_pool] at h
    have hj : j ≠ i := by rintro rfl; rw [hh] at h; cases h
    simpa [hj] using hi.idle j h
  refCnt := hi.refCnt
  strandPools := hi.strandPools
  strand_held k' j := by simpa using hi.strand_held k' j
  strand_unique i₁ i₂ k' j h₁ h₂ e₁ e₂ := hi.strand_unique i₁ i₂ k' j h₁ h₂ (by simpa using e₁)
    (by simpa using e₂)
  threads j k' c' h hc' := by simpa using hi.threads j k' c' h hc'

theorem Inv.read (hi : s.Inv pr) {i : Nat} {res : Option Bytes} {s' : Server P}
    (hr : 0 < (s.slots i).cycle.reads) (h : s.receiveEventCb pr i res = .ok s') : s'.Inv pr := by
  cases hh : s.pool.holder i with
  | none => have := (hi.idle i hh).1.reads; omega
  | some k =>
    obtain ⟨-, -, hc, hf⟩ := hi.lent i k hh
    obtain ⟨c', hc', rfl⟩ := Outcome.map_eq_ok h
    exact hi.setCycle hh (hc.read res hr hc') ((Cycle.receiveEventCb_finalizes hc').trans hf)

theorem Inv.write (hi : s.Inv pr) {i : Nat} {ok : Bool} {s' : Server P}
    (hw : 0 < (s.slots i).cycle.writes) (h : s.sendEventCb pr i ok = .ok s') : s'.Inv pr := by
  cases hh : s.pool.holder i with
  | none => have := (hi.idle i hh).1.writes; omega
  | some k =>
    obtain ⟨-, -, hc, hf⟩ := hi.lent i k hh
    obtain ⟨c', hc', rfl⟩ := Outcome.map_eq_ok h
    exact hi.setCycle hh (hc.write ok hw hc') ((Cycle.sendEventCb_finalizes hc').trans hf)

theorem Inv.mount (hi : s.Inv pr) {i k : Nat} {h : Held Unit} (hk : k < s.workers.contexts.length)
    (hb : s.pool.borrow k () = (some i, h)) {r : Option Nat} {sp : Nat → Held Unit}
    (hn : ∃ c₀ n, s.workers.contexts[k]? = some c₀ ∧ c₀.numThreads = some n ∧
      (n = 1 ∧ r = none ∨ n ≠ 1 ∧ r = ((s.strandPools k).borrow 0 ()).1))
    (hsp : (r = none ∧ sp = s.strandPools) ∨
      ∃ j hj, (s.strandPools k).borrow 0 () = (some j, hj) ∧ r = some j ∧
        sp = Function.update s.strandPools k hj)
    {c : Cycle P} (hc : Cycle.sessionStart pr (s.slots i).cycle.setup = .ok c) :
    Inv pr { s with
      workers := { s.workers with
        contexts := (s.workers.contexts.modify LSContext.ref k).modify LSContext.unhold k }
      pool := h
      strandPools := sp
      slots := Function.update s.slots i ⟨c, some k, r⟩ } := by
  have hpi := Held.reachable_inv hi.pool
  have hb1 : (s.pool.borrow k ()).1 = some i := by rw [hb]
  have hh : h.holder = Function.update s.pool.holder i (some k) := by
    rw [← Held.borrow_holder hb1, hb]
  have hfree : s.pool.holder i = none :=
    hpi.tryBorrow_free ((congrArg Prod.fst (Held.borrow_pool s.pool k ())).symm.trans hb1)
  have hidle := (hi.idle i hfree).1
  -- the strand borrowed was free, so no session mounted on `k` holds it
  have hr : ∀ j, r = some j → ∀ i', s.pool.holder i' = some k → (s.slots i').strand ≠ some j := by
    rintro j rfl i' hi' hs'
    rcases hsp with ⟨h0, -⟩ | ⟨j', hj, hbs, hjj, -⟩
    · cases h0
    · cases hjj
      have hb' : ((s.strandPools k).borrow 0 ()).1 = some j := by rw [hbs]
      exact (hi.strand_held k j).2 ⟨i', hi', hs'⟩ ((strandPool_inv (hi.strandPools k).1).tryBorrow_free
        ((congrArg Prod.fst (Held.borrow_pool _ 0 ())).symm.trans hb'))
  have hrhs : ∀ k' j', (∃ i', Function.update s.pool.holder i (some k) i' = some k' ∧
      (Function.update s.slots i ⟨c, some k, r⟩ i').strand = some j') ↔
      (k = k' ∧ r = some j') ∨ ∃ i', s.pool.holder i' = some k' ∧ (s.slots i').strand = some j' := by
    intro k' j'
    constructor
    · rintro ⟨i', h1, h2⟩
      by_cases e : i' = i
      · subst e; simp only [Function.update_same, Option.some.injEq] at h1 h2; exact .inl ⟨h1, h2⟩
      · rw [Function.update_noteq e] at h1 h2; exact .inr ⟨i', h1, h2⟩
    · rintro (⟨rfl, rfl⟩ | ⟨i', h1, h2⟩)
      · exact ⟨i, by simp, by simp⟩
      · have e : i' ≠ i := by rintro rfl; rw [hfree] at h1; cases h1
        exact ⟨i', by rw [Function.update_noteq e]; exact h1, by rw [Function.update_noteq e]; exact h2⟩
  refine ⟨?_, ?_, ?_, ?_, ?_, ?_, ?_, ?_, ?_, ?_, ?_⟩
  · exact (hi.workers.context _ k (.inr (.inl rfl))).context _ k (.inl rfl)
  · simpa using hi.pending_lt
  · have := hi.pool.borrow k ()
    rwa [hb] at this
  · rw [← hi.no_waiter, ← Held.borrow_waiter s.pool k (), hb]
  · intro j k' hj
    dsimp only at hj ⊢
    rw [hh] at hj
    by_cases e : j = i
    · subst e
      simp only [Function.update_same, Option.some.injEq] at hj ⊢
      subst hj
      refine ⟨by simpa using hk, rfl, .start (hidle.sessionStart_setup.symm.trans hc), ?_⟩
      rw [Cycle.asyncReceive_eq hc]
      rfl
    · rw [Function.update_noteq e] at hj ⊢
      obtain ⟨h1, h2⟩ := hi.lent j k' hj
      exact ⟨by simpa using h1, h2⟩
  · intro j hj
    dsimp only at hj ⊢
    rw [hh] at hj
    have e : j ≠ i := by rintro rfl; simp at hj
    rw [Function.update_noteq e] at hj ⊢
    exact hi.idle j hj
  · intro j c' hc'
    obtain ⟨c₁, hc₁, rfl⟩ := LSContextPool.getElem?_modify_eq_some hc'
    obtain ⟨c₀, hc₀, rfl⟩ := LSContextPool.getElem?_modify_eq_some hc₁
    have hheld := hpi.heldBy_borrow hb1 j
    rw [hb] at hheld
    rw [hheld, ← hi.refCnt j c₀ hc₀]
    by_cases e : k = j <;> simp [e, LSContext.ref, LSContext.unhold]
  · intro k'
    dsimp only
    rcases hsp with ⟨-, rfl⟩ | ⟨j₀, hj, hbs, -, rfl⟩
    · exact hi.strandPools k'
    · by_cases e : k' = k
      · subst e
        rw [Function.update_same]
        have hs := Held.Step.borrow (s.strandPools k') 0 ()
        rw [hbs] at hs
        exact ⟨(hi.strandPools k').1.tail hs,
          by rw [← (hi.strandPools k').2, ← Held.borrow_waiter (s.strandPools k') 0 (), hbs]⟩
      · rw [Function.update_noteq e]; exact hi.strandPools k'
  · intro k' j'
    dsimp only
    rw [hh, hrhs]
    rcases hsp with ⟨rfl, rfl⟩ | ⟨j₀, hj, hbs, rfl, rfl⟩
    · rw [hi.strand_held]; simp
    · by_cases e : k' = k
      · subst e
        have hjh : hj.holder = Function.update (s.strandPools k').holder j₀ (some 0) := by
          rw [← Held.borrow_holder (by rw [hbs]), hbs]
        rw [Function.update_same, hjh, ← hi.strand_held]
        by_cases e' : j' = j₀
        · subst e'; simp
        · simp [Function.update_noteq e', e', Ne.symm e']
      · rw [Function.update_noteq e, hi.strand_held]; simp [Ne.symm e]
  · intro i₁ i₂ k' j h₁ h₂ e₁ e₂
    dsimp only at h₁ h₂ e₁ e₂
    rw [hh] at h₁ h₂
    by_cases f₁ : i₁ = i <;> by_cases f₂ : i₂ = i
    · rw [f₁, f₂]
    · subst f₁
      simp only [Function.update_same, Option.some.injEq] at h₁ e₁
      subst h₁
      rw [Function.update_noteq f₂] at h₂ e₂
      exact absurd e₂ (hr j e₁ i₂ h₂)
    · subst f₂
      simp only [Function.update_same, Option.some.injEq] at h₂ e₂
      subst h₂
      rw [Function.update_noteq f₁] at h₁ e₁
      exact absurd e₁ (hr j e₂ i₁ h₁)
    · rw [Function.update_noteq f₁] at h₁ e₁
      rw [Function.update_noteq f₂] at h₂ e₂
      exact hi.strand_unique i₁ i₂ k' j h₁ h₂ e₁ e₂
  · intro j k' c' hj hc'
    dsimp only at hj hc' ⊢
    rw [hh] at hj
    obtain ⟨c₁, hc₁, e₁⟩ := field_of_modify LSContext.numThreads (f := LSContext.unhold)
      (fun _ => rfl) hc'
    obtain ⟨c₂, hc₂, e₂⟩ := field_of_modify LSContext.numThreads (f := LSContext.ref)
      (fun _ => rfl) hc₁
    rw [e₁, e₂]
    by_cases e : j = i
    · subst e
      simp only [Function.update_same, Option.some.injEq] at hj ⊢
      subst hj
      obtain ⟨c₀, n, hc₀, hn₀, hr⟩ := hn
      rw [hc₀, Option.some.injEq] at hc₂
      subst hc₂
      refine ⟨n, hn₀, ?_⟩
      rcases hr with ⟨h1, rfl⟩ | ⟨h1, rfl⟩
      · simp [h1]
      · simp [h1, Option.isSome_iff_ne_none.1 (hi.strand_isSome _)]
    · rw [Function.update_noteq e] at hj ⊢
      exact hi.threads j k' c₂ hj hc₂

theorem Inv.unmount (hi : s.Inv pr) {i k : Nat} (hh : s.pool.holder i = some k) {c : Cycle P}
    (hc : c.Idle) {sp : Nat → Held Unit}
    (hsp : (s.slots i).strand = none ∧ sp = s.strandPools ∨
      ∃ j, (s.slots i).strand = some j ∧
        sp = Function.update s.strandPools k ((s.strandPools k).putBack j)) :
    Inv pr { s with
      workers := { s.workers with contexts := s.workers.contexts.modify LSContext.deref k }
      pool := s.pool.putBack i
      strandPools := sp
      slots := Function.update s.slots i ⟨c, some k, none⟩ } := by
  have hpi := Held.reachable_inv hi.pool
  have hpb := Held.putBack_of_free (by rw [hpi.waiting, hi.no_waiter]; rfl) i
  have hh' : (s.pool.putBack i).holder = Function.update s.pool.holder i none := by rw [hpb]
  have hrhs : ∀ k' j', (∃ i', Function.update s.pool.holder i none i' = some k' ∧
      (Function.update s.slots i ⟨c, some k, none⟩ i').strand = some j') ↔
      ∃ i', i' ≠ i ∧ s.pool.holder i' = some k' ∧ (s.slots i').strand = some j' := by
    intro k' j'
    constructor
    · rintro ⟨i', h1, h2⟩
      have e : i' ≠ i := by rintro rfl; simp at h1
      rw [Function.update_noteq e] at h1 h2
      exact ⟨i', e, h1, h2⟩
    · rintro ⟨i', e, h1, h2⟩
      exact ⟨i', by rw [Function.update_noteq e]; exact h1, by rw [Function.update_noteq e]; exact h2⟩
  have hother : ∀ k' j', ¬((k' = k) ∧ (s.slots i).strand = some j') →
      ((∃ i', i' ≠ i ∧ s.pool.holder i' = some k' ∧ (s.slots i').strand = some j') ↔
        (s.strandPools k').holder j' ≠ none) := by
    intro k' j' hn
    rw [hi.strand_held]
    refine exists_congr fun i' => ⟨fun ⟨_, h⟩ => h, fun ⟨h1, h2⟩ => ⟨?_, h1, h2⟩⟩
    rintro rfl
    rw [hh] at h1
    exact hn ⟨(Option.some.inj h1).symm, h2⟩
  refine ⟨?_, ?_, ?_, ?_, ?_, ?_, ?_, ?_, ?_, ?_, ?_⟩
  · exact hi.workers.context _ k (.inr (.inr rfl))
  · simpa using hi.pending_lt
  · exact hi.pool.putBack (by rw [hh]; simp)
  · rw [hpb]; exact hi.no_waiter
  · intro j k' hj
    dsimp only at hj ⊢
    rw [hh'] at hj
    have e : j ≠ i := by rintro rfl; simp at hj
    rw [Function.update_noteq e] at hj ⊢
    obtain ⟨h1, h2⟩ := hi.lent j k' hj
    exact ⟨by simpa using h1, h2⟩
  · intro j hj
    dsimp only at hj ⊢
    by_cases e : j = i
    · subst e; simp [hc]
    · rw [hh', Function.update_noteq e] at hj
      rw [Function.update_noteq e]
      exact hi.idle j hj
  · intro j c' hc'
    obtain ⟨c₀, hc₀, rfl⟩ := LSContextPool.getElem?_modify_eq_some hc'
    have := hpi.heldBy_putBack hi.no_waiter hh j
    rw [← hi.refCnt j c₀ hc₀] at this
    by_cases e : k = j <;> simp only [e, if_true, if_false, LSContext.deref] at this ⊢ <;> omega
  · intro k'
    dsimp only
    rcases hsp with ⟨-, rfl⟩ | ⟨j, hj, rfl⟩
    · exact hi.strandPools k'
    · by_cases e : k' = k
      · subst e
        rw [Function.update_same]
        exact ⟨(hi.strandPools k').1.tail (.putBack ((hi.strand_held k' j).2 ⟨i, hh, hj⟩)),
          (hi.strand_putBack k' j).2⟩
      · rw [Function.update_noteq e]; exact hi.strandPools k'
  · intro k' j'
    dsimp only
    rw [hh', hrhs]
    rcases hsp with ⟨hj, rfl⟩ | ⟨j, hj, rfl⟩
    · exact (hother k' j' fun ⟨_, h⟩ => by rw [hj] at h; cases h).symm
    · by_cases e : k' = k ∧ j' = j
      · obtain ⟨rfl, rfl⟩ := e
        rw [Function.update_same, (hi.strand_putBack k' j').1]
        simp only [Function.update_same, ne_eq, not_true_eq_false, false_iff, not_exists, not_and]
        exact fun i' e h1 h2 => e (hi.strand_unique i' i k' j' h1 hh h2 hj)
      · refine Iff.trans ?_ (hother k' j' fun ⟨h1, h2⟩ => e ⟨h1, ?_⟩).symm
        swap
        · rw [hj] at h2; exact (Option.some.inj h2).symm
        by_cases ek : k' = k
        · subst ek
          have ej : j' ≠ j := fun h => e ⟨rfl, h⟩
          rw [Function.update_same, (hi.strand_putBack k' j).1]
          simp [Function.update_noteq ej]
        · rw [Function.update_noteq ek]
  · intro i₁ i₂ k' j h₁ h₂ e₁ e₂
    dsimp only at h₁ h₂ e₁ e₂
    rw [hh'] at h₁ h₂
    have f₁ : i₁ ≠ i := by rintro rfl; simp at h₁
    have f₂ : i₂ ≠ i := by rintro rfl; simp at h₂
    rw [Function.update_noteq f₁] at h₁ e₁
    rw [Function.update_noteq f₂] at h₂ e₂
    exact hi.strand_unique i₁ i₂ k' j h₁ h₂ e₁ e₂
  · intro j k' c' hj hc'
    dsimp only at hj hc' ⊢
    rw [hh'] at hj
    have e : j ≠ i := by rintro rfl; simp at hj
    rw [Function.update_noteq e] at hj ⊢
    obtain ⟨c₀, hc₀, e₀⟩ := field_of_modify LSContext.numThreads (f := LSContext.deref)
      (fun _ => rfl) hc'
    rw [e₀]
    exact hi.threads j k' c₀ hj hc₀

theorem Inv.closeOnce (hw : pr.WellBehaved) (hi : s.Inv pr) {i : Nat} {s' : Server P}
    (hc : 0 < (s.slots i).cycle.closes) (h : s.closeOnce pr i = .ok s') : s'.Inv pr := by
  cases hh : s.pool.holder i with
  | none => have := (hi.idle i hh).1.closes; omega
  | some k =>
    obtain ⟨-, hk, hr, hf⟩ := hi.lent i k hh
    have hci := Cycle.reachable_inv hw hr
    obtain ⟨hq, hinv, heq⟩ := hci.closeOnce_eq hc
    have hf' : (Cycle.closeOnce pr (s.slots i).cycle).finalizes = 1 := by
      rw [heq]; simp [Cycle.finalize, hf]
    have hidle := (Cycle.reachable_inv hw (hr.close hc)).idle hf'
    unfold Server.closeOnce at h
    rw [if_pos ⟨hq, hinv⟩] at h
    obtain ⟨sp, hsp, rfl⟩ := finalize_eq (by simpa using hk) h
    have hsl : Function.update (s.setCycle i (Cycle.closeOnce pr (s.slots i).cycle)).slots i
        { (s.setCycle i (Cycle.closeOnce pr (s.slots i).cycle)).slots i with strand := none } =
        Function.update s.slots i ⟨Cycle.closeOnce pr (s.slots i).cycle, some k, none⟩ := by
      funext j
      by_cases e : j = i
      · subst e; simp [setCycle_slots, hk]
      · simp [e, setCycle_slots]
    rw [hsl]
    exact hi.unmount hh hidle (by simpa using hsp)

theorem Inv.acceptHandler (hi : s.Inv pr) {error : Bool} {s' : Server P}
    (h : s.acceptHandler pr error = .ok s') : s'.Inv pr := by
  obtain ⟨s₁, hd, ⟨rfl, -⟩ | ⟨i, hp, s₃, -, hb, hs, rfl⟩⟩ := acceptHandler_eq h
  · exact (hi.unhold s.pending).dispatch hd
  · obtain ⟨r, sp, c, hn, hsp, hc, rfl⟩ := start_eq hs
    exact ((hi.mount hi.pending_lt hb hn hsp hc).acceptedCnt _).dispatch hd

end Steps

theorem new_inv {fresh : P} {numWorkers maxNumWorkers numThreadsPerWorker maxSessionPoolSize : Nat}
    {eagerSessionPool separateAcceptorThread : Bool} {s : Server P}
    (h : Server.new fresh numWorkers maxNumWorkers numThreadsPerWorker maxSessionPoolSize
      eagerSessionPool separateAcceptorThread = .ok s) : s.Inv pr := by
  unfold Server.new at h
  split at h
  · cases h
  · rename_i w hw
    obtain ⟨q, hq, h⟩ := Outcome.bind_eq_ok h
    obtain ⟨⟨acc, w'⟩, ha, h⟩ := Outcome.bind_eq_ok h
    have hacc : w' = w ∨ ∃ k, w.getContextRoundRobin = .ok (k, w') := by
      split at ha
      · cases ha; exact .inl rfl
      · obtain ⟨⟨k, w₁⟩, hg, he⟩ := Outcome.map_eq_ok ha
        cases he; exact .inr ⟨k, hg⟩
    have hlen : 0 < w'.contexts.length := by
      obtain ⟨k, -, -, hk, -⟩ := dispatch_eq h
      exact Nat.zero_lt_of_lt hk
    have hpos : 0 < numWorkers := by
      rcases Nat.eq_zero_or_pos numWorkers with h0 | h0
      · subst h0
        cases hw
        rcases hacc with rfl | ⟨k, hg⟩
        · cases hlen
        · cases hg
      · exact h0
    have hwr : w.Reachable := .new hpos hw
    have hw' : w'.Reachable ∧
        ∀ (j : Nat) (c' : LSContext), w'.contexts[j]? = some c' → c'.refCnt = 0 := by
      rcases hacc with rfl | ⟨k, hg⟩
      · exact ⟨hwr, fun j c' h => (LSContextPool.new_counters hw h).1⟩
      · refine ⟨hwr.getContextRoundRobin hg, fun j c' h => ?_⟩
        rw [(LSContextPool.getContextRoundRobin_eq_ok hg).2] at h
        obtain ⟨c₀, hc₀, he⟩ := field_of_modify LSContext.refCnt (f := LSContext.hold) (fun _ => rfl) h
        exact he.trans (LSContextPool.new_counters hw hc₀).1
    refine Inv.dispatch ⟨hw'.1, hlen, .new hq, rfl, ?_, fun _ _ => ⟨⟨rfl, rfl, rfl, rfl, rfl⟩, rfl⟩,
      ?_, fun _ => ⟨.refl, rfl⟩, ?_, ?_, ?_⟩ h
    · intro _ _ h; cases h
    · intro j c' h
      rw [hw'.2 j c' h]
      simp [Held.heldBy]
    · intro _ _; simp [strandPoolNew]
    · intro _ _ _ _ h; cases h
    · intro _ _ _ h; cases h

theorem reachable_inv (hw : pr.WellBehaved) {fresh : P} {s : Server P}
    (h : Reachable pr fresh s) : s.Inv pr := by
  induction h with
  | new hn => exact new_inv pr hn
  | accept _ _ hs ih => exact ih.acceptHandler hs
  | read _ _ _ hr hs ih => exact ih.read hr hs
  | write _ _ _ hwr hs ih => exact ih.write hwr hs
  | close _ _ hc hs ih => exact ih.closeOnce hw hc hs
  | addContext n _ ih => exact ih.addContext n

/-! ### The contexts' holds and the acceptor -/

structure HoldCounts (s : Server P) (a : Option Nat) : Prop where
  holdCnt : ∀ k c, s.workers.contexts[k]? = some c →
    c.holdCnt = (if a = some k then 1 else 0) + (if s.acceptor = some k then 1 else 0)
  pending_lt : ∀ k, a = some k → k < s.workers.contexts.length
  acceptor_lt : ∀ k, s.acceptor = some k → k < s.workers.contexts.length

structure SameAccepts (s s' : Server P) : Prop where
  pending : s'.pending = s.pending
  acceptor : s'.acceptor = s.acceptor
  acceptedCnt : s'.acceptedCnt = s.acceptedCnt
  length : s.workers.contexts.length ≤ s'.workers.contexts.length
  holdCnt : ∀ j c', s'.workers.contexts[j]? = some c' →
    (∃ c, s.workers.contexts[j]? = some c ∧ c'.holdCnt = c.holdCnt) ∨
      (s.workers.contexts.length ≤ j ∧ c'.holdCnt = 0)

/-- The acceptor of `AcceptState` a server runs. -/
def toAccept (s : Server P) : AcceptState :=
  ⟨fun k => (s.workers.contexts[k]?.map LSContext.holdCnt).getD 0 -
    (if s.acceptor = some k then 1 else 0), false, some s.pending, s.acceptedCnt⟩

section Holds

variable {pr} {s : Server P}

theorem SameAccepts.holdCounts {s' : Server P} (he : SameAccepts s s') {a : Option Nat}
    (hh : HoldCounts s a) : HoldCounts s' a where
  holdCnt j c' hc := by
    rw [he.acceptor]
    rcases he.holdCnt j c' hc with ⟨c, hc, e⟩ | ⟨hj, e⟩
    · exact e.trans (hh.holdCnt j c hc)
    · have h1 : a ≠ some j := fun e => by have := hh.pending_lt j e; omega
      have h2 : s.acceptor ≠ some j := fun e => by have := hh.acceptor_lt j e; omega
      simp [e, h1, h2]
  pending_lt k e := Nat.lt_of_lt_of_le (hh.pending_lt k e) he.length
  acceptor_lt k e := Nat.lt_of_lt_of_le (hh.acceptor_lt k (he.acceptor ▸ e)) he.length

theorem sameAccepts_modify {f : LSContext → LSContext} (hf : ∀ c, (f c).holdCnt = c.holdCnt)
    (k : Nat) : SameAccepts s (s.onContext f k) :=
  ⟨rfl, rfl, rfl, by simp [onContext], fun _ _ h => by
    obtain ⟨c, hc, rfl⟩ := LSContextPool.getElem?_modify_eq_some h
    exact .inl ⟨c, hc, by split <;> simp [hf]⟩⟩

theorem sameAccepts_addContext (n : Nat) :
    SameAccepts s { s with workers := (s.workers.addContext n).1 } :=
  ⟨rfl, rfl, rfl, LSContextPool.length_le_addContext s.workers n, fun _ _ h =>
    (LSContextPool.addContext_getElem? _ n h).imp (fun ⟨c, hc, _, e, _⟩ => ⟨c, hc, e⟩)
      fun ⟨hj, _, e⟩ => ⟨hj, e⟩⟩

theorem sameAccepts_of_workers {s' : Server P} (hw : s'.workers = s.workers)
    (hp : s'.pending = s.pending) (ha : s'.acceptor = s.acceptor)
    (hc : s'.acceptedCnt = s.acceptedCnt) : SameAccepts s s' :=
  ⟨hp, ha, hc, by rw [hw], fun _ c' h => .inl ⟨c', by rw [← hw]; exact h, rfl⟩⟩

theorem SameAccepts.trans {s₂ s₃ : Server P} (h₁ : SameAccepts s s₂) (h₂ : SameAccepts s₂ s₃) :
    SameAccepts s s₃ where
  pending := h₂.pending.trans h₁.pending
  acceptor := h₂.acceptor.trans h₁.acceptor
  acceptedCnt := h₂.acceptedCnt.trans h₁.acceptedCnt
  length := h₁.length.trans h₂.length
  holdCnt j c₃ h := by
    rcases h₂.holdCnt j c₃ h with ⟨c₂, hc₂, e₂⟩ | ⟨hj, e₂⟩
    · rcases h₁.holdCnt j c₂ hc₂ with ⟨c₁, hc₁, e₁⟩ | ⟨hj, e₁⟩
      · exact .inl ⟨c₁, hc₁, e₂.trans e₁⟩
      · exact .inr ⟨hj, e₂.trans e₁⟩
    · exact .inr ⟨h₁.length.trans hj, e₂⟩

theorem sameAccepts_finalize {s' : Server P} {i : Nat} (h : s.finalize i = .ok s') :
    SameAccepts s s' := by
  unfold finalize at h
  split at h <;> cases h
  all_goals first
    | exact sameAccepts_of_workers rfl rfl rfl rfl
    | refine SameAccepts.trans ?_ (sameAccepts_modify (f := LSContext.deref) (fun _ => rfl) _)
      exact sameAccepts_of_workers rfl rfl rfl rfl

theorem sameAccepts_closeOnce {s' : Server P} {i : Nat} (h : s.closeOnce pr i = .ok s') :
    SameAccepts s s' := by
  unfold Server.closeOnce at h
  dsimp only at h
  split at h
  · refine SameAccepts.trans ?_ (sameAccepts_finalize h)
    exact sameAccepts_of_workers rfl rfl rfl rfl
  · cases h; exact sameAccepts_of_workers rfl rfl rfl rfl

theorem HoldCounts.of_workers {s' : Server P} {a : Option Nat} (hh : HoldCounts s a)
    (hw : s'.workers.contexts = s.workers.contexts) (ha : s'.acceptor = s.acceptor) :
    HoldCounts s' a :=
  ⟨fun j c hc => ha ▸ hh.holdCnt j c (hw ▸ hc), fun k e => hw ▸ hh.pending_lt k e,
    fun k e => hw ▸ hh.acceptor_lt k (ha ▸ e)⟩

theorem HoldCounts.unhold {k : Nat} (hh : HoldCounts s (some k)) :
    HoldCounts (s.onContext LSContext.unhold k) none where
  holdCnt j c' hc := by
    obtain ⟨c, hc₀, rfl⟩ := LSContextPool.getElem?_modify_eq_some hc
    have := hh.holdCnt j c hc₀
    by_cases e : k = j
    · subst e; simp [onContext, LSContext.unhold, this]
    · simpa [onContext, e] using this
  pending_lt _ e := by cases e
  acceptor_lt k e := by simpa [onContext] using hh.acceptor_lt k e

theorem HoldCounts.dispatch (hh : HoldCounts s none) {s' : Server P} (h : s.dispatch = .ok s') :
    HoldCounts s' (some s'.pending) := by
  obtain ⟨k, w, -, hk, hw, rfl⟩ := dispatch_eq h
  refine ⟨fun j c' hc => ?_, fun j e => ?_, fun j e => ?_⟩
  · dsimp only at hc ⊢
    rw [hw] at hc
    obtain ⟨c, hc₀, rfl⟩ := LSContextPool.getElem?_modify_eq_some hc
    have := hh.holdCnt j c hc₀
    by_cases e : k = j
    · subst e; simp [LSContext.hold, this, Nat.add_comm]
    · simpa [e] using this
  · obtain rfl := Option.some.inj e
    simpa [hw] using hk
  · simpa [hw] using hh.acceptor_lt j e

theorem HoldCounts.mount {k : Nat} (hh : HoldCounts s (some k)) :
    HoldCounts ((s.onContext LSContext.ref k).onContext LSContext.unhold k) none :=
  ((sameAccepts_modify (f := LSContext.ref) (fun _ => rfl) k).holdCounts hh).unhold

theorem HoldCounts.acceptHandler (hh : HoldCounts s (some s.pending)) {error : Bool}
    {s' : Server P} (h : s.acceptHandler pr error = .ok s') : HoldCounts s' (some s'.pending) := by
  obtain ⟨s₁, hd, ⟨rfl, -⟩ | ⟨i, hp, s₃, -, -, hs, rfl⟩⟩ := acceptHandler_eq h
  · exact hh.unhold.dispatch hd
  · obtain ⟨r, sp, c, -, -, -, rfl⟩ := start_eq hs
    refine HoldCounts.dispatch ?_ hd
    exact hh.mount.of_workers rfl rfl

theorem acceptHandler_acceptedCnt {error : Bool} {s' : Server P}
    (h : s.acceptHandler pr error = .ok s') :
    s'.acceptedCnt =
      if !error && (s.pool.borrow s.pending ()).1.isSome then s.acceptedCnt + 1 else s.acceptedCnt := by
  obtain ⟨s₁, hd, ⟨rfl, he⟩ | ⟨i, hp, s₃, rfl, hb, hs, rfl⟩⟩ := acceptHandler_eq h
  · obtain ⟨k, w, -, -, -, rfl⟩ := dispatch_eq hd
    rcases he with rfl | hn
    · rfl
    · simp [hn]; rfl
  · obtain ⟨k, w, -, -, -, rfl⟩ := dispatch_eq hd
    obtain ⟨r, sp, c, -, -, -, rfl⟩ := start_eq hs
    simp [hb]

theorem HoldCounts.toAccept_eq (hh : HoldCounts s (some s.pending)) :
    s.toAccept = ⟨Function.update (fun _ => 0) s.pending 1, false, some s.pending, s.acceptedCnt⟩ := by
  unfold toAccept
  congr 1
  funext k
  cases hk : s.workers.contexts[k]? with
  | none =>
    have hl : s.workers.contexts.length ≤ k := List.getElem?_eq_none_iff.1 hk
    have h1 : s.pending ≠ k := fun e => by have := hh.pending_lt k (by rw [e]); omega
    have h2 : s.acceptor ≠ some k := fun e => by have := hh.acceptor_lt k e; omega
    simp [h2, Function.update_apply, Ne.symm h1]
  | some c =>
    rw [Option.map_some', Option.getD_some, hh.holdCnt k c hk]
    by_cases e : s.pending = k
    · subst e; simp
    · simp [e, Function.update_apply, Ne.symm e]

theorem SameAccepts.toAccept_eq {s' : Server P} (he : SameAccepts s s')
    (hh : HoldCounts s (some s.pending)) : s'.toAccept = s.toAccept := by
  have hh' : HoldCounts s' (some s'.pending) := by rw [he.pending]; exact he.holdCounts hh
  rw [hh'.toAccept_eq, hh.toAccept_eq, he.pending, he.acceptedCnt]

theorem HoldCounts.toAccept_acceptHandler (hh : HoldCounts s (some s.pending)) {error : Bool}
    {s' : Server P} (h : s.acceptHandler pr error = .ok s') :
    s.toAccept.acceptHandler error (s.pool.borrow s.pending ()).1.isSome s'.pending =
      some s'.toAccept := by
  rw [(hh.acceptHandler h).toAccept_eq, acceptHandler_acceptedCnt h, hh.toAccept_eq]
  exact AcceptState.acceptHandler_of_one _ _ _ _ _

theorem toAccept_receiveEventCb {i : Nat} {res : Option Bytes} {s' : Server P}
    (h : s.receiveEventCb pr i res = .ok s') : s'.toAccept = s.toAccept := by
  obtain ⟨c, -, rfl⟩ := Outcome.map_eq_ok h
  rfl

theorem toAccept_sendEventCb {i : Nat} {ok : Bool} {s' : Server P}
    (h : s.sendEventCb pr i ok = .ok s') : s'.toAccept = s.toAccept := by
  obtain ⟨c, -, rfl⟩ := Outcome.map_eq_ok h
  rfl

end Holds

/-! ### Runs -/

theorem holds_new {fresh : P} {numWorkers maxNumWorkers numThreadsPerWorker maxSessionPoolSize : Nat}
    {eagerSessionPool separateAcceptorThread : Bool} {s : Server P}
    (h : Server.new fresh numWorkers maxNumWorkers numThreadsPerWorker maxSessionPoolSize
      eagerSessionPool separateAcceptorThread = .ok s) :
    HoldCounts s (some s.pending) ∧ s.acceptedCnt = 0 := by
  unfold Server.new at h
  split at h
  · cases h
  · rename_i w hw
    obtain ⟨q, -, h⟩ := Outcome.bind_eq_ok h
    obtain ⟨⟨acc, w'⟩, ha, h⟩ := Outcome.bind_eq_ok h
    refine ⟨HoldCounts.dispatch ?_ h, by obtain ⟨k, w₂, -, -, -, rfl⟩ := dispatch_eq h; rfl⟩
    split at ha
    · cases ha
      exact ⟨fun j c hc => by simp [(LSContextPool.new_counters hw hc).2], (fun _ e => nomatch e),
        fun _ e => nomatch e⟩
    · obtain ⟨⟨k, w₁⟩, hg, he⟩ := Outcome.map_eq_ok ha
      cases he
      obtain ⟨hk, hw₁⟩ := LSContextPool.getContextRoundRobin_eq_ok hg
      refine ⟨fun j c' hc => ?_, (fun _ e => nomatch e), fun j e => ?_⟩
      · dsimp only at hc ⊢
        rw [hw₁] at hc
        obtain ⟨c, hc₀, rfl⟩ := LSContextPool.getElem?_modify_eq_some hc
        have := (LSContextPool.new_counters hw hc₀).2
        by_cases e : k = j
        · subst e; simp [LSContext.hold, this]
        · simp [e, this]
      · obtain rfl := Option.some.inj e
        have hl : w₁.contexts.length = w.contexts.length := by
          rw [hw₁]; exact List.length_modify _ _ _
        show k < w₁.contexts.length
        rw [hl]; exact hk

theorem holds_reachable {fresh : P} {s : Server P} (h : Reachable pr fresh s) :
    HoldCounts s (some s.pending) := by
  induction h with
  | new hn => exact (holds_new hn).1
  | accept _ _ hs ih => exact ih.acceptHandler hs
  | read _ _ _ _ hs ih =>
    obtain ⟨c, -, rfl⟩ := Outcome.map_eq_ok hs
    exact ih.of_workers rfl rfl
  | write _ _ _ _ hs ih =>
    obtain ⟨c, -, rfl⟩ := Outcome.map_eq_ok hs
    exact ih.of_workers rfl rfl
  | close _ _ _ hs ih =>
    have he := sameAccepts_closeOnce hs
    rw [he.pending]
    exact he.holdCounts ih
  | addContext n _ ih => exact (sameAccepts_addContext n).holdCounts ih

/-! ### Over every run -/

section Safety

variable {pr}

/-- A session `pool_` has lent is mounted on its context and runs a cycle. -/
theorem lent_session_mounted (hw : pr.WellBehaved) {fresh : P} {s : Server P}
    (h : Reachable pr fresh s) (i : Nat) :
    (∀ k, s.pool.holder i = some k → k < s.workers.contexts.length ∧
      (s.slots i).lscontext = some k ∧ Cycle.Reachable pr (s.slots i).cycle ∧
      (s.slots i).cycle.reads + (s.slots i).cycle.writes + (s.slots i).cycle.closes = 1 ∧
      (s.slots i).cycle.finalizes = 0) ∧
    (s.pool.holder i = none → (s.slots i).strand = none ∧
      (s.slots i).cycle.reads = 0 ∧ (s.slots i).cycle.writes = 0 ∧ (s.slots i).cycle.closes = 0 ∧
      Cycle.sessionStart pr (s.slots i).cycle.setup = Cycle.begin pr (s.slots i).cycle.proto) := by
  have hi := reachable_inv pr hw h
  refine ⟨fun k hh => ?_, fun hh => ?_⟩
  · obtain ⟨hk, hl, hr, hf⟩ := hi.lent i k hh
    have := (Cycle.reachable_inv hw hr).one
    exact ⟨hk, hl, hr, by omega, hf⟩
  · obtain ⟨hid, hs⟩ := hi.idle i hh
    exact ⟨hs, hid.reads, hid.writes, hid.closes, hid.sessionStart_setup⟩

theorem lent_session_mounted_first_accept : ∃ s : Server HttpSession,
    Reachable (httpProtocol (fun _ => ⟨[], -1⟩) (fun _ => 0)) HttpSession.init s ∧
      s.pool.holder 0 = some 0 ∧ 0 < s.workers.contexts.length ∧ (s.slots 0).lscontext = some 0 ∧
      Cycle.Reachable (httpProtocol (fun _ => ⟨[], -1⟩) (fun _ => 0)) (s.slots 0).cycle ∧
      (s.slots 0).cycle.reads + (s.slots 0).cycle.writes + (s.slots 0).cycle.closes = 1 ∧
      (s.slots 0).cycle.finalizes = 0 := by
  have h₀ := @Reachable.new HttpSession (httpProtocol (fun _ => ⟨[], -1⟩) (fun _ => 0))
    HttpSession.init _ 1 1 2 1 false false rfl
  have h₁ := Reachable.accept false h₀ rfl
  exact ⟨_, h₁, rfl, (lent_session_mounted (http_wellBehaved _ _) h₁ 0).1 0 rfl⟩

/-- `ref_cnt_` of each worker context counts the sessions lent for it. -/
theorem ref_cnt_counts_lent_sessions (hw : pr.WellBehaved) {fresh : P} {s : Server P}
    (h : Reachable pr fresh s) (k : Nat) (c : LSContext) (hc : s.workers.contexts[k]? = some c) :
    c.refCnt = s.pool.heldBy k ∧ (0 < c.refCnt ↔ ∃ i, s.pool.holder i = some k) := by
  have hi := reachable_inv pr hw h
  rw [hi.refCnt k c hc]
  exact ⟨rfl, (Held.reachable_inv hi.pool).heldBy_pos_iff k⟩

theorem ref_cnt_counts_lent_sessions_first_accept : ∃ (s : Server HttpSession) (c : LSContext),
    Reachable (httpProtocol (fun _ => ⟨[], -1⟩) (fun _ => 0)) HttpSession.init s ∧
      s.workers.contexts[0]? = some c ∧ c.refCnt = s.pool.heldBy 0 ∧
      (0 < c.refCnt ↔ ∃ i, s.pool.holder i = some 0) := by
  have h₀ := @Reachable.new HttpSession (httpProtocol (fun _ => ⟨[], -1⟩) (fun _ => 0))
    HttpSession.init _ 1 1 2 1 false false rfl
  have h₁ := Reachable.accept false h₀ rfl
  exact ⟨_, _, h₁, rfl, ref_cnt_counts_lent_sessions (http_wellBehaved _ _) h₁ 0 _ rfl⟩

/-- A strand is out exactly while one session lent for its context holds it. -/
theorem strand_held_by_one_session (hw : pr.WellBehaved) {fresh : P} {s : Server P}
    (h : Reachable pr fresh s) (k : Nat) :
    Relation.ReflTransGen Held.Step strandPoolNew (s.strandPools k) ∧
      (∀ j, (s.strandPools k).holder j ≠ none ↔
        ∃ i, s.pool.holder i = some k ∧ (s.slots i).strand = some j) ∧
      (∀ i i' j, s.pool.holder i = some k → s.pool.holder i' = some k →
        (s.slots i).strand = some j → (s.slots i').strand = some j → i = i') ∧
      (∀ i c, s.pool.holder i = some k → s.workers.contexts[k]? = some c →
        ∃ n, c.numThreads = some n ∧ ((s.slots i).strand = none ↔ n = 1)) := by
  have hi := reachable_inv pr hw h
  exact ⟨(hi.strandPools k).1, hi.strand_held k, fun i i' => hi.strand_unique i i' k,
    fun i => hi.threads i k⟩

theorem strand_held_by_one_session_first_accept : ∃ s : Server HttpSession,
    Reachable (httpProtocol (fun _ => ⟨[], -1⟩) (fun _ => 0)) HttpSession.init s ∧
      (s.slots 0).strand = some 0 ∧
      Relation.ReflTransGen Held.Step strandPoolNew (s.strandPools 0) ∧
      (∀ j, (s.strandPools 0).holder j ≠ none ↔
        ∃ i, s.pool.holder i = some 0 ∧ (s.slots i).strand = some j) ∧
      (∀ i i' j, s.pool.holder i = some 0 → s.pool.holder i' = some 0 →
        (s.slots i).strand = some j → (s.slots i').strand = some j → i = i') ∧
      (∀ i c, s.pool.holder i = some 0 → s.workers.contexts[0]? = some c →
        ∃ n, c.numThreads = some n ∧ ((s.slots i).strand = none ↔ n = 1)) := by
  have h₀ := @Reachable.new HttpSession (httpProtocol (fun _ => ⟨[], -1⟩) (fun _ => 0))
    HttpSession.init _ 1 1 2 1 false false rfl
  have h₁ := Reachable.accept false h₀ rfl
  exact ⟨_, h₁, rfl, strand_held_by_one_session (http_wellBehaved _ _) h₁ 0⟩

/-- `hold_cnt_` of each worker context counts its accepts and the acceptor's hold. -/
theorem hold_cnt_counts_accepts {fresh : P} {s : Server P} (h : Reachable pr fresh s) (k : Nat)
    (c : LSContext) (hc : s.workers.contexts[k]? = some c) :
    c.holdCnt = (if s.pending = k then 1 else 0) + (if s.acceptor = some k then 1 else 0) ∧
      (c.removable = 0 ↔ s.pending ≠ k ∧ s.acceptor ≠ some k) := by
  have hh : c.holdCnt = (if s.pending = k then 1 else 0) + (if s.acceptor = some k then 1 else 0) := by
    simpa using (holds_reachable pr h).holdCnt k c hc
  refine ⟨hh, ?_⟩
  unfold LSContext.removable
  rw [hh]
  by_cases h1 : s.pending = k <;> by_cases h2 : s.acceptor = some k <;> simp [h1, h2, ebusy]

theorem hold_cnt_counts_accepts_first_accept : ∃ (s : Server HttpSession) (c : LSContext),
    Reachable (httpProtocol (fun _ => ⟨[], -1⟩) (fun _ => 0)) HttpSession.init s ∧
      s.workers.contexts[0]? = some c ∧ s.pending = 0 ∧ s.acceptor = some 0 ∧
      c.holdCnt = (if s.pending = 0 then 1 else 0) + (if s.acceptor = some 0 then 1 else 0) ∧
      (c.removable = 0 ↔ s.pending ≠ 0 ∧ s.acceptor ≠ some 0) := by
  have h₀ := @Reachable.new HttpSession (httpProtocol (fun _ => ⟨[], -1⟩) (fun _ => 0))
    HttpSession.init _ 1 1 2 1 false false rfl
  have h₁ := Reachable.accept false h₀ rfl
  exact ⟨_, _, h₁, rfl, rfl, rfl, hold_cnt_counts_accepts h₁ 0 _ rfl⟩

end Safety

theorem reachable_toAccept {fresh : P} {s : Server P} (h : Reachable pr fresh s) :
    AcceptState.Reachable s.toAccept := by
  induction h with
  | new hn =>
    rw [(holds_new hn).1.toAccept_eq, (holds_new hn).2, ← AcceptState.init_dispatch]
    exact .start _
  | accept error hs₀ hs ih =>
    exact .accept error _ _ ih ((holds_reachable pr hs₀).toAccept_acceptHandler hs)
  | read _ _ _ _ hs ih => rwa [toAccept_receiveEventCb hs]
  | write _ _ _ _ hs ih => rwa [toAccept_sendEventCb hs]
  | close _ hs₀ _ hs ih => rwa [(sameAccepts_closeOnce hs).toAccept_eq (holds_reachable pr hs₀)]
  | addContext n hs₀ ih => rwa [(sameAccepts_addContext n).toAccept_eq (holds_reachable pr hs₀)]

/-- Read through `toAccept`, each of the server's steps is an acceptor step or none. -/
theorem toAccept_reachable {fresh : P} {s : Server P} (h : Reachable pr fresh s) :
    AcceptState.Reachable s.toAccept ∧
    (∀ (error : Bool) (s' : Server P), s.acceptHandler pr error = .ok s' →
      s.toAccept.acceptHandler error (s.pool.borrow s.pending ()).1.isSome s'.pending =
        some s'.toAccept) ∧
    (∀ (i : Nat) (res : Option Bytes) (s' : Server P), s.receiveEventCb pr i res = .ok s' →
      s'.toAccept = s.toAccept) ∧
    (∀ (i : Nat) (ok : Bool) (s' : Server P), s.sendEventCb pr i ok = .ok s' →
      s'.toAccept = s.toAccept) ∧
    (∀ (i : Nat) (s' : Server P), s.closeOnce pr i = .ok s' → s'.toAccept = s.toAccept) ∧
    (∀ n : Nat, ({ s with workers := (s.workers.addContext n).1 } : Server P).toAccept =
      s.toAccept) :=
  have hh := holds_reachable pr h
  ⟨reachable_toAccept pr h, fun _ _ hs => hh.toAccept_acceptHandler hs,
    fun _ _ _ hs => toAccept_receiveEventCb hs, fun _ _ _ hs => toAccept_sendEventCb hs,
    fun _ _ hs => (sameAccepts_closeOnce hs).toAccept_eq hh,
    fun n => (sameAccepts_addContext n).toAccept_eq hh⟩

theorem toAccept_reachable_first_accept : ∃ s : Server HttpSession,
    Reachable (httpProtocol (fun _ => ⟨[], -1⟩) (fun _ => 0)) HttpSession.init s ∧
      s.acceptedCnt = 1 ∧ AcceptState.Reachable s.toAccept ∧
      (∀ (error : Bool) (s' : Server HttpSession),
        s.acceptHandler (httpProtocol (fun _ => ⟨[], -1⟩) (fun _ => 0)) error = .ok s' →
        s.toAccept.acceptHandler error (s.pool.borrow s.pending ()).1.isSome s'.pending =
          some s'.toAccept) ∧
      (∀ (i : Nat) (res : Option Bytes) (s' : Server HttpSession),
        s.receiveEventCb (httpProtocol (fun _ => ⟨[], -1⟩) (fun _ => 0)) i res = .ok s' →
        s'.toAccept = s.toAccept) ∧
      (∀ (i : Nat) (ok : Bool) (s' : Server HttpSession),
        s.sendEventCb (httpProtocol (fun _ => ⟨[], -1⟩) (fun _ => 0)) i ok = .ok s' →
        s'.toAccept = s.toAccept) ∧
      (∀ (i : Nat) (s' : Server HttpSession),
        s.closeOnce (httpProtocol (fun _ => ⟨[], -1⟩) (fun _ => 0)) i = .ok s' →
        s'.toAccept = s.toAccept) ∧
      (∀ n : Nat, ({ s with workers := (s.workers.addContext n).1 } : Server HttpSession).toAccept =
        s.toAccept) := by
  have h₀ := @Reachable.new HttpSession (httpProtocol (fun _ => ⟨[], -1⟩) (fun _ => 0))
    HttpSession.init _ 1 1 2 1 false false rfl
  have h₁ := Reachable.accept false h₀ rfl
  exact ⟨_, h₁, rfl, toAccept_reachable _ h₁⟩

end Server

end LServer

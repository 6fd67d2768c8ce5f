import LServer.Server.Reuse

/-!
The server with the machine `Http::vm_` its sessions' programs share, over runs interleaving the
handlers of all sessions with their programs' calls. Each session object keeps its identity,
its item in `pool_`, over the connections it serves.
-/

set_option autoImplicit false

namespace LServer

namespace Server

variable {P Q : Type} {f : P → Q} {pr : Protocol P} {qr : Protocol Q}

/-- The server with each session's protocol state read through `f`. -/
def map (f : P → Q) (s : Server P) : Server Q :=
  ⟨s.workers, s.strandPools, s.pool,
    fun i => ⟨(s.slots i).cycle.map f, (s.slots i).lscontext, (s.slots i).strand⟩,
    s.pending, s.acceptor, s.acceptedCnt⟩

section Map
variable {s : Server P}

@[simp] theorem map_pool : (s.map f).pool = s.pool := rfl
@[simp] theorem map_workers : (s.map f).workers = s.workers := rfl
@[simp] theorem map_cycle (i : Nat) : ((s.map f).slots i).cycle = (s.slots i).cycle.map f := rfl
@[simp] theorem map_lscontext (i : Nat) : ((s.map f).slots i).lscontext = (s.slots i).lscontext :=
  rfl
@[simp] theorem map_strand (i : Nat) : ((s.map f).slots i).strand = (s.slots i).strand := rfl

theorem map_onContext (g : LSContext → LSContext) (k : Nat) :
    (s.map f).onContext g k = (s.onContext g k).map f := rfl

theorem map_setSlot (i : Nat) (sl : Slot P) :
    (s.map f).setSlot i ⟨sl.cycle.map f, sl.lscontext, sl.strand⟩ = (s.setSlot i sl).map f := by
  simp only [map, setSlot, mk.injEq, true_and, and_true]
  funext j
  by_cases e : j = i
  · subst e; simp
  · simp [e]

theorem map_setCycle (i : Nat) (c : Cycle P) :
    (s.map f).setCycle i (c.map f) = (s.setCycle i c).map f :=
  map_setSlot i { s.slots i with cycle := c }

theorem map_dispatch : (s.map f).dispatch = map f <$> s.dispatch := by
  simp only [dispatch, Outcome.map_map]
  rfl

theorem map_borrowStrand (k : Nat) :
    (s.map f).borrowStrand k = Prod.map id (map f) <$> s.borrowStrand k := by
  unfold borrowStrand
  simp only [map_workers]
  split
  · rfl
  · split
    · rfl
    · split_ifs <;> rfl

theorem map_setup (i k : Nat) : (s.map f).setup i k = map f <$> s.setup i k := by
  unfold setup
  rw [map_onContext, map_borrowStrand, Outcome.map_map, Outcome.map_map]
  congr 1
  funext r
  exact map_setSlot i ⟨(s.slots i).cycle.setup, some k, r.1⟩

theorem map_finalize (i : Nat) : (s.map f).finalize i = map f <$> s.finalize i := by
  have hb : ∀ (t : Server P) (sl : Slot P),
      { (t.map f).setSlot i ⟨sl.cycle.map f, sl.lscontext, sl.strand⟩ with
          pool := (t.map f).pool.putBack i } =
        { t.setSlot i sl with pool := t.pool.putBack i }.map f :=
    fun t sl => congrArg (fun t' : Server Q => { t' with pool := t.pool.putBack i })
      (map_setSlot i sl)
  unfold finalize
  simp only [map_lscontext, map_strand, map_cycle]
  rcases (s.slots i).lscontext with _ | k <;> rcases (s.slots i).strand with _ | j <;> dsimp only
  · exact congrArg Outcome.ok (hb s ⟨(s.slots i).cycle, none, none⟩)
  · rfl
  · exact congrArg (fun t => Outcome.ok (t.onContext LSContext.deref k))
      (hb s ⟨(s.slots i).cycle, some k, none⟩)
  · exact congrArg (fun t => Outcome.ok (t.onContext LSContext.deref k))
      (hb (s.setStrandPool k ((s.strandPools k).putBack j))
        { (s.setStrandPool k ((s.strandPools k).putBack j)).slots i with strand := none })

theorem map_new (fresh : P) (numWorkers maxNumWorkers numThreadsPerWorker maxSessionPoolSize : Nat)
    (eagerSessionPool separateAcceptorThread : Bool) :
    Server.new (f fresh) numWorkers maxNumWorkers numThreadsPerWorker maxSessionPoolSize
        eagerSessionPool separateAcceptorThread =
      map f <$> Server.new fresh numWorkers maxNumWorkers numThreadsPerWorker maxSessionPoolSize
        eagerSessionPool separateAcceptorThread := by
  unfold Server.new
  split
  · rfl
  · simp only [Outcome.map_bind]
    refine Outcome.bind_congr fun q _ => Outcome.bind_congr fun a _ => ?_
    rw [← map_dispatch]
    rfl

variable (hs : pr.Simulates f qr)
include hs

theorem map_cycleSessionStart (c : Cycle P) :
    Cycle.sessionStart qr (c.map f) = Cycle.map f <$> Cycle.sessionStart pr c := by
  unfold Cycle.sessionStart
  rw [← Cycle.map_asyncReceive hs]
  simp only [Cycle.map, hs.start]

theorem map_sessionStart (i : Nat) : (s.map f).sessionStart qr i = map f <$> s.sessionStart pr i := by
  show (match (s.slots i).lscontext with
    | none => (Outcome.undefined : Outcome (Server Q))
    | some k => (fun c => ((s.map f).setCycle i c).onContext LSContext.unhold k) <$>
        Cycle.sessionStart qr ((s.slots i).cycle.map f)) = _
  unfold sessionStart
  cases (s.slots i).lscontext with
  | none => rfl
  | some k =>
    dsimp only
    rw [map_cycleSessionStart hs, Outcome.map_map, Outcome.map_map]
    congr 1
    funext c
    rw [map_setCycle, map_onContext]

theorem map_receiveEventCb (i : Nat) (res : Option Bytes) :
    (s.map f).receiveEventCb qr i res = map f <$> s.receiveEventCb pr i res := by
  simp only [receiveEventCb, map_cycle, Cycle.map_receiveEventCb hs, Outcome.map_map, map_setCycle]

theorem map_sendEventCb (i : Nat) (ok : Bool) :
    (s.map f).sendEventCb qr i ok = map f <$> s.sendEventCb pr i ok := by
  simp only [sendEventCb, map_cycle, Cycle.map_sendEventCb hs, Outcome.map_map, map_setCycle]

theorem map_closeOnce (i : Nat) : (s.map f).closeOnce qr i = map f <$> s.closeOnce pr i := by
  have hq : ((s.slots i).cycle.map f).outgoingQueue = (s.slots i).cycle.outgoingQueue := rfl
  have hi : ((s.slots i).cycle.map f).invoked = (s.slots i).cycle.invoked := rfl
  simp only [closeOnce, map_cycle, Cycle.map_closeOnce hs, map_setCycle, hq, hi]
  split_ifs
  · exact map_finalize i
  · rfl

theorem map_acceptHandler (error : Bool) :
    (s.map f).acceptHandler qr error = map f <$> s.acceptHandler pr error := by
  have hd : ∀ x : Outcome (Server P), (map f <$> x) >>= dispatch = map f <$> (x >>= dispatch) :=
    fun x => by cases x with | ok t => exact map_dispatch | _ => rfl
  unfold acceptHandler
  dsimp only
  rw [← hd]
  congr 1
  cases error
  · show (match s.pool.borrow s.pending () with
      | (some i, h) => ({ s with pool := h }.map f).setup i s.pending >>= fun t =>
          t.sessionStart qr i >>= fun t => pure { t with acceptedCnt := t.acceptedCnt + 1 }
      | (none, h) => .ok (({ s with pool := h }.map f).onContext LSContext.unhold s.pending)) = _
    cases s.pool.borrow s.pending () with
    | mk o h =>
      cases o with
      | none => rfl
      | some i =>
        simp only [map_setup]
        cases { s with pool := h }.setup i s.pending with
        | ok t =>
          simp only [Outcome.map_ok, Outcome.ok_bind, map_sessionStart hs]
          cases t.sessionStart pr i <;> rfl
        | _ => rfl
  · rfl

end Map

theorem setCycle_self (s : Server P) (i : Nat) : s.setCycle i (s.slots i).cycle = s := by
  show { s with slots := Function.update s.slots i (s.slots i) } = s
  rw [Function.update_eq_self]

theorem finalize_cycle {s s' : Server P} {i : Nat} (h : s.finalize i = .ok s') (j : Nat) :
    (s'.slots j).cycle = (s.slots j).cycle := by
  unfold finalize at h
  split at h <;> cases h <;> by_cases e : j = i <;> simp [setSlot, setStrandPool, onContext, e]

end Server

namespace Cycle

def setCalls (c : Cycle (HttpSession × List VmCall)) (cs : List VmCall) :
    Cycle (HttpSession × List VmCall) :=
  { c with proto := (c.proto.1, cs) }

end Cycle

/-- An HTTP server with the machine calls still to make, and the machine `Http::vm_`. -/
structure ServerRun where
  server : Server (HttpSession × List VmCall)
  vm : LSVirtualMachine

namespace ServerRun

/-- Every run of the server with the machine, interleaving the sessions' calls. -/
inductive Reachable (parser : HttpParser) (past : Nat → UInt8) : ServerRun → Prop
  | new {s : Server (HttpSession × List VmCall)}
      {numWorkers maxNumWorkers numThreadsPerWorker maxSessionPoolSize : Nat}
      {eagerSessionPool separateAcceptorThread : Bool} :
      Server.new (HttpSession.init, []) numWorkers maxNumWorkers numThreadsPerWorker
        maxSessionPoolSize eagerSessionPool separateAcceptorThread = .ok s →
      Reachable parser past ⟨s, .init⟩
  | accept {r : ServerRun} {s' : Server (HttpSession × List VmCall)} (error : Bool) :
      Reachable parser past r →
      r.server.acceptHandler (httpVmProtocol parser past) error = .ok s' →
      Reachable parser past ⟨s', r.vm⟩
  | read {r : ServerRun} {s' : Server (HttpSession × List VmCall)} (i : Nat) (res : Option Bytes) :
      Reachable parser past r → (r.server.slots i).cycle.proto.2 = [] →
      0 < (r.server.slots i).cycle.reads →
      r.server.receiveEventCb (httpVmProtocol parser past) i res = .ok s' →
      Reachable parser past ⟨s', r.vm⟩
  | write {r : ServerRun} {s' : Server (HttpSession × List VmCall)} (i : Nat) (ok : Bool) :
      Reachable parser past r → (r.server.slots i).cycle.proto.2 = [] →
      0 < (r.server.slots i).cycle.writes →
      r.server.sendEventCb (httpVmProtocol parser past) i ok = .ok s' →
      Reachable parser past ⟨s', r.vm⟩
  | close {r : ServerRun} {s' : Server (HttpSession × List VmCall)} (i : Nat) :
      Reachable parser past r → (r.server.slots i).cycle.proto.2 = [] →
      0 < (r.server.slots i).cycle.closes →
      r.server.closeOnce (httpVmProtocol parser past) i = .ok s' →
      Reachable parser past ⟨s', r.vm⟩
  | call {r : ServerRun} (i : Nat) {k : VmCall} {rest : List VmCall} {vm' : LSVirtualMachine} :
      Reachable parser past r → (r.server.slots i).cycle.proto.2 = k :: rest →
      r.vm.apply i k = some vm' →
      Reachable parser past ⟨r.server.setCycle i ((r.server.slots i).cycle.setCalls rest), vm'⟩
  | addContext {r : ServerRun} (n : Nat) : Reachable parser past r →
      Reachable parser past ⟨{ r.server with workers := (r.server.workers.addContext n).1 }, r.vm⟩

variable {parser : HttpParser} {past : Nat → UInt8}

theorem reachable_server {r : ServerRun} (h : Reachable parser past r) :
    Server.Reachable (httpProtocol parser past) HttpSession.init (r.server.map Prod.fst) := by
  have hs := httpVm_simulates parser past
  induction h with
  | new hn =>
    exact .new ((Server.map_new (f := Prod.fst) (HttpSession.init, ([] : List VmCall)) _ _ _ _ _ _).trans
      (by rw [hn]; rfl))
  | accept error _ ha ih => exact ih.accept error (by rw [Server.map_acceptHandler hs, ha]; rfl)
  | read i res _ _ hr hc ih =>
    exact ih.read i res hr (by rw [Server.map_receiveEventCb hs, hc]; rfl)
  | write i ok _ _ hw hc ih => exact ih.write i ok hw (by rw [Server.map_sendEventCb hs, hc]; rfl)
  | close i _ _ hc hs' ih => exact ih.close i hc (by rw [Server.map_closeOnce hs, hs']; rfl)
  | @call r i k rest vm' _ _ _ ih =>
    rwa [← Server.map_setCycle, show ((r.server.slots i).cycle.setCalls rest).map Prod.fst =
      ((r.server.map Prod.fst).slots i).cycle from rfl, Server.setCycle_self]
  | addContext n _ ih => exact ih.addContext n

theorem pooled_unset {r : ServerRun} (h : Reachable parser past r) {i : Nat}
    (hi : r.server.pool.holder i = none) : (r.server.slots i).cycle.proto.1.program.vm = false := by
  rcases (Server.slots_proto (http_wellBehaved parser past) (Q := fun _ => True)
    ⟨fun _ _ _ _ _ => trivial, fun _ _ => trivial, fun _ _ => trivial, fun _ _ => trivial⟩ trivial
    (reachable_server h) i).2 hi with e | ⟨p, -, e⟩ <;>
  exact congrArg (fun x : HttpSession => x.program.vm) e

theorem clean_of_handler {s s' : Server (HttpSession × List VmCall)} {vm : LSVirtualMachine}
    {j : Nat} {c' : Cycle (HttpSession × List VmCall)}
    (hs : ∀ i, (s'.slots i).cycle = if i = j then c' else (s.slots i).cycle)
    (hc : ∀ i, HttpRun.Clean i ⟨(s.slots i).cycle, vm⟩) (hq : (s.slots j).cycle.proto.2 = [])
    (hk : Keeps (s.slots j).cycle.proto c'.proto) (i : Nat) :
    HttpRun.Clean i ⟨(s'.slots i).cycle, vm⟩ := by
  rw [hs]
  split
  · subst i
    exact (hc j).keeps hq hk
  · exact hc i

theorem reachable_clean {r : ServerRun} (h : Reachable parser past r) (i : Nat) :
    HttpRun.Clean i ⟨(r.server.slots i).cycle, r.vm⟩ := by
  induction h generalizing i with
  | new hn =>
    rw [Server.new_slots hn]
    exact fun _ => .inl ⟨rfl, fun n h => by simp [LSVirtualMachine.init, VMResource.fresh] at h⟩
  | @accept r s' error hr ha ih =>
    obtain ⟨s₁, hd, ⟨rfl, -⟩ | ⟨j, hp, s₃, -, hb, hst, rfl⟩⟩ := Server.acceptHandler_eq ha
    · obtain ⟨k, w, -, -, -, rfl⟩ := Server.dispatch_eq hd
      exact ih i
    · obtain ⟨k, w, -, -, -, rfl⟩ := Server.dispatch_eq hd
      obtain ⟨r', sp, c, -, -, hc, rfl⟩ := Server.start_eq hst
      dsimp only
      by_cases e : i = j
      · subst e
        have hfree : r.server.pool.holder i = none :=
          (Held.reachable_inv (Server.reachable_inv _ (http_wellBehaved parser past)
            (reachable_server hr)).pool).tryBorrow_free
            ((congrArg Prod.fst (Held.borrow_pool _ _ _)).symm.trans (congrArg Prod.fst hb))
        have hv := pooled_unset hr hfree
        rw [Function.update_same, Cycle.asyncReceive_eq hc]
        intro _
        simpa [httpVmProtocol, HttpSession.reset, Program.reset, Cycle.setup, hv] using ih i hv
      · simpa only [Function.update_noteq e] using ih i
  | @read r s' j res _ hq _ hs ih =>
    obtain ⟨c', hc', rfl⟩ := Outcome.map_eq_ok hs
    refine clean_of_handler (fun i => Server.setCycle_cycle _ _ _ i) ih hq ?_ i
    rcases Cycle.receiveEventCb_proto hc' with e | ⟨_, _, _, hd⟩
    · exact e ▸ Keeps.refl _
    · exact httpVm_onData_keeps hd
  | @write r s' j ok _ hq _ hs ih =>
    obtain ⟨c', hc', rfl⟩ := Outcome.map_eq_ok hs
    refine clean_of_handler (fun i => Server.setCycle_cycle _ _ _ i) ih hq ?_ i
    rcases Cycle.sendEventCb_proto hc' with e | e
    · exact e ▸ Keeps.refl _
    · exact e ▸ httpVm_onSent_keeps _
  | @close r s' j _ hq _ hs ih =>
    have hcyc : ∀ i, (s'.slots i).cycle = if i = j then
        Cycle.closeOnce (httpVmProtocol parser past) (r.server.slots j).cycle
        else (r.server.slots i).cycle := by
      intro i
      unfold Server.closeOnce at hs
      dsimp only at hs
      split at hs
      · rw [Server.finalize_cycle hs, Server.setCycle_cycle]
      · cases hs
        exact Server.setCycle_cycle _ _ _ _
    refine clean_of_handler hcyc ih hq ?_ i
    rcases @Cycle.closeOnce_proto _ (httpVmProtocol parser past) (r.server.slots j).cycle with e | e
    · exact e ▸ Keeps.refl _
    · exact e ▸ httpVm_onClosed_keeps _
  | @call r j k rest vm' _ hp ha ih =>
    simp only [Server.setCycle_cycle]
    split
    · subst i
      intro hv
      rcases ih j hv with ⟨h, -⟩ | h <;> rw [hp] at h <;> cases h
      cases ha
      exact .inl ⟨rfl, LSVirtualMachine.released_cleanup _ _⟩
    · rename_i hne
      intro hv
      rcases ih i hv with ⟨h₁, h₂⟩ | h
      · exact .inl ⟨h₁, h₂.apply (Ne.symm hne) ha⟩
      · exact .inr h
  | addContext n _ ih => exact ih i

/-- Over every run with the machine, a session with no program set holds nothing once idle. -/
theorem session_released {r : ServerRun} (h : Reachable parser past r) (i : Nat) :
    (r.server.pool.holder i = none → (r.server.slots i).cycle.proto.1.program.vm = false) ∧
    ((r.server.slots i).cycle.proto.1.program.vm = false →
      ((r.server.slots i).cycle.proto.2 = [] → r.vm.Released i) ∧
      ((r.server.slots i).cycle.proto.2 ≠ [] → (r.server.slots i).cycle.proto.2 = [.cleanup])) := by
  refine ⟨pooled_unset h, fun hv => ?_⟩
  rcases reachable_clean h i hv with ⟨hq, hr⟩ | hc
  · exact ⟨fun _ => hr, fun hne => absurd hq hne⟩
  · exact ⟨fun hq => (by rw [hq] at hc; cases hc), fun _ => hc⟩

theorem session_released_after_failed_read :
    ∃ r : ServerRun, Reachable (fun _ => ⟨[], -1⟩) (fun _ => 0) r ∧ r.server.pool.holder 0 = none ∧
      (r.server.pool.holder 0 = none → (r.server.slots 0).cycle.proto.1.program.vm = false) ∧
      ((r.server.slots 0).cycle.proto.1.program.vm = false →
        ((r.server.slots 0).cycle.proto.2 = [] → r.vm.Released 0) ∧
        ((r.server.slots 0).cycle.proto.2 ≠ [] → (r.server.slots 0).cycle.proto.2 = [.cleanup])) := by
  have h₀ := @Reachable.new (fun _ => ⟨[], -1⟩) (fun _ => 0) _ 1 1 2 1 false false rfl
  have h₁ := h₀.accept false rfl
  have h₂ := h₁.read 0 none rfl (by decide) rfl
  have h₃ := h₂.close 0 rfl (by decide) rfl
  exact ⟨_, h₃, rfl, session_released h₃ 0⟩

end ServerRun

end LServer

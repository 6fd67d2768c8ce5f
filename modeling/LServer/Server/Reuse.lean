import LServer.Server.Sessions
import LServer.Session.Restart

set_option autoImplicit false

namespace LServer

/-! ### A property of the protocol's state over the server's runs -/

/-- A property of the protocol's state that the handlers and `start()` keep. -/
structure Protocol.Preserves {P : Type} (pr : Protocol P) (Q : P → Prop) : Prop where
  onData : ∀ p chunk x, Q p → pr.onData p chunk = .ok x → Q x.1
  onSent : ∀ p, Q p → Q (pr.onSent p).1
  onClosed : ∀ p, Q p → Q (pr.onClosed p)
  start : ∀ p, Q p → Q (pr.start p)

namespace Cycle

variable {P : Type} {pr : Protocol P} {Q : P → Prop} (hq : pr.Preserves Q)
include hq

theorem receiveEventCb_preserves {c c' : Cycle P} {res : Option Bytes}
    (h : receiveEventCb pr c res = .ok c') (hc : Q c.proto) : Q c'.proto := by
  rcases receiveEventCb_proto h with e | ⟨chunk, bufs, r, hd⟩
  · rw [e]; exact hc
  · exact hq.onData _ _ _ hc hd

theorem sendEventCb_preserves {c c' : Cycle P} {ok : Bool} (h : sendEventCb pr c ok = .ok c')
    (hc : Q c.proto) : Q c'.proto := by
  rcases sendEventCb_proto h with e | e <;> rw [e]
  · exact hc
  · exact hq.onSent _ hc

theorem closeOnce_preserves (c : Cycle P) (hc : Q c.proto) : Q (closeOnce pr c).proto := by
  rcases @closeOnce_proto P pr c with e | e <;> rw [e]
  · exact hc
  · exact hq.onClosed _ hc

theorem sessionStart_preserves {c c' : Cycle P} (h : sessionStart pr c.setup = .ok c')
    (hc : Q c.proto) : Q c'.proto := by
  rw [asyncReceive_eq h]
  exact hq.start _ hc

end Cycle

namespace Server

variable {P : Type} {pr : Protocol P}

theorem new_slots {fresh : P} {numWorkers maxNumWorkers numThreadsPerWorker maxSessionPoolSize : Nat}
    {eagerSessionPool separateAcceptorThread : Bool} {s : Server P}
    (h : Server.new fresh numWorkers maxNumWorkers numThreadsPerWorker maxSessionPoolSize
      eagerSessionPool separateAcceptorThread = .ok s) :
    s.slots = fun _ => Slot.fresh fresh := by
  unfold Server.new at h
  split at h
  · cases h
  · obtain ⟨q, -, h⟩ := Outcome.bind_eq_ok h
    obtain ⟨a, -, h⟩ := Outcome.bind_eq_ok h
    obtain ⟨k, w, -, -, -, rfl⟩ := dispatch_eq h
    rfl

theorem slots_proto (hw : pr.WellBehaved) {Q : P → Prop} (hq : pr.Preserves Q) {fresh : P}
    (hf : Q fresh) {s : Server P} (h : Reachable pr fresh s) (i : Nat) :
    Q (s.slots i).cycle.proto ∧ (s.pool.holder i = none →
      (s.slots i).cycle.proto = fresh ∨ ∃ p, Q p ∧ (s.slots i).cycle.proto = pr.onClosed p) := by
  induction h with
  | new hn => rw [new_slots hn]; exact ⟨hf, fun _ => .inl rfl⟩
  | @accept s s' error _ hs ih =>
    obtain ⟨s₁, hd, ⟨rfl, -⟩ | ⟨j, hp, s₃, -, hb, hst, rfl⟩⟩ := acceptHandler_eq hs
    · obtain ⟨k, w, -, -, -, rfl⟩ := dispatch_eq hd
      exact ih
    · obtain ⟨k, w, -, -, -, rfl⟩ := dispatch_eq hd
      obtain ⟨r, sp, c, -, -, hc, rfl⟩ := start_eq hst
      have hh : hp.holder = Function.update s.pool.holder j (some s.pending) := by
        rw [← Held.borrow_holder (by rw [hb]), hb]
      dsimp only
      rw [hh]
      by_cases e : i = j
      · subst e
        simp only [Function.update_same, reduceCtorEq, false_imp_iff, and_true]
        exact Cycle.sessionStart_preserves hq hc ih.1
      · simpa only [Function.update_noteq e] using ih
  | @read s s' j res hs₀ hr hs ih =>
    obtain ⟨c', hc', rfl⟩ := Outcome.map_eq_ok hs
    by_cases e : i = j
    · subst e
      have hl : s.pool.holder i ≠ none := fun h0 => by
        have := ((reachable_inv pr hw hs₀).idle i h0).1.reads; omega
      simp only [setCycle_cycle, setCycle_pool, if_pos rfl]
      exact ⟨Cycle.receiveEventCb_preserves hq hc' ih.1, fun h0 => absurd h0 hl⟩
    · simpa [e] using ih
  | @write s s' j ok hs₀ hwr hs ih =>
    obtain ⟨c', hc', rfl⟩ := Outcome.map_eq_ok hs
    by_cases e : i = j
    · subst e
      have hl : s.pool.holder i ≠ none := fun h0 => by
        have := ((reachable_inv pr hw hs₀).idle i h0).1.writes; omega
      simp only [setCycle_cycle, setCycle_pool, if_pos rfl]
      exact ⟨Cycle.sendEventCb_preserves hq hc' ih.1, fun h0 => absurd h0 hl⟩
    · simpa [e] using ih
  | @close s s' j hs₀ hc hs ih =>
    have hi := reachable_inv pr hw hs₀
    have hl : s.pool.holder j ≠ none := fun h0 => by have := (hi.idle j h0).1.closes; omega
    unfold Server.closeOnce at hs
    dsimp only at hs
    split at hs
    · rename_i hqi
      obtain ⟨k, hk⟩ := Option.ne_none_iff_exists'.1 hl
      obtain ⟨-, hlk, -, -⟩ := hi.lent j k hk
      obtain ⟨sp, -, rfl⟩ := finalize_eq (by simpa using hlk) hs
      have hp : (Cycle.closeOnce pr (s.slots j).cycle).proto = pr.onClosed (s.slots j).cycle.proto := by
        simp only [Cycle.closeOnce, Nat.sub_eq, hqi.1, hqi.2, ne_eq, not_true_eq_false, if_false,
          Bool.false_eq_true]
        rfl
      dsimp only
      by_cases e : i = j
      · subst e
        simp only [Function.update_same, setCycle_cycle, if_pos rfl, if_true, hp]
        exact ⟨hq.onClosed _ ih.1, fun _ => .inr ⟨_, ih.1, rfl⟩⟩
      · rw [Held.putBack_holder_of_ne _ e, Function.update_noteq e]
        simpa [e] using ih
    · cases hs
      by_cases e : i = j
      · subst e
        simp only [setCycle_cycle, setCycle_pool, if_pos rfl]
        exact ⟨Cycle.closeOnce_preserves hq _ ih.1, fun h0 => absurd h0 hl⟩
      · simpa [e] using ih
  | addContext n _ ih => exact ih

/-! ### How many sessions are lent -/

/-- Only the first `N` sessions of a pool of `N` are ever lent. -/
theorem lent_within_pool_size (hw : pr.WellBehaved) {fresh : P} {s : Server P}
    (h : Reachable pr fresh s) (h0 : 0 < s.pool.pool.maxSize) :
    (∀ i, s.pool.holder i ≠ none → i < s.pool.pool.maxSize) ∧
    ((∀ i < s.pool.pool.maxSize, s.pool.holder i ≠ none) →
      s.acceptHandler pr false = (s.onContext LSContext.unhold s.pending).dispatch) := by
  have hp := Held.reachable_inv (reachable_inv pr hw h).pool
  have hmade : ∀ i, s.pool.holder i ≠ none → i < s.pool.pool.made.length := fun i hi =>
    Nat.lt_of_not_le fun hle => hi (hp.unmade i hle)
  have hb := hp.bounded h0
  refine ⟨fun i hi => lt_of_lt_of_le (hmade i hi) hb, fun hall => ?_⟩
  have hm : s.pool.pool.made.length = s.pool.pool.maxSize := by
    have := hmade _ (hall (s.pool.pool.maxSize - 1) (by omega))
    omega
  have hpool : s.pool.pool.pool = [] := List.eq_nil_iff_forall_not_mem.2 fun j hj => by
    obtain ⟨hj, hn⟩ := (hp.free_iff j).1 hj
    exact hall j (hm ▸ hj) hn
  have hin := hp.inFlight
  rw [hpool, List.length_nil, Nat.add_zero, hm] at hin
  have hnone : s.pool.borrow s.pending () = (none, s.pool) := by
    simp only [Held.borrow, Pool.borrow, Pool.tryBorrow_of_full hpool (by omega)]
  simp only [acceptHandler, Bool.false_eq_true, if_false, hnone, Outcome.ok_bind]

theorem lent_within_pool_size_first_accept : ∃ s : Server HttpSession,
    Reachable (httpProtocol (fun _ => ⟨[], -1⟩) (fun _ => 0)) HttpSession.init s ∧
      0 < s.pool.pool.maxSize ∧
      (∀ i, s.pool.holder i ≠ none → i < s.pool.pool.maxSize) ∧
      ((∀ i < s.pool.pool.maxSize, s.pool.holder i ≠ none) →
        s.acceptHandler (httpProtocol (fun _ => ⟨[], -1⟩) (fun _ => 0)) false =
          (s.onContext LSContext.unhold s.pending).dispatch) := by
  have h₀ := @Reachable.new HttpSession (httpProtocol (fun _ => ⟨[], -1⟩) (fun _ => 0))
    HttpSession.init _ 1 1 2 1 false false rfl
  have h₁ := Reachable.accept false h₀ rfl
  exact ⟨_, h₁, by decide, lent_within_pool_size (http_wellBehaved _ _) h₁ (by decide)⟩

/-! ### Dropped connections give their sessions back -/

/-- One handler that runs when connections drop. -/
inductive Drop (pr : Protocol P) : Server P → Server P → Prop
  | read {s s' : Server P} (i : Nat) : 0 < (s.slots i).cycle.reads →
      s.receiveEventCb pr i none = .ok s' → Drop pr s s'
  | write {s s' : Server P} (i : Nat) : 0 < (s.slots i).cycle.writes →
      s.sendEventCb pr i false = .ok s' → Drop pr s s'
  | close {s s' : Server P} (i : Nat) : 0 < (s.slots i).cycle.closes →
      s.closeOnce pr i = .ok s' → Drop pr s s'

theorem Reachable.drops {fresh : P} {s s' : Server P} (h : Reachable pr fresh s)
    (hd : Relation.ReflTransGen (Drop pr) s s') : Reachable pr fresh s' := by
  induction hd with
  | refl => exact h
  | tail _ hd ih =>
    cases hd with
    | read i hr hs => exact .read i none ih hr hs
    | write i hw hs => exact .write i false ih hw hs
    | close i hc hs => exact .close i ih hc hs

theorem receiveEventCb_none (s : Server P) (i : Nat) :
    s.receiveEventCb pr i none = .ok (s.setCycle i
      (Cycle.asyncClose { (s.slots i).cycle with reads := (s.slots i).cycle.reads - 1 })) := rfl

theorem sendEventCb_false (s : Server P) (i : Nat) :
    s.sendEventCb pr i false = .ok (s.setCycle i (Cycle.asyncClose
      { (s.slots i).cycle with writes := (s.slots i).cycle.writes - 1, outgoingQueue := [] })) :=
  rfl

theorem finalize_pool {s : Server P} {i k : Nat} (hk : (s.slots i).lscontext = some k) :
    ∃ s', s.finalize i = .ok s' ∧ s'.pool = s.pool.putBack i := by
  unfold finalize
  rw [hk]
  cases (s.slots i).strand <;> exact ⟨_, rfl, rfl⟩

theorem Inv.closeOnce_pool (hw : pr.WellBehaved) {s : Server P} (hi : s.Inv pr) {i k : Nat}
    (hh : s.pool.holder i = some k) (hc : 0 < (s.slots i).cycle.closes) :
    ∃ s', s.closeOnce pr i = .ok s' ∧ s'.pool = s.pool.putBack i := by
  obtain ⟨-, hk, hr, -⟩ := hi.lent i k hh
  obtain ⟨hq, hinv, -⟩ := @Cycle.Inv.closeOnce_eq P pr _ (Cycle.reachable_inv hw hr) hc
  unfold Server.closeOnce
  rw [if_pos ⟨hq, hinv⟩]
  exact finalize_pool (by rwa [setCycle_lscontext])

theorem Inv.drop_session (hw : pr.WellBehaved) {s : Server P} (hi : s.Inv pr) {i k : Nat}
    (hh : s.pool.holder i = some k) :
    ∃ s', Relation.ReflTransGen (Drop pr) s s' ∧ s'.pool = s.pool.putBack i := by
  have h1 := (Cycle.reachable_inv hw (hi.lent i k hh).2.2.1).one
  have hf := (hi.lent i k hh).2.2.2
  have close : ∀ s₁ : Server P, s₁.Inv pr → s₁.pool = s.pool → 0 < (s₁.slots i).cycle.closes →
      ∃ s', Relation.ReflTransGen (Drop pr) s₁ s' ∧ s'.pool = s.pool.putBack i :=
    fun s₁ hi₁ hp hc => by
      obtain ⟨s', hs, hp'⟩ := hi₁.closeOnce_pool hw (by rwa [hp]) hc
      exact ⟨s', .single (.close i hc hs), by rw [hp', hp]⟩
  rcases Nat.eq_zero_or_pos (s.slots i).cycle.reads with hr | hr
  · rcases Nat.eq_zero_or_pos (s.slots i).cycle.writes with hw0 | hw0
    · exact close s hi rfl (by omega)
    · obtain ⟨s', hd, hp⟩ := close _ (hi.write hw0 (sendEventCb_false s i)) rfl
        (by simp [Cycle.asyncClose])
      exact ⟨s', .head (.write i hw0 (sendEventCb_false s i)) hd, hp⟩
  · obtain ⟨s', hd, hp⟩ := close _ (hi.read hr (receiveEventCb_none s i)) rfl
      (by simp [Cycle.asyncClose])
    exact ⟨s', .head (.read i hr (receiveEventCb_none s i)) hd, hp⟩

/-- When the connections drop, every session object goes back to `pool_`. -/
theorem dropped_sessions_return (hw : pr.WellBehaved) {fresh : P} {s : Server P}
    (h : Reachable pr fresh s) :
    ∃ s', Relation.ReflTransGen (Drop pr) s s' ∧ Reachable pr fresh s' ∧
      ∀ i, s'.pool.holder i = none := by
  obtain ⟨n, hn⟩ : ∃ n, s.pool.pool.numItemsInFlight = n := ⟨_, rfl⟩
  induction n generalizing s with
  | zero =>
    have hp := Held.reachable_inv (reachable_inv pr hw h).pool
    exact ⟨s, .refl, h, fun i => by_contra fun hh => absurd (hp.inFlight_pos hh) (by omega)⟩
  | succ n ih =>
    have hi := reachable_inv pr hw h
    have hp := Held.reachable_inv hi.pool
    obtain ⟨i, hh⟩ := hp.exists_held (by omega)
    obtain ⟨k, hk⟩ := Option.ne_none_iff_exists'.1 hh
    obtain ⟨s₁, hd, hp₁⟩ := hi.drop_session hw hk
    have hc : s.pool.pool.callbackActive = false := by rw [hp.waiting, hi.no_waiter]; rfl
    obtain ⟨s₂, hd₂, h₂, hall⟩ := ih (h.drops hd)
      (by rw [hp₁, Held.putBack_of_free hc]; dsimp only; omega)
    exact ⟨s₂, hd.trans hd₂, h₂, hall⟩

theorem dropped_sessions_return_first_accept : ∃ s : Server HttpSession,
    Reachable (httpProtocol (fun _ => ⟨[], -1⟩) (fun _ => 0)) HttpSession.init s ∧
      s.pool.holder 0 ≠ none ∧
      ∃ s', Relation.ReflTransGen (Drop (httpProtocol (fun _ => ⟨[], -1⟩) (fun _ => 0))) s s' ∧
        Reachable (httpProtocol (fun _ => ⟨[], -1⟩) (fun _ => 0)) HttpSession.init s' ∧
        ∀ i, s'.pool.holder i = none := by
  have h₀ := @Reachable.new HttpSession (httpProtocol (fun _ => ⟨[], -1⟩) (fun _ => 0))
    HttpSession.init _ 1 1 2 1 false false rfl
  have h₁ := Reachable.accept false h₀ rfl
  exact ⟨_, h₁, by decide, dropped_sessions_return (http_wellBehaved _ _) h₁⟩

end Server

/-! ### A session lent again runs as a new one -/

theorem httpVm_preserves_queue (parser : HttpParser) (past : Nat → UInt8) :
    (httpVmProtocol parser past).Preserves fun p => p.1.outgoingQueue = [] where
  onData _ _ _ _ h := by
    obtain ⟨_, -, rfl⟩ := Outcome.map_eq_ok h
    rfl
  onSent _ _ := rfl
  onClosed _ h := h
  start _ h := h

namespace Server

/-- A session from `pool_`, lent and started again, runs as the one `Http()` builds. -/
theorem pooled_session_runs_as_new {parser : HttpParser} {past : Nat → UInt8}
    {s : Server (HttpSession × List VmCall)}
    (h : Reachable (httpVmProtocol parser past) (HttpSession.init, []) s) {i : Nat}
    (hi : s.pool.holder i = none) :
    ∃ c₁ c₀, Cycle.sessionStart (httpVmProtocol parser past) (s.slots i).cycle.setup = .ok c₁ ∧
      Cycle.begin (httpVmProtocol parser past) (HttpSession.init, []) = .ok c₀ ∧
      ∀ es : List Completion, Cycle.validRun (httpVmProtocol parser past) c₀ es = true →
        Cycle.map (Prod.map HttpSession.liveView id) <$>
            Cycle.completeAll (httpVmProtocol parser past) { c₁ with proto := (c₁.proto.1, []) } es =
          Cycle.map (Prod.map HttpSession.liveView id) <$>
            Cycle.completeAll (httpVmProtocol parser past) c₀ es := by
  have hw := httpVm_wellBehaved parser past
  rw [((reachable_inv _ hw h).idle i hi).1.sessionStart_setup, httpVm_begin (s.slots i).cycle.proto]
  refine ⟨_, _, rfl, httpVm_begin _, fun es hv => ?_⟩
  rcases (slots_proto hw (httpVm_preserves_queue parser past) rfl h i).2 hi with e | ⟨p, hq, e⟩
  · rw [e]
    rfl
  · rw [e]
    exact (restart_twin hq).completeAll_map hv

theorem pooled_session_runs_as_new_after_failed_read :
    ∃ s : Server (HttpSession × List VmCall),
      Reachable (httpVmProtocol (fun _ => ⟨[], -1⟩) (fun _ => 0)) (HttpSession.init, []) s ∧
      s.pool.holder 0 = none ∧
      ∃ c₁ c₀, Cycle.sessionStart (httpVmProtocol (fun _ => ⟨[], -1⟩) (fun _ => 0))
          (s.slots 0).cycle.setup = .ok c₁ ∧
        Cycle.begin (httpVmProtocol (fun _ => ⟨[], -1⟩) (fun _ => 0)) (HttpSession.init, []) =
          .ok c₀ ∧
        ∀ es : List Completion,
          Cycle.validRun (httpVmProtocol (fun _ => ⟨[], -1⟩) (fun _ => 0)) c₀ es = true →
          Cycle.map (Prod.map HttpSession.liveView id) <$>
              Cycle.completeAll (httpVmProtocol (fun _ => ⟨[], -1⟩) (fun _ => 0))
                { c₁ with proto := (c₁.proto.1, []) } es =
            Cycle.map (Prod.map HttpSession.liveView id) <$>
              Cycle.completeAll (httpVmProtocol (fun _ => ⟨[], -1⟩) (fun _ => 0)) c₀ es := by
  have h₀ := @Reachable.new _ (httpVmProtocol (fun _ => ⟨[], -1⟩) (fun _ => 0))
    (HttpSession.init, []) _ 1 1 2 1 false false rfl
  have h₁ := Reachable.accept false h₀ rfl
  have h₂ := Reachable.read 0 none h₁ (by decide) rfl
  have h₃ := Reachable.close 0 h₂ (by decide) rfl
  exact ⟨_, h₃, rfl, pooled_session_runs_as_new h₃ rfl⟩

end Server

end LServer

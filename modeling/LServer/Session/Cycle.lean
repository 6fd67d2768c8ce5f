import LServer.Http.Session

/-!
The acquire cycle of a `Session<P>` (`session.hpp`) from `setup` to `finalize`, over any
interleaving of its reads, writes and posted `close_once` calls, for a protocol given by its
handlers. For `Http` exactly one of them, or `finalize`, is outstanding (`Cycle.Inv`).
-/

set_option autoImplicit false

namespace LServer

/-- What `Session<P>` calls of its protocol. -/
structure Protocol (P : Type) where
  onData : P → Bytes → Outcome (P × List Bytes × Feedback)
  onSent : P → P × List Bytes × Feedback
  receive : P → Outcome Unit
  onClosed : P → P
  start : P → P

/-- Handlers that send exactly when they leave the session waiting for writes. -/
structure Protocol.WellBehaved {P : Type} (pr : Protocol P) : Prop where
  onData_ret : ∀ p chunk p' bufs r, pr.onData p chunk = .ok (p', bufs, r) →
    ((r = .kContinue ∨ r = .kClose) ↔ bufs = [])
  onSent_ret : ∀ p, (pr.onSent p).2.2 ≠ .kFinished ∧
    (((pr.onSent p).2.2 = .kContinue ∨ (pr.onSent p).2.2 = .kClose) ↔ (pr.onSent p).2.1 = [])

/-- A session in its cycle: the protocol's state, what is outstanding, the queue and flags. -/
structure Cycle (P : Type) where
  proto : P
  reads : Nat
  writes : Nat
  outgoingQueue : List Bytes
  closes : Nat
  prepareForShutdown : Bool
  invoked : Bool
  finalizes : Nat

namespace Cycle

variable {P : Type} (pr : Protocol P)

def asyncReceive (c : Cycle P) : Outcome (Cycle P) :=
  (fun _ => { c with reads := c.reads + 1 }) <$> pr.receive c.proto

def asyncSend (c : Cycle P) : Cycle P := { c with writes := c.writes + 1 }

def send (c : Cycle P) (qb : Bytes) : Cycle P :=
  let idle := c.outgoingQueue.isEmpty
  let c := { c with outgoingQueue := c.outgoingQueue ++ [qb] }
  if idle then c.asyncSend else c

def asyncClose (c : Cycle P) : Cycle P := { c with closes := c.closes + 1 }

def finalize (c : Cycle P) : Cycle P :=
  { c with proto := pr.onClosed c.proto, finalizes := c.finalizes + 1 }

def closeOnce (c : Cycle P) : Cycle P :=
  let c := { c with closes := c.closes - 1 }
  if c.outgoingQueue ≠ [] then { c with prepareForShutdown := true }
  else if c.invoked then c
  else finalize pr { c with invoked := true }

def afterData (c : Cycle P) (bufs : List Bytes) : Feedback → Outcome (Cycle P)
  | .kContinue => asyncReceive pr (bufs.foldl send c)
  | .kClose => .ok (asyncClose (bufs.foldl send c))
  | .kFinished | .kData => .ok (bufs.foldl send c)

def receiveEventCb (c : Cycle P) (res : Option Bytes) : Outcome (Cycle P) :=
  let c := { c with reads := c.reads - 1 }
  match res with
  | none => .ok (asyncClose c)
  | some chunk => do
    let (p, bufs, r) ← pr.onData c.proto chunk
    afterData pr { c with proto := p } bufs r

def afterSent (c : Cycle P) (bufs : List Bytes) : Feedback → Outcome (Cycle P)
  | .kContinue => asyncReceive pr (bufs.foldl send c)
  | .kClose => .ok (asyncClose (bufs.foldl send c))
  | .kData => .ok (bufs.foldl send c)
  | .kFinished => .undefined

def sendEventCb (c : Cycle P) (ok : Bool) : Outcome (Cycle P) :=
  let c := { c with writes := c.writes - 1 }
  if !ok then .ok (asyncClose { c with outgoingQueue := [] })
  else
    let c := { c with outgoingQueue := c.outgoingQueue.tail }
    if c.outgoingQueue ≠ [] then .ok (asyncSend c)
    else do
      let c ← afterSent pr { c with proto := (pr.onSent c.proto).1 } (pr.onSent c.proto).2.1
        (pr.onSent c.proto).2.2
      if c.prepareForShutdown then .ok (asyncClose { c with prepareForShutdown := false })
      else .ok c

def begin (p : P) : Outcome (Cycle P) :=
  asyncReceive pr ⟨pr.start p, 0, 0, [], 0, false, false, 0⟩

/-- The states of one cycle, over every interleaving of the completions outstanding. -/
inductive Reachable : Cycle P → Prop
  | start {p : P} {c : Cycle P} : begin pr p = .ok c → Reachable c
  | read {c c' : Cycle P} (res : Option Bytes) :
      Reachable c → 0 < c.reads → receiveEventCb pr c res = .ok c' → Reachable c'
  | write {c c' : Cycle P} (ok : Bool) :
      Reachable c → 0 < c.writes → sendEventCb pr c ok = .ok c' → Reachable c'
  | close {c : Cycle P} : Reachable c → 0 < c.closes → Reachable (closeOnce pr c)

/-- Exactly one of a read, a write, a posted close and `finalize` is outstanding. -/
structure Inv (c : Cycle P) : Prop where
  one : c.reads + c.writes + c.closes + c.finalizes = 1
  writes_eq : c.writes = if c.outgoingQueue = [] then 0 else 1
  invoked_eq : c.invoked = decide (c.finalizes = 1)
  no_shutdown : c.prepareForShutdown = false

section Steps
variable {pr}

theorem asyncReceive_eq {c c' : Cycle P} (h : asyncReceive pr c = .ok c') :
    c' = { c with reads := c.reads + 1 } := by
  obtain ⟨_, -, he⟩ := Outcome.map_eq_ok h
  exact he.symm

theorem foldl_send (c : Cycle P) (bufs : List Bytes) :
    bufs.foldl send c = { c with
      outgoingQueue := c.outgoingQueue ++ bufs
      writes := if c.outgoingQueue = [] ∧ bufs ≠ [] then c.writes + 1 else c.writes } := by
  induction bufs generalizing c with
  | nil => simp
  | cons b bs ih =>
    rw [List.foldl_cons, ih]
    by_cases hq : c.outgoingQueue = [] <;> simp [send, asyncSend, hq]

structure Quiet (c : Cycle P) : Prop where
  reads : c.reads = 0
  writes : c.writes = 0
  closes : c.closes = 0
  finalizes : c.finalizes = 0
  queue : c.outgoingQueue = []
  invoked : c.invoked = false
  no_shutdown : c.prepareForShutdown = false

theorem Quiet.inv_read {c : Cycle P} (h : Quiet c) : Inv { c with reads := c.reads + 1 } :=
  ⟨by simp [h.reads, h.writes, h.closes, h.finalizes], by simp [h.writes, h.queue],
    by simp [h.invoked, h.finalizes], h.no_shutdown⟩

theorem Quiet.inv_close {c : Cycle P} (h : Quiet c) : Inv (asyncClose c) :=
  ⟨by simp [asyncClose, h.reads, h.writes, h.closes, h.finalizes],
    by simp [asyncClose, h.writes, h.queue], by simp [asyncClose, h.invoked, h.finalizes],
    h.no_shutdown⟩

theorem Quiet.inv_send {c : Cycle P} (h : Quiet c) {bufs : List Bytes} (hb : bufs ≠ []) :
    Inv (bufs.foldl send c) := by
  rw [foldl_send]
  exact ⟨by simp [h.reads, h.writes, h.closes, h.finalizes, h.queue, hb],
    by simp [h.writes, h.queue, hb], by simp [h.invoked, h.finalizes], h.no_shutdown⟩

theorem Quiet.inv_afterData {c c' : Cycle P} (h : Quiet c) {bufs : List Bytes} {r : Feedback}
    (hb : (r = .kContinue ∨ r = .kClose) ↔ bufs = []) (ha : afterData pr c bufs r = .ok c') :
    Inv c' := by
  cases r with
  | kContinue =>
    obtain rfl : bufs = [] := hb.mp (.inl rfl)
    rw [asyncReceive_eq ha]
    exact h.inv_read
  | kClose =>
    obtain rfl : bufs = [] := hb.mp (.inr rfl)
    cases ha
    exact h.inv_close
  | kFinished => cases ha; exact h.inv_send fun e => by simp [e] at hb
  | kData => cases ha; exact h.inv_send fun e => by simp [e] at hb

theorem afterSent_eq {c : Cycle P} {bufs : List Bytes} {r : Feedback} (hr : r ≠ .kFinished) :
    afterSent pr c bufs r = afterData pr c bufs r := by
  cases r <;> simp_all [afterSent, afterData]

theorem Quiet.inv_afterSent {c c' : Cycle P} (h : Quiet c) {bufs : List Bytes} {r : Feedback}
    (hb : (r = .kContinue ∨ r = .kClose) ↔ bufs = []) (ha : afterSent pr c bufs r = .ok c') :
    Inv c' := by
  have hr : r ≠ .kFinished := by rintro rfl; cases ha
  rw [afterSent_eq hr] at ha
  exact h.inv_afterData hb ha

theorem Quiet.proto {c : Cycle P} (h : Quiet c) (p : P) : Quiet { c with proto := p } :=
  ⟨h.reads, h.writes, h.closes, h.finalizes, h.queue, h.invoked, h.no_shutdown⟩

theorem Inv.quiet_read {c : Cycle P} (hi : Inv c) (hr : 0 < c.reads) :
    Quiet { c with reads := c.reads - 1 } := by
  have h1 := hi.one
  have hw : c.writes = 0 := by omega
  have hf : c.finalizes = 0 := by omega
  have hq := hi.writes_eq
  refine ⟨by simp only; omega, hw, by simp only; omega, hf, ?_, by simp [hi.invoked_eq, hf],
    hi.no_shutdown⟩
  simp only
  split at hq <;> simp_all

theorem Inv.quiet_write {c : Cycle P} (hi : Inv c) (hw : 0 < c.writes) :
    Quiet { c with writes := c.writes - 1, outgoingQueue := [] } := by
  have h1 := hi.one
  have hf : c.finalizes = 0 := by omega
  exact ⟨by simp only; omega, by simp only; omega, by simp only; omega, hf, rfl,
    by simp [hi.invoked_eq, hf], hi.no_shutdown⟩

theorem receiveEventCb_inv (hw : pr.WellBehaved) {c c' : Cycle P} {res : Option Bytes}
    (hi : Inv c) (hr : 0 < c.reads) (h : receiveEventCb pr c res = .ok c') : Inv c' := by
  have hq := hi.quiet_read hr
  cases res with
  | none => cases h; exact hq.inv_close
  | some chunk =>
    obtain ⟨⟨p, bufs, r⟩, hd, h⟩ := Outcome.bind_eq_ok h
    exact (hq.proto p).inv_afterData (hw.onData_ret _ _ _ _ _ hd) h

theorem sendEventCb_inv (hw : pr.WellBehaved) {c c' : Cycle P} {ok : Bool} (hi : Inv c)
    (hwr : 0 < c.writes) (h : sendEventCb pr c ok = .ok c') : Inv c' := by
  have hq := hi.quiet_write hwr
  have h1 := hi.one
  unfold sendEventCb at h
  cases ok
  · cases h; exact hq.inv_close
  simp only [Bool.not_true, Bool.false_eq_true, if_false] at h
  split at h
  · cases h
    rename_i hne
    refine ⟨by simp [asyncSend]; omega, by simp [asyncSend, hne]; omega, ?_, hi.no_shutdown⟩
    simpa [asyncSend] using hi.invoked_eq
  · rename_i he
    obtain ⟨c₂, ha, h⟩ := Outcome.bind_eq_ok h
    have hi₂ : Inv c₂ := by
      refine Quiet.inv_afterSent ?_ (hw.onSent_ret _).2 ha
      refine ⟨by simp only; omega, by simp only; omega, by simp only; omega, hq.finalizes, ?_,
        hq.invoked, hi.no_shutdown⟩
      simpa using he
    rw [if_neg (by simp [hi₂.no_shutdown])] at h
    cases h
    exact hi₂

theorem Inv.closeOnce_eq {c : Cycle P} (hi : c.Inv) (hc : 0 < c.closes) :
    c.outgoingQueue = [] ∧ c.invoked = false ∧
      closeOnce pr c = finalize pr { c with closes := c.closes - 1, invoked := true } := by
  have h1 := hi.one
  have hw := hi.writes_eq
  have hq : c.outgoingQueue = [] := by
    split at hw
    · assumption
    · omega
  have hinv : c.invoked = false := by simpa [hi.invoked_eq] using (by omega : c.finalizes ≠ 1)
  exact ⟨hq, hinv, by simp only [closeOnce, hq, ne_eq, not_true_eq_false, if_false, hinv,
    Bool.false_eq_true]⟩

theorem closeOnce_inv {c : Cycle P} (hi : Inv c) (hc : 0 < c.closes) : Inv (closeOnce pr c) := by
  obtain ⟨hqe, -, he⟩ := hi.closeOnce_eq hc
  have h1 := hi.one
  have hf : c.finalizes = 0 := by omega
  rw [he]
  exact ⟨by simp only [finalize]; omega, by simp [finalize, hi.writes_eq, hqe],
    by simp [finalize, hf], hi.no_shutdown⟩

theorem sendEventCb_of_continue {c c' : Cycle P} (ht : c.outgoingQueue.tail = [])
    (hk : (pr.onSent c.proto).2.2 = .kContinue) (hb : (pr.onSent c.proto).2.1 = [])
    (hs : c.prepareForShutdown = false) (h : sendEventCb pr c true = .ok c') :
    c' = { c with
      proto := (pr.onSent c.proto).1
      reads := c.reads + 1
      writes := c.writes - 1
      outgoingQueue := [] } := by
  simp only [sendEventCb, Bool.not_true, Bool.false_eq_true, if_false, ht, ne_eq,
    not_true_eq_false, hk, hb] at h
  obtain ⟨c₂, ha, h⟩ := Outcome.bind_eq_ok h
  simp only [afterSent, List.foldl_nil] at ha
  rw [asyncReceive_eq ha] at h
  simp only [hs, Bool.false_eq_true, if_false] at h
  cases h
  rw [hs]

theorem begin_inv {p : P} {c : Cycle P} (h : begin pr p = .ok c) : Inv c := by
  rw [asyncReceive_eq h]
  exact Quiet.inv_read ⟨rfl, rfl, rfl, rfl, rfl, rfl, rfl⟩

theorem reachable_inv (hw : pr.WellBehaved) {c : Cycle P} (h : Reachable pr c) : Inv c := by
  induction h with
  | start hb => exact begin_inv hb
  | read _ _ hr hs ih => exact receiveEventCb_inv hw ih hr hs
  | write _ _ hwr hs ih => exact sendEventCb_inv hw ih hwr hs
  | close _ hc ih => exact closeOnce_inv ih hc

end Steps

end Cycle

/-- `Http` as the protocol of its session. -/
def httpProtocol (parser : HttpParser) (past : Nat → UInt8) : Protocol HttpSession where
  onData p chunk :=
    (fun x => ({ x.1 with outgoingQueue := [] }, x.1.outgoingQueue, x.2.2)) <$>
      ({ p with outgoingQueue := [] }.deliver chunk).onData parser past
  onSent p :=
    let x := { p with outgoingQueue := [] }.onSent
    ({ x.1 with outgoingQueue := [] }, x.1.outgoingQueue, x.2.2)
  receive p := (fun _ => ()) <$> p.asyncReceive
  onClosed p := { p with program := p.program.reset.1 }
  start p := p.reset.1

theorem http_wellBehaved (parser : HttpParser) (past : Nat → UInt8) :
    (httpProtocol parser past).WellBehaved where
  onData_ret p chunk p' bufs r h := by
    obtain ⟨⟨s, calls, r'⟩, hd, he⟩ := Outcome.map_eq_ok h
    cases he
    rcases HttpSession.onData_queue hd with ⟨rfl, b, hb⟩ | ⟨hr, hb⟩
    · simp [hb, HttpSession.deliver]
    · simp [hb, hr, HttpSession.deliver]
  onSent_ret p := by
    rcases (HttpSession.onSent_queue (s := { p with outgoingQueue := [] })) with
      ⟨hr, b, hb⟩ | ⟨hr, hb⟩
    · simp [httpProtocol, hr, hb]
    · rcases hr with hr | hr <;> simp [httpProtocol, hr, hb]

/-- One read and one write outstanding at most, whatever the completions. -/
theorem http_cycle_one_outstanding {parser : HttpParser} {past : Nat → UInt8}
    {c : Cycle HttpSession} (h : Cycle.Reachable (httpProtocol parser past) c) :
    c.reads ≤ 1 ∧ c.writes ≤ 1 ∧ (0 < c.writes ↔ c.outgoingQueue ≠ []) ∧
      (0 < c.reads → c.writes = 0 ∧ c.outgoingQueue = []) ∧
      c.closes ≤ 1 ∧ (0 < c.closes → c.outgoingQueue = []) ∧ c.finalizes ≤ 1 ∧
      (0 < c.finalizes → c.reads = 0 ∧ c.writes = 0 ∧ c.closes = 0) := by
  have hi := Cycle.reachable_inv (http_wellBehaved parser past) h
  have h1 := hi.one
  have hw := hi.writes_eq
  have hq : c.outgoingQueue = [] ↔ c.writes = 0 := by split at hw <;> simp_all
  refine ⟨by omega, by omega, by rw [Ne, hq]; omega, fun hr => ⟨by omega, hq.mpr (by omega)⟩,
    by omega, fun hc => hq.mpr (by omega), by omega, fun hf => ⟨by omega, by omega, by omega⟩⟩

theorem http_cycle_finalized_after_error :
    ∃ c : Cycle HttpSession, Cycle.Reachable (httpProtocol (fun _ => ⟨[], -1⟩) (fun _ => 0)) c ∧
      c.finalizes = 1 ∧ c.reads ≤ 1 ∧ c.writes ≤ 1 ∧ (0 < c.writes ↔ c.outgoingQueue ≠ []) ∧
      (0 < c.reads → c.writes = 0 ∧ c.outgoingQueue = []) ∧
      c.closes ≤ 1 ∧ (0 < c.closes → c.outgoingQueue = []) ∧ c.finalizes ≤ 1 ∧
      (0 < c.finalizes → c.reads = 0 ∧ c.writes = 0 ∧ c.closes = 0) := by
  have h₀ := @Cycle.Reachable.start _ (httpProtocol (fun _ => ⟨[], -1⟩) (fun _ => 0))
    HttpSession.init _ rfl
  have h₂ := Cycle.Reachable.close (Cycle.Reachable.read none h₀ Nat.one_pos rfl) Nat.one_pos
  exact ⟨_, h₂, rfl, http_cycle_one_outstanding h₂⟩

end LServer

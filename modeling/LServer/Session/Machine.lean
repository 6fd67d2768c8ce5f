import LServer.Session.Cycle
import LServer.Vm.Exclusion
/-!
A session of `Http` with the machine `Http::vm_` its program shares; the program's identity is
`session_id()`, the same across the session's requests. The handlers' machine calls are queued
and made one at a time, interleaved with the calls of other programs (`HttpRun.Reachable`).
-/

set_option autoImplicit false

namespace LServer

namespace LSVirtualMachine

/-- No resource is taken under identity `id`. -/
def Released (vm : LSVirtualMachine) (id : Nat) : Prop :=
  ∀ n, (vm.resources n).taken = true → (vm.resources n).holderId ≠ id

theorem released_cleanup (vm : LSVirtualMachine) (id : Nat) : (vm.cleanup id).Released id := by
  intro n h
  by_cases hh : (vm.resources n).holderId = id
  · simp [cleanup, hh] at h
  · simp [cleanup, hh]

theorem cleanup_of_ne {vm : LSVirtualMachine} {id n : Nat} (hn : (vm.resources n).holderId ≠ id) :
    (vm.cleanup id).resources n = vm.resources n := by
  simp [cleanup, hn]

theorem Released.apply {vm vm' : LSVirtualMachine} {id id' : Nat} {k : VmCall}
    (hr : vm.Released id) (hne : id' ≠ id) (h : vm.apply id' k = some vm') : vm'.Released id := by
  cases k with
  | lock m =>
    obtain ⟨-, rfl⟩ := lock_eq_some h
    intro n
    simp only [set_resources]
    split
    · exact fun _ => hne
    · exact hr n
  | unlock m =>
    cases h
    intro n
    simp only [unlock, set_resources]
    split
    · intro h; cases h
    · exact hr n
  | sleep _ => cases h; exact hr
  | loop _ => cases h; exact hr
  | cleanup =>
    cases h
    intro n
    by_cases hh : (vm.resources n).holderId = id'
    · simp [cleanup, hh]
    · simpa [cleanup, hh] using hr n

end LSVirtualMachine

namespace HttpSession

theorem onDataHeader_program {parser : HttpParser} {s s' : HttpSession}
    (h : onDataHeader parser s = .ok (.ok s')) : s'.program = s.program := by
  unfold onDataHeader at h
  split at h
  · cases h; rfl
  · obtain ⟨o, ho, he⟩ := Outcome.map_eq_ok h
    cases o with
    | none => cases he
    | some s₁ =>
      cases he
      unfold tryHandleHeader at ho
      split at ho
      · cases ho
      · obtain ⟨s₂, hc, he⟩ := Outcome.map_eq_ok ho
        cases he
        unfold consume at hc
        split_ifs at hc <;> cases hc <;> rfl

theorem onData_program {parser : HttpParser} {past : Nat → UInt8} {s s' : HttpSession}
    {calls : List VmCall} {r : Feedback} (h : s.onData parser past = .ok (s', calls, r)) :
    s'.program.vm = true ∨ (calls = [] ∧ s'.program = s.program) := by
  unfold onData at h
  obtain ⟨x, hx, h⟩ := Outcome.bind_eq_ok h
  cases x with
  | error => cases h; exact .inr ⟨rfl, rfl⟩
  | ok s₁ =>
    obtain ⟨y, -, h⟩ := Outcome.bind_eq_ok h
    cases y with
    | error => cases h; exact .inr ⟨rfl, onDataHeader_program hx⟩
    | ok s₂ => exact .inl (onDataFeed_frame h).2.1

theorem onSent_program (s : HttpSession) :
    (s.onSent.1.program.vm = s.program.vm ∧ s.onSent.2.1 = []) ∨
      (s.onSent.1.program = s.program.reset.1 ∧ s.onSent.2.1 = s.program.reset.2) := by
  unfold onSent
  split_ifs
  · exact .inl ⟨rfl, rfl⟩
  · exact .inr ⟨rfl, rfl⟩
  · exact .inl ⟨rfl, rfl⟩

end HttpSession

/-- `httpProtocol` with the machine calls of its handlers queued. -/
def httpVmProtocol (parser : HttpParser) (past : Nat → UInt8) :
    Protocol (HttpSession × List VmCall) where
  onData p chunk :=
    (fun x => (({ x.1 with outgoingQueue := [] }, p.2 ++ x.2.1), x.1.outgoingQueue, x.2.2)) <$>
      ({ p.1 with outgoingQueue := [] }.deliver chunk).onData parser past
  onSent p :=
    let x := { p.1 with outgoingQueue := [] }.onSent
    (({ x.1 with outgoingQueue := [] }, p.2 ++ x.2.1), x.1.outgoingQueue, x.2.2)
  receive p := (httpProtocol parser past).receive p.1
  onClosed p := ({ p.1 with program := p.1.program.reset.1 }, p.2 ++ p.1.program.reset.2)
  start p := (p.1.reset.1, p.2 ++ p.1.reset.2)

structure Protocol.Simulates {P Q : Type} (f : P → Q) (pr : Protocol P) (qr : Protocol Q) :
    Prop where
  onData : ∀ p chunk, (fun x => (f x.1, x.2)) <$> pr.onData p chunk = qr.onData (f p) chunk
  onSent : ∀ p, (f (pr.onSent p).1, (pr.onSent p).2) = qr.onSent (f p)
  receive : ∀ p, qr.receive (f p) = pr.receive p
  onClosed : ∀ p, f (pr.onClosed p) = qr.onClosed (f p)
  start : ∀ p, f (pr.start p) = qr.start (f p)

theorem httpVm_simulates (parser : HttpParser) (past : Nat → UInt8) :
    (httpVmProtocol parser past).Simulates Prod.fst (httpProtocol parser past) where
  onData p chunk := by
    simp only [httpVmProtocol, httpProtocol]
    cases ({ p.1 with outgoingQueue := [] }.deliver chunk).onData parser past <;> rfl
  onSent _ := rfl
  receive _ := rfl
  onClosed _ := rfl
  start _ := rfl

theorem Protocol.Simulates.wellBehaved {P Q : Type} {f : P → Q} {pr : Protocol P} {qr : Protocol Q}
    (hs : pr.Simulates f qr) (hw : qr.WellBehaved) : pr.WellBehaved where
  onData_ret p chunk p' bufs r h :=
    hw.onData_ret (f p) chunk (f p') bufs r (by rw [← hs.onData p chunk, h]; rfl)
  onSent_ret p := by
    have := hw.onSent_ret (f p)
    rwa [← hs.onSent p] at this

theorem httpVm_wellBehaved (parser : HttpParser) (past : Nat → UInt8) :
    (httpVmProtocol parser past).WellBehaved :=
  (httpVm_simulates parser past).wellBehaved (http_wellBehaved parser past)

def Keeps (x y : HttpSession × List VmCall) : Prop :=
  y.1.program.vm = true ∨ (y.1.program.vm = x.1.program.vm ∧ y.2 = x.2) ∨
    (y.1.program = x.1.program.reset.1 ∧ y.2 = x.2 ++ x.1.program.reset.2)

theorem Keeps.refl (x : HttpSession × List VmCall) : Keeps x x := .inr (.inl ⟨rfl, rfl⟩)

section Handlers
variable {parser : HttpParser} {past : Nat → UInt8}

theorem httpVm_onData_keeps {p p' : HttpSession × List VmCall} {chunk : Bytes}
    {bufs : List Bytes} {r : Feedback}
    (h : (httpVmProtocol parser past).onData p chunk = .ok (p', bufs, r)) : Keeps p p' := by
  obtain ⟨⟨s, calls, r'⟩, hd, he⟩ := Outcome.map_eq_ok h
  cases he
  rcases HttpSession.onData_program hd with hv | ⟨rfl, hp⟩
  · exact .inl hv
  · exact .inr (.inl ⟨congrArg Program.vm hp, List.append_nil _⟩)

theorem httpVm_onSent_keeps (p : HttpSession × List VmCall) :
    Keeps p ((httpVmProtocol parser past).onSent p).1 := by
  rcases HttpSession.onSent_program { p.1 with outgoingQueue := [] } with ⟨hv, hc⟩ | ⟨hv, hc⟩
  · exact .inr (.inl ⟨hv, by simp only [httpVmProtocol, hc, List.append_nil]⟩)
  · exact .inr (.inr ⟨hv, by simp only [httpVmProtocol, hc]⟩)

theorem httpVm_onClosed_keeps (p : HttpSession × List VmCall) :
    Keeps p ((httpVmProtocol parser past).onClosed p) := .inr (.inr ⟨rfl, rfl⟩)

theorem httpVm_onSent_of_continue {p : HttpSession × List VmCall}
    (hk : ((httpVmProtocol parser past).onSent p).2.2 = .kContinue) :
    (httpVmProtocol parser past).onSent p =
      (({ (HttpSession.reset { p.1 with outgoingQueue := [] }).1 with outgoingQueue := [] },
        p.2 ++ (HttpSession.reset { p.1 with outgoingQueue := [] }).2), [], .kContinue) := by
  have h := (HttpSession.onSent_of_continue (s := { p.1 with outgoingQueue := [] }) hk).2
  simp only [httpVmProtocol, h]
  rfl

end Handlers

namespace Cycle

variable {P : Type} {pr : Protocol P}

theorem afterData_proto {c c' : Cycle P} {bufs : List Bytes} {r : Feedback}
    (h : afterData pr c bufs r = .ok c') : c'.proto = c.proto := by
  have hf : (bufs.foldl send c).proto = c.proto := by rw [foldl_send]
  cases r with
  | kContinue => rw [asyncReceive_eq h]; exact hf
  | kClose => cases h; exact hf
  | kFinished => cases h; exact hf
  | kData => cases h; exact hf

theorem receiveEventCb_proto {c c' : Cycle P} {res : Option Bytes}
    (h : receiveEventCb pr c res = .ok c') :
    c'.proto = c.proto ∨ ∃ chunk bufs r, pr.onData c.proto chunk = .ok (c'.proto, bufs, r) := by
  cases res with
  | none => cases h; exact .inl rfl
  | some chunk =>
    obtain ⟨⟨p, bufs, r⟩, hd, h⟩ := Outcome.bind_eq_ok h
    exact .inr ⟨chunk, bufs, r, by rw [afterData_proto h]; exact hd⟩

theorem sendEventCb_proto {c c' : Cycle P} {ok : Bool} (h : sendEventCb pr c ok = .ok c') :
    c'.proto = c.proto ∨ c'.proto = (pr.onSent c.proto).1 := by
  unfold sendEventCb at h
  cases ok
  · cases h; exact .inl rfl
  simp only [Bool.not_true, Bool.false_eq_true, if_false] at h
  split at h
  · cases h; exact .inl rfl
  · obtain ⟨c₂, ha, h⟩ := Outcome.bind_eq_ok h
    have hr : (pr.onSent c.proto).2.2 ≠ .kFinished := by intro e; rw [e] at ha; cases ha
    rw [afterSent_eq hr] at ha
    have hp := afterData_proto ha
    split at h <;> cases h <;> exact .inr hp

theorem closeOnce_proto (c : Cycle P) :
    (closeOnce pr c).proto = c.proto ∨ (closeOnce pr c).proto = pr.onClosed c.proto := by
  dsimp only [closeOnce, finalize]
  split_ifs
  · exact .inl rfl
  · exact .inl rfl
  · exact .inr rfl

theorem begin_proto {p : P} {c : Cycle P} (h : begin pr p = .ok c) : c.proto = pr.start p :=
  congrArg Cycle.proto (asyncReceive_eq h)

/-! ### A protocol that runs as another -/

def map {Q : Type} (f : P → Q) (c : Cycle P) : Cycle Q :=
  ⟨f c.proto, c.reads, c.writes, c.outgoingQueue, c.closes, c.prepareForShutdown, c.invoked,
    c.finalizes⟩

section Map
variable {Q : Type} {f : P → Q} {qr : Protocol Q} (hs : pr.Simulates f qr)
include hs

theorem map_asyncReceive (c : Cycle P) :
    asyncReceive qr (c.map f) = map f <$> asyncReceive pr c := by
  unfold asyncReceive
  rw [show (c.map f).proto = f c.proto from rfl, hs.receive]
  cases pr.receive c.proto <;> rfl

omit hs in
theorem map_foldl_send (c : Cycle P) (bufs : List Bytes) :
    bufs.foldl send (c.map f) = (bufs.foldl send c).map f := by
  rw [foldl_send, foldl_send]; rfl

theorem map_afterData (c : Cycle P) (bufs : List Bytes) (r : Feedback) :
    afterData qr (c.map f) bufs r = map f <$> afterData pr c bufs r := by
  cases r <;> simp only [afterData, map_foldl_send, map_asyncReceive hs] <;> rfl

theorem map_afterSent (c : Cycle P) (bufs : List Bytes) (r : Feedback) :
    afterSent qr (c.map f) bufs r = map f <$> afterSent pr c bufs r := by
  cases r <;> simp only [afterSent, map_foldl_send, map_asyncReceive hs] <;> rfl

theorem map_receiveEventCb (c : Cycle P) (res : Option Bytes) :
    receiveEventCb qr (c.map f) res = map f <$> receiveEventCb pr c res := by
  cases res with
  | none => rfl
  | some chunk =>
    show qr.onData (f c.proto) chunk >>= _ = map f <$> (pr.onData c.proto chunk >>= _)
    rw [← hs.onData]
    cases pr.onData c.proto chunk with
    | ok x => exact map_afterData hs { c with reads := c.reads - 1, proto := x.1 } x.2.1 x.2.2
    | _ => rfl

theorem map_sendEventCb (c : Cycle P) (ok : Bool) :
    sendEventCb qr (c.map f) ok = map f <$> sendEventCb pr c ok := by
  cases ok
  · rfl
  by_cases hq : c.outgoingQueue.tail = []
  · have ha := map_afterSent hs ⟨(pr.onSent c.proto).1, c.reads, c.writes - 1, [], c.closes,
      c.prepareForShutdown, c.invoked, c.finalizes⟩ (pr.onSent c.proto).2.1 (pr.onSent c.proto).2.2
    dsimp only [map] at ha
    simp only [sendEventCb, Bool.not_true, Bool.false_eq_true, if_false, map, hq, ne_eq,
      not_true_eq_false, ← hs.onSent, ha]
    generalize afterSent pr _ _ _ = x
    cases x with
    | ok c' => obtain ⟨_, _, _, _, _, _ | _, _, _⟩ := c' <;> rfl
    | _ => rfl
  · simp only [sendEventCb, Bool.not_true, Bool.false_eq_true, if_false, map, hq, ne_eq,
      not_false_eq_true, if_true]
    rfl

theorem map_closeOnce (c : Cycle P) : closeOnce qr (c.map f) = (closeOnce pr c).map f := by
  dsimp only [closeOnce, finalize, map]
  split_ifs
  · rfl
  · rfl
  · rw [hs.onClosed]

theorem map_begin (p : P) : begin qr (f p) = map f <$> begin pr p := by
  unfold begin
  rw [← hs.start]
  exact map_asyncReceive hs ⟨pr.start p, 0, 0, [], 0, false, false, 0⟩

end Map

end Cycle

/-- A session of `Http` in its cycle, with the calls its program has still to make. -/
structure HttpRun where
  cycle : Cycle (HttpSession × List VmCall)
  vm : LSVirtualMachine

namespace HttpRun

/-- Every run of a session whose program has identity `id`, with the machine's calls. -/
inductive Reachable (parser : HttpParser) (past : Nat → UInt8) (id : Nat) : HttpRun → Prop
  | start {p : HttpSession} {c : Cycle (HttpSession × List VmCall)} (vm : LSVirtualMachine) :
      (p.program.vm = true ∨ vm.Released id) →
      Cycle.begin (httpVmProtocol parser past) (p, []) = .ok c → Reachable parser past id ⟨c, vm⟩
  | read {s : HttpRun} {c' : Cycle (HttpSession × List VmCall)} (res : Option Bytes) :
      Reachable parser past id s → s.cycle.proto.2 = [] → 0 < s.cycle.reads →
      Cycle.receiveEventCb (httpVmProtocol parser past) s.cycle res = .ok c' →
      Reachable parser past id ⟨c', s.vm⟩
  | write {s : HttpRun} {c' : Cycle (HttpSession × List VmCall)} (ok : Bool) :
      Reachable parser past id s → s.cycle.proto.2 = [] → 0 < s.cycle.writes →
      Cycle.sendEventCb (httpVmProtocol parser past) s.cycle ok = .ok c' →
      Reachable parser past id ⟨c', s.vm⟩
  | close {s : HttpRun} :
      Reachable parser past id s → s.cycle.proto.2 = [] → 0 < s.cycle.closes →
      Reachable parser past id ⟨Cycle.closeOnce (httpVmProtocol parser past) s.cycle, s.vm⟩
  | call {s : HttpRun} {k : VmCall} {rest : List VmCall} {vm' : LSVirtualMachine} :
      Reachable parser past id s → s.cycle.proto.2 = k :: rest → s.vm.apply id k = some vm' →
      Reachable parser past id ⟨{ s.cycle with proto := (s.cycle.proto.1, rest) }, vm'⟩
  | other {s : HttpRun} (id' : Nat) (k : VmCall) {vm' : LSVirtualMachine} :
      Reachable parser past id s → id' ≠ id → s.vm.apply id' k = some vm' →
      Reachable parser past id ⟨s.cycle, vm'⟩

/-- The program is not set, and `id` holds nothing or the reset's `cleanup` is left. -/
def Clean (id : Nat) (s : HttpRun) : Prop :=
  s.cycle.proto.1.program.vm = false →
    (s.cycle.proto.2 = [] ∧ s.vm.Released id) ∨ s.cycle.proto.2 = [.cleanup]

theorem Clean.keeps {id : Nat} {c c' : Cycle (HttpSession × List VmCall)} {vm : LSVirtualMachine}
    (hc : Clean id ⟨c, vm⟩) (hq : c.proto.2 = []) (hk : Keeps c.proto c'.proto) :
    Clean id ⟨c', vm⟩ := by
  intro hv
  rcases hk with h | ⟨h1, h2⟩ | ⟨h1, h2⟩
  · exact absurd (h.symm.trans hv) (by decide)
  · rcases hc (h1.symm.trans hv) with ⟨-, hr⟩ | h
    · exact .inl ⟨h2.trans hq, hr⟩
    · rw [hq] at h; cases h
  · rw [h2, hq, List.nil_append]
    cases hv' : c.proto.1.program.vm
    · rcases hc hv' with ⟨-, hr⟩ | h
      · exact .inl ⟨by simp [Program.reset, hv'], hr⟩
      · rw [hq] at h; cases h
    · exact .inr (by simp [Program.reset, hv'])

theorem reachable_clean {parser : HttpParser} {past : Nat → UInt8} {id : Nat} {s : HttpRun}
    (hr : Reachable parser past id s) : Clean id s := by
  induction hr with
  | @start p c vm hv hb =>
    intro _
    rw [Cycle.begin_proto hb]
    cases hpv : p.program.vm
    · exact .inl ⟨by simp [httpVmProtocol, HttpSession.reset, Program.reset, hpv],
        hv.resolve_left (by simp [hpv])⟩
    · exact .inr (by simp [httpVmProtocol, HttpSession.reset, Program.reset, hpv])
  | read _ _ hq _ hs ih =>
    rcases Cycle.receiveEventCb_proto hs with h | ⟨_, _, _, hd⟩
    · exact ih.keeps hq (h ▸ Keeps.refl _)
    · exact ih.keeps hq (httpVm_onData_keeps hd)
  | write _ _ hq _ hs ih =>
    rcases Cycle.sendEventCb_proto hs with h | h
    · exact ih.keeps hq (h ▸ Keeps.refl _)
    · exact ih.keeps hq (h ▸ httpVm_onSent_keeps _)
  | close _ hq _ ih =>
    rcases @Cycle.closeOnce_proto _ (httpVmProtocol _ _) _ with h | h
    · exact ih.keeps hq (h ▸ Keeps.refl _)
    · exact ih.keeps hq (h ▸ httpVm_onClosed_keeps _)
  | call _ hp ha ih =>
    intro hv
    rcases ih hv with ⟨h, -⟩ | h <;> rw [hp] at h <;> cases h
    cases ha
    exact .inl ⟨rfl, LSVirtualMachine.released_cleanup _ _⟩
  | other _ _ _ hne ha ih =>
    intro hv
    rcases ih hv with ⟨h1, h2⟩ | h
    · exact .inl ⟨h1, h2.apply hne ha⟩
    · exact .inr h

theorem reachable_cycle {parser : HttpParser} {past : Nat → UInt8} {id : Nat} {s : HttpRun}
    (hr : Reachable parser past id s) :
    Cycle.Reachable (httpProtocol parser past) (s.cycle.map Prod.fst) := by
  have hs := httpVm_simulates parser past
  induction hr with
  | start _ _ hb => exact .start (by rw [Cycle.map_begin hs, hb]; rfl)
  | read res _ _ hr hc ih => exact ih.read res hr (by rw [Cycle.map_receiveEventCb hs, hc]; rfl)
  | write ok _ _ hw hc ih => exact ih.write ok hw (by rw [Cycle.map_sendEventCb hs, hc]; rfl)
  | close _ _ hc ih => exact Cycle.map_closeOnce hs _ ▸ ih.close hc
  | call _ _ _ ih => exact ih
  | other _ _ _ _ _ ih => exact ih

theorem cycle_inv {parser : HttpParser} {past : Nat → UInt8} {id : Nat} {s : HttpRun}
    (hr : Reachable parser past id s) : Cycle.Inv s.cycle :=
  have h := Cycle.reachable_inv (http_wellBehaved parser past) (reachable_cycle hr)
  ⟨h.one, h.writes_eq, h.invoked_eq, h.no_shutdown⟩

/-- A request of program `id` has ended. -/
def Ended (id : Nat) (s : HttpRun) : Prop :=
  s.cycle.proto.1.program.vm = false ∧
    (s.cycle.proto.2 = [] ∧ s.vm.Released id ∨
      s.cycle.proto.2 = [.cleanup] ∧ s.vm.apply id .cleanup = some (s.vm.cleanup id) ∧
        (s.vm.cleanup id).Released id ∧
        ∀ n, (s.vm.resources n).holderId ≠ id → (s.vm.cleanup id).resources n = s.vm.resources n)

theorem ended_of_reset {id : Nat} {c : Cycle (HttpSession × List VmCall)} {vm : LSVirtualMachine}
    {p : Program} (hp : c.proto.1.program = p.reset.1) (hc : c.proto.2 = p.reset.2)
    (hr : p.vm = false → vm.Released id) : Ended id ⟨c, vm⟩ := by
  refine ⟨by rw [hp]; rfl, ?_⟩
  dsimp only
  rw [hc]
  cases hv : p.vm
  · exact .inl ⟨by simp [Program.reset, hv], hr hv⟩
  · exact .inr ⟨by simp [Program.reset, hv], rfl, LSVirtualMachine.released_cleanup _ _,
      fun _ hn => LSVirtualMachine.cleanup_of_ne hn⟩

theorem Clean.released {id : Nat} {s : HttpRun} (hc : Clean id s) (hq : s.cycle.proto.2 = [])
    (hv : s.cycle.proto.1.program.vm = false) : s.vm.Released id :=
  ((hc hv).resolve_right (by rw [hq]; nofun)).2

end HttpRun

/-- Each way a request of the session ends resets the program and releases what it held. -/
theorem request_end_releases {parser : HttpParser} {past : Nat → UInt8} {id : Nat} :
    (∀ (p : HttpSession) (vm : LSVirtualMachine) (c : Cycle (HttpSession × List VmCall)),
      (p.program.vm = true ∨ vm.Released id) →
      Cycle.begin (httpVmProtocol parser past) (p, []) = .ok c → HttpRun.Ended id ⟨c, vm⟩) ∧
    (∀ (s : HttpRun) (c : Cycle (HttpSession × List VmCall)), HttpRun.Reachable parser past id s →
      s.cycle.proto.2 = [] → s.cycle.outgoingQueue.tail = [] →
      ((httpVmProtocol parser past).onSent s.cycle.proto).2.2 = .kContinue →
      Cycle.sendEventCb (httpVmProtocol parser past) s.cycle true = .ok c →
      HttpRun.Ended id ⟨c, s.vm⟩) ∧
    (∀ s : HttpRun, HttpRun.Reachable parser past id s → s.cycle.proto.2 = [] →
      0 < s.cycle.closes →
      HttpRun.Ended id ⟨Cycle.closeOnce (httpVmProtocol parser past) s.cycle, s.vm⟩) := by
  refine ⟨fun p vm c hv hb => ?start, fun s c hr hq ht hk hc => ?write, fun s hr hq hc => ?close⟩
  case start =>
    have hp := Cycle.begin_proto hb
    exact HttpRun.ended_of_reset (p := p.program) (by rw [hp]; rfl) (by rw [hp]; rfl)
      fun h => hv.resolve_left (by simp [h])
  case write =>
    have hs := httpVm_onSent_of_continue hk
    obtain rfl := Cycle.sendEventCb_of_continue ht hk (by rw [hs])
      (HttpRun.cycle_inv hr).no_shutdown hc
    rw [hs]
    exact HttpRun.ended_of_reset (p := s.cycle.proto.1.program) rfl (by rw [hq]; rfl)
      ((HttpRun.reachable_clean hr).released hq)
  case close =>
    rw [((HttpRun.cycle_inv hr).closeOnce_eq hc).2.2]
    exact HttpRun.ended_of_reset (p := s.cycle.proto.1.program) rfl
      (by show s.cycle.proto.2 ++ _ = _; rw [hq]; rfl)
      ((HttpRun.reachable_clean hr).released hq)

theorem request_end_releases_after_failed_read :
    ∃ c s, Cycle.begin (httpVmProtocol (fun _ => ⟨[], -1⟩) (fun _ => 0)) (HttpSession.init, []) =
        .ok c ∧ HttpRun.Ended 1 ⟨c, LSVirtualMachine.init⟩ ∧
      HttpRun.Reachable (fun _ => ⟨[], -1⟩) (fun _ => 0) 1 s ∧ s.vm.resources 5 = ⟨true, 2⟩ ∧
      s.cycle.proto.2 = [] ∧ 0 < s.cycle.closes ∧
      HttpRun.Ended 1 ⟨Cycle.closeOnce (httpVmProtocol (fun _ => ⟨[], -1⟩) (fun _ => 0)) s.cycle,
        s.vm⟩ :=
  have hb : Cycle.begin (httpVmProtocol (fun _ => ⟨[], -1⟩) (fun _ => 0)) (HttpSession.init, []) =
      .ok ⟨(HttpSession.init, []), 1, 0, [], 0, false, false, 0⟩ := rfl
  have hi : LSVirtualMachine.init.Released 1 := fun _ h => by
    simp [LSVirtualMachine.init, VMResource.fresh] at h
  have h₁ := ((HttpRun.Reachable.start _ (.inr hi) hb).other 2 (.lock 5) (by decide) rfl).read
    none rfl (by decide) rfl
  ⟨_, _, hb, request_end_releases.1 _ _ _ (.inr hi) hb, h₁, rfl, rfl, by decide,
    request_end_releases.2.2 _ h₁ rfl (by decide)⟩

end LServer

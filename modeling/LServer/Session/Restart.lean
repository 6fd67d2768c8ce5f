import LServer.Session.KeepAlive

set_option autoImplicit false

namespace LServer

namespace HttpSession

/-- The session with `downloaded_size_` set to `n`. -/
def withDownloadSize (s : HttpSession) (n : Nat) : HttpSession :=
  { s with program := { s.program with downloadSize := n } }

def liveView (s : HttpSession) : HttpSession :=
  if s.program.vm then s.view else (s.withDownloadSize 0).view

section DownloadSize
variable {s : HttpSession} {n : Nat}

@[simp] theorem withDownloadSize_ubuf : (s.withDownloadSize n).ubuf = s.ubuf := rfl
@[simp] theorem withDownloadSize_requestHeader :
    (s.withDownloadSize n).requestHeader = s.requestHeader := rfl
@[simp] theorem withDownloadSize_outgoingQueue :
    (s.withDownloadSize n).outgoingQueue = s.outgoingQueue := rfl
@[simp] theorem withDownloadSize_vm : (s.withDownloadSize n).program.vm = s.program.vm := rfl

@[simp] theorem withDownloadSize_withDownloadSize (m : Nat) :
    (s.withDownloadSize m).withDownloadSize n = s.withDownloadSize n := rfl

theorem withDownloadSize_self (s : HttpSession) : s.withDownloadSize s.program.downloadSize = s :=
  rfl

theorem view_withDownloadSize (s : HttpSession) (n : Nat) :
    (s.withDownloadSize n).view = s.view.withDownloadSize n := by
  by_cases h : s.program.vm <;> simp [view, withDownloadSize, Program.view, h]

theorem liveView_congr {a b : HttpSession} (h : a.view = b.view) : a.liveView = b.liveView := by
  have hv : a.program.vm = b.program.vm := by simpa using congrArg (fun v => v.program.vm) h
  simp only [liveView, view_withDownloadSize, h, hv]

theorem consume_withDownloadSize (k : Nat) :
    (s.withDownloadSize n).consume k = (withDownloadSize · n) <$> s.consume k := by
  simp only [consume, withDownloadSize_ubuf]
  split_ifs <;> rfl

theorem tryHandleHeader_withDownloadSize (parser : HttpParser) :
    tryHandleHeader parser (s.withDownloadSize n) =
      Option.map (withDownloadSize · n) <$> tryHandleHeader parser s := by
  unfold tryHandleHeader
  simp only [withDownloadSize_requestHeader, withDownloadSize_ubuf]
  cases s.requestHeader.tryParse parser s.ubuf with
  | mk e h =>
    cases e with
    | none => rfl
    | some e =>
      refine (congrArg (fun x => some <$> x) (consume_withDownloadSize (n := n)
        (s := { s with requestHeader := h }.setExpectedDataLength h.getContentLength) e)).trans ?_
      simp only [Outcome.map_map]
      rfl

theorem onDataHeader_withDownloadSize (parser : HttpParser) :
    onDataHeader parser (s.withDownloadSize n) =
      Except.map (withDownloadSize · n) <$> onDataHeader parser s := by
  unfold onDataHeader
  simp only [withDownloadSize_requestHeader, tryHandleHeader_withDownloadSize]
  split_ifs
  · rfl
  · cases tryHandleHeader parser s with
    | ok o => cases o <;> rfl
    | _ => rfl

theorem onDataProgram_withDownloadSize (hs : s.program.vm = false) (past : Nat → UInt8) :
    onDataProgram past (s.withDownloadSize n) = onDataProgram past s := by
  simp only [onDataProgram, Program.isSet, withDownloadSize_vm, hs]
  rfl

theorem onData_withDownloadSize (hs : s.program.vm = false) (parser : HttpParser)
    (past : Nat → UInt8) :
    (s.withDownloadSize n).onData parser past =
      (fun x => if x.1.program.vm then x else (x.1.withDownloadSize n, x.2)) <$>
        s.onData parser past := by
  unfold onData
  rw [onDataHeader_withDownloadSize]
  cases h₁ : onDataHeader parser s with
  | ok x =>
    cases x with
    | error r => simp [Except.map, hs]
    | ok s₁ =>
      have hs₁ : s₁.program.vm = false := by rw [onDataHeader_program h₁]; exact hs
      simp only [Outcome.map_ok, Except.map, Outcome.ok_bind, onDataProgram_withDownloadSize hs₁,
        Outcome.map_bind]
      refine Outcome.bind_congr fun y _ => ?_
      cases y with
      | error r => simp [hs₁]
      | ok s₂ =>
        dsimp only
        cases hf : onDataFeed s₂ with
        | ok x =>
          obtain ⟨s', calls, r⟩ := x
          simp [(onDataFeed_frame hf).2.1]
        | _ => rfl
  | _ => rfl

theorem onData_queue_of_unset {parser : HttpParser} {past : Nat → UInt8} {s' : HttpSession}
    {calls : List VmCall} {r : Feedback} (h : s.onData parser past = .ok (s', calls, r))
    (hv : s'.program.vm = false) : s'.outgoingQueue = s.outgoingQueue := by
  unfold onData at h
  obtain ⟨x, hx, h⟩ := Outcome.bind_eq_ok h
  cases x with
  | error => cases h; rfl
  | ok s₁ =>
    obtain ⟨y, -, h⟩ := Outcome.bind_eq_ok h
    cases y with
    | error =>
      cases h
      rcases onDataHeader_queue hx with hx | ⟨_, hx, hq⟩
      · cases hx
      · cases hx; exact hq
    | ok s₂ => simp [(onDataFeed_frame h).2.1] at hv

end DownloadSize

end HttpSession

namespace Cycle

variable {P : Type} (pr : Protocol P)

def outstanding (c : Cycle P) : Completion → Bool
  | .read _ => 0 < c.reads
  | .write _ => 0 < c.writes
  | .close => 0 < c.closes

def validRun : Cycle P → List Completion → Bool
  | _, [] => true
  | c, e :: es => c.outstanding e && match complete pr c e with
    | .ok c' => validRun c' es
    | _ => true

variable {pr}

theorem closeOnce_writes (c : Cycle P) : (closeOnce pr c).writes = c.writes := by
  dsimp only [closeOnce, finalize]
  split_ifs <;> rfl

theorem afterData_nil_writes {c c' : Cycle P} {r : Feedback} (h : afterData pr c [] r = .ok c') :
    c'.writes = c.writes := by
  cases r with
  | kContinue => rw [asyncReceive_eq h]; rfl
  | kClose | kFinished | kData => cases h; rfl

end Cycle

open HttpSession

section Restart
variable {parser : HttpParser} {past : Nat → UInt8}

def Unset (a b : HttpSession × List VmCall) : Prop :=
  a.1.program.vm = false ∧ b.1.program.vm = false ∧
    (a.1.withDownloadSize 0).view = (b.1.withDownloadSize 0).view ∧ a.2 = b.2

theorem Unset.liveView_eq {a b : HttpSession × List VmCall} (h : Unset a b) :
    Prod.map liveView id a = Prod.map liveView id b := by
  obtain ⟨ha, hb, hv, hc⟩ := h
  refine Prod.ext ?_ hc
  simp only [Prod.map, HttpSession.liveView, ha, hb, hv, Bool.false_eq_true, if_false]

theorem HttpAlike.liveView_eq {a b : HttpSession × List VmCall} (h : HttpAlike a b) :
    Prod.map liveView id a = Prod.map liveView id b :=
  Prod.ext (liveView_congr h.2.2.1) h.2.2.2

theorem Unset.receive {p q : HttpSession × List VmCall} (h : Unset p q) :
    (httpVmProtocol parser past).receive p = (httpVmProtocol parser past).receive q := by
  show (fun _ => ()) <$> (p.1.withDownloadSize 0).view.asyncReceive =
    (fun _ => ()) <$> (q.1.withDownloadSize 0).view.asyncReceive
  rw [h.2.2.1]

theorem Unset.onClosed {p q : HttpSession × List VmCall} (h : Unset p q) :
    Unset ((httpVmProtocol parser past).onClosed p) ((httpVmProtocol parser past).onClosed q) := by
  obtain ⟨hp, hq, hv, hc⟩ := h
  refine ⟨rfl, rfl, ?_, ?_⟩
  · have := congrArg (fun v : HttpSession => { v with program := v.program.reset.1.view }) hv
    simpa only [view_program, Program.view_reset_view] using this
  · show p.2 ++ (p.1.program.reset).2 = q.2 ++ (q.1.program.reset).2
    simp only [Program.reset, hp, hq, hc, Bool.false_eq_true, if_false]

theorem httpVm_onData_withDownloadSize {a : HttpSession} (ha : a.program.vm = false)
    (cs : List VmCall) (n : Nat) (chunk : Bytes) :
    (httpVmProtocol parser past).onData (a.withDownloadSize n, cs) chunk =
      (fun y => if y.1.1.program.vm then y else ((y.1.1.withDownloadSize n, y.1.2), y.2)) <$>
        (httpVmProtocol parser past).onData (a, cs) chunk := by
  show (fun x => (({ x.1 with outgoingQueue := [] }, cs ++ x.2.1), x.1.outgoingQueue, x.2.2)) <$>
      (({ a with outgoingQueue := [] }.deliver chunk).withDownloadSize n).onData parser past =
    (fun y => if y.1.1.program.vm then y else ((y.1.1.withDownloadSize n, y.1.2), y.2)) <$>
      ((fun x => (({ x.1 with outgoingQueue := [] }, cs ++ x.2.1), x.1.outgoingQueue, x.2.2)) <$>
        ({ a with outgoingQueue := [] }.deliver chunk).onData parser past)
  have e := onData_withDownloadSize (s := { a with outgoingQueue := [] }.deliver chunk) (n := n) ha
    parser past
  rw [e, Outcome.map_map, Outcome.map_map]
  congr 1
  funext x
  by_cases hx : x.1.program.vm
  · simp only [hx, if_true]
  · simp only [hx, if_false]
    rfl

theorem httpVm_onData_unset {r : HttpSession × List VmCall}
    {y : (HttpSession × List VmCall) × List Bytes × Feedback} {chunk : Bytes}
    (h : (httpVmProtocol parser past).onData r chunk = .ok y) (hv : y.1.1.program.vm = false) :
    y.2.1 = [] := by
  obtain ⟨⟨s', calls, fb⟩, hd, rfl⟩ := Outcome.map_eq_ok h
  exact onData_queue_of_unset hd hv

theorem Unset.onData {p q : HttpSession × List VmCall} (h : Unset p q) (chunk : Bytes) :
    Outcome.Rel (fun x y => (HttpAlike x.1 y.1 ∨ Unset x.1 y.1 ∧ x.2.1 = []) ∧ x.2 = y.2)
      ((httpVmProtocol parser past).onData p chunk) ((httpVmProtocol parser past).onData q chunk) := by
  obtain ⟨a, cs⟩ := p
  obtain ⟨b, ds⟩ := q
  obtain ⟨ha, hb, hv, hc⟩ := h
  dsimp only at ha hb hv hc
  have hr := ((httpVm_bisim parser past).onData (a.withDownloadSize 0, cs)
      (b.withDownloadSize 0, ds) chunk
      ⟨fun h => by simp [ha] at h, fun h => by simp [hb] at h, hv, hc⟩).mono
    fun _ y hy hxy => (⟨hxy, fun hy' => httpVm_onData_unset hy hy'⟩ :
      _ ∧ (y.1.1.program.vm = false → y.2.1 = []))
  have ea : (a, cs) = ((a.withDownloadSize 0).withDownloadSize a.program.downloadSize, cs) := rfl
  have eb : (b, ds) = ((b.withDownloadSize 0).withDownloadSize b.program.downloadSize, ds) := rfl
  rw [ea, eb, httpVm_onData_withDownloadSize (a := a.withDownloadSize 0) ha,
    httpVm_onData_withDownloadSize (a := b.withDownloadSize 0) hb]
  refine hr.map ?_
  rintro x y ⟨⟨hxy, he⟩, hy⟩
  have hvm : x.1.1.program.vm = y.1.1.program.vm := by
    simpa using congrArg (fun v => v.program.vm) hxy.2.2.1
  by_cases hx : x.1.1.program.vm
  · simp only [hx, ← hvm, if_true]
    exact ⟨.inl hxy, he⟩
  · have hy' : y.1.1.program.vm = false := by simpa [hvm] using hx
    simp only [hx, hy', Bool.false_eq_true, if_false]
    refine ⟨.inr ⟨⟨by simpa using hx, hy', ?_, hxy.2.2.2⟩, by rw [he]; exact hy hy'⟩, he⟩
    simp only [withDownloadSize_withDownloadSize, view_withDownloadSize, hxy.2.2.1]

theorem httpVm_begin (p : HttpSession × List VmCall) :
    Cycle.begin (httpVmProtocol parser past) p =
      .ok ⟨(httpVmProtocol parser past).start p, 1, 0, [], 0, false, false, 0⟩ := rfl

/-- A session started again and the one `Http()` builds: alike, or alike but for the size. -/
def Twin (c d : Cycle (HttpSession × List VmCall)) : Prop :=
  Cycle.Alike HttpAlike c d ∨ Cycle.Alike Unset c d ∧ d.writes = 0

theorem Twin.map_eq {c d : Cycle (HttpSession × List VmCall)} (h : Twin c d) :
    c.map (Prod.map liveView id) = d.map (Prod.map liveView id) := by
  rcases h with h | ⟨h, -⟩
  · exact h.map_eq fun _ _ => HttpAlike.liveView_eq
  · exact h.map_eq fun _ _ => Unset.liveView_eq

theorem Twin.receiveEventCb_unset {c d : Cycle (HttpSession × List VmCall)}
    (h : Cycle.Alike Unset c d) (hw : d.writes = 0) (res : Option Bytes) :
    Outcome.Rel Twin (Cycle.receiveEventCb (httpVmProtocol parser past) c res)
      (Cycle.receiveEventCb (httpVmProtocol parser past) d res) := by
  have h' : Cycle.Alike Unset { c with reads := c.reads - 1 } { d with reads := d.reads - 1 } :=
    ⟨h.proto, congrArg (fun m : Cycle Unit => { m with reads := m.reads - 1 }) h.rest⟩
  cases res with
  | none => exact Or.inr ⟨h'.asyncClose, hw⟩
  | some chunk =>
    refine (h.proto.onData chunk).bind fun x y hxy => ?_
    obtain ⟨p, bufs, r⟩ := x
    obtain ⟨q, bufs', r'⟩ := y
    obtain ⟨hpq | ⟨hpq, hb⟩, he⟩ := hxy
    · cases he
      exact ((h'.setProto hpq).afterData (httpVm_bisim parser past) bufs r).mono fun _ _ _ => Or.inl
    · cases he
      subst hb
      exact ((h'.setProto hpq).afterData_of (fun _ _ => Unset.receive) [] r).mono
        fun _ _ hd hcd => Or.inr ⟨hcd, (Cycle.afterData_nil_writes hd).trans hw⟩

theorem Twin.complete {c d : Cycle (HttpSession × List VmCall)} (h : Twin c d) {e : Completion}
    (he : d.outstanding e = true) :
    Outcome.Rel Twin (Cycle.complete (httpVmProtocol parser past) c e)
      (Cycle.complete (httpVmProtocol parser past) d e) := by
  rcases h with h | ⟨h, hw⟩
  · exact (h.complete (httpVm_bisim parser past) e).mono fun _ _ _ => Or.inl
  cases e with
  | read res => exact Twin.receiveEventCb_unset h hw res
  | write => simp [Cycle.outstanding, hw] at he
  | close =>
    exact Or.inr ⟨h.closeOnce_of fun _ _ => Unset.onClosed, (Cycle.closeOnce_writes d).trans hw⟩

theorem Twin.completeAll {c d : Cycle (HttpSession × List VmCall)} (h : Twin c d)
    {es : List Completion} (hv : Cycle.validRun (httpVmProtocol parser past) d es = true) :
    Outcome.Rel Twin (Cycle.completeAll (httpVmProtocol parser past) c es)
      (Cycle.completeAll (httpVmProtocol parser past) d es) := by
  induction es generalizing c d with
  | nil => exact h
  | cons e es ih =>
    simp only [Cycle.validRun, Bool.and_eq_true] at hv
    refine (h.complete hv.1).bind_ok fun c' d' hd h' => ih h' ?_
    rw [hd] at hv
    exact hv.2

theorem Twin.completeAll_map {c d : Cycle (HttpSession × List VmCall)} (h : Twin c d)
    {es : List Completion} (hv : Cycle.validRun (httpVmProtocol parser past) d es = true) :
    Cycle.map (Prod.map liveView id) <$> Cycle.completeAll (httpVmProtocol parser past) c es =
      Cycle.map (Prod.map liveView id) <$> Cycle.completeAll (httpVmProtocol parser past) d es :=
  (h.completeAll hv).map_eq fun _ _ => Twin.map_eq

/-- A session restarted after `on_closed` and the session `Http()` builds are twins. -/
theorem restart_twin {p : HttpSession × List VmCall} (hq : p.1.outgoingQueue = []) :
    Twin ⟨(((httpVmProtocol parser past).start ((httpVmProtocol parser past).onClosed p)).1, []),
        1, 0, [], 0, false, false, 0⟩ ⟨(HttpSession.init, []), 1, 0, [], 0, false, false, 0⟩ := by
  refine Or.inr ⟨⟨⟨rfl, rfl, ?_, rfl⟩, rfl⟩, rfl⟩
  simp [httpVmProtocol, reset, view, resetBuffers, init, Program.view, Program.reset, Program.empty,
    HttpResponseHeader.reset, HttpResponseHeader.init, withDownloadSize, hq]

end Restart

end LServer

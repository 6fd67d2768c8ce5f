import LServer.Session.Machine
set_option autoImplicit false

namespace LServer

inductive Completion where
  | read (res : Option Bytes)
  | write (ok : Bool)
  | close

namespace Cycle

variable {P : Type} (pr : Protocol P)

def complete (c : Cycle P) : Completion → Outcome (Cycle P)
  | .read res => receiveEventCb pr c res
  | .write ok => sendEventCb pr c ok
  | .close => .ok (closeOnce pr c)

def completeAll : Cycle P → List Completion → Outcome (Cycle P)
  | c, [] => .ok c
  | c, e :: es => complete pr c e >>= fun c' => completeAll c' es

end Cycle

/-- `R` relates states the handlers of `pr` treat alike. -/
structure Protocol.Bisim {P : Type} (pr : Protocol P) (R : P → P → Prop) : Prop where
  onData : ∀ p q chunk, R p q →
    Outcome.Rel (fun x y => R x.1 y.1 ∧ x.2 = y.2) (pr.onData p chunk) (pr.onData q chunk)
  onSent : ∀ p q, R p q → R (pr.onSent p).1 (pr.onSent q).1 ∧ (pr.onSent p).2 = (pr.onSent q).2
  receive : ∀ p q, R p q → pr.receive p = pr.receive q
  onClosed : ∀ p q, R p q → R (pr.onClosed p) (pr.onClosed q)

namespace Cycle

variable {P : Type}

/-- Two cycles alike: related protocol states, and the same outstanding, queue and flags. -/
structure Alike (R : P → P → Prop) (c d : Cycle P) : Prop where
  proto : R c.proto d.proto
  rest : c.map (fun _ => ()) = d.map (fun _ => ())

section Alike

variable {pr : Protocol P} {R : P → P → Prop} {c d : Cycle P}

theorem Alike.setProto (h : Alike R c d) {S : P → P → Prop} {p q : P} (hpq : S p q) :
    Alike S { c with proto := p } { d with proto := q } :=
  ⟨hpq, h.rest⟩

theorem Alike.asyncClose (h : Alike R c d) : Alike R (asyncClose c) (asyncClose d) :=
  ⟨h.proto, congrArg (fun m : Cycle Unit => { m with closes := m.closes + 1 }) h.rest⟩

theorem Alike.foldl_send (h : Alike R c d) (bufs : List Bytes) :
    Alike R (bufs.foldl send c) (bufs.foldl send d) := by
  refine ⟨?_, ?_⟩
  · rw [Cycle.foldl_send, Cycle.foldl_send]; exact h.proto
  · rw [← map_foldl_send, ← map_foldl_send, h.rest]

theorem Alike.map_eq {Q : Type} {f : P → Q} (hf : ∀ p q, R p q → f p = f q) (h : Alike R c d) :
    c.map f = d.map f := by
  have hr := h.rest
  simp only [map, mk.injEq, true_and] at hr ⊢
  exact ⟨hf _ _ h.proto, hr⟩

theorem Alike.asyncReceive_of (hr : ∀ p q, R p q → pr.receive p = pr.receive q)
    (h : Alike R c d) : Outcome.Rel (Alike R) (asyncReceive pr c) (asyncReceive pr d) := by
  unfold Cycle.asyncReceive
  rw [hr _ _ h.proto]
  cases pr.receive d.proto <;>
    first | trivial | exact ⟨h.proto, congrArg (fun m : Cycle Unit => { m with reads := m.reads + 1 }) h.rest⟩

theorem Alike.afterData_of (hr : ∀ p q, R p q → pr.receive p = pr.receive q) (h : Alike R c d)
    (bufs : List Bytes) (r : Feedback) :
    Outcome.Rel (Alike R) (afterData pr c bufs r) (afterData pr d bufs r) := by
  cases r with
  | kContinue => exact (h.foldl_send bufs).asyncReceive_of hr
  | kClose => exact (h.foldl_send bufs).asyncClose
  | kFinished | kData => exact h.foldl_send bufs

theorem Alike.closeOnce_of (hc : ∀ p q, R p q → R (pr.onClosed p) (pr.onClosed q))
    (h : Alike R c d) : Alike R (closeOnce pr c) (closeOnce pr d) := by
  have hq : c.outgoingQueue = d.outgoingQueue := by have := congrArg outgoingQueue h.rest; exact this
  have hi : c.invoked = d.invoked := by have := congrArg invoked h.rest; exact this
  dsimp only [Cycle.closeOnce, finalize]
  by_cases h1 : c.outgoingQueue = []
  swap
  · rw [if_pos h1, if_pos (hq ▸ h1)]
    exact ⟨h.proto, congrArg (fun m : Cycle Unit =>
      { m with closes := m.closes - 1, prepareForShutdown := true }) h.rest⟩
  rw [if_neg (not_not.2 h1), if_neg (not_not.2 (hq ▸ h1))]
  by_cases h2 : c.invoked = true
  · rw [if_pos h2, if_pos (hi ▸ h2)]
    exact ⟨h.proto, congrArg (fun m : Cycle Unit => { m with closes := m.closes - 1 }) h.rest⟩
  · rw [if_neg h2, if_neg (hi ▸ h2)]
    exact ⟨hc _ _ h.proto, congrArg (fun m : Cycle Unit =>
      { m with closes := m.closes - 1, invoked := true, finalizes := m.finalizes + 1 }) h.rest⟩

variable (hb : pr.Bisim R)
include hb

theorem Alike.asyncReceive (h : Alike R c d) :
    Outcome.Rel (Alike R) (asyncReceive pr c) (asyncReceive pr d) :=
  h.asyncReceive_of hb.receive

theorem Alike.afterData (h : Alike R c d) (bufs : List Bytes) (r : Feedback) :
    Outcome.Rel (Alike R) (afterData pr c bufs r) (afterData pr d bufs r) :=
  h.afterData_of hb.receive bufs r

theorem Alike.afterSent (h : Alike R c d) (bufs : List Bytes) (r : Feedback) :
    Outcome.Rel (Alike R) (afterSent pr c bufs r) (afterSent pr d bufs r) := by
  cases r with
  | kContinue => exact (h.foldl_send bufs).asyncReceive hb
  | kClose => exact (h.foldl_send bufs).asyncClose
  | kData => exact h.foldl_send bufs
  | kFinished => trivial

theorem Alike.receiveEventCb (h : Alike R c d) (res : Option Bytes) :
    Outcome.Rel (Alike R) (receiveEventCb pr c res) (receiveEventCb pr d res) := by
  have h' : Alike R { c with reads := c.reads - 1 } { d with reads := d.reads - 1 } :=
    ⟨h.proto, congrArg (fun m : Cycle Unit => { m with reads := m.reads - 1 }) h.rest⟩
  cases res with
  | none => exact h'.asyncClose
  | some chunk =>
    refine (hb.onData _ _ chunk h.proto).bind fun x y hxy => ?_
    obtain ⟨p, bufs, r⟩ := x
    obtain ⟨q, bufs', r'⟩ := y
    obtain ⟨hpq, he⟩ := hxy
    cases he
    exact (h'.setProto hpq).afterData hb bufs r
theorem Alike.sendEventCb (h : Alike R c d) (ok : Bool) :
    Outcome.Rel (Alike R) (sendEventCb pr c ok) (sendEventCb pr d ok) := by
  have hq : c.outgoingQueue = d.outgoingQueue := by have := congrArg outgoingQueue h.rest; exact this
  cases ok
  · have h0 : Alike R { c with writes := c.writes - 1, outgoingQueue := [] }
        { d with writes := d.writes - 1, outgoingQueue := [] } :=
      ⟨h.proto, congrArg (fun m : Cycle Unit =>
        { m with writes := m.writes - 1, outgoingQueue := [] }) h.rest⟩
    exact h0.asyncClose
  · have ht : Alike R { c with writes := c.writes - 1, outgoingQueue := c.outgoingQueue.tail }
        { d with writes := d.writes - 1, outgoingQueue := d.outgoingQueue.tail } :=
      ⟨h.proto, congrArg (fun m : Cycle Unit =>
        { m with writes := m.writes - 1, outgoingQueue := m.outgoingQueue.tail }) h.rest⟩
    have hd : d.outgoingQueue.tail = [] ↔ c.outgoingQueue.tail = [] := by rw [hq]
    simp only [Cycle.sendEventCb, Bool.not_true, Bool.false_eq_true, if_false, ne_eq]
    by_cases h0 : c.outgoingQueue.tail = []
    swap
    · rw [if_pos h0, if_pos (mt hd.1 h0)]
      exact (⟨ht.proto, congrArg (fun m : Cycle Unit => { m with writes := m.writes + 1 }) ht.rest⟩ :
        Alike R (asyncSend { c with writes := c.writes - 1, outgoingQueue := c.outgoingQueue.tail })
          (asyncSend { d with writes := d.writes - 1, outgoingQueue := d.outgoingQueue.tail }))
    rw [if_neg (not_not.2 h0), if_neg (not_not.2 (hd.2 h0))]
    obtain ⟨hs, hsc⟩ := hb.onSent _ _ h.proto
    rw [← hsc]
    refine ((ht.setProto hs).afterSent hb _ _).bind fun x y hxy => ?_
    rw [show y.prepareForShutdown = x.prepareForShutdown by
      have := congrArg prepareForShutdown hxy.rest; exact this.symm]
    split
    · have hf : Alike R { x with prepareForShutdown := false } { y with prepareForShutdown := false } :=
        ⟨hxy.proto, congrArg (fun m : Cycle Unit => { m with prepareForShutdown := false }) hxy.rest⟩
      exact hf.asyncClose
    · exact hxy

theorem Alike.closeOnce (h : Alike R c d) : Alike R (closeOnce pr c) (closeOnce pr d) :=
  h.closeOnce_of hb.onClosed

theorem Alike.complete (h : Alike R c d) (e : Completion) :
    Outcome.Rel (Alike R) (complete pr c e) (complete pr d e) := by
  cases e with
  | read res => exact h.receiveEventCb hb res
  | write ok => exact h.sendEventCb hb ok
  | close => exact h.closeOnce hb

theorem Alike.completeAll (h : Alike R c d) (es : List Completion) :
    Outcome.Rel (Alike R) (completeAll pr c es) (completeAll pr d es) := by
  induction es generalizing c d with
  | nil => exact h
  | cons e es ih => exact (h.complete hb e).bind fun _ _ h' => ih h'

theorem Alike.completeAll_map {Q : Type} {f : P → Q} (hf : ∀ p q, R p q → f p = f q)
    (h : Alike R c d) (es : List Completion) :
    map f <$> Cycle.completeAll pr c es = map f <$> Cycle.completeAll pr d es :=
  (h.completeAll hb es).map_eq fun _ _ h' => h'.map_eq hf

end Alike

end Cycle

/-! ### What the handlers of `Http` read -/

namespace Program

def view (p : Program) : Program :=
  if p.vm then p
  else
    { p with
      resultCode := 200
      finished := false
      bytesProcessedCnt := 0
      cancellationRequest := false }

section View
variable (p : Program)

theorem view_of_vm {p : Program} (h : p.vm = true) : p.view = p := if_pos h

@[simp] theorem view_vm : p.view.vm = p.vm := by unfold view; split <;> rfl

@[simp] theorem isSet_view : p.view.isSet = p.isSet := view_vm p

@[simp] theorem hasMoreData_view : p.view.hasMoreData = p.hasMoreData := by
  unfold view; split <;> rfl

@[simp] theorem view_view : p.view.view = p.view := by
  cases p with | mk _ _ _ _ _ vm _ => cases vm <;> rfl

@[simp] theorem getData_view_fst : p.view.getData.1 = p.getData.1 := by
  unfold view; split <;> rfl

@[simp] theorem view_getData_view : p.view.getData.2.view = p.getData.2.view := by
  cases p with | mk _ _ _ _ _ vm _ => cases vm <;> rfl

@[simp] theorem reset_view_snd : p.view.reset.2 = p.reset.2 := by
  simp only [reset, view_vm]

@[simp] theorem view_reset_view : p.view.reset.1.view = p.reset.1.view := by
  cases p with | mk _ _ _ _ _ vm _ => cases vm <;> rfl

end View

end Program

namespace HttpSession

/-- A session as its handlers read it. -/
def view (s : HttpSession) : HttpSession :=
  { s with
    responseHeader := { HttpResponseHeader.init with sent := s.responseHeader.sent }
    program := s.program.view
    d := ⟨0, []⟩ }

def Code200 (s : HttpSession) : Prop := s.program.vm = true → s.program.resultCode = 200

section View
variable {s : HttpSession}

@[simp] theorem view_ubuf : s.view.ubuf = s.ubuf := rfl
@[simp] theorem view_bytesReceived : s.view.bytesReceived = s.bytesReceived := rfl
@[simp] theorem view_expectedDataChunckSz : s.view.expectedDataChunckSz = s.expectedDataChunckSz := rfl
@[simp] theorem view_expectedDataChunckSzSet :
    s.view.expectedDataChunckSzSet = s.expectedDataChunckSzSet := rfl
@[simp] theorem view_requestHeader : s.view.requestHeader = s.requestHeader := rfl
@[simp] theorem view_responseHeader :
    s.view.responseHeader = { HttpResponseHeader.init with sent := s.responseHeader.sent } := rfl
@[simp] theorem view_program : s.view.program = s.program.view := rfl

@[simp] theorem view_view (s : HttpSession) : s.view.view = s.view := by
  simp [view]

theorem consume_view (n : Nat) : s.view.consume n = view <$> s.consume n := by
  simp only [consume, view_ubuf]
  split_ifs <;> rfl

theorem consume_program {a b : HttpSession} {n : Nat} (h : a.consume n = .ok b) :
    b.program = a.program := by
  unfold consume at h
  split_ifs at h <;> cases h <;> rfl

theorem tryHandleHeader_view (parser : HttpParser) :
    tryHandleHeader parser s.view = Option.map view <$> tryHandleHeader parser s := by
  unfold tryHandleHeader
  simp only [view_requestHeader, view_ubuf]
  cases s.requestHeader.tryParse parser s.ubuf with
  | mk e h =>
    cases e with
    | none => rfl
    | some e =>
      refine (congrArg (fun x => some <$> x)
        (consume_view (s := { s with requestHeader := h }.setExpectedDataLength h.getContentLength)
          e)).trans ?_
      simp only [Outcome.map_map]
      rfl

theorem onDataHeader_view (parser : HttpParser) :
    onDataHeader parser s.view = Except.map view <$> onDataHeader parser s := by
  unfold onDataHeader
  simp only [view_requestHeader, tryHandleHeader_view]
  split_ifs
  · rfl
  · cases tryHandleHeader parser s with
    | ok o => cases o <;> rfl
    | _ => rfl

theorem onDataProgram_view (past : Nat → UInt8) :
    onDataProgram past s.view = Except.map view <$> onDataProgram past s := by
  unfold onDataProgram
  simp only [view_program, Program.isSet_view, view_requestHeader, view_ubuf]
  by_cases h1 : s.program.isSet
  · rw [if_pos h1, if_pos h1]; rfl
  rw [if_neg h1, if_neg h1]
  cases urlPrefix vscriptUrl s.requestHeader.url with
  | none => rfl
  | some b =>
    cases b with
    | false =>
      cases urlPrefix sinkholeUrl s.requestHeader.url with
      | none => rfl
      | some b => cases b <;> rfl
    | true =>
      by_cases h2 : s.requestHeader.getContentLength < 2
      · rw [if_pos h2, if_pos h2]; rfl
      rw [if_neg h2, if_neg h2]
      cases ht : tryParse (bufferAt s.ubuf past) s.ubuf.length with
      | ok st =>
        cases st with
        | success p c =>
          obtain ⟨-, -, -, -, -, -, -, q, rfl⟩ := tryParse_success ht
          refine (congrArg (fun x => Except.ok <$> x) (consume_view
            (s := { s with program := Program.moveAssign { Program.empty with instructions := q } })
              c)).trans ?_
          simp only [Outcome.ok_bind, Outcome.map_map]
          rfl
        | _ => rfl
      | _ => rfl

theorem onDataProgram_ready {past : Nat → UInt8} {s s' : HttpSession} (hc : s.Code200)
    (h : onDataProgram past s = .ok (.ok s')) :
    s'.program.view = s'.program ∧ s'.program.resultCode = 200 := by
  unfold onDataProgram at h
  split at h
  · cases h; exact ⟨Program.view_of_vm ‹_›, hc ‹_›⟩
  split at h
  · cases h
  · split at h
    · cases h
    obtain ⟨st, ht, h⟩ := Outcome.bind_eq_ok h
    cases st with
    | success p c =>
      obtain ⟨s₂, hcs, he⟩ := Outcome.map_eq_ok h
      cases he
      obtain ⟨-, -, -, -, -, -, -, q, rfl⟩ := tryParse_success ht
      rw [consume_program hcs]
      exact ⟨rfl, rfl⟩
    | _ => cases h
  · split at h
    · cases h
    · cases h; exact ⟨rfl, rfl⟩
    · cases h

theorem onDataFeed_view (hp : s.program.view = s.program) (hc : s.program.resultCode = 200) :
    Prod.map view id <$> s.view.onDataFeed = Prod.map view id <$> s.onDataFeed := by
  unfold onDataFeed
  simp only [view_program, hp, view_ubuf, view_requestHeader, checkFinished,
    view_expectedDataChunckSz, view_expectedDataChunckSzSet, view_bytesReceived, Outcome.map_bind]
  refine Outcome.bind_congr fun ⟨p, calls⟩ hf => ?_
  have h200 : p.resultCode = 200 := (Program.feed_frame hf).2.2.2 hc
  split_ifs
  · obtain ⟨c₁, e₁⟩ := HttpResponseHeader.prepare_contents s.view.responseHeader p.downloadSize
      s.requestHeader.keepAlive
    obtain ⟨c₂, e₂⟩ := HttpResponseHeader.prepare_contents s.responseHeader p.downloadSize
      s.requestHeader.keepAlive
    simp only [respond, Program.getResponse, h200, e₁, e₂, Outcome.ok_bind, Outcome.pure_eq,
      Outcome.map_ok]
    rfl
  · rfl

theorem onDataFeed_resultCode {s' : HttpSession} {calls : List VmCall} {r : Feedback}
    (hc : s.program.resultCode = 200) (h : s.onDataFeed = .ok (s', calls, r)) :
    s'.program.resultCode = 200 := by
  unfold onDataFeed at h
  obtain ⟨⟨p, cs⟩, hf, h⟩ := Outcome.bind_eq_ok h
  have h200 := (Program.feed_frame hf).2.2.2 hc
  dsimp only at h
  split at h
  · obtain ⟨s₂, hr, h⟩ := Outcome.bind_eq_ok h
    cases h
    rw [(respond_frame hr).1]
    exact h200
  · cases h
    exact h200

theorem onData_view (hc : s.Code200) (parser : HttpParser) (past : Nat → UInt8) :
    Prod.map view id <$> s.view.onData parser past = Prod.map view id <$> s.onData parser past := by
  unfold onData
  rw [onDataHeader_view]
  cases h₁ : onDataHeader parser s with
  | ok x =>
    cases x with
    | error r => simp [Except.map]
    | ok s₁ =>
      have hc₁ : s₁.Code200 := by unfold Code200; rw [onDataHeader_program h₁]; exact hc
      simp only [Outcome.map_ok, Outcome.ok_bind, Except.map, onDataProgram_view]
      cases h₂ : onDataProgram past s₁ with
      | ok y =>
        cases y with
        | error r => simp [Except.map]
        | ok s₂ =>
          obtain ⟨hp, h200⟩ := onDataProgram_ready hc₁ h₂
          exact onDataFeed_view hp h200
      | _ => rfl
  | _ => rfl

theorem onData_code200 {parser : HttpParser} {past : Nat → UInt8} {s' : HttpSession}
    {calls : List VmCall} {r : Feedback} (h : s.onData parser past = .ok (s', calls, r))
    (hc : s.Code200) : s'.Code200 := by
  unfold onData at h
  obtain ⟨x, h₁, h⟩ := Outcome.bind_eq_ok h
  cases x with
  | error => cases h; exact hc
  | ok s₁ =>
    have hc₁ : s₁.Code200 := by unfold Code200; rw [onDataHeader_program h₁]; exact hc
    obtain ⟨y, h₂, h⟩ := Outcome.bind_eq_ok h
    cases y with
    | error => cases h; exact hc₁
    | ok s₂ => exact fun _ => onDataFeed_resultCode (onDataProgram_ready hc₁ h₂).2 h

@[simp] theorem reset_view_fst (s : HttpSession) : s.view.reset.1.view = s.reset.1.view := by
  simp [reset, view, resetBuffers, HttpResponseHeader.reset]

@[simp] theorem reset_view_snd (s : HttpSession) : s.view.reset.2 = s.reset.2 :=
  Program.reset_view_snd s.program

theorem onSent_view (s : HttpSession) : Prod.map view id s.view.onSent = Prod.map view id s.onSent := by
  unfold onSent
  simp only [view_program, Program.hasMoreData_view, view_requestHeader]
  split_ifs
  · simp [view, send, DynamicString.fill]
  · simp
  · simp

theorem onData_congr {a b : HttpSession} (h : a.view = b.view) (ha : a.Code200) (hb : b.Code200)
    (parser : HttpParser) (past : Nat → UInt8) :
    Prod.map view id <$> a.onData parser past = Prod.map view id <$> b.onData parser past := by
  rw [← onData_view ha, h, onData_view hb]

theorem onSent_congr {a b : HttpSession} (h : a.view = b.view) :
    Prod.map view id a.onSent = Prod.map view id b.onSent := by
  rw [← onSent_view a, h, onSent_view]

theorem onSent_code200 (hc : s.Code200) : s.onSent.1.Code200 := by
  unfold onSent
  split_ifs
  · exact hc
  · intro h; simp [reset, Program.reset] at h
  · exact hc

theorem reset_view_init (h : s.program.downloadSize = 0) :
    { s.reset.1 with outgoingQueue := [] }.view = init.view := by
  simp [reset, view, resetBuffers, init, Program.view, Program.reset, Program.empty,
    HttpResponseHeader.reset, HttpResponseHeader.init, h]

end View

end HttpSession

/-! ### The bisimulation of `Http`, and the keep-alive restart -/

def HttpAlike (a b : HttpSession × List VmCall) : Prop :=
  a.1.Code200 ∧ b.1.Code200 ∧ a.1.view = b.1.view ∧ a.2 = b.2

theorem HttpAlike.map_eq {a b : HttpSession × List VmCall} (h : HttpAlike a b) :
    Prod.map HttpSession.view id a = Prod.map HttpSession.view id b :=
  Prod.ext h.2.2.1 h.2.2.2

theorem HttpAlike.of_map_eq {x y : HttpSession × List VmCall × Feedback} {cs ds : List VmCall}
    (hc : cs = ds) (hx : x.1.Code200) (hy : y.1.Code200)
    (h : Prod.map HttpSession.view id x = Prod.map HttpSession.view id y) :
    HttpAlike ({ x.1 with outgoingQueue := [] }, cs ++ x.2.1)
        ({ y.1 with outgoingQueue := [] }, ds ++ y.2.1) ∧
      (x.1.outgoingQueue, x.2.2) = (y.1.outgoingQueue, y.2.2) := by
  obtain ⟨h₁, h₂⟩ := Prod.ext_iff.1 h
  obtain ⟨x₁, x₂⟩ := x
  obtain ⟨y₁, y₂⟩ := y
  dsimp only [Prod.map, id] at h₁ h₂
  subst hc h₂
  have hv := congrArg (fun v : HttpSession => { v with outgoingQueue := [] }) h₁
  have hq := congrArg (fun v : HttpSession => (v.outgoingQueue, x₂.2)) h₁
  exact ⟨⟨hx, hy, hv, rfl⟩, hq⟩

open HttpSession in
/-- The handlers of `Http` treat sessions of the same view alike. -/
theorem httpVm_bisim (parser : HttpParser) (past : Nat → UInt8) :
    (httpVmProtocol parser past).Bisim HttpAlike where
  onData p q chunk h := by
    obtain ⟨hp, hq, hv, hc⟩ := h
    have hv' : ({ p.1 with outgoingQueue := [] }.deliver chunk).view =
        ({ q.1 with outgoingQueue := [] }.deliver chunk).view :=
      congrArg (fun v : HttpSession => { v with outgoingQueue := [] }.deliver chunk) hv
    refine (Outcome.rel_of_map_eq (onData_congr hv' hp hq parser past) (P := fun x => x.1.Code200)
      (fun _ hx => onData_code200 hx hp) (fun _ hy => onData_code200 hy hq)).map ?_
    rintro x y ⟨hxy, hx, hy⟩
    exact HttpAlike.of_map_eq hc hx hy hxy
  onSent p q h := by
    obtain ⟨hp, hq, hv, hc⟩ := h
    have hv' : { p.1 with outgoingQueue := [] }.view = { q.1 with outgoingQueue := [] }.view :=
      congrArg (fun v : HttpSession => { v with outgoingQueue := [] }) hv
    exact HttpAlike.of_map_eq hc (onSent_code200 hp) (onSent_code200 hq) (onSent_congr hv')
  receive p q h := by
    show (fun _ => ()) <$> p.1.view.asyncReceive = (fun _ => ()) <$> q.1.view.asyncReceive
    rw [h.2.2.1]
  onClosed p q h := by
    obtain ⟨-, -, hv, hc⟩ := h
    have hr := congrArg (fun v : HttpSession => v.program.reset) hv
    simp only [view_program] at hr
    refine ⟨fun h => by simp [httpVmProtocol, Program.reset] at h,
      fun h => by simp [httpVmProtocol, Program.reset] at h, ?_, ?_⟩
    · have := congrArg (fun v : HttpSession => { v with program := v.program.reset.1.view }) hv
      simpa only [view_program, Program.view_reset_view] using this
    · show p.2 ++ _ = q.2 ++ _
      rw [hc, ← Program.reset_view_snd, congrArg Prod.snd hr, Program.reset_view_snd]

theorem begin_init (parser : HttpParser) (past : Nat → UInt8) :
    Cycle.begin (httpVmProtocol parser past) (HttpSession.init, []) =
      .ok ⟨(HttpSession.init, []), 1, 0, [], 0, false, false, 0⟩ := rfl

/-- After a keep-alive and its `cleanup`, the session runs as the one `Http()` builds. -/
theorem keep_alive_restarts {parser : HttpParser} {past : Nat → UInt8} {ident : Nat} {s : HttpRun}
    (hr : HttpRun.Reachable parser past ident s) (hq : s.cycle.proto.2 = [])
    (hw : 0 < s.cycle.writes) (ht : s.cycle.outgoingQueue.tail = [])
    (hk : ((httpVmProtocol parser past).onSent s.cycle.proto).2.2 = .kContinue)
    {c : Cycle (HttpSession × List VmCall)}
    (hc : Cycle.sendEventCb (httpVmProtocol parser past) s.cycle true = .ok c) :
    c.proto.2 = s.cycle.proto.1.program.reset.2 ∧
    ∃ c₀, Cycle.begin (httpVmProtocol parser past) (HttpSession.init, []) = .ok c₀ ∧
      ∀ es : List Completion,
        Cycle.map (Prod.map HttpSession.view id) <$>
            Cycle.completeAll (httpVmProtocol parser past) { c with proto := (c.proto.1, []) } es =
          Cycle.map (Prod.map HttpSession.view id) <$>
            Cycle.completeAll (httpVmProtocol parser past) c₀ es := by
  have hi := HttpRun.cycle_inv hr
  have hz := hi.quiet_write hw
  set a : HttpSession := { s.cycle.proto.1 with outgoingQueue := [] }
  have hd := (HttpSession.onSent_of_continue (s := a) hk).1
  have hs := httpVm_onSent_of_continue hk
  obtain rfl := Cycle.sendEventCb_of_continue ht hk (by rw [hs]) hi.no_shutdown hc
  rw [hs]
  refine ⟨by rw [hq]; rfl, _, begin_init parser past,
    Cycle.Alike.completeAll_map (httpVm_bisim parser past) (fun _ _ h => h.map_eq)
      ⟨⟨nofun, nofun, HttpSession.reset_view_init hd, rfl⟩, ?_⟩⟩
  obtain ⟨h₁, h₂, h₃, h₄, -, h₅, h₆⟩ := hz
  dsimp only at h₁ h₂ h₃ h₄ h₅ h₆
  simp only [Cycle.map, h₁, h₂, h₃, h₄, h₅, h₆, Nat.zero_add]

theorem keep_alive_restarts_after_sinkhole :
    let parser : HttpParser := fun _ =>
      ⟨[.url (ascii "/sinkhole/"), .field (ascii "Connection"), .value (ascii "keep-alive")], -1⟩
    ∃ (s : HttpRun) (c : Cycle (HttpSession × List VmCall)),
      HttpRun.Reachable parser (fun _ => 0) 1 s ∧ s.cycle.proto.2 = [] ∧ 0 < s.cycle.writes ∧
      s.cycle.outgoingQueue.tail = [] ∧
      ((httpVmProtocol parser (fun _ => 0)).onSent s.cycle.proto).2.2 = .kContinue ∧
      Cycle.sendEventCb (httpVmProtocol parser (fun _ => 0)) s.cycle true = .ok c ∧
      (c.proto.2 = s.cycle.proto.1.program.reset.2 ∧
        ∃ c₀, Cycle.begin (httpVmProtocol parser (fun _ => 0)) (HttpSession.init, []) = .ok c₀ ∧
          ∀ es : List Completion,
            Cycle.map (Prod.map HttpSession.view id) <$>
                Cycle.completeAll (httpVmProtocol parser (fun _ => 0))
                  { c with proto := (c.proto.1, []) } es =
              Cycle.map (Prod.map HttpSession.view id) <$>
                Cycle.completeAll (httpVmProtocol parser (fun _ => 0)) c₀ es) := by
  dsimp only
  have h₀ := @HttpRun.Reachable.start (fun _ =>
      ⟨[.url (ascii "/sinkhole/"), .field (ascii "Connection"), .value (ascii "keep-alive")], -1⟩)
    (fun _ => 0) 1 HttpSession.init _
    LSVirtualMachine.init (.inr fun _ h => by simp [LSVirtualMachine.init, VMResource.fresh] at h) rfl
  have h₁ := h₀.read (some (ascii "GET /sinkhole/ HTTP/1.1\r\nConnection: keep-alive\r\n\r\n")) rfl
    (by decide) rfl
  exact ⟨_, _, h₁, rfl, by decide, rfl, rfl, rfl, keep_alive_restarts h₁ rfl (by decide) rfl rfl rfl⟩

end LServer

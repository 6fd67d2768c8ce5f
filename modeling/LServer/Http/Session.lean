import LServer.Http.Request
import LServer.Http.Response
import LServer.Program.TryParse

set_option autoImplicit false

namespace LServer

inductive Feedback where
  | kFinished
  | kContinue
  | kClose
  | kData
  deriving DecidableEq, Repr

/-- The state of one `Session<Http>` its handlers read and write. -/
structure HttpSession where
  ubuf : Bytes
  bytesReceived : Nat
  expectedDataChunckSz : Nat
  expectedDataChunckSzSet : Bool
  requestHeader : HttpRequestHeader
  responseHeader : HttpResponseHeader
  program : Program
  d : DynamicString
  outgoingQueue : List Bytes
  deriving DecidableEq, Repr

namespace HttpSession

def init : HttpSession :=
  ⟨[], 0, 0, false, .empty, .init, .empty, ⟨256 * 1024, []⟩, []⟩

/-! ### `Session` -/

def consume (s : HttpSession) (length : Nat) : Outcome HttpSession :=
  if length = 0 then .ok { s with ubuf := [] }
  else if length ≤ s.ubuf.length then .ok { s with ubuf := s.ubuf.drop length }
  else .undefined

def setExpectedDataLength (s : HttpSession) (len : Nat) : HttpSession :=
  { s with expectedDataChunckSz := len, expectedDataChunckSzSet := true }

def checkFinished (s : HttpSession) : Bool :=
  s.expectedDataChunckSzSet && s.expectedDataChunckSz ≤ s.bytesReceived

def resetBuffers (s : HttpSession) : HttpSession :=
  { s with
    expectedDataChunckSzSet := false
    expectedDataChunckSz := 0
    bytesReceived := 0
    ubuf := [] }

def send (s : HttpSession) (qb : Bytes) : HttpSession :=
  { s with outgoingQueue := s.outgoingQueue ++ [qb] }

def maxTransferSz : Nat := 256 * 1024

def sizeSub (a b : Nat) : Nat := (a + 2 ^ 64 - b % 2 ^ 64) % 2 ^ 64

def asyncReceive (s : HttpSession) : Outcome Nat :=
  if s.expectedDataChunckSzSet then
    let remaining := sizeSub s.expectedDataChunckSz s.bytesReceived
    if remaining = 0 then .thrown else .ok (min remaining maxTransferSz)
  else .ok 1

/-! ### `Http` -/

def tryHandleHeader (parser : HttpParser) (s : HttpSession) : Outcome (Option HttpSession) :=
  match s.requestHeader.tryParse parser s.ubuf with
  | (none, _) => .ok none
  | (some e, h) =>
    some <$> ({ s with requestHeader := h }.setExpectedDataLength h.getContentLength).consume e

def onDataHeader (parser : HttpParser) (s : HttpSession) : Outcome (Except Feedback HttpSession) :=
  if s.requestHeader.ready then .ok (.ok s)
  else (fun o => match o with | none => .error .kContinue | some s => .ok s) <$>
    tryHandleHeader parser s

def onDataProgram (past : Nat → UInt8) (s : HttpSession) : Outcome (Except Feedback HttpSession) :=
  if s.program.isSet then .ok (.ok s)
  else
    match urlPrefix vscriptUrl s.requestHeader.url with
    | none => .undefined
    | some true =>
      if s.requestHeader.getContentLength < 2 then .ok (.error .kClose)
      else do
        match ← tryParse (bufferAt s.ubuf past) s.ubuf.length with
        | .success p consumeLen => .ok <$> { s with program := p }.consume consumeLen
        | .needMoreData => .ok (.error .kContinue)
        | .failed => .ok (.error .kClose)
    | some false =>
      match urlPrefix sinkholeUrl s.requestHeader.url with
      | none => .undefined
      | some true => .ok (.ok { s with program := Program.sinkhole })
      | some false => .ok (.error .kClose)

def respond (s : HttpSession) (code : Int) (keepAlive : Bool) (size : Nat) :
    Outcome HttpSession := do
  let h ← s.responseHeader.prepare code size keepAlive
  pure { s.send h.buffer.contents with responseHeader := h.setSent }

def onDataFeed (s : HttpSession) : Outcome (HttpSession × List VmCall × Feedback) := do
  let s := { s with program := { s.program with vm := true } }
  let (p, calls) ← s.program.feed s.ubuf.length s.checkFinished
  let s := { s with program := p, ubuf := [] }
  if p.finished then
    let s ← s.respond p.getResponse.1 s.requestHeader.keepAlive p.getResponse.2
    pure (s, calls, .kFinished)
  else pure (s, calls, .kContinue)

/-- `Http::on_data()`. -/
def onData (parser : HttpParser) (past : Nat → UInt8) (s : HttpSession) :
    Outcome (HttpSession × List VmCall × Feedback) := do
  match ← onDataHeader parser s with
  | .error r => pure (s, [], r)
  | .ok s =>
    match ← onDataProgram past s with
    | .error r => pure (s, [], r)
    | .ok s => onDataFeed s

/-- `Http::reset()`: the program, both headers and the session's buffers start over. -/
def reset (s : HttpSession) : HttpSession × List VmCall :=
  ({ s.resetBuffers with
      program := s.program.reset.1
      requestHeader := .empty
      responseHeader := s.responseHeader.reset }, s.program.reset.2)

/-- `Http::on_sent()`, called when the outgoing queue has drained. -/
def onSent (s : HttpSession) : HttpSession × List VmCall × Feedback :=
  if s.program.hasMoreData then
    let d := s.d.fill s.program.getData.1
    ({ s.send d.contents with program := s.program.getData.2, d := d }, [], .kData)
  else if s.requestHeader.keepAlive then (s.reset.1, s.reset.2, .kContinue)
  else (s, [], .kClose)

theorem onSent_of_continue {s : HttpSession} (h : s.onSent.2.2 = .kContinue) :
    s.program.downloadSize = 0 ∧ s.onSent = (s.reset.1, s.reset.2, .kContinue) := by
  unfold onSent at h ⊢
  split_ifs at h ⊢ with h₁
  exact ⟨by simpa [Program.hasMoreData] using h₁, rfl⟩

/-- The sizes `on_sent` queues on successive write completions, and what it returns then. -/
def sentRun : Nat → HttpSession → List Nat × Option Feedback
  | 0, _ => ([], none)
  | fuel + 1, s =>
    match s.onSent with
    | (s', _, .kData) => (s'.d.size :: (sentRun fuel s').1, (sentRun fuel s').2)
    | (_, _, r) => ([], some r)

theorem onSent_of_pos {s : HttpSession} (h : 0 < s.program.downloadSize) :
    ∃ s', s.onSent = (s', [], .kData) ∧
      s'.d.size = min Program.kSendBufferSz s.program.downloadSize ∧
      s'.program.downloadSize =
        s.program.downloadSize - min Program.kSendBufferSz s.program.downloadSize := by
  unfold onSent
  rw [if_pos (by simpa [Program.hasMoreData] using h)]
  exact ⟨_, rfl, by simp [DynamicString.fill, DynamicString.size, Program.getData], rfl⟩

theorem onSent_of_zero {s : HttpSession} (h : s.program.downloadSize = 0) :
    s.onSent.2.2 = .kContinue ∨ s.onSent.2.2 = .kClose := by
  unfold onSent
  rw [if_neg (by simp [Program.hasMoreData, h])]
  split <;> simp

theorem sentRun_succ (fuel : Nat) (s : HttpSession) :
    sentRun (fuel + 1) s = if s.onSent.2.2 = .kData then
      (s.onSent.1.d.size :: (sentRun fuel s.onSent.1).1, (sentRun fuel s.onSent.1).2)
    else ([], some s.onSent.2.2) := by
  rw [sentRun.eq_2]
  split <;> simp_all

/-- A download streams in chunks of at most `kSendBufferSz` bytes that add up to its size. -/
theorem sentRun_sum (s : HttpSession) (fuel : Nat)
    (hf : (s.program.downloadSize + Program.kSendBufferSz - 1) / Program.kSendBufferSz < fuel) :
    (sentRun fuel s).1.sum = s.program.downloadSize ∧
      (∀ n ∈ (sentRun fuel s).1, 0 < n ∧ n ≤ Program.kSendBufferSz) ∧
      ((sentRun fuel s).2 = some .kContinue ∨ (sentRun fuel s).2 = some .kClose) := by
  induction fuel generalizing s with
  | zero => exact absurd hf (Nat.not_lt_zero _)
  | succ fuel ih =>
    rw [sentRun_succ]
    rcases Nat.eq_zero_or_pos s.program.downloadSize with h0 | hpos
    · have hr := onSent_of_zero h0
      rw [if_neg (by rcases hr with h | h <;> rw [h] <;> decide)]
      simpa [h0] using hr
    · obtain ⟨s', hs', hd, hdl⟩ := onSent_of_pos hpos
      have hK : Program.kSendBufferSz = 65536 := rfl
      rw [hK] at hf hd hdl
      obtain ⟨h1, h2, h3⟩ := ih s' (by rw [hdl, hK]; omega)
      simp only [hs', if_true, List.sum_cons, List.mem_cons, forall_eq_or_imp, h1, hd, hdl, hK]
      exact ⟨by omega, ⟨⟨by omega, by omega⟩, hK ▸ h2⟩, h3⟩

theorem sentRun_sum_of_download :
    let s := { HttpSession.init with program := { Program.empty with downloadSize := 100000 } }
    (sentRun 3 s).1.sum = s.program.downloadSize ∧
      (∀ n ∈ (sentRun 3 s).1, 0 < n ∧ n ≤ Program.kSendBufferSz) ∧
      ((sentRun 3 s).2 = some .kContinue ∨ (sentRun 3 s).2 = some .kClose) :=
  sentRun_sum _ 3 (by decide)

inductive AfterRead where
  | read (atLeast : Nat)
  | close
  | idle
  deriving DecidableEq, Repr

def deliver (s : HttpSession) (chunk : Bytes) : HttpSession :=
  { s with ubuf := s.ubuf ++ chunk, bytesReceived := s.bytesReceived + chunk.length }

def receiveEventCb (parser : HttpParser) (past : Nat → UInt8) (s : HttpSession) (chunk : Bytes) :
    Outcome (HttpSession × List VmCall × AfterRead) := do
  let (s, calls, r) ← (s.deliver chunk).onData parser past
  match r with
  | .kContinue => (fun n => (s, calls, .read n)) <$> s.asyncReceive
  | .kClose => pure (s, calls, .close)
  | .kFinished | .kData => pure (s, calls, .idle)

def receiveRun (parser : HttpParser) (past : Nat → UInt8) :
    HttpSession → List Bytes → Outcome HttpSession
  | s, [] => .ok s
  | s, c :: cs => do
    let (s, _, next) ← s.receiveEventCb parser past c
    match next with
    | .read _ => receiveRun parser past s cs
    | _ => pure s

section Spec
variable {s s' : HttpSession}

theorem consume_of_le {n : Nat} (h0 : 0 < n) (h : n ≤ s.ubuf.length) :
    s.consume n = .ok { s with ubuf := s.ubuf.drop n } := by
  simp [consume, h, Nat.pos_iff_ne_zero.mp h0]

theorem respond_frame {code : Int} {keepAlive : Bool} {size : Nat}
    (h : s.respond code keepAlive size = .ok s') :
    s'.program = s.program ∧ s'.ubuf = s.ubuf ∧ s'.bytesReceived = s.bytesReceived ∧
      s'.requestHeader = s.requestHeader := by
  obtain ⟨_, -, he⟩ := Outcome.bind_eq_ok h
  cases he
  exact ⟨rfl, rfl, rfl, rfl⟩

theorem onDataFeed_frame {calls : List VmCall} {r : Feedback}
    (h : s.onDataFeed = .ok (s', calls, r)) :
    s'.program.bytesProcessedCnt = s.program.bytesProcessedCnt + s.ubuf.length ∧
      s'.program.vm = true ∧ s'.ubuf = [] ∧ s'.bytesReceived = s.bytesReceived ∧
      s'.requestHeader = s.requestHeader := by
  unfold onDataFeed at h
  obtain ⟨⟨p, cs⟩, hf, h⟩ := Outcome.bind_eq_ok h
  obtain ⟨h1, h2, -⟩ := Program.feed_frame hf
  dsimp only at h
  split at h
  · obtain ⟨s2, hr, h⟩ := Outcome.bind_eq_ok h
    cases h
    obtain ⟨e1, e2, e3, e4⟩ := respond_frame hr
    simp_all
  · cases h
    simp_all

theorem asyncReceive_of_unset (h : s.expectedDataChunckSzSet = false) : s.asyncReceive = .ok 1 := by
  simp [asyncReceive, h]

theorem asyncReceive_of_lt (h : s.expectedDataChunckSzSet = true)
    (hlt : s.bytesReceived < s.expectedDataChunckSz) (h64 : s.expectedDataChunckSz < 2 ^ 64) :
    s.asyncReceive = .ok (min (s.expectedDataChunckSz - s.bytesReceived) maxTransferSz) := by
  have hs : sizeSub s.expectedDataChunckSz s.bytesReceived =
      s.expectedDataChunckSz - s.bytesReceived := by
    unfold sizeSub
    rw [Nat.mod_eq_of_lt (by omega : s.bytesReceived < 2 ^ 64),
      show s.expectedDataChunckSz + 2 ^ 64 - s.bytesReceived =
        s.expectedDataChunckSz - s.bytesReceived + 2 ^ 64 by omega, Nat.add_mod_right,
      Nat.mod_eq_of_lt (by omega)]
  simp only [asyncReceive, h, if_true, hs]
  rw [if_neg (by omega)]

theorem onDataFeed_of_nil (hi : s.program.instructions = [])
    (hc : s.program.cancellationRequest = false) :
    s.onDataFeed =
      let p := { s.program with
        vm := true
        bytesProcessedCnt := s.program.bytesProcessedCnt + s.ubuf.length
        finished := s.checkFinished }
      if s.checkFinished then
        (fun s' => (s', [], .kFinished)) <$>
          { s with program := p, ubuf := [] }.respond p.resultCode s.requestHeader.keepAlive
            p.downloadSize
      else .ok ({ s with program := p, ubuf := [] }, [], .kContinue) := by
  simp only [onDataFeed, Program.feed, hi, List.length_nil, Program.feedLoop, hc, Bool.false_or,
    List.isEmpty_nil, Bool.false_eq_true, if_false, Outcome.map_ok, Outcome.ok_bind, checkFinished]
  split <;> rfl

theorem consume_queue {a b : HttpSession} {n : Nat} (h : a.consume n = .ok b) :
    b.outgoingQueue = a.outgoingQueue := by
  unfold consume at h
  split_ifs at h <;> cases h <;> rfl

theorem respond_queue {a b : HttpSession} {code : Int} {keepAlive : Bool} {size : Nat}
    (h : a.respond code keepAlive size = .ok b) : ∃ q, b.outgoingQueue = a.outgoingQueue ++ [q] := by
  obtain ⟨_, -, he⟩ := Outcome.bind_eq_ok h
  cases he
  exact ⟨_, rfl⟩

theorem onDataHeader_queue {parser : HttpParser} {x : Except Feedback HttpSession}
    (h : onDataHeader parser s = .ok x) :
    x = .error .kContinue ∨ ∃ s', x = .ok s' ∧ s'.outgoingQueue = s.outgoingQueue := by
  unfold onDataHeader at h
  split at h
  · cases h; exact .inr ⟨s, rfl, rfl⟩
  obtain ⟨o, ho, rfl⟩ := Outcome.map_eq_ok h
  unfold tryHandleHeader at ho
  split at ho
  · cases ho; exact .inl rfl
  · obtain ⟨s2, hc, rfl⟩ := Outcome.map_eq_ok ho
    exact .inr ⟨s2, rfl, (consume_queue hc :)⟩

theorem onDataProgram_queue {past : Nat → UInt8} {x : Except Feedback HttpSession}
    (h : onDataProgram past s = .ok x) :
    x = .error .kContinue ∨ x = .error .kClose ∨
      ∃ s', x = .ok s' ∧ s'.outgoingQueue = s.outgoingQueue := by
  unfold onDataProgram at h
  split at h
  · cases h; exact .inr (.inr ⟨s, rfl, rfl⟩)
  split at h
  · cases h
  · split at h
    · cases h; exact .inr (.inl rfl)
    obtain ⟨st, -, h⟩ := Outcome.bind_eq_ok h
    cases st with
    | success p c =>
      obtain ⟨s2, hc, rfl⟩ := Outcome.map_eq_ok h
      exact .inr (.inr ⟨s2, rfl, (consume_queue hc :)⟩)
    | needMoreData => cases h; exact .inl rfl
    | failed => cases h; exact .inr (.inl rfl)
  · split at h
    · cases h
    · cases h; exact .inr (.inr ⟨_, rfl, rfl⟩)
    · cases h; exact .inr (.inl rfl)

theorem onDataFeed_queue {calls : List VmCall} {r : Feedback}
    (h : s.onDataFeed = .ok (s', calls, r)) :
    (r = .kFinished ∧ ∃ b, s'.outgoingQueue = s.outgoingQueue ++ [b]) ∨
      (r = .kContinue ∧ s'.outgoingQueue = s.outgoingQueue) := by
  unfold onDataFeed at h
  obtain ⟨⟨p, cs⟩, -, h⟩ := Outcome.bind_eq_ok h
  dsimp only at h
  split at h
  · obtain ⟨s2, hr, h⟩ := Outcome.bind_eq_ok h
    cases h
    obtain ⟨q, hq⟩ := respond_queue hr
    exact .inl ⟨rfl, q, hq⟩
  · cases h
    exact .inr ⟨rfl, rfl⟩

theorem onData_queue {parser : HttpParser} {past : Nat → UInt8} {calls : List VmCall}
    {r : Feedback} (h : s.onData parser past = .ok (s', calls, r)) :
    (r = .kFinished ∧ ∃ b, s'.outgoingQueue = s.outgoingQueue ++ [b]) ∨
      ((r = .kContinue ∨ r = .kClose) ∧ s'.outgoingQueue = s.outgoingQueue) := by
  obtain ⟨x, hx, h⟩ := Outcome.bind_eq_ok h
  rcases onDataHeader_queue hx with rfl | ⟨s2, rfl, hq2⟩
  · cases h; exact .inr ⟨.inl rfl, rfl⟩
  obtain ⟨y, hy, h⟩ := Outcome.bind_eq_ok h
  rcases onDataProgram_queue hy with rfl | rfl | ⟨s3, rfl, hq3⟩
  · cases h; exact .inr ⟨.inl rfl, hq2⟩
  · cases h; exact .inr ⟨.inr rfl, hq2⟩
  · rcases onDataFeed_queue h with ⟨rfl, b, hb⟩ | ⟨rfl, hb⟩
    · exact .inl ⟨rfl, b, by rw [hb, hq3, hq2]⟩
    · exact .inr ⟨.inl rfl, by rw [hb, hq3, hq2]⟩

theorem onSent_queue :
    (s.onSent.2.2 = .kData ∧ ∃ b, s.onSent.1.outgoingQueue = s.outgoingQueue ++ [b]) ∨
      ((s.onSent.2.2 = .kContinue ∨ s.onSent.2.2 = .kClose) ∧
        s.onSent.1.outgoingQueue = s.outgoingQueue) := by
  unfold onSent
  split
  · exact .inl ⟨rfl, _, rfl⟩
  · split
    · exact .inr ⟨.inl rfl, rfl⟩
    · exact .inr ⟨.inr rfl, rfl⟩

end Spec

theorem receiveEventCb_of_tryParse_eq {parser parser' : HttpParser} {past : Nat → UInt8} {s : HttpSession}
    {chunk : Bytes} (h : s.requestHeader.tryParse parser (s.ubuf ++ chunk) =
      s.requestHeader.tryParse parser' (s.ubuf ++ chunk)) :
    s.receiveEventCb parser past chunk = s.receiveEventCb parser' past chunk := by
  simp only [receiveEventCb, onData, onDataHeader, tryHandleHeader, deliver, h]

end HttpSession

end LServer
